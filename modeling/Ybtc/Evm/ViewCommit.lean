import Ybtc.Evm.StateView

/-!
# Committing what is shown

What `commit` makes of the map that a state shows, as long as no two addresses and no two positions
that are in use have one hash.  The main result is `CommitDone.world_eq`.
-/

namespace Ybtc

open View

open Stateful (Assuming)

variable (env : StateEnv) (A : H160 → Prop) (P : U256 → Prop)

/-- **The addresses and the positions in use have different hashes.** -/
structure Apart : Prop where
  accounts : ∀ {a b}, A a → A b → addressHash env a = addressHash env b → a = b
  slots : ∀ {p q}, P p → P q → slotHash env p = slotHash env q → p = q

/-- **Only addresses and positions in use are in the caches.** -/
structure Confined (s : State) : Prop where
  accounts : ∀ {a acc}, s.cache.lookup a = some acc → A a
  slots : ∀ {a acc p w}, s.cache.lookup a = some acc → acc.storageOverlay.lookup p = some w → P p

open Classical in
/-- The storage of an account as it goes to the trie. -/
noncomputable def View.store (v : View) (k : Uint256) : U256 :=
  if h : ∃ p, P p ∧ slotHash env p = k then v.words h.choose else v.base k

/-- **The account as it goes to the tries.** -/
noncomputable def View.content (v : View) : Content := ⟨v.nonce, v.balance, v.code, v.store env P⟩

/-- What is left of an account. -/
noncomputable def View.kept (v : View) : Option Content :=
  if v.alive then some (v.content env P) else none

/-- What `removeEmptyAccounts` makes of an account. -/
def View.reaped (v : View) : View := if v.dirty = true ∧ v.isEmpty then v.kill else v

/-- The map that `commit` writes. -/
def preparedView (behaviour : CommitBehaviour) (V : H160 → Option View) : H160 → Option View :=
  if behaviour = .removeEmptyAccounts then fun a => (V a).map View.reaped else V

variable {env A P} {s s' : State} {a : H160} {acc : Account} {v : View} {db : OverlayDB}
  {world world' : Uint256 → Option Content} {V : H160 → Option View}

/-! ## Storage and code are determined -/

variable {behaviour : CommitBehaviour}

lemma slotRecord_inj {v w : U256} (h : (slotRecord v).getD [] = (slotRecord w).getD []) :
    v = w := by
  have hne : ∀ n : U256, rlpInt n ≠ [] := fun n => (isItem_rlpInt n).nonempty
  unfold slotRecord at h
  split_ifs at h with hv hw hw
  · rw [hv, hw]
  · exact absurd h.symm (hne w)
  · exact absurd h (hne v)
  · have heq : rlpInt v = rlpInt w := h
    have := toInt_rlpInt v
    rw [heq, toInt_rlpInt w] at this
    exact (Except.ok.inj this).symm

/-- What is under a storage root is determined. -/
lemma StorageAt.unique {sha3 : Bytes → Uint256} {root : Uint256} {store store' : Uint256 → U256}
    (h : StorageAt sha3 db root store) (h' : StorageAt sha3 db root store') : store = store' := by
  funext k
  have hat := (MapAt.at h k).symm.trans (MapAt.at h' k)
  exact slotRecord_inj (Except.ok.inj hat)

/-- The code of an account is determined. -/
lemma CodeKnown.unique {codeHash : Uint256} {hasNewCode : Bool} {codeCache code code' : Bytes}
    (h : CodeKnown env db codeHash hasNewCode codeCache code)
    (h' : CodeKnown env db codeHash hasNewCode codeCache code') : code = code' := by
  by_cases hnil : code = []
  · subst hnil
    by_contra hne
    exact h'.ne (fun he => hne he.symm) h.hash
  · by_cases hnil' : code' = []
    · subst hnil'
      exact absurd h'.hash (h.ne hnil)
    · cases hasNewCode with
      | true => exact (h.fresh hnil rfl).symm.trans (h'.fresh hnil' rfl)
      | false => exact (h.old hnil rfl).1.symm.trans (h'.old hnil' rfl).1

/-! ## Accounts -/

lemma View.store_slot (hap : Apart env A P) {p : U256} (hp : P p) :
    v.store env P (slotHash env p) = v.words p := by
  have hex : ∃ q, P q ∧ slotHash env q = slotHash env p := ⟨p, hp, rfl⟩
  rw [store, dif_pos hex, hap.slots hex.choose_spec.1 hp hex.choose_spec.2]

lemma View.store_base {k : Uint256} (hk : ∀ p, P p → slotHash env p = k → v.words p = v.base k) :
    v.store env P k = v.base k := by
  unfold store
  split_ifs with hex
  · exact hk _ hex.choose_spec.1 hex.choose_spec.2
  · rfl

/-- An account that was not changed goes to the tries as it came. -/
lemma View.content_stored (c : Content) : (stored env c).content env P = c := by
  have hstore : (stored env c).store env P = c.store :=
    funext fun k => store_base fun p _ hp => congrArg c.store hp
  rw [content, hstore]
  rfl

/-- **An account goes to the tries as the state shows it.** -/
lemma Committed.eq_kept {o : Option Content} (h : Committed env db acc o) (hsh : Shows env db acc v)
    (hap : Apart env A P) (hP : ∀ {p w}, acc.storageOverlay.lookup p = some w → P p) :
    o = v.kept env P := by
  unfold Committed at h
  unfold kept
  rw [hsh.alive]
  split_ifs at h ⊢ with ha
  · obtain ⟨c, base, rfl, hn, hb, hcode, hst, hov⟩ := h
    obtain rfl := hst.unique hsh.base
    have hlookup : ∀ {e : Σ _ : U256, U256}, e ∈ acc.storageOverlay.entries →
        acc.storageOverlay.lookup e.1 = some e.2 := fun he => AList.mem_lookup_iff.mpr he
    have hstore : c.store = v.store env P := by
      funext k
      rcases hov k with ⟨e, he, rfl, hw⟩ | ⟨hne, hw⟩
      · rw [store_slot hap (hP (hlookup he)), hw, hsh.words, hlookup he]
        rfl
      · rw [hw, store_base fun p _ hp => ?_]
        have hnone : acc.storageOverlay.lookup p = none := by
          cases hl : acc.storageOverlay.lookup p with
          | none => rfl
          | some w => exact absurd hp (hne ⟨p, w⟩ (AList.mem_lookup_iff.mp hl))
        rw [hsh.words, hnone, ← hp]
        rfl
    obtain ⟨n, b, code, store⟩ := c
    dsimp only at hn hb hcode hstore
    rw [content, hsh.nonce, hsh.balance, hn, hb, hcode.unique hsh.code, hstore]
  · exact h

/-! ## The whole state -/

lemma Shows.reaped (h : Shows env db acc v) (he : db.lookup (emptyTrie env.sha3) = rlpNull)
    (hne : emptyTrie env.sha3 ≠ 0) : Shows env db (reaped env acc) v.reaped := by
  have hiff : (acc.isDirty && acc.isEmpty env.sha3) = true ↔ v.dirty = true ∧ v.isEmpty := by
    rw [Bool.and_eq_true, h.dirty, h.isEmpty]
  unfold Ybtc.reaped View.reaped
  by_cases hc : v.dirty = true ∧ v.isEmpty
  · rw [if_pos hc, if_pos (hiff.mpr hc)]
    exact h.kill he hne
  · rw [if_neg hc, if_neg fun h => hc (hiff.mp h)]
    exact h

lemma reaped_dirty (acc : Account) : (reaped env acc).isDirty = acc.isDirty := by
  unfold reaped
  split_ifs with h
  · rw [Bool.and_eq_true] at h
    rw [h.1]
    rfl
  · rfl

/-- What `commit` finds in the cache. -/
lemma Coherent.prepared_shown (h : Coherent env s world V)
    (hl : (prepared env behaviour s).cache.lookup a = some acc) : ∃ acc0 v,
      s.cache.lookup a = some acc0 ∧ acc.isDirty = acc0.isDirty ∧
        preparedView behaviour V a = some v ∧ Shows env s.db acc v ∧
          ∀ p w, acc.storageOverlay.lookup p = some w → acc0.storageOverlay.lookup p = some w := by
  unfold prepared at hl
  unfold preparedView
  split_ifs at hl ⊢
  · rw [lookup_removeEmptyAccounts, Option.map_eq_some_iff] at hl
    obtain ⟨acc0, hl, rfl⟩ := hl
    obtain ⟨v, hv, hsh⟩ := h.shown hl
    refine ⟨acc0, v.reaped, hl, reaped_dirty acc0, congrArg (Option.map View.reaped) hv,
      hsh.reaped h.empty h.empty_ne, ?_⟩
    intro p w hp
    unfold reaped at hp
    split_ifs at hp
    · cases hp
    · exact hp
  · obtain ⟨v, hv, hsh⟩ := h.shown hl
    exact ⟨acc, v, hl, rfl, hv, hsh, fun _ _ hp => hp⟩

/-- An account that was not changed is left alone by `removeEmptyAccounts`. -/
lemma preparedView_clean (hv : V a = (world (addressHash env a)).map (stored env)) :
    preparedView behaviour V a = (world (addressHash env a)).map (stored env) := by
  unfold preparedView
  split_ifs
  · refine (congrArg (Option.map View.reaped) hv).trans ?_
    cases world (addressHash env a) with
    | none => rfl
    | some c => rfl
  · exact hv

section

variable (h : CommitDone env behaviour world s s' world')

include h

/-- **The accounts after `commit` are those that the state showed.** -/
lemma CommitDone.world_eq
    (hc : Coherent env s world V) (hconf : Confined A P s) (hap : Apart env A P) (ha : A a) :
    world' (addressHash env a) = (preparedView behaviour V a).bind (kept env P) := by
  rcases h.written (addressHash env a) with ⟨⟨b, acc⟩, he, hd, hk, hcom⟩ | ⟨hne, heq⟩
  · obtain ⟨acc0, v, hl0, -, hv, hsh, hslots⟩ := hc.prepared_shown (mem_entries_iff.mp he)
    obtain rfl : b = a := hap.accounts (hconf.accounts hl0) ha hk
    rw [hcom.eq_kept hsh hap fun hp => hconf.slots hl0 (hslots _ _ hp), hv]
    rfl
  · -- No account that was changed has this hash, so this one was not changed.
    have hclean : V a = (world (addressHash env a)).map (stored env) := by
      cases hl : s.cache.lookup a with
      | none => exact hc.rest hl
      | some acc0 =>
        cases hd : acc0.isDirty with
        | false => exact hc.clean hl hd
        | true =>
          obtain ⟨acc, hlp, hdp⟩ : ∃ acc, (prepared env behaviour s).cache.lookup a = some acc ∧
              acc.isDirty = true := by
            unfold prepared
            split_ifs
            · exact ⟨_, by rw [lookup_removeEmptyAccounts, hl]; rfl, (reaped_dirty acc0).trans hd⟩
            · exact ⟨acc0, hl, hd⟩
          exact absurd rfl (hne ⟨a, acc⟩ (mem_entries_iff.mpr hlp) hdp)
    rw [heq, preparedView_clean hclean]
    cases world (addressHash env a) with
    | none => rfl
    | some c => exact congrArg some (content_stored c).symm

/-- Elsewhere nothing is written. -/
lemma CommitDone.world_other (hc : Coherent env s world V) (hconf : Confined A P s) {k : Uint256}
    (hk : ∀ a, A a → addressHash env a ≠ k) : world' k = world k := by
  rcases h.written k with ⟨⟨b, acc⟩, he, -, hb, -⟩ | ⟨-, heq⟩
  · obtain ⟨acc0, v, hl0, -⟩ := hc.prepared_shown (mem_entries_iff.mp he)
    exact absurd hb (hk b (hconf.accounts hl0))
  · exact heq

/-- **States that show the same accounts commit to the same root.** -/
lemma CommitDone.root_eq {t t' : State} {U : H160 → Option View}
    {world'' : Uint256 → Option Content}
    (h' : CommitDone env behaviour world t t' world'') (hc : Coherent env s world V)
    (hc' : Coherent env t world U) (hs : Confined A P s) (ht : Confined A P t) (hap : Apart env A P)
    (heq : ∀ a, A a → (preparedView behaviour V a).bind (kept env P) =
      (preparedView behaviour U a).bind (kept env P)) : s'.root = t'.root := by
  have hworld : world' = world'' := by
    funext k
    by_cases hk : ∃ a, A a ∧ addressHash env a = k
    · obtain ⟨a, ha, rfl⟩ := hk
      rw [h.world_eq hc hs hap ha, h'.world_eq hc' ht hap ha, heq a ha]
    · have hk' : ∀ a, A a → addressHash env a ≠ k := fun a ha he => hk ⟨a, ha, he⟩
      rw [h.world_other hc hs hk', h'.world_other hc' ht hk']
  have htrie := h'.trie
  rw [← hworld] at htrie
  exact h.trie.root_unique htrie

end

/-- **A state with an empty cache shows what is in the tries.** -/
lemma Coherent.of_empty (hs : Sound env s world) (he : s.cache = ∅) :
    Coherent env s world fun a => (world (addressHash env a)).map (stored env) where
  toSound := hs
  shown hl := by
    rw [he] at hl
    cases hl
  rest _ := rfl
  clean hl := by
    rw [he] at hl
    cases hl

lemma confined_of_empty (he : s.cache = ∅) : Confined A P s where
  accounts hl := by
    rw [he] at hl
    cases hl
  slots hl := by
    rw [he] at hl
    cases hl

end Ybtc
