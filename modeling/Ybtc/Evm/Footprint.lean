import Ybtc.Evm.ViewCommit

/-!
# The addresses and positions in use

An operation brings no other addresses into the caches than its own, and no other storage positions.
This is so for every state, in order or not.
-/

namespace Ybtc

open State

open Stateful (Keeps stateAfter bind_of_ok bind_of_error)

variable {env : StateEnv} {db : OverlayDB} {A : H160 → Prop} {P : U256 → Prop} {s s' : State}
  {a : H160} {acc : Account} {p : U256} {α β : Type}

/-- Only positions in use are in the overlay. -/
def SlotsIn (P : U256 → Prop) (acc : Account) : Prop :=
  ∀ p w, acc.storageOverlay.lookup p = some w → P p

/-- **Only addresses and positions in use** are in the caches and in the list of touched accounts,
    and the node store has only grown. -/
structure Footprint (db : OverlayDB) (A : H160 → Prop) (P : U256 → Prop) (s : State) : Prop
    extends Confined A P s where
  grown : Grown db s.db
  touched : ∀ a ∈ s.touched, A a
  missing : ∀ a ∈ s.nonExistingAccountsCache, A a

lemma slotsIn_empty (h : acc.storageOverlay = ∅) : SlotsIn P acc := by
  intro p w hl
  rw [h] at hl
  cases hl

lemma SlotsIn.of_eq (h : SlotsIn P acc) {acc' : Account}
    (heq : acc'.storageOverlay = acc.storageOverlay) : SlotsIn P acc' := by
  intro p w hl
  rw [heq] at hl
  exact h p w hl

lemma SlotsIn.insert (h : SlotsIn P acc) (hp : P p) {acc' : Account} {w : U256}
    (heq : acc'.storageOverlay = acc.storageOverlay.insert p w) : SlotsIn P acc' := by
  intro q w' hl
  rw [heq] at hl
  by_cases hq : q = p
  · exact hq ▸ hp
  · rw [AList.lookup_insert_ne hq] at hl
    exact h q w' hl

namespace Footprint

section

variable (h : Footprint db A P s)

include h

lemma slotsIn (hl : s.cache.lookup a = some acc) : SlotsIn P acc := fun _ _ hp => h.slots hl hp

/-- **The account in the cache is replaced.** -/
lemma setCache (ha : A a) (hacc : SlotsIn P acc) : Footprint db A P (s.setCache a acc) where
  accounts {b acc'} hb := by
    by_cases hba : b = a
    · exact hba ▸ ha
    · rw [State.setCache, AList.lookup_insert_ne hba] at hb
      exact h.accounts hb
  slots {b acc' p w} hb hp := by
    by_cases hba : b = a
    · subst hba
      rw [setCache, AList.lookup_insert] at hb
      cases hb
      exact hacc p w hp
    · rw [State.setCache, AList.lookup_insert_ne hba] at hb
      exact h.slots hb hp
  grown := h.grown
  touched := h.touched
  missing := h.missing

/-- Entries leave the cache. -/
lemma shrink (hc : ∀ {a acc}, s'.cache.lookup a = some acc → s.cache.lookup a = some acc)
    (hdb : Grown s.db s'.db) (ht : s'.touched = s.touched)
    (hm : ∀ a ∈ s'.nonExistingAccountsCache, A a) : Footprint db A P s' where
  accounts hl := h.accounts (hc hl)
  slots hl hp := h.slots (hc hl) hp
  grown := h.grown.trans hdb
  touched := by rw [ht]; exact h.touched
  missing := hm

lemma note (cs : List Change) : Footprint db A P (s.note cs) := h.shrink id (.refl _) rfl h.missing

variable (env) in
/-- `m_cache[a]`, which makes an account if there is none. -/
lemma cacheAt (a : H160) : SlotsIn P (State.cacheAt env s a) := by
  unfold State.cacheAt
  cases hl : s.cache.lookup a with
  | none => exact slotsIn_empty rfl
  | some acc => exact h.slotsIn hl

variable (env) in
lemma clearCacheIfTooLarge : Footprint db A P (clearCacheIfTooLarge env s) := by
  have hev : Evicts s (State.clearCacheIfTooLarge env s) := evicts_clearCacheIfTooLarge s
  generalize State.clearCacheIfTooLarge env s = s1 at hev ⊢
  refine h.shrink (fun {a acc} hl => ?_) (hev.db ▸ .refl _) hev.touched
    (by rw [hev.nonExisting]; exact h.missing)
  rcases hev.cache a with heq | ⟨hn, -⟩
  · exact heq ▸ hl
  · rw [hn] at hl
    cases hl

lemma storeCodeSize (k : Uint256) (n : ℕ) : Footprint db A P (storeCodeSize env k n s) := by
  unfold State.storeCodeSize
  split_ifs <;> exact h.shrink id (.refl _) rfl h.missing

end

end Footprint

/-! ## Operations -/

/-- An account that comes from a record has no word in memory. -/
lemma overlay_readAccount {b : Bytes} (h : readAccount b = .ok acc) : acc.storageOverlay = ∅ := by
  unfold readAccount at h
  simp only [Fallible.bind_ok] at h
  obtain ⟨_, -, _, -, _, -, _, -, _, -, _, -, contractRoot, -, _, -, _, -, h⟩ := h
  split_ifs at h
  cases h
  rfl

variable (env) in
/-- A record from the trie enters the cache. -/
lemma cacheLoaded_footprint (h : Footprint db A P s) (ha : A a) (b : Bytes) :
    Footprint db A P (stateAfter (cacheLoaded env a b s)) ∧
      ∀ acc s', cacheLoaded env a b s = .ok acc s' → SlotsIn P acc := by
  have hclear := h.clearCacheIfTooLarge env
  unfold cacheLoaded
  generalize clearCacheIfTooLarge env s = s1 at hclear ⊢
  cases hr : readAccount b with
  | error e => exact ⟨hclear, fun acc s' heq => by cases heq⟩
  | ok acc =>
    have hacc : SlotsIn P acc := slotsIn_empty (overlay_readAccount hr)
    refine ⟨(hclear.setCache ha hacc).shrink id (.refl _) rfl hclear.missing, fun acc' s' heq => ?_⟩
    cases heq
    exact hacc

variable (env) in
/-- Asking for an account brings in no other address. -/
lemma account_footprint (h : Footprint db A P s) (ha : A a) :
    Footprint db A P (stateAfter (account env a s)) ∧
      ∀ acc s', account env a s = .ok (some acc) s' → SlotsIn P acc := by
  unfold account
  cases hl : s.cache.lookup a with
  | some acc =>
    refine ⟨h, fun acc' s' heq => ?_⟩
    cases heq
    exact h.slotsIn hl
  | none =>
    dsimp only
    split_ifs with hm
    · exact ⟨h, fun acc' s' heq => by cases heq⟩
    · cases hat : trieAt s.db s.root (accountKey env a) with
      | error e => exact ⟨h, fun acc' s' heq => by cases heq⟩
      | ok stateBack =>
        dsimp only
        split_ifs with hb
        · refine ⟨h.shrink id (.refl _) rfl fun b hb => ?_, fun acc' s' heq => by cases heq⟩
          rcases List.mem_cons.mp hb with rfl | hb
          · exact ha
          · exact h.missing b hb
        · have hload := cacheLoaded_footprint env h ha stateBack
          cases hx : cacheLoaded env a stateBack s with
          | error e s1 =>
            rw [hx] at hload
            have hx' : (some <$> cacheLoaded env a stateBack) s = .error e s1 := bind_of_error hx
            rw [hx']
            exact ⟨hload.1, fun acc' s' heq => by cases heq⟩
          | ok acc s1 =>
            rw [hx] at hload
            have hx' : (some <$> cacheLoaded env a stateBack) s = .ok (some acc) s1 := bind_of_ok hx
            rw [hx']
            refine ⟨hload.1, fun acc' s' heq => ?_⟩
            cases heq
            exact hload.2 acc s1 rfl

/-- **The operation stays within** the addresses and positions in use. -/
def Stays (db : OverlayDB) (A : H160 → Prop) (P : U256 → Prop) (x : ScM α) : Prop :=
  Keeps (Footprint db A P) (fun _ => True) x

lemma stays_of {x : ScM α} (h : ∀ s, Footprint db A P s → Footprint db A P (stateAfter (x s))) :
    Stays db A P x :=
  fun s hs => ⟨h s hs, fun _ _ _ => trivial⟩

@[grind ←] lemma stays_bind {x : ScM α} {f : α → ScM β} (hx : Stays db A P x)
    (hf : ∀ b, Stays db A P (f b)) : Stays db A P (x >>= f) :=
  Keeps.bind hx fun b _ => hf b

@[grind ←] lemma stays_pure (b : β) : Stays db A P (pure b : ScM β) := Keeps.pure trivial

@[grind ←] lemma stays_throw (e : Fault) : Stays db A P (throw e : ScM β) := Keeps.throw e

/-- **An operation that begins with an account.** -/
lemma stays_account (ha : A a) {f : Option Account → ScM β} (hnone : Stays db A P (f none))
    (hsome : ∀ acc, SlotsIn P acc → Stays db A P (f (some acc))) :
    Stays db A P (account env a >>= f) := by
  refine Keeps.bind (Q := fun r => ∀ acc, r = some acc → SlotsIn P acc) (fun s hs => ?_) ?_
  · have h := account_footprint env hs ha
    exact ⟨h.1, fun r s' hr acc hacc => h.2 acc s' (hacc ▸ hr)⟩
  · intro r hr
    cases r with
    | none => exact hnone
    | some acc => exact hsome acc (hr acc rfl)

@[grind ←] lemma addressInUse_footprint (ha : A a) : Stays db A P (addressInUse env a) :=
  stays_account ha (stays_pure _) fun _ _ => stays_pure _

lemma balance_footprint (ha : A a) : Stays db A P (balance env a) :=
  stays_account ha (stays_pure _) fun _ _ => stays_pure _

lemma codeHash_footprint (ha : A a) : Stays db A P (codeHash env a) :=
  stays_account ha (stays_pure _) fun _ _ => stays_pure _

lemma addressHasCode_footprint (ha : A a) : Stays db A P (addressHasCode env a) :=
  stays_account ha (stays_pure _) fun _ _ => stays_pure _

lemma getNonce_footprint (ha : A a) : Stays db A P (getNonce env a) :=
  stays_account ha (stays_of fun _ hs => hs) fun _ _ => stays_pure _

@[grind ←] lemma putAccount_footprint (ha : A a) (hacc : SlotsIn P acc) :
    Stays db A P (putAccount a acc) :=
  stays_of fun _ hs => hs.setCache ha hacc

@[grind ←] lemma logChange_footprint (c : Change) : Stays db A P (logChange c) :=
  stays_of fun _ hs => hs.note [c]

@[grind ←] lemma requireAccountStartNonce_footprint : Stays db A P requireAccountStartNonce := by
  refine Keeps.of_stateAfter (fun s => ?_) fun _ _ _ _ _ => trivial
  unfold requireAccountStartNonce
  split_ifs <;> rfl

section

variable (ha : A a)

include ha

lemma createAccount_footprint (hacc : SlotsIn P acc) : Stays db A P (createAccount env a acc) := by
  have hfound : Stays db A P fun s => .ok () { s with
      nonExistingAccountsCache := s.nonExistingAccountsCache.filter (· != a) } :=
    stays_of fun s hs =>
      hs.shrink id (.refl _) rfl fun b hb => hs.missing b (List.mem_of_mem_filter hb)
  grind [createAccount]

@[grind ←] lemma createNew_footprint (nonce balance : U256) :
    Stays db A P (createAccount env a (Account.created env.sha3 nonce balance)) :=
  createAccount_footprint ha (slotsIn_empty rfl)

lemma createContract_footprint : Stays db A P (createContract env a) := by
  grind [createContract]

lemma incNonce_footprint : Stays db A P (incNonce env a) := by
  refine stays_account ha (by grind) fun acc hacc => ?_
  have hacc' : SlotsIn P acc.incNonce := hacc.of_eq rfl
  grind

@[grind ←] lemma addBalance_footprint (amount : U256) : Stays db A P (addBalance env a amount) := by
  refine stays_account ha (by grind [creditAccount]) fun acc hacc => stays_bind ?_ (by grind)
  exact stays_bind (by grind [logTouch]) fun _ => putAccount_footprint ha (hacc.of_eq rfl)

lemma subBalance_footprint (value : U256) : Stays db A P (subBalance env a value) := by
  refine Keeps.ite (fun _ => stays_pure _) fun _ => ?_
  exact stays_account ha (by grind) fun _ _ => by grind

lemma kill_footprint : Stays db A P (kill env a) :=
  stays_account ha (stays_pure _) fun _ _ => putAccount_footprint ha (slotsIn_empty rfl)

lemma setNewCode_footprint (c : Bytes) : Stays db A P (setNewCode env a c) :=
  stays_of fun s hs => by
    have hacc : SlotsIn P ((cacheAt env s a).setNewCode env.sha3 c) := (hs.cacheAt env a).of_eq rfl
    exact (hs.setCache ha hacc).note [.newCode a]

lemma loadCode_footprint (hacc : SlotsIn P acc) : Stays db A P (loadCode env a acc) := by
  refine stays_of fun s hs => ?_
  unfold loadCode Account.noteCode
  by_cases hh : env.sha3 (s.db.lookup acc.codeHash) = acc.codeHash
  · rw [if_pos hh]
    have hacc' : SlotsIn P { acc with codeCache := s.db.lookup acc.codeHash } := hacc.of_eq rfl
    exact (hs.setCache ha hacc').storeCodeSize _ _
  · rw [if_neg hh]
    exact hs

lemma code_footprint : Stays db A P (code env a) := by
  refine stays_account ha (stays_pure _) fun acc hacc => ?_
  have hload : Stays db A P (loadCode env a acc) := loadCode_footprint ha hacc
  grind

lemma codeSize_footprint : Stays db A P (codeSize env a) := by
  refine stays_account ha (stays_pure _) fun acc _ =>
    Keeps.ite (fun _ => stays_pure _) fun _ => stays_of fun s hs => ?_
  cases hl : s.codeSizes.lookup acc.codeHash with
  | some n => exact hs
  | none =>
    have hcode : Stays db A P (code env a) := code_footprint ha
    refine (stays_bind hcode (fun c => ?_) s hs).1
    exact stays_of fun s hs => hs.storeCodeSize _ _

end

/-- A trie operation that only adds nodes leaves the caches alone. -/
lemma onDb_footprint {x : TrieM α} (hx : Grows x) : Stays db A P (onDb x) := by
  refine stays_of fun s hs => ?_
  have hg := hx s.db
  unfold onDb
  cases hr : x s.db <;> rw [hr] at hg <;> exact hs.shrink id hg rfl hs.missing

lemma loadSlot_grows (root : Uint256) (p : U256) : Grows (loadSlot env root p) :=
  (openRoot_grows env.sha3 root).bind fun _ => Grows.of_except

/-- A read puts its own position into the overlay, and no other. -/
lemma storage_footprint (ha : A a) (hp : P p) : Stays db A P (storage env a p) := by
  refine stays_account ha (stays_pure _) fun acc hacc => ?_
  dsimp only
  cases acc.storageOverlay.lookup p with
  | some w => exact stays_pure _
  | none =>
    refine stays_bind (Keeps.liftExcept _) fun _ => ?_
    refine stays_bind (onDb_footprint (loadSlot_grows _ _)) fun _ => ?_
    exact stays_bind (putAccount_footprint ha (hacc.insert hp rfl)) fun _ => stays_pure _

lemma setStorage_footprint (ha : A a) (hp : P p) (w : U256) :
    Stays db A P (setStorage env a p w) := by
  refine stays_bind (storage_footprint ha hp) fun _ =>
    stays_bind (logChange_footprint _) fun _ => ?_
  exact stays_of fun _ hs => hs.setCache ha ((hs.cacheAt env a).insert hp rfl)

/-! ## Commit and setRoot -/

lemma mem_dirtyAddresses_cached {cache : AccountMap} (h : a ∈ dirtyAddresses cache) :
    ∃ acc, cache.lookup a = some acc := by
  obtain ⟨e, he, rfl⟩ := List.mem_map.mp h
  exact ⟨e.2, mem_entries_iff.mp (List.mem_of_mem_filter he)⟩

/-- A commit touches the accounts that were in the cache, and empties it. -/
lemma commit_footprint {behaviour : CommitBehaviour} {world world' : Uint256 → Option Content}
    (hs : Footprint db A P s) (h : CommitDone env behaviour world s s' world') :
    Footprint db A P s' where
  toConfined := confined_of_empty h.cache
  grown := hs.grown.trans h.db
  touched a ha := by
    rw [h.touched, List.mem_append] at ha
    rcases ha with ha | ha
    · obtain ⟨acc, hl⟩ := mem_dirtyAddresses_cached ha
      unfold prepared at hl
      split_ifs at hl
      · rw [lookup_removeEmptyAccounts, Option.map_eq_some_iff] at hl
        obtain ⟨acc0, hl, -⟩ := hl
        exact hs.accounts hl
      · exact hs.accounts hl
    · exact hs.touched a ha
  missing := by
    rw [h.nonExisting]
    exact hs.missing

lemma setRoot_footprint (root : Uint256) : Stays db A P (setRoot env root) := by
  refine stays_bind (stays_of fun s hs => ?_) fun _ => onDb_footprint (openRoot_grows _ _)
  refine hs.shrink (fun hl => ?_) (.refl _) rfl fun _ h => ?_
  · cases hl
  · cases h

end Ybtc
