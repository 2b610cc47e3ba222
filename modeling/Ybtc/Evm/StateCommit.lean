import Ybtc.Evm.StateChange

/-!
# Committing

`commit` writes the changed accounts of the cache to the tries, in an order that the hash table
decides.  As long as the hash function shows no collision it succeeds, and the accounts under the
new root are the old ones with the changed ones written over them.
-/

namespace Ybtc

open Function List Option State Grown

open Stateful (Assuming Reflects stateAfter bind_of_ok)

/-! ## The hash function shows no collision -/

/-- **The hash function shows no collision** on what is in the node store, and neither zero nor the
    hash of nothing is the hash of a record. -/
structure Collisionless (sha3 : Bytes → Uint256) (db : OverlayDB) : Prop where
  collision : NoCollision db
  zero : db.lookup 0 = []
  empty : db.lookup (emptySHA3 sha3) = []

variable {sha3 : Bytes → Uint256} {db db' : OverlayDB}

/-- It did not show one before either. -/
lemma Collisionless.of_grown (h : Collisionless sha3 db') (hg : Grown db db') :
    Collisionless sha3 db := by
  have hback : ∀ k, db'.lookup k = [] → db.lookup k = [] := fun k hk => by
    by_contra hne
    rw [hg.lookup h.collision hne] at hk
    exact hne hk
  exact ⟨hg.noCollision h.collision, hback _ h.zero, hback _ h.empty⟩

lemma Grows.reflects {α : Type} {x : TrieM α} (h : Grows x) : Reflects (Collisionless sha3) x :=
  fun db hc => hc.of_grown (h db)

lemma Yields.assuming {α : Type} {x : TrieM α} {Q : α → OverlayDB → Prop} (h : Yields x db Q)
    (hg : Grows x) : Assuming (Collisionless sha3) x db fun a db' => Q a db' ∧ Grown db db' := by
  intro hc
  obtain ⟨a, db', hr, hq, hgr, -⟩ := h.grown hg hc.collision
  exact ⟨a, db', hr, hq, hgr⟩

/-! ## Storage -/

section Storage

variable {env : StateEnv} {root : Uint256} {base : Uint256 → U256} {acc : Account}

variable (env) in
/-- **Words written over others**, in some order. -/
def Overlaid (slots : List (Σ _ : U256, U256)) (base store : Uint256 → U256) : Prop :=
  ∀ k, (∃ e ∈ slots, slotHash env e.1 = k ∧ store k = e.2) ∨
    ((∀ e ∈ slots, slotHash env e.1 ≠ k) ∧ store k = base k)

lemma Overlaid.nil (base : Uint256 → U256) : Overlaid env [] base base :=
  fun _ => Or.inr ⟨fun _ he => (not_mem_nil he).elim, rfl⟩

variable {store : Uint256 → U256}

lemma Overlaid.snoc {slots : List (Σ _ : U256, U256)}
    (h : Overlaid env slots base store) (e : Σ _ : U256, U256) :
    Overlaid env (slots ++ [e]) base (update store (slotHash env e.1) e.2) := by
  intro k
  by_cases hk : k = slotHash env e.1
  · subst hk
    exact Or.inl ⟨e, by simp, rfl, update_self ..⟩
  · rw [update_of_ne hk]
    rcases h k with ⟨e', he', hh, hv⟩ | ⟨hne, hv⟩
    · exact Or.inl ⟨e', mem_append_left _ he', hh, hv⟩
    · refine Or.inr ⟨fun e' he' => ?_, hv⟩
      rcases mem_append.mp he' with he' | he'
      · exact hne e' he'
      · rw [mem_singleton.mp he']
        exact Ne.symm hk

/-- Only the members of the list matter. -/
lemma Overlaid.perm {slots slots' : List (Σ _ : U256, U256)} (h : Overlaid env slots base store)
    (hp : slots.Perm slots') : Overlaid env slots' base store := by
  intro k
  rcases h k with ⟨e, he, hh⟩ | ⟨hne, hv⟩
  · exact Or.inl ⟨e, hp.mem_iff.mp he, hh⟩
  · exact Or.inr ⟨fun e he => hne e (hp.mem_iff.mpr he), hv⟩

@[grind ←] lemma commitSlots_grows (root : Uint256) (slots : List (Σ _ : U256, U256)) :
    Grows (commitSlots env root slots) :=
  Grows.foldlM (by grind) slots root

/-- The words of the overlay are written. -/
lemma commitSlots_yields (h : StorageAt env.sha3 db root base) (slots : List (Σ _ : U256, U256)) :
    Yields (commitSlots env root slots) db fun root' db' =>
      ∃ store, StorageAt env.sha3 db' root' store ∧ Overlaid env slots base store := by
  refine @Yields.foldlM _ _ _ (by grind)
    (fun done root db => ∃ store, StorageAt env.sha3 db root store ∧ Overlaid env done base store)
    slots [] root db ?_ ⟨base, h, Overlaid.nil base⟩
  rintro e - done root db ⟨store, hst, hov⟩
  exact (hst.write (slotHash env e.1) e.2).weaken fun root' db' hst' _ => ⟨_, hst', hov.snoc e⟩

/-- **The storage of an account is written.** -/
lemma commitStorage_assuming (hr : acc.storageRoot ≠ 0)
    (hst : StorageAt env.sha3 db acc.storageRoot base) :
    Assuming (Collisionless env.sha3) (commitStorage env acc) db fun root' db' =>
      Grown db db' ∧ root' ≠ 0 ∧ ∃ store, StorageAt env.sha3 db' root' store ∧
        Overlaid env acc.storageOverlay.entries base store := by
  have hroot : (Stateful.liftExcept acc.baseRoot : TrieM Uint256) db = .ok acc.storageRoot db := by
    rw [Account.baseRoot, if_neg hr]
    rfl
  refine Assuming.ok_bind hroot ?_
  split_ifs with hnil
  · refine Assuming.pure ⟨refl db, hr, base, hst, ?_⟩
    rw [hnil]
    exact Overlaid.nil base
  · refine Assuming.ok_bind (openRoot_of_stored hst.nonempty) ?_
    refine Assuming.bind ((commitSlots_yields hst _).assuming (commitSlots_grows _ _))
      (fun _ => Grows.reflects (by grind)) ?_
    rintro root' db' hc ⟨⟨store, hst', hov⟩, hg⟩
    have hne : root' ≠ 0 := by
      rintro rfl
      exact hst'.nonempty hc.zero
    have hassert : trieAssert (root' ≠ 0) db' = .ok () db' := by
      rw [trieAssert, if_pos hne]
      rfl
    exact Assuming.ok_bind hassert
      (Assuming.pure ⟨hg, hne, store, hst', hov.perm (env.slotOrder_perm _)⟩)

end Storage

/-! ## Accounts -/

section Accounts

variable {env : StateEnv} {s s' s1 : State} {a : H160} {acc : Account}
  {world world' : Uint256 → Option Content}

variable (env) in
/-- The hash function shows no collision on the node store of the state. -/
def HashesApart (s : State) : Prop := Collisionless env.sha3 s.db

/-- The computation only adds to the node store. -/
def DbGrows {α : Type} (x : ScM α) : Prop := ∀ s, Grown s.db (stateAfter (x s)).db

variable {α : Type} {x : ScM α}

lemma DbGrows.reflects (h : DbGrows x) : Reflects (HashesApart env) x :=
  fun s hc => Collisionless.of_grown hc (h s)

lemma DbGrows.bind {β : Type} {f : α → ScM β} (hx : DbGrows x) (hf : ∀ a, DbGrows (f a)) :
    DbGrows (x >>= f) :=
  fun s => Stateful.stateAfter_bind (P := fun s1 => Grown s.db s1.db) (hx s) fun a s1 h =>
    h.trans (hf a s1)

lemma DbGrows.ite {c : Prop} [Decidable c] {y : ScM α} (hx : DbGrows x) (hy : DbGrows y) :
    DbGrows (if c then x else y) := by
  split_ifs
  · exact hx
  · exact hy

lemma onDb_ok {x : TrieM α} {v : α} (h : x s.db = .ok v db) :
    onDb x s = .ok v { s with db := db } := by rw [onDb, h]

lemma onDb_db (x : TrieM α) (s : State) : (stateAfter (onDb x s)).db = stateAfter (x s.db) := by
  unfold onDb
  cases x s.db <;> rfl

lemma onDb_grows {x : TrieM α} (h : Grows x) : DbGrows (onDb x) := by
  intro s
  rw [onDb_db]
  exact h s.db

lemma updateTrie_db (x : Uint256 → TrieM Uint256) (s : State) :
    (stateAfter (updateTrie x s)).db = stateAfter (x s.root s.db) := by
  unfold updateTrie
  cases x s.root s.db <;> rfl

variable {x : Uint256 → TrieM Uint256}

lemma updateTrie_grows (h : ∀ root, Grows (x root)) : DbGrows (updateTrie x) := by
  intro s
  rw [updateTrie_db]
  exact h s.root s.db

lemma commitCode_eq (acc : Account) (s : State) : State.commitCode env acc s =
    .ok () (if acc.hasNewCode then
      { storeCodeSize env acc.codeHash acc.codeCache.length s with
        db := s.db.insert acc.codeHash acc.codeCache } else s) := by
  unfold commitCode
  split_ifs <;> rfl

lemma commitCode_grows (acc : Account) : DbGrows (State.commitCode env acc) := by
  intro s
  rw [commitCode_eq]
  split_ifs
  · exact insert _ _ _
  · exact refl _

lemma commitAccount_grows (a : H160) (acc : Account) : DbGrows (State.commitAccount env a acc) :=
  DbGrows.ite (fun _ => refl _) <| DbGrows.ite
    ((onDb_grows (by grind [commitStorage])).bind fun _ => (commitCode_grows acc).bind fun _ =>
      updateTrie_grows fun _ => trieInsert_grows _ _ _)
    (updateTrie_grows fun _ => trieRemove_grows _ _)

lemma commitAccounts_grows : ∀ entries : List (Σ _ : H160, Account),
    DbGrows (commitAccounts env entries)
  | [] => fun _ => refl _
  | e :: entries => (commitAccount_grows e.1 e.2).bind fun _ => commitAccounts_grows entries

/-- What `commit` does not look at is as it was. -/
structure SameCaches (s s' : State) : Prop where
  cache : s'.cache = s.cache
  nonExisting : s'.nonExistingAccountsCache = s.nonExistingAccountsCache
  touched : s'.touched = s.touched
  accountStartNonce : s'.accountStartNonce = s.accountStartNonce
  changeLog : s'.changeLog = s.changeLog

lemma SameCaches.refl (s : State) : SameCaches s s := ⟨rfl, rfl, rfl, rfl, rfl⟩

lemma SameCaches.trans (h1 : SameCaches s s1) (h2 : SameCaches s1 s') : SameCaches s s' :=
  ⟨h2.cache.trans h1.cache, h2.nonExisting.trans h1.nonExisting, h2.touched.trans h1.touched,
    h2.accountStartNonce.trans h1.accountStartNonce, h2.changeLog.trans h1.changeLog⟩

/-- Code that works on the node store of the state. -/
lemma onDb_assuming {x : TrieM α} {Q : α → OverlayDB → Prop}
    (h : Assuming (Collisionless env.sha3) x s.db Q) :
    Assuming (HashesApart env) (onDb x) s fun a s' =>
      Q a s'.db ∧ s' = { s with db := s'.db } := by
  intro hc
  rw [HashesApart, onDb_db] at hc
  obtain ⟨a, db', hr, hq⟩ := h hc
  exact ⟨a, _, onDb_ok hr, hq, rfl⟩

/-- An update of the state trie. -/
lemma updateTrie_assuming {Q : Uint256 → OverlayDB → Prop}
    (h : Assuming (Collisionless env.sha3) (x s.root) s.db Q) :
    Assuming (HashesApart env) (updateTrie x) s fun _ s' =>
      Q s'.root s'.db ∧ s' = { s with root := s'.root, db := s'.db } := by
  intro hc
  rw [HashesApart, updateTrie_db] at hc
  obtain ⟨root, db', hr, hq⟩ := h hc
  exact ⟨(), _, by rw [updateTrie, hr], hq, rfl⟩

variable (env) in
/-- **What becomes of an account of the cache**, by the node store before: it is written as it is,
    or removed. -/
def Committed (db : OverlayDB) (acc : Account) (o : Option Content) : Prop :=
  if acc.isAlive then ∃ c base, o = some c ∧ c.nonce = acc.nonce ∧ c.balance = acc.balance ∧
    CodeKnown env db acc.codeHash acc.hasNewCode acc.codeCache c.code ∧
    StorageAt env.sha3 db acc.storageRoot base ∧
    Overlaid env acc.storageOverlay.entries base c.store
  else o = none

variable (env) in
/-- **Accounts written over others**, in some order: those that were changed. -/
def Written (db : OverlayDB) (entries : List (Σ _ : H160, Account))
    (world world' : Uint256 → Option Content) : Prop :=
  ∀ k, (∃ e ∈ entries, e.2.isDirty = true ∧ addressHash env e.1 = k ∧
    Committed env db e.2 (world' k)) ∨
    ((∀ e ∈ entries, e.2.isDirty = true → addressHash env e.1 ≠ k) ∧ world' k = world k)

lemma Written.nil (db : OverlayDB) (world : Uint256 → Option Content) :
    Written env db [] world world :=
  fun _ => Or.inr ⟨fun _ he => (not_mem_nil he).elim, rfl⟩

/-- One account and then others. -/
lemma Written.cons {e : Σ _ : H160, Account} {entries : List (Σ _ : H160, Account)}
    {world1 : Uint256 → Option Content} (h1 : Written env db [e] world world1)
    (h2 : Written env db entries world1 world') : Written env db (e :: entries) world world' := by
  intro k
  rcases h2 k with ⟨e', he', hd, hk, hc⟩ | ⟨hne, heq⟩
  · exact Or.inl ⟨e', mem_cons_of_mem _ he', hd, hk, hc⟩
  · rw [heq]
    rcases h1 k with ⟨e', he', hd, hk, hc⟩ | ⟨hne', heq'⟩
    · exact Or.inl ⟨e', by rw [mem_singleton.mp he']; exact mem_cons_self, hd, hk, hc⟩
    · refine Or.inr ⟨fun e' he' => ?_, heq'⟩
      rcases mem_cons.mp he' with rfl | he'
      · exact hne' _ mem_cons_self
      · exact hne e' he'

/-- Only the members of the list matter. -/
lemma Written.perm {entries entries' : List (Σ _ : H160, Account)}
    (h : Written env db entries world world') (hp : entries.Perm entries') :
    Written env db entries' world world' := by
  intro k
  rcases h k with ⟨e, he, hc⟩ | ⟨hne, heq⟩
  · exact Or.inl ⟨e, hp.mem_iff.mp he, hc⟩
  · exact Or.inr ⟨fun e he => hne e (hp.mem_iff.mpr he), heq⟩

/-- One account that was changed. -/
lemma Written.single {o : Option Content} (hd : acc.isDirty = true) (hc : Committed env db acc o) :
    Written env db [⟨a, acc⟩] world (update world (addressHash env a) o) := by
  intro k
  by_cases hk : k = addressHash env a
  · subst hk
    exact Or.inl ⟨_, mem_cons_self, hd, rfl, by rw [update_self]; exact hc⟩
  · refine Or.inr ⟨fun e he _ => ?_, update_of_ne hk _ _⟩
    rw [mem_singleton.mp he]
    exact Ne.symm hk

/-- One account that was not changed. -/
lemma Written.clean (hd : acc.isDirty = false) : Written env db [⟨a, acc⟩] world world := by
  refine fun k => Or.inr ⟨fun e he hd' => ?_, rfl⟩
  rw [mem_singleton.mp he, hd] at hd'
  cases hd'

lemma SizeKnown.mono {e : Uint256 × ℕ} (h : SizeKnown env db e) (hg : Grown db db')
    (hc : NoCollision db') : SizeKnown env db' e := by
  refine h.imp id fun ⟨hne, hl, hlen⟩ => ⟨hne, ?_⟩
  rw [hg.lookup hc hl]
  exact ⟨hl, hlen⟩

variable (env) in
/-- The sizes of code that are remembered are right. -/
def SizesKnown (s : State) : Prop := ∀ e ∈ s.codeSizes, SizeKnown env s.db e

lemma SizesKnown.mono (h : SizesKnown env s) (hsizes : s'.codeSizes = s.codeSizes)
    (hg : Grown s.db s'.db) (hc : HashesApart env s') : SizesKnown env s' := by
  intro e he
  rw [hsizes] at he
  exact (h e he).mono hg hc.collision

variable (env) in
/-- What one step of `commit` leaves alone, and what it adds to. -/
structure CommitStep (s s' : State) : Prop extends SameCaches s s' where
  db : Grown s.db s'.db
  sizes : SizesKnown env s → SizesKnown env s'

variable {db0 : OverlayDB} {code : Bytes}

/-- **The code of an account is written**, if it is new. -/
lemma commitCode_assuming
    (hk : CodeKnown env db0 acc.codeHash acc.hasNewCode acc.codeCache code) (hg : Grown db0 s.db) :
    Assuming (HashesApart env) (commitCode env acc) s fun _ s' =>
      CommitStep env s s' ∧ s'.root = s.root ∧ CodeAt env.sha3 s'.db acc.codeHash code := by
  refine Assuming.of_ok (commitCode_eq acc s) ?_
  cases hf : acc.hasNewCode with
  | false =>
    intro hc
    rw [hf] at hk
    refine ⟨⟨.refl s, .refl _, id⟩, rfl, hk.hash, fun hne => ⟨hk.ne hne, ?_⟩⟩
    have hl := (hk.old hne rfl).1
    rw [if_neg Bool.false_ne_true, hg.lookup hc.collision (by rw [hl]; exact hne), hl]
  | true =>
    rw [if_pos rfl]
    intro hc
    rw [hf] at hk
    have hl : (s.db.insert acc.codeHash acc.codeCache).lookup acc.codeHash = acc.codeCache :=
      OverlayDB.lookup_insert hc.collision
    have hsame := storeCodeSize_same env acc.codeHash acc.codeCache.length s
    refine ⟨⟨⟨?_, ?_, ?_, ?_, ?_⟩, insert _ _ _, fun hsizes e he => ?_⟩, ?_, hk.hash,
      fun hne => ⟨hk.ne hne, hl.trans (hk.fresh hne rfl)⟩⟩
    · rw [hsame]
    · rw [hsame]
    · rw [hsame]
    · rw [hsame]
    · rw [hsame]
    · rcases mem_storeCodeSize he with rfl | he
      · by_cases hempty : acc.codeHash = emptySHA3 env.sha3
        · -- The store has nothing under the hash of no code, so the code is none.
          have hnil : acc.codeCache = [] := by
            rw [← hl, hempty]
            exact hempty ▸ hc.empty
          exact Or.inl ⟨hempty, by rw [hnil]; rfl⟩
        · have hne : code ≠ [] := by
            rintro rfl
            exact hempty hk.hash
          have hfresh := hk.fresh hne rfl
          refine Or.inr ⟨hempty, ?_, ?_⟩
          · exact fun hnil => hne (hfresh.symm.trans (hl.symm.trans hnil))
          · exact congrArg List.length hl
      · exact (hsizes e he).mono (insert _ _ _) hc.collision
    · rw [hsame]

lemma CommitStep.refl (s : State) : CommitStep env s s := ⟨.refl s, .refl _, id⟩

lemma CommitStep.trans (h1 : CommitStep env s s1) (h2 : CommitStep env s1 s') :
    CommitStep env s s' :=
  ⟨h1.toSameCaches.trans h2.toSameCaches, h1.db.trans h2.db, fun h => h2.sizes (h1.sizes h)⟩

/-- Only the tries are changed. -/
lemma CommitStep.of_same {root : Uint256} (h : s' = { s with root := root, db := s'.db })
    (hg : Grown s.db s'.db) (hc : HashesApart env s') : CommitStep env s s' where
  cache := by rw [h]
  nonExisting := by rw [h]
  touched := by rw [h]
  accountStartNonce := by rw [h]
  changeLog := by rw [h]
  db := hg
  sizes hs := hs.mono (by rw [h]) hg hc

/-- **One account goes to the trie.** -/
lemma commitAccount_assuming (hw : WorldAt env.sha3 s.db s.root world) (hb : Backed env db0 acc)
    (hg : Grown db0 s.db) : Assuming (HashesApart env) (commitAccount env a acc) s fun _ s' =>
      CommitStep env s s' ∧ ∃ world', WorldAt env.sha3 s'.db s'.root world' ∧
        Written env db0 [⟨a, acc⟩] world world' := by
  unfold commitAccount
  split_ifs with hd ha
  · exact Assuming.pure ⟨.refl s, world, hw, Written.clean hd⟩
  · -- The storage, then the code, then the record.
    obtain ⟨base, hst⟩ := hb.storage
    obtain ⟨code, hk⟩ := hb.code
    intro hc
    have hc0 : HashesApart env s := (commitAccount_grows a acc).reflects s (by
      rw [commitAccount, if_neg hd, if_pos ha]
      exact hc)
    have hst' := hst.mono hg hc0.collision
    revert hc
    refine Assuming.bind (onDb_assuming (commitStorage_assuming hb.root_ne hst'))
      (fun _ => ((commitCode_grows acc).bind fun _ => updateTrie_grows fun _ =>
        trieInsert_grows _ _ _).reflects) ?_
    rintro root' s1 hc1 ⟨⟨hg1, hne, store, hstore, hov⟩, hsame⟩
    have hsame' : s1 = { s with root := s.root, db := s1.db } := hsame
    have hstep1 : CommitStep env s s1 := CommitStep.of_same hsame' hg1 hc1
    have hroot1 : s1.root = s.root := by rw [hsame]
    refine Assuming.bind (commitCode_assuming hk (hg.trans hg1))
      (fun _ => (updateTrie_grows fun _ => trieInsert_grows _ _ _).reflects) ?_
    rintro - s2 hc2 ⟨hstep2, hroot2, hcode⟩
    have hw2 : WorldAt env.sha3 s2.db s2.root world := by
      rw [hroot2, hroot1]
      exact hw.mono (hstep1.trans hstep2).db hc2.collision
    have hrec : RecordOf env.sha3 s2.db ⟨acc.nonce, acc.balance, root', acc.codeHash⟩
        ⟨acc.nonce, acc.balance, code, store⟩ :=
      ⟨rfl, rfl, hcode, hne, hstore.mono hstep2.db hc2.collision⟩
    refine (updateTrie_assuming ((hw2.insert hrec (addressHash env a)).assuming
      (trieInsert_grows _ _ _))).weaken ?_
    rintro - s3 hc3 ⟨⟨hw3, hg3⟩, hsame3⟩
    refine ⟨(hstep1.trans hstep2).trans (CommitStep.of_same hsame3 hg3 hc3), _, hw3,
      Written.single (by simpa using hd) ?_⟩
    rw [Committed, if_pos ha]
    exact ⟨_, base, rfl, rfl, rfl, hk, hst, hov⟩
  · refine (updateTrie_assuming ((hw.remove (addressHash env a)).assuming
      (trieRemove_grows _ _))).weaken ?_
    rintro - s1 hc1 ⟨⟨hw1, hg1⟩, hsame⟩
    refine ⟨CommitStep.of_same hsame hg1 hc1, _, hw1, Written.single (by simpa using hd) ?_⟩
    rw [Committed, if_neg ha]

/-- **All accounts go to the trie.** -/
lemma commitAccounts_assuming : ∀ {entries : List (Σ _ : H160, Account)} {s : State}
    {world : Uint256 → Option Content}, WorldAt env.sha3 s.db s.root world →
      (∀ e ∈ entries, Backed env db0 e.2) → Grown db0 s.db →
        Assuming (HashesApart env) (commitAccounts env entries) s fun _ s' =>
          CommitStep env s s' ∧ ∃ world', WorldAt env.sha3 s'.db s'.root world' ∧
            Written env db0 entries world world'
  | [], s, world, hw, _, _ => Assuming.pure ⟨.refl s, world, hw, Written.nil _ _⟩
  | e :: entries, s, world, hw, hb, hg => by
    rw [forall_mem_cons] at hb
    refine Assuming.bind (commitAccount_assuming hw hb.1 hg)
      (fun _ => (commitAccounts_grows entries).reflects) ?_
    rintro - s1 hc1 ⟨hstep, world1, hw1, hwr⟩
    refine (commitAccounts_assuming hw1 hb.2 (hg.trans hstep.db)).weaken ?_
    rintro - s2 - ⟨hstep2, world2, hw2, hwr2⟩
    exact ⟨hstep.trans hstep2, world2, hw2, hwr.cons hwr2⟩

end Accounts

/-! ## The whole -/

section Commit

variable {env : StateEnv} {s s' : State} {a : H160} {acc : Account}
  {world : Uint256 → Option Content}

variable (env) in
/-- What `removeEmptyAccounts` makes of an account. -/
def reaped (acc : Account) : Account :=
  if acc.isDirty && acc.isEmpty env.sha3 then acc.kill env.sha3 else acc

variable {world' : Uint256 → Option Content}

lemma lookup_killIfEmpty (cache : AccountMap) (a b : H160) : (killIfEmpty env cache a).lookup b =
      if b = a then (cache.lookup b).map (reaped env) else cache.lookup b := by
  unfold killIfEmpty
  cases hl : cache.lookup a with
  | none =>
    split_ifs with hb
    · rw [hb, hl]
      rfl
    · rfl
  | some acc =>
    dsimp only
    by_cases hb : b = a
    · subst hb
      rw [if_pos rfl, hl, map_some, reaped]
      split_ifs
      · rw [AList.lookup_insert]
      · rw [hl]
    · rw [if_neg hb]
      split_ifs
      · rw [AList.lookup_insert_ne hb]
      · rfl

lemma lookup_foldl_killIfEmpty (b : H160) : ∀ (keys : List H160) (cache : AccountMap),
    (keys.foldl (killIfEmpty env) cache).lookup b =
      if b ∈ keys then (cache.lookup b).map (reaped env) else cache.lookup b
  | [], cache => by rw [if_neg not_mem_nil]; rfl
  | a :: keys, cache => by
    rw [foldl_cons, lookup_foldl_killIfEmpty b keys, lookup_killIfEmpty]
    by_cases hb : b = a
    · subst hb
      rw [if_pos rfl, if_pos mem_cons_self, Option.map_map]
      have hcomp : reaped env ∘ reaped env = reaped env := by
        funext acc
        simp only [reaped, Function.comp]
        split_ifs <;> rfl
      rw [hcomp]
      split_ifs <;> rfl
    · rw [if_neg hb]
      simp [hb]

/-- **The empty accounts that were changed are killed.** -/
lemma lookup_removeEmptyAccounts (s : State) (a : H160) :
    (removeEmptyAccounts env s).cache.lookup a = (s.cache.lookup a).map (reaped env) := by
  rw [removeEmptyAccounts, lookup_foldl_killIfEmpty]
  split_ifs with h
  · rfl
  · rw [AList.lookup_eq_none.mpr (fun hm => h (AList.mem_keys.mp hm))]
    rfl

variable (env) in
/-- The state that `commit` writes. -/
def prepared (behaviour : CommitBehaviour) (s : State) : State :=
  if behaviour = .removeEmptyAccounts then removeEmptyAccounts env s else s

lemma Sound.removeEmptyAccounts (hs : Sound env s world) :
    Sound env (removeEmptyAccounts env s) world := by
  refine { hs with cache := fun {a acc} hl => ?_, dead := fun {a acc} hn hl => ?_ }
  · rw [lookup_removeEmptyAccounts, map_eq_some_iff] at hl
    obtain ⟨acc0, hl, rfl⟩ := hl
    unfold reaped
    split_ifs
    · exact Backed.kill hs.empty hs.empty_ne acc0
    · exact hs.cache hl
  · rw [lookup_removeEmptyAccounts, map_eq_some_iff] at hl
    obtain ⟨acc0, hl, rfl⟩ := hl
    unfold reaped
    split_ifs
    · rfl
    · exact hs.dead hn hl

lemma Sound.prepared (hs : Sound env s world) (behaviour : CommitBehaviour) :
    Sound env (prepared env behaviour s) world := by
  unfold Ybtc.prepared
  split_ifs
  · exact hs.removeEmptyAccounts
  · exact hs

variable (behaviour : CommitBehaviour)

lemma prepared_db (s : State) : (prepared env behaviour s).db = s.db := by
  unfold prepared
  split_ifs <;> rfl

lemma mem_entries_iff {cache : AccountMap} : (⟨a, acc⟩ : Σ _ : H160, Account) ∈ cache.entries ↔
    cache.lookup a = some acc := AList.mem_lookup_iff.symm

lemma commit_grows : DbGrows (State.commit env behaviour) := by
  refine DbGrows.bind (fun s => ?_) fun _ =>
    DbGrows.bind (fun s => commitAccounts_grows _ s) fun _ s => ?_
  · exact prepared_db behaviour s ▸ refl _
  · exact refl _

variable (env) in
/-- What is known after `commit`. -/
structure CommitDone (behaviour : CommitBehaviour) (world : Uint256 → Option Content) (s s' : State)
    (world' : Uint256 → Option Content) : Prop where
  trie : WorldAt env.sha3 s'.db s'.root world'
  written : Written env s.db (prepared env behaviour s).cache.entries world world'
  db : Grown s.db s'.db
  cache : s'.cache = ∅
  nonExisting : s'.nonExistingAccountsCache = s.nonExistingAccountsCache
  touched : s'.touched = dirtyAddresses (prepared env behaviour s).cache ++ s.touched
  accountStartNonce : s'.accountStartNonce = s.accountStartNonce
  changeLog : s'.changeLog = []
  sizes : SizesKnown env s'

/-- **`commit` writes the changed accounts.** -/
lemma commit_assuming (hs : Sound env s world) (behaviour : CommitBehaviour) :
    Assuming (HashesApart env) (commit env behaviour) s fun _ s' =>
      ∃ world', CommitDone env behaviour world s s' world' := by
  have hp := hs.prepared behaviour
  have hback : ∀ e ∈ env.accountOrder (prepared env behaviour s).cache, Backed env s.db e.2 := by
    intro e he
    rw [← prepared_db behaviour s]
    exact hp.cache (mem_entries_iff.mp ((env.accountOrder_perm _).mem_iff.mp he))
  have hprep : (fun s => .ok () (prepared env behaviour s) : ScM Unit) s =
      .ok () (prepared env behaviour s) := rfl
  refine Assuming.ok_bind hprep ?_
  refine Assuming.bind (commitAccounts_assuming hp.trie hback (prepared_db behaviour s ▸ refl _))
    (fun _ s hc => hc) ?_
  rintro - s1 hc1 ⟨hstep, world', hw', hwr⟩
  have hframe : (prepared env behaviour s).nonExistingAccountsCache = s.nonExistingAccountsCache ∧
      (prepared env behaviour s).touched = s.touched ∧
      (prepared env behaviour s).accountStartNonce = s.accountStartNonce := by
    unfold prepared
    split_ifs <;> exact ⟨rfl, rfl, rfl⟩
  refine Assuming.of_ok rfl fun _ => ⟨world', ?_⟩
  exact {
    trie := hw'
    written := hwr.perm (env.accountOrder_perm _)
    db := prepared_db behaviour s ▸ hstep.db
    cache := rfl
    nonExisting := hstep.nonExisting.trans hframe.1
    touched := by
      change dirtyAddresses s1.cache ++ s1.touched = _
      rw [hstep.cache, hstep.touched, hframe.2.1]
    accountStartNonce := hstep.accountStartNonce.trans hframe.2.2
    changeLog := rfl
    sizes := hstep.sizes hp.sizes }

variable (env) in
/-- No address that was changed has the hash of another one that is known to be missing. -/
def AddressesApart (s : State) : Prop := ∀ a ∈ s.touched, ∀ b ∈ s.nonExistingAccountsCache,
  addressHash env a = addressHash env b → a = b

variable {behaviour : CommitBehaviour}

/-- An address that is known to be missing is missing after `commit` too. -/
lemma CommitDone.absent (h : CommitDone env behaviour world s s' world') (hs : Sound env s world)
    (ha : AddressesApart env s') (hn : a ∈ s'.nonExistingAccountsCache) :
    world' (addressHash env a) = none := by
  have hn' : a ∈ s.nonExistingAccountsCache := h.nonExisting ▸ hn
  rcases h.written (addressHash env a) with ⟨⟨b, acc⟩, he, hd, hk, hc⟩ | ⟨-, heq⟩
  · have hl := mem_entries_iff.mp he
    have hb : b = a := ha b (by
      rw [h.touched]
      exact mem_append_left _ (mem_map.mpr ⟨_, mem_filter.mpr ⟨he, hd⟩, rfl⟩)) a hn hk
    subst hb
    have hp := hs.prepared behaviour
    have hn'' : b ∈ (prepared env behaviour s).nonExistingAccountsCache := by
      unfold prepared
      split_ifs <;> exact hn'
    have hdead := hp.dead hn'' hl
    rw [Committed, if_neg (by rw [hdead]; decide)] at hc
    exact hc
  · rw [heq, hs.absent hn']

/-- **The state after `commit` is in order.** -/
lemma CommitDone.sound (h : CommitDone env behaviour world s s' world') (hs : Sound env s world)
    (hc : HashesApart env s') (ha : AddressesApart env s') : Sound env s' world' where
  trie := h.trie
  empty := by
    rw [h.db.lookup hc.collision (by rw [hs.empty]; decide), hs.empty]
  empty_ne := hs.empty_ne
  cache hl := by
    rw [h.cache] at hl
    cases hl
  absent hn := h.absent hs ha hn
  dead _ hl := by
    rw [h.cache] at hl
    cases hl
  sizes := h.sizes

/-! ## Another root -/

/-- The state after `setRoot`. -/
def State.atRoot (s : State) (root : Uint256) : State :=
  { s with cache := ∅, unchangedCacheEntries := [], nonExistingAccountsCache := [], root := root }

/-- **`setRoot` to a root that is there.** -/
lemma setRoot_eq {root : Uint256} (hw : WorldAt env.sha3 s.db root world) :
    setRoot env root s = .ok () (s.atRoot root) := by
  have hopen : onDb (openRoot env.sha3 root) (s.atRoot root) = .ok () (s.atRoot root) :=
    onDb_ok (openRoot_of_stored hw.nonempty)
  exact hopen

lemma Sound.atRoot {root : Uint256} (hs : Sound env s world)
    (hw : WorldAt env.sha3 s.db root world') : Sound env (s.atRoot root) world' where
  trie := hw
  empty := hs.empty
  empty_ne := hs.empty_ne
  cache hl := by cases hl
  absent hn := by cases hn
  dead hn _ := by cases hn
  sizes := hs.sizes

end Commit

end Ybtc
