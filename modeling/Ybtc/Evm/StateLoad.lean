import Ybtc.Evm.AccountTrie

/-!
# Loading accounts

What the members of the account state have to do with each other, and what happens when an account
is asked for.
-/

namespace Ybtc

open State

variable (env : StateEnv)

/-- The hash of an address, and of a position. -/
def addressHash (a : H160) : Uint256 := env.sha3 (addressBytes a)

def slotHash (p : U256) : Uint256 := env.sha3 (hashBytes p)

/-- **The code of an account in the cache**: new code is in the account, other code is in the node
    store. -/
structure CodeKnown (db : OverlayDB) (codeHash : Uint256) (hasNewCode : Bool)
    (codeCache code : Bytes) :
    Prop where
  hash : codeHash = env.sha3 code
  ne : code ≠ [] → codeHash ≠ emptySHA3 env.sha3
  fresh : code ≠ [] → hasNewCode = true → codeCache = code
  old : code ≠ [] → hasNewCode = false →
    db.lookup codeHash = code ∧ (codeCache = [] ∨ codeCache = code)

/-- **An account in the cache has its storage and its code.** -/
structure Backed (db : OverlayDB) (acc : Account) : Prop where
  root_ne : acc.storageRoot ≠ 0
  storage : ∃ store, StorageAt env.sha3 db acc.storageRoot store
  code : ∃ code, CodeKnown env db acc.codeHash acc.hasNewCode acc.codeCache code

/-- A remembered size is that of the code in the node store. -/
def SizeKnown (db : OverlayDB) (e : Uint256 × ℕ) : Prop :=
  (e.1 = emptySHA3 env.sha3 ∧ e.2 = 0) ∨
    (e.1 ≠ emptySHA3 env.sha3 ∧ db.lookup e.1 ≠ [] ∧ (db.lookup e.1).length = e.2)

/-- **The state is in order**: the accounts under its root are a map, the accounts in the cache have
    their storage and their code, an address that is known to be missing is missing, and the sizes
    of code that are remembered are right. -/
structure Sound (s : State) (world : Uint256 → Option Content) : Prop where
  trie : WorldAt env.sha3 s.db s.root world
  empty : s.db.lookup (emptyTrie env.sha3) = rlpNull
  empty_ne : emptyTrie env.sha3 ≠ 0
  cache : ∀ {a acc}, s.cache.lookup a = some acc → Backed env s.db acc
  absent : ∀ {a}, a ∈ s.nonExistingAccountsCache → world (addressHash env a) = none
  dead : ∀ {a acc}, a ∈ s.nonExistingAccountsCache → s.cache.lookup a = some acc →
    acc.isAlive = false
  sizes : ∀ e ∈ s.codeSizes, SizeKnown env s.db e

/-- Everything but the caches of accounts is as it was. -/
structure SameBase (s s1 : State) : Prop where
  db : s1.db = s.db
  root : s1.root = s.root
  touched : s1.touched = s.touched
  accountStartNonce : s1.accountStartNonce = s.accountStartNonce
  changeLog : s1.changeLog = s.changeLog
  codeSizes : s1.codeSizes = s.codeSizes

/-- Unchanged accounts have left the cache. -/
structure Evicts (s s1 : State) : Prop extends SameBase s s1 where
  nonExisting : s1.nonExistingAccountsCache = s.nonExistingAccountsCache
  cache : ∀ b, s1.cache.lookup b = s.cache.lookup b ∨
    s1.cache.lookup b = none ∧ ∃ acc, s.cache.lookup b = some acc ∧ acc.isDirty = false

/-- **The account was loaded if it was not in the cache, and unchanged ones have left the cache.**
    -/
structure LoadsAccount (world : Uint256 → Option Content) (a : H160) (s s1 : State) : Prop
    extends SameBase s s1 where
  cache : ∀ b, s1.cache.lookup b = s.cache.lookup b ∨
    (s1.cache.lookup b = none ∧ ∃ acc, s.cache.lookup b = some acc ∧ acc.isDirty = false) ∨
    (b = a ∧ s.cache.lookup b = none ∧ ∃ st c, world (addressHash env b) = some c ∧
      RecordOf env.sha3 s.db st c ∧ s1.cache.lookup b = some st.account)
  absent : ∀ b ∈ s1.nonExistingAccountsCache, b ∈ s.nonExistingAccountsCache ∨
    world (addressHash env b) = none ∧ s1.cache.lookup b = none

variable {env} {s s1 s2 : State} {world : Uint256 → Option Content} {a : H160} {acc : Account}

/-! ## Dropping accounts -/

lemma SameBase.refl (s : State) : SameBase s s := ⟨rfl, rfl, rfl, rfl, rfl, rfl⟩

lemma SameBase.trans (h1 : SameBase s s1) (h2 : SameBase s1 s2) : SameBase s s2 :=
  ⟨h2.db.trans h1.db, h2.root.trans h1.root, h2.touched.trans h1.touched,
    h2.accountStartNonce.trans h1.accountStartNonce, h2.changeLog.trans h1.changeLog,
    h2.codeSizes.trans h1.codeSizes⟩

lemma Evicts.refl (s : State) : Evicts s s := ⟨.refl s, rfl, fun _ => Or.inl rfl⟩

lemma Evicts.trans (h1 : Evicts s s1) (h2 : Evicts s1 s2) : Evicts s s2 := by
  refine ⟨h1.toSameBase.trans h2.toSameBase, h2.nonExisting.trans h1.nonExisting, fun b => ?_⟩
  rcases h2.cache b with h | ⟨h, acc, hacc, hd⟩
  · rw [h]
    exact h1.cache b
  · refine Or.inr ⟨h, ?_⟩
    rcases h1.cache b with h' | ⟨h', -⟩
    · exact ⟨acc, by rw [← h', hacc], hd⟩
    · rw [h'] at hacc
      cases hacc

lemma evict_lookup (cache : AccountMap) (a b : H160) : (evict cache a).lookup b = cache.lookup b ∨
      (evict cache a).lookup b = none ∧
        ∃ acc, cache.lookup b = some acc ∧ acc.isDirty = false := by
  unfold evict
  cases hl : cache.lookup a with
  | none => exact Or.inl rfl
  | some acc =>
    dsimp only
    split_ifs with hd
    · exact Or.inl rfl
    · by_cases hb : b = a
      · subst hb
        exact Or.inr ⟨AList.lookup_erase _ _, acc, hl, by simpa using hd⟩
      · exact Or.inl (AList.lookup_erase_ne hb)

lemma evicts_evictRandom (s : State) : Evicts s (State.evictRandom env s) := by
  unfold evictRandom
  cases s.unchangedCacheEntries.getLast? with
  | none => exact Evicts.refl s
  | some last => exact ⟨⟨rfl, rfl, rfl, rfl, rfl, rfl⟩, rfl, fun b => evict_lookup _ _ b⟩

lemma evicts_iterate (s : State) : ∀ n : ℕ, Evicts s ((State.evictRandom env)^[n] s)
  | 0 => Evicts.refl s
  | n + 1 => by
    rw [Function.iterate_succ_apply']
    exact (evicts_iterate s n).trans (evicts_evictRandom _)

/-- **The cache is only relieved of unchanged accounts.** -/
lemma evicts_clearCacheIfTooLarge (s : State) : Evicts s (State.clearCacheIfTooLarge env s) :=
  evicts_iterate s _

/-! ## Loading an account -/

lemma LoadsAccount.refl (a : H160) (s : State) : LoadsAccount env world a s s :=
  ⟨.refl s, fun _ => Or.inl rfl, fun _ hb => Or.inl hb⟩

variable {st : StoredAccount} {db : OverlayDB} {c : Content}

/-- An account that is loaded has its storage and its code. -/
lemma RecordOf.codeKnown (h : RecordOf env.sha3 db st c) :
    CodeKnown env db st.codeHash false [] c.code where
  hash := h.code.1
  ne hne := (h.code.2 hne).1
  fresh _ hf := by cases hf
  old hne _ := ⟨(h.code.2 hne).2, Or.inl rfl⟩

lemma RecordOf.backed (h : RecordOf env.sha3 db st c) : Backed env db st.account :=
  ⟨h.root_ne, ⟨_, h.storage⟩, _, h.codeKnown⟩

/-- **Loading keeps the state in order.** -/
lemma Sound.loads (hs : Sound env s world) (h : LoadsAccount env world a s s1) :
    Sound env s1 world where
  trie := by
    rw [h.db, h.root]
    exact hs.trie
  empty := by
    rw [h.db]
    exact hs.empty
  empty_ne := hs.empty_ne
  cache {a acc} hl := by
    rw [h.db]
    rcases h.cache a with heq | ⟨hn, -⟩ | ⟨-, -, st, c, -, hst, hacc⟩
    · exact hs.cache (heq ▸ hl)
    · rw [hn] at hl
      cases hl
    · rw [hacc] at hl
      cases hl
      exact hst.backed
  absent {a} ha := (h.absent a ha).elim hs.absent And.left
  dead {a acc} ha hl := by
    rcases h.absent a ha with ha' | ⟨-, hn⟩
    · rcases h.cache a with heq | ⟨hn, -⟩ | ⟨-, -, st, c, hc, -⟩
      · exact hs.dead ha' (heq ▸ hl)
      · rw [hn] at hl
        cases hl
      · rw [hs.absent ha'] at hc
        cases hc
    · rw [hn] at hl
      cases hl
  sizes := by
    rw [h.codeSizes, h.db]
    exact hs.sizes

/-- **`account` finds what is in the cache or in the trie**, and does no more than that. -/
lemma account_loads (hs : Sound env s world) (a : H160) :
    ∃ r s1, account env a s = .ok r s1 ∧ LoadsAccount env world a s s1 ∧ s1.cache.lookup a = r ∧
      (r = none → world (addressHash env a) = none ∧ a ∈ s1.nonExistingAccountsCache) := by
  unfold account
  cases hl : s.cache.lookup a with
  | some acc => exact ⟨some acc, s, rfl, LoadsAccount.refl a s, hl, fun h => by cases h⟩
  | none =>
    dsimp only
    split_ifs with ha
    · exact ⟨none, s, rfl, LoadsAccount.refl a s, hl, fun _ => ⟨hs.absent ha, ha⟩⟩
    · cases hw : world (addressHash env a) with
      | none =>
        have hat : trieAt s.db s.root (accountKey env a) = .ok [] := hs.trie.at_none hw
        rw [hat]
        refine ⟨none, _, if_pos rfl,
          ⟨⟨rfl, rfl, rfl, rfl, rfl, rfl⟩, fun _ => Or.inl rfl, fun b hb => ?_⟩, hl,
          fun _ => ⟨rfl, List.mem_cons_self⟩⟩
        rcases List.mem_cons.mp hb with rfl | hb
        · exact Or.inr ⟨hw, hl⟩
        · exact Or.inl hb
      | some c =>
        obtain ⟨st, hst, hat⟩ := hs.trie.at_some hw
        have hat' : trieAt s.db s.root (accountKey env a) = .ok st.record := hat
        have hev : Evicts s (clearCacheIfTooLarge env s) := evicts_clearCacheIfTooLarge s
        have hload : cacheLoaded env a st.record s =
            .ok st.account { (clearCacheIfTooLarge env s).setCache a st.account with
              unchangedCacheEntries :=
                (clearCacheIfTooLarge env s).unchangedCacheEntries ++ [a] } := by
          rw [cacheLoaded, st.readAccount_record hst.root_ne]
        rw [hat']
        dsimp only
        rw [if_neg st.isItem_record.nonempty]
        generalize clearCacheIfTooLarge env s = s1 at hev hload
        have hins : ∀ b, b ≠ a → (s1.cache.insert a st.account).lookup b = s1.cache.lookup b :=
          fun b hb => AList.lookup_insert_ne hb
        refine ⟨some st.account, _, Stateful.bind_of_ok hload, ⟨?_, fun b => ?_, fun b hb => ?_⟩,
          AList.lookup_insert _, fun h => by cases h⟩
        · exact ⟨hev.db, hev.root, hev.touched, hev.accountStartNonce, hev.changeLog, hev.codeSizes⟩
        · by_cases hb : b = a
          · subst hb
            exact Or.inr (Or.inr ⟨rfl, hl, st, c, hw, hst, AList.lookup_insert _⟩)
          · rcases hev.cache b with h | h
            · exact Or.inl ((hins b hb).trans h)
            · exact Or.inr (Or.inl ⟨(hins b hb).trans h.1, h.2⟩)
        · left
          rw [← hev.nonExisting]
          exact hb

/-! ## A new state -/

/-- A node store that knows the empty trie. -/
def freshStore (sha3 : Bytes → Uint256) : OverlayDB := emptyStore.insert (emptyTrie sha3) rlpNull

/-- A state without accounts. -/
def State.fresh (sha3 : Bytes → Uint256) : State := State.blank (freshStore sha3) (emptyTrie sha3)

lemma lookup_freshStore (sha3 : Bytes → Uint256) :
    (freshStore sha3).lookup (emptyTrie sha3) = rlpNull := by
  simp [freshStore, emptyStore, OverlayDB.insert, OverlayDB.lookup, OverlayDB.memLookup,
    OverlayDB.find,
    rlpNull]

lemma sound_fresh (hne : emptyTrie env.sha3 ≠ 0) :
    Sound env (State.fresh env.sha3) fun _ => none where
  trie := ⟨fun _ => none, mapAt_empty (lookup_freshStore env.sha3), fun _ => .none⟩
  empty := lookup_freshStore env.sha3
  empty_ne := hne
  cache hl := by cases hl
  absent hn := by cases hn
  dead hn := by cases hn
  sizes _ he := by cases he

end Ybtc
