import Ybtc.Evm.StateLoad

/-!
# What the operations do to the caches

Every operation on the accounts asks for an account and, as the case may be, puts another one in its
place and makes notes in the change log.  Here each operation is written out that way, and reading
is shown to keep the state in order.
-/

namespace Ybtc

open List State Account

/-- Notes in the change log, the newest in front. -/
def State.note (cs : List Change) (s : State) : State := { s with changeLog := cs ++ s.changeLog }

/-- An account that did not exist enters the cache. -/
def State.enter (a : H160) (acc : Account) (s : State) : State :=
  { s.setCache a acc with
    nonExistingAccountsCache := s.nonExistingAccountsCache.filter (· != a) }

/-- The notes of `addBalance`. -/
def balanceNotes (a : H160) (amount : U256) : List Change :=
  if amount = 0 then [] else [.balance a amount]

def touchNotes (sha3 : Bytes → Uint256) (a : H160) (acc : Account) : List Change :=
  if acc.isDirty = false ∧ acc.isEmpty sha3 then [.touch a] else []

open Stateful (bind_of_ok bind_of_error)

variable {env : StateEnv} {s s1 : State} {a : H160} {acc : Account} {r : Option Account}

/-! ## The operations, written out -/

section Equations

section

variable (h : account env a s = .ok r s1)

include h

lemma addressInUse_eq : addressInUse env a s = .ok r.isSome s1 := bind_of_ok h

lemma balance_eq : balance env a s = .ok (r.elim 0 balance) s1 := bind_of_ok h

lemma getNonce_eq : getNonce env a s = .ok (r.elim s1.accountStartNonce nonce) s1 := by
  refine (bind_of_ok h).trans ?_
  cases r <;> rfl

lemma codeHash_eq : codeHash env a s = .ok (r.elim (emptySHA3 env.sha3) codeHash) s1 := bind_of_ok h

lemma addressHasCode_eq : addressHasCode env a s =
      .ok (r.elim false fun acc => acc.codeHash != emptySHA3 env.sha3) s1 := bind_of_ok h

end

/-- An account that does not exist is made. -/
lemma createAccount_missing (h : account env a s = .ok none s) (acc : Account) :
    createAccount env a acc s = .ok () ((s.enter a acc).note [.create a]) :=
  bind_of_ok (addressInUse_eq h)

lemma requireAccountStartNonce_ok (h : s.accountStartNonce ≠ invalid256) :
    requireAccountStartNonce s = .ok s.accountStartNonce s := if_neg h

lemma requireAccountStartNonce_error (h : s.accountStartNonce = invalid256) :
    requireAccountStartNonce s = .error (rangeError "Invalid Account Start Nonce State") s :=
  if_pos h

/-- The end of `addBalance`. -/
lemma balanceNotes_eq (amount : U256) (s : State) :
    (if amount = 0 then pure () else logChange (.balance a amount) : ScM Unit) s =
      .ok () (s.note (balanceNotes a amount)) := by
  unfold balanceNotes
  split_ifs <;> rfl

lemma logTouch_eq (s : State) :
    logTouch env a acc s = .ok () (s.note (touchNotes env.sha3 a acc)) := by
  unfold logTouch touchNotes
  split_ifs <;> rfl

lemma addBalance_some (h : account env a s = .ok (some acc) s1) (amount : U256) :
    addBalance env a amount s = .ok () ((s1.setCache a (acc.addBalance amount)).note
      (balanceNotes a amount ++ touchNotes env.sha3 a acc)) := by
  have hcredit : creditAccount env a amount (some acc) s1 = .ok ()
      ((s1.note (touchNotes env.sha3 a acc)).setCache a (acc.addBalance amount)) :=
    bind_of_ok (logTouch_eq s1)
  refine (bind_of_ok h).trans ((bind_of_ok hcredit).trans ?_)
  rw [balanceNotes_eq]
  simp [note, setCache]

lemma addBalance_none (h : account env a s = .ok none s1) (h1 : account env a s1 = .ok none s1)
    (hn : s1.accountStartNonce ≠ invalid256) (amount : U256) : addBalance env a amount s =
      .ok () ((s1.enter a (Account.created env.sha3 s1.accountStartNonce amount)).note
        (balanceNotes a amount ++ [.create a])) := by
  have hcredit : creditAccount env a amount none s1 = .ok ()
      ((s1.enter a (Account.created env.sha3 s1.accountStartNonce amount)).note [.create a]) :=
    (bind_of_ok (requireAccountStartNonce_ok hn)).trans (createAccount_missing h1 _)
  refine (bind_of_ok h).trans ((bind_of_ok hcredit).trans ?_)
  rw [balanceNotes_eq]
  simp [note, enter]

/-- `subBalance` asks for the account and leaves the rest to `addBalance`. -/
lemma subBalance_enough {value : U256} (hv : value ≠ 0) (h : account env a s = .ok (some acc) s1)
    (hb : ¬ acc.balance < value) : subBalance env a value s = addBalance env a (0 - value) s1 := by
  rw [subBalance, if_neg hv]
  refine (bind_of_ok h).trans ?_
  dsimp only
  rw [if_neg hb]

lemma subBalance_short {value : U256} (hv : value ≠ 0) (h : account env a s = .ok r s1)
    (hb : ∀ acc, r = some acc → acc.balance < value) :
    subBalance env a value s = .error (rangeError "Not Enough Cash") s1 := by
  rw [subBalance, if_neg hv]
  refine (bind_of_ok h).trans ?_
  cases r with
  | none => rfl
  | some acc =>
    dsimp only
    rw [if_pos (hb acc rfl)]
    rfl

lemma storage_hit {p v : U256} (h : account env a s = .ok (some acc) s1)
    (hv : acc.storageOverlay.lookup p = some v) : storage env a p s = .ok v s1 := by
  refine (bind_of_ok h).trans ?_
  dsimp only
  rw [hv]
  rfl

/-- A word that is not in the cache is loaded. -/
lemma storage_miss {p : U256} {store : Uint256 → U256}
    (h : account env a s = .ok (some acc) s1) (hv : acc.storageOverlay.lookup p = none)
    (hr : acc.storageRoot ≠ 0) (hst : StorageAt env.sha3 s1.db acc.storageRoot store) :
    storage env a p s = .ok (store (slotHash env p))
      (s1.setCache a (acc.setStorageCache p (store (slotHash env p)))) := by
  have hload : onDb (loadSlot env acc.storageRoot p) s1 =
      .ok (store (slotHash env p)) s1 := by
    rw [onDb, hst.load p]
    rfl
  refine (bind_of_ok h).trans ?_
  dsimp only
  rw [hv, baseRoot, if_neg hr]
  exact bind_of_ok hload

lemma setStorage_eq {p old : U256} (h : storage env a p s = .ok old s1) (v : U256) :
    setStorage env a p v s = .ok () ((s1.setCache a
      ((cacheAt env s1 a).setStorage p v)).note [.storage a p old]) := bind_of_ok h

section

variable (h : account env a s = .ok (some acc) s1)

include h

lemma code_empty (hc : acc.codeHash = emptySHA3 env.sha3) : code env a s = .ok [] s1 := by
  refine (bind_of_ok h).trans ?_
  dsimp only
  rw [if_pos hc]
  rfl

lemma code_cached (hc : acc.codeHash ≠ emptySHA3 env.sha3) (hne : acc.codeCache ≠ []) :
    code env a s = .ok acc.codeCache s1 := by
  refine (bind_of_ok h).trans ?_
  dsimp only
  rw [if_neg hc, if_neg hne]
  rfl

/-- Code that is not in the cache is loaded, and its size remembered. -/
lemma code_load {code : Bytes} (hc : acc.codeHash ≠ emptySHA3 env.sha3) (hnil : acc.codeCache = [])
    (hl : s1.db.lookup acc.codeHash = code) (hh : acc.codeHash = env.sha3 code) :
    State.code env a s = .ok code (State.storeCodeSize env acc.codeHash code.length
      (s1.setCache a { acc with codeCache := code })) := by
  refine (bind_of_ok h).trans ?_
  dsimp only
  rw [if_neg hc, if_pos hnil, loadCode, hl, noteCode, if_pos hh.symm]

end

section

variable (h : account env a s = .ok (some acc) s1)

include h

lemma codeSize_fresh (hf : acc.hasNewCode = true) :
    codeSize env a s = .ok acc.codeCache.length s1 :=
  (bind_of_ok h).trans (congrFun (if_pos hf) s1)

lemma codeSize_known {n : ℕ} (hf : acc.hasNewCode = false)
    (hk : s1.codeSizes.lookup acc.codeHash = some n) : codeSize env a s = .ok n s1 := by
  refine (bind_of_ok h).trans ((congrFun (if_neg (by rw [hf]; decide)) s1).trans ?_)
  rw [hk]

lemma codeSize_unknown {code : Bytes} {s2 : State}
    (hf : acc.hasNewCode = false) (hk : s1.codeSizes.lookup acc.codeHash = none)
    (hc : State.code env a s1 = .ok code s2) : State.codeSize env a s =
      .ok code.length (State.storeCodeSize env acc.codeHash code.length s2) := by
  refine (bind_of_ok h).trans ((congrFun (if_neg (by rw [hf]; decide)) s1).trans ?_)
  rw [hk]
  exact bind_of_ok hc

end

end Equations

/-! ## States in order -/

section Sound

variable {world : Uint256 → Option Content} {db : OverlayDB} {code : Bytes}

/-- What does not show in the caches does not matter. -/
lemma Sound.congr {s' : State} (hs : Sound env s world) (hdb : s'.db = s.db)
    (hroot : s'.root = s.root) (hcache : s'.cache = s.cache)
    (hne : s'.nonExistingAccountsCache = s.nonExistingAccountsCache)
    (hsizes : ∀ e ∈ s'.codeSizes, SizeKnown env s.db e) : Sound env s' world where
  trie := by rw [hdb, hroot]; exact hs.trie
  empty := by rw [hdb]; exact hs.empty
  empty_ne := hs.empty_ne
  cache hl := by
    rw [hdb]
    rw [hcache] at hl
    exact hs.cache hl
  absent ha := hs.absent (hne ▸ ha)
  dead ha hl := hs.dead (hne ▸ ha) (hcache ▸ hl)
  sizes := by rw [hdb]; exact hsizes

lemma Sound.note (hs : Sound env s world) (cs : List Change) : Sound env (s.note cs) world :=
  hs.congr rfl rfl rfl rfl hs.sizes

/-- What is in the cache behind `setCache`. -/
lemma lookup_setCache {b : H160} {acc' : Account}
    (h : (s.setCache a acc).cache.lookup b = some acc') :
    (b = a ∧ acc' = acc) ∨ (b ≠ a ∧ s.cache.lookup b = some acc') := by
  by_cases hb : b = a
  · subst hb
    rw [setCache, AList.lookup_insert] at h
    cases h
    exact Or.inl ⟨rfl, rfl⟩
  · rw [setCache, AList.lookup_insert_ne hb] at h
    exact Or.inr ⟨hb, h⟩

/-- **The account in the cache may be replaced** by any other that has its storage and its code. -/
lemma Sound.setCache (hs : Sound env s world) (hb : Backed env s.db acc)
    (hd : a ∈ s.nonExistingAccountsCache → acc.isAlive = false) :
    Sound env (s.setCache a acc) world where
  trie := hs.trie
  empty := hs.empty
  empty_ne := hs.empty_ne
  cache hl := by
    rcases lookup_setCache hl with ⟨-, rfl⟩ | ⟨-, hl⟩
    · exact hb
    · exact hs.cache hl
  absent := hs.absent
  dead hn hl := by
    rcases lookup_setCache hl with ⟨rfl, rfl⟩ | ⟨-, hl⟩
    · exact hd hn
    · exact hs.dead hn hl
  sizes := hs.sizes

/-- An account that is in the cache is replaced by one that is as alive. -/
lemma Sound.replace (hs : Sound env s world) (hl : s.cache.lookup a = some acc) {acc' : Account}
    (hb : Backed env s.db acc') (ha : acc'.isAlive = acc.isAlive) :
    Sound env (s.setCache a acc') world :=
  hs.setCache hb fun hn => ha.trans (hs.dead hn hl)

lemma mem_storeCodeSize {h : Uint256} {n : ℕ} {e : Uint256 × ℕ}
    (he : e ∈ (storeCodeSize env h n s).codeSizes) : e = (h, n) ∨ e ∈ s.codeSizes := by
  unfold storeCodeSize at he
  split_ifs at he
  · rcases mem_cons.mp he with he | he
    · exact Or.inl he
    · exact Or.inr (mem_of_mem_eraseIdx (mem_of_mem_filter he))
  · rcases mem_cons.mp he with he | he
    · exact Or.inl he
    · exact Or.inr (mem_of_mem_filter he)

variable (env) in
/-- Remembering a size touches nothing else. -/
lemma storeCodeSize_same (h : Uint256) (n : ℕ) (s : State) : storeCodeSize env h n s = { s with
      codeSizes := (storeCodeSize env h n s).codeSizes
      draws := (storeCodeSize env h n s).draws } := by
  unfold storeCodeSize
  split_ifs <;> rfl

/-! ## Accounts with storage and code -/

/-- Code is known as soon as its hash is the hash of no code. -/
lemma codeKnown_empty (hasNewCode : Bool) (codeCache : Bytes) :
    CodeKnown env db (emptySHA3 env.sha3) hasNewCode codeCache [] :=
  ⟨rfl, fun h => absurd rfl h, fun h => absurd rfl h, fun h => absurd rfl h⟩

lemma Backed.kill (he : db.lookup (emptyTrie env.sha3) = rlpNull) (hne : emptyTrie env.sha3 ≠ 0)
    (acc : Account) : Backed env db (acc.kill env.sha3) :=
  ⟨hne, ⟨_, storageAt_empty he⟩, _, codeKnown_empty _ _⟩

/-- Old code that was loaded is known. -/
lemma CodeKnown.load {codeHash : Uint256} {codeCache : Bytes}
    (h : CodeKnown env db codeHash false codeCache code) :
    CodeKnown env db codeHash false code code :=
  ⟨h.hash, h.ne, fun _ hf => (Bool.false_ne_true hf).elim, fun hne hf =>
    ⟨(h.old hne hf).1, Or.inr rfl⟩⟩

end Sound

/-! ## Reads that put something into the cache -/

variable (env) in
/-- The account has got to know its code, or a word of its storage. -/
structure Refresh (db : OverlayDB) (acc acc' : Account) : Prop where
  same : acc' = { acc with storageOverlay := acc'.storageOverlay, codeCache := acc'.codeCache }
  code : acc'.codeCache = acc.codeCache ∨ acc.hasNewCode = false ∧ ∀ code,
    CodeKnown env db acc.codeHash false acc.codeCache code → acc'.codeCache = code
  slots : acc'.storageOverlay = acc.storageOverlay ∨ ∃ p, acc.storageOverlay.lookup p = none ∧
    ∀ store, StorageAt env.sha3 db acc.storageRoot store →
      acc'.storageOverlay = acc.storageOverlay.insert p (store (slotHash env p))

variable (env) in
/-- **One account has got to know more**, and sizes of code are remembered. -/
structure Refreshes (a : H160) (s s' : State) : Prop where
  db : s'.db = s.db
  root : s'.root = s.root
  touched : s'.touched = s.touched
  accountStartNonce : s'.accountStartNonce = s.accountStartNonce
  changeLog : s'.changeLog = s.changeLog
  nonExisting : s'.nonExistingAccountsCache = s.nonExistingAccountsCache
  others : ∀ b, b ≠ a → s'.cache.lookup b = s.cache.lookup b
  mine : s'.cache.lookup a = s.cache.lookup a ∨ ∃ acc acc', s.cache.lookup a = some acc ∧
    s'.cache.lookup a = some acc' ∧ Refresh env s.db acc acc'
  sizes : ∀ e ∈ s'.codeSizes, e ∈ s.codeSizes ∨ SizeKnown env s.db e

section Reads

variable {db : OverlayDB} {world : Uint256 → Option Content} {code : Bytes} {acc' : Account}

lemma Refreshes.refl (a : H160) (s : State) : Refreshes env a s s :=
  ⟨rfl, rfl, rfl, rfl, rfl, rfl, fun _ _ => rfl, Or.inl rfl, fun _ he => Or.inl he⟩

/-- The account in the cache gets to know more. -/
lemma refreshes_setCache (hl : s.cache.lookup a = some acc) (h : Refresh env s.db acc acc') :
    Refreshes env a s (s.setCache a acc') :=
  ⟨rfl, rfl, rfl, rfl, rfl, rfl, fun _ hb => AList.lookup_insert_ne hb,
    Or.inr ⟨acc, acc', hl, AList.lookup_insert _, h⟩, fun _ he => Or.inl he⟩

/-- A size is remembered. -/
lemma Refreshes.storeCodeSize {s' : State} (h : Refreshes env a s s') {ch : Uint256} {n : ℕ}
    (hk : SizeKnown env s.db (ch, n)) : Refreshes env a s (State.storeCodeSize env ch n s') := by
  have hsame := storeCodeSize_same env ch n s'
  have hsizes : ∀ e ∈ (State.storeCodeSize env ch n s').codeSizes,
      e ∈ s.codeSizes ∨ SizeKnown env s.db e := by
    intro e he
    rcases mem_storeCodeSize he with rfl | he
    · exact Or.inr hk
    · exact h.sizes e he
  generalize State.storeCodeSize env ch n s' = s2 at hsame hsizes
  rw [hsame]
  exact { h with sizes := hsizes }

lemma Refresh.backed (h : Refresh env db acc acc') (hb : Backed env db acc) :
    Backed env db acc' := by
  rw [h.same]
  refine ⟨hb.root_ne, hb.storage, ?_⟩
  obtain ⟨code, hk⟩ := hb.code
  rcases h.code with heq | ⟨hf, heq⟩
  · exact ⟨code, by rw [heq]; exact hk⟩
  · rw [hf] at hk
    refine ⟨code, ?_⟩
    change CodeKnown env db acc.codeHash acc.hasNewCode acc'.codeCache code
    rw [hf, heq code hk]
    exact hk.load

/-- **Getting to know more keeps the state in order.** -/
lemma Sound.refreshes {s' : State} (hs : Sound env s world) (h : Refreshes env a s s') :
    Sound env s' world where
  trie := by rw [h.db, h.root]; exact hs.trie
  empty := by rw [h.db]; exact hs.empty
  empty_ne := hs.empty_ne
  cache {b acc'} hl := by
    rw [h.db]
    by_cases hb : b = a
    · subst hb
      rcases h.mine with heq | ⟨acc, acc'', hacc, hacc', hr⟩
      · exact hs.cache (heq ▸ hl)
      · rw [hacc'] at hl
        cases hl
        exact hr.backed (hs.cache hacc)
    · exact hs.cache (h.others b hb ▸ hl)
  absent hn := hs.absent (h.nonExisting ▸ hn)
  dead {b acc'} hn hl := by
    rw [h.nonExisting] at hn
    by_cases hb : b = a
    · subst hb
      rcases h.mine with heq | ⟨acc, acc'', hacc, hacc', hr⟩
      · exact hs.dead hn (heq ▸ hl)
      · rw [hacc'] at hl
        cases hl
        have hdead := hs.dead hn hacc
        exact (congrArg isAlive hr.same).trans hdead
    · exact hs.dead hn (h.others b hb ▸ hl)
  sizes e he := by
    rw [h.db]
    exact (h.sizes e he).elim (hs.sizes e) id

/-- **The code of an account is read.** -/
lemma code_known (h : account env a s = .ok (some acc) s1) (hl : s1.cache.lookup a = some acc)
    (hk : CodeKnown env s1.db acc.codeHash acc.hasNewCode acc.codeCache code) :
    ∃ s2, State.code env a s = .ok code s2 ∧ Refreshes env a s1 s2 := by
  by_cases hne : code = []
  · subst hne
    exact ⟨s1, code_empty h hk.hash, .refl a s1⟩
  · by_cases hnil : acc.codeCache = []
    · have hf : acc.hasNewCode = false := by
        by_contra hf
        exact hne ((hk.fresh hne (by simpa using hf)).symm.trans hnil)
      obtain ⟨hdb, -⟩ := hk.old hne hf
      have hr : Refresh env s1.db acc { acc with codeCache := code } := by
        refine ⟨rfl, Or.inr ⟨hf, fun code' hk' => ?_⟩, Or.inl rfl⟩
        by_cases hne' : code' = []
        · subst hne'
          exact absurd hk'.hash (hk.ne hne)
        · exact hdb.symm.trans (hk'.old hne' rfl).1
      refine ⟨_, code_load h (hk.ne hne) hnil hdb hk.hash,
        (refreshes_setCache hl hr).storeCodeSize ?_⟩
      exact Or.inr ⟨hk.ne hne, by rw [hdb]; exact hne, by rw [hdb]⟩
    · have hcache : acc.codeCache = code := by
        cases hf : acc.hasNewCode with
        | true => exact hk.fresh hne hf
        | false => exact (hk.old hne hf).2.resolve_left hnil
      exact ⟨s1, hcache ▸ code_cached h (hk.ne hne) hnil, .refl a s1⟩

/-- **The size of the code is read**, where the code is not new. -/
lemma codeSize_known_code (hs : Sound env s1 world) (h : account env a s = .ok (some acc) s1)
    (hl : s1.cache.lookup a = some acc) (hf : acc.hasNewCode = false)
    (hk : CodeKnown env s1.db acc.codeHash acc.hasNewCode acc.codeCache code) :
    ∃ s2, codeSize env a s = .ok code.length s2 ∧ Refreshes env a s1 s2 := by
  have hsize : SizeKnown env s1.db (acc.codeHash, code.length) := by
    by_cases hne : code = []
    · subst hne
      exact Or.inl ⟨hk.hash, rfl⟩
    · have hdb := (hk.old hne hf).1
      exact Or.inr ⟨hk.ne hne, by rw [hdb]; exact hne, by rw [hdb]⟩
  cases hn : s1.codeSizes.lookup acc.codeHash with
  | some n =>
    have hmem := hs.sizes (acc.codeHash, n) (by
      obtain ⟨l1, l2, hl, -⟩ := lookup_eq_some_iff.mp hn
      simp [hl])
    have heq : n = code.length := by
      rcases hsize with ⟨he, h0⟩ | ⟨hne, -, h1⟩
      · rcases hmem with ⟨-, h2⟩ | ⟨hne, -⟩
        · exact h2.trans h0.symm
        · exact absurd he hne
      · rcases hmem with ⟨he, -⟩ | ⟨-, -, h2⟩
        · exact absurd he hne
        · exact h2.symm.trans h1
    exact ⟨s1, heq ▸ codeSize_known h hf hn, .refl a s1⟩
  | none =>
    have hagain : account env a s1 = .ok (some acc) s1 := by rw [account, hl]
    obtain ⟨s2, hc, hr⟩ := code_known hagain hl hk
    exact ⟨_, codeSize_unknown h hf hn hc, hr.storeCodeSize hsize⟩

/-- **A word of the storage is read.** -/
lemma storage_known {p : U256} {store : Uint256 → U256}
    (h : account env a s = .ok (some acc) s1) (hl : s1.cache.lookup a = some acc)
    (hr : acc.storageRoot ≠ 0) (hst : StorageAt env.sha3 s1.db acc.storageRoot store) :
    ∃ s2, storage env a p s = .ok ((acc.storageOverlay.lookup p).getD (store (slotHash env p))) s2 ∧
      Refreshes env a s1 s2 := by
  cases hv : acc.storageOverlay.lookup p with
  | some v => exact ⟨s1, storage_hit h hv, .refl a s1⟩
  | none =>
    refine ⟨_, storage_miss h hv hr hst,
      refreshes_setCache hl ⟨rfl, Or.inl rfl, Or.inr ⟨p, hv, ?_⟩⟩⟩
    intro store' hst'
    have heq := (hst.load p).symm.trans (hst'.load p)
    rw [show store' (slotHash env p) = store (slotHash env p) from
      ((EStateM.Result.ok.inj heq).1).symm]
    rfl

end Reads

end Ybtc
