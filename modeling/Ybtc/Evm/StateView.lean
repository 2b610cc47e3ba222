import Ybtc.Evm.StateCommit

/-!
# The accounts of a state

What the account state shows of its accounts: a map from addresses to **`View`**s, in which it makes
no difference whether an account is in the cache, whether its code was loaded and which of its words
are known.  Every operation is one on this map.
-/

namespace Ybtc

open Function State

open Stateful (bind_of_ok bind_of_error)

/-- **An account as the state shows it.**  `base` is its storage in the trie, by hashed positions,
    and `words` its storage, by positions. -/
structure View where
  alive : Bool
  dirty : Bool
  newCode : Bool
  nonce : U256
  balance : U256
  code : Bytes
  base : Uint256 → U256
  words : U256 → U256

namespace View

/-- An account that is in the trie, and not changed. -/
def stored (env : StateEnv) (c : Content) : View :=
  ⟨true, false, false, c.nonce, c.balance, c.code, c.store, fun p => c.store (slotHash env p)⟩

/-- A new account. -/
def created (nonce balance : U256) : View := ⟨true, true, false, nonce, balance, [], 0, 0⟩

/-- An account that is to be removed. -/
def kill (v : View) : View := ⟨false, true, v.newCode, 0, 0, [], 0, 0⟩

def addBalance (v : View) (amount : U256) : View :=
  { v with balance := v.balance + amount, dirty := true }

def setNonce (v : View) (nonce : U256) : View := { v with nonce := nonce, dirty := true }

def setStorage (v : View) (p w : U256) : View :=
  { v with words := update v.words p w, dirty := true }

def setNewCode (v : View) (code : Bytes) : View := { v with code := code, newCode := true }

def resetCode (v : View) : View := { v with code := [], newCode := false }

/-- `isEmpty`. -/
def isEmpty (v : View) : Prop := v.nonce = 0 ∧ v.balance = 0 ∧ v.code = []

instance (v : View) : Decidable v.isEmpty := inferInstanceAs (Decidable (_ ∧ _ ∧ _))

/-- What `addBalance` makes of an account, or of none. -/
def credit (start amount : U256) : Option View → View
  | some v => v.addBalance amount
  | none => created start amount

/-- What `incNonce` makes of an account, or of none. -/
def bump (start : U256) : Option View → View
  | some v => v.setNonce (v.nonce + 1)
  | none => created (start + 1) 0

/-- The notes of the two, about the account. -/
def creditNotes (a : H160) : Option View → List Change
  | some v => if v.dirty = false ∧ v.isEmpty then [.touch a] else []
  | none => [.create a]

def bumpNotes (a : H160) : Option View → List Change
  | some _ => [.nonce a]
  | none => [.create a]

end View

open View

variable (env : StateEnv)

/-- **The account in the cache shows the view.**  One that was not changed shows what the trie says.
    -/
structure Shows (db : OverlayDB) (acc : Account) (v : View) : Prop where
  alive : v.alive = acc.isAlive
  dirty : v.dirty = acc.isDirty
  newCode : v.newCode = acc.hasNewCode
  nonce : v.nonce = acc.nonce
  balance : v.balance = acc.balance
  code : CodeKnown env db acc.codeHash acc.hasNewCode acc.codeCache v.code
  fresh : acc.isAlive = true → acc.hasNewCode = true → acc.codeCache = v.code
  root_ne : acc.storageRoot ≠ 0
  base : StorageAt env.sha3 db acc.storageRoot v.base
  words : ∀ p, v.words p = (acc.storageOverlay.lookup p).getD (v.base (slotHash env p))

/-- **The state is in order and shows the map.** -/
structure Coherent (s : State) (world : Uint256 → Option Content) (V : H160 → Option View) : Prop
    extends Sound env s world where
  shown : ∀ {a acc}, s.cache.lookup a = some acc → ∃ v, V a = some v ∧ Shows env s.db acc v
  rest : ∀ {a}, s.cache.lookup a = none → V a = (world (addressHash env a)).map (stored env)
  clean : ∀ {a acc}, s.cache.lookup a = some acc → acc.isDirty = false →
    V a = (world (addressHash env a)).map (stored env)

variable {env} {s s1 s' : State} {a : H160} {acc acc' : Account} {v : View} {db : OverlayDB}
  {world : Uint256 → Option Content} {V : H160 → Option View}

/-! ## Accounts -/

lemma Shows.backed (h : Shows env db acc v) : Backed env db acc :=
  ⟨h.root_ne, ⟨_, h.base⟩, _, h.code⟩

/-- A record shows what it stands for. -/
lemma RecordOf.shows {st : StoredAccount} {c : Content} (h : RecordOf env.sha3 db st c) :
    Shows env db st.account (stored env c) where
  alive := rfl
  dirty := rfl
  newCode := rfl
  nonce := h.nonce.symm
  balance := h.balance.symm
  code := h.codeKnown
  fresh _ hf := by cases hf
  root_ne := h.root_ne
  base := h.storage
  words _ := rfl

section

variable (h : Shows env db acc v)

include h

lemma Shows.addBalance (amount : U256) :
    Shows env db (acc.addBalance amount) (v.addBalance amount) :=
  ⟨h.alive, rfl, h.newCode, h.nonce, congrArg (· + amount) h.balance, h.code, h.fresh,
    h.root_ne, h.base,
    h.words⟩

lemma Shows.setNonce (nonce : U256) : Shows env db (acc.setNonce nonce) (v.setNonce nonce) :=
  ⟨h.alive, rfl, h.newCode, rfl, h.balance, h.code, h.fresh, h.root_ne, h.base, h.words⟩

lemma Shows.incNonce : Shows env db acc.incNonce (v.setNonce (v.nonce + 1)) :=
  ⟨h.alive, rfl, h.newCode, congrArg (· + 1) h.nonce, h.balance, h.code, h.fresh, h.root_ne, h.base,
    h.words⟩

lemma Shows.setStorage (p w : U256) : Shows env db (acc.setStorage p w) (v.setStorage p w) := by
  refine ⟨h.alive, rfl, h.newCode, h.nonce, h.balance, h.code, h.fresh, h.root_ne, h.base,
    fun q => ?_⟩
  change update v.words p w q =
    ((acc.storageOverlay.insert p w).lookup q).getD (v.base (slotHash env q))
  by_cases hq : q = p
  · subst hq
    rw [update_self, AList.lookup_insert]
    rfl
  · rw [update_of_ne hq, AList.lookup_insert_ne hq]
    exact h.words q

lemma Shows.setNewCode {code : Bytes} (hc : env.sha3 code = emptySHA3 env.sha3 → code = []) :
    Shows env db (acc.setNewCode env.sha3 code) (v.setNewCode code) := by
  refine ⟨h.alive, h.dirty, rfl, h.nonce, h.balance, ?_, fun _ _ => rfl, h.root_ne, h.base, h.words⟩
  by_cases hne : env.sha3 code = emptySHA3 env.sha3
  · obtain rfl := hc hne
    exact codeKnown_empty true []
  · exact ⟨rfl, fun _ => hne, fun _ _ => rfl, fun _ h => by cases h⟩

lemma Shows.resetCode : Shows env db (acc.resetCode env.sha3) v.resetCode :=
  ⟨h.alive, h.dirty, rfl, h.nonce, h.balance, codeKnown_empty _ _, fun _ hf =>
    (Bool.false_ne_true hf).elim, h.root_ne,
    h.base, h.words⟩

end

lemma shows_created (he : db.lookup (emptyTrie env.sha3) = rlpNull) (hne : emptyTrie env.sha3 ≠ 0)
    (nonce balance : U256) :
    Shows env db (Account.created env.sha3 nonce balance) (View.created nonce balance) :=
  ⟨rfl, rfl, rfl, rfl, rfl, codeKnown_empty _ _, fun _ hf => (Bool.false_ne_true hf).elim, hne,
    storageAt_empty he, fun _ => rfl⟩

lemma Shows.kill (h : Shows env db acc v) (he : db.lookup (emptyTrie env.sha3) = rlpNull)
    (hne : emptyTrie env.sha3 ≠ 0) : Shows env db (acc.kill env.sha3) v.kill :=
  ⟨rfl, rfl, h.newCode, rfl, rfl, codeKnown_empty _ _, fun hf => (Bool.false_ne_true hf).elim, hne,
    storageAt_empty he, fun _ => rfl⟩

/-- **Getting to know more does not show.** -/
lemma Refresh.shows (h : Refresh env db acc acc') (hs : Shows env db acc v) :
    Shows env db acc' v := by
  have hcode : CodeKnown env db acc.codeHash acc.hasNewCode acc'.codeCache v.code := by
    rcases h.code with heq | ⟨hf, heq⟩
    · rw [heq]
      exact hs.code
    · have hk := hs.code
      rw [hf] at hk ⊢
      rw [heq _ hk]
      exact hk.load
  have hfresh : acc.isAlive = true → acc.hasNewCode = true → acc'.codeCache = v.code := by
    intro ha hf
    rcases h.code with heq | ⟨hf', -⟩
    · rw [heq]
      exact hs.fresh ha hf
    · rw [hf] at hf'
      cases hf'
  have hwords : ∀ p, v.words p = (acc'.storageOverlay.lookup p).getD (v.base (slotHash env p)) := by
    intro p
    rcases h.slots with heq | ⟨q, hq, heq⟩
    · rw [heq]
      exact hs.words p
    · rw [heq _ hs.base]
      by_cases hp : p = q
      · subst hp
        rw [AList.lookup_insert, hs.words p, hq]
        rfl
      · rw [AList.lookup_insert_ne hp]
        exact hs.words p
  rw [h.same]
  exact ⟨hs.alive, hs.dirty, hs.newCode, hs.nonce, hs.balance, hcode, hfresh, hs.root_ne,
    hs.base, hwords⟩

lemma Shows.codeHash_eq (h : Shows env db acc v) :
    acc.codeHash = emptySHA3 env.sha3 ↔ v.code = [] := by
  refine ⟨fun he => by_contra fun hne => h.code.ne hne he, fun hnil => ?_⟩
  have := h.code.hash
  rwa [hnil] at this

lemma Shows.isEmpty (h : Shows env db acc v) : acc.isEmpty env.sha3 = true ↔ v.isEmpty := by
  rw [Account.isEmpty, View.isEmpty, h.nonce, h.balance, ← h.codeHash_eq]
  simp [and_assoc]

/-! ## Single addresses -/

variable (env) in
/-- What is shown of an address: what the trie has, unless there is an entry in the cache. -/
def Held (s : State) (world : Uint256 → Option Content) (a : H160) (o : Option View) : Prop :=
  (s.cache.lookup a = none ∧ o = (world (addressHash env a)).map (stored env)) ∨
    ∃ acc v, s.cache.lookup a = some acc ∧ o = some v ∧ Shows env s.db acc v ∧
      (acc.isDirty = false → o = (world (addressHash env a)).map (stored env))

lemma Coherent.held (h : Coherent env s world V) (a : H160) : Held env s world a (V a) := by
  cases hl : s.cache.lookup a with
  | none => exact Or.inl ⟨hl, h.rest hl⟩
  | some acc =>
    obtain ⟨v, hv, hsh⟩ := h.shown hl
    exact Or.inr ⟨acc, v, hl, hv, hsh, h.clean hl⟩

lemma coherent_of_held (hs : Sound env s world) (h : ∀ a, Held env s world a (V a)) :
    Coherent env s world V where
  toSound := hs
  shown {a acc} hl := by
    rcases h a with ⟨hn, -⟩ | ⟨acc', v, hl', hv, hsh, -⟩
    · cases hn.symm.trans hl
    · cases hl'.symm.trans hl
      exact ⟨v, hv, hsh⟩
  rest {a} hl := by
    rcases h a with ⟨-, hv⟩ | ⟨acc', v, hl', -⟩
    · exact hv
    · cases hl'.symm.trans hl
  clean {a acc} hl := by
    rcases h a with ⟨hn, -⟩ | ⟨acc', v, hl', -, -, hc⟩
    · cases hn.symm.trans hl
    · cases hl'.symm.trans hl
      exact hc

variable {o : Option View}

lemma Held.congr (h : Held env s world a o)
    (hl : s'.cache.lookup a = s.cache.lookup a) (hdb : s'.db = s.db) : Held env s' world a o := by
  rwa [Held, hl, hdb]

section

variable (h : Coherent env s world V)

include h

/-- **One address is changed.** -/
lemma Coherent.change (hs : Sound env s' world)
    (hdb : s'.db = s.db) (hl : ∀ b, b ≠ a → s'.cache.lookup b = s.cache.lookup b)
    (ho : Held env s' world a o) : Coherent env s' world (update V a o) := by
  refine coherent_of_held hs fun b => ?_
  by_cases hb : b = a
  · subst hb
    rwa [update_self]
  · rw [update_of_ne hb]
    exact (h.held b).congr (hl b hb) hdb

/-! ## What does not show -/

/-- **Loading an account does not show.** -/
lemma Coherent.loads (hl : LoadsAccount env world a s s1) : Coherent env s1 world V := by
  refine coherent_of_held (h.toSound.loads hl) fun b => ?_
  rcases hl.cache b with heq | ⟨hn, acc, hacc, hd⟩ | ⟨-, hn, st, c, hw, hst, hacc⟩
  · exact (h.held b).congr heq hl.db
  · exact Or.inl ⟨hn, h.clean hacc hd⟩
  · exact Or.inr ⟨_, _, hacc, by rw [h.rest hn, hw]; rfl, hl.db ▸ hst.shows, fun _ => h.rest hn⟩

/-- **Getting to know more does not show.** -/
lemma Coherent.refreshes (hr : Refreshes env a s s') : Coherent env s' world V := by
  have hs := h.toSound.refreshes hr
  rw [← update_eq_self a V]
  refine h.change hs hr.db hr.others ?_
  rcases hr.mine with heq | ⟨acc0, acc1, hacc0, hacc1, hre⟩
  · exact (h.held a).congr heq hr.db
  · obtain ⟨v, hv, hsh⟩ := h.shown hacc0
    refine Or.inr ⟨acc1, v, hacc1, hv, hr.db ▸ hre.shows hsh, fun hd => h.clean hacc0 ?_⟩
    rw [hre.same] at hd
    exact hd

lemma Coherent.note (cs : List Change) : Coherent env (s.note cs) world V :=
  ⟨h.toSound.note cs, h.shown, h.rest, h.clean⟩

/-- **The account in the cache is replaced** by one that was changed. -/
lemma Coherent.setCache (hsh : Shows env s.db acc v)
    (hd : acc.isDirty = true) (hdead : a ∈ s.nonExistingAccountsCache → acc.isAlive = false) :
    Coherent env (s.setCache a acc) world (update V a (some v)) := by
  refine h.change (h.toSound.setCache hsh.backed hdead) rfl
    (fun b hb => AList.lookup_insert_ne hb) ?_
  exact Or.inr
    ⟨acc, v, AList.lookup_insert _, rfl, hsh, fun hd' => absurd (hd.symm.trans hd') (by decide)⟩

/-- An account that is in the cache is replaced by one that is as alive. -/
lemma Coherent.replace (hl : s.cache.lookup a = some acc)
    (hsh : Shows env s.db acc' v) (hd : acc'.isDirty = true) (ha : acc'.isAlive = acc.isAlive) :
    Coherent env (s.setCache a acc') world (update V a (some v)) :=
  h.setCache hsh hd fun hn => ha.trans (h.dead hn hl)

/-- An account that did not exist enters the cache. -/
lemma Coherent.enter (hsh : Shows env s.db acc v) (hd : acc.isDirty = true) :
    Coherent env (s.enter a acc) world (update V a (some v)) := by
  have h' : Coherent env { s with
      nonExistingAccountsCache := s.nonExistingAccountsCache.filter (· != a) } world V :=
    { h with
      absent := fun hn => h.absent (List.mem_of_mem_filter hn)
      dead := fun hn hl => h.dead (List.mem_of_mem_filter hn) hl }
  exact h'.setCache hsh hd fun hn => by simp at hn

end

/-! ## Asking for an account -/

/-- Everything that an operation on accounts leaves alone, and the notes that it makes. -/
structure Frame (notes : List Change) (s s' : State) : Prop where
  db : s'.db = s.db
  root : s'.root = s.root
  touched : s'.touched = s.touched
  accountStartNonce : s'.accountStartNonce = s.accountStartNonce
  log : s'.changeLog = notes ++ s.changeLog

lemma SameBase.frame (h : SameBase s s1) : Frame [] s s1 :=
  ⟨h.db, h.root, h.touched, h.accountStartNonce, h.changeLog⟩

lemma Refreshes.frame (h : Refreshes env a s s1) : Frame [] s s1 :=
  ⟨h.db, h.root, h.touched, h.accountStartNonce, h.changeLog⟩

variable {notes notes' : List Change}

lemma Frame.trans (h1 : Frame notes s s1) (h2 : Frame notes' s1 s') :
    Frame (notes' ++ notes) s s' :=
  ⟨h2.db.trans h1.db, h2.root.trans h1.root, h2.touched.trans h1.touched,
    h2.accountStartNonce.trans h1.accountStartNonce, by rw [h2.log, h1.log, List.append_assoc]⟩

variable (env) in
/-- **The operation has changed the map**, and made notes. -/
structure Becomes (world : Uint256 → Option Content) (s s' : State) (V' : H160 → Option View)
    (notes : List Change) : Prop extends Frame notes s s' where
  coherent : Coherent env s' world V'

/-- An account has got to know more. -/
lemma Becomes.refreshes (h : Becomes env world s s1 V notes)
    (hr : Refreshes env a s1 s') : Becomes env world s s' V notes :=
  ⟨h.toFrame.trans hr.frame, h.coherent.refreshes hr⟩

/-- One operation after another. -/
lemma Becomes.trans {V1 V2 : H160 → Option View} (h1 : Becomes env world s s1 V1 notes)
    (h2 : Becomes env world s1 s' V2 notes') : Becomes env world s s' V2 (notes' ++ notes) :=
  ⟨h1.toFrame.trans h2.toFrame, h2.coherent⟩

/-- An operation behind a read. -/
lemma Becomes.after {V1 V2 : H160 → Option View} (h1 : Becomes env world s s1 V1 [])
    (h2 : Becomes env world s1 s' V2 notes) : Becomes env world s s' V2 notes := by
  have h := h1.trans h2
  rwa [List.append_nil] at h

section Reads

variable (h : Coherent env s world V)

include h

/-- **`account` finds what the map has.** -/
lemma account_view (a : H160) : ∃ r s1, account env a s = .ok r s1 ∧ Becomes env world s s1 V [] ∧
      s1.cache.lookup a = r ∧
      ((r = none ∧ V a = none ∧ account env a s1 = .ok none s1) ∨
        ∃ acc v, r = some acc ∧ V a = some v ∧ Shows env s1.db acc v) := by
  obtain ⟨r, s1, ha, hl, hr, hn⟩ := account_loads h.toSound a
  have hc := h.loads hl
  refine ⟨r, s1, ha, ⟨hl.toSameBase.frame, hc⟩, hr, ?_⟩
  cases r with
  | none =>
    have hnone := hn rfl
    refine Or.inl ⟨rfl, ?_, by rw [account, hr]; exact if_pos hnone.2⟩
    rw [hc.rest hr, hnone.1]
    rfl
  | some acc =>
    obtain ⟨v, hv, hsh⟩ := hc.shown hr
    exact Or.inr ⟨acc, v, rfl, hv, hsh⟩

/-! ## Reads -/

lemma addressInUse_view (a : H160) : ∃ s',
    addressInUse env a s = .ok (V a).isSome s' ∧ Becomes env world s s' V [] := by
  obtain ⟨r, s1, ha, hb, -, ⟨rfl, hv, -⟩ | ⟨acc, v, rfl, hv, hsh⟩⟩ := account_view h a
  · exact ⟨s1, by rw [addressInUse_eq ha, hv]; rfl, hb⟩
  · exact ⟨s1, by rw [addressInUse_eq ha, hv]; rfl, hb⟩

/-- A read of one thing in the account. -/
lemma read_view {α : Type} {x : ScM α} {d : α} {f : Account → α} {g : View → α}
    (hx : ∀ {r s1}, account env a s = .ok r s1 → Frame [] s s1 → x s = .ok (r.elim d f) s1)
    (hf : ∀ {db acc v}, Shows env db acc v → f acc = g v) :
    ∃ s', x s = .ok ((V a).elim d g) s' ∧ Becomes env world s s' V [] := by
  obtain ⟨r, s1, ha, hb, -, ⟨rfl, hv, -⟩ | ⟨acc, v, rfl, hv, hsh⟩⟩ := account_view h a
  · exact ⟨s1, by rw [hx ha hb.toFrame, hv]; rfl, hb⟩
  · exact ⟨s1, by rw [hx ha hb.toFrame, hv, Option.elim_some, hf hsh]; rfl, hb⟩

lemma balance_view (a : H160) : ∃ s',
    balance env a s = .ok ((V a).elim 0 balance) s' ∧ Becomes env world s s' V [] :=
  read_view h (fun ha _ => balance_eq ha) fun hsh => hsh.balance.symm

lemma getNonce_view (a : H160) : ∃ s',
    getNonce env a s = .ok ((V a).elim s.accountStartNonce nonce) s' ∧
      Becomes env world s s' V [] :=
  read_view h (fun ha hf => hf.accountStartNonce ▸ getNonce_eq ha) fun hsh => hsh.nonce.symm

lemma addressHasCode_view (a : H160) : ∃ s',
    addressHasCode env a s = .ok ((V a).elim false fun v => v.code != []) s' ∧
      Becomes env world s s' V [] := by
  refine read_view h (fun ha _ => addressHasCode_eq ha) fun hsh => ?_
  rw [Bool.eq_iff_iff, bne_iff_ne, bne_iff_ne, Ne, Ne, hsh.codeHash_eq]

lemma codeHash_view (a : H160) : ∃ s', codeHash env a s = .ok (env.sha3 ((V a).elim [] code)) s' ∧
      Becomes env world s s' V [] := by
  obtain ⟨s', hr, hb⟩ := read_view h (fun ha _ => codeHash_eq ha) fun hsh => hsh.code.hash
  exact ⟨s', by rw [hr]; cases V a <;> rfl, hb⟩

lemma code_view (a : H160) : ∃ s',
    code env a s = .ok ((V a).elim [] code) s' ∧ Becomes env world s s' V [] := by
  obtain ⟨r, s1, ha, hb, hr, ⟨rfl, hv, -⟩ | ⟨acc, v, rfl, hv, hsh⟩⟩ := account_view h a
  · exact ⟨s1, by rw [hv]; exact bind_of_ok ha, hb⟩
  · obtain ⟨s2, hc, hf⟩ := code_known ha hr hsh.code
    exact ⟨s2, by rw [hc, hv]; rfl, hb.refreshes hf⟩

/-- The size of the code, which is right for an account that is not to be removed. -/
lemma codeSize_view (a : H160) : ∃ n s', codeSize env a s = .ok n s' ∧ Becomes env world s s' V [] ∧
      ((∀ v, V a = some v → v.alive = true) → n = ((V a).elim [] code).length) := by
  obtain ⟨r, s1, ha, hb, hr, ⟨rfl, hv, -⟩ | ⟨acc, v, rfl, hv, hsh⟩⟩ := account_view h a
  · exact ⟨0, s1, bind_of_ok ha, hb, fun _ => by rw [hv]; rfl⟩
  · rw [hv]
    cases hf : acc.hasNewCode with
    | true =>
      refine ⟨_, s1, codeSize_fresh ha hf, hb, fun halive => congrArg List.length ?_⟩
      exact hsh.fresh (hsh.alive.symm.trans (halive v rfl)) hf
    | false =>
      obtain ⟨s2, hc, hfr⟩ := codeSize_known_code hb.coherent.toSound ha hr hf hsh.code
      exact ⟨_, s2, hc, hb.refreshes hfr, fun _ => rfl⟩

lemma storage_view (a : H160) (p : U256) : ∃ s',
    storage env a p s = .ok ((V a).elim 0 fun v => v.words p) s' ∧
      Becomes env world s s' V [] := by
  obtain ⟨r, s1, ha, hb, hr, ⟨rfl, hv, -⟩ | ⟨acc, v, rfl, hv, hsh⟩⟩ := account_view h a
  · exact ⟨s1, by rw [hv]; exact bind_of_ok ha, hb⟩
  · obtain ⟨s2, hc, hf⟩ := storage_known ha hr hsh.root_ne hsh.base
    refine ⟨s2, ?_, hb.refreshes hf⟩
    rw [hc, hv]
    exact congrArg (EStateM.Result.ok · s2) (hsh.words p).symm

end Reads

/-! ## Changes -/

section Changes

/-- A new account enters the cache behind a read. -/
lemma Becomes.enter (hb : Becomes env world s s1 V []) (nonce balance : U256)
    (notes : List Change) :
    Becomes env world s ((s1.enter a (Account.created env.sha3 nonce balance)).note notes)
      (update V a (some (View.created nonce balance))) notes :=
  ⟨⟨hb.db, hb.root, hb.touched, hb.accountStartNonce, congrArg (notes ++ ·) hb.log⟩,
    (hb.coherent.enter (shows_created hb.coherent.empty hb.coherent.empty_ne _ _) rfl).note _⟩

/-- The account in the cache is replaced behind a read. -/
lemma Becomes.replace (hb : Becomes env world s s1 V []) (hl : s1.cache.lookup a = some acc)
    (hsh : Shows env s1.db acc' v) (hd : acc'.isDirty = true) (ha : acc'.isAlive = acc.isAlive)
    (notes : List Change) :
    Becomes env world s ((s1.setCache a acc').note notes) (update V a (some v)) notes :=
  ⟨⟨hb.db, hb.root, hb.touched, hb.accountStartNonce, congrArg (notes ++ ·) hb.log⟩,
    (hb.coherent.replace hl hsh hd ha).note _⟩

lemma touchNotes_view (hsh : Shows env db acc v) :
    touchNotes env.sha3 a acc = creditNotes a (some v) := by
  simp only [touchNotes, creditNotes, hsh.dirty, hsh.isEmpty]

variable (h : Coherent env s world V)

include h

lemma Becomes.refl : Becomes env world s s V [] := ⟨⟨rfl, rfl, rfl, rfl, rfl⟩, h⟩

/-- A changed account is in the cache. -/
lemma Coherent.cached_of_dirty (hv : V a = some v)
    (hd : v.dirty = true) : ∃ acc, s.cache.lookup a = some acc ∧ Shows env s.db acc v := by
  rcases h.held a with ⟨-, ho⟩ | ⟨acc, v', hl, ho, hsh, -⟩
  · obtain ⟨c, -, rfl⟩ := Option.map_eq_some_iff.mp (ho.symm.trans hv)
    cases hd
  · cases ho.symm.trans hv
    exact ⟨acc, hl, hsh⟩

lemma addBalance_view (hn : s.accountStartNonce ≠ invalid256 ∨ V a ≠ none) (amount : U256) : ∃ s',
    addBalance env a amount s = .ok () s' ∧
      Becomes env world s s' (update V a (some (credit s.accountStartNonce amount (V a))))
        (balanceNotes a amount ++ creditNotes a (V a)) := by
  obtain ⟨r, s1, ha, hb, hr, ⟨rfl, hv, hagain⟩ | ⟨acc, v, rfl, hv, hsh⟩⟩ := account_view h a
  · have hn1 : s1.accountStartNonce ≠ invalid256 := by
      rw [hb.accountStartNonce]
      exact hn.resolve_right fun hne => hne hv
    refine ⟨_, addBalance_none ha hagain hn1 amount, ?_⟩
    rw [hv, ← hb.accountStartNonce]
    exact hb.enter _ _ _
  · refine ⟨_, addBalance_some ha amount, ?_⟩
    rw [hv, ← touchNotes_view hsh]
    exact hb.replace hr (hsh.addBalance amount) rfl rfl _

lemma addBalance_view_error (hn : s.accountStartNonce = invalid256)
    (hv : V a = none) (amount : U256) : ∃ s', addBalance env a amount s =
      .error (rangeError "Invalid Account Start Nonce State") s' ∧ Becomes env world s s' V [] := by
  obtain ⟨r, s1, ha, hb, -, ⟨rfl, -, -⟩ | ⟨acc, v, -, hv', -⟩⟩ := account_view h a
  · exact ⟨s1, (bind_of_ok ha).trans (bind_of_error (bind_of_error
      (requireAccountStartNonce_error (hb.accountStartNonce.trans hn)))), hb⟩
  · rw [hv] at hv'
    cases hv'

lemma incNonce_view (hn : s.accountStartNonce ≠ invalid256 ∨ V a ≠ none) : ∃ s',
    incNonce env a s = .ok () s' ∧
      Becomes env world s s' (update V a (some (bump s.accountStartNonce (V a))))
        (bumpNotes a (V a)) := by
  obtain ⟨r, s1, ha, hb, hr, ⟨rfl, hv, hagain⟩ | ⟨acc, v, rfl, hv, hsh⟩⟩ := account_view h a
  · have hn1 : s1.accountStartNonce ≠ invalid256 := by
      rw [hb.accountStartNonce]
      exact hn.resolve_right fun hne => hne hv
    refine ⟨_, (bind_of_ok ha).trans ((bind_of_ok (requireAccountStartNonce_ok hn1)).trans
      (createAccount_missing hagain _)), ?_⟩
    rw [hv, ← hb.accountStartNonce]
    exact hb.enter _ _ _
  · refine ⟨_, bind_of_ok ha, ?_⟩
    rw [hv]
    exact hb.replace hr hsh.incNonce rfl rfl [.nonce a]

lemma incNonce_view_error (hn : s.accountStartNonce = invalid256)
    (hv : V a = none) : ∃ s', incNonce env a s =
      .error (rangeError "Invalid Account Start Nonce State") s' ∧ Becomes env world s s' V [] := by
  obtain ⟨r, s1, ha, hb, -, ⟨rfl, -, -⟩ | ⟨acc, v, -, hv', -⟩⟩ := account_view h a
  · exact ⟨s1, (bind_of_ok ha).trans (bind_of_error
      (requireAccountStartNonce_error (hb.accountStartNonce.trans hn))), hb⟩
  · rw [hv] at hv'
    cases hv'

lemma kill_view (a : H160) : ∃ s', State.kill env a s = .ok () s' ∧
    Becomes env world s s' (update V a ((V a).map kill)) [] := by
  obtain ⟨r, s1, ha, hb, hr, ⟨rfl, hv, -⟩ | ⟨acc, v, rfl, hv, hsh⟩⟩ := account_view h a
  · refine ⟨s1, bind_of_ok ha, ?_⟩
    rw [hv, Option.map_none, ← hv, update_eq_self]
    exact hb
  · refine ⟨_, bind_of_ok ha, ⟨hb.db, hb.root, hb.touched, hb.accountStartNonce, hb.log⟩, ?_⟩
    rw [hv]
    exact hb.coherent.setCache (hsh.kill hb.coherent.empty hb.coherent.empty_ne) rfl fun _ => rfl

/-- New code for an account that was changed. -/
lemma setNewCode_view (hv : V a = some v) (hd : v.dirty = true)
    {code : Bytes} (hc : env.sha3 code = emptySHA3 env.sha3 → code = []) : ∃ s',
    setNewCode env a code s = .ok () s' ∧
      Becomes env world s s' (update V a (some (v.setNewCode code))) [.newCode a] := by
  obtain ⟨acc, hl, hsh⟩ := h.cached_of_dirty hv hd
  have hat : cacheAt env s a = acc := by rw [cacheAt, hl]; rfl
  refine ⟨_, rfl, ?_⟩
  rw [hat]
  exact (Becomes.refl h).replace hl (hsh.setNewCode hc) (hsh.dirty.symm.trans hd) rfl [.newCode a]

/-- A word of an account that exists is changed. -/
lemma setStorage_view (hv : V a = some v) (p w : U256) : ∃ s', setStorage env a p w s = .ok () s' ∧
      Becomes env world s s' (update V a (some (v.setStorage p w))) [.storage a p (v.words p)] := by
  obtain ⟨r, s1, ha, hb, hr, ⟨-, hv', -⟩ | ⟨acc, v', rfl, hv', hsh⟩⟩ := account_view h a
  · rw [hv] at hv'
    cases hv'
  · rw [hv] at hv'
    cases hv'
    obtain ⟨s2, hst, hf⟩ := storage_known (p := p) ha hr hsh.root_ne hsh.base
    rw [← hsh.words p] at hst
    have hb2 := hb.refreshes hf
    obtain ⟨acc2, hl2, hsh2⟩ : ∃ acc2, s2.cache.lookup a = some acc2 ∧ Shows env s2.db acc2 v := by
      rw [hf.db]
      rcases hf.mine with heq | ⟨acc0, acc1, hacc0, hacc1, hre⟩
      · exact ⟨acc, heq.trans hr, hsh⟩
      · rw [hr] at hacc0
        cases hacc0
        exact ⟨acc1, hacc1, hre.shows hsh⟩
    have hat : cacheAt env s2 a = acc2 := by rw [cacheAt, hl2]; rfl
    refine ⟨_, setStorage_eq hst w, ?_⟩
    rw [hat]
    exact hb2.replace hl2 (hsh2.setStorage p w) rfl rfl _

/-- What `subBalance` makes of the map. -/
def debited (V : H160 → Option View) (a : H160) (value : U256) : H160 → Option View :=
  if value = 0 then V else update V a ((V a).map (addBalance · (0 - value)))

/-- The notes of `subBalance`. -/
def debitNotes (V : H160 → Option View) (a : H160) (value : U256) : List Change :=
  if value = 0 then [] else balanceNotes a (0 - value) ++ creditNotes a (V a)

/-- The account can pay the value. -/
def CanPay (V : H160 → Option View) (a : H160) (value : U256) : Prop :=
  value = 0 ∨ ∃ v, V a = some v ∧ ¬ v.balance < value

lemma subBalance_view {value : U256} (hp : CanPay V a value) : ∃ s',
    subBalance env a value s = .ok () s' ∧
      Becomes env world s s' (debited V a value) (debitNotes V a value) := by
  unfold debited debitNotes
  by_cases hv : value = 0
  · rw [if_pos hv, if_pos hv]
    exact ⟨s, congrFun (if_pos hv) s, .refl h⟩
  · obtain ⟨v, hva, hle⟩ := hp.resolve_left hv
    rw [if_neg hv, if_neg hv]
    obtain ⟨r, s1, ha, hb, hr, ⟨-, hv', -⟩ | ⟨acc, v', rfl, hv', hsh⟩⟩ := account_view h a
    · rw [hva] at hv'
      cases hv'
    · rw [hva] at hv'
      cases hv'
      obtain ⟨s', hadd, hb'⟩ := addBalance_view hb.coherent (Or.inr (by rw [hva]; simp)) (0 - value)
      refine ⟨s', (subBalance_enough hv ha (hsh.balance ▸ hle)).trans hadd, ?_⟩
      have hb'' := hb.after hb'
      rw [hva] at hb'' ⊢
      exact hb''

lemma subBalance_view_error {value : U256} (hp : ¬ CanPay V a value) :
    ∃ s', subBalance env a value s = .error (rangeError "Not Enough Cash") s' ∧
      Becomes env world s s' V [] := by
  have hv : value ≠ 0 := fun hv => hp (Or.inl hv)
  obtain ⟨r, s1, ha, hb, hr, ⟨rfl, hv', -⟩ | ⟨acc, v', rfl, hv', hsh⟩⟩ := account_view h a
  · exact ⟨s1, subBalance_short hv ha (fun acc hacc => by cases hacc), hb⟩
  · refine ⟨s1, subBalance_short hv ha fun acc' hacc => ?_, hb⟩
    cases hacc
    by_contra hlt
    exact hp (Or.inr ⟨v', hv', by rw [hsh.balance]; exact hlt⟩)

/-- An account is made at an address that is not in use. -/
lemma createContract_view (hv : V a = none)
    (hn : s.accountStartNonce ≠ invalid256) : ∃ s', createContract env a s = .ok () s' ∧
      Becomes env world s s' (update V a (some (View.created s.accountStartNonce 0)))
        [.create a] := by
  obtain ⟨r, s1, ha, hb, hr, ⟨rfl, -, hagain⟩ | ⟨acc, v, -, hv', -⟩⟩ := account_view h a
  · have hcreate : createAccount env a (Account.created env.sha3 s.accountStartNonce 0) s =
        .ok () ((s1.enter a (Account.created env.sha3 s.accountStartNonce 0)).note [.create a]) :=
      bind_of_ok (addressInUse_eq ha)
    exact ⟨_, (bind_of_ok (requireAccountStartNonce_ok hn)).trans hcreate, hb.enter _ _ _⟩
  · rw [hv] at hv'
    cases hv'

end Changes

end Ybtc
