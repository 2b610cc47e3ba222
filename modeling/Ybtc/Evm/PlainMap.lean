import Ybtc.Evm.Footprint
import Ybtc.Evm.Rollback

/-!
# The account state as a plain map

What the account state is for: a map from addresses to accounts, with a mark on those that were
changed since the last commit.  The caches, the tries and the node store are not seen.  The main
result is `cache_transparent`.
-/

namespace Ybtc

open Function Option State

open Stateful (stateAfter bind_of_ok bind_of_error Keeps)
open Simulation (outcome outcomes endState EachStep)

/-! ## The map -/

/-- An account. -/
structure PlainAccount where
  nonce : U256
  balance : U256
  code : Bytes
  storage : U256 → U256

/-- No nonce, no balance and no code. -/
def PlainAccount.isEmpty (acc : PlainAccount) : Bool :=
  acc.nonce == 0 && acc.balance == 0 && acc.code == []

/-- **A map from addresses to accounts.**  It knows which of them were changed since the last
    commit, and what it was at every commit. -/
structure PlainMap where
  accounts : H160 → Option PlainAccount
  changed : H160 → Bool
  committed : List (H160 → Option PlainAccount)
  start : U256

namespace PlainMap

/-- The account is changed. -/
def set (m : PlainMap) (a : H160) (acc : PlainAccount) : PlainMap :=
  { m with
    accounts := update m.accounts a (some acc)
    changed := update m.changed a true }

/-- A new account, if new accounts have a nonce. -/
def add (m : PlainMap) (a : H160) (acc : PlainAccount) : Except Fault PlainMap :=
  if m.start = invalid256 then .error (rangeError "Invalid Account Start Nonce State")
  else .ok (m.set a acc)

/-- The accounts that are left: of those that were changed, the empty ones may be removed. -/
def kept (m : PlainMap) (behaviour : CommitBehaviour) : H160 → Option PlainAccount :=
  if behaviour = .removeEmptyAccounts then
    fun a => (m.accounts a).filter fun acc => !(m.changed a && acc.isEmpty)
  else m.accounts

def commit (m : PlainMap) (behaviour : CommitBehaviour) : PlainMap :=
  { m with
    accounts := m.kept behaviour
    changed := fun _ => false
    committed := m.kept behaviour :: m.committed }

/-- The accounts at an earlier commit. -/
def goTo (m : PlainMap) (n : ℕ) : PlainMap :=
  match m.committed[n]? with
  | some accounts => { m with accounts := accounts, changed := fun _ => false }
  | none => m

end PlainMap

open PlainMap

/-! ## Operations -/

/-- The answer to an operation. -/
inductive Reply
  | done
  | word (w : U256)
  | size (n : ℕ)
  | flag (b : Bool)
  | bytes (b : Bytes)
deriving Repr, DecidableEq

open Reply

/-- The reads. -/
inductive AccountRead
  | balance (a : H160)
  | getNonce (a : H160)
  | code (a : H160)
  | codeSize (a : H160)
  | codeHash (a : H160)
  | addressHasCode (a : H160)
  | addressInUse (a : H160)
  | storage (a : H160) (p : U256)
deriving Repr, DecidableEq

/-- The changes. -/
inductive AccountWrite
  | addBalance (a : H160) (amount : U256)
  | subBalance (a : H160) (value : U256)
  | incNonce (a : H160)
  | setStorage (a : H160) (p w : U256)
  | setNewCode (a : H160) (c : Bytes)
  | kill (a : H160)
  | createContract (a : H160)
deriving Repr, DecidableEq

open AccountWrite

/-- The operations.  `setRoot n` goes to the root of a commit, of which the newest has the number
    zero. -/
inductive MapOp
  | read (r : AccountRead)
  | write (w : AccountWrite)
  | commit (behaviour : CommitBehaviour)
  | setRoot (n : ℕ)
deriving Repr, DecidableEq

/-- The account state, and the roots of its commits. -/
structure Session where
  state : State
  roots : List Uint256

section

variable (env : StateEnv)

def AccountRead.run : AccountRead → ScM Reply
  | .balance a => word <$> State.balance env a
  | .getNonce a => word <$> State.getNonce env a
  | .code a => bytes <$> State.code env a
  | .codeSize a => size <$> State.codeSize env a
  | .codeHash a => word <$> State.codeHash env a
  | .addressHasCode a => flag <$> State.addressHasCode env a
  | .addressInUse a => flag <$> State.addressInUse env a
  | .storage a p => word <$> State.storage env a p

/-- The answer of the map. -/
def AccountRead.onMap (m : PlainMap) : AccountRead → Reply
  | .balance a => .word ((m.accounts a).elim 0 PlainAccount.balance)
  | .getNonce a => .word ((m.accounts a).elim m.start PlainAccount.nonce)
  | .code a => .bytes ((m.accounts a).elim [] PlainAccount.code)
  | .codeSize a => .size ((m.accounts a).elim [] PlainAccount.code).length
  | .codeHash a => .word (env.sha3 ((m.accounts a).elim [] PlainAccount.code))
  | .addressHasCode a => .flag ((m.accounts a).elim false fun acc => acc.code != [])
  | .addressInUse a => .flag (m.accounts a).isSome
  | .storage a p => .word ((m.accounts a).elim 0 fun acc => acc.storage p)

def AccountWrite.run : AccountWrite → ScM Unit
  | .addBalance a amount => State.addBalance env a amount
  | .subBalance a value => State.subBalance env a value
  | .incNonce a => State.incNonce env a
  | .setStorage a p w => State.setStorage env a p w
  | .setNewCode a c => State.setNewCode env a c
  | .kill a => State.kill env a
  | .createContract a => State.createContract env a

/-- The change of the map. -/
def AccountWrite.onMap (m : PlainMap) : AccountWrite → Except Fault PlainMap
  | .addBalance a amount =>
    match m.accounts a with
    | some acc => .ok (m.set a { acc with balance := acc.balance + amount })
    | none => m.add a ⟨m.start, amount, [], 0⟩
  | .subBalance a value =>
    if value = 0 then .ok m
    else
      match m.accounts a with
      | some acc =>
        if acc.balance < value then .error (rangeError "Not Enough Cash")
        else .ok (m.set a { acc with balance := acc.balance - value })
      | none => .error (rangeError "Not Enough Cash")
  | .incNonce a =>
    match m.accounts a with
    | some acc => .ok (m.set a { acc with nonce := acc.nonce + 1 })
    | none => m.add a ⟨m.start + 1, 0, [], 0⟩
  | .setStorage a p w =>
    match m.accounts a with
    | some acc => .ok (m.set a { acc with storage := update acc.storage p w })
    | none => .ok m
  | .setNewCode a c =>
    match m.accounts a with
    | some acc => .ok (m.set a { acc with code := c })
    | none => .ok m
  | .kill a => .ok { m with accounts := update m.accounts a none }
  | .createContract a =>
    match m.accounts a with
    | some _ => .error .assertion
    | none => m.add a ⟨m.start, 0, [], 0⟩

/-- Code of the account state. -/
def onSession {α : Type} (x : ScM α) : EStateM Fault Session α := fun q =>
  match x q.state with
  | .ok v s => .ok v { q with state := s }
  | .error e s => .error e { q with state := s }

/-- The operation on the account state. -/
def MapOp.run : MapOp → EStateM Fault Session Reply
  | .read r => onSession (r.run env)
  | .write w => do
    onSession (w.run env)
    pure .done
  | .commit behaviour => do
    onSession (State.commit env behaviour)
    fun q => .ok .done { q with roots := q.state.root :: q.roots }
  | .setRoot n => fun q =>
    match q.roots[n]? with
    | some root => (do
        onSession (State.setRoot env root)
        pure .done : EStateM Fault Session Reply) q
    | none => .ok .done q

/-- The operation on the map. -/
def MapOp.onMap : MapOp → EStateM Fault PlainMap Reply
  | .read r => fun m => .ok (r.onMap env m) m
  | .write w => fun m =>
    match w.onMap m with
    | .ok m' => .ok .done m'
    | .error e => .error e m
  | .commit behaviour => fun m => .ok .done (m.commit behaviour)
  | .setRoot n => fun m => .ok .done (m.goTo n)

/-! ## What is asked of the operations -/

/-- The account is to be removed at the next commit. -/
def Killed (s : State) (a : H160) : Prop := (s.cache.lookup a).any (fun acc => !acc.isAlive) = true

instance (s : State) (a : H160) : Decidable (Killed s a) := inferInstanceAs (Decidable (_ = true))

/-- Of an account that was killed, the nonce, the size of the code and its existence are not asked.
    -/
def AccountRead.Safe (s : State) : AccountRead → Prop
  | .getNonce a => ¬ Killed s a
  | .codeSize a => ¬ Killed s a
  | .addressInUse a => ¬ Killed s a
  | _ => True

/-- An account that was killed is not changed; storage is written where there is an account,
    contracts are made where there is none, and **new code is given to accounts that were changed**.
    -/
def AccountWrite.Safe (s : State) : AccountWrite → Prop
  | .addBalance a _ => ¬ Killed s a
  | .subBalance _ _ => True
  | .incNonce a => ¬ Killed s a
  | .setStorage a _ _ => ¬ Killed s a ∧ answer (addressInUse env a) s = some true
  | .setNewCode a c => ¬ Killed s a ∧ Changed s a ∧ (env.sha3 c = emptySHA3 env.sha3 → c = [])
  | .kill _ => True
  | .createContract a => answer (addressInUse env a) s = some false

def MapOp.Safe (q : Session) : MapOp → Prop
  | .read r => r.Safe q.state
  | .write w => w.Safe env q.state
  | .commit _ => True
  | .setRoot _ => True

end

/-- The address and the position of a read. -/
def AccountRead.Within (A : H160 → Prop) (P : U256 → Prop) : AccountRead → Prop
  | .balance a => A a
  | .getNonce a => A a
  | .code a => A a
  | .codeSize a => A a
  | .codeHash a => A a
  | .addressHasCode a => A a
  | .addressInUse a => A a
  | .storage a p => A a ∧ P p

/-- The address and the position of a change. -/
def AccountWrite.Within (A : H160 → Prop) (P : U256 → Prop) : AccountWrite → Prop
  | .addBalance a _ => A a
  | .subBalance a _ => A a
  | .incNonce a => A a
  | .setStorage a p _ => A a ∧ P p
  | .setNewCode a _ => A a
  | .kill a => A a
  | .createContract a => A a

/-- The operation is about addresses and positions in use. -/
def MapOp.Within (A : H160 → Prop) (P : U256 → Prop) : MapOp → Prop
  | .read r => r.Within A P
  | .write w => w.Within A P
  | .commit _ => True
  | .setRoot _ => True

/-! ## The map that is presented -/

variable {env : StateEnv} {A : H160 → Prop} {P : U256 → Prop} {s s' : State} {a : H160} {v : View}
  {acc : PlainAccount} {world world' : Uint256 → Option Content} {V V' : H160 → Option View}
  {m m' : PlainMap} {q : Session} {notes : List Change}

/-- The same account, at the positions in use. -/
structure ShownAs (P : U256 → Prop) (v : View) (acc : PlainAccount) : Prop where
  nonce : v.nonce = acc.nonce
  balance : v.balance = acc.balance
  code : v.code = acc.code
  storage : ∀ p, P p → v.words p = acc.storage p

/-- **The account of the state is the one of the map.**  One that was killed is gone from the map.
    -/
def Presented (P : U256 → Prop) (o : Option View) (o' : Option PlainAccount)
    (changed : Bool) : Prop :=
  (o = none ∧ o' = none) ∨
  (∃ v, o = some v ∧ o' = none ∧ v.alive = false ∧ v.balance = 0 ∧ v.code = [] ∧ v.words = 0) ∨
  ∃ v acc, o = some v ∧ o' = some acc ∧ v.alive = true ∧ v.dirty = changed ∧ ShownAs P v acc

variable (env A P) in
/-- What is under a root is the map at a commit. -/
def Recorded (db : OverlayDB) (root : Uint256) (accounts : H160 → Option PlainAccount) : Prop :=
  ∃ world, WorldAt env.sha3 db root world ∧
    ∀ a, A a → Presented P ((world (addressHash env a)).map (View.stored env)) (accounts a) false

variable (env A P) in
/-- **The state shows a map of views that is the map of accounts.** -/
structure PresentsBy (world : Uint256 → Option Content) (V : H160 → Option View) (q : Session)
    (m : PlainMap) : Prop where
  coherent : Coherent env q.state world V
  footprint : Footprint q.state.db A P q.state
  start : q.state.accountStartNonce = m.start
  accounts : ∀ a, A a → Presented P (V a) (m.accounts a) (m.changed a)
  committed : List.Forall₂ (Recorded env A P q.state.db) q.roots m.committed

variable (env A P) in
/-- **The state presents the map.** -/
def Presents (q : Session) (m : PlainMap) : Prop := ∃ world V, PresentsBy env A P world V q m

/-! ## Accounts -/

section Accounts

variable {o : Option View} {o' : Option PlainAccount} {changed : Bool}

/-- Reads that do not tell an account that was killed from none. -/
lemma Presented.elim {β : Type} (h : Presented P o o' changed) (d : β) {f : View → β}
    {g : PlainAccount → β} (hd : ∀ v : View, v.balance = 0 → v.code = [] → v.words = 0 → f v = d)
    (hf : ∀ v acc, ShownAs P v acc → f v = g acc) : o.elim d f = o'.elim d g := by
  rcases h with ⟨rfl, rfl⟩ | ⟨v, rfl, rfl, -, hb, hc, hw⟩ | ⟨v, acc, rfl, rfl, -, -, hs⟩
  · rfl
  · exact hd v hb hc hw
  · exact hf v acc hs

/-- An account that is not alive is in the cache. -/
lemma Coherent.killed (h : Coherent env s world V) (hv : V a = some v) (ha : v.alive = false) :
    Killed s a := by
  rcases h.held a with ⟨-, ho⟩ | ⟨acc, v', hl, ho, hsh, -⟩
  · obtain ⟨c, -, rfl⟩ := map_eq_some_iff.mp (ho.symm.trans hv)
    cases ha
  · cases ho.symm.trans hv
    rw [Killed, hl, any_some, ← hsh.alive, ha]
    rfl

/-- There is no account, or one that is alive. -/
lemma Presented.alive (h : Presented P (V a) o' changed) (hc : Coherent env s world V)
    (hk : ¬ Killed s a) : (V a = none ∧ o' = none) ∨
      ∃ v acc, V a = some v ∧ o' = some acc ∧ v.alive = true ∧ v.dirty = changed ∧
        ShownAs P v acc := by
  rcases h with h | ⟨v, hv, -, ha, -⟩ | h
  · exact Or.inl h
  · exact absurd (hc.killed hv ha) hk
  · exact Or.inr h

lemma Presented.killed (hv : v.alive = false) (hb : v.balance = 0) (hc : v.code = [])
    (hw : v.words = 0) :
    Presented P (some v) none changed := Or.inr (Or.inl ⟨v, rfl, rfl, hv, hb, hc, hw⟩)

lemma ShownAs.presented (h : ShownAs P v acc) (ha : v.alive = true) (hd : v.dirty = changed) :
    Presented P (some v) (some acc) changed := Or.inr (Or.inr ⟨v, acc, rfl, rfl, ha, hd, h⟩)

lemma ShownAs.isEmpty (h : ShownAs P v acc) : v.isEmpty ↔ acc.isEmpty = true := by
  rw [View.isEmpty, PlainAccount.isEmpty, h.nonce, h.balance, h.code]
  simp [and_assoc]

end Accounts

/-! ## Reads -/

section Reads

variable (env) in
lemma AccountRead.run_footprint {db : OverlayDB} (r : AccountRead) (hw : r.Within A P) :
    Stays db A P (r.run env) := by
  have hmap : ∀ {α : Type} {x : ScM α} {f : α → Reply},
      Stays db A P x → Stays db A P (f <$> x) :=
    fun hx => hx.bind fun _ _ => Keeps.pure trivial
  cases r with
  | balance a => exact hmap (balance_footprint hw)
  | getNonce a => exact hmap (getNonce_footprint hw)
  | code a => exact hmap (code_footprint hw)
  | codeSize a => exact hmap (codeSize_footprint hw)
  | codeHash a => exact hmap (codeHash_footprint hw)
  | addressHasCode a => exact hmap (addressHasCode_footprint hw)
  | addressInUse a => exact hmap (addressInUse_footprint hw)
  | storage a p => exact hmap (storage_footprint hw.1 hw.2)

/-- A read whose answer is the one of the map. -/
lemma read_answers {α : Type} {x : ScM α} {w : α} {f : α → Reply} {reply : Reply}
    (hx : ∃ s', x s = .ok w s' ∧ Becomes env world s s' V []) (hr : f w = reply) :
    ∃ s', (f <$> x) s = .ok reply s' ∧ Becomes env world s s' V [] := by
  obtain ⟨s', hx, hb⟩ := hx
  subst hr
  exact ⟨s', bind_of_ok hx, hb⟩

/-- **Every read answers as the map does.** -/
lemma read_presented (h : PresentsBy env A P world V q m) (r : AccountRead) (hw : r.Within A P)
    (hs : r.Safe q.state) :
    ∃ s', r.run env q.state = .ok (r.onMap env m) s' ∧ Becomes env world q.state s' V [] := by
  have hc := h.coherent
  have hcode : ∀ {a}, A a → (V a).elim [] View.code = (m.accounts a).elim [] PlainAccount.code :=
    fun ha => (h.accounts _ ha).elim [] (fun _ _ h _ => h) fun _ _ hs => hs.code
  cases r with
  | balance a =>
    exact read_answers (balance_view hc a) (congrArg word
      ((h.accounts a hw).elim 0 (fun _ h _ _ => h) fun _ _ hs => hs.balance))
  | getNonce a =>
    refine read_answers (getNonce_view hc a) (congrArg word ?_)
    rcases (h.accounts a hw).alive hc hs with ⟨hv, hm⟩ | ⟨v, acc, hv, hm, -, -, hsh⟩
    · rw [hv, hm]
      exact h.start
    · rw [hv, hm]
      exact hsh.nonce
  | code a =>
    exact read_answers (code_view hc a) (congrArg bytes (hcode hw))
  | codeSize a =>
    have halive : ∀ v, V a = some v → v.alive = true := by
      intro v hv
      by_contra hne
      exact hs (hc.killed hv (Bool.not_eq_true _ ▸ hne))
    obtain ⟨n, s', hx, hb, hn⟩ := codeSize_view hc a
    refine read_answers ⟨s', hx, hb⟩ (congrArg size ?_)
    rw [hn halive, hcode hw]
  | codeHash a =>
    exact read_answers (codeHash_view hc a) (congrArg (fun c => word (env.sha3 c)) (hcode hw))
  | addressHasCode a =>
    refine read_answers (addressHasCode_view hc a)
      (congrArg flag ((h.accounts a hw).elim false ?_ ?_))
    · intro v _ hnil _
      rw [hnil]
      rfl
    · intro v acc hsh
      rw [hsh.code]
  | addressInUse a =>
    refine read_answers (addressInUse_view hc a) (congrArg flag ?_)
    rcases (h.accounts a hw).alive hc hs with ⟨hv, hm⟩ | ⟨v, acc, hv, hm, -⟩
    · rw [hv, hm]
      rfl
    · rw [hv, hm]
      rfl
  | storage a p =>
    exact read_answers (storage_view hc a p) (congrArg word ((h.accounts a hw.1).elim 0
      (fun _ _ _ h => congrFun h p) fun _ _ hs => hs.storage p hw.2))

end Reads

/-! ## Changes -/

section Writes

variable (env) in
lemma AccountWrite.run_footprint {db : OverlayDB} (w : AccountWrite) (hw : w.Within A P) :
    Stays db A P (w.run env) := by
  cases w with
  | addBalance a amount => exact addBalance_footprint hw amount
  | subBalance a value => exact subBalance_footprint hw value
  | incNonce a => exact incNonce_footprint hw
  | setStorage a p v => exact setStorage_footprint hw.1 hw.2 v
  | setNewCode a c => exact setNewCode_footprint hw c
  | kill a => exact kill_footprint hw
  | createContract a => exact createContract_footprint hw

lemma Footprint.rebase {db : OverlayDB} (h : Footprint db A P s) : Footprint s.db A P s :=
  { h with grown := .refl _ }

/-- The map of views and the map of accounts were changed. -/
lemma PresentsBy.becomes (h : PresentsBy env A P world V q m)
    (hb : Becomes env world q.state s' V' notes) (hf : Footprint q.state.db A P s')
    (hacc : ∀ a, A a → Presented P (V' a) (m'.accounts a) (m'.changed a))
    (hstart : m'.start = m.start) (hcom : m'.committed = m.committed) :
    PresentsBy env A P world V' { q with state := s' } m' where
  coherent := hb.coherent
  footprint := hf.rebase
  start := by rw [hstart, ← h.start]; exact hb.accountStartNonce
  accounts := hacc
  committed := by
    rw [hcom]
    exact hb.db ▸ h.committed

variable (env A P) in
/-- The change ends as it does on the map. -/
def WriteEnds (world : Uint256 → Option Content) (V : H160 → Option View) (s : State) (m : PlainMap)
    (x : ScM Unit) (y : Except Fault PlainMap) : Prop :=
  (∃ s' accounts changed V' notes, x s = .ok () s' ∧
    y = .ok { m with accounts := accounts, changed := changed } ∧ Becomes env world s s' V' notes ∧
      ∀ a, A a → Presented P (V' a) (accounts a) (changed a)) ∨
  ∃ e s', x s = .error e s' ∧ y = .error e ∧ Becomes env world s s' V []

variable {x : ScM Unit} {y : Except Fault PlainMap} {e : Fault} (h : PresentsBy env A P world V q m)

/-- A failure changes nothing. -/
lemma WriteEnds.fails (hx : ∃ s', x s = .error e s' ∧ Becomes env world s s' V [])
    (hy : y = .error e) : WriteEnds env A P world V s m x y := by
  obtain ⟨s', hx, hb⟩ := hx
  exact Or.inr ⟨e, s', hx, hy, hb⟩

include h

/-- One account is changed. -/
lemma PresentsBy.sets
    (hx : ∃ s', x q.state = .ok () s' ∧ Becomes env world q.state s' (update V a (some v)) notes)
    (hy : y = .ok (m.set a acc)) (ha : v.alive = true) (hd : v.dirty = true)
    (hs : ShownAs P v acc) : WriteEnds env A P world V q.state m x y := by
  obtain ⟨s', hx, hb⟩ := hx
  refine Or.inl ⟨s', _, _, _, _, hx, hy, hb, fun b hA => ?_⟩
  simp only [update_apply]
  split_ifs
  · exact hs.presented ha hd
  · exact h.accounts b hA

/-- A new account, if new accounts have a nonce. -/
lemma PresentsBy.adds {nonce balance : U256}
    (hok : q.state.accountStartNonce ≠ invalid256 → ∃ s', x q.state = .ok () s' ∧
      Becomes env world q.state s' (update V a (some (View.created nonce balance))) notes)
    (herr : q.state.accountStartNonce = invalid256 → ∃ s',
      x q.state = .error (rangeError "Invalid Account Start Nonce State") s' ∧
        Becomes env world q.state s' V [])
    (hy : y = m.add a ⟨nonce, balance, [], 0⟩) : WriteEnds env A P world V q.state m x y := by
  rw [h.start] at hok herr
  unfold add at hy
  by_cases hn : m.start = invalid256
  · rw [if_pos hn] at hy
    exact .fails (herr hn) hy
  · rw [if_neg hn] at hy
    exact h.sets (hok hn) hy rfl rfl ⟨rfl, rfl, rfl, fun _ _ => rfl⟩

/-- An account is changed, or a new one is added. -/
lemma PresentsBy.edits (ha : A a) (hk : ¬ Killed q.state a) {f : Option View → View}
    {g : PlainAccount → PlainAccount} {nonce balance : U256}
    (hnone : f none = View.created nonce balance)
    (hsome : ∀ v acc, ShownAs P v acc → (f (some v)).alive = v.alive ∧ (f (some v)).dirty = true ∧
      ShownAs P (f (some v)) (g acc))
    (hok : q.state.accountStartNonce ≠ invalid256 ∨ V a ≠ none → ∃ s', x q.state = .ok () s' ∧
      Becomes env world q.state s' (update V a (some (f (V a)))) notes)
    (herr : q.state.accountStartNonce = invalid256 → V a = none → ∃ s',
      x q.state = .error (rangeError "Invalid Account Start Nonce State") s' ∧
        Becomes env world q.state s' V [])
    (hy : y = (m.accounts a).elim (m.add a ⟨nonce, balance, [], 0⟩) fun acc =>
      .ok (m.set a (g acc))) :
    WriteEnds env A P world V q.state m x y := by
  rcases (h.accounts a ha).alive h.coherent hk with ⟨hv, hm⟩ | ⟨v, acc, hv, hm, hal, -, hsh⟩
  · rw [hv, hnone] at hok
    rw [hm] at hy
    exact h.adds (fun hn => hok (Or.inl hn)) (fun hn => herr hn hv) hy
  · rw [hv] at hok
    rw [hm] at hy
    obtain ⟨halive, hdirty, hshown⟩ := hsome v acc hsh
    exact h.sets (hok (Or.inr (some_ne_none v))) hy (halive.trans hal) hdirty hshown

lemma addBalance_presented (ha : A a) (hk : ¬ Killed q.state a) (amount : U256) :
    WriteEnds env A P world V q.state m (addBalance env a amount) ((addBalance a amount).onMap m) :=
  h.edits ha hk (g := fun acc => { acc with balance := acc.balance + amount }) rfl
    (fun v acc hsh =>
      ⟨rfl, rfl, hsh.nonce, congrArg (· + amount) hsh.balance, hsh.code, hsh.storage⟩)
    (fun hn => addBalance_view h.coherent hn amount)
    (fun hn hv => addBalance_view_error h.coherent hn hv amount)
    (by rw [h.start, onMap]; cases m.accounts a <;> rfl)

lemma incNonce_presented (ha : A a) (hk : ¬ Killed q.state a) :
    WriteEnds env A P world V q.state m (incNonce env a) ((incNonce a).onMap m) :=
  h.edits ha hk (g := fun acc => { acc with nonce := acc.nonce + 1 }) rfl
    (fun v acc hsh => ⟨rfl, rfl, congrArg (· + 1) hsh.nonce, hsh.balance, hsh.code, hsh.storage⟩)
    (fun hn => incNonce_view h.coherent hn) (fun hn hv => incNonce_view_error h.coherent hn hv)
    (by rw [h.start, onMap]; cases m.accounts a <;> rfl)

omit h

/-- An account that was killed has nothing to pay with, as one that is not there. -/
lemma not_canPay {value : U256} (hv : value ≠ 0)
    (hb : ∀ v, V a = some v → v.balance = 0) : ¬ CanPay V a value := by
  rintro (h | ⟨v, hva, hle⟩)
  · exact hv h
  · rw [hb v hva] at hle
    exact hle (by bv_omega)

include h

lemma subBalance_presented (ha : A a) (value : U256) :
    WriteEnds env A P world V q.state m (subBalance env a value)
      ((subBalance a value).onMap m) := by
  by_cases hz : value = 0
  · have hy : (subBalance a value).onMap m = .ok m := by rw [onMap, if_pos hz]
    obtain ⟨s', hx, hb⟩ := subBalance_view h.coherent (a := a) (Or.inl hz)
    rw [debited, if_pos hz] at hb
    exact Or.inl ⟨s', _, _, V, _, hx, hy, hb, h.accounts⟩
  · rcases h.accounts a ha with ⟨hv, hm⟩ | ⟨v, hv, hm, -, hbal, -⟩ | ⟨v, acc, hv, hm, hal, -, hsh⟩
    · have hp : ¬ CanPay V a value := not_canPay hz fun v hv' => by rw [hv] at hv'; cases hv'
      exact .fails (subBalance_view_error h.coherent hp) (by rw [onMap, if_neg hz, hm])
    · have hp : ¬ CanPay V a value :=
        not_canPay hz fun v' hv' => by rw [hv] at hv'; cases hv'; exact hbal
      exact .fails (subBalance_view_error h.coherent hp) (by rw [onMap, if_neg hz, hm])
    · by_cases hlt : acc.balance < value
      · have hp : ¬ CanPay V a value := by
          rintro (hz' | ⟨v', hv', hle⟩)
          · exact hz hz'
          · rw [hv] at hv'
            cases hv'
            exact hle (hsh.balance ▸ hlt)
        refine .fails (subBalance_view_error h.coherent hp) ?_
        rw [onMap, if_neg hz, hm]
        exact if_pos hlt
      · have hp : CanPay V a value := Or.inr ⟨v, hv, hsh.balance ▸ hlt⟩
        have hx := subBalance_view h.coherent hp
        rw [debited, if_neg hz, hv] at hx
        have hy : (subBalance a value).onMap m =
            .ok (m.set a { acc with balance := acc.balance - value }) := by
          rw [onMap, if_neg hz, hm]
          exact if_neg hlt
        have hbal : v.balance + (0 - value) = acc.balance - value := by
          rw [hsh.balance]
          bv_omega
        exact h.sets hx hy hal rfl ⟨hsh.nonce, hbal, hsh.code, hsh.storage⟩

omit h in
/-- An address that is in use. -/
lemma Coherent.inUse (h : Coherent env s world V) {b : Bool}
    (ha : answer (addressInUse env a) s = some b) : (V a).isSome = b := by
  obtain ⟨s', hx, -⟩ := addressInUse_view h a
  exact Option.some.inj ((answer_of_ok hx).symm.trans ha)

lemma setStorage_presented {p : U256} (ha : A a) (hk : ¬ Killed q.state a)
    (hin : answer (addressInUse env a) q.state = some true) (w : U256) :
    WriteEnds env A P world V q.state m (setStorage env a p w) ((setStorage a p w).onMap m) := by
  rcases (h.accounts a ha).alive h.coherent hk with ⟨hv, -⟩ | ⟨v, acc, hv, hm, hal, -, hsh⟩
  · have := h.coherent.inUse hin
    rw [hv] at this
    cases this
  · have hy : (setStorage a p w).onMap m =
        .ok (m.set a { acc with storage := update acc.storage p w }) := by
      rw [onMap, hm]
    have hwords : ∀ p', P p' → update v.words p w p' = update acc.storage p w p' := by
      intro p' hp'
      rw [update_apply, update_apply, hsh.storage p' hp']
    exact h.sets (setStorage_view h.coherent hv p w) hy hal rfl
      ⟨hsh.nonce, hsh.balance, hsh.code, hwords⟩

lemma setNewCode_presented (ha : A a) (hk : ¬ Killed q.state a)
    (hch : Changed q.state a) {c : Bytes}
    (hc : env.sha3 c = emptySHA3 env.sha3 → c = []) : WriteEnds env A P world V q.state m
      (setNewCode env a c) ((setNewCode a c).onMap m) := by
  obtain ⟨acc0, hl, hd⟩ := hch.cached
  obtain ⟨v, hv, hsh0⟩ := h.coherent.shown hl
  rcases (h.accounts a ha).alive h.coherent hk with ⟨hv', -⟩ | ⟨v', acc, hv', hm, hal, -, hsh⟩
  · rw [hv] at hv'
    cases hv'
  · rw [hv] at hv'
    cases hv'
    have hd' : v.dirty = true := hsh0.dirty.trans hd
    have hy : (setNewCode a c).onMap m = .ok (m.set a { acc with code := c }) := by
      rw [onMap, hm]
    exact h.sets (setNewCode_view h.coherent hv hd' hc) hy hal hd'
      ⟨hsh.nonce, hsh.balance, rfl, hsh.storage⟩

lemma kill_presented (a : H160) :
    WriteEnds env A P world V q.state m (kill env a) ((kill a).onMap m) := by
  obtain ⟨s', hx, hb⟩ := kill_view h.coherent a
  refine Or.inl ⟨s', _, _, _, _, hx, rfl, hb, fun b hA => ?_⟩
  simp only [update_apply]
  split_ifs
  · cases V a with
    | none => exact Or.inl ⟨rfl, rfl⟩
    | some v => exact Presented.killed rfl rfl rfl rfl
  · exact h.accounts b hA

lemma createContract_presented (ha : A a) (hin : answer (addressInUse env a) q.state = some false) :
    WriteEnds env A P world V q.state m (createContract env a) ((createContract a).onMap m) := by
  have hsome := h.coherent.inUse hin
  rcases h.accounts a ha with ⟨hv, hm⟩ | ⟨v, hv, -⟩ | ⟨v, acc, hv, -⟩
  · have hy : (createContract a).onMap m = m.add a ⟨m.start, 0, [], 0⟩ := by
      rw [onMap, hm]
    rw [← h.start] at hy
    refine h.adds (createContract_view h.coherent hv) (fun hn => ?_) hy
    exact ⟨q.state, bind_of_error (requireAccountStartNonce_error hn), .refl h.coherent⟩
  · rw [hv] at hsome
    cases hsome
  · rw [hv] at hsome
    cases hsome

/-- **Every change ends as it does on the map.** -/
lemma write_presented (w : AccountWrite) (hw : w.Within A P) (hs : w.Safe env q.state) :
    WriteEnds env A P world V q.state m (w.run env) (w.onMap m) := by
  cases w with
  | addBalance a amount => exact addBalance_presented h hw hs amount
  | subBalance a value => exact subBalance_presented h hw value
  | incNonce a => exact incNonce_presented h hw hs
  | setStorage a p w => exact setStorage_presented h hw.1 hs.1 hs.2 w
  | setNewCode a c => exact setNewCode_presented h hw hs.1 hs.2.1 hs.2.2
  | kill a => exact kill_presented h a
  | createContract a => exact createContract_presented h hw hs

end Writes

/-! ## Commit and setRoot -/

section Commit

/-- An account that is alive and goes to the tries. -/
lemma ShownAs.stored (h : ShownAs P v acc) (hap : Apart env A P) :
    ShownAs P (View.stored env (v.content env P)) acc where
  nonce := h.nonce
  balance := h.balance
  code := h.code
  storage p hp := by
    simp only [View.stored, View.content]
    rw [View.store_slot hap hp, h.storage p hp]

/-- **What is left of an account.** -/
lemma Presented.kept (hap : Apart env A P) (behaviour : CommitBehaviour)
    (h : Presented P (V a) (m.accounts a) (m.changed a)) :
    Presented P (((preparedView behaviour V a).bind (View.kept env P)).map (View.stored env))
      (m.kept behaviour a) false := by
  have hgone : ∀ {v : View}, v.alive = false → v.kept env P = none := fun hv => by
    rw [View.kept, hv]
    rfl
  have hleft : ∀ {v : View}, v.alive = true → v.kept env P = some (v.content env P) := fun hv => by
    rw [View.kept, hv]
    rfl
  unfold preparedView PlainMap.kept
  split_ifs with hbeh
  · dsimp only
    rcases h with ⟨hv, hm⟩ | ⟨v, hv, hm, hal, -⟩ | ⟨v, acc, hv, hm, hal, hd, hsh⟩
    · rw [hv, hm]
      exact Or.inl ⟨rfl, rfl⟩
    · have hreap : v.reaped.alive = false := by
        unfold View.reaped
        split_ifs
        · rfl
        · exact hal
      rw [hv, hm, map_some, bind_some, hgone hreap]
      exact Or.inl ⟨rfl, rfl⟩
    · rw [hv, hm, map_some, bind_some]
      by_cases hempty : v.dirty = true ∧ v.isEmpty
      · have hcond : (m.changed a && acc.isEmpty) = true := by
          rw [← hd, hempty.1, hsh.isEmpty.mp hempty.2]
          rfl
        rw [View.reaped, if_pos hempty, hgone rfl, filter_some, hcond]
        exact Or.inl ⟨rfl, rfl⟩
      · have hcond : (m.changed a && acc.isEmpty) = false := by
          rw [Bool.eq_false_iff]
          intro hc
          rw [Bool.and_eq_true, ← hd, ← hsh.isEmpty] at hc
          exact hempty hc
        rw [View.reaped, if_neg hempty, hleft hal, filter_some, hcond]
        exact (hsh.stored hap).presented rfl rfl
  · rcases h with ⟨hv, hm⟩ | ⟨v, hv, hm, hal, -⟩ | ⟨v, acc, hv, hm, hal, hd, hsh⟩
    · rw [hv, hm]
      exact Or.inl ⟨rfl, rfl⟩
    · rw [hv, hm, bind_some, hgone hal]
      exact Or.inl ⟨rfl, rfl⟩
    · rw [hv, hm, bind_some, hleft hal]
      exact (hsh.stored hap).presented rfl rfl

lemma Recorded.mono {db db' : OverlayDB} {root : Uint256} {accounts : H160 → Option PlainAccount}
    (h : Recorded env A P db root accounts) (hg : Grown db db') (hc : NoCollision db') :
    Recorded env A P db' root accounts := by
  obtain ⟨world, hw, hacc⟩ := h
  exact ⟨world, hw.mono hg hc, hacc⟩

/-- **The map after `commit`.** -/
lemma commit_presented (h : PresentsBy env A P world V q m) (hap : Apart env A P)
    (behaviour : CommitBehaviour)
    (hc : HashesApart env (stateAfter (commit env behaviour q.state))) : ∃ s',
      commit env behaviour q.state = .ok () s' ∧
        Presents env A P ⟨s', s'.root :: q.roots⟩ (m.commit behaviour) := by
  obtain ⟨_, s', hx, world', hd⟩ := commit_assuming h.coherent.toSound behaviour hc
  have hc' : HashesApart env s' := by
    rw [hx] at hc
    exact hc
  have hf := commit_footprint h.footprint hd
  have hsound := hd.sound h.coherent.toSound hc' fun a ha b hb =>
    hap.accounts (hf.touched a ha) (hf.missing b hb)
  have hrec : ∀ a, A a → Presented P ((world' (addressHash env a)).map (View.stored env))
      (m.kept behaviour a) false := by
    intro a ha
    rw [hd.world_eq h.coherent h.footprint.toConfined hap ha]
    exact (h.accounts a ha).kept hap behaviour
  refine ⟨s', hx, world', _, .of_empty hsound hd.cache, hf.rebase, ?_, hrec, ?_⟩
  · exact hd.accountStartNonce.trans h.start
  · exact .cons ⟨world', hd.trie, hrec⟩ (h.committed.imp fun _ _ hr => hr.mono hd.db hc'.collision)

/-- **The map at an earlier commit.** -/
lemma setRoot_presented (h : PresentsBy env A P world V q m) {n : ℕ} {root : Uint256}
    (hr : q.roots[n]? = some root) : ∃ s', setRoot env root q.state = .ok () s' ∧
      Presents env A P { q with state := s' } (m.goTo n) := by
  obtain ⟨hlen, hall⟩ := List.forall₂_iff_get.mp h.committed
  obtain ⟨hn, rfl⟩ := List.getElem?_eq_some_iff.mp hr
  have hacc := List.getElem?_eq_getElem (hlen ▸ hn)
  obtain ⟨world', hw, hrec⟩ := hall n hn (hlen ▸ hn)
  have hx := setRoot_eq hw
  have hkeep : Stays q.state.db A P (setRoot env (q.roots.get ⟨n, hn⟩)) := setRoot_footprint _
  have hf := (hkeep q.state h.footprint).1
  have hgo : m.goTo n = { m with accounts := m.committed[n], changed := fun _ => false } := by
    rw [goTo, hacc]
  rw [hx] at hf
  rw [hgo]
  exact ⟨_, hx, world', _, .of_empty (h.coherent.toSound.atRoot hw) rfl, hf, h.start,
    hrec, h.committed⟩

end Commit

/-! ## Sequences -/

section Sequences

variable {α : Type} {x : ScM α}

lemma onSession_ok {w : α} (hx : x q.state = .ok w s') :
    onSession x q = .ok w { q with state := s' } := by rw [onSession, hx]

lemma onSession_error {e : Fault} (hx : x q.state = .error e s') :
    onSession x q = .error e { q with state := s' } := by rw [onSession, hx]

@[simp] lemma stateAfter_onSession :
    (stateAfter (onSession x q)).state = stateAfter (x q.state) := by
  unfold onSession
  cases x q.state <;> rfl

/-- What follows leaves the account state alone. -/
lemma stateAfter_onSession_bind {β : Type} {f : α → EStateM Fault Session β}
    (hf : ∀ w q, (stateAfter (f w q)).state = q.state) :
    (stateAfter ((onSession x >>= f) q)).state = stateAfter (x q.state) :=
  Stateful.stateAfter_bind (P := fun q' => q'.state = stateAfter (x q.state)) stateAfter_onSession
    fun w q' h => (hf w q').trans h

lemma stateAfter_commit {behaviour : CommitBehaviour} :
    (stateAfter ((MapOp.commit behaviour).run env q)).state =
      stateAfter (State.commit env behaviour q.state) := stateAfter_onSession_bind fun _ _ => rfl

lemma footprint_all (s : State) : Footprint s.db (fun _ => True) (fun _ => True) s :=
  ⟨⟨fun _ => trivial, fun _ _ => trivial⟩, .refl _, fun _ _ => trivial, fun _ _ => trivial⟩

lemma run_setRoot_some {n : ℕ} {root : Uint256} (hr : q.roots[n]? = some root) :
    (MapOp.setRoot n).run env q = (do
      onSession (State.setRoot env root)
      pure .done : EStateM Fault Session Reply) q := by
  simp only [MapOp.run, hr]

lemma run_setRoot_none {n : ℕ} (hr : q.roots[n]? = none) :
    (MapOp.setRoot n).run env q = .ok .done q := by
  simp only [MapOp.run, hr]

/-- The node store only grows. -/
lemma MapOp.run_grows (op : MapOp) (q : Session) :
    Grown q.state.db (stateAfter (op.run env q)).state.db := by
  cases op with
  | read r =>
    have hw : r.Within (fun _ => True) fun _ => True := by
      cases r <;> first | exact trivial | exact ⟨trivial, trivial⟩
    rw [MapOp.run, stateAfter_onSession]
    exact (r.run_footprint env hw q.state (footprint_all _)).1.grown
  | write w =>
    have hw : w.Within (fun _ => True) fun _ => True := by
      cases w <;> first | exact trivial | exact ⟨trivial, trivial⟩
    rw [MapOp.run, stateAfter_onSession_bind fun _ _ => rfl]
    exact (w.run_footprint env hw q.state (footprint_all _)).1.grown
  | commit behaviour =>
    rw [stateAfter_commit]
    exact commit_grows behaviour q.state
  | setRoot n =>
    cases hr : q.roots[n]? with
    | none =>
      rw [run_setRoot_none hr]
      exact .refl _
    | some root =>
      have hkeep : Stays q.state.db (fun _ => True) (fun _ => True) (State.setRoot env root) :=
        setRoot_footprint root
      rw [run_setRoot_some hr, stateAfter_onSession_bind fun _ _ => rfl]
      exact (hkeep q.state (footprint_all _)).1.grown

lemma endState_grows : ∀ (ops : List MapOp) (q : Session),
    Grown q.state.db (endState (MapOp.run env) ops q).state.db
  | [], _ => .refl _
  | op :: ops, q => (op.run_grows q).trans (endState_grows ops _)

/-- **One operation ends as it does on the map.** -/
lemma MapOp.presented (hap : Apart env A P) (op : MapOp) (h : Presents env A P q m)
    (hs : op.Safe env q) (hw : op.Within A P)
    (hc : HashesApart env (stateAfter (op.run env q)).state) :
    outcome (op.run env q) = outcome (op.onMap env m) ∧
      Presents env A P (stateAfter (op.run env q)) (stateAfter (op.onMap env m)) := by
  obtain ⟨world, V, h⟩ := h
  cases op with
  | read r =>
    obtain ⟨s', hx, hb⟩ := read_presented h r hw hs
    have hf := (r.run_footprint env hw q.state h.footprint).1
    rw [hx] at hf
    have hrun : (MapOp.read r).run env q = .ok (r.onMap env m) { q with state := s' } :=
      onSession_ok hx
    rw [hrun]
    exact ⟨rfl, world, V, h.becomes hb hf h.accounts rfl rfl⟩
  | write w =>
    have hf := (w.run_footprint env hw q.state h.footprint).1
    rcases write_presented h w hw hs with
      ⟨s', accounts, changed, V', notes, hx, hy, hb, hacc⟩ | ⟨e, s', hx, hy, hb⟩
    · have hrun : (MapOp.write w).run env q = .ok .done { q with state := s' } :=
        bind_of_ok (onSession_ok hx)
      have hmap : (MapOp.write w).onMap env m =
          .ok .done { m with accounts := accounts, changed := changed } := by
            simp only [MapOp.onMap, hy]
      rw [hx] at hf
      rw [hrun, hmap]
      exact ⟨rfl, world, V', h.becomes hb hf hacc rfl rfl⟩
    · have hrun : (MapOp.write w).run env q = .error e { q with state := s' } :=
        bind_of_error (onSession_error hx)
      have hmap : (MapOp.write w).onMap env m = .error e m := by simp only [MapOp.onMap, hy]
      rw [hx] at hf
      rw [hrun, hmap]
      exact ⟨rfl, world, V, h.becomes hb hf h.accounts rfl rfl⟩
  | commit behaviour =>
    rw [stateAfter_commit] at hc
    obtain ⟨s', hx, hp⟩ := commit_presented h hap behaviour hc
    have hrun : (MapOp.commit behaviour).run env q = .ok .done ⟨s', s'.root :: q.roots⟩ :=
      bind_of_ok (onSession_ok hx)
    rw [hrun]
    exact ⟨rfl, hp⟩
  | setRoot n =>
    cases hr : q.roots[n]? with
    | none =>
      have hgo : m.goTo n = m := by
        have hnone : m.committed[n]? = none := by
          rw [List.getElem?_eq_none_iff, ← h.committed.length_eq]
          exact List.getElem?_eq_none_iff.mp hr
        rw [goTo, hnone]
      have hmap : (MapOp.setRoot n).onMap env m = .ok .done m := by simp only [MapOp.onMap, hgo]
      rw [run_setRoot_none hr, hmap]
      exact ⟨rfl, world, V, h⟩
    | some root =>
      obtain ⟨s', hx, hp⟩ := setRoot_presented h hr
      have hrun : (MapOp.setRoot n).run env q = .ok .done { q with state := s' } :=
        (run_setRoot_some hr).trans (bind_of_ok (onSession_ok hx))
      rw [hrun]
      exact ⟨rfl, hp⟩

/-- **The caches do not show**: every operation of a sequence ends as it does on the map, with the
    same answer or the same exception. -/
theorem cache_transparent (env : StateEnv) (A : H160 → Prop) (P : U256 → Prop) (hap : Apart env A P)
    (ops : List MapOp) (q : Session) (m : PlainMap) (h : Presents env A P q m)
    (hw : ∀ op ∈ ops, op.Within A P) (hs : EachStep (MapOp.run env) (MapOp.Safe env) ops q)
    (hc : HashesApart env (endState (MapOp.run env) ops q).state) :
    outcomes (MapOp.run env) ops q = outcomes (MapOp.onMap env) ops m := by
  refine (Simulation.outcomes_eq (R := Presents env A P) (C := fun q => HashesApart env q.state)
    (Q := fun q op => op.Safe env q ∧ op.Within A P) (fun op q hc => ?_) (fun op q m h hQ hc => ?_)
    ops q m h (hs.and_forall hw) hc).1
  · exact Collisionless.of_grown hc (op.run_grows q)
  · exact op.presented hap h hQ.1 hQ.2 hc

/-- A new state, and the empty map. -/
def freshSession (sha3 : Bytes → Uint256) : Session := ⟨State.fresh sha3, [emptyTrie sha3]⟩

def PlainMap.empty : PlainMap := ⟨fun _ => none, fun _ => false, [fun _ => none], 0⟩

lemma presents_fresh (env : StateEnv) (A : H160 → Prop) (P : U256 → Prop)
    (hne : emptyTrie env.sha3 ≠ 0) : Presents env A P (freshSession env.sha3) empty := by
  have hs : Sound env (fresh env.sha3) fun _ => none := sound_fresh hne
  refine ⟨_, _, .of_empty hs rfl,
    ⟨confined_of_empty rfl, .refl _, fun _ h => ?_, fun _ h => ?_⟩, rfl,
    fun _ _ => Or.inl ⟨rfl, rfl⟩, .cons ⟨_, hs.trie, fun _ _ => Or.inl ⟨rfl, rfl⟩⟩ .nil⟩
  · cases h
  · cases h

/-- The store of a run from a new state does not collide if any two records under one hash are the
    same. -/
lemma hashesApart_of_all {ops : List MapOp}
    (hall : (endState (MapOp.run digitsEnv) ops
      (freshSession digitsHash)).state.db.main.all fun e =>
      (endState (MapOp.run digitsEnv) ops (freshSession digitsHash)).state.db.main.all fun e' =>
        e'.hash != e.hash || e'.value == e.value)
    (hz : (endState (MapOp.run digitsEnv) ops (freshSession digitsHash)).state.db.lookup 0 = []) :
    HashesApart digitsEnv (endState (MapOp.run digitsEnv) ops (freshSession digitsHash)).state :=
  ⟨noCollision_of_all (fun h => congrFun (endState_grows ops _).disk h) hall, hz, hz⟩

/-- An account is made, gets code and storage, is killed and found again under an earlier root. -/
def contractLife : List MapOp := [.write (.addBalance 1 7), .write (.setNewCode 1 [1]),
  .write (.setStorage 1 0 5), .commit .removeEmptyAccounts, .read (.code 1), .write (.kill 1),
  .read (.balance 1), .commit .keepEmptyAccounts, .read (.addressInUse 1), .setRoot 1,
  .read (.storage 1 0)]

lemma apart_one : Apart digitsEnv (· = 1) (· = 0) :=
  ⟨fun ha hb _ => ha.trans hb.symm, fun hp hq _ => hp.trans hq.symm⟩

theorem cache_transparent_contract :
    outcomes (MapOp.run digitsEnv) contractLife (freshSession digitsHash) =
      outcomes (MapOp.onMap digitsEnv) contractLife empty :=
  cache_transparent digitsEnv (· = 1) (· = 0) apart_one contractLife _ _
    (presents_fresh digitsEnv _ _ (by decide))
    (by simp [contractLife, MapOp.Within, AccountRead.Within, AccountWrite.Within])
    ⟨show ¬ Killed _ _ by decide +kernel, ⟨by decide +kernel, by decide +kernel, by decide⟩,
      ⟨by decide +kernel, by decide +kernel⟩, trivial, trivial, trivial, trivial, trivial,
      show ¬ Killed _ _ by decide +kernel, trivial, trivial, trivial⟩
    (hashesApart_of_all (by decide +kernel) (by decide +kernel))

/-- The operations that make new code show. -/
def codeWithoutLoad : List MapOp := [.write (.addBalance 1 7), .commit .keepEmptyAccounts,
  .write (.setNewCode 1 [1]), .read (.balance 1)]

/-- **An exception.**  The account that gets new code is not in the cache, and the new entry there
    hides it: its balance is gone. -/
theorem new_code_shows : Presents digitsEnv (· = 1) (· = 0) (freshSession digitsHash) empty ∧
    Apart digitsEnv (· = 1) (· = 0) ∧ (∀ op ∈ codeWithoutLoad, op.Within (· = 1) (· = 0)) ∧
      HashesApart digitsEnv
        (endState (MapOp.run digitsEnv) codeWithoutLoad (freshSession digitsHash)).state ∧
        outcomes (MapOp.run digitsEnv) codeWithoutLoad (freshSession digitsHash) =
          [.ok .done, .ok .done, .ok .done, .ok (.word 0)] ∧
        outcomes (MapOp.onMap digitsEnv) codeWithoutLoad empty =
          [.ok .done, .ok .done, .ok .done, .ok (.word 7)] :=
  ⟨presents_fresh digitsEnv _ _ (by decide), apart_one,
    by simp [codeWithoutLoad, MapOp.Within, AccountRead.Within, AccountWrite.Within],
    hashesApart_of_all (by decide +kernel) (by decide +kernel), by decide +kernel,
    by decide +kernel⟩

end Sequences

end Ybtc
