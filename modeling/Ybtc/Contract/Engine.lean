import Ybtc.Core.Stateful
import Ybtc.Primitives.Transaction

/-!
# The contract engine as the node sees it

The node talks to the virtual machine through the global `pState` of class `State`.  This module
fixes that interface: the transaction that is executed, the result that comes back, and the
operations on the state.
-/

namespace Ybtc

/-- `sc::u256`, unchecked 256-bit arithmetic. -/
abbrev U256 := BitVec 256

/-- `sc::h160` and `sc::Address`. -/
abbrev H160 := BitVec 160

/-- Big-endian reading. -/
def readBE (b : Bytes) : ℕ := readLE b.reverse

/-- `h160(bytes)`: all zeros unless there are exactly twenty bytes. -/
def h160 (b : Bytes) : H160 := if b.length = 20 then BitVec.ofNat 160 (readBE b) else 0

/-- `sc::Transaction`, with the sender forced. -/
structure ScTransaction where
  isCreation : Bool
  value : U256
  gasPrice : U256
  gas : U256
  receiveAddress : H160
  data : Bytes
  sender : H160
deriving Repr, DecidableEq

inductive TransactionException
  | none
  | unknown
  | badRLP
  | invalidFormat
  | outOfGasIntrinsic
  | invalidSignature
  | invalidNonce
  | notEnoughCash
  | outOfGasBase
  | blockGasLimitReached
  | badInstruction
  | badJumpDestination
  | outOfGas
  | outOfStack
  | stackUnderflow
  | createWithValue
  | noInformation
deriving Repr, DecidableEq

inductive CodeDeposit
  | none
  | failed
  | success
deriving Repr, DecidableEq

/-- `sc::ExecutionResult`. -/
structure ExecutionResult where
  gasUsed : U256
  excepted : TransactionException
  newAddress : H160
  output : Bytes
  codeDeposit : CodeDeposit
  gasRefunded : U256
  depositSize : ℕ
  gasForDeposit : U256
deriving Repr, DecidableEq

/-- The result before anything is written to it. -/
def ExecutionResult.initial : ExecutionResult := ⟨0, .unknown, 0, [], .none, 0, 0, 0⟩

/-- The operations on `pState`. -/
structure ContractEngine where
  State : Type
  /-- `sha3(rlp(""))`, the root of the empty trie. -/
  emptyRoot : Uint256
  /-- `rootHash()`. -/
  rootHash : EStateM Fault State Uint256
  /-- `setRoot(root)`. -/
  setRoot : Uint256 → EStateM Fault State Unit
  /-- `execute(transaction)`, which commits. -/
  execute : ScTransaction → EStateM Fault State ExecutionResult
  /-- `commit(CommitBehaviour::RemoveEmptyAccounts)`. -/
  commit : EStateM Fault State Unit
  /-- `CAmount(amount)`, a conversion of the multiprecision library. -/
  toCAmount : U256 → CAmount

/-- **The conversion of the multiprecision library** to a signed type: exact where the value fits,
    and the largest value of the type where it does not. -/
def ContractEngine.Saturates (E : ContractEngine) : Prop :=
  ∀ n : U256, E.toCAmount n = min (n.toNat : ℤ) (2 ^ 63 - 1)

/-- What the callers of the engine rely on.  `root` is the root the trie points at, and `Known`
    says which tries are in the database. -/
structure EngineLaws (E : ContractEngine) where
  root : E.State → Uint256
  Known : E.State → Uint256 → Prop
  rootHash_ok : ∀ {s}, Known s (root s) → E.rootHash s = .ok (root s) s
  setRoot_ok : ∀ {s r}, Known s r → ∃ s', E.setRoot r s = .ok () s' ∧ root s' = r
  known_setRoot : ∀ {s r q}, Known s q → Known (Stateful.stateAfter (E.setRoot r s)) q
  known_execute : ∀ {s t q}, Known s q → Known (Stateful.stateAfter (E.execute t s)) q
  known_commit : ∀ {s q}, Known s q → Known (Stateful.stateAfter (E.commit s)) q
  execute_known : ∀ {s t res s'}, Known s (root s) → E.execute t s = .ok res s' → Known s' (root s')
  commit_ok : ∀ {s}, Known s (root s) → ∃ s', E.commit s = .ok () s' ∧ Known s' (root s')
  execute_emptyVector : ∀ {s t s'}, E.execute t s ≠ .error (.undefined .emptyVector) s'

namespace EngineLaws

variable {E : ContractEngine} (laws : EngineLaws E)

/-- The trie the state points at is in the database. -/
def Valid (s : E.State) : Prop := laws.Known s (laws.root s)

variable {laws}

/-- Setting a known root leaves a valid state at that root. -/
lemma setRoot_valid {s : E.State} {r : Uint256} (h : laws.Known s r) :
    ∃ s', E.setRoot r s = .ok () s' ∧ laws.root s' = r ∧ laws.Valid s' := by
  obtain ⟨s', hs', hr⟩ := laws.setRoot_ok h
  refine ⟨s', hs', hr, ?_⟩
  have hk := laws.known_setRoot (r := r) h
  rw [hs'] at hk
  rw [Valid, hr]
  exact hk

end EngineLaws

/-- **Execution is a function of the root and the transaction.**  A state is `Settled` when it holds
    no change that is not in the trie: after `setRoot`, and after an execution, which commits. -/
structure ExecutionDetermined (E : ContractEngine) extends EngineLaws E where
  Settled : E.State → Prop
  settled_setRoot : ∀ {s r s'}, E.setRoot r s = .ok () s' → Settled s'
  settled_execute : ∀ {s t res s'}, E.execute t s = .ok res s' → Settled s'
  /-- The same result, and the same root behind it. -/
  execute_ok : ∀ {s1 s2 t res s₁'}, Settled s1 → Settled s2 → Known s1 (root s1) →
    Known s2 (root s2) → root s1 = root s2 → E.execute t s1 = .ok res s₁' →
      ∃ s2', E.execute t s2 = .ok res s2' ∧ root s2' = root s₁'
  /-- The same failure. -/
  execute_error : ∀ {s1 s2 t e s₁'}, Settled s1 → Settled s2 → Known s1 (root s1) →
    Known s2 (root s2) → root s1 = root s2 → E.execute t s1 = .error e s₁' →
      ∃ s2', E.execute t s2 = .error e s2'
  /-- There is nothing left to commit. -/
  commit_settled : ∀ {s s'}, Settled s → E.commit s = .ok () s' → Settled s' ∧ root s' = root s

namespace ExecutionDetermined

variable {E : ContractEngine} (det : ExecutionDetermined E)

/-- A settled state whose trie is in the database. -/
def Ready (s : E.State) : Prop := det.Settled s ∧ det.Valid s

/-- Two states that execution cannot tell apart. -/
def Alike (s1 s2 : E.State) : Prop := det.Ready s1 ∧ det.Ready s2 ∧ det.root s1 = det.root s2

end ExecutionDetermined

/-! ## Small engines -/

/-- An engine whose state is its root. -/
abbrev ContractEngine.ofExecute (execute : ScTransaction → EStateM Fault Uint256 ExecutionResult) :
    ContractEngine where
  State := Uint256
  emptyRoot := 0
  rootHash := fun s => .ok s s
  setRoot := fun r _ => .ok () r
  execute := execute
  commit := fun s => .ok () s
  toCAmount := fun n => min n.toNat (2 ^ 63 - 1)

/-- It knows every root, and what it executes is a function of the root. -/
def ExecutionDetermined.ofExecute {execute : ScTransaction → EStateM Fault Uint256 ExecutionResult}
    (h : ∀ {s t s'}, execute t s ≠ .error (.undefined .emptyVector) s') :
    ExecutionDetermined (.ofExecute execute) where
  root := id
  Known := fun _ _ => True
  rootHash_ok := fun _ => rfl
  setRoot_ok := fun _ => ⟨_, rfl, rfl⟩
  known_setRoot := id
  known_execute := id
  known_commit := id
  execute_known := fun _ _ => trivial
  commit_ok := fun _ => ⟨_, rfl, trivial⟩
  execute_emptyVector := h
  Settled := fun _ => True
  settled_setRoot := fun _ => trivial
  settled_execute := fun _ => trivial
  execute_ok := by
    rintro s₁ s₂ t res s₁' - - - - rfl h
    exact ⟨s₁', h, rfl⟩
  execute_error := by
    rintro s₁ s₂ t e s₁' - - - - rfl h
    exact ⟨s₁', h⟩
  commit_settled := by
    intro s s' _ h
    cases h
    exact ⟨trivial, rfl⟩

end Ybtc
