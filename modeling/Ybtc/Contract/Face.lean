import Ybtc.Contract.Engine
import Ybtc.Script.Interpreter
import Ybtc.Validation.ConnectBlock

/-!
# From output scripts to contract calls

`scface.cpp`: an output whose script contains `OP_CREATE` or `OP_CALL` is evaluated, the fields of
the call are read off the stack the evaluation leaves, and the call is executed on the contract
state.

The verdict of `EvalScript` is ignored by the source, so only the stack is passed on.
-/

namespace Ybtc

open Stateful

/-- `SmartContractFlags`. -/
inductive SmartContractFlag
  | isCreate
  | isMessageCall
deriving Repr, DecidableEq

/-- The members of `SmartContract` that `ParseStack` fills in. -/
structure ContractFields where
  contractAddress : H160
  datahex : Bytes
  gasPrice : U256
  gasLimit : U256
  fabCallerAddress : Bytes
  callerAddress : H160
  value : U256
deriving Repr, DecidableEq

/-! ## Reading the stack -/

/-- `stack.back()` and `stack.pop_back()`. -/
def takeBack : List Bytes → Except Fault (Bytes × List Bytes)
  | [] => .error (.undefined .emptyVector)
  | vch :: stack => .ok (vch, stack)

variable (flag : SmartContractFlag)

/-- The value field, which only a call has. -/
def parseValue (stack : List Bytes) : Except Fault U256 :=
  match flag with
  | .isCreate => .ok 0
  | .isMessageCall => do
    let (vch, _) ← takeBack stack
    let value ← vchToUint64 vch
    .ok (BitVec.ofNat 256 value)

/-- `SmartContract::ParseStack`, on a stack with its top first: the fields are popped one by one
    without a look at the size of the stack. -/
def parseStack (stack : List Bytes) : Except Fault ContractFields := do
  let (_, stack) ← takeBack stack
  let (contractAddress, stack) ← takeBack stack
  let (datahex, stack) ← takeBack stack
  let (gasPriceVch, stack) ← takeBack stack
  let gasPrice ← vchToUint64 gasPriceVch
  let (gasLimitVch, stack) ← takeBack stack
  let gasLimit ← vchToUint64 gasLimitVch
  let (fabCallerAddress, stack) ← takeBack stack
  let value ← parseValue flag stack
  .ok ⟨h160 contractAddress, datahex, BitVec.ofNat 256 gasPrice, BitVec.ofNat 256 gasLimit,
    fabCallerAddress, h160 fabCallerAddress, value⟩

/-- The value field can be read. -/
def ValueReadable : SmartContractFlag → List Bytes → Prop
  | .isCreate, _ => True
  | .isMessageCall, [] => False
  | .isMessageCall, v :: _ => IsUint64Field v

/-- **The stacks whose fields can be read**: six items for a creation and seven for a call, with
    number fields of at most eight bytes and a clear sign bit. -/
def Readable : List Bytes → Prop
  | _ :: _ :: _ :: gp :: gl :: _ :: rest =>
    IsUint64Field gp ∧ IsUint64Field gl ∧ ValueReadable flag rest
  | _ => False

instance (flag : SmartContractFlag) (rest : List Bytes) : Decidable (ValueReadable flag rest) := by
  unfold ValueReadable
  split <;> infer_instance

instance (flag : SmartContractFlag) (stack : List Bytes) : Decidable (Readable flag stack) := by
  unfold Readable
  split <;> infer_instance

/-- With the first six items in place, what is left are the three numbers. -/
lemma parseStack_six (op addr datahex gp gl caller : Bytes) (rest : List Bytes) :
    parseStack flag (op :: addr :: datahex :: gp :: gl :: caller :: rest) = (do
      let gasPrice ← vchToUint64 gp
      let gasLimit ← vchToUint64 gl
      let value ← parseValue flag rest
      .ok ⟨h160 addr, datahex, BitVec.ofNat 256 gasPrice, BitVec.ofNat 256 gasLimit, caller,
        h160 caller, value⟩) := rfl

/-- What stops `ParseStack`: a pop from the empty stack, or an exception of the number decoder. -/
def ParseFault (f : Fault) : Prop :=
  f = .undefined .emptyVector ∨ ∃ what, f = .thrown (.scriptnumError what)

lemma parseValue_cases (rest : List Bytes) :
    (ValueReadable flag rest ∧ ∃ v, parseValue flag rest = .ok v) ∨
      (¬ ValueReadable flag rest ∧ ∃ f, parseValue flag rest = .error f ∧ ParseFault f) := by
  cases flag with
  | isCreate => exact Or.inl ⟨trivial, 0, rfl⟩
  | isMessageCall =>
    cases rest with
    | nil => exact Or.inr ⟨id, _, rfl, Or.inl rfl⟩
    | cons v rest =>
      rcases vchToUint64_cases v with ⟨hv, he⟩ | ⟨hv, what, he⟩
      · refine Or.inl ⟨hv, BitVec.ofNat 256 (readLE v), ?_⟩
        simp [parseValue, takeBack, he, bind, Except.bind]
      · refine Or.inr ⟨hv, .thrown (.scriptnumError what), ?_, Or.inr ⟨what, rfl⟩⟩
        simp [parseValue, takeBack, he, bind, Except.bind]

/-- **`ParseStack` returns exactly on readable stacks.**  Everywhere else it pops from the empty
    stack or lets an exception of the number decoder through. -/
lemma parseStack_cases (stack : List Bytes) :
    (Readable flag stack ∧ ∃ f, parseStack flag stack = .ok f) ∨
      (¬ Readable flag stack ∧ ∃ f, parseStack flag stack = .error f ∧ ParseFault f) := by
  -- One item after the other; behind the fourth and the fifth a number is decoded.
  rcases stack with _ | ⟨op, _ | ⟨addr, _ | ⟨data, _ | ⟨gp, rest⟩⟩⟩⟩
  iterate 4 exact Or.inr ⟨id, _, rfl, Or.inl rfl⟩
  rcases vchToUint64_cases gp with ⟨hgp, egp⟩ | ⟨hgp, what, egp⟩
  · rcases rest with _ | ⟨gl, rest⟩
    · refine Or.inr ⟨id, .undefined .emptyVector, ?_, Or.inl rfl⟩
      simp [parseStack, takeBack, egp, bind, Except.bind]
    rcases vchToUint64_cases gl with ⟨hgl, egl⟩ | ⟨hgl, what, egl⟩
    · rcases rest with _ | ⟨caller, rest⟩
      · refine Or.inr ⟨id, .undefined .emptyVector, ?_, Or.inl rfl⟩
        simp [parseStack, takeBack, egp, egl, bind, Except.bind]
      rw [parseStack_six, egp, egl]
      rcases parseValue_cases flag rest with ⟨hv, v, ev⟩ | ⟨hv, f, ev, hf⟩
      · exact Or.inl ⟨⟨hgp, hgl, hv⟩, _, by rw [ev]; rfl⟩
      · exact Or.inr ⟨fun h => hv h.2.2, f, by rw [ev]; rfl, hf⟩
    · refine Or.inr ⟨?_, .thrown (.scriptnumError what), ?_, Or.inr ⟨what, rfl⟩⟩
      · rcases rest with _ | ⟨caller, rest⟩
        · exact id
        · exact fun h => hgl h.2.1
      · simp [parseStack, takeBack, egp, egl, bind, Except.bind]
  · refine Or.inr ⟨?_, .thrown (.scriptnumError what), ?_, Or.inr ⟨what, rfl⟩⟩
    · rcases rest with _ | ⟨gl, _ | ⟨caller, rest⟩⟩
      · exact id
      · exact id
      · exact fun h => hgp h.1
    · simp [parseStack, takeBack, egp, bind, Except.bind]

variable {flag : SmartContractFlag} {f : ContractFields}

/-- What a stack was parsed from. -/
lemma parseStack_inv {stack : List Bytes} (h : parseStack flag stack = .ok f) :
    ∃ op addr datahex gp gl caller rest gasPrice gasLimit value,
      stack = op :: addr :: datahex :: gp :: gl :: caller :: rest ∧
      vchToUint64 gp = .ok gasPrice ∧ vchToUint64 gl = .ok gasLimit ∧
      f = ⟨h160 addr, datahex, BitVec.ofNat 256 gasPrice, BitVec.ofNat 256 gasLimit, caller,
        h160 caller, value⟩ := by
  rcases parseStack_cases flag stack with ⟨hr, _⟩ | ⟨_, e, he, _⟩
  · rcases stack with _ | ⟨op, _ | ⟨addr, _ | ⟨data, _ | ⟨gp, _ | ⟨gl, _ | ⟨caller, rest⟩⟩⟩⟩⟩⟩
    iterate 6 exact absurd hr id
    rw [parseStack_six] at h
    obtain ⟨gasPrice, hgp, h⟩ := Fallible.bind_ok.mp h
    obtain ⟨gasLimit, hgl, h⟩ := Fallible.bind_ok.mp h
    obtain ⟨value, _, h⟩ := Fallible.bind_ok.mp h
    injection h with h
    exact ⟨op, addr, data, gp, gl, caller, rest, gasPrice, gasLimit, value, rfl, hgp, hgl, h.symm⟩
  · rw [he] at h
    cases h

/-- The sixth item is the address of the caller, and the one a refund goes to. -/
lemma parseStack_sixth {stack : List Bytes} (h : parseStack flag stack = .ok f) :
    stack[5]? = some f.fabCallerAddress ∧ f.callerAddress = h160 f.fabCallerAddress := by
  obtain ⟨_, _, _, _, _, _, _, _, _, _, rfl, -, -, rfl⟩ := parseStack_inv h
  exact ⟨rfl, rfl⟩

/-- The gas fields have 64 bits. -/
lemma parseStack_gas {stack : List Bytes} (h : parseStack flag stack = .ok f) :
    f.gasLimit.toNat < 2 ^ 64 ∧ f.gasPrice.toNat < 2 ^ 64 := by
  obtain ⟨_, _, _, _, _, _, _, _, _, _, -, hgp, hgl, rfl⟩ := parseStack_inv h
  have hfield : ∀ {vch : Bytes} {n : ℕ}, vchToUint64 vch = .ok n →
      (BitVec.ofNat 256 n).toNat < 2 ^ 64 := by
    intro vch n hn
    obtain ⟨⟨hlen, -⟩, rfl⟩ := vchToUint64_ok.mp hn
    have hlt : readLE vch < 2 ^ 64 :=
      calc readLE vch < 256 ^ vch.length := readLE_lt vch
        _ ≤ 256 ^ 8 := Nat.pow_le_pow_right (by decide) hlen
        _ = 2 ^ 64 := by norm_num
    rw [BitVec.toNat_ofNat]
    exact (Nat.mod_le _ _).trans_lt hlt
  exact ⟨hfield hgl, hfield hgp⟩

/-! ## Executing an output -/

section Execution

variable (crypto : Crypto) (E : ContractEngine)

/-- The arguments of the evaluation: no signatures can be checked, and no rule beyond the basic
    ones applies. -/
def contractEnv : EvalEnv := ⟨crypto, .none, scriptExecByteCode, .base⟩

/-- The evaluation of an output script. -/
def evalContractScript (script : CScript) : EStateM.Result EvalExit EvalState Unit :=
  evalScript (contractEnv crypto) [] script

/-- The stack it leaves. -/
def contractStack (script : CScript) : List Bytes :=
  (stateAfter (evalContractScript crypto script)).stack

/-- `vout.scriptPubKey.HasOpCreate() || vout.scriptPubKey.HasOpCall()`. -/
def CTxOut.isContract (out : CTxOut) : Bool :=
  hasOpCreate out.scriptPubKey || hasOpCall out.scriptPubKey

/-- The flag `TxContractExec` sets. -/
def contractFlag (script : CScript) : SmartContractFlag :=
  if hasOpCreate script then .isCreate else .isMessageCall

/-- The transaction handed to the engine. -/
def ContractFields.scTransaction (f : ContractFields) (flag : SmartContractFlag) : ScTransaction :=
  ⟨flag == .isCreate, f.value, f.gasPrice, f.gasLimit, f.contractAddress, f.datahex,
    f.callerAddress⟩

/-- `(gasLimit - res.gasUsed) * gasPrice`. -/
def ContractFields.refundGasAmount (f : ContractFields) (gasUsed : U256) : U256 :=
  (f.gasLimit - gasUsed) * f.gasPrice

/-- It is the product of the numbers if no more gas was used than allowed, as the fields have 64
    bits. -/
lemma ContractFields.refundGasAmount_toNat {stack : List Bytes} {gasUsed : U256}
    (h : parseStack flag stack = .ok f) (hle : gasUsed ≤ f.gasLimit) :
    (f.refundGasAmount gasUsed).toNat = (f.gasLimit.toNat - gasUsed.toNat) * f.gasPrice.toNat := by
  obtain ⟨hgl, hgp⟩ := parseStack_gas h
  have hprod : (f.gasLimit.toNat - gasUsed.toNat) * f.gasPrice.toNat < 2 ^ 256 :=
    calc (f.gasLimit.toNat - gasUsed.toNat) * f.gasPrice.toNat ≤ 2 ^ 64 * 2 ^ 64 :=
          Nat.mul_le_mul (by omega) hgp.le
      _ < 2 ^ 256 := by norm_num
  rw [refundGasAmount, BitVec.toNat_mul, BitVec.toNat_sub_of_le hle, Nat.mod_eq_of_lt hprod]

/-- The script of a refund output. -/
def refundScript (fabCallerAddress : Bytes) : CScript :=
  pushBytes [OP_DUP, OP_HASH160] fabCallerAddress ++ [OP_EQUALVERIFY, OP_CHECKSIG]

/-- The refund output, if there is something to refund. -/
def refundOutputs (f : ContractFields) (gasUsed : U256) : List CTxOut :=
  if f.refundGasAmount gasUsed = 0 then []
  else [⟨E.toCAmount (f.refundGasAmount gasUsed), refundScript f.fabCallerAddress⟩]

/-- The `try` block; `catch (...)` takes exceptions, and nothing else. -/
def tryExecute (flag : SmartContractFlag) (f : ContractFields) (oldHashStateRoot : Uint256)
    (vRefundGasFee : List CTxOut) : EStateM Fault E.State (List CTxOut) := fun s =>
  match E.execute (f.scTransaction flag) s with
  | .ok res s' => .ok (vRefundGasFee ++ refundOutputs E f res.gasUsed) s'
  | .error (.thrown _) s' => (do E.setRoot oldHashStateRoot; pure vRefundGasFee) s'
  | .error fault s' => .error fault s'

/-- One contract output. -/
def execContract (script : CScript) (vRefundGasFee : List CTxOut) :
    EStateM Fault E.State (List CTxOut) := do
  let f ← Stateful.liftExcept (parseStack (contractFlag script) (contractStack crypto script))
  let oldHashStateRoot ← E.rootHash
  tryExecute E (contractFlag script) f oldHashStateRoot vRefundGasFee

/-- One turn of the loop of `TxContractExec`. -/
def execOutput (vRefundGasFee : List CTxOut) (out : CTxOut) : EStateM Fault E.State (List CTxOut) :=
  if out.isContract then execContract crypto E out.scriptPubKey vRefundGasFee
  else pure vRefundGasFee

/-- `SmartContract::TxContractExec`; it always returns `true`, and what it appends to
    `vRefundGasFee` is the result. -/
def txContractExec (tx : CTransaction) (vRefundGasFee : List CTxOut) :
    EStateM Fault E.State (List CTxOut) :=
  tx.vout.foldlM (execOutput crypto E) vRefundGasFee

/-- One turn of the loop of `GetBlockContract`. -/
def execTx (vRefundGasFee : List CTxOut) (tx : CTransaction) :
    EStateM Fault E.State (List CTxOut) :=
  if tx.hasCreateOrCall then do
    let _ ← E.rootHash
    txContractExec crypto E tx vRefundGasFee
  else pure vRefundGasFee

/-- `SmartContract::GetBlockContract`. -/
def getBlockContract (block : CBlock) : EStateM Fault E.State (Bool × List CTxOut) := do
  let vRefundGasFee ← block.vtx.foldlM (execTx crypto E) []
  E.commit
  pure (true, vRefundGasFee)

/-- **The engine as the block code uses it.** -/
def ContractEngine.layer : ContractLayer :=
  ⟨E.State, E.emptyRoot, E.rootHash, E.setRoot, getBlockContract crypto E⟩

variable {crypto E} {b a : List CTxOut} {s s' : E.State}

/-- **A call that has returned**: it was executed, or an exception was caught and the old root is
    set again. -/
lemma tryExecute_ok {old : Uint256} :
    tryExecute E flag f old b s = .ok a s' ↔
      (∃ res, E.execute (f.scTransaction flag) s = .ok res s' ∧
        a = b ++ refundOutputs E f res.gasUsed) ∨
      ∃ e s1, E.execute (f.scTransaction flag) s = .error (.thrown e) s1 ∧
        E.setRoot old s1 = .ok () s' ∧ a = b := by
  unfold tryExecute
  cases E.execute (f.scTransaction flag) s with
  | ok res s1 =>
    simp [eq_comm]
    grind
  | error fault s1 =>
    cases fault with
    | thrown e =>
      change (E.setRoot old >>= fun _ => pure b) s1 = _ ↔ _
      simp only [bind_ok, pure_apply]
      grind
    | assertion | exit | undefined | diverged => simp

lemma execOutput_contract_ok {out : CTxOut} (hc : out.isContract = true) :
    execOutput crypto E b out s = .ok a s' ↔ ∃ f old s1,
      parseStack (contractFlag out.scriptPubKey) (contractStack crypto out.scriptPubKey) = .ok f ∧
        E.rootHash s = .ok old s1 ∧
          tryExecute E (contractFlag out.scriptPubKey) f old b s1 = .ok a s' := by
  rw [execOutput, if_pos hc, execContract, liftExcept_bind_ok]
  simp only [bind_ok, exists_and_left]

end Execution

/-- A chain with another contract layer. -/
def ChainContext.withLayer (ctx : ChainContext) (L : ContractLayer) : ChainContext :=
  { ctx with L := L }

end Ybtc
