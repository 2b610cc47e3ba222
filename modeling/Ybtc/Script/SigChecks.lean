import Ybtc.Core.Counting
import Ybtc.Script.Push

/-!
# How many signatures a script checks

`GetSigOpCount` bounds the signature checks of a script without running it.  Here the interpreter is
written once more with a counter of the checks; forgetting the counter gives `evalScript` back.  The
main result is `sigChecks_le`.
-/

namespace Ybtc

open Stateful List Costs

/-! ## The interpreter with a counter -/

/-- A computation of the interpreter, with the number of signature checks so far. -/
abbrev Counted := EStateM EvalExit (EvalState × ℕ)

variable (env : EvalEnv)

/-- `OP_CHECKSIG` and `OP_CHECKSIGVERIFY`. -/
def evalCheckSigCounted (verify : Bool) : Counted Unit := do
  onFst (needItems 2 .invalidStackOperation)
  let sig ← onFst (stackTop 1)
  let vchPubKey ← onFst (stackTop 0)
  onFst (checkEncodings env sig vchPubKey)
  let fSuccess ← tick (checkSigWith env [sig] sig vchPubKey)
  onFst (stopIf (fSuccess = false ∧ env.has verifyNullFail = true ∧ sig ≠ []) .sigNullFail)
  onFst popStack
  onFst popStack
  onFst (pushStack (ofBool fSuccess))
  onFst (verifyResult verify fSuccess .checkSigVerify)

/-- The loop that matches signatures with keys. -/
def multiSigLoopCounted (allSigs : List Bytes) : List Bytes → List Bytes → Counted Bool
  | [], _ => pure true
  | _ :: _, [] => pure false
  | sig :: sigs, key :: keys => do
    onFst (checkEncodings env sig key)
    let fOk ← tick (checkSigWith env allSigs sig key)
    if fOk then
      if keys.length < sigs.length then pure false else multiSigLoopCounted allSigs sigs keys
    else
      if keys.length < sigs.length + 1 then pure false
      else multiSigLoopCounted allSigs (sig :: sigs) keys
termination_by structural _ keys => keys

/-- `OP_CHECKMULTISIG`, `OP_SMARTCODE` and their `VERIFY` variants. -/
def evalCheckMultiSigCounted (verify : Bool) : Counted Unit := do
  onFst (needItems 1 .invalidStackOperation)
  let vchKeys ← onFst (stackTop 0)
  let nKeys ← onFst (readNum env vchKeys defaultMaxNumSize)
  onFst (stopIf (getInt nKeys < 0 ∨ maxPubkeysPerMultisig < getInt nKeys) .pubkeyCount)
  onFst (countOps (getInt nKeys).toNat)
  onFst (needItems (2 + (getInt nKeys).toNat) .invalidStackOperation)
  let vchSigs ← onFst (stackTop (1 + (getInt nKeys).toNat))
  let nSigs ← onFst (readNum env vchSigs defaultMaxNumSize)
  onFst (stopIf (getInt nSigs < 0 ∨ getInt nKeys < getInt nSigs) .sigCount)
  onFst (needItems (3 + (getInt nKeys).toNat + (getInt nSigs).toNat) .invalidStackOperation)
  let keys ← onFst (stackItems 1 (getInt nKeys).toNat)
  let sigs ← onFst (stackItems (2 + (getInt nKeys).toNat) (getInt nSigs).toNat)
  let fSuccess ← multiSigLoopCounted env sigs sigs keys
  onFst (cleanUpArgs env fSuccess (2 + (getInt nKeys).toNat + (getInt nSigs).toNat)
    ((getInt nKeys).toNat + 2))
  onFst (needItems 1 .invalidStackOperation)
  let dummy ← onFst (stackTop 0)
  onFst (stopIf (env.has verifyNullDummy = true ∧ dummy ≠ []) .sigNullDummy)
  onFst popStack
  onFst (pushStack (ofBool fSuccess))
  onFst (verifyResult verify fSuccess .checkMultiSigVerify)

/-- The switch. -/
def evalInstrCounted (fExec : Bool) (rest : Bytes) : Instr → Counted Unit
  | .checkSig verify => evalCheckSigCounted env verify
  | .checkMultiSig verify => evalCheckMultiSigCounted env verify
  | instr => onFst (evalInstr env fExec rest instr)

/-- The choice between a push, the switch and nothing. -/
def dispatchCounted (op : ScriptOp) (fExec : Bool) : Counted Unit :=
  if fExec = true ∧ op.opcode ≤ OP_PUSHDATA4 then onFst (evalPush env op)
  else if fExec = true ∨ (OP_IF ≤ op.opcode ∧ op.opcode ≤ OP_ENDIF) then
    evalInstrCounted env fExec op.rest (instrOf op.opcode)
  else pure ()

/-- One turn of the loop. -/
def evalStepCounted (op : ScriptOp) : Counted Unit := do
  let fExec ← onFst executing
  onFst (stopIf (maxScriptElementSize < op.vch.length) .pushSize)
  onFst (countOp op.opcode)
  onFst (stopIf (op.opcode ∈ disabledOpcodes) .disabledOpcode)
  dispatchCounted env op fExec
  onFst checkStackSize

/-- The loop. -/
def evalLoopCounted (atEnd : Bool) : List ScriptOp → Counted Unit
  | [] => onFst (stopIf (atEnd = false) .badOpcode)
  | op :: ops => do
    evalStepCounted env op
    evalLoopCounted atEnd ops

/-- The body of `EvalScript`. -/
def evalBodyCounted (script : CScript) : Counted Unit := do
  onFst (stopIf (maxScriptSize < script.length) .scriptSize)
  evalLoopCounted env (scan script).2 (scan script).1
  onFst checkBalanced

/-- `EvalScript`, with the signature checks counted from zero. -/
def countedScript (stack : List Bytes) (script : CScript) :
    EStateM.Result EvalExit (EvalState × ℕ) Unit :=
  evalBodyCounted env script (⟨stack, [], [], 0, script⟩, 0)

/-- **The number of signature checks of a run.** -/
def sigChecks (stack : List Bytes) (script : CScript) : ℕ :=
  (stateAfter (countedScript env stack script)).2

/-! ## It is the same interpreter -/

variable {env} (verify : Bool)

lemma evalCheckSigCounted_refines :
    Refines (evalCheckSigCounted env verify) (evalCheckSig env verify) := by
  unfold evalCheckSigCounted evalCheckSig
  iterate 4 refine (Refines.onFst _).bind fun _ => ?_
  refine (Refines.tick _).bind fun _ => ?_
  iterate 4 refine (Refines.onFst _).bind fun _ => ?_
  exact Refines.onFst _

variable (allSigs : List Bytes)

lemma multiSigLoopCounted_refines : ∀ (keys sigs : List Bytes),
    Refines (multiSigLoopCounted env allSigs sigs keys) (multiSigLoop env allSigs sigs keys) := by
  intro keys
  induction keys with
  | nil =>
    intro sigs
    cases sigs <;> exact Refines.pure _
  | cons key keys ih =>
    intro sigs
    cases sigs with
    | nil => exact Refines.pure _
    | cons sig sigs =>
      refine (Refines.onFst _).bind fun _ => (Refines.tick _).bind fun fOk => ?_
      exact ((Refines.pure _).ite (ih _)).ite ((Refines.pure _).ite (ih _))

lemma evalCheckMultiSigCounted_refines :
    Refines (evalCheckMultiSigCounted env verify) (evalCheckMultiSig env verify) := by
  unfold evalCheckMultiSigCounted evalCheckMultiSig
  iterate 12 refine (Refines.onFst _).bind fun _ => ?_
  refine (multiSigLoopCounted_refines _ _ _).bind fun _ => ?_
  iterate 6 refine (Refines.onFst _).bind fun _ => ?_
  exact Refines.onFst _

lemma evalInstrCounted_refines (fExec : Bool) (rest : Bytes) (instr : Instr) :
    Refines (evalInstrCounted env fExec rest instr) (evalInstr env fExec rest instr) := by
  cases instr with
  | checkSig verify => exact evalCheckSigCounted_refines verify
  | checkMultiSig verify => exact evalCheckMultiSigCounted_refines verify
  | _ =>
    unfold evalInstrCounted
    exact Refines.onFst _

lemma evalStepCounted_refines (op : ScriptOp) :
    Refines (evalStepCounted env op) (evalStep env op) := by
  iterate 4 refine (Refines.onFst _).bind fun _ => ?_
  refine Refines.bind ?_ fun _ => Refines.onFst _
  exact (Refines.onFst _).ite ((evalInstrCounted_refines _ _ _).ite (Refines.pure _))

lemma evalLoopCounted_refines (atEnd : Bool) (ops : List ScriptOp) :
    Refines (evalLoopCounted env atEnd ops) (evalLoop env atEnd ops) := by
  induction ops with
  | nil => exact Refines.onFst _
  | cons op ops ih => exact (evalStepCounted_refines op).bind fun _ => ih

/-- **Forgetting the counter gives back `EvalScript`.** -/
theorem countedScript_refines (stack : List Bytes) (script : CScript) :
    forget (countedScript env stack script) = evalScript env stack script := by
  have h : Refines (evalBodyCounted env script) (evalBody env script) :=
    (Refines.onFst _).bind fun _ => (evalLoopCounted_refines _ _).bind fun _ => Refines.onFst _
  exact h _

/-! ## What the instructions cost -/

lemma evalCheckSigCounted_costs : Costs 1 (evalCheckSigCounted env verify) := by
  iterate 4 refine Costs.free_bind fun _ => ?_
  refine (Costs.tick _).bind_free fun _ => ?_
  iterate 4 refine Costs.free_bind fun _ => ?_
  exact Costs.onFst _

/-- One check for each key. -/
lemma multiSigLoopCounted_costs : ∀ (keys sigs : List Bytes),
    Costs keys.length (multiSigLoopCounted env allSigs sigs keys) := by
  intro keys
  induction keys with
  | nil =>
    intro sigs
    cases sigs <;> exact pure _
  | cons key keys ih =>
    intro sigs
    have hstop : Costs keys.length (pure false : Counted Bool) := (pure false).mono (Nat.zero_le _)
    cases sigs with
    | nil => exact (pure _).mono (Nat.zero_le _)
    | cons sig sigs =>
      rw [length_cons, Nat.add_comm]
      refine Costs.free_bind fun _ => (Costs.tick _).bind fun fOk => Costs.ite ?_ ?_
      · exact fun _ => Costs.ite (fun _ => hstop) fun _ => ih sigs
      · exact fun _ => Costs.ite (fun _ => hstop) fun _ => ih (sig :: sigs)

lemma stopIf_ok {c : Prop} [Decidable c] {e : ScriptError} {s s' : EvalState} {u : Unit}
    (h : stopIf c e s = .ok u s') : ¬ c := by
  intro hc
  rw [stopIf, if_pos hc] at h
  cases h

lemma stackItems_length {start n : ℕ} {s s' : EvalState} {items : List Bytes}
    (h : stackItems start n s = .ok items s') : items.length ≤ n := by
  obtain ⟨rfl, -⟩ := EStateM.Result.ok.inj h
  rw [length_take]
  exact min_le_left _ _

/-- At most twenty checks: there are no more keys. -/
lemma evalCheckMultiSigCounted_costs :
    Costs maxPubkeysPerMultisig (evalCheckMultiSigCounted env verify) := by
  refine Costs.free_bind fun _ => Costs.free_bind fun _ => Costs.free_bind fun nKeys =>
    onFst_bind (fun _ _ _ => stopIf_ok) fun _ hkeys => ?_
  have hfew : (getInt nKeys).toNat ≤ maxPubkeysPerMultisig := by
    rw [not_or] at hkeys
    omega
  iterate 6 refine Costs.free_bind fun _ => ?_
  refine onFst_bind (fun _ _ _ => stackItems_length) fun keys hlength =>
    Costs.free_bind fun sigs => ?_
  refine mono ((multiSigLoopCounted_costs sigs keys sigs).bind_free fun _ => ?_)
    (hlength.trans hfew)
  iterate 6 refine Costs.free_bind fun _ => ?_
  exact Costs.onFst _

/-- The checks an instruction can make. -/
def Instr.maxChecks : Instr → ℕ
  | .checkSig _ => 1
  | .checkMultiSig _ => maxPubkeysPerMultisig
  | _ => 0

lemma evalInstrCounted_costs (fExec : Bool) (rest : Bytes) (instr : Instr) :
    Costs instr.maxChecks (evalInstrCounted env fExec rest instr) := by
  cases instr with
  | checkSig verify => exact evalCheckSigCounted_costs verify
  | checkMultiSig verify => exact evalCheckMultiSigCounted_costs verify
  | _ =>
    unfold evalInstrCounted
    exact Costs.onFst _

/-- **One turn of the loop**: one check, or one for each key of a multisig. -/
lemma evalStepCounted_costs (op : ScriptOp) :
    Costs (instrOf op.opcode).maxChecks (evalStepCounted env op) := by
  have hdispatch : ∀ fExec, Costs (instrOf op.opcode).maxChecks (dispatchCounted env op fExec) :=
    fun fExec => Costs.ite (fun _ => (Costs.onFst _).mono (Nat.zero_le _)) fun _ =>
      Costs.ite (fun _ => evalInstrCounted_costs _ _ _) fun _ =>
        (pure _).mono (Nat.zero_le _)
  refine Costs.free_bind fun fExec => ?_
  iterate 3 refine Costs.free_bind fun _ => ?_
  exact (hdispatch fExec).bind_free fun _ => Costs.onFst _

/-- **The whole loop.** -/
lemma evalLoopCounted_costs (atEnd : Bool) (ops : List ScriptOp) :
    Costs (ops.map fun op => (instrOf op.opcode).maxChecks).sum
      (evalLoopCounted env atEnd ops) := by
  induction ops with
  | nil => exact Costs.onFst _
  | cons op ops ih =>
    rw [map_cons, sum_cons]
    exact (evalStepCounted_costs op).bind fun _ => ih

/-! ## The static count -/

/-- The opcodes whose checks `GetSigOpCount` does not see. -/
def IsSmartCode (opcode : UInt8) : Prop := opcode = OP_SMARTCODE ∨ opcode = OP_SMARTCODEVERIFY

/-- An instruction that checks signatures is an entry of the table. -/
lemma mem_instrTable {opcode : UInt8} (h : (instrOf opcode).maxChecks ≠ 0) :
    (opcode, instrOf opcode) ∈ instrTable := by
  unfold instrOf at h ⊢
  split_ifs at h ⊢ with hpush hnop
  · exact absurd rfl h
  · exact absurd rfl h
  · cases hlookup : instrTable.lookup opcode with
    | none =>
      rw [hlookup] at h
      exact absurd rfl h
    | some instr =>
      obtain ⟨l1, l2, htable, -⟩ := lookup_eq_some_iff.mp hlookup
      rw [htable]
      simp

/-- Every other opcode is counted for what it can check. -/
lemma maxChecks_le_sigOpsOf {opcode : UInt8} (h : ¬ IsSmartCode opcode) (lastOpcode : UInt8) :
    (instrOf opcode).maxChecks ≤ sigOpsOf false lastOpcode opcode := by
  by_cases hzero : (instrOf opcode).maxChecks = 0
  · rw [hzero]
    exact Nat.zero_le _
  have hmem := mem_instrTable hzero
  cases hinstr : instrOf opcode with
  | checkSig verify =>
    have hop : opcode = OP_CHECKSIG ∨ opcode = OP_CHECKSIGVERIFY := by
      rw [hinstr] at hmem
      simp only [instrTable, mem_cons, Prod.mk.injEq, reduceCtorEq, and_false, false_or,
        or_false, not_mem_nil] at hmem
      exact hmem.imp And.left And.left
    rw [sigOpsOf, if_pos hop]
    rfl
  | checkMultiSig verify =>
    have hop : opcode = OP_CHECKMULTISIG ∨ opcode = OP_CHECKMULTISIGVERIFY := by
      rw [hinstr] at hmem
      simp only [instrTable, mem_cons, Prod.mk.injEq, reduceCtorEq, and_false, false_or,
        or_false, not_mem_nil] at hmem
      rcases hmem with hop | hop | hop | hop
      · exact Or.inl hop.1
      · exact Or.inr hop.1
      · exact absurd (Or.inl hop.1) h
      · exact absurd (Or.inr hop.1) h
    have hsingle : ¬ (opcode = OP_CHECKSIG ∨ opcode = OP_CHECKSIGVERIFY) := by
      rcases hop with rfl | rfl <;> decide
    rw [sigOpsOf, if_neg hsingle, if_pos hop]
    exact le_of_eq (if_neg (by simp)).symm
  | _ => exact absurd (by rw [hinstr]; rfl) hzero

lemma sum_maxChecks_le : ∀ {ops : List ScriptOp} (lastOpcode : UInt8),
    (∀ op ∈ ops, ¬ IsSmartCode op.opcode) →
      (ops.map fun op => (instrOf op.opcode).maxChecks).sum ≤ sigOpLoop false lastOpcode ops
  | [], _, _ => le_refl _
  | op :: ops, lastOpcode, h => by
    rw [forall_mem_cons] at h
    rw [map_cons, sum_cons, sigOpLoop]
    exact Nat.add_le_add (maxChecks_le_sigOpsOf h.1 lastOpcode) (sum_maxChecks_le op.opcode h.2)

/-- The script has no instruction that is not counted. -/
def NoSmartCode (script : CScript) : Prop :=
  find script OP_SMARTCODE = 0 ∧ find script OP_SMARTCODEVERIFY = 0

instance noSmartCodeDecidable (script : CScript) : Decidable (NoSmartCode script) :=
  inferInstanceAs (Decidable (_ ∧ _))

lemma NoSmartCode.not_mem {script : CScript} (h : NoSmartCode script) :
    ∀ op ∈ (scan script).1, ¬ IsSmartCode op.opcode := by
  rintro op hop (heq | heq)
  · exact opcode_ne_of_find_eq_zero h.1 op hop heq
  · exact opcode_ne_of_find_eq_zero h.2 op hop heq

/-- **The static count is an upper bound** on the signature checks of every run of a script without
    `OP_SMARTCODE` and `OP_SMARTCODEVERIFY`, whatever the stack, the flags and the checker are. -/
theorem sigChecks_le {script : CScript} (h : NoSmartCode script) (stack : List Bytes) :
    sigChecks env stack script ≤ getSigOpCount script false := by
  have hbody : Costs ((scan script).1.map fun op => (instrOf op.opcode).maxChecks).sum
      (evalBodyCounted env script) :=
    Costs.free_bind fun _ => (evalLoopCounted_costs _ _).bind_free fun _ => Costs.onFst _
  calc sigChecks env stack script
      ≤ 0 + ((scan script).1.map fun op => (instrOf op.opcode).maxChecks).sum := hbody _
    _ = ((scan script).1.map fun op => (instrOf op.opcode).maxChecks).sum := Nat.zero_add _
    _ ≤ getSigOpCount script false := sum_maxChecks_le _ h.not_mem

/-- No flags, and a checker that accepts nothing. -/
def plainEnv : EvalEnv :=
  ⟨⟨fun kind _ => List.replicate kind.size 0, fun _ _ => length_replicate, fun _ => true⟩,
    .none, 0, .base⟩

/-- A single check, which is counted. -/
theorem sigChecks_le_checkSig :
    NoSmartCode [OP_CHECKSIG] ∧ sigChecks plainEnv [[2], [3]] [OP_CHECKSIG] = 1 ∧
      sigChecks plainEnv [[2], [3]] [OP_CHECKSIG] ≤ getSigOpCount [OP_CHECKSIG] false :=
  ⟨by decide, by decide +kernel, sigChecks_le (by decide) _⟩

/-- One signature against twenty keys: twenty checks, and the static count is zero. -/
theorem smartCode_checks_uncounted :
    sigChecks plainEnv ([[20]] ++ List.replicate 20 [2] ++ [[1], [3], []]) [OP_SMARTCODE] = 20 ∧
      getSigOpCount [OP_SMARTCODE] false = 0 := by
  decide +kernel

end Ybtc
