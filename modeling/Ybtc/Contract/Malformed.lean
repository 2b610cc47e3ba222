import Ybtc.Contract.Face

/-!
# Malformed contract scripts

An output is a contract output because a linear scan finds one `OP_CREATE` or one `OP_CALL` in its
script.  Whether the evaluation of the script ever reaches that opcode, and what it finds on the
stack there, is another question, which `TxContractExec` does not ask: it pops six or seven items
from whatever stack is left.
-/

namespace Ybtc

open Stateful

section Malformed

variable (crypto : Crypto)

/-- The opcode that belongs to a flag. -/
def SmartContractFlag.opcode : SmartContractFlag → UInt8
  | .isCreate => OP_CREATE
  | .isMessageCall => OP_CALL

/-- **A well-formed contract script**: its evaluation stops at the opcode the scan has found, and
    the fields can be read from the stack it leaves. -/
def WellFormed (script : CScript) : Prop :=
  ∃ st, evalContractScript crypto script = .error (.contract (contractFlag script).opcode) st ∧
    Readable (contractFlag script) st.stack

/-- What is expected of `TxContractExec` on a transaction with arbitrary output scripts: it neither
    pops from an empty stack nor lets an exception through, and a malformed output changes nothing.
    -/
structure Handled (E : ContractEngine) (laws : EngineLaws E) (tx : CTransaction)
    (vRefundGasFee : List CTxOut) (s : E.State) : Prop where
  no_emptyPop : ∀ s', txContractExec crypto E tx vRefundGasFee s
    ≠ .error (.undefined .emptyVector) s'
  no_throw : ∀ e s', txContractExec crypto E tx vRefundGasFee s ≠ .error (.thrown e) s'
  unchanged : ∀ pre out post, tx.vout = pre ++ out :: post → out.isContract = true →
    ¬ WellFormed crypto out.scriptPubKey →
      ∀ refunds s₁, pre.foldlM (execOutput crypto E) vRefundGasFee s = .ok refunds s₁ →
        ∃ s₂, execOutput crypto E refunds out s₁ = .ok refunds s₂ ∧ laws.root s₂ = laws.root s₁

variable {crypto}

/-! ## Well-formed outputs are handled -/

/-- The failures that are neither exceptions nor pops from an empty stack. -/
def Contained (f : Fault) : Prop := f ≠ .undefined .emptyVector ∧ ∀ e, f ≠ .thrown e

variable {E : ContractEngine} (laws : EngineLaws E) {refunds : List CTxOut}

/-- An exception of the engine is caught, and the old root is set again. -/
lemma tryExecute_within {flag : SmartContractFlag} {f : ContractFields}
    {s : E.State} (hs : laws.Valid s) :
    Ends laws.Valid Contained (tryExecute E flag f (laws.root s) refunds s) := by
  unfold tryExecute
  cases hex : E.execute (f.scTransaction flag) s with
  | ok res s' => exact laws.execute_known hs hex
  | error fault s' =>
    cases fault with
    | thrown e =>
      have hk : laws.Known s' (laws.root s) := by
        have := laws.known_execute (t := f.scTransaction flag) hs
        rw [hex] at this
        exact this
      obtain ⟨s'', hset, _, hv⟩ := EngineLaws.setRoot_valid hk
      simp only [bind_apply, hset, pure_apply]
      exact hv
    | assertion | exit | diverged => exact ⟨by simp, by simp⟩
    | undefined u =>
      refine ⟨?_, by simp⟩
      rintro h
      injection h with h
      subst h
      exact laws.execute_emptyVector hex

lemma execContract_within {script : CScript}
    (hr : Readable (contractFlag script) (contractStack crypto script)) :
    Within laws.Valid Contained (execContract crypto E script refunds) := by
  intro s hs
  obtain ⟨f, hf⟩ : ∃ f, parseStack (contractFlag script) (contractStack crypto script) = .ok f := by
    rcases parseStack_cases (contractFlag script) (contractStack crypto script) with
      ⟨_, h⟩ | ⟨h, _⟩
    · exact h
    · exact absurd hr h
  simp only [execContract, bind_apply, hf, Stateful.liftExcept, laws.rootHash_ok hs]
  exact tryExecute_within laws hs

variable {tx : CTransaction} (refunds : List CTxOut)

/-- If all contract outputs are readable, nothing escapes. -/
lemma txContractExec_within
    (h : ∀ out ∈ tx.vout, out.isContract = true →
      Readable (contractFlag out.scriptPubKey) (contractStack crypto out.scriptPubKey)) :
    Within laws.Valid Contained (txContractExec crypto E tx refunds) := by
  refine Within.foldlM tx.vout refunds ?_
  intro out hout refunds'
  unfold execOutput
  split_ifs with hc
  · exact execContract_within laws (h out hout hc)
  · exact Within.pure _

/-! ## Outputs that are not well formed are not -/

/-- An engine that executes everything, and counts. -/
abbrev ContractEngine.counting : ContractEngine := .ofExecute fun _ s => .ok .initial (s + 1)

def ExecutionDetermined.counting : ExecutionDetermined .counting := .ofExecute fun h => by cases h

def EngineLaws.counting : EngineLaws .counting := ExecutionDetermined.counting.toEngineLaws

variable (crypto)

/-- On the counting engine a contract output moves the root, unless its fields cannot be read. -/
lemma execContract_counting (script : CScript) (refunds : List CTxOut) (s : Uint256) :
    (∃ r, execContract crypto .counting script refunds s = .ok r (s + 1)) ∨
      ∃ f, execContract crypto .counting script refunds s = .error f s ∧ ParseFault f := by
  rcases parseStack_cases (contractFlag script) (contractStack crypto script) with
    ⟨_, f, hf⟩ | ⟨_, f, hf, hp⟩
  · refine Or.inl ⟨refunds ++ refundOutputs .counting f 0, ?_⟩
    rw [execContract, hf]
    rfl
  · refine Or.inr ⟨f, ?_, hp⟩
    rw [execContract, hf]
    rfl

lemma execOutput_counting (out : CTxOut) :
    Within (fun _ => True) ParseFault (execOutput crypto .counting refunds out) := by
  unfold execOutput
  split_ifs
  · intro s _
    rcases execContract_counting crypto out.scriptPubKey refunds s with
      ⟨r, h⟩ | ⟨f, h, hp⟩
    · rw [h]; trivial
    · rw [h]; exact hp
  · exact Within.pure _

variable {crypto}

/-- On the counting engine a transaction that is handled is executed to its end. -/
lemma Handled.runs (h : Handled crypto .counting .counting tx [] (0 : Uint256)) :
    ∃ r s', txContractExec crypto .counting tx [] (0 : Uint256) = .ok r s' := by
  have hw : Within (fun _ => True) ParseFault (txContractExec crypto .counting tx []) :=
    Within.foldlM tx.vout [] fun out _ refunds => execOutput_counting crypto refunds out
  cases hrun : txContractExec crypto .counting tx [] (0 : Uint256) with
  | ok r s' => exact ⟨r, s', rfl⟩
  | error f s' =>
    rcases hw.error trivial hrun with rfl | ⟨what, rfl⟩
    · exact absurd hrun (h.no_emptyPop s')
    · exact absurd hrun (h.no_throw _ s')

/-- A handled transaction has no malformed contract output. -/
lemma Handled.wellFormed (h : Handled crypto .counting .counting tx [] (0 : Uint256)) {out : CTxOut}
    (hout : out ∈ tx.vout) (hc : out.isContract = true) : WellFormed crypto out.scriptPubKey := by
  by_contra hbad
  obtain ⟨r, s', hrun⟩ := h.runs
  obtain ⟨pre, post, hsplit⟩ := List.append_of_mem hout
  rw [txContractExec, hsplit, List.foldlM_append] at hrun
  obtain ⟨refunds, s1, hpre, _⟩ := bind_ok.mp hrun
  obtain ⟨s2, hstep, hroot⟩ := h.unchanged pre out post hsplit hc hbad refunds s1 hpre
  rw [execOutput, if_pos hc] at hstep
  -- The output was executed, so the root has moved.
  rcases execContract_counting crypto out.scriptPubKey refunds s1 with
    ⟨r', h'⟩ | ⟨f, h', _⟩
  · rw [hstep] at h'
    injection h' with _ hs
    have hmoved : s1 + 1 = s1 := hs.symm.trans hroot
    simp at hmoved
  · rw [hstep] at h'
    cases h'

end Malformed

/-- **`TxContractExec` handles a transaction, whatever the engine and the state, if and only if all
    contract outputs of it are well formed.** -/
theorem txContractExec_handled_iff (crypto : Crypto) (tx : CTransaction) :
    (∀ (E : ContractEngine) (laws : EngineLaws E) (vRefundGasFee : List CTxOut) (s : E.State),
      laws.Valid s → Handled crypto E laws tx vRefundGasFee s) ↔
      ∀ out ∈ tx.vout, out.isContract = true → WellFormed crypto out.scriptPubKey := by
  constructor
  · intro h out hout hc
    exact (h .counting .counting [] (0 : Uint256) trivial).wellFormed hout hc
  · intro h E laws refunds s hs
    have hw : Within laws.Valid Contained (txContractExec crypto E tx refunds) :=
      txContractExec_within laws refunds fun out hout hc => by
        obtain ⟨st, hst, hr⟩ := h out hout hc
        rwa [contractStack, hst]
    refine ⟨fun s' hrun => (hw.error hs hrun).1 rfl,
      fun e s' hrun => (hw.error hs hrun).2 e rfl, ?_⟩
    intro pre out post hsplit hc hbad
    have hout : out ∈ tx.vout := by rw [hsplit]; simp
    exact absurd (h out hout hc) hbad

lemma replicate_size_length (k : HashKind) (_ : Bytes) :
    (List.replicate k.size (0 : UInt8)).length = k.size := List.length_replicate

/-- Hash functions for scripts that do not use any. -/
def Crypto.zeros : Crypto where
  hash := fun k _ => List.replicate k.size 0
  hash_length := replicate_size_length
  checkLowS := fun _ => true

/-- A transaction with one output of the given script. -/
def txWithScript (script : CScript) : CTransaction := ⟨1, [], [⟨0, script⟩], 0⟩

/-- Six small items, then `OP_CREATE` in a branch that is not executed. -/
def skippedCreate : CScript :=
  [OP_1, OP_1, OP_1, OP_1, OP_1, OP_1, OP_0, OP_IF, OP_CREATE, OP_ENDIF]

/-- **A bare `OP_CREATE` makes `ParseStack` pop from the empty stack, a gas price with its sign bit
    set lets an exception escape, and an `OP_CREATE` in a branch that is not executed is carried
    out.** -/
theorem txContractExec_malformed :
    ¬ Handled Crypto.zeros .counting .counting (txWithScript [OP_CREATE]) [] (0 : Uint256) ∧
      txContractExec Crypto.zeros .counting (txWithScript [OP_CREATE]) [] (0 : Uint256)
        = .error (.undefined .emptyVector) (0 : Uint256) ∧
      txContractExec Crypto.zeros .counting
        (txWithScript [OP_1, OP_1, OP_1NEGATE, OP_1, OP_1, OP_CREATE]) [] (0 : Uint256)
        = .error (.thrown (.scriptnumError "Negative gas value.")) (0 : Uint256) ∧
      stateAfter (txContractExec Crypto.zeros .counting (txWithScript skippedCreate) []
        (0 : Uint256)) = (1 : Uint256) := by
  have hpop : txContractExec Crypto.zeros .counting (txWithScript [OP_CREATE]) [] (0 : Uint256)
      = .error (.undefined .emptyVector) (0 : Uint256) := by decide +kernel
  refine ⟨fun h => h.no_emptyPop _ hpop, hpop, ?_, ?_⟩
  · decide +kernel
  · decide +kernel

end Ybtc
