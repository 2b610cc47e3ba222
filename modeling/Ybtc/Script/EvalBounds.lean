import Ybtc.Script.Interpreter

/-!
# Items on the stack are short

Whatever a script does, the items it leaves on the stack are pushes of limited size, encoded
numbers, hashes, or the rest of the script itself.  None of them is longer than a script may be.
The refund output of a contract transaction pushes such an item, and the bound is what makes the
push readable again.
-/

namespace Ybtc

open Stateful List

/-- **No item on either stack is longer than a script may be.** -/
def StackBounded (s : EvalState) : Prop :=
  (∀ vch ∈ s.stack, vch.length ≤ maxScriptSize) ∧ ∀ vch ∈ s.altstack, vch.length ≤ maxScriptSize

/-- A computation of the interpreter that keeps the stacks bounded. -/
abbrev KeepsBounded {α : Type} (Q : α → Prop) (x : Eval α) : Prop := Keeps StackBounded Q x

/-- The same, whatever it returns. -/
def Tidy {α : Type} (x : Eval α) : Prop := KeepsBounded (fun _ => True) x

abbrev ShortItem (vch : Bytes) : Prop := vch.length ≤ maxScriptSize

/-! ## Values that are pushed -/

variable {α β : Type} {e : ScriptError} {env : EvalEnv}

lemma leBytes_length : ∀ fuel n, (leBytes fuel n).length ≤ fuel
  | 0, _ => le_refl _
  | fuel + 1, n => by
    rw [leBytes]
    split_ifs
    · simp
    · rw [length_cons]
      exact Nat.succ_le_succ (leBytes_length fuel (n / 256))

/-- An encoded number has at most nine bytes. -/
lemma serialize_length (n : ℤ) : (serialize n).length ≤ 9 := by
  have h := leBytes_length 8 n.natAbs
  have hlast : ((leBytes 8 n.natAbs).getLast?.map (0x80 ||| ·)).toList.length ≤ 1 := by
    cases (leBytes 8 n.natAbs).getLast? <;> simp
  unfold serialize
  by_cases h1 : signBit (leBytes 8 n.natAbs) = true
  · rw [if_pos h1, length_append, length_singleton]
    omega
  · rw [if_neg h1]
    split_ifs
    · rw [length_append, length_dropLast]
      omega
    · omega

@[grind .] lemma shortItem_serialize (n : ℤ) : ShortItem (serialize n) :=
  le_trans (serialize_length n) (by decide)

@[grind .] lemma shortItem_ofBool (b : Bool) : ShortItem (ofBool b) := by
  cases b <;> decide

@[grind .] lemma shortItem_hash (crypto : Crypto) (kind : HashKind) (vch : Bytes) :
    ShortItem (crypto.hash kind vch) := by
  rw [ShortItem, crypto.hash_length]
  cases kind <;> decide

/-! ## Stack access -/

/-- Behind a check its condition is known to be false. -/
lemma keeps_stopIf {c : Prop} [Decidable c] : KeepsBounded (fun _ => ¬ c) (stopIf c e) := by
  refine Keeps.of_stateAfter (fun s => ?_) (fun s _ a s' h => ?_)
  · unfold stopIf; split_ifs <;> rfl
  · unfold stopIf at h
    split_ifs at h with hc
    exact hc

/-- An item that is read is as short as the bound says. -/
lemma keeps_stackTop {i : ℕ} : KeepsBounded ShortItem (stackTop i) := by
  refine Keeps.of_stateAfter (fun s => ?_) (fun s hs vch s' h => ?_)
  · unfold stackTop; cases s.stack[i]? <;> rfl
  · unfold stackTop at h
    cases hi : s.stack[i]? with
    | none => rw [hi] at h; cases h
    | some v =>
      rw [hi] at h
      cases h
      exact hs.1 _ (mem_of_getElem? hi)

variable {x : Eval α}

@[grind ←] lemma Tidy.bind {f : α → Eval β} (hx : Tidy x) (hf : ∀ a, Tidy (f a)) : Tidy (x >>= f) :=
  Keeps.bind hx fun a _ => hf a

@[grind ←] lemma tidy_pure (a : α) : Tidy (pure a : Eval α) := Keeps.pure trivial

/-- What leaves the state alone. -/
lemma tidy_of_stateAfter (h : ∀ s, stateAfter (x s) = s) : Tidy x :=
  Keeps.of_stateAfter h fun _ _ _ _ _ => trivial

/-- What keeps the bound is enough. -/
lemma tidy_of (h : ∀ s, StackBounded s → StackBounded (stateAfter (x s))) : Tidy x :=
  fun s hs => ⟨h s hs, fun _ _ _ => trivial⟩

@[grind ←] lemma tidy_stopIf (c : Prop) [Decidable c] : Tidy (stopIf c e) :=
  keeps_stopIf.weaken fun _ _ => trivial

variable (n : ℕ)

@[grind ←] lemma tidy_needItems : Tidy (needItems n e) :=
  tidy_of_stateAfter fun s => by unfold needItems; split_ifs <;> rfl

@[grind ←] lemma tidy_stackTop (i : ℕ) : Tidy (stackTop i) :=
  keeps_stackTop.weaken fun _ _ => trivial

@[grind ←] lemma tidy_popStack : Tidy popStack := by
  refine tidy_of fun s hs => ?_
  unfold popStack
  cases h : s.stack with
  | nil => exact hs
  | cons v stack => exact ⟨fun w hw => hs.1 w (h ▸ mem_cons_of_mem v hw), hs.2⟩

@[grind ←] lemma tidy_pushStack {vch : Bytes} (h : ShortItem vch) : Tidy (pushStack vch) :=
  tidy_of fun _ hs => ⟨forall_mem_cons.mpr ⟨h, hs.1⟩, hs.2⟩

@[grind ←] lemma tidy_readNum (vch : Bytes) (n : ℕ) : Tidy (readNum env vch n) :=
  tidy_of_stateAfter fun s => by unfold readNum; cases scriptNum vch env.fRequireMinimal n <;> rfl

@[grind ←] lemma tidy_verifyResult (verify fSuccess : Bool) :
    Tidy (verifyResult verify fSuccess e) := by
  grind [verifyResult]

@[grind ←] lemma tidy_checkEncodings (sig key : Bytes) : Tidy (checkEncodings env sig key) :=
  tidy_of_stateAfter fun s => by
    unfold checkEncodings
    cases (checkSignatureEncoding env sig).or (checkPubKeyEncoding env key) <;> rfl

@[grind ←] lemma tidy_checkSigWith (sigs : List Bytes) (sig key : Bytes) :
    Tidy (checkSigWith env sigs sig key) :=
  tidy_of_stateAfter fun _ => rfl

@[grind ←] lemma tidy_openBranch (fValue : Bool) : Tidy (openBranch fValue) :=
  tidy_of fun _ hs => hs

/-! ## The cases of the switch -/

section Cases

variable (env : EvalEnv)

@[grind ←] lemma popCondition_tidy (negated : Bool) : Tidy (popCondition env negated) :=
  (tidy_needItems 1).bind fun _ => (tidy_stackTop 0).bind fun _ => by grind

lemma evalElse_tidy : Tidy evalElse := by
  refine tidy_of fun s hs => ?_
  unfold evalElse
  cases s.vfExec <;> exact hs

lemma evalEndif_tidy : Tidy evalEndif := by
  refine tidy_of fun s hs => ?_
  unfold evalEndif
  cases s.vfExec <;> exact hs

lemma evalToAltStack_tidy : Tidy evalToAltStack := by
  refine tidy_of fun s hs => ?_
  unfold evalToAltStack
  cases h : s.stack with
  | nil => exact hs
  | cons v stack =>
    have hall := hs.1
    rw [h, forall_mem_cons] at hall
    exact ⟨hall.2, forall_mem_cons.mpr ⟨hall.1, hs.2⟩⟩

lemma evalFromAltStack_tidy : Tidy evalFromAltStack := by
  refine tidy_of fun s hs => ?_
  unfold evalFromAltStack
  cases h : s.altstack with
  | nil => exact hs
  | cons v altstack =>
    have hall := hs.2
    rw [h, forall_mem_cons] at hall
    exact ⟨forall_mem_cons.mpr ⟨hall.1, hs.1⟩, hall.2⟩

/-- Moving items around invents none. -/
lemma evalShuffle_tidy (items : List ℕ) : Tidy (evalShuffle n items) := by
  refine tidy_of fun s hs => ?_
  unfold evalShuffle
  split_ifs
  · exact hs
  · refine ⟨?_, hs.2⟩
    intro v hv
    rcases mem_append.mp hv with hv | hv
    · obtain ⟨i, _, hi⟩ := mem_filterMap.mp hv
      exact hs.1 v (mem_of_getElem? hi)
    · exact hs.1 v (mem_of_mem_drop hv)

/-- The item that is copied was on the stack. -/
lemma evalIfDup_tidy : Tidy evalIfDup :=
  (tidy_needItems 1).bind fun _ => keeps_stackTop.bind fun _ hv =>
    Keeps.ite (fun _ => tidy_pushStack hv) fun _ => tidy_pure ()

@[grind ←] lemma pickItem_tidy (roll : Bool) (n : ℤ) : Tidy (pickItem roll n) := by
  refine tidy_of fun s hs => ?_
  unfold pickItem
  by_cases hn : n < 0 ∨ (s.stack.length : ℤ) ≤ n
  · rw [if_pos hn]; exact hs
  · rw [if_neg hn]
    cases hi : s.stack[n.toNat]? with
    | none => exact hs
    | some v =>
      have hv : ShortItem v := hs.1 v (mem_of_getElem? hi)
      cases roll with
      | false => exact (tidy_pushStack hv s hs).1
      | true =>
        refine (tidy_pushStack hv _ ?_).1
        exact ⟨fun w hw => hs.1 w (mem_of_mem_eraseIdx hw), hs.2⟩

@[grind ←] lemma multiSigLoop_tidy (allSigs : List Bytes) : ∀ keys sigs : List Bytes,
    Tidy (multiSigLoop env allSigs sigs keys)
  | _, [] | [], _ :: _ => by rw [multiSigLoop]; exact tidy_pure _
  | key :: keys, sig :: sigs => by
    have hrest := multiSigLoop_tidy allSigs keys
    grind [multiSigLoop]

@[grind ←] lemma cleanUpArgs_tidy (fSuccess : Bool) (i ikey2 : ℕ) :
    Tidy (cleanUpArgs env fSuccess i ikey2) := by
  induction i generalizing ikey2 with
  | zero => exact tidy_pure ()
  | succ i ih => grind [cleanUpArgs]

@[grind ←] lemma countOps_tidy : Tidy (countOps n) := by
  refine tidy_of fun s hs => ?_
  unfold countOps
  split_ifs <;> exact hs

@[grind ←] lemma stackItems_tidy (start n : ℕ) : Tidy (stackItems start n) :=
  tidy_of_stateAfter fun _ => rfl

lemma evalCheckMultiSig_tidy (verify : Bool) : Tidy (evalCheckMultiSig env verify) := by
  unfold evalCheckMultiSig
  iterate 16
    refine Tidy.bind (by grind) fun _ => ?_
  grind

/-- **Every instruction keeps the stacks bounded.** -/
lemma evalInstr_tidy (fExec : Bool) {rest : Bytes} (h : rest.length < maxScriptSize)
    (instr : Instr) : Tidy (evalInstr env fExec rest instr) := by
  unfold evalInstr
  cases instr with
  | checkLockTimeVerify => grind [evalCheckLockTime]
  | checkSequenceVerify => grind [evalCheckSequence]
  | conditional negated => grind [evalConditional]
  | otherwise => exact evalElse_tidy
  | endif => exact evalEndif_tidy
  | verify => grind [evalVerify]
  | toAltStack => exact evalToAltStack_tidy
  | fromAltStack => exact evalFromAltStack_tidy
  | shuffle n items => exact evalShuffle_tidy n items
  | ifDup => exact evalIfDup_tidy
  | depth => exact fun s hs => tidy_pushStack (shortItem_serialize s.stack.length) s hs
  | pick roll => grind [evalPick]
  | size => grind [evalSize]
  | equal verify =>
    iterate 5 refine Tidy.bind (by grind) fun _ => ?_
    grind
  | unary op => grind [evalUnary]
  | binary op =>
    iterate 5 refine Tidy.bind (by grind) fun _ => ?_
    grind
  | within =>
    iterate 5 refine Tidy.bind (by grind) fun _ => ?_
    grind
  | hash kind => grind [evalHash]
  | codeSeparator => exact tidy_of fun _ hs => hs
  | checkSig verify =>
    iterate 5 refine Tidy.bind (by grind) fun _ => ?_
    grind
  | checkMultiSig verify => exact evalCheckMultiSig_tidy env verify
  | contract opcode => exact tidy_of fun _ hs => ⟨forall_mem_cons.mpr ⟨h, hs.1⟩, hs.2⟩
  | _ => grind

/-! ## The loop -/

@[grind ←] lemma checkStackSize_tidy : Tidy checkStackSize :=
  tidy_of_stateAfter fun s => by unfold checkStackSize; split_ifs <;> rfl

/-- A push is limited by the check before it, the rest of the script by the script. -/
@[grind ←] lemma dispatch_tidy {op : ScriptOp} (hvch : op.vch.length ≤ maxScriptElementSize)
    (hrest : op.rest.length < maxScriptSize) (fExec : Bool) : Tidy (dispatch env op fExec) := by
  have hshort : ShortItem op.vch := le_trans hvch (by decide)
  have hinstr := evalInstr_tidy env fExec hrest (instrOf op.opcode)
  grind [dispatch, evalPush]

/-- **Every turn of the loop keeps the stacks bounded.** -/
lemma evalStep_tidy {op : ScriptOp} (hrest : op.rest.length < maxScriptSize) :
    Tidy (evalStep env op) := by
  have hexec : Tidy executing := tidy_of_stateAfter fun _ => rfl
  refine hexec.bind fun fExec => keeps_stopIf.bind fun _ hsize => ?_
  have hdispatch := dispatch_tidy env (not_lt.mp hsize) hrest fExec
  exact Tidy.bind (by grind [countOp]) fun _ => by grind

/-- **The whole loop keeps the stacks bounded**, whether it returns or fails. -/
lemma evalLoop_tidy (atEnd : Bool) (ops : List ScriptOp)
    (h : ∀ op ∈ ops, op.rest.length < maxScriptSize) : Tidy (evalLoop env atEnd ops) := by
  induction ops with
  | nil => exact tidy_stopIf _
  | cons op ops ih =>
    rw [forall_mem_cons] at h
    exact (evalStep_tidy env h.1).bind fun _ => ih h.2

end Cases

/-- Behind every instruction of a script there is less than the script. -/
lemma rest_length_of_mem_scan (s : CScript) : ∀ op ∈ (scan s).1, op.rest.length < s.length := by
  induction hn : s.length using Nat.strong_induction_on generalizing s with
  | _ n ih =>
    subst hn
    intro op hop
    rw [scan_eq] at hop
    cases hget : getOp s with
    | none => rw [hget] at hop; cases hop
    | some op1 =>
      rw [hget] at hop
      have hlt := getOp_length hget
      rcases mem_cons.mp hop with rfl | hop
      · exact hlt
      · exact lt_trans (ih op1.rest.length hlt op1.rest rfl op hop) hlt

/-- **Every item `EvalScript` leaves on the stack is short**, whether it succeeds or fails. -/
theorem evalScript_stackBounded (env : EvalEnv) (script : CScript) :
    ∀ vch ∈ (stateAfter (evalScript env [] script)).stack, vch.length ≤ maxScriptSize := by
  have hbody : Tidy (evalBody env script) := by
    refine keeps_stopIf.bind fun _ hsize => ?_
    refine Tidy.bind (evalLoop_tidy env _ (scan script).1 fun op hop => ?_) fun _ => ?_
    · exact lt_of_lt_of_le (rest_length_of_mem_scan script op hop) (not_lt.mp hsize)
    · exact tidy_of_stateAfter fun s => by unfold checkBalanced; split_ifs <;> rfl
  exact (hbody _ ⟨by simp, by simp⟩).1.1

end Ybtc
