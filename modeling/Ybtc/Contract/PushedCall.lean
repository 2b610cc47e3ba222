import Ybtc.Contract.Malformed
import Ybtc.Script.Push

/-!
# Contract scripts the node builds itself

Such a script pushes its fields one by one and ends with the opcode.  Its evaluation stops there,
and the stack it leaves are the fields, the last one on top, under the opcode.  The main result is
`contractStack_pushed`.
-/

namespace Ybtc

open Stateful List

/-- The fields one after the other, and the opcode. -/
def pushedScript (fields : List Bytes) (op : UInt8) : CScript := fields.foldl pushBytes [] ++ [op]

/-- The pushes of the fields. -/
def pushes (fields : List Bytes) : Bytes := (fields.map (pushBytes [])).flatten

lemma foldl_pushBytes : ∀ (fields : List Bytes) (s : CScript),
    fields.foldl pushBytes s = s ++ pushes fields
  | [], s => by simp [pushes]
  | b :: fields, s => by
    rw [foldl_cons, foldl_pushBytes fields, pushBytes_eq s b]
    simp [pushes]

lemma pushedScript_eq (fields : List Bytes) (op : UInt8) :
    pushedScript fields op = pushes fields ++ [op] := by
  rw [pushedScript, foldl_pushBytes, nil_append]

/-! ## One instruction -/

variable {env : EvalEnv} {st : EvalState}

/-- A push, where everything is executed and the stack has room. -/
lemma evalStep_push {op : ScriptOp} (hop : op.opcode ≤ OP_PUSHDATA4)
    (hlen : op.vch.length ≤ maxScriptElementSize) (hmin : env.fRequireMinimal = false)
    (hexec : st.vfExec = []) (hroom : st.stack.length + st.altstack.length < maxStackSize) :
    evalStep env op st = .ok () { st with stack := op.vch :: st.stack } := by
  have h16 : op.opcode ≤ OP_16 := UInt8.le_trans hop (by decide)
  have hdis : op.opcode ∉ disabledOpcodes := by
    intro hmem
    have hall : disabledOpcodes.all (fun d => !decide (d ≤ OP_PUSHDATA4)) = true := by rfl
    have hnot := all_eq_true.mp hall _ hmem
    rw [decide_eq_true hop] at hnot
    cases hnot
  have hfull : ¬ maxStackSize < (op.vch :: st.stack).length + st.altstack.length := by
    rw [length_cons]
    omega
  have hall : executing st = .ok true st := by simp [executing, hexec]
  unfold evalStep
  refine (bind_of_ok hall).trans ((bind_of_ok (stopIf_neg (not_lt.mpr hlen))).trans ?_)
  refine (bind_of_ok (congrFun (if_pos h16) st)).trans ((bind_of_ok (stopIf_neg hdis)).trans ?_)
  have hpush : dispatch env op true st = .ok () { st with stack := op.vch :: st.stack } := by
    refine (congrFun (if_pos ⟨rfl, hop⟩) st).trans ((bind_of_ok (stopIf_neg ?_)).trans rfl)
    simp [hmin]
  exact (bind_of_ok hpush).trans (if_neg hfull)

variable {op : UInt8}

/-- The opcode of a contract ends the evaluation. -/
lemma evalStep_contract (hop : op = OP_CREATE ∨ op = OP_CALL) (rest : Bytes)
    (hexec : st.vfExec = []) (hcount : st.nOpCount < maxOpsPerScript) :
    evalStep env ⟨op, [], rest⟩ st = .error (.contract op)
      { st with nOpCount := st.nOpCount + 1, stack := (op :: rest) :: st.stack } := by
  have hall : executing st = .ok true st := by simp [executing, hexec]
  have hcount' : countOp op st = .ok () { st with nOpCount := st.nOpCount + 1 } := by
    have hgt : ¬ op ≤ OP_16 := by rcases hop with rfl | rfl <;> decide
    exact (congrFun (if_neg hgt) st).trans (if_neg (by omega))
  have hdis : op ∉ disabledOpcodes := by rcases hop with rfl | rfl <;> decide
  have hinstr : instrOf op = .contract op := by rcases hop with rfl | rfl <;> decide
  have hswitch : ∀ st : EvalState, dispatch env ⟨op, [], rest⟩ true st =
      .error (.contract op) { st with stack := (op :: rest) :: st.stack } := by
    intro st
    have hpush : ¬ (true = true ∧ op ≤ OP_PUSHDATA4) := by rcases hop with rfl | rfl <;> decide
    refine (congrFun (if_neg hpush) st).trans ((congrFun (if_pos (Or.inl rfl)) st).trans ?_)
    rw [hinstr]
    rfl
  unfold evalStep
  refine (bind_of_ok hall).trans ((bind_of_ok (stopIf_neg (by simp))).trans ?_)
  refine (bind_of_ok hcount').trans ((bind_of_ok (stopIf_neg hdis)).trans ?_)
  exact bind_of_error (hswitch _)

/-! ## The script -/

/-- The pushes at the beginning of a script are performed, and the rest follows. -/
lemma evalLoop_pushes (hmin : env.fRequireMinimal = false) (atEnd : Bool) (rest : Bytes) :
    ∀ (fields : List Bytes) (st : EvalState), (∀ b ∈ fields, b.length ≤ maxScriptElementSize) →
      st.vfExec = [] → st.stack.length + st.altstack.length + fields.length ≤ maxStackSize →
      evalLoop env atEnd (scan (pushes fields ++ rest)).1 st =
        evalLoop env atEnd (scan rest).1 { st with stack := fields.reverse ++ st.stack }
  | [], st, _, _, _ => rfl
  | b :: fields, st, hlen, hexec, hroom => by
    rw [length_cons] at hroom
    have hb : b.length ≤ maxScriptElementSize := hlen b mem_cons_self
    obtain ⟨opcode, hop, hget⟩ := getOp_pushBytes (b := b) (pushes fields ++ rest)
      (lt_of_le_of_lt hb (by decide))
    have hscript : pushes (b :: fields) ++ rest = pushBytes [] b ++ (pushes fields ++ rest) := by
      simp [pushes]
    have hscan : (scan (pushes (b :: fields) ++ rest)).1 =
        ⟨opcode, b, pushes fields ++ rest⟩ :: (scan (pushes fields ++ rest)).1 := by
      rw [hscript, scan_eq, hget]
    rw [hscan, evalLoop]
    refine (bind_of_ok (evalStep_push hop hb hmin hexec (by omega))).trans ?_
    refine (evalLoop_pushes hmin atEnd rest fields { st with stack := b :: st.stack }
      (fun b' hb' => hlen b' (mem_cons_of_mem b hb')) hexec
      (show (b :: st.stack).length + st.altstack.length + fields.length ≤ maxStackSize by
        rw [length_cons]; omega)).trans ?_
    simp

variable {fields : List Bytes} (crypto : Crypto)

/-- **The fields come back**, the last one on top, under the opcode. -/
lemma contractStack_pushed (hop : op = OP_CREATE ∨ op = OP_CALL)
    (hlen : ∀ b ∈ fields, b.length ≤ maxScriptElementSize) (hcount : fields.length ≤ maxStackSize)
    (hsize : (pushedScript fields op).length ≤ maxScriptSize) :
    contractStack crypto (pushedScript fields op) = [op] :: fields.reverse := by
  have hmin : (contractEnv crypto).fRequireMinimal = false := by
    show scriptExecByteCode.testBit verifyMinimalData = false
    decide
  have hget : getOp [op] = some ⟨op, [], []⟩ := by rcases hop with rfl | rfl <;> decide
  have hscan : (scan [op]).1 = [⟨op, [], []⟩] := by
    rw [scan_eq, hget]
    rfl
  have hloop : ∀ atEnd st, st = (⟨[], [], [], 0, pushedScript fields op⟩ : EvalState) →
      evalLoop (contractEnv crypto) atEnd (scan (pushedScript fields op)).1 st =
        .error (.contract op)
        { st with nOpCount := 1, stack := [op] :: fields.reverse } := by
    rintro atEnd st rfl
    rw [pushedScript_eq, evalLoop_pushes hmin atEnd [op] fields _ hlen rfl (by simpa using hcount),
      hscan, evalLoop]
    refine (bind_of_error
      (evalStep_contract hop [] rfl (show 0 < maxOpsPerScript by decide))).trans ?_
    simp
  have hend : evalContractScript crypto (pushedScript fields op) = .error (.contract op)
      ⟨[op] :: fields.reverse, [], [], 1, pushedScript fields op⟩ := by
    refine (bind_of_ok (stopIf_neg (not_lt.mpr hsize))).trans ?_
    exact bind_of_error (hloop _ _ rfl)
  rw [contractStack, hend]
  rfl

/-- Neither opcode is found in a push. -/
lemma find_pushedScript {op' : UInt8} (hop : OP_PUSHDATA4 < op)
    (hop' : OP_PUSHDATA4 < op') (hlen : ∀ b ∈ fields, b.length < 2 ^ 32) :
    find (pushedScript fields op) op' = if op = op' then 1 else 0 := by
  have hpushes : ∀ (fields : List Bytes), (∀ b ∈ fields, b.length < 2 ^ 32) →
      find (pushes fields ++ [op]) op' = find [op] op' := by
    intro fields
    induction fields with
    | nil => exact fun _ => rfl
    | cons b fields ih =>
      intro h
      have hscript : pushes (b :: fields) ++ [op] = pushBytes [] b ++ (pushes fields ++ [op]) := by
        simp [pushes]
      rw [hscript, find_push (h b mem_cons_self) _ hop',
        ih fun b' hb' => h b' (mem_cons_of_mem b hb')]
  rw [pushedScript_eq, hpushes fields hlen, find_op hop, find_nil, Nat.add_zero]

/-! ## Sizes -/

lemma pushBytes_length_le (b : Bytes) : (pushBytes [] b).length ≤ b.length + 5 := by
  unfold pushBytes
  split_ifs <;> simp <;> omega

lemma pushes_length_le : ∀ fields : List Bytes,
    (pushes fields).length ≤ (fields.map fun b => b.length + 5).sum
  | [] => le_refl _
  | b :: fields => by
    have hb := pushBytes_length_le b
    have ih := pushes_length_le fields
    simp only [pushes, map_cons, flatten_cons, length_append, sum_cons] at ih ⊢
    omega

/-- Addresses and numbers leave room for the longest item there may be. -/
lemma fits_around {before after : List Bytes} {data : Bytes}
    (hdata : data.length ≤ maxScriptElementSize) (hshort : ∀ b ∈ before ++ after, b.length ≤ 20)
    (hcount : (before ++ after).length ≤ 30) (op : UInt8) :
    (∀ b ∈ before ++ data :: after, b.length ≤ maxScriptElementSize) ∧
      (pushedScript (before ++ data :: after) op).length ≤ maxScriptSize := by
  have hmax : maxScriptElementSize = 128000 ∧ maxScriptSize = 129000 := ⟨rfl, rfl⟩
  constructor
  · intro b hb
    rcases mem_cons.mp (perm_middle.subset hb) with rfl | hb
    · exact hdata
    · have := hshort b hb
      omega
  · have hrest : ((before ++ after).map fun b => b.length + 5).sum ≤ 30 * 25 := by
      refine le_trans (sum_le_card_nsmul _ 25 ?_) ?_
      · intro n hn
        obtain ⟨b, hb, rfl⟩ := mem_map.mp hn
        exact Nat.add_le_add_right (hshort b hb) 5
      · rw [length_map, smul_eq_mul]
        exact Nat.mul_le_mul_right 25 hcount
    have hsum : ((before ++ data :: after).map fun b => b.length + 5).sum
        = data.length + 5 + ((before ++ after).map fun b => b.length + 5).sum :=
      ((perm_middle.map _).sum_eq).trans (by simp)
    have hpushes := pushes_length_le (before ++ data :: after)
    rw [pushedScript_eq, length_append, length_singleton]
    omega

/-- **A script whose fields fit is read back**: its kind is that of the opcode, the fields are on
    the stack, and an output that carries it is a contract output. -/
lemma pushedScript_reads {before after : List Bytes} {data : Bytes}
    (hop : op = OP_CREATE ∨ op = OP_CALL) (hdata : data.length ≤ maxScriptElementSize)
    (hshort : ∀ b ∈ before ++ after, b.length ≤ 20) (hcount : (before ++ after).length ≤ 30)
    (nValue : CAmount) :
    contractFlag (pushedScript (before ++ data :: after) op)
        = (if op = OP_CREATE then .isCreate else .isMessageCall) ∧
      contractStack crypto (pushedScript (before ++ data :: after) op)
        = [op] :: (before ++ data :: after).reverse ∧
      (⟨nValue, pushedScript (before ++ data :: after) op⟩ : CTxOut).isContract = true := by
  obtain ⟨hlen, hsize⟩ := fits_around hdata hshort hcount op
  have hfind : ∀ op', OP_PUSHDATA4 < op' →
      find (pushedScript (before ++ data :: after) op) op' = if op = op' then 1 else 0 :=
    fun op' hop' => find_pushedScript (by rcases hop with rfl | rfl <;> decide) hop'
      fun b hb => lt_of_le_of_lt (hlen b hb) (by decide)
  have hroom : (before ++ data :: after).length ≤ maxStackSize := by
    rw [perm_middle.length_eq, length_cons]
    exact le_trans (Nat.succ_le_succ hcount) (by decide)
  refine ⟨?_, contractStack_pushed crypto hop hlen hroom hsize, ?_⟩
  · rw [contractFlag, hasOpCreate, hfind OP_CREATE (by decide)]
    rcases hop with rfl | rfl <;> rfl
  · rw [CTxOut.isContract, hasOpCreate, hasOpCall, hfind OP_CREATE (by decide),
      hfind OP_CALL (by decide)]
    rcases hop with rfl | rfl <;> rfl

end Ybtc
