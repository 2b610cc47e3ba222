import Ybtc.Evm.Built

/-!
# The optimiser preserves the meaning of a program

The program that the optimiser has rewritten is compared with the original one, run by a machine
that knows neither the pool nor the unchecked jumps.
-/

namespace Ybtc

open Stateful List Instruction

namespace VM

/-! ## The plain machine -/

section Plain

variable (env : StateEnv)

/-- An instruction of the original program. -/
def plainOp (vm : VM) : Instruction := .ofByte (banned (vm.code.getD vm.pc 0))

/-- The instruction is fetched from the original program. -/
def fetchPlain : VmM (Instruction × ℕ) := do
  let b ← fun vm => codeByte vm.pc vm
  checkStack (instructionInfo (.ofByte (banned b))).args (instructionInfo (.ofByte (banned b))).ret
  let runGas ← tierGas (instructionInfo (.ofByte (banned b))).gasPriceTier
  pure (.ofByte (banned b), runGas)

/-- One turn of the loop. -/
def stepPlain : VmM (Option Bytes) := do
  let fetched ← fetchPlain
  execute env .source fetched.1 fetched.2

/-- The loop, for a number of turns. -/
def runPlain : ℕ → VmM Bytes
  | 0 => throw .endless
  | turns + 1 => do
    let out ← stepPlain env
    haltOr (runPlain turns) out

/-- The machine on the original program, without a pool. -/
def twin (prog : Bytes) : VM → VM := withCode (copyCode prog) fun _ => none

/-- `exec` on the original program. -/
def execPlain (gas : U256) (ctx : ExtVM) : ScM Outcome := fun s =>
  match runPlain env (wrap64 gas.toNat + 1) (twin ctx.code (initial gas ctx s)) with
  | .ok out vm => .ok ⟨out, BitVec.ofNat 256 vm.ioGas, vm.sub⟩ vm.state
  | .error e vm => .error e.toFault vm.state

end Plain

/-! ## Fetching and executing -/

section Fetch

variable (env : StateEnv)

/-- An instruction with the checks before it. -/
def executeAs (op : Instruction) : VmM (Option Bytes) := do
  checkStack (instructionInfo op).args (instructionInfo op).ret
  let runGas ← tierGas (instructionInfo op).gasPriceTier
  execute env .source op runGas

variable {env} {vm : VM} {op : Instruction} {g : ℕ}

lemma executeAs_eq (op : Instruction) : executeAs env op = ((checkStack (instructionInfo op).args
    (instructionInfo op).ret >>= fun _ => tierGas (instructionInfo op).gasPriceTier >>=
      fun g => pure (op, g)) >>= fun fetched => execute env .source fetched.1 fetched.2) := by
  simp only [executeAs, bind_assoc, pure_bind]

lemma step_eq (h : vm.pc < vm.code.length) : step env .source vm = executeAs env vm.opAt vm := by
  rw [step, executeAs_eq, bind_apply, fetchInstruction_apply h]
  rfl

lemma stepPlain_eq (h : vm.pc < vm.code.length) :
    stepPlain env vm = executeAs env vm.plainOp vm := by
  have hfetch : fetchPlain vm = (checkStack (instructionInfo vm.plainOp).args
      (instructionInfo vm.plainOp).ret >>= fun _ =>
        tierGas (instructionInfo vm.plainOp).gasPriceTier >>=
        fun g => pure (vm.plainOp, g)) vm := bind_of_ok (codeByte_of_lt h)
  rw [stepPlain, executeAs_eq, bind_apply, hfetch]
  rfl

lemma unaware_executeAs (hno : ¬ Pushes op) : Unaware (executeAs env op) := by
  have hbuilt : Built (Pushes op) (Calls op) (executeAs env op) :=
    .bind (.checkStack _ _) fun _ => .bind (tierGas_built _) fun g => execute_built env .source op g
  rw [eq_false hno] at hbuilt
  exact hbuilt.unaware

/-- The stack has what the instruction takes, and room for what it leaves. -/
def FitsFor (op : Instruction) (n : ℕ) : Prop :=
  (instructionInfo op).args ≤ n ∧ n - (instructionInfo op).args + (instructionInfo op).ret ≤ 1024

instance (op : Instruction) (n : ℕ) : Decidable (FitsFor op n) :=
  inferInstanceAs (Decidable (_ ∧ _))

lemma fitsFor_congr {op' : Instruction} {n : ℕ} (h : instructionInfo op = instructionInfo op') :
    FitsFor op n ↔ FitsFor op' n := by
  rw [FitsFor, FitsFor, h]

lemma executeAs_fits (hf : FitsFor op vm.stack.length)
    (hg : tierStepGas (instructionInfo op).gasPriceTier = some g) :
    executeAs env op vm = execute env .source op g vm := by
  have hcheck : checkStack (instructionInfo op).args (instructionInfo op).ret vm = .ok () vm := by
    unfold FitsFor at hf
    unfold checkStack
    rw [if_neg (by omega)]
  have htier : tierGas (instructionInfo op).gasPriceTier vm = .ok g vm := by
    unfold tierGas
    rw [hg]
    rfl
  rw [executeAs, bind_of_ok hcheck, bind_of_ok htier]

lemma executeAs_not_fits (hf : ¬ FitsFor op vm.stack.length) :
    executeAs env op vm = .error (.fault (rangeError "Bad Stack")) vm := by
  have hcheck : checkStack (instructionInfo op).args (instructionInfo op).ret vm =
      .error (.fault (rangeError "Bad Stack")) vm := by
    unfold FitsFor at hf
    unfold checkStack
    rw [if_pos (by omega)]
    rfl
  rw [executeAs, bind_of_error hcheck]

/-- Two instructions with the same entry in the table that do the same. -/
lemma executeAs_congr {op' : Instruction} (hinfo : instructionInfo op = instructionInfo op')
    (h : FitsFor op vm.stack.length → ∀ g, tierStepGas (instructionInfo op).gasPriceTier = some g →
      execute env .source op g vm = execute env .source op' g vm)
    (htier : tierStepGas (instructionInfo op).gasPriceTier ≠ none) :
    executeAs env op vm = executeAs env op' vm := by
  obtain ⟨g, hg⟩ := Option.ne_none_iff_exists'.mp htier
  have hiff := fitsFor_congr (n := vm.stack.length) hinfo
  by_cases hf : FitsFor op vm.stack.length
  · rw [executeAs_fits hf hg, executeAs_fits (hiff.mp hf) (hinfo ▸ hg), h hf g hg]
  · rw [executeAs_not_fits hf, executeAs_not_fits (mt hiff.mpr hf)]

end Fetch

/-! ## What the new instructions stand for -/

section StandFor

variable {env : StateEnv} {vm : VM}

/-- A value is pushed, and the machine goes on at a place. -/
def pushThen (v : U256) (pc g : ℕ) : VmM (Option Bytes) := do
  updateIOGas g
  push v
  setPC pc
  pure none

lemma unaware_pushThen (v : U256) (pc g : ℕ) : Unaware (pushThen v pc g) :=
  have hbuilt : Built False False (pushThen v pc g) := .bind (.updateIOGas g) fun _ =>
    .bind (.push v) fun _ => .bind (.setPC pc) fun _ => .pure none
  hbuilt.unaware

lemma updateIOGas_bind_congr {g : ℕ} {x y : Unit → VmM (Option Bytes)}
    (h : ∀ gas, x () { vm with ioGas := gas } = y () { vm with ioGas := gas }) :
    (updateIOGas g >>= x) vm = (updateIOGas g >>= y) vm := by
  rw [bind_apply, bind_apply]
  unfold updateIOGas
  split_ifs
  · rfl
  · exact h _

lemma execPush_eq {n g : ℕ} (h : vm.pc + 1 + n ≤ vm.code.length) :
    execPush n g vm = pushThen (pushValue vm.code vm.pc n) (vm.pc + n + 1) g vm := by
  refine updateIOGas_bind_congr fun gas => ?_
  exact bind_of_ok (if_pos h)

lemma execPushc_eq {v : U256} {g : ℕ} (hlen : vm.pc + 2 < vm.code.length)
    (hp : vm.pool (vm.code.getD (vm.pc + 1) 0).toNat = some v) :
    execPushc g vm = pushThen v (vm.pc + 2 + (vm.code.getD (vm.pc + 2) 0).toNat) g vm := by
  refine updateIOGas_bind_congr fun gas => ?_
  have hindex : codeByte (vm.pc + 1) { vm with ioGas := gas } =
      .ok (vm.code.getD (vm.pc + 1) 0) { vm with ioGas := gas } :=
    @codeByte_of_lt { vm with ioGas := gas } _ (by dsimp only; omega)
  refine (bind_of_ok hindex).trans ?_
  have hskip : codeByte (vm.pc + 2) { vm with ioGas := gas, stack := v :: vm.stack } =
      .ok (vm.code.getD (vm.pc + 2) 0) { vm with ioGas := gas, stack := v :: vm.stack } :=
    @codeByte_of_lt { vm with ioGas := gas, stack := v :: vm.stack } _ hlen
  dsimp only
  rw [hp]
  exact bind_of_ok hskip

variable {dest : U256}

/-- A jump to a destination need not be checked. -/
lemma execJump_eq {st : List U256} {g : ℕ} (hst : vm.stack = dest :: st)
    (hd : isJumpDest vm.jumpDests dest = true) : execJump g vm = execJumpc g vm := by
  refine updateIOGas_bind_congr fun gas => ?_
  refine .trans (.trans (bind_of_ok (peek_ok hst)) (.trans (bind_of_ok (verifyJumpDest_ok.mpr hd))
    (.trans (bind_of_ok rfl) (bind_of_ok (pop_ok hst)))))
      (.symm (.trans (bind_of_ok (pop_ok hst)) ?_))
  rw [wrap64_of_isJumpDest hd]
  rfl

lemma execJumpi_eq {cond : U256} {st : List U256} {g : ℕ} (hst : vm.stack = dest :: cond :: st)
    (hd : isJumpDest vm.jumpDests dest = true) : execJumpi g vm = execJumpci g vm := by
  refine updateIOGas_bind_congr fun gas => peek_congr hst (peek_congr (by rw [hst]; rfl) ?_)
  have hbranch : branchTo (verifyJumpDest dest) cond { vm with ioGas := gas } =
      branchTo (pure (wrap64 dest.toNat)) cond { vm with ioGas := gas } := by
    unfold branchTo
    split_ifs
    · rfl
    · rw [bind_of_ok
          (show verifyJumpDest dest { vm with ioGas := gas } = _ from verifyJumpDest_ok.mpr hd),
        wrap64_of_isJumpDest hd]
      rfl
  rw [bind_apply, bind_apply, hbranch]

end StandFor

/-! ## Agreement -/

/-- **Two runs agree**: both fail, and not because a loop did not end, or both return the same, and
    the machines differ only in their program. -/
def Agree {α : Type} (prog : Bytes) :
    EStateM.Result VmFault VM α → EStateM.Result VmFault VM α → Prop
  | .ok a vm, .ok b vm' => a = b ∧ vm' = twin prog vm
  | .error e _, .error e' _ => e ≠ .endless ∧ e' ≠ .endless
  | .ok _ _, .error _ _ => False
  | .error _ _, .ok _ _ => False

section Agree

variable {env : StateEnv} {prog : Bytes} {vm : VM} {α : Type}

lemma Agree.of_mapState {r : EStateM.Result VmFault VM α}
    (h : ∀ e s, r = .error e s → e ≠ .endless) : Agree prog r (mapState (twin prog) r) := by
  cases r with
  | ok a s => exact ⟨rfl, rfl⟩
  | error e s => exact ⟨h e s rfl, h e s rfl⟩

lemma Agree.cases {r r' : EStateM.Result VmFault VM α} (h : Agree prog r r') :
    (∃ a vm, r = .ok a vm ∧ r' = .ok a (twin prog vm)) ∨ ∃ e vm e' vm',
      r = .error e vm ∧ r' = .error e' vm' ∧ e ≠ .endless ∧ e' ≠ .endless := by
  cases r with
  | ok a vm =>
    cases r' with
    | ok b vm' =>
      obtain ⟨rfl, rfl⟩ := h
      exact Or.inl ⟨a, vm, rfl, rfl⟩
    | error e' vm' => exact h.elim
  | error e vm =>
    cases r' with
    | ok b vm' => exact h.elim
    | error e' vm' => exact Or.inr ⟨e, vm, e', vm', rfl, rfl, h⟩

/-- A step does not run for ever. -/
lemma OnTrack.step_ne_endless (h : OnTrack prog vm) {e : VmFault} {vm' : VM}
    (herr : step env .source vm = .error e vm') : e ≠ .endless := by
  by_cases hg : vm.Guarded
  · obtain ⟨f, rfl⟩ := (step_spec h hg).error rfl herr
    exact VmFault.noConfusion
  · obtain ⟨r, vm1, -, hout⟩ := step_outside env h hg
    rw [hout] at herr
    cases herr
    exact VmFault.noConfusion

lemma twin_pc_lt (h : OnTrack prog vm) : (twin prog vm).pc < (twin prog vm).code.length := by
  have := h.pc_lt
  rw [h.code, optimize_length] at this
  change vm.pc < (copyCode prog).length
  rw [copyCode_length]
  exact this

/-- An instruction that does not look at the program. -/
lemma OnTrack.agree_of_unaware (h : OnTrack prog vm) (hno : ¬ Pushes vm.opAt)
    (heq : executeAs env (twin prog vm).plainOp (twin prog vm) =
      executeAs env vm.opAt (twin prog vm)) :
    Agree prog (step env .source vm) (stepPlain env (twin prog vm)) := by
  rw [stepPlain_eq (twin_pc_lt h), heq, twin, unaware_executeAs hno _ _ vm, step_eq h.pc_lt]
  refine Agree.of_mapState fun e s herr => ?_
  rw [← step_eq h.pc_lt] at herr
  exact h.step_ne_endless herr

/-- A push of either kind. -/
lemma OnTrack.agree_of_pushThen (h : OnTrack prog vm) {v : U256} {pc n : ℕ}
    (hopt : ∀ g, execute env .source vm.opAt g vm = pushThen v pc g vm)
    (hinfo : instructionInfo vm.opAt = ⟨.veryLow, 0, 1⟩) (hplain : (twin prog vm).plainOp = .push n)
    (htwin : ∀ g, execPush n g (twin prog vm) = pushThen v pc g (twin prog vm)) :
    Agree prog (step env .source vm) (stepPlain env (twin prog vm)) := by
  have hstep : step env .source vm = executeAs env vm.opAt vm := step_eq h.pc_lt
  rw [stepPlain_eq (twin_pc_lt h), hplain, hstep]
  have hiff : FitsFor vm.opAt vm.stack.length ↔ FitsFor (.push n) (twin prog vm).stack.length :=
    fitsFor_congr hinfo
  by_cases hf : FitsFor vm.opAt vm.stack.length
  · have hg : tierStepGas (instructionInfo vm.opAt).gasPriceTier = some 3 := by rw [hinfo]; rfl
    have hright : executeAs env (.push n) (twin prog vm) = pushThen v pc 3 (twin prog vm) :=
      (executeAs_fits (hiff.mp hf) rfl).trans (htwin 3)
    rw [executeAs_fits hf hg, hopt 3] at hstep ⊢
    rw [hright, twin, unaware_pushThen v pc 3 _ _ vm]
    exact Agree.of_mapState fun e s herr => h.step_ne_endless (hstep.trans herr)
  · rw [executeAs_not_fits hf, executeAs_not_fits (mt hiff.mpr hf)]
    exact ⟨VmFault.noConfusion, VmFault.noConfusion⟩

lemma banned_of_pushWidth : ∀ {b : UInt8}, pushWidth b ≠ 0 → banned b = b := by decide +kernel

/-- The plain machine reads a push as it is. -/
lemma plainOp_push (hw : widthAt (copyCode prog) vm.pc ≠ 0) :
    (twin prog vm).plainOp = .push (widthAt (copyCode prog) vm.pc) := by
  change ofByte (banned ((copyCode prog).getD vm.pc 0)) = _
  rw [banned_of_pushWidth hw, ofByte_of_pushWidth hw, widthAt]

instance (op : Instruction) : Decidable (Pushes op) :=
  decidable_of_iff ((op matches .push _ | .pushc) = true) (by cases op <;> simp [Pushes])

/-- A byte without data is no push for the plain machine. -/
lemma not_pushes_banned : ∀ {b : UInt8}, pushWidth b = 0 → ¬ Pushes (ofByte (banned b)) := by
  decide +kernel

/-- A jump that is not checked, against the one that is. -/
lemma OnTrack.agree_jumpc (h : OnTrack prog vm) {val : U256} (hhead : vm.stack.head? = some val)
    (hd : isJumpDest vm.jumpDests val = true) (hbyte : (copyCode prog).getD vm.pc 0 = 0x56)
    (hb : vm.code.getD vm.pc 0 = jumpcByte) :
    Agree prog (step env .source vm) (stepPlain env (twin prog vm)) := by
  have hop := opAt_eq hb
  have hplain : (twin prog vm).plainOp = .jump := by
    change ofByte (banned ((copyCode prog).getD vm.pc 0)) = _
    rw [hbyte]
    rfl
  obtain ⟨st, hst⟩ := head?_eq_some_iff.mp hhead
  have htwin : (twin prog vm).stack = val :: st := hst
  refine h.agree_of_unaware (by rw [hop]; decide) ?_
  rw [hplain, hop]
  exact executeAs_congr rfl (fun _ g _ => execJump_eq htwin hd) (by decide)

/-- A conditional jump that is not checked, against the one that is.  With one item on the stack
    both fail, in different ways. -/
lemma OnTrack.agree_jumpci (h : OnTrack prog vm) {val : U256} (hhead : vm.stack.head? = some val)
    (hd : isJumpDest vm.jumpDests val = true) (hbyte : (copyCode prog).getD vm.pc 0 = 0x57)
    (hb : vm.code.getD vm.pc 0 = jumpciByte) :
    Agree prog (step env .source vm) (stepPlain env (twin prog vm)) := by
  have hop : vm.opAt = .jumpci := opAt_eq hb
  have hplain : (twin prog vm).plainOp = .jumpi := by
    change ofByte (banned ((copyCode prog).getD vm.pc 0)) = _
    rw [hbyte]
    rfl
  have hstep : step env .source vm = executeAs env .jumpci vm := by rw [step_eq h.pc_lt, hop]
  obtain ⟨st, hst⟩ := head?_eq_some_iff.mp hhead
  cases st with
  | nil =>
    have hnot : ¬ FitsFor .jumpi (twin prog vm).stack.length := by
      have hlen : (twin prog vm).stack.length = 1 := congrArg List.length hst
      rw [hlen]
      decide
    rw [stepPlain_eq (twin_pc_lt h), hplain, executeAs_not_fits hnot]
    have hci : executeAs env .jumpci vm = execJumpci 10 vm :=
      executeAs_fits (by rw [hst, length_singleton]; decide) rfl
    by_cases hgas : vm.ioGas < 10
    · rw [hstep, hci, execJumpci_outOfGas hgas]
      exact ⟨VmFault.noConfusion, VmFault.noConfusion⟩
    · obtain ⟨vm', hout⟩ := execJumpci_outside hst (not_lt.mp hgas)
      rw [hstep, hci, hout]
      exact ⟨VmFault.noConfusion, VmFault.noConfusion⟩
  | cons cond st =>
    have hlen := h.stack
    have htwin : (twin prog vm).stack = val :: cond :: st := hst
    rw [hst, length_cons, length_cons] at hlen
    have hone : FitsFor .jumpci (twin prog vm).stack.length := by
      rw [htwin]
      change 1 ≤ st.length + 1 + 1 ∧ st.length + 1 + 1 - 1 + 0 ≤ 1024
      omega
    have htwo : FitsFor .jumpi (twin prog vm).stack.length := by
      rw [htwin]
      change 2 ≤ st.length + 1 + 1 ∧ st.length + 1 + 1 - 2 + 0 ≤ 1024
      omega
    refine h.agree_of_unaware (by rw [hop]; decide) ?_
    rw [hplain, hop, executeAs_fits htwo rfl, executeAs_fits hone rfl]
    exact execJumpi_eq htwin hd

/-- **One step of each machine.** -/
theorem step_agree (h : OnTrack prog vm) :
    Agree prog (step env .source vm) (stepPlain env (twin prog vm)) := by
  obtain ⟨j, hj, hpc, hhead⟩ := h.place
  have hroom : widthAt (copyCode prog) vm.pc ≠ 0 →
      vm.pc + 1 + widthAt (copyCode prog) vm.pc ≤ prog.length + 33 := fun hw => by
    have := (next_place hpc (fun hb => hw (by rw [widthAt, hb]; rfl)) hj).start_lt
    rw [start, ← hpc] at this
    omega
  have htwin : ∀ g, widthAt (copyCode prog) vm.pc ≠ 0 →
      execPush (widthAt (copyCode prog) vm.pc) g (twin prog vm) =
        pushThen (pushValue (copyCode prog) vm.pc (widthAt (copyCode prog) vm.pc))
          (vm.pc + widthAt (copyCode prog) vm.pc + 1) g (twin prog vm) := fun g hw => by
    refine @execPush_eq (twin prog vm) _ g ?_
    change vm.pc + 1 + _ ≤ (copyCode prog).length
    rw [copyCode_length]
    exact hroom hw
  have hcell := optimize_cell hj
  rw [← h.jumpDests] at hcell
  cases hcell with
  | plain hw hb =>
    rw [← h.code, ← hpc] at hb
    rw [← hpc] at hw
    have hop : vm.opAt = (twin prog vm).plainOp := opAt_eq hb
    exact h.agree_of_unaware (by rw [hop]; exact not_pushes_banned hw) (by rw [hop])
  | jumpc hv hd hbyte hb =>
    rw [← hpc] at hbyte hb
    rw [← h.code] at hb
    exact h.agree_jumpc (hhead _ hv (Or.inl hbyte)) hd hbyte hb
  | jumpci hv hd hbyte hb =>
    rw [← hpc] at hbyte hb
    rw [← h.code] at hb
    exact h.agree_jumpci (hhead _ hv (Or.inr hbyte)) hd hbyte hb
  | push hw hsame =>
    rw [← hpc, ← h.code] at hsame
    rw [← hpc] at hw
    have hop := opAt_push hw hsame
    refine h.agree_of_pushThen (fun g => ?_) (by rw [hop]; rfl) (plainOp_push hw)
      fun g => htwin g hw
    rw [hop, ← pushValue_congr h.code_length hsame]
    refine execPush_eq ?_
    rw [h.code_length, copyCode_length]
    exact hroom hw
  | pushc hw hb hskip hp =>
    rw [← hpc] at hw hb hskip hp
    rw [← h.code] at hb hskip hp
    rw [← h.pool] at hp
    have hw' : widthAt (copyCode prog) vm.pc ≠ 0 := by omega
    refine h.agree_of_pushThen (fun g => ?_) (by rw [opAt_eq hb]; rfl) (plainOp_push hw')
      fun g => htwin g hw'
    have hlen : vm.pc + 2 < vm.code.length := by
      have := hroom hw'
      rw [h.code, optimize_length]
      omega
    rw [opAt_eq hb]
    refine (execPushc_eq hlen hp).trans ?_
    rw [hskip, show vm.pc + 2 + (widthAt (copyCode prog) vm.pc - 1) =
      vm.pc + widthAt (copyCode prog) vm.pc + 1 by omega]

/-- **Any number of turns.** -/
theorem run_agree : ∀ {turns : ℕ} {vm : VM}, OnTrack prog vm → vm.ioGas < turns →
    Agree prog (run env turns vm) (runPlain env turns (twin prog vm))
  | 0, _, _, hlt => by omega
  | turns + 1, vm, h, hlt => by
    rw [run, runPlain]
    rcases (step_agree h).cases with ⟨out, vm1, hs, hp⟩ | ⟨e, vm1, e', vm2, hs, hp, he⟩
    · rw [bind_of_ok hs, bind_of_ok hp]
      cases out with
      | some b => exact ⟨rfl, rfl⟩
      | none =>
        have hnext := h.stepped hs
        have hgas : vm1.ioGas < vm.ioGas := hnext.gas
        exact run_agree hnext.onTrack (by omega)
    · rw [bind_of_error hs, bind_of_error hp]
      exact he

end Agree

end VM

end Ybtc
