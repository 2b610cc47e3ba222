import Ybtc.Evm.Built

/-!
# The gas an instruction uses

An instruction takes gas off, and only a call puts some back at its end.  So the machine never has
more gas than before, not even inside an instruction that fails half way.  The main results are
`VM.execute_savesOnError`, `VM.OnTrack.run_gas` and `VM.exec_gas`.
-/

namespace Ybtc

open Stateful (stateAfter)

namespace VM

variable {α β : Type} {x : VmM α}

/-- Code without pushes and calls. -/
@[grind ←] lemma Built.saves_plain (h : Built False False x) : Saves x := h.saves

/-! ## Calls -/

/-- Where the code fails, there is no more gas than before. -/
def SavesOnError (x : VmM α) : Prop := ∀ vm e vm', x vm = .error e vm' → vm'.ioGas ≤ vm.ioGas

lemma Saves.onError (hx : Saves x) : SavesOnError x := by
  intro vm e vm' h
  have hvm := hx vm
  rwa [h] at hvm

lemma SavesOnError.bind {f : α → VmM β} (hx : Saves x)
    (hf : ∀ a, SavesOnError (f a)) : SavesOnError (x >>= f) := by
  intro vm e vm' h
  rcases Stateful.bind_error.mp h with herr | ⟨a, vm1, hok, herr⟩
  · exact hx.onError vm e vm' herr
  · have hvm := hx vm
    rw [hok] at hvm
    exact (hf a vm1 e vm' herr).trans hvm

/-- Gas comes back at the very end, where nothing can fail. -/
lemma caseCall_savesOnError (env : StateEnv) (delegate : Bool) :
    SavesOnError (caseCall env delegate) := by
  unfold caseCall caseCallWith
  iterate 15
    refine SavesOnError.bind (by grind) fun _ => ?_
  intro vm e vm' h
  cases h

/-- **All instructions.** -/
lemma execute_savesOnError (env : StateEnv) (ix : Indexing) (op : Instruction) (g : ℕ) :
    SavesOnError (execute env ix op g) := by
  by_cases hcall : Calls op
  · simp only [Calls, List.mem_cons, List.not_mem_nil, or_false] at hcall
    rcases hcall with rfl | rfl | rfl | rfl
    · exact caseCall_savesOnError env false
    · exact caseCall_savesOnError env false
    · exact caseCall_savesOnError env false
    · exact caseCall_savesOnError env true
  · have hbuilt := execute_built env ix op g
    rw [eq_false hcall] at hbuilt
    exact hbuilt.saves.onError

/-! ## Runs -/

section Runs

variable {env : StateEnv} {prog : Bytes} {vm : VM}

lemma fetchInstruction_saves : Saves fetchInstruction :=
  have hbuilt : Built True False fetchInstruction :=
    .bind (.look trivial fun vm => .codeByte vm.pc trivial) fun _ => by grind
  hbuilt.saves

lemma step_savesOnError (env : StateEnv) (ix : Indexing) : SavesOnError (step env ix) :=
  SavesOnError.bind fetchInstruction_saves fun fetched =>
    execute_savesOnError env ix fetched.1 fetched.2

/-- **However a run ends**, there is no more gas than at its start. -/
lemma OnTrack.run_gas (h : OnTrack prog vm) (turns : ℕ) :
    (stateAfter (run env turns vm)).ioGas ≤ vm.ioGas := by
  induction turns generalizing vm with
  | zero => exact le_rfl
  | succ turns ih =>
    rw [run, Stateful.bind_apply]
    cases hstep : step env .source vm with
    | error e vm1 => exact step_savesOnError env .source vm e vm1 hstep
    | ok out vm1 =>
      have hs := h.stepped hstep
      cases out with
      | some b => exact hs.gas
      | none => exact (ih hs.onTrack).trans hs.gas.le

/-- **`exec` leaves no more gas** than it was given. -/
lemma exec_gas {gas : U256} {ctx : ExtVM} {s s' : State} {out : Outcome}
    (h : exec env gas ctx s = .ok out s') : out.gas.toNat ≤ gas.toNat := by
  have hle : (stateAfter (run env (wrap64 gas.toNat + 1) (initial gas ctx s))).ioGas ≤ _ :=
    (initial_onTrack gas ctx s).run_gas _
  unfold exec at h
  cases hrun : run env (wrap64 gas.toNat + 1) (initial gas ctx s) with
  | error e vm' => rw [hrun] at h; cases h
  | ok b vm' =>
    rw [hrun] at h hle
    cases h
    exact (BitVec.toNat_ofNat _ _).trans_le ((Nat.mod_le _ _).trans (hle.trans (Nat.mod_le _ _)))

end Runs

end VM

end Ybtc
