import Ybtc.Evm.Bounds

/-!
# Jump targets

`optimize` collects the `JUMPDEST`s of a program in a table, and `verifyJumpDest` looks a value up
in it.  A jump to a constant that is in the table when the program is rewritten is not checked
again.  Both are compared with the program as it was given.  The main result is `VM.jump_targets`.
-/

namespace Ybtc

open Stateful List

/-- **An instruction starts here**: the first one at 0, every other one behind the bytes that the
    one before pushes. -/
inductive StartsInstruction (code : Bytes) : ℕ → Prop
  | first : StartsInstruction code 0
  | next {p : ℕ} {op : UInt8} : StartsInstruction code p → code[p]? = some op →
      StartsInstruction code (p + 1 + pushWidth op)

/-- A `JUMPDEST` of the program that is not in the data of a push. -/
def JumpTarget (code : Bytes) (d : ℕ) : Prop := StartsInstruction code d ∧ code[d]? = some 0x5b

section Table

variable {code : Bytes} {d : ℕ}

lemma getElem?_eq_some_iff_copyCode {b : UInt8} :
    code[d]? = some b ↔ d < code.length ∧ (copyCode code).getD d 0 = b := by
  rw [getElem?_eq_some_iff, ← exists_prop]
  refine exists_congr fun hd => ?_
  rw [copyCode, getD_append _ _ _ _ hd, getD_eq_getElem _ _ hd]

/-- The places of the optimiser, up to the end of the program. -/
lemma startsInstruction_iff (hd : d < code.length) :
    StartsInstruction code d ↔ ∃ j, start (copyCode code) j = d := by
  constructor
  · intro h
    clear hd
    induction h with
    | first => exact ⟨0, rfl⟩
    | next _ hop ih =>
      obtain ⟨j, rfl⟩ := ih
      exact ⟨j + 1, by rw [start, widthAt, (getElem?_eq_some_iff_copyCode.mp hop).2]⟩
  · rintro ⟨j, rfl⟩
    induction j with
    | zero => exact .first
    | succ j ih =>
      have hlt : start (copyCode code) j < code.length :=
        (start_strictMono _ (Nat.lt_succ_self j)).trans hd
      exact .next (ih hlt) (getElem?_eq_some_iff_copyCode.mpr ⟨hlt, rfl⟩)

/-- The scan goes forward, so the table is in increasing order, as the binary search needs it. -/
lemma scanJumpDests_sorted {nBytes : ℕ} : ∀ {turns pc : ℕ} {code : Bytes} {dests : List ℕ},
    dests.Pairwise (· < ·) → (∀ d ∈ dests, d < pc) →
      (scanJumpDests nBytes turns pc code dests).2.Pairwise (· < ·)
  | 0, _, _, _, hs, _ => hs
  | turns + 1, pc, code, dests, hs, hlt => by
    rw [scanJumpDests]
    split_ifs with hpc hb
    · refine scanJumpDests_sorted ?_ fun d hd => ?_
      · exact pairwise_append.mpr ⟨hs, pairwise_singleton _ _, fun d hd e he =>
          mem_singleton.mp he ▸ hlt d hd⟩
      · rcases mem_append.mp hd with hd | hd
        · exact Nat.lt_of_lt_of_le (hlt d hd) (by omega)
        · rw [mem_singleton.mp hd]
          omega
    · exact scanJumpDests_sorted hs fun d hd => Nat.lt_of_lt_of_le (hlt d hd) (by omega)
    · exact hs

lemma JumpTarget.of_isJumpDest {dest : U256} (h : isJumpDest (optimize code).2 dest = true) :
    JumpTarget code dest.toNat := by
  rw [isJumpDest, Bool.and_eq_true, contains_iff_mem] at h
  obtain ⟨j, hj, hd, hb⟩ := optimize_dests.mp h.2
  exact ⟨(startsInstruction_iff hd).mpr ⟨j, hj⟩, getElem?_eq_some_iff_copyCode.mpr ⟨hd, hb⟩⟩

/-- **What is in the table** is a `JUMPDEST` that starts an instruction. -/
lemma isJumpDest_iff (hlen : code.length ≤ 2 ^ 63) (dest : U256) :
    isJumpDest (optimize code).2 dest = true ↔ JumpTarget code dest.toNat := by
  refine ⟨.of_isJumpDest, fun ⟨hs, hb⟩ => ?_⟩
  obtain ⟨hd, hbyte⟩ := getElem?_eq_some_iff_copyCode.mp hb
  obtain ⟨j, hj⟩ := (startsInstruction_iff hd).mp hs
  rw [isJumpDest, Bool.and_eq_true, decide_eq_true_iff, contains_iff_mem]
  exact ⟨by omega, optimize_dests.mpr ⟨j, hj, hd, hbyte⟩⟩

end Table

namespace VM

section Lands

variable {env : StateEnv} {prog : Bytes} {vm vm' : VM} (h : OnTrack prog vm)

include h in
/-- **A jump lands on a destination.** -/
lemma OnTrack.lands (hj : vm.Jumps) (hstep : step env .source vm = .ok none vm') :
    ∃ dest, isJumpDest (optimize prog).2 dest = true ∧ vm'.pc = dest.toNat := by
  obtain ⟨g, hfits, hgas, hex⟩ := step_ok h.pc_lt hstep
  have hci : vm.opAt = .jumpci → 2 ≤ vm.stack.length := fun hop =>
    ((h.guarded hstep hfits).2 hop).resolve_right fun hlow => by
      rw [hop] at hgas hex
      cases hgas
      have herror := execJumpci_outOfGas hlow
      cases herror.symm.trans hex
  have hdoes : Acts env vm g (Jumped env vm) := h.execute_jumps hfits hgas (by
    rcases hj with hop | hop | ⟨hop | hop, -⟩ <;> simp [hop]) hci
  obtain ⟨-, st, pc', hat, -, ⟨hn, -⟩ | ⟨dest, hd, rfl⟩⟩ := hdoes.ok rfl hex
  · exact absurd hj hn
  · exact ⟨dest, h.jumpDests ▸ hd, hat.pc⟩

end Lands

end VM

end Ybtc
