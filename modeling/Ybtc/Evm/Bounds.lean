import Ybtc.Evm.Effects
import Ybtc.Evm.CodeLayout

/-!
# Runs of the machine stay inside its arrays

The machine checks the stack against a table before each instruction and nothing else.  Here the
table is held against what the instructions do.
-/

namespace Ybtc

open Stateful List Nat Option Instruction

/-! ## Bytes and instructions -/

lemma ofByte_of_pushWidth : ∀ {b : UInt8}, pushWidth b ≠ 0 → ofByte b = .push (pushWidth b) := by
  decide +kernel

/-- The bytes that stand for an instruction which does not move on by one byte. -/
lemma banned_not_straight : ∀ {b : UInt8}, VM.Straight (.ofByte (banned b)) = false →
    pushWidth b = 0 → banned b ∈ [0, 0xf3, 0xff, 0x56, 0x57] := by
  decide +kernel

lemma ofByte_ne_dup_zero : ∀ b : UInt8, ofByte b ≠ .dup 0 := by decide +kernel

variable {b : UInt8}

lemma ofByte_banned_ne : ∀ b : UInt8,
    ¬ (ofByte (banned b) = .jumpc ∨ ofByte (banned b) = .jumpci) := by
  decide +kernel

namespace VM

/-! ## The invariant -/

/-- The machine in a run of a program: it runs what the optimiser made of the program, and it is at
    the place of an instruction.  If this is a jump behind a push, what was pushed is on top of the
    stack. -/
structure OnTrack (prog : Bytes) (vm : VM) : Prop where
  code : vm.code = (optimize prog).1.code
  pool : vm.pool = (optimize prog).1.pool
  jumpDests : vm.jumpDests = (optimize prog).2
  stack : vm.stack.length ≤ 1024
  place : ∃ j, Started prog.length (copyCode prog) j ∧ vm.pc = start (copyCode prog) j ∧
    ∀ val, pushedBefore (copyCode prog) j = some val →
      (copyCode prog).getD vm.pc 0 = 0x56 ∨ (copyCode prog).getD vm.pc 0 = 0x57 →
        vm.stack.head? = some val

lemma OnTrack.code_length (h : OnTrack prog vm) : vm.code.length = (copyCode prog).length := by
  rw [h.code, optimize_length, copyCode_length]

lemma initial_onTrack (gas : U256) (ctx : ExtVM) (s : State) :
    OnTrack ctx.code (initial gas ctx s) where
  code := rfl
  pool := rfl
  jumpDests := rfl
  stack := zero_le _
  place := ⟨0, fun j hj => absurd hj (not_lt_zero j), rfl, fun val h => by cases h⟩

/-- The instruction that comes next. -/
def opAt (vm : VM) : Instruction := .ofByte (vm.code.getD vm.pc 0)

/-- The test of `checkStack`. -/
def StackFits (vm : VM) : Prop :=
  (instructionInfo vm.opAt).args ≤ vm.stack.length ∧
    vm.stack.length - (instructionInfo vm.opAt).args + (instructionInfo vm.opAt).ret ≤ 1024

instance (vm : VM) : Decidable vm.StackFits := inferInstanceAs (Decidable (_ ∧ _))

/-- **The condition**: an instruction that passes the check of the stack has a gas tier, and
    `JUMPCI` finds two items, unless there is no gas for it. -/
def Guarded (vm : VM) : Prop :=
  vm.StackFits → tierStepGas (instructionInfo vm.opAt).gasPriceTier ≠ none ∧
    (vm.opAt = .jumpci → 2 ≤ vm.stack.length ∨ vm.ioGas < 10)

instance (vm : VM) : Decidable vm.Guarded := inferInstanceAs (Decidable (_ → _ ∧ _))

section Step

variable {env : StateEnv} {prog : Bytes} {vm vm' : VM}

variable {st : List U256}

/-- **The program counter** is inside the program with the zeros behind it. -/
lemma OnTrack.pc_lt (h : OnTrack prog vm) : vm.pc < vm.code.length := by
  obtain ⟨j, hj, hpc, -⟩ := h.place
  rw [h.code, optimize_length, hpc]
  exact hj.start_lt

/-! ## Fetching -/

/-- The byte at a place, with what is behind it. -/
lemma drop_eq_getD_cons {l : Bytes} {i : ℕ} (hi : i < l.length) :
    l.drop i = l.getD i 0 :: l.drop (i + 1) := by
  rw [drop_eq_getElem_cons hi, getD_eq_getElem?_getD, getElem?_eq_getElem hi]
  rfl

lemma codeByte_of_lt {i : ℕ} (h : i < vm.code.length) :
    codeByte i vm = .ok (vm.code.getD i 0) vm := by
  rw [codeByte, drop_eq_getD_cons h]

/-- What `fetchInstruction` does at a place inside the program. -/
lemma fetchInstruction_apply (h : vm.pc < vm.code.length) : fetchInstruction vm =
    (checkStack (instructionInfo vm.opAt).args (instructionInfo vm.opAt).ret >>= fun _ =>
      tierGas (instructionInfo vm.opAt).gasPriceTier >>= fun g => pure (vm.opAt, g)) vm := by
  unfold fetchInstruction
  exact bind_of_ok (codeByte_of_lt h)

lemma checkStack_fits (h : vm.StackFits) :
    checkStack (instructionInfo vm.opAt).args (instructionInfo vm.opAt).ret vm = .ok () vm := by
  unfold checkStack
  rw [if_neg]
  unfold StackFits at h
  omega

lemma checkStack_not_fits (h : ¬ vm.StackFits) :
    checkStack (instructionInfo vm.opAt).args (instructionInfo vm.opAt).ret vm =
      throwBadStack vm := by
  unfold checkStack
  rw [if_pos]
  unfold StackFits at h
  omega

lemma fetch_badStack (hpc : vm.pc < vm.code.length) (h : ¬ vm.StackFits) :
    fetchInstruction vm = .error (.fault (rangeError "Bad Stack")) vm := by
  rw [fetchInstruction_apply hpc]
  exact bind_of_error (checkStack_not_fits h)

lemma fetch_tiers (hpc : vm.pc < vm.code.length) (h : vm.StackFits)
    (ht : tierStepGas (instructionInfo vm.opAt).gasPriceTier = none) :
    fetchInstruction vm = .error (.outside .tiers) vm := by
  rw [fetchInstruction_apply hpc, bind_of_ok (checkStack_fits h)]
  unfold tierGas
  rw [ht]
  rfl

lemma fetch_ok (hpc : vm.pc < vm.code.length) (h : vm.StackFits) {g : ℕ}
    (ht : tierStepGas (instructionInfo vm.opAt).gasPriceTier = some g) :
    fetchInstruction vm = .ok (vm.opAt, g) vm := by
  rw [fetchInstruction_apply hpc, bind_of_ok (checkStack_fits h)]
  unfold tierGas
  rw [ht]
  rfl

/-! ## One step -/

/-- The machine goes on in the run, with less gas. -/
structure Continues (env : StateEnv) (prog : Bytes) (vm vm' : VM) : Prop where
  onTrack : OnTrack prog vm'
  ctx : vm'.ctx = vm.ctx
  suicides : vm'.sub.suicides = vm.sub.suicides
  state : Touched env vm.ctx.myAddress vm.state vm'.state
  gas : vm'.ioGas < vm.ioGas

/-- The machine has halted. -/
structure Halted (env : StateEnv) (vm vm' : VM) : Prop where
  ctx : vm'.ctx = vm.ctx
  suicides : vm'.sub.suicides = vm.sub.suicides
  state : Touched env vm.ctx.myAddress vm.state vm'.state
  gas : vm'.ioGas ≤ vm.ioGas

/-- How a step returns. -/
def Stepped (env : StateEnv) (prog : Bytes) (vm : VM) : Option Bytes → VM → Prop
  | none => Continues env prog vm
  | some _ => Halted env vm

lemma OnTrack.continues {pc : ℕ} (h : OnTrack prog vm) (hat : At env vm st pc 1 0 vm')
    (hst : st.length ≤ 1024)
    (hplace : ∃ j, Started prog.length (copyCode prog) j ∧ pc = start (copyCode prog) j ∧
      ∀ val, pushedBefore (copyCode prog) j = some val →
        (copyCode prog).getD pc 0 = 0x56 ∨ (copyCode prog).getD pc 0 = 0x57 →
          st.head? = some val) : Continues env prog vm vm' where
  onTrack :=
    { code := hat.code.trans h.code
      pool := hat.pool.trans h.pool
      jumpDests := hat.jumpDests.trans h.jumpDests
      stack := by rw [hat.stack]; exact hst
      place := by rw [hat.stack, hat.pc]; exact hplace }
  ctx := hat.ctx
  suicides := hat.suicides
  state := hat.state
  gas := by have := hat.gas; omega

lemma At.halted {pc : ℕ} (hat : At env vm st pc 0 0 vm') : Halted env vm vm' where
  ctx := hat.ctx
  suicides := hat.suicides
  state := hat.state
  gas := by have := hat.gas; omega

variable {dest : U256}

/-- A jump to a destination. -/
lemma OnTrack.continues_jump (h : OnTrack prog vm)
    (hat : At env vm st dest.toNat 1 0 vm') (hst : st.length ≤ 1024)
    (hd : isJumpDest (optimize prog).2 dest = true) : Continues env prog vm vm' := by
  refine h.continues hat hst ?_
  unfold isJumpDest at hd
  rw [Bool.and_eq_true, contains_iff_mem] at hd
  obtain ⟨j, hj, hlt, hbyte⟩ := optimize_dests.mp hd.2
  refine ⟨j, fun _ hi => (start_strictMono _ hi).trans (by omega), hj.symm, fun val _ hb => ?_⟩
  rw [hbyte] at hb
  exact absurd hb (by decide)

/-- A destination has less than 64 bits. -/
lemma wrap64_of_isJumpDest {dests : List ℕ} (h : isJumpDest dests dest = true) :
    wrap64 dest.toNat = dest.toNat := by
  unfold isJumpDest at h
  rw [Bool.and_eq_true, decide_eq_true_iff] at h
  exact mod_eq_of_lt (by omega)

section Place

variable {j : ℕ} (h : OnTrack prog vm) (hj : Started prog.length (copyCode prog) j)
  (hpc : vm.pc = start (copyCode prog) j)

include hpc in
/-- Behind an instruction that is not the zero behind the program comes another place. -/
lemma next_place (hbyte : (copyCode prog).getD vm.pc 0 ≠ 0)
    (hj : Started prog.length (copyCode prog) j) : Started prog.length (copyCode prog) (j + 1) := by
  refine hj.succ ?_
  by_contra hle
  rw [hpc] at hbyte
  exact hbyte (copyCode_getD_behind (not_lt.mp hle))

include h hj hpc in
/-- The step behind an instruction without data. -/
lemma OnTrack.continues_next {st : List U256} (hw : widthAt (copyCode prog) vm.pc = 0)
    (hbyte : (copyCode prog).getD vm.pc 0 ≠ 0) (hat : At env vm st (vm.pc + 1) 1 0 vm')
    (hst : st.length ≤ 1024) : Continues env prog vm vm' := by
  refine h.continues hat hst ⟨j + 1, next_place hpc hbyte hj, ?_, fun val hv => ?_⟩
  · rw [start, ← hpc, hw]
  · rw [pushedBefore, pushedAt, ← hpc, if_pos hw] at hv
    cases hv

include h hj hpc in
/-- The step behind a push. -/
lemma OnTrack.continues_push {st : List U256} (hw : widthAt (copyCode prog) vm.pc ≠ 0)
    (hat : At env vm (pushValue (copyCode prog) vm.pc (widthAt (copyCode prog) vm.pc) :: st)
      (vm.pc + widthAt (copyCode prog) vm.pc + 1) 1 0 vm')
    (hst : st.length + 1 ≤ 1024) : Continues env prog vm vm' := by
  refine h.continues hat (by rw [length_cons]; exact hst) ⟨j + 1, next_place hpc ?_ hj, ?_,
    fun val hv _ => ?_⟩
  · intro hbyte
    exact hw (by rw [widthAt, hbyte]; rfl)
  · rw [start, ← hpc]
    omega
  · rw [pushedBefore, pushedAt, ← hpc, if_neg hw] at hv
    rw [head?_cons, ← hv]

end Place

/-- The stack is cut into what the instruction takes and the rest. -/
lemma StackFits.split (h : vm.StackFits) : ∃ as st, vm.stack = as ++ st ∧
    as.length = (instructionInfo vm.opAt).args ∧
      st.length + (instructionInfo vm.opAt).ret ≤ 1024 := by
  refine ⟨vm.stack.take (instructionInfo vm.opAt).args,
    vm.stack.drop (instructionInfo vm.opAt).args,
    (take_append_drop _ _).symm, ?_, ?_⟩
  · rw [length_take]
    exact min_eq_left h.1
  · rw [length_drop]
    exact h.2

/-! ## The instruction at a place -/

/-- What the instruction of the machine does. -/
abbrev Acts (env : StateEnv) (vm : VM) (g : ℕ) (Q : Option Bytes → VM → Prop) : Prop :=
  Does (· = vm) (execute env .source vm.opAt g) Q

variable (env) in
/-- The outcome of an instruction from the machine it starts in. -/
lemma meets_of_does {x : VmM (Option Bytes)} {st : List U256} {Q Q' : Option Bytes → VM → Prop}
    (hx : Does (At env vm st vm.pc 0 0) x Q) (hst : vm.stack = st)
    (hQ : ∀ out vm', Q out vm' → Q' out vm') : Does (· = vm) x Q' :=
  hx.conseq (fun _ hs => hs.symm ▸ hst ▸ at_self vm) hQ

lemma opAt_eq (h : vm.code.getD vm.pc 0 = b) : vm.opAt = .ofByte b := by
  rw [opAt, h]

lemma opAt_push {code : Bytes} (hw : widthAt code vm.pc ≠ 0)
    (hsame : ∀ i ≤ widthAt code vm.pc, vm.code.getD (vm.pc + i) 0 = code.getD (vm.pc + i) 0) :
    vm.opAt = .push (widthAt code vm.pc) := by
  rw [opAt_eq (hsame 0 (zero_le _)), add_zero, ofByte_of_pushWidth hw, widthAt]

/-- The machine is about to jump: a conditional jump does when the second item is not zero. -/
def Jumps (vm : VM) : Prop :=
  vm.opAt = .jump ∨ vm.opAt = .jumpc ∨
    (vm.opAt = .jumpi ∨ vm.opAt = .jumpci) ∧ vm.stack[1]? ≠ some 0

/-- **A jump**: to a destination, or past a condition that is zero. -/
def Jumped (env : StateEnv) (vm : VM) (out : Option Bytes) (vm' : VM) : Prop :=
  out = none ∧ ∃ st pc', At env vm st pc' 1 0 vm' ∧ st <:+ vm.stack ∧
    (¬ vm.Jumps ∧ pc' = vm.pc + 1 ∨ ∃ dest, isJumpDest vm.jumpDests dest = true ∧ pc' = dest.toNat)

/-- An instruction that halts. -/
lemma halts_of_does {x : VmM (Option Bytes)} {st st' : List U256}
    (hx : Does (At env vm st vm.pc 0 0) x (Halts (At env vm st' vm.pc 0 0))) (hst : vm.stack = st) :
    Does (· = vm) x (Stepped env prog vm) :=
  meets_of_does env hx hst fun out vm' ⟨hout, hat⟩ => by
    obtain ⟨b, rfl⟩ := isSome_iff_exists.mp hout
    exact hat.halted

/-- **A jump that is not checked** has the constant of the push before it on the stack, and this was
    found in the table. -/
lemma OnTrack.constant (h : OnTrack prog vm) (hop : vm.opAt = .jumpc ∨ vm.opAt = .jumpci) :
    ∃ dest st, vm.stack = dest :: st ∧ isJumpDest vm.jumpDests dest = true := by
  obtain ⟨j, hj, hpc, hhead⟩ := h.place
  have hcell := optimize_cell hj
  rw [← h.jumpDests] at hcell
  rw [opAt, h.code, hpc] at hop
  rw [hpc] at hhead
  have hfound : ∃ dest, vm.stack.head? = some dest ∧ isJumpDest vm.jumpDests dest = true := by
    cases hcell with
    | plain _ hb =>
      rw [hb] at hop
      exact absurd hop (ofByte_banned_ne _)
    | jumpc hv hd hbyte _ => exact ⟨_, hhead _ hv (Or.inl hbyte), hd⟩
    | jumpci hv hd hbyte _ => exact ⟨_, hhead _ hv (Or.inr hbyte), hd⟩
    | push hw hsame =>
      have hb := hsame 0 (zero_le _)
      rw [add_zero] at hb
      rw [hb, ofByte_of_pushWidth hw] at hop
      rcases hop with hop | hop <;> cases hop
    | pushc _ hb =>
      rw [hb] at hop
      exact absurd hop (by decide)
  obtain ⟨dest, hdest, hd⟩ := hfound
  obtain ⟨st, hst⟩ := head?_eq_some_iff.mp hdest
  exact ⟨dest, st, hst, hd⟩

section Cells

variable {j g : ℕ} (h : OnTrack prog vm) (hj : Started prog.length (copyCode prog) j)
  (hpc : vm.pc = start (copyCode prog) j) (hfits : vm.StackFits)
  (hgas : tierStepGas (instructionInfo vm.opAt).gasPriceTier = some g)
include h hj hpc hfits hgas

/-- An instruction that moves on by one byte. -/
lemma OnTrack.execute_straight (hs : Straight vm.opAt = true)
    (hw : widthAt (copyCode prog) vm.pc = 0) (hbyte : (copyCode prog).getD vm.pc 0 ≠ 0) :
    Acts env vm g (Stepped env prog vm) := by
  obtain ⟨as, st, hst, has, hlen⟩ := hfits.split
  refine meets_of_does env (VM.execute_straight hs (ofByte_ne_dup_zero _) hgas has) hst ?_
  rintro _ vm' ⟨rfl, top, htop, hat⟩
  exact h.continues_next hj hpc hw hbyte hat (by rw [length_append]; omega)

omit hj hpc in
/-- **The four jumps.** -/
lemma OnTrack.execute_jumps (hop : vm.opAt ∈ [.jump, .jumpi, .jumpc, .jumpci])
    (hci : vm.opAt = .jumpci → 2 ≤ vm.stack.length) : Acts env vm g (Jumped env vm) := by
  obtain ⟨as, st, hst, has, -⟩ := hfits.split
  simp only [mem_cons, not_mem_nil, or_false] at hop
  rw [Acts]
  rcases hop with hop | hop | hop | hop
  · rw [hop] at has hgas ⊢
    obtain ⟨dest, rfl⟩ := length_eq_one_iff.mp has
    have hpos := (tierStepGas_pos hgas (by decide) (by decide)).1
    refine meets_of_does env (execJump_spec hpos) hst ?_
    rintro _ vm' ⟨rfl, hd, hat⟩
    exact ⟨rfl, st, _, hat, ⟨[dest], hst.symm⟩, Or.inr ⟨dest, hd, rfl⟩⟩
  · rw [hop] at has hgas ⊢
    obtain ⟨dest, cond, rfl⟩ := length_eq_two.mp has
    have hpos := (tierStepGas_pos hgas (by decide) (by decide)).1
    refine meets_of_does env (execJumpi_spec hpos) hst ?_
    rintro _ vm' ⟨rfl, pc', ⟨rfl, rfl⟩ | ⟨hd, rfl⟩, hat⟩
    · exact ⟨rfl, st, _, hat, ⟨[dest, 0], hst.symm⟩, Or.inl ⟨by simp [Jumps, hop, hst], rfl⟩⟩
    · exact ⟨rfl, st, _, hat, ⟨[dest, cond], hst.symm⟩, Or.inr ⟨dest, hd, rfl⟩⟩
  · obtain ⟨dest, st, hst, hd⟩ := h.constant (Or.inl hop)
    rw [hop] at hgas ⊢
    have hpos := (tierStepGas_pos hgas (by decide) (by decide)).1
    refine meets_of_does env (execJumpc_spec hpos) hst ?_
    rintro _ vm' ⟨rfl, hat⟩
    exact ⟨rfl, st, _, hat, ⟨[dest], hst.symm⟩, Or.inr ⟨dest, hd, wrap64_of_isJumpDest hd⟩⟩
  · obtain ⟨dest, st, hst, hd⟩ := h.constant (Or.inr hop)
    have hlen := hci hop
    rw [hst, length_cons] at hlen
    obtain ⟨cond, st, rfl⟩ := exists_cons_of_length_pos (by omega : 0 < st.length)
    rw [hop] at hgas ⊢
    have hpos := (tierStepGas_pos hgas (by decide) (by decide)).1
    refine meets_of_does env (execJumpci_spec hpos) hst ?_
    rintro _ vm' ⟨rfl, pc', ⟨rfl, rfl⟩ | ⟨-, rfl⟩, hat⟩
    · exact ⟨rfl, st, _, hat, ⟨[dest, 0], hst.symm⟩, Or.inl ⟨by simp [Jumps, hop, hst], rfl⟩⟩
    · exact ⟨rfl, st, _, hat, ⟨[dest, cond], hst.symm⟩, Or.inr ⟨dest, hd, wrap64_of_isJumpDest hd⟩⟩

lemma OnTrack.execute_jumped (hop : vm.opAt ∈ [.jump, .jumpi, .jumpc, .jumpci])
    (hci : vm.opAt = .jumpci → 2 ≤ vm.stack.length)
    (hb : (copyCode prog).getD vm.pc 0 = 0x56 ∨ (copyCode prog).getD vm.pc 0 = 0x57) :
    Acts env vm g (Stepped env prog vm) := by
  have hw : widthAt (copyCode prog) vm.pc = 0 := by
    rcases hb with hb | hb <;> rw [widthAt, hb] <;> rfl
  refine (h.execute_jumps hfits hgas hop hci).weaken ?_
  rintro _ vm' ⟨rfl, st, pc', hat, hle, ⟨-, rfl⟩ | ⟨dest, hd, rfl⟩⟩
  · refine h.continues_next hj hpc hw (fun h0 => ?_) hat (hle.length_le.trans h.stack)
    rw [h0] at hb
    exact absurd hb (by decide)
  · rw [h.jumpDests] at hd
    exact h.continues_jump hat (hle.length_le.trans h.stack) hd

/-- The instructions that the optimiser has left as they were, pushes apart. -/
lemma OnTrack.execute_plain (hw : widthAt (copyCode prog) vm.pc = 0)
    (hb : vm.code.getD vm.pc 0 = banned ((copyCode prog).getD vm.pc 0)) :
    Acts env vm g (Stepped env prog vm) := by
  by_cases hs : Straight vm.opAt = true
  · refine h.execute_straight hj hpc hfits hgas hs hw fun hbyte => ?_
    rw [opAt, hb, hbyte] at hs
    exact absurd hs (by decide)
  · rw [Bool.not_eq_true] at hs
    rw [opAt, hb] at hs
    have hmem := banned_not_straight hs hw
    rw [← hb] at hmem
    obtain ⟨as, st, hst, has, hlen⟩ := hfits.split
    simp only [mem_cons, not_mem_nil, or_false] at hmem
    rcases hmem with hz | hr | hk | hu | hi
    · rw [Acts, opAt_eq hz]
      exact halts_of_does execStop_spec rfl
    · rw [opAt_eq hr] at has hgas
      rw [Acts, opAt_eq hr]
      obtain ⟨a, b, rfl⟩ := length_eq_two.mp has
      cases hgas
      exact halts_of_does (execReturn_spec (by decide)) hst
    · rw [opAt_eq hk] at has
      rw [Acts, opAt_eq hk]
      obtain ⟨a, rfl⟩ := length_eq_one_iff.mp has
      exact halts_of_does execSuicide_spec hst
    · have hop : vm.opAt = .jump := opAt_eq hu
      refine h.execute_jumped hj hpc hfits hgas (by simp [hop]) (fun hci => ?_) (Or.inl ?_)
      · cases hop.symm.trans hci
      · exact eq_of_banned (hb.symm.trans hu) (by decide)
    · have hop : vm.opAt = .jumpi := opAt_eq hi
      refine h.execute_jumped hj hpc hfits hgas (by simp [hop]) (fun hci => ?_) (Or.inr ?_)
      · cases hop.symm.trans hci
      · exact eq_of_banned (hb.symm.trans hi) (by decide)

/-- A push that is as it was. -/
lemma OnTrack.execute_push (hw : widthAt (copyCode prog) vm.pc ≠ 0)
    (hsame : ∀ i ≤ widthAt (copyCode prog) vm.pc,
      vm.code.getD (vm.pc + i) 0 = (copyCode prog).getD (vm.pc + i) 0) :
    Acts env vm g (Stepped env prog vm) := by
  have hlen := h.code_length
  have hop := opAt_push hw hsame
  have hroom : vm.pc + 1 + widthAt (copyCode prog) vm.pc ≤ vm.code.length := by
    have := (next_place hpc (fun hb => hw (by rw [widthAt, hb]; rfl)) hj).start_lt
    rw [start, ← hpc] at this
    rw [hlen, copyCode_length]
    omega
  obtain ⟨as, st, hst, has, hret⟩ := hfits.split
  rw [hop] at has hret hgas
  rw [Acts, hop]
  rw [length_eq_zero_iff.mp has, nil_append] at hst
  have hpos := (tierStepGas_pos (t := .veryLow) hgas (by decide) (by decide)).1
  refine meets_of_does env (execPush_spec hpos hroom) hst ?_
  rintro _ vm' ⟨rfl, hat⟩
  rw [pushValue_congr hlen hsame] at hat
  exact h.continues_push hj hpc hw hat hret

/-- A push out of the pool. -/
lemma OnTrack.execute_pushc (hw : 1 < widthAt (copyCode prog) vm.pc)
    (hb : vm.code.getD vm.pc 0 = pushcByte)
    (hskip : (vm.code.getD (vm.pc + 2) 0).toNat = widthAt (copyCode prog) vm.pc - 1)
    (hp : vm.pool (vm.code.getD (vm.pc + 1) 0).toNat =
      some (pushValue (copyCode prog) vm.pc (widthAt (copyCode prog) vm.pc))) :
    Acts env vm g (Stepped env prog vm) := by
  have hroom : vm.pc + 2 < vm.code.length := by
    have := (next_place hpc (fun hb => by rw [widthAt, hb] at hw; cases hw) hj).start_lt
    rw [start, ← hpc] at this
    rw [h.code, optimize_length]
    omega
  obtain ⟨as, st, hst, has, hret⟩ := hfits.split
  rw [opAt_eq hb] at has hret hgas
  rw [Acts, opAt_eq hb]
  rw [length_eq_zero_iff.mp has, nil_append] at hst
  have hpos := (tierStepGas_pos hgas (by decide) (by decide)).1
  refine meets_of_does env (execPushc_spec hpos (drop_eq_getD_cons (by omega))
    (drop_eq_getD_cons hroom)) hst ?_
  rintro _ vm' ⟨rfl, hat⟩
  rw [hp, hskip, getD_some, show vm.pc + 2 + (widthAt (copyCode prog) vm.pc - 1) =
    vm.pc + widthAt (copyCode prog) vm.pc + 1 by omega] at hat
  exact h.continues_push hj hpc (by omega) hat hret

end Cells

/-- Without the gas a conditional jump fails before it looks at the stack. -/
lemma execJumpci_outOfGas (hgas : vm.ioGas < 10) :
    execJumpci 10 vm = .error (.fault (rangeError "Out Of Gas")) vm :=
  bind_of_error (by rw [updateIOGas, if_pos hgas]; rfl)

/-- **One instruction.** -/
lemma OnTrack.execute_spec (h : OnTrack prog vm) (hfits : vm.StackFits) {g : ℕ}
    (hgas : tierStepGas (instructionInfo vm.opAt).gasPriceTier = some g)
    (hci : vm.opAt = .jumpci → 2 ≤ vm.stack.length ∨ vm.ioGas < 10) :
    Acts env vm g (Stepped env prog vm) := by
  obtain ⟨j, hj, hpc, -⟩ := h.place
  have hcell := optimize_cell hj
  rw [← h.jumpDests] at hcell
  cases hcell with
  | plain hw hb =>
    rw [← h.code, ← hpc] at hb
    rw [← hpc] at hw
    exact h.execute_plain hj hpc hfits hgas hw hb
  | jumpc _ _ hbyte hb =>
    rw [← hpc] at hbyte hb
    rw [← h.code] at hb
    have hop : vm.opAt = .jumpc := opAt_eq hb
    exact h.execute_jumped hj hpc hfits hgas (by simp [hop]) (fun hci => by
      cases hop.symm.trans hci) (Or.inl hbyte)
  | jumpci _ _ hbyte hb =>
    rw [← hpc] at hbyte hb
    rw [← h.code] at hb
    rcases hci (opAt_eq hb) with htwo | hlow
    · have hop : vm.opAt = .jumpci := opAt_eq hb
      exact h.execute_jumped hj hpc hfits hgas (by simp [hop]) (fun _ => htwo) (Or.inr hbyte)
    · rw [opAt_eq hb] at hgas
      rw [Acts, opAt_eq hb]
      cases hgas
      rintro _ rfl
      change Meets Faulty _ (execJumpci 10 _)
      rw [execJumpci_outOfGas hlow]
      exact ⟨_, rfl⟩
  | push hw hsame =>
    rw [← hpc, ← h.code] at hsame
    rw [← hpc] at hw
    exact h.execute_push hj hpc hfits hgas hw hsame
  | pushc hw hb hskip hp =>
    rw [← hpc] at hw hb hskip hp
    rw [← h.code] at hb hskip hp
    rw [← h.pool] at hp
    exact h.execute_pushc hj hpc hfits hgas hw hb hskip hp

/-- **One step** under the condition: no access is outside of an array. -/
theorem step_spec (h : OnTrack prog vm) (hg : vm.Guarded) :
    Does (· = vm) (step env .source) (Stepped env prog vm) := by
  intro s hs
  rw [show s = vm from hs]
  by_cases hf : vm.StackFits
  · obtain ⟨ht, hci⟩ := hg hf
    obtain ⟨g, hgas⟩ := ne_none_iff_exists'.mp ht
    rw [step, bind_of_ok (fetch_ok h.pc_lt hf hgas)]
    exact h.execute_spec hf hgas hci vm rfl
  · rw [step, bind_of_error (fetch_badStack h.pc_lt hf)]
    exact ⟨_, rfl⟩

/-- A step that returns has fetched its instruction. -/
lemma step_ok {ix : Indexing} (hpc : vm.pc < vm.code.length) {out : Option Bytes}
    (h : step env ix vm = .ok out vm') : ∃ g, vm.StackFits ∧
      tierStepGas (instructionInfo vm.opAt).gasPriceTier = some g ∧
        execute env ix vm.opAt g vm = .ok out vm' := by
  obtain ⟨⟨op, g⟩, vm1, hfetch, hex⟩ := bind_ok.mp h
  by_cases hf : vm.StackFits
  · cases hgas : tierStepGas (instructionInfo vm.opAt).gasPriceTier with
    | none =>
      rw [fetch_tiers hpc hf hgas] at hfetch
      cases hfetch
    | some g =>
      rw [fetch_ok hpc hf hgas] at hfetch
      cases hfetch
      exact ⟨g, hf, rfl, hex⟩
  · rw [fetch_badStack hpc hf] at hfetch
    cases hfetch

/-- `JUMPCI` reads below the stack. -/
lemma execJumpci_outside (hst : vm.stack = [dest]) (hgas : 10 ≤ vm.ioGas) :
    ∃ vm', execJumpci 10 vm = .error (.outside .stack) vm' := by
  have hpay : updateIOGas 10 vm = .ok () { vm with ioGas := vm.ioGas - 10 } := if_neg (by omega)
  have hpeek : ∀ vm1 : VM, vm1.stack = [dest] → peek 1 vm1 = .error (.outside .stack) vm1 := by
    intro vm1 h1
    rw [peek, h1]
    rfl
  exact ⟨_, .trans (bind_of_ok hpay)
    (.trans (bind_of_ok (peek_ok hst)) (bind_of_error (hpeek _ hst)))⟩

variable (env) in
/-- **The condition is needed**: without it the step makes an access outside of an array, which is
    not the memory. -/
theorem step_outside (h : OnTrack prog vm) (hg : ¬ vm.Guarded) :
    ∃ r vm', r ≠ .memory ∧ step env .source vm = .error (.outside r) vm' := by
  have hf : vm.StackFits := by
    by_contra hf
    exact hg fun h => absurd h hf
  cases ht : tierStepGas (instructionInfo vm.opAt).gasPriceTier with
  | none => exact ⟨.tiers, vm, by decide, bind_of_error (fetch_tiers h.pc_lt hf ht)⟩
  | some g =>
    have hci : ¬ (vm.opAt = .jumpci → 2 ≤ vm.stack.length ∨ vm.ioGas < 10) := fun hci =>
      hg fun _ => ⟨by rw [ht]; exact some_ne_none g, hci⟩
    rw [Classical.not_imp, not_or] at hci
    obtain ⟨hop, hlen, hgas⟩ := hci
    have hone : vm.stack.length = 1 := by
      have := hf.1
      rw [hop] at this
      change 1 ≤ _ at this
      omega
    obtain ⟨dest, hst⟩ := length_eq_one_iff.mp hone
    obtain ⟨vm', hvm'⟩ := execJumpci_outside hst (not_lt.mp hgas)
    refine ⟨.stack, vm', by decide, ?_⟩
    rw [step, bind_of_ok (fetch_ok h.pc_lt hf ht)]
    rw [hop] at ht ⊢
    cases ht
    exact hvm'

end Step

/-! ## Whole runs -/

/-- The machines that a run comes to. -/
inductive Reached (env : StateEnv) (vm0 : VM) : VM → Prop
  | start : Reached env vm0 vm0
  | step {vm vm' : VM} : Reached env vm0 vm → step env .source vm = .ok none vm' →
      Reached env vm0 vm'

section Runs

variable {env : StateEnv} {prog : Bytes} {vm vm' : VM} {out : Option Bytes}

/-- A step that returns was under the condition. -/
lemma OnTrack.guarded (h : OnTrack prog vm)
    (hstep : step env .source vm = .ok out vm') : vm.Guarded := by
  by_contra hg
  obtain ⟨r, vm1, -, herr⟩ := step_outside env h hg
  rw [herr] at hstep
  cases hstep

lemma OnTrack.stepped (h : OnTrack prog vm)
    (hstep : step env .source vm = .ok out vm') : Stepped env prog vm out vm' :=
  (step_spec h (h.guarded hstep)).ok rfl hstep

/-- The invariant holds along every run. -/
lemma OnTrack.reached (h : OnTrack prog vm) (hr : Reached env vm vm') : OnTrack prog vm' := by
  induction hr with
  | start => exact h
  | step _ hstep ih => exact (ih.stepped hstep).onTrack

/-- **The bounds of the machine.**  At every point of every run the program counter is inside the
    program and the stack has at most 1024 items; the next step leaves the program, the stack or the
    table of tiers exactly when the condition fails. -/
theorem reached_inside (gas : U256) (ctx : ExtVM) (s : State)
    (hr : Reached env (initial gas ctx s) vm) :
    vm.pc < vm.code.length ∧ vm.stack.length ≤ 1024 ∧
      ((∀ r vm', step env .source vm ≠ .error (.outside r) vm') ↔ vm.Guarded) := by
  have h := (initial_onTrack gas ctx s).reached hr
  refine ⟨h.pc_lt, h.stack, fun hno => ?_, fun hg r vm' herr => ?_⟩
  · by_contra hg
    obtain ⟨r, vm', -, herr⟩ := step_outside env h hg
    exact hno r vm' herr
  · obtain ⟨f, hf⟩ := (step_spec h hg).error rfl herr
    cases hf

/-- A context that runs a program and nothing else. -/
def runOf (prog : Bytes) : ExtVM := ⟨0, 0, 0, 0, 0, [], prog, 0⟩

/-- A small machine that runs a program. -/
def machineOf (gas : U256) (prog : Bytes) : VM :=
  initial gas (runOf prog) (.blank ⟨[], fun _ => []⟩ 0)

/-- Two numbers are added, in two steps up to the addition. -/
theorem reached_inside_add : ∃ vm,
    Reached (.inOrder fun _ => 0) (machineOf 100 [0x60, 1, 0x60, 2, 0x01]) vm ∧ vm.stack = [2, 1] ∧
      vm.Guarded ∧ ∀ r vm', step (.inOrder fun _ => 0) .source vm ≠ .error (.outside r) vm' :=
  have hr : Reached (.inOrder fun _ => 0) (machineOf 100 [0x60, 1, 0x60, 2, 0x01]) _ :=
    .step (.step .start rfl) rfl
  ⟨_, hr, rfl, by decide,
    (reached_inside 100 (runOf [0x60, 1, 0x60, 2, 0x01]) _ hr).2.2.mpr (by decide)⟩

/-- **Without the condition the arrays are left**: at a byte that is no instruction the table of
    tiers, and at a conditional jump to a constant, with nothing else on the stack, the stack. -/
theorem undefined_byte_outside : step (.inOrder fun _ => 0) .source (machineOf 100 [0x0c]) =
        .error (.outside .tiers) (machineOf 100 [0x0c]) ∧
      ∃ vm, Reached (.inOrder fun _ => 0) (machineOf 100 [0x60, 3, 0x57, 0x5b]) vm ∧
        ∃ vm', step (.inOrder fun _ => 0) .source vm = .error (.outside .stack) vm' :=
  ⟨rfl, _, .step .start rfl, _, rfl⟩

/-- **The loop ends.**  Every step that does not halt costs gas, so as many turns as there is gas
    are enough. -/
lemma OnTrack.run_not_endless : ∀ {turns : ℕ} {vm : VM}, OnTrack prog vm → vm.ioGas < turns →
    ∀ vm', run env turns vm ≠ .error .endless vm'
  | 0, _, _, hlt, _, _ => by omega
  | turns + 1, vm, h, hlt, vm', herr => by
    rw [run] at herr
    rcases bind_error.mp herr with herr | ⟨out, vm1, hstep, herr⟩
    · by_cases hg : vm.Guarded
      · obtain ⟨f, hf⟩ := (step_spec h hg).error rfl herr
        cases hf
      · obtain ⟨r, vm1, -, hout⟩ := step_outside env h hg
        rw [hout] at herr
        cases herr
    · have hs := h.stepped hstep
      cases out with
      | some b => cases herr
      | none =>
        have hgas : vm1.ioGas < vm.ioGas := hs.gas
        exact OnTrack.run_not_endless hs.onTrack (by omega) vm' herr

/-- `exec` runs its loop to the end, since every step costs gas. -/
theorem run_not_endless (gas : U256) (ctx : ExtVM) (s : State) (vm' : VM) :
    run env (wrap64 gas.toNat + 1) (initial gas ctx s) ≠ .error .endless vm' :=
  (initial_onTrack gas ctx s).run_not_endless (lt_succ_self _) vm'

end Runs

end VM

end Ybtc
