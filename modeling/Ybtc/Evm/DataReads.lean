import Ybtc.Evm.Memory

/-!
# Reads of the call data and of code

`CALLDATALOAD`, `CALLDATACOPY`, `CODECOPY` and `EXTCODECOPY` read at any offset.  The source
compares offsets and sizes in several widths to find out how many bytes there are.  The main result
is `VM.reached_reads`.
-/

namespace Ybtc

open Stateful List

namespace VM

/-- **A copy** of a part of the data and the zeros behind it; the rest of the memory is as before.
    -/
def Copied (data : Bytes) (offset index size : ℕ) (m m' : Bytes) : Prop :=
  ∀ q, m'.getD q 0 =
    if offset ≤ q ∧ q < offset + size then data.getD (index + (q - offset)) 0 else m.getD q 0

/-- What a copy does to the machine: nothing but the stack, the memory, the gas and the program
    counter changes. -/
def CopyStep (data : Bytes) (offset index size : U256) (st : List U256) (vm vm' : VM) : Prop :=
  ∃ mem gas, vm' = { vm with stack := st, mem := mem, ioGas := gas, pc := vm.pc + 1 } ∧
    Copied data offset.toNat index.toNat size.toNat vm.mem mem

/-- The memory that a copy needs, in whole words. -/
def copyRoom (offset size : U256) : ℕ := (need offset size + 31) / 32 * 32

/-- **There is enough gas for a copy**: for the instruction, for the memory that is missing and for
    the words that are copied; and the price of the memory has 63 bits. -/
structure Affords (r : ℕ) (offset size : U256) (vm : VM) : Prop where
  price : memPrice (copyRoom offset size) ≤ int63Max
  gas : r + (memPrice (copyRoom offset size) - memPrice vm.mem.length) +
    Schedule.copyGas * ((size.toNat + 31) / 32) ≤ vm.ioGas

/-- The next step goes on with `Q` if there is enough gas; otherwise it may also fail with one of
    the exceptions of the machine. -/
structure StepMeets (env : StateEnv) (vm : VM) (enough : Prop) (Q : VM → Prop) : Prop where
  goesOn : enough → ∃ vm', step env .source vm = .ok none vm' ∧ Q vm'
  meets : Meets Faulty (fun out vm' => out = none ∧ Q vm') (step env .source vm)

section Bytes

variable {data : Bytes} {index size : ℕ}

lemma loadWord_eq (p : U256) : loadWord data p = memWord data p.toNat := by
  unfold loadWord
  split_ifs with hin hout
  · exact (memWord_of_le (by omega)).symm
  · have hz : memWord data p.toNat = memWord [] 0 := memWord_congr fun j _ => by
      rw [getD_eq_default _ _ (by omega)]
      rfl
    rw [hz]
    rfl
  · rfl

lemma copiedBytes_getD {j : ℕ} (hj : j < size) :
    (copiedBytes data index size).getD j 0 = data.getD (index + j) 0 := by
  unfold copiedBytes
  dsimp only
  rw [getD_extend, getD_eq_getElem?_getD, getElem?_take, getElem?_drop]
  by_cases hlt : index + j < data.length
  · rw [if_pos (by split_ifs <;> omega), getD_eq_getElem?_getD]
  · rw [getElem?_eq_none (by omega), ite_self, getD_eq_default _ _ (by omega)]
    rfl

end Bytes

section Copies

variable {env : StateEnv} {vm vm' : VM} {data : Bytes} {offset index size : U256} {st : List U256}

variable {out : Option Bytes}

lemma copyDataToMemory_apply (hst : vm.stack = offset :: index :: size :: st) :
    copyDataToMemory .full data vm =
      writeMem offset.toNat (copiedBytes data index.toNat size.toNat) { vm with stack := st } := by
  obtain ⟨⟩ := vm
  cases hst
  rfl

/-- The end of the copies. -/
lemma copyDataToMemory_ok (h : (copyDataToMemory .full data >>= fun _ => goOn) vm = .ok out vm')
    (hst : vm.stack = offset :: index :: size :: st) : out = none ∧ ∃ mem,
      vm' = { vm with stack := st, mem := mem, pc := vm.pc + 1 } ∧
        Copied data offset.toNat index.toNat size.toNat vm.mem mem := by
  have hlen := copiedBytes_length data index.toNat size.toNat
  rw [bind_apply, copyDataToMemory_apply hst, writeMem] at h
  split_ifs at h with hnil hle
  · cases h
    rw [hnil] at hlen
    exact ⟨rfl, _, rfl, fun q => (if_neg (by simp at hlen; omega)).symm⟩
  · cases h
    refine ⟨rfl, _, rfl, fun q => ?_⟩
    split_ifs with hq
    · have hin := overwritten_inside hle (j := q - offset.toNat) (by omega)
      rw [copiedBytes_getD (by omega), Nat.add_sub_cancel' hq.1] at hin
      exact hin
    · exact overwritten_outside hle (by omega)

/-- The beginning of the copies makes room and pays. -/
lemma pay_ok {x : VmM (Option Bytes)} {r : ℕ}
    (h : (toInt63 size.toNat >>= fun copy => memNeed offset size >>= fun need =>
      payMem r need copy >>= fun _ => x) vm = .ok out vm') :
    ∃ k gas, x { vm with mem := vm.mem ++ List.replicate k 0, ioGas := gas } = .ok out vm' := by
  obtain ⟨copy, vm1, h1, h⟩ := bind_ok.mp h
  have e1 := (toInt63_returns (P := (· = vm)) _).ok rfl h1
  obtain ⟨need, vm2, h2, h⟩ := bind_ok.mp h
  have e2 := (toInt63_returns (P := (· = vm)) _).ok e1 h2
  obtain ⟨_, vm3, h3, h⟩ := bind_ok.mp h
  obtain ⟨k, gas, rfl⟩ := (payMem_grows _ _ _).ok e2 h3
  exact ⟨k, gas, h⟩

lemma execCopy_ok {f : ExtVM → Bytes} {g : ℕ} (hst : vm.stack = offset :: index :: size :: st)
    (h : execCopy .full f g vm = .ok out vm') :
    out = none ∧ CopyStep (f vm.ctx) offset index size st vm vm' := by
  have h0 : peek 0 vm = .ok offset vm := peek_ok (by rw [hst]; rfl)
  have h2 : peek 2 vm = .ok size vm := peek_ok (by rw [hst]; rfl)
  rw [execCopy, execCopyWith, bind_of_ok h0, bind_of_ok h2] at h
  obtain ⟨k, gas, h⟩ := pay_ok h
  change (copyDataToMemory .full (f vm.ctx) >>= fun _ => goOn) _ = _ at h
  obtain ⟨hout, mem, rfl, hmem⟩ := copyDataToMemory_ok h hst
  exact ⟨hout, mem, gas, rfl, fun q => (hmem q).trans (by rw [getD_extend])⟩

lemma execExtcodecopy_ok {a : U256} (hst : vm.stack = a :: offset :: index :: size :: st)
    (h : execExtcodecopy env .full vm = .ok out vm') : out = none ∧ ∃ code s',
      State.code env (asAddress a) vm.state = .ok code s' ∧
        CopyStep code offset index size st { vm with state := s' } vm' := by
  have h1 : peek 1 vm = .ok offset vm := peek_ok (by rw [hst]; rfl)
  have h3 : peek 3 vm = .ok size vm := peek_ok (by rw [hst]; rfl)
  rw [execExtcodecopy, execExtcodecopyWith, bind_of_ok h1, bind_of_ok h3] at h
  obtain ⟨k, gas, h⟩ := pay_ok h
  rw [bind_of_ok (show pop _ = .ok a _ by rw [pop, hst])] at h
  obtain ⟨code, vm1, hcode, h⟩ := bind_ok.mp h
  unfold onState at hcode
  dsimp only at hcode
  cases hs : State.code env (asAddress a) vm.state with
  | error e s' =>
    rw [hs] at hcode
    cases hcode
  | ok b s' =>
    rw [hs] at hcode
    cases hcode
    obtain ⟨hout, mem, rfl, hmem⟩ := copyDataToMemory_ok h rfl
    exact ⟨hout, _, s', rfl, mem, gas, rfl, fun q => (hmem q).trans (by rw [getD_extend])⟩

/-- A copy that can be paid for has offsets of 63 bits. -/
lemma Affords.need_le {r : ℕ} (h : Affords r offset size vm) : need offset size ≤ int63Max := by
  by_contra hlong
  have hroom : 2 ^ 63 ≤ copyRoom offset size := by
    unfold int63Max at hlong
    unfold copyRoom
    omega
  exact absurd ((memPrice_mono hroom).trans h.price) (by decide)

lemma Affords.size_le {r : ℕ} (h : Affords r offset size vm) : size.toNat ≤ int63Max := by
  have hneed := h.need_le
  unfold need at hneed
  split_ifs at hneed with h0
  · rw [h0]
    exact Nat.zero_le _
  · omega

/-- The beginning of the copies goes through with enough gas. -/
lemma Affords.pay_goesOn {x : VmM (Option Bytes)} {r : ℕ} (ha : Affords r offset size vm)
    (hr : r ≤ 20) (hx : ∀ k gas, need offset size ≤ (vm.mem ++ List.replicate k 0).length →
      ∃ vm', x { vm with mem := vm.mem ++ List.replicate k 0, ioGas := gas } = .ok none vm') :
    ∃ vm', (toInt63 size.toNat >>= fun copy => memNeed offset size >>= fun need =>
      payMem r need copy >>= fun _ => x) vm = .ok none vm' := by
  have hpay : payMem r (need offset size) size.toNat vm = _ :=
    payMem_ok (copyGas_le hr ha.size_le) (fun _ => ha.price) ha.gas
  obtain ⟨vm', hvm'⟩ := hx (copyRoom offset size - vm.mem.length) _ (by
    rw [length_append, length_replicate]
    unfold copyRoom
    omega)
  exact ⟨vm', .trans (bind_of_ok (toInt63_ok ha.size_le)) (.trans
    (bind_of_ok (toInt63_ok ha.need_le)) ((bind_of_ok hpay).trans hvm'))⟩

/-- The end of the copies needs only the room. -/
lemma copyDataToMemory_goesOn (hst : vm.stack = offset :: index :: size :: st)
    (hroom : need offset size ≤ vm.mem.length) :
    ∃ vm', (copyDataToMemory .full data >>= fun _ => goOn) vm = .ok none vm' := by
  have hlen := copiedBytes_length data index.toNat size.toNat
  rw [bind_apply, copyDataToMemory_apply hst, writeMem]
  by_cases hnil : copiedBytes data index.toNat size.toNat = []
  · rw [if_pos hnil]
    exact ⟨_, rfl⟩
  · have hpos := length_pos_of_ne_nil hnil
    have h0 : size ≠ 0 := by
      rintro rfl
      rw [hlen] at hpos
      cases hpos
    rw [need, if_neg h0] at hroom
    rw [if_neg hnil, if_pos (by dsimp only; omega)]
    exact ⟨_, rfl⟩

lemma execCopy_goesOn {f : ExtVM → Bytes} {g : ℕ} (hst : vm.stack = offset :: index :: size :: st)
    (hg : g ≤ 20) (ha : Affords g offset size vm) :
    ∃ vm', execCopy .full f g vm = .ok none vm' := by
  have h0 : peek 0 vm = .ok offset vm := peek_ok (by rw [hst]; rfl)
  have h2 : peek 2 vm = .ok size vm := peek_ok (by rw [hst]; rfl)
  rw [execCopy, execCopyWith, bind_of_ok h0, bind_of_ok h2]
  exact ha.pay_goesOn hg fun k gas hroom => copyDataToMemory_goesOn hst hroom

lemma execExtcodecopy_goesOn {a : U256} (hst : vm.stack = a :: offset :: index :: size :: st)
    (ha : Affords Schedule.extcodecopyGas offset size vm)
    (hcode : ∃ code s', State.code env (asAddress a) vm.state = .ok code s') :
    ∃ vm', execExtcodecopy env .full vm = .ok none vm' := by
  obtain ⟨code, s', hcode⟩ := hcode
  have h1 : peek 1 vm = .ok offset vm := peek_ok (by rw [hst]; rfl)
  have h3 : peek 3 vm = .ok size vm := peek_ok (by rw [hst]; rfl)
  rw [execExtcodecopy, execExtcodecopyWith, bind_of_ok h1, bind_of_ok h3]
  refine ha.pay_goesOn (by decide) fun k gas hroom => ?_
  rw [bind_of_ok (show pop _ = .ok a _ by rw [pop, hst])]
  have hend : ∀ vm1 : VM, vm1.stack = offset :: index :: size :: st → vm1.state = vm.state →
      need offset size ≤ vm1.mem.length → ∃ vm',
        (onState (State.code env (asAddress a)) >>= fun data =>
        copyDataToMemory .full data >>= fun _ => goOn) vm1 = .ok none vm' := by
    intro vm1 hst1 hstate hroom1
    have hread : onState (State.code env (asAddress a)) vm1 =
        .ok code { vm1 with state := s' } := by
      rw [onState, hstate, hcode]
    rw [bind_of_ok hread]
    exact copyDataToMemory_goesOn hst1 hroom1
  exact hend _ rfl rfl hroom

/-- What the instruction does is what the step does. -/
lemma OnTrack.stepMeets {prog : Bytes} {enough : Prop} {Q : VM → Prop} {op : Instruction} {g : ℕ}
    (h : OnTrack prog vm) (hop : vm.opAt = op)
    (hmem : op ∈ [Instruction.calldataload, .calldatacopy, .codecopy, .extcodecopy])
    (hargs : (instructionInfo op).args ≤ vm.stack.length)
    (hg : tierStepGas (instructionInfo op).gasPriceTier = some g)
    (hgo : enough → ∃ vm', execute env .full op g vm = .ok none vm')
    (hQ : ∀ out vm', execute env .full op g vm = .ok out vm' → out = none ∧ Q vm') :
    StepMeets env vm enough Q := by
  subst hop
  simp only [mem_cons, not_mem_nil, or_false] at hmem
  have hguard : vm.Guarded := fun _ => by
    rcases hmem with hop | hop | hop | hop <;> simp [hop] <;> decide
  have hs : vm.ShortOffset := fun hm => by
    rcases hmem with hop | hop | hop | hop <;> simp [hop] at hm
  -- None of the four leaves more on the stack than it takes off.
  have hret : (instructionInfo vm.opAt).ret ≤ (instructionInfo vm.opAt).args := by
    rcases hmem with hop | hop | hop | hop <;> rw [hop] <;> decide
  have hfits : vm.StackFits := ⟨hargs, by have := h.stack; omega⟩
  have hfull : step env .source vm = step env .full vm := step_source_eq_full h.pc_lt hs
  refine ⟨fun henough => ?_, ?_⟩
  · obtain ⟨vm', hex⟩ := hgo henough
    exact ⟨vm', hfull.trans ((bind_of_ok (fetch_ok h.pc_lt hfits hg)).trans hex), (hQ _ _ hex).2⟩
  cases hstep : step env .source vm with
  | error e vm' => exact (step_spec h hguard).error rfl hstep
  | ok out vm' =>
    rw [hfull] at hstep
    obtain ⟨g', -, hg', hex⟩ := step_ok h.pc_lt hstep
    obtain rfl := Option.some.inj (hg.symm.trans hg')
    exact hQ out vm' hex

/-- An instruction on the top of the stack, with enough gas. -/
lemma unary_ok {f : U256 → U256} {p : U256} {g : ℕ} (hst : vm.stack = p :: st)
    (hgas : g ≤ vm.ioGas) :
    unary f g vm =
      .ok none { vm with stack := f p :: st, ioGas := vm.ioGas - g, pc := vm.pc + 1 } := by
  have hpay : updateIOGas g vm = .ok () { vm with ioGas := vm.ioGas - g } :=
    if_neg (not_lt.mpr hgas)
  have hpop : pop { vm with ioGas := vm.ioGas - g } = .ok p _ := pop_ok hst
  rw [unary, bind_of_ok hpay, bind_of_ok hpop]
  rfl

end Copies

/-- **Reads are padded with zeros.**  At every point of every run, whatever the offsets and the size
    on the stack are, the next step fails with an exception of the machine, or `CALLDATALOAD` pushes
    the word at its offset of the call data, and the three copies write the range of the memory they
    are asked for, and nothing else, with the bytes of the call data, of the code or of the code of
    the account, all followed by zeros.  With enough gas the step does not fail (for the code of an
    account the state has to know it). -/
theorem reached_reads {env : StateEnv} {vm : VM} (gas : U256) (ctx : ExtVM) (s : State)
    (hr : Reached env (initial gas ctx s) vm) :
    (∀ p st, vm.opAt = .calldataload → vm.stack = p :: st → StepMeets env vm (3 ≤ vm.ioGas)
      fun vm' => vm' = { vm with
        stack := memWord vm.ctx.data p.toNat :: st, ioGas := vm.ioGas - 3, pc := vm.pc + 1 }) ∧
    (∀ offset index size st, vm.stack = offset :: index :: size :: st →
      (vm.opAt = .calldatacopy → StepMeets env vm (Affords 3 offset size vm)
        (CopyStep vm.ctx.data offset index size st vm)) ∧
      (vm.opAt = .codecopy → StepMeets env vm (Affords 3 offset size vm)
        (CopyStep vm.ctx.code offset index size st vm))) ∧
    ∀ a offset index size st, vm.opAt = .extcodecopy →
      vm.stack = a :: offset :: index :: size :: st → StepMeets env vm
        (Affords Schedule.extcodecopyGas offset size vm ∧
          ∃ code s', State.code env (asAddress a) vm.state = .ok code s')
        fun vm' => ∃ code s', State.code env (asAddress a) vm.state = .ok code s' ∧
          CopyStep code offset index size st { vm with state := s' } vm' := by
  have h := (initial_onTrack gas ctx s).reached hr
  have hargs : ∀ {as st : List U256}, vm.stack = as ++ st → as.length ≤ vm.stack.length :=
    fun hst => by rw [hst, length_append]; exact Nat.le_add_right _ _
  refine ⟨fun p st hop hst => ?_, fun offset index size st hst => ⟨fun hop => ?_, fun hop => ?_⟩,
    fun a offset index size st hop hst => ?_⟩
  · refine h.stepMeets hop (by decide) (@hargs [_] _ hst) rfl
      (fun hgas => ⟨_, unary_ok (f := loadWord vm.ctx.data) hst hgas⟩) fun out vm' hex => ?_
    by_cases hgas : 3 ≤ vm.ioGas
    · have hok := unary_ok (f := loadWord vm.ctx.data) hst hgas
      cases hok.symm.trans hex
      exact ⟨rfl, by rw [loadWord_eq]⟩
    · have herr : unary (loadWord vm.ctx.data) 3 vm = _ := bind_of_error (if_pos (not_le.mp hgas))
      cases herr.symm.trans hex
  · exact h.stepMeets hop (by decide) (@hargs [_, _, _] _ hst) rfl
      (execCopy_goesOn hst (by decide)) fun _ _ => execCopy_ok hst
  · exact h.stepMeets hop (by decide) (@hargs [_, _, _] _ hst) rfl
      (execCopy_goesOn hst (by decide)) fun _ _ => execCopy_ok hst
  · exact h.stepMeets hop (by decide) (@hargs [_, _, _, _] _ hst) rfl
      (fun henough => execExtcodecopy_goesOn hst henough.1 henough.2) fun _ _ =>
        execExtcodecopy_ok hst

/-- The last bytes of a program of seven bytes are copied, with a zero behind them. -/
theorem reached_reads_codecopy : ∃ vm vm',
    Reached (.inOrder fun _ => 0) (machineOf 100 [0x60, 5, 0x60, 3, 0x60, 0, 0x39]) vm ∧
      vm.opAt = .codecopy ∧ vm.stack = [0, 3, 5] ∧ Affords 3 0 5 vm ∧
        step (.inOrder fun _ => 0) .source vm = .ok none vm' ∧
          CopyStep [0x60, 5, 0x60, 3, 0x60, 0, 0x39] 0 3 5 [] vm vm' := by
  obtain ⟨vm, hr, hop, hst, hcode, hgas⟩ : ∃ vm,
      Reached (.inOrder fun _ => 0) (machineOf 100 [0x60, 5, 0x60, 3, 0x60, 0, 0x39]) vm ∧
        vm.opAt = .codecopy ∧ vm.stack = [0, 3, 5] ∧
          vm.ctx.code = [0x60, 5, 0x60, 3, 0x60, 0, 0x39] ∧ Affords 3 0 5 vm :=
    ⟨_, .step (.step (.step .start rfl) rfl) rfl, rfl, rfl, rfl, by decide, by decide⟩
  obtain ⟨vm', hstep, hcopy⟩ :=
    (((reached_reads 100 (runOf _) _ hr).2.1 0 3 5 [] hst).2 hop).goesOn hgas
  rw [hcode] at hcopy
  exact ⟨vm, vm', hr, hop, hst, hgas, hstep, hcopy⟩

end VM

end Ybtc
