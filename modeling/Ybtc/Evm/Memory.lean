import Ybtc.Evm.Bounds

/-!
# The memory of the machine

An instruction makes room in memory for the offset and the size on the stack, and then casts the
offset to a narrower type: to 64 bits, and for `MLOAD`, `MSTORE` and `MSTORE8` to 32 bits.
-/

namespace Ybtc

open Stateful List Nat

namespace VM

/-! ## Casts -/

/-- The offset of a memory instruction has 32 bits. -/
def ShortOffset (vm : VM) : Prop :=
  vm.opAt = .mload ∨ vm.opAt = .mstore ∨ vm.opAt = .mstore8 →
    ∀ p ∈ vm.stack.head?, p.toNat < 2 ^ 32

/-- A triple that says nothing of failures. -/
abbrev Returns {α : Type} (P : VM → Prop) (x : VmM α) (Q : α → VM → Prop) : Prop :=
  Triple (fun _ => True) P x Q

section Rules

variable {α : Type} {P : VM → Prop} {vm : VM} {st : List U256} {a offset size : U256} {i : ℕ}

lemma toInt63_returns (v : ℕ) : Returns P (toInt63 v) fun _ => P :=
  Triple.ite (fun _ => Triple.throw trivial) fun _ => Triple.pure fun _ h => h

lemma memGas_returns (r n : ℕ) : Returns P (memGas r n) fun _ => P := by
  have hsize : Returns P memSize fun _ => P := fun _ h => h
  exact hsize.bind fun _ => Triple.ite (fun _ => (toInt63_returns _).bind fun _ =>
    (toInt63_returns _).bind fun _ => (toInt63_returns _).bind fun _ => Triple.pure fun _ h => h)
      fun _ => Triple.pure fun _ h => h

/-- Room is made with zeros. -/
lemma payMem_grows (r n c : ℕ) : Returns (· = vm) (payMem r n c) fun _ vm' =>
    ∃ k gas, vm' = { vm with mem := vm.mem ++ replicate k 0, ioGas := gas } := by
  have hgas : Returns (· = vm) (updateGas r ((n + 31) / 32 * 32) c) fun _ => (· = vm) :=
    (memGas_returns _ _).bind fun r s hs => by
      split_ifs
      · exact trivial
      · exact hs
  refine (hgas.bind fun r => Triple.bind (Q := fun _ vm' => ∃ k, vm' = { vm with
    mem := vm.mem ++ replicate k 0 }) ?_ fun _ => Triple.pure fun _ h => h).bind fun r => ?_
  · rintro _ rfl
    exact ⟨_, rfl⟩
  · rintro _ ⟨k, rfl⟩
    unfold updateIOGas
    split_ifs
    · exact trivial
    · exact ⟨k, _, rfl⟩

lemma onState_stack (x : ScM α) : Returns (·.stack = st) (onState x) fun _ vm => vm.stack = st := by
  intro vm hvm
  unfold onState
  cases x vm.state with
  | ok a s => exact hvm
  | error e s => exact trivial

lemma pop_congr {f f' : U256 → VmM α} (h : vm.stack = a :: st)
    (hf : f a { vm with stack := st } = f' a { vm with stack := st }) :
    (pop >>= f) vm = (pop >>= f') vm := by
  rw [bind_of_ok (pop_ok h), bind_of_ok (pop_ok h), hf]

lemma toInt63_congr {n : ℕ} {f f' : ℕ → VmM α} (hf : ∀ n, f n vm = f' n vm) :
    (toInt63 n >>= f) vm = (toInt63 n >>= f') vm :=
  (toInt63_returns (P := (· = vm)) n).bind_congr rfl fun n _ h => h ▸ hf n

/-- Behind the room that is made for an offset and a size, neither is too large. -/
lemma room_congr {r c : ℕ} {k k' : VmM α}
    (hk : need offset size ≤ int63Max → ∀ vm' : VM, vm'.stack = vm.stack → k vm' = k' vm') :
    (memNeed offset size >>= fun n => payMem r n c >>= fun _ => k) vm =
      (memNeed offset size >>= fun n => payMem r n c >>= fun _ => k') vm := by
  refine (memNeed_spec (P := (· = vm)) _ _).bind_congr rfl fun n vm1 ⟨_, hn, h1⟩ => ?_
  exact (payMem_grows r n c).bind_congr h1 fun _ vm2 ⟨_, _, h2⟩ => hk hn vm2 (by rw [h2])

end Rules

section Casts

variable {env : StateEnv} {vm vm' : VM} {st : List U256} {offset index size p v : U256} {g : ℕ}

lemma readMem_full (h : need offset size ≤ int63Max) :
    readMem (Indexing.source.long offset) (Indexing.source.long size) =
      readMem (Indexing.full.long offset) (Indexing.full.long size) := by
  obtain ⟨hs, ho⟩ := long_source_of_need h
  have hfull : Indexing.full.long = BitVec.toNat := rfl
  rw [hs, hfull]
  by_cases h0 : size.toNat = 0
  · funext vm
    unfold readMem
    rw [if_pos h0, if_pos h0]
  · rw [ho h0]

lemma copyDataToMemory_full {data : Bytes} (h : need offset size ≤ int63Max)
    (hst : vm.stack = offset :: index :: size :: st) :
    copyDataToMemory .source data vm = copyDataToMemory .full data vm := by
  obtain ⟨hs, ho⟩ := long_source_of_need h
  have hfull : Indexing.full.long = BitVec.toNat := rfl
  refine pop_congr hst (pop_congr rfl (pop_congr rfl ?_))
  rw [hs, hfull]
  by_cases h0 : size.toNat = 0
  · have hnil : copiedBytes data index.toNat size.toNat = [] := by
      rw [← length_eq_zero_iff, copiedBytes_length, h0]
    unfold writeMem
    rw [hnil, if_pos rfl, if_pos rfl]
  · rw [ho h0]

lemma mload_full (hp : p.toNat < 2 ^ 32) (hst : vm.stack = p :: st) :
    mload .source g vm = mload .full g vm := by
  refine peek_congr hst (toInt63_congr fun n => (payMem_grows _ _ _).bind_congr rfl ?_)
  rintro _ _ ⟨k, gas, rfl⟩
  refine pop_congr hst ?_
  rw [show Indexing.source.word p = Indexing.full.word p from mod_eq_of_lt hp]

lemma store_full {width : ℕ} {f : U256 → Bytes} (hp : p.toNat < 2 ^ 32)
    (hst : vm.stack = p :: v :: st) : store .source width f g vm = store .full width f g vm := by
  refine peek_congr hst (toInt63_congr fun n => (payMem_grows _ _ _).bind_congr rfl ?_)
  rintro _ _ ⟨k, gas, rfl⟩
  refine pop_congr hst (pop_congr rfl ?_)
  rw [show Indexing.source.word p = Indexing.full.word p from mod_eq_of_lt hp]

lemma execSha3_full {sha3 : Bytes → Uint256} (hst : vm.stack = offset :: size :: st) :
    execSha3 .source sha3 vm = execSha3 .full sha3 vm := by
  refine peek_congr hst (peek_congr (by rw [hst]; rfl) (toInt63_congr fun _ => ?_))
  refine room_congr fun hn vm' hst' => ?_
  exact pop_congr (hst'.trans hst) (pop_congr rfl (by rw [readMem_full hn]))

lemma execLog_full {n : ℕ} (hst : vm.stack = offset :: size :: st) :
    execLog .source n vm = execLog .full n vm := by
  refine peek_congr hst (peek_congr (by rw [hst]; rfl) (toInt63_congr fun _ => ?_))
  refine room_congr fun hn vm' hst' => ?_
  exact pop_congr (hst'.trans hst) (pop_congr rfl (by rw [readMem_full hn]))

lemma execCopy_full {data : ExtVM → Bytes} (hst : vm.stack = offset :: index :: size :: st) :
    execCopy .source data g vm = execCopy .full data g vm := by
  refine peek_congr hst (peek_congr (by rw [hst]; rfl) (toInt63_congr fun _ => ?_))
  refine room_congr fun hn vm' hst' => ?_
  change (copyDataToMemory .source (data vm'.ctx) >>= fun _ => goOn) vm' =
    (copyDataToMemory .full (data vm'.ctx) >>= fun _ => goOn) vm'
  rw [bind_apply, bind_apply, copyDataToMemory_full hn (hst'.trans hst)]

lemma execExtcodecopy_full (hst : vm.stack = p :: offset :: index :: size :: st) :
    execExtcodecopy env .source vm = execExtcodecopy env .full vm := by
  refine peek_congr (by rw [hst]; rfl) (peek_congr (by rw [hst]; rfl) (toInt63_congr fun _ => ?_))
  refine room_congr fun hn vm' hst' => pop_congr (hst'.trans hst) ?_
  refine (onState_stack _).bind_congr rfl fun data vm1 hst1 => ?_
  rw [bind_apply, bind_apply, copyDataToMemory_full hn hst1]

lemma execReturn_full (hst : vm.stack = offset :: size :: st) :
    execReturn .source g vm = execReturn .full g vm := by
  refine peek_congr hst (peek_congr (by rw [hst]; rfl) ?_)
  refine room_congr fun hn vm' hst' => ?_
  exact pop_congr (hst'.trans hst) (pop_congr rfl (by rw [readMem_full hn]))

/-- **No offset is cut**, as long as it is short. -/
lemma execute_full {op : Instruction} {as : List U256} (has : as.length = (instructionInfo op).args)
    (hst : vm.stack = as ++ st)
    (hp : op = .mload ∨ op = .mstore ∨ op = .mstore8 → ∀ p ∈ as.head?, p.toNat < 2 ^ 32) :
    execute env .source op g vm = execute env .full op g vm := by
  cases op with
  | mload =>
    obtain ⟨p, rfl⟩ := length_eq_one_iff.mp has
    exact mload_full (hp (Or.inl rfl) p rfl) hst
  | mstore =>
    obtain ⟨p, v, rfl⟩ := length_eq_two.mp has
    exact store_full (hp (Or.inr (Or.inl rfl)) p rfl) hst
  | mstore8 =>
    obtain ⟨p, v, rfl⟩ := length_eq_two.mp has
    exact store_full (hp (Or.inr (Or.inr rfl)) p rfl) hst
  | sha3 =>
    obtain ⟨a, b, rfl⟩ := length_eq_two.mp has
    exact execSha3_full hst
  | log n =>
    obtain ⟨a, rest, rfl⟩ := exists_cons_of_length_eq_add_one has
    obtain ⟨b, topics, rfl⟩ := exists_cons_of_length_eq_add_one (succ_injective has)
    exact execLog_full hst
  | calldatacopy | codecopy =>
    obtain ⟨a, b, c, rfl⟩ := length_eq_three.mp has
    exact execCopy_full hst
  | extcodecopy =>
    obtain ⟨a, rest, rfl⟩ := exists_cons_of_length_eq_add_one has
    obtain ⟨b, c, d, rfl⟩ := length_eq_three.mp (succ_injective has)
    exact execExtcodecopy_full hst
  | «return» =>
    obtain ⟨a, b, rfl⟩ := length_eq_two.mp has
    exact execReturn_full hst
  | _ => rfl

/-- **The offsets of the source are the full offsets.**  The casts to 64 bits lose nothing, since
    larger offsets cannot be paid for; those to 32 bits lose nothing as long as the offset is short.
    -/
theorem step_source_eq_full (hpc : vm.pc < vm.code.length) (hs : vm.ShortOffset) :
    step env .source vm = step env .full vm := by
  unfold step
  by_cases hf : vm.StackFits
  · cases hgas : tierStepGas (instructionInfo vm.opAt).gasPriceTier with
    | none =>
      rw [bind_of_error (fetch_tiers hpc hf hgas), bind_of_error (fetch_tiers hpc hf hgas)]
    | some g =>
      rw [bind_of_ok (fetch_ok hpc hf hgas), bind_of_ok (fetch_ok hpc hf hgas)]
      obtain ⟨as, st, hst, has, -⟩ := hf.split
      refine execute_full has hst fun hop p hp => hs hop p ?_
      rw [hst]
      cases as with
      | nil => cases hp
      | cons a as => exact hp
  · rw [bind_of_error (fetch_badStack hpc hf), bind_of_error (fetch_badStack hpc hf)]

end Casts

/-! ## Words -/

/-- The word at an offset of the memory; behind its end there are zeros. -/
def memWord (mem : Bytes) (p : ℕ) : U256 :=
  BitVec.ofNat 256 (readBE ((range 32).map fun j => mem.getD (p + j) 0))

section Words

variable {m : Bytes} {p q : ℕ}

lemma memWord_congr {m' : Bytes} (h : ∀ j < 32, m'.getD (q + j) 0 = m.getD (p + j) 0) :
    memWord m' q = memWord m p := by
  unfold memWord
  rw [map_congr_left fun j hj => h j (mem_range.mp hj)]

/-- More zeros behind the end make no difference. -/
lemma getD_extend (k : ℕ) : (m ++ replicate k 0).getD p 0 = m.getD p 0 := by
  rw [getD_eq_getElem?_getD, getD_eq_getElem?_getD]
  by_cases hlt : p < m.length
  · rw [getElem?_append_left hlt]
  · rw [getElem?_append_right (by omega), getElem?_eq_none (l := m) (by omega), getElem?_replicate]
    split_ifs <;> rfl

lemma memWord_extend (k : ℕ) : memWord (m ++ replicate k 0) p = memWord m p :=
  memWord_congr fun _ _ => getD_extend k

/-- The bytes of a word that is inside the memory. -/
lemma memWord_of_le (h : p + 32 ≤ m.length) :
    memWord m p = BitVec.ofNat 256 (readBE ((m.drop p).take 32)) := by
  have hbytes : (range 32).map (fun j => m.getD (p + j) 0) = (m.drop p).take 32 := by
    refine ext_getElem? fun j => ?_
    rw [getElem?_map, getElem?_take, getElem?_drop]
    by_cases hj : j < 32
    · rw [getElem?_range hj, if_pos hj, Option.map_some, getD_eq_getElem?_getD,
        getElem?_eq_getElem (by omega), Option.getD_some]
    · rw [getElem?_eq_none (by rw [length_range]; omega), if_neg hj, Option.map_none]
  rw [memWord, hbytes]

/-- Bytes are written over a part of the memory. -/
def overwritten (m : Bytes) (i : ℕ) (b : Bytes) : Bytes := m.take i ++ b ++ m.drop (i + b.length)

variable {b : Bytes} {i j : ℕ}

lemma overwritten_inside (h : i + b.length ≤ m.length) (hj : j < b.length) :
    (overwritten m i b).getD (i + j) 0 = b.getD j 0 := by
  have hlen : (m.take i).length = i := by rw [length_take]; omega
  rw [overwritten, append_assoc, getD_eq_getElem?_getD,
    getElem?_append_right (by omega), hlen, Nat.add_sub_cancel_left,
    getElem?_append_left hj, getD_eq_getElem?_getD]

lemma overwritten_outside (h : i + b.length ≤ m.length) (hj : j < i ∨ i + b.length ≤ j) :
    (overwritten m i b).getD j 0 = m.getD j 0 := by
  have hlen : (m.take i).length = i := by rw [length_take]; omega
  rw [overwritten, append_assoc, getD_eq_getElem?_getD, getD_eq_getElem?_getD]
  rcases hj with hj | hj
  · rw [getElem?_append_left (by omega), getElem?_take, if_pos hj]
  · rw [getElem?_append_right (by omega), hlen, getElem?_append_right (by omega), getElem?_drop]
    congr 2
    omega

/-- **A word that was written is there**, and the words that do not overlap with it are as before.
    -/
lemma memWord_overwritten {v : U256} (h : i + 32 ≤ m.length) :
    memWord (overwritten m i (hashBytes v)) i = v ∧
      ∀ q, q + 32 ≤ i ∨ i + 32 ≤ q → memWord (overwritten m i (hashBytes v)) q = memWord m q := by
  have hlen := hashBytes_length v
  constructor
  · have hword : memWord (overwritten m i (hashBytes v)) i = memWord (hashBytes v) 0 :=
      memWord_congr fun j hj => by
        rw [overwritten_inside (by omega) (by omega), zero_add]
    rw [hword, memWord_of_le (by omega), drop_zero, take_of_length_le hlen.le,
      readBE_hashBytes, BitVec.ofNat_toNat, BitVec.setWidth_eq]
  · exact fun q hq => memWord_congr fun j hj => overwritten_outside (by omega) (by omega)

end Words

/-! ## The laws of the memory -/

/-- The stack, and a memory to which zeros may have been added. -/
def Extends (m : Bytes) (st : List U256) (vm : VM) : Prop :=
  vm.stack = st ∧ ∃ k, vm.mem = m ++ replicate k 0

section Laws

variable {m : Bytes} {st : List U256}

variable {P : VM → Prop}

lemma payMem_returns (r n c : ℕ) : Returns (Extends m st) (payMem r n c) fun _ => Extends m st := by
  rintro vm ⟨hst, k, hk⟩
  refine (payMem_grows r n c).weaken ?_ vm rfl
  rintro _ _ ⟨k', gas, rfl⟩
  refine ⟨hst, k + k', ?_⟩
  dsimp only
  rw [hk, append_assoc, ← replicate_add]

lemma peek_returns {a : U256} :
    Returns (Extends m (a :: st)) (peek 0) fun b vm => b = a ∧ Extends m (a :: st) vm := by
  intro vm hvm
  rw [show peek 0 vm = _ from peek_ok hvm.1]
  exact ⟨rfl, hvm⟩

lemma pop_returns {a : U256} :
    Returns (Extends m (a :: st)) pop fun b vm => b = a ∧ Extends m st vm := by
  intro vm hvm
  rw [pop_ok hvm.1]
  exact ⟨rfl, rfl, hvm.2⟩

/-- The end of an instruction changes only the program counter. -/
lemma goOn_returns (hP : ∀ vm : VM, P vm → P { vm with pc := vm.pc + 1 }) :
    Returns P goOn fun _ => P := by
  refine Triple.bind (Q := fun _ => P) (fun vm h => ?_) fun _ => Triple.pure fun _ h => h
  exact hP vm h

/-- **`MLOAD` pushes the word at its offset**, and no word of the memory changes. -/
lemma mload_reads (ix : Indexing) (g : ℕ) {p : U256} :
    Returns (Extends m (p :: st)) (mload ix g) fun _ =>
      Extends m (memWord m (ix.word p) :: st) := by
  refine peek_returns.bind_value ((toInt63_returns _).bind fun n => (payMem_returns _ _ _).bind
    fun _ => pop_returns.bind_value (Triple.bind (Q := fun b vm =>
      BitVec.ofNat 256 (readBE b) = memWord m (ix.word p) ∧ Extends m st vm) ?_ fun b =>
        Triple.of_fact fun hb => Triple.bind (Q := fun _ =>
          Extends m (memWord m (ix.word p) :: st)) ?_ fun _ => ?_))
  · rintro vm ⟨hst, k, hk⟩
    unfold readMem
    rw [if_neg (by decide)]
    split_ifs with hle
    · refine ⟨?_, hst, k, hk⟩
      rw [← memWord_of_le hle, hk, memWord_extend]
    · exact trivial
  · rintro vm ⟨hst, hk⟩
    refine ⟨?_, hk⟩
    dsimp only
    rw [hst, hb]
  · exact goOn_returns fun _ h => h

/-- **`MSTORE` writes the word at its offset** and no other one. -/
lemma store_writes (ix : Indexing) (g : ℕ) {p v : U256} :
    Returns (Extends m (p :: v :: st)) (store ix 32 hashBytes g) fun _ vm =>
      memWord vm.mem (ix.word p) = v ∧
        ∀ q, q + 32 ≤ ix.word p ∨ ix.word p + 32 ≤ q → memWord vm.mem q = memWord m q := by
  refine peek_returns.bind_value ((toInt63_returns _).bind fun n => (payMem_returns _ _ _).bind
    fun _ => pop_returns.bind_value (pop_returns.bind_value (Triple.bind (Q := fun _ vm =>
      memWord vm.mem (ix.word p) = v ∧ ∀ q, q + 32 ≤ ix.word p ∨ ix.word p + 32 ≤ q →
        memWord vm.mem q = memWord m q) ?_ fun _ => ?_)))
  · rintro vm ⟨hst, k, hk⟩
    unfold writeMem
    rw [if_neg (by rw [← length_eq_zero_iff, hashBytes_length]; decide)]
    split_ifs with hle
    · rw [hashBytes_length] at hle
      have hw := memWord_overwritten (v := v) hle
      refine ⟨hw.1, fun q hq => (hw.2 q hq).trans ?_⟩
      rw [hk, memWord_extend]
    · exact trivial
  · exact goOn_returns fun _ h => h

end Laws

/-! ## Whole runs -/

section Runs

variable {env : StateEnv} {vm vm' : VM}

end Runs

/-! ## Payments that go through -/

section Payments

variable {vm : VM} {r n c : ℕ}

lemma toInt63_ok {v : ℕ} (h : v ≤ int63Max) : toInt63 v vm = .ok v vm := by
  have hle : ¬ 0x7fffffffffffffff < v := not_lt.mpr h
  unfold toInt63
  rw [if_neg hle]
  rfl

/-- The price of the room that is missing; what is there was paid for before. -/
lemma memGas_ok (hr : r ≤ 2 ^ 63) (hmax : vm.mem.length < n → memPrice n ≤ int63Max) :
    memGas r n vm = .ok (r + (memPrice n - memPrice vm.mem.length)) vm := by
  rw [memGas, bind_of_ok (show memSize vm = .ok vm.mem.length vm from rfl)]
  by_cases hlt : vm.mem.length < n
  · have hmono := memPrice_mono hlt.le
    have hn := hmax hlt
    have hcost : wrap64 (memPrice n + 2 ^ 64 - memPrice vm.mem.length) =
        memPrice n - memPrice vm.mem.length := by
      unfold int63Max at hn
      unfold wrap64
      omega
    rw [if_pos hlt, bind_of_ok (show gasForMem n vm = .ok _ vm from toInt63_ok hn),
      bind_of_ok (show gasForMem _ vm = .ok _ vm from toInt63_ok (hmono.trans hn)), hcost,
      bind_of_ok (toInt63_ok ((sub_le _ _).trans hn)), wrap64, mod_eq_of_lt]
    · rfl
    · unfold int63Max at hn
      omega
  · rw [if_neg hlt, Nat.sub_eq_zero_of_le (memPrice_mono (not_lt.mp hlt))]
    rfl

/-- **A payment that the gas allows**: the memory has the room, and the price is taken off. -/
lemma payMem_ok (hr : r + Schedule.copyGas * ((c + 31) / 32) ≤ 2 ^ 63)
    (hmax : vm.mem.length < (n + 31) / 32 * 32 → memPrice ((n + 31) / 32 * 32) ≤ int63Max)
    (hgas : r + (memPrice ((n + 31) / 32 * 32) - memPrice vm.mem.length)
      + Schedule.copyGas * ((c + 31) / 32) ≤ vm.ioGas) :
    payMem r n c vm = .ok () { vm with
      mem := vm.mem ++ replicate ((n + 31) / 32 * 32 - vm.mem.length) 0
      ioGas := vm.ioGas - (r + (memPrice ((n + 31) / 32 * 32) - memPrice vm.mem.length)
        + Schedule.copyGas * ((c + 31) / 32)) } := by
  generalize hN : (n + 31) / 32 * 32 = N at hmax hgas ⊢
  have hfits : memPrice N - memPrice vm.mem.length ≤ int63Max := by
    by_cases hlt : vm.mem.length < N
    · exact (sub_le _ _).trans (hmax hlt)
    · rw [Nat.sub_eq_zero_of_le (memPrice_mono (not_lt.mp hlt))]
      exact Nat.zero_le _
  have hmem := memGas_ok (r := r) (n := N) (by omega) hmax
  generalize memPrice N - memPrice vm.mem.length = d at hgas hfits hmem ⊢
  have hwrap : wrap64 (r + d + Schedule.copyGas * ((c + 31) / 32)) =
      r + d + Schedule.copyGas * ((c + 31) / 32) := by
    unfold int63Max at hfits
    exact mod_eq_of_lt (by omega)
  have hupdate : updateGas r N c vm = .ok (r + d + Schedule.copyGas * ((c + 31) / 32)) vm := by
    refine (bind_of_ok hmem).trans ?_
    rw [hwrap, if_neg (not_lt.mpr hgas)]
  have hall : updateMem r n c vm = .ok (r + d + Schedule.copyGas * ((c + 31) / 32))
      { vm with mem := vm.mem ++ replicate (N - vm.mem.length) 0 } := by
    rw [updateMem, hN, bind_of_ok hupdate]
    rfl
  rw [payMem, bind_of_ok hall, updateIOGas, if_neg (not_lt.mpr hgas)]

end Payments

/-! ## Long offsets -/

section LongOffset

variable {vm : VM} {r n : ℕ}

/-- The first room is paid for in full. -/
lemma payMem_fresh (hm : vm.mem = []) (hr : r ≤ 2 ^ 63)
    (hmax : memPrice ((n + 31) / 32 * 32) ≤ int63Max)
    (hgas : r + memPrice ((n + 31) / 32 * 32) ≤ vm.ioGas) :
    payMem r n 0 vm = .ok () { vm with
      mem := replicate ((n + 31) / 32 * 32) 0
      ioGas := vm.ioGas - (r + memPrice ((n + 31) / 32 * 32)) } := by
  have hpay : payMem r n 0 vm = _ :=
    payMem_ok (by simpa using hr) (fun _ => hmax) (by rw [hm]; exact hgas)
  rw [hm] at hpay
  exact hpay

/-- A word is stored in a machine without memory, at the offset that is left after the cast. -/
lemma store_fresh {p v : U256} {st : List U256} {g : ℕ} (hm : vm.mem = [])
    (hst : vm.stack = p :: v :: st) (hp : p.toNat ≤ int63Max)
    (hmax : memPrice ((p.toNat + 32 + 31) / 32 * 32) ≤ int63Max)
    (hgas : g + memPrice ((p.toNat + 32 + 31) / 32 * 32) ≤ vm.ioGas) (hg : g ≤ 2 ^ 63) :
    store .source 32 hashBytes g vm = .ok none { vm with
      stack := st
      mem := overwritten (replicate ((p.toNat + 32 + 31) / 32 * 32) 0) (p.toNat % 2 ^ 32)
        (hashBytes v)
      ioGas := vm.ioGas - (g + memPrice ((p.toNat + 32 + 31) / 32 * 32))
      pc := vm.pc + 1 } := by
  have hwrite : ∀ vm1 : VM, vm1.mem.length = (p.toNat + 32 + 31) / 32 * 32 →
      writeMem (p.toNat % 2 ^ 32) (hashBytes v) vm1 =
        .ok () { vm1 with mem := overwritten vm1.mem (p.toNat % 2 ^ 32) (hashBytes v) } := by
    intro vm1 hlen
    have := mod_le p.toNat (2 ^ 32)
    have hne : hashBytes v ≠ [] := ne_nil_of_length_pos (by rw [hashBytes_length]; decide)
    rw [writeMem, if_neg hne, if_pos (by rw [hashBytes_length]; omega)]
    rfl
  exact .trans (bind_of_ok (peek_ok hst)) (.trans (bind_of_ok (toInt63_ok hp)) (.trans
    (bind_of_ok (payMem_fresh hm hg hmax hgas)) (.trans (bind_of_ok (pop_ok hst)) (.trans
      (bind_of_ok (pop_ok rfl)) (bind_of_ok (hwrite _ length_replicate))))))

/-- `PUSH1 1`, `PUSH5 2 ^ 32`, `MSTORE`. -/
def aliasProgram : Bytes := [0x60, 1, 0x64, 1, 0, 0, 0, 0, 0x52]

/-- The machine in front of the store. -/
def beforeStore : VM := { machineOf (2 ^ 46) aliasProgram with
  stack := [2 ^ 32, 1], ioGas := 2 ^ 46 - 6, pc := 8 }

end LongOffset

end VM

end Ybtc
