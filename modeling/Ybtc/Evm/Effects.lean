import Ybtc.Evm.Interpreter

/-!
# What an instruction does to the machine

Each instruction takes what the table says off the stack and leaves what the table says, moves on by
one byte, costs gas, and reads and writes memory only where it has made room for it.  The jumps and
the pushes have another way to move on, and some instructions halt; apart from that the instructions
are described by one statement.
-/

namespace Ybtc

open Stateful List Nat State Schedule

namespace VM

section Stack

variable {α : Type} {vm : VM} {st : List U256} {a : U256} {i : ℕ}

lemma peek_ok (h : vm.stack.drop i = a :: st) : peek i vm = .ok a vm := by
  rw [peek, h]

lemma pop_ok (h : vm.stack = a :: st) : pop vm = .ok a { vm with stack := st } := by
  rw [pop, h]

lemma peek_congr {f f' : U256 → VmM α} (h : vm.stack.drop i = a :: st) (hf : f a vm = f' a vm) :
    (peek i >>= f) vm = (peek i >>= f') vm := by
  rw [bind_of_ok (peek_ok h), bind_of_ok (peek_ok h), hf]

end Stack

/-- The machine fails, but not by an access outside of an array. -/
def Faulty (e : VmFault) : Prop := ∃ f, e = .fault f

/-- From every machine with `P` the code returns with `Q`, and no access is outside of an array. -/
abbrev Does {α : Type} (P : VM → Prop) (x : VmM α) (Q : α → VM → Prop) : Prop := Triple Faulty P x Q

section Points

variable (env : StateEnv) (vm0 : VM)

/-- One access to the accounts. -/
inductive Access (me : H160) (s : State) : State → Prop
  | balance {a : H160} {b : U256} {s' : State} : balance env a s = .ok b s' → Access me s s'
  | codeSize {a : H160} {n : ℕ} {s' : State} : codeSize env a s = .ok n s' → Access me s s'
  | code {a : H160} {c : Bytes} {s' : State} : State.code env a s = .ok c s' → Access me s s'
  | storage {p v : U256} {s' : State} : State.storage env me p s = .ok v s' → Access me s s'
  | setStorage {p v : U256} {s' : State} : State.setStorage env me p v s = .ok () s' →
    Access me s s'

/-- Any number of accesses. -/
def Touched (me : H160) : State → State → Prop := Relation.ReflTransGen (Access env me)

/-- The machine inside an instruction that it started as `vm0`: the stack, the program counter, the
    gas spent at least, and the room in memory at least.  No account is noted for removal. -/
structure At (st : List U256) (pc paid room : ℕ) (vm : VM) : Prop where
  ctx : vm.ctx = vm0.ctx
  code : vm.code = vm0.code
  pool : vm.pool = vm0.pool
  jumpDests : vm.jumpDests = vm0.jumpDests
  suicides : vm.sub.suicides = vm0.sub.suicides
  state : Touched env vm0.ctx.myAddress vm0.state vm.state
  stack : vm.stack = st
  pc : vm.pc = pc
  gas : vm.ioGas + paid ≤ vm0.ioGas
  mem : room ≤ vm.mem.length

/-- Code that leaves all of this alone. -/
abbrev Rests {α : Type} (st : List U256) (pc paid room : ℕ) (x : VmM α) : Prop :=
  Does (At env vm0 st pc paid room) x fun _ => At env vm0 st pc paid room

/-- The instruction goes on. -/
def Next (Q : VM → Prop) (out : Option Bytes) (vm : VM) : Prop := out = none ∧ Q vm

/-- The instruction halts. -/
def Halts (Q : VM → Prop) (out : Option Bytes) (vm : VM) : Prop := out.isSome ∧ Q vm

/-- The instruction is over: something was paid, and it left `ret` items on the stack. -/
def Passed (ret : ℕ) (st : List U256) (vm : VM) : Prop :=
  ∃ top, top.length = ret ∧ At env vm0 (top ++ st) (vm0.pc + 1) 1 0 vm

/-- The instruction takes the items off the stack, leaves `ret` others and moves on by one byte. -/
abbrev Passes (as : List U256) (ret : ℕ) (st : List U256) (x : VmM (Option Bytes)) : Prop :=
  Does (At env vm0 (as ++ st) vm0.pc 0 0) x (Next (Passed env vm0 ret st))

end Points

section Specs

variable {env : StateEnv} {vm0 : VM} {st : List U256} {pc paid room : ℕ}

variable {α : Type} {P : VM → Prop} {a offset size index p dest cond : U256} {r g n : ℕ}
  {as : List U256}

/-- Before the instruction. -/
lemma at_self (vm : VM) : At env vm vm.stack vm.pc 0 0 vm :=
  ⟨rfl, rfl, rfl, rfl, rfl, .refl, rfl, rfl, le_rfl, Nat.zero_le _⟩

lemma At.weaken {vm : VM} {paid' room' : ℕ} (h : At env vm0 st pc paid room vm) (hp : paid' ≤ paid)
    (hr : room' ≤ room) : At env vm0 st pc paid' room' vm :=
  { h with
    gas := le_trans (Nat.add_le_add_left hp _) h.gas
    mem := hr.trans h.mem }

/-! ## The parts of an instruction -/

variable {Q : α → VM → Prop}

lemma throwRange_spec (what : String) : Does P (throwRange what) Q :=
  Triple.throw ⟨_, rfl⟩

lemma peek_spec {i : ℕ} {rest : List U256} (h : st.drop i = a :: rest) :
    Does (At env vm0 st pc paid room) (peek i) fun b vm => b = a ∧
      At env vm0 st pc paid room vm := by
  intro vm hvm
  unfold peek
  rw [hvm.stack, h]
  exact ⟨rfl, hvm⟩

lemma pop_spec :
    Does (At env vm0 (a :: st) pc paid room) pop fun b vm => b = a ∧
      At env vm0 st pc paid room vm := by
  intro vm hvm
  unfold pop
  rw [hvm.stack]
  exact ⟨rfl, { hvm with stack := rfl }⟩

lemma peek_bind {f : U256 → VmM α} {i : ℕ} {rest : List U256} (h : st.drop i = a :: rest)
    (hf : Does (At env vm0 st pc paid room) (f a) Q) :
    Does (At env vm0 st pc paid room) (peek i >>= f) Q := (peek_spec h).bind_value hf

lemma pop_bind {f : U256 → VmM α} (hf : Does (At env vm0 st pc paid room) (f a) Q) :
    Does (At env vm0 (a :: st) pc paid room) (pop >>= f) Q := pop_spec.bind_value hf

lemma push_spec (a : U256) :
    Does (At env vm0 st pc paid room) (push a) fun _ => At env vm0 (a :: st) pc paid room :=
  fun _ hvm => { hvm with stack := congrArg (List.cons a) hvm.stack }

lemma next_spec :
    Does (At env vm0 st pc paid room) next fun _ => At env vm0 st (pc + 1) paid room :=
  fun _ hvm => { hvm with pc := congrArg (· + 1) hvm.pc }

lemma setPC_spec (pc' : ℕ) :
    Does (At env vm0 st pc paid room) (setPC pc') fun _ => At env vm0 st pc' paid room :=
  fun _ hvm => { hvm with pc := rfl }

lemma goOn_spec :
    Does (At env vm0 st pc paid room) goOn (Next (At env vm0 st (pc + 1) paid room)) :=
  next_spec.bind fun _ => Triple.pure fun _ h => ⟨rfl, h⟩

lemma context_spec : Does (At env vm0 st pc paid room) context fun c vm =>
    c = vm0.ctx ∧ At env vm0 st pc paid room vm :=
  fun _ hvm => ⟨hvm.ctx, hvm⟩

/-- What cannot be paid ends the run; gas does not go below zero. -/
lemma updateIOGas_spec (runGas : ℕ) :
    Does (At env vm0 st pc paid room) (updateIOGas runGas) fun _ =>
    At env vm0 st pc (paid + runGas) room := by
  intro vm hvm
  unfold updateIOGas
  split_ifs with hg
  · exact ⟨_, rfl⟩
  · exact { hvm with gas := by have := hvm.gas; dsimp only; omega }

/-- The items are taken off the stack together. -/
lemma popN_spec : ∀ {as : List U256}, Does (At env vm0 (as ++ st) pc paid room) (popN as.length)
    fun bs vm => bs = as ∧ At env vm0 st pc paid room vm
  | [] => Triple.pure fun _ h => ⟨rfl, h⟩
  | _ :: _ => pop_bind (popN_spec.bind_value (Triple.pure fun _ h => ⟨rfl, h⟩))

/-- An operation on the state that is an access leaves the rest of the machine alone. -/
lemma onState_spec {x : ScM α} (hP : ∀ vm, P vm → At env vm0 st pc paid room vm)
    (hx : ∀ vm, P vm → ∀ a s', x vm.state = .ok a s' → Access env vm0.ctx.myAddress vm.state s') :
    Does P (onState x) fun _ => At env vm0 st pc paid room := by
  intro vm hvm
  unfold onState
  cases hs : x vm.state with
  | ok a s' => exact { hP vm hvm with state := (hP vm hvm).state.tail (hx vm hvm a s' hs) }
  | error e s' => exact ⟨e, rfl⟩

/-- Code that looks at the context first. -/
lemma onMine_spec {x : H160 → ScM α}
    (hx : ∀ s a s', x vm0.ctx.myAddress s = .ok a s' → Access env vm0.ctx.myAddress s s') :
    Rests env vm0 st pc paid room fun vm => onState (x vm.ctx.myAddress) vm := by
  intro vm hvm
  dsimp only
  rw [hvm.ctx]
  exact onState_spec (fun _ h => h) (fun vm _ => hx vm.state) vm hvm

/-! ## Memory -/

/-- `std::numeric_limits<int64_t>::max()`. -/
def int63Max : ℕ := 0x7fffffffffffffff

/-- A number over 63 bits ends the run, so the one that is used is exact. -/
lemma toInt63_spec (v : ℕ) : Does P (toInt63 v) fun n vm => n = v ∧ (v ≤ int63Max ∧ P vm) := by
  unfold toInt63
  refine Triple.ite (fun _ => throwRange_spec _) fun h => Triple.pure fun _ hs => ⟨rfl, ?_, hs⟩
  exact not_lt.mp h

/-- What `memNeed` returns. -/
def need (offset size : U256) : ℕ := if size = 0 then 0 else offset.toNat + size.toNat

lemma memNeed_spec (offset size : U256) : Does P (memNeed offset size) fun n vm =>
      n = need offset size ∧ (need offset size ≤ int63Max ∧ P vm) :=
  toInt63_spec _

lemma toInt63_bind {v : ℕ} {f : ℕ → VmM α} (hf : v ≤ int63Max → Does P (f v) Q) :
    Does P (toInt63 v >>= f) Q := (toInt63_spec v).bind_value (.of_fact hf)

lemma memNeed_bind {f : ℕ → VmM α}
    (hf : need offset size ≤ int63Max → Does P (f (need offset size)) Q) :
    Does P (memNeed offset size >>= f) Q := toInt63_bind hf

/-- The price of a larger memory is not smaller. -/
lemma memPrice_mono {m n : ℕ} (h : m ≤ n) : memPrice m ≤ memPrice n := by
  have hdiv : m / 32 ≤ n / 32 := Nat.div_le_div_right h
  exact Nat.add_le_add (Nat.mul_le_mul_left _ hdiv)
    (Nat.div_le_div_right (Nat.mul_le_mul hdiv hdiv))

/-- More memory costs more; no sum leaves the 64 bits. -/
lemma memGas_spec (n : ℕ) (hr : r ≤ 2 ^ 63) :
    Does (At env vm0 st pc paid room) (memGas r n) fun r' vm =>
      (r ≤ r' ∧ r' ≤ r + int63Max) ∧ At env vm0 st pc paid room vm := by
  have hsize : Rests env vm0 st pc paid room memSize :=
    fun _ hvm => hvm
  refine hsize.bind fun size => Triple.ite (fun _ => ?_) fun _ =>
    Triple.pure fun _ h => ⟨⟨le_rfl, le_add_right _ _⟩, h⟩
  refine toInt63_bind fun _ => toInt63_bind fun _ => toInt63_bind fun hd =>
      Triple.pure fun _ h => ⟨?_, h⟩
  generalize wrap64 _ = d at hd ⊢
  unfold int63Max at hd ⊢
  unfold wrap64
  omega

/-- Memory and copied words only add to the price: the 64-bit sum does not wrap here. -/
lemma updateGas_spec {copy : ℕ} (n : ℕ) (hr : r + copyGas * ((copy + 31) / 32) ≤ 2 ^ 63) :
    Does (At env vm0 st pc paid room) (updateGas r n copy) fun r' vm =>
      r ≤ r' ∧ At env vm0 st pc paid room vm := by
  refine (memGas_spec n (by omega)).bind fun r' => Triple.of_fact fun ⟨hlo, hhi⟩ => ?_
  intro vm hvm
  dsimp only
  split_ifs with hg
  · exact ⟨_, rfl⟩
  · refine ⟨?_, hvm⟩
    unfold int63Max at hhi
    unfold wrap64
    omega

lemma resizeMem_spec (n : ℕ) :
    Does (At env vm0 st pc paid room) (resizeMem n) fun _ => At env vm0 st pc paid n :=
  fun _ hvm => { hvm with mem := by rw [length_append, length_replicate]; omega }

/-- **The memory grows to the size that is asked for.** -/
lemma payMem_spec {copy : ℕ} (n : ℕ) (hr : r + copyGas * ((copy + 31) / 32) ≤ 2 ^ 63) :
    Does (At env vm0 st pc paid room) (payMem r n copy) fun _ => At env vm0 st pc (paid + r) n := by
  have hupdate : Does (At env vm0 st pc paid room) (updateMem r n copy) fun r' vm =>
      r ≤ r' ∧ At env vm0 st pc paid n vm := by
    refine (updateGas_spec _ hr).bind fun r' => Triple.of_fact fun hr' =>
      (resizeMem_spec _).bind fun _ => Triple.pure fun _ h => ⟨hr', h.weaken le_rfl ?_⟩
    omega
  refine hupdate.bind fun r' => Triple.of_fact fun hr' => ?_
  exact (updateIOGas_spec r').weaken fun _ _ h => h.weaken (by omega) le_rfl

lemma payMem_spec_zero (n : ℕ) (hr : r ≤ 2 ^ 63) :
    Does (At env vm0 st pc paid room) (payMem r n 0) fun _ => At env vm0 st pc (paid + r) n :=
  payMem_spec n (by simpa using hr)

/-- A read within the memory that was paid for is whole. -/
lemma readMem_spec {start size : ℕ} (h : size ≠ 0 → start + size ≤ room) :
    Does (At env vm0 st pc paid room) (readMem start size) fun b vm =>
      b.length = size ∧ At env vm0 st pc paid room vm := by
  intro vm hvm
  unfold readMem
  split_ifs with h0 hle
  · exact ⟨h0.symm, hvm⟩
  · exact ⟨by rw [length_take, length_drop]; omega, hvm⟩
  · exact absurd ((h h0).trans hvm.mem) hle

/-- A write within it does not change its size. -/
lemma writeMem_spec {start : ℕ} {b : Bytes} (h : b ≠ [] → start + b.length ≤ room) :
    Rests env vm0 st pc paid room (writeMem start b) := by
  intro vm hvm
  unfold writeMem
  split_ifs with h0 hle
  · exact hvm
  · refine { hvm with mem := ?_ }
    have := hvm.mem
    simp only [length_append, length_take, length_drop]
    omega
  · exact absurd ((h h0).trans hvm.mem) hle

/-- An offset and a size that are within reach are not changed by a cast to 64 bits. -/
lemma long_source_of_need (h : need offset size ≤ int63Max) :
    Indexing.source.long size = size.toNat ∧
      (size.toNat ≠ 0 → Indexing.source.long offset = offset.toNat) := by
  change size.toNat % 2 ^ 64 = _ ∧ (_ → offset.toNat % 2 ^ 64 = _)
  unfold need int63Max at h
  split_ifs at h with h0
  · subst h0
    exact ⟨rfl, fun h => absurd rfl h⟩
  · exact ⟨mod_eq_of_lt (by omega), fun _ => mod_eq_of_lt (by omega)⟩

lemma readMem_long_spec (h : need offset size ≤ int63Max) (hr : need offset size ≤ room) :
    Rests env vm0 st pc paid room
      (readMem (Indexing.source.long offset) (Indexing.source.long size)) := by
  obtain ⟨hs, ho⟩ := long_source_of_need h
  refine (readMem_spec fun h0 => ?_).weaken fun _ _ h => h.2
  rw [hs] at h0 ⊢
  rw [ho h0]
  unfold need at hr
  rw [if_neg (by rintro rfl; exact h0 rfl)] at hr
  exact hr

lemma copiedBytes_length (data : Bytes) (index size : ℕ) :
    (copiedBytes data index size).length = size := by
  unfold copiedBytes
  dsimp only
  rw [length_append, length_take, length_drop, length_replicate]
  split_ifs <;> omega

/-- A copy into the room that was made for it. -/
lemma copyDataToMemory_spec {data : Bytes} (h : need offset size ≤ int63Max)
    (hr : need offset size ≤ room) :
    Does (At env vm0 (offset :: index :: size :: st) pc paid room)
      (copyDataToMemory .source data) fun _ => At env vm0 st pc paid room := by
  obtain ⟨hs, ho⟩ := long_source_of_need h
  refine pop_bind (pop_bind (pop_bind (writeMem_spec fun hne => ?_)))
  have h0 : size.toNat ≠ 0 := by
    intro h0
    apply hne
    rw [← length_eq_zero_iff, copiedBytes_length, hs, h0]
  rw [copiedBytes_length, hs, ho h0]
  unfold need at hr
  rwa [if_neg (by rintro rfl; exact h0 rfl)] at hr

/-! ## Instructions that only work on the stack -/

/-- What is left when the parts are done: the instruction has cost something. -/
lemma Passed.of_goOn (top : List U256) {ret : ℕ} (ht : top.length = ret) (hp : 0 < paid) :
    Does (At env vm0 (top ++ st) vm0.pc paid room) goOn (Next (Passed env vm0 ret st)) :=
  goOn_spec.weaken fun _ _ h => ⟨h.1, top, ht, h.2.weaken hp (Nat.zero_le _)⟩

/-- One item is pushed, and the instruction is over. -/
lemma pushOn_spec (v : U256) (hp : 0 < paid) :
    Does (At env vm0 st vm0.pc paid room) (push v >>= fun _ => goOn) (Next (Passed env vm0 1 st)) :=
  (push_spec v).bind fun _ => Passed.of_goOn [v] rfl hp

lemma unary_spec {f : U256 → U256} (hg : 0 < g) (has : as.length = 1) :
    Passes env vm0 as 1 st (unary f g) := by
  obtain ⟨a, rfl⟩ := length_eq_one_iff.mp has
  exact (updateIOGas_spec g).bind fun _ => pop_bind (pushOn_spec _ (by omega))

lemma binary_spec {f : U256 → U256 → U256} (hg : 0 < g) (has : as.length = 2) :
    Passes env vm0 as 1 st (binary f g) := by
  obtain ⟨a, b, rfl⟩ := length_eq_two.mp has
  exact (updateIOGas_spec g).bind fun _ => pop_bind (pop_bind
    (pushOn_spec _ (by omega)))

lemma ternary_spec {f : U256 → U256 → U256 → U256} (hg : 0 < g) (has : as.length = 3) :
    Passes env vm0 as 1 st (ternary f g) := by
  obtain ⟨a, b, c, rfl⟩ := length_eq_three.mp has
  exact (updateIOGas_spec g).bind fun _ => pop_bind (pop_bind
    (pop_bind (pushOn_spec _ (by omega))))

lemma constant_spec {f : VM → U256} (hg : 0 < g) (has : as.length = 0) :
    Passes env vm0 as 1 st (constant f g) := by
  obtain rfl := length_eq_zero_iff.mp has
  refine (updateIOGas_spec g).bind fun _ => Triple.bind
    (Q := fun _ vm => ∃ v, At env vm0 (v :: st) vm0.pc (0 + g) 0 vm) (fun vm hvm => ?_)
      fun _ vm hvm => ?_
  · exact ⟨f vm, push_spec (f vm) vm hvm⟩
  · obtain ⟨v, hv⟩ := hvm
    exact Passed.of_goOn [v] rfl (by omega) vm hv

lemma execDup_spec (hg : 0 < g) (hn : 0 < n) (has : as.length = n) :
    Passes env vm0 as (n + 1) st (execDup n g) := by
  have hlt : n - 1 < (as ++ st).length := by rw [length_append]; omega
  refine (updateIOGas_spec g).bind fun _ => (peek_spec (drop_eq_getElem_cons hlt)).bind_value ?_
  exact (push_spec _).bind fun _ => Passed.of_goOn (_ :: as) (by rw [length_cons, has]) (by omega)

lemma execSwap_spec (hg : 0 < g) (has : as.length = n + 1) :
    Passes env vm0 as (n + 1) st (execSwap n g) := by
  have h0 : 0 < (as ++ st).length := by rw [length_append]; omega
  have hn : n < (as ++ st).length := by rw [length_append]; omega
  refine (updateIOGas_spec g).bind fun _ => Triple.bind
    (Q := fun _ vm => ∃ top, top.length = n + 1 ∧ At env vm0 (top ++ st) vm0.pc (0 + g) 0 vm) ?_
    fun _ vm hvm => ?_
  · refine (peek_spec (drop_eq_getElem_cons h0)).bind_value
      ((peek_spec (drop_eq_getElem_cons hn)).bind_value fun vm hvm => ?_)
    refine ⟨(as.set 0 (as ++ st)[n]).set n (as ++ st)[0], ?_, { hvm with stack := ?_ }⟩
    · rw [length_set, length_set, has]
    · dsimp only
      rw [hvm.stack, set_append_left _ _ (by omega),
        set_append_left _ _ (by rw [length_set]; omega)]
  · obtain ⟨top, htop, hat⟩ := hvm
    exact Passed.of_goOn top htop (by omega) vm hat

/-! ## Instructions that use the memory -/

lemma mload_spec (hg : 0 < g) (hg' : g ≤ 2 ^ 63) : Passes env vm0 [p] 1 st (mload .source g) := by
  refine peek_bind rfl (toInt63_bind fun _ =>
    (payMem_spec_zero _ hg').bind fun _ => pop_bind ((readMem_spec fun _ => ?_).bind
      fun b => Triple.of_fact fun _ => pushOn_spec _ (by omega)))
  have := mod_le p.toNat (2 ^ 32)
  change p.toNat % 2 ^ 32 + 32 ≤ _
  omega

lemma store_spec {width : ℕ} {f : U256 → Bytes} (hf : ∀ v, (f v).length = width)
    (hg : 0 < g ∧ g ≤ 20) (has : as.length = 2) :
    Passes env vm0 as 0 st (store .source width f g) := by
  obtain ⟨p, v, rfl⟩ := length_eq_two.mp has
  refine peek_bind rfl (toInt63_bind fun _ =>
    (payMem_spec_zero _ (by omega)).bind fun _ => pop_bind (pop_bind
      ((writeMem_spec fun _ => ?_).bind fun _ => Passed.of_goOn [] rfl (by omega))))
  have := mod_le p.toNat (2 ^ 32)
  rw [hf]
  change p.toNat % 2 ^ 32 + width ≤ _
  omega

lemma execSha3_spec {sha3 : Bytes → Uint256} :
    Passes env vm0 [offset, size] 1 st (execSha3 .source sha3) := by
  refine peek_bind rfl (peek_bind rfl (toInt63_bind fun hg => memNeed_bind fun hn =>
      (payMem_spec_zero _ ?_).bind fun _ => pop_bind (pop_bind
        ((readMem_long_spec hn le_rfl).bind fun b => pushOn_spec _ ?_))))
  · unfold int63Max at hg
    omega
  · rw [sha3Gas]
    omega

lemma addLog_spec (topics : List U256) (data : Bytes) :
    Rests env vm0 st pc paid room (addLog topics data) :=
  fun _ hvm => { hvm with }

lemma execLog_spec {topics : List U256} (hn : topics.length = n) :
    Passes env vm0 (offset :: size :: topics) 0 st (execLog .source n) := by
  subst hn
  refine peek_bind rfl (peek_bind rfl (toInt63_bind fun hg => memNeed_bind fun hn =>
      (payMem_spec_zero _ ?_).bind fun _ => pop_bind (pop_bind
        (popN_spec.bind_value ((readMem_long_spec hn le_rfl).bind fun b =>
          (addLog_spec _ _).bind fun _ => Passed.of_goOn [] rfl ?_)))))
  · unfold int63Max at hg
    omega
  · rw [logGas]
    omega

/-- The price of a copy within reach leaves the 64 bits alone. -/
lemma copyGas_le (hr : r ≤ 20) (h : size.toNat ≤ int63Max) :
    r + copyGas * ((size.toNat + 31) / 32) ≤ 2 ^ 63 := by
  unfold int63Max at h
  rw [copyGas]
  omega

lemma execCopy_spec {data : ExtVM → Bytes} (hg : 0 < g ∧ g ≤ 20) (has : as.length = 3) :
    Passes env vm0 as 0 st (execCopy .source data g) := by
  obtain ⟨offset, index, size, rfl⟩ := length_eq_three.mp has
  exact peek_bind rfl (peek_bind rfl (toInt63_bind fun hs => memNeed_bind fun hn =>
      (payMem_spec _ (copyGas_le hg.2 hs)).bind fun _ => context_spec.bind_value
        ((copyDataToMemory_spec hn le_rfl).bind fun _ =>
          Passed.of_goOn [] rfl (by omega))))

/-! ## Instructions that use the accounts -/

lemma execBalance_spec : Passes env vm0 [a] 1 st (execBalance env) :=
  (updateIOGas_spec _).bind fun _ => pop_bind ((onState_spec (fun _ h => h)
    fun _ _ _ _ hs => .balance hs).bind fun b => pushOn_spec b (by decide))

lemma execExtcodesize_spec : Passes env vm0 [a] 1 st (execExtcodesize env) :=
  (updateIOGas_spec _).bind fun _ => pop_bind ((onState_spec (fun _ h => h)
    fun _ _ _ _ hs => .codeSize hs).bind fun n => pushOn_spec _ (by decide))

lemma execExtcodecopy_spec :
    Passes env vm0 [a, offset, index, size] 0 st (execExtcodecopy env .source) :=
  peek_bind rfl (peek_bind rfl (toInt63_bind fun hs => memNeed_bind fun hn =>
      (payMem_spec _ (copyGas_le (by decide) hs)).bind fun _ => pop_bind
        ((onState_spec (fun _ h => h) fun _ _ _ _ hs => .code hs).bind fun data =>
          (copyDataToMemory_spec hn le_rfl).bind fun _ =>
            Passed.of_goOn [] rfl (by decide))))

lemma storeAt_spec (p : U256) : Rests env vm0 st pc paid room (storeAt env p) :=
  onMine_spec (x := fun me => storage env me p) fun _ _ _ h => .storage h

lemma setStore_spec (p v : U256) : Rests env vm0 st pc paid room (setStore env p v) :=
  onMine_spec (x := fun me => setStorage env me p v) fun _ _ _ h => .setStorage h

lemma myBalance_spec : Rests env vm0 st pc paid room (myBalance env) :=
  onMine_spec fun _ _ _ h => .balance h

lemma execSload_spec : Passes env vm0 [p] 1 st (execSload env) :=
  (updateIOGas_spec _).bind fun _ => pop_bind ((storeAt_spec p).bind fun v =>
    pushOn_spec v (by decide))

lemma addRefund_spec (n : ℕ) : Rests env vm0 st pc paid room (addRefund n) :=
  fun _ hvm => { hvm with }

/-- Each of the three prices of a store is positive. -/
lemma sstoreGas_spec (p v : U256) :
    Does (At env vm0 st pc paid room) (sstoreGas env p v) fun g vm =>
      0 < g ∧ At env vm0 st pc paid room vm := by
  refine (storeAt_spec p).bind fun old => Triple.ite
    (fun _ => Triple.pure fun _ h => ⟨by decide, h⟩) fun _ => (storeAt_spec p).bind fun old' => ?_
  exact Triple.ite (fun _ => (addRefund_spec _).bind fun _ => Triple.pure fun _ h => ⟨by decide, h⟩)
    fun _ => Triple.pure fun _ h => ⟨by decide, h⟩

lemma execSstore_spec {v : U256} : Passes env vm0 [p, v] 0 st (execSstore env) :=
  peek_bind rfl (peek_bind rfl ((sstoreGas_spec p v).bind fun g =>
    Triple.of_fact fun hg => (updateIOGas_spec g).bind fun _ => (setStore_spec p v).bind fun _ =>
      pop_bind (pop_bind (Passed.of_goOn [] rfl (by omega)))))

lemma readShortObject_spec (addr : H160) :
    Rests env vm0 st pc paid room (readShortObject env addr) := fun _ hvm => hvm

/-- To spend nothing puts nothing back. -/
lemma spend_zero_le (vm : VM) : wrap64 (BitVec.ofNat 256 vm.ioGas - 0).toNat ≤ vm.ioGas := by
  rw [sub_zero, BitVec.toNat_ofNat]
  exact (mod_le _ _).trans (mod_le _ _)

lemma spend_zero_spec : Rests env vm0 st pc paid room (spend 0) := fun vm hvm =>
  { hvm with gas := (Nat.add_le_add_right (spend_zero_le vm) _).trans hvm.gas }

/-- A creation inside a program leaves a word, whether or not the depth allows it. -/
lemma caseCreate_spec {value : U256} :
    Passes env vm0 [value, offset, size] 1 st (caseCreate env) := by
  refine peek_bind rfl (peek_bind rfl (memNeed_bind fun _ => (payMem_spec_zero _ (by decide)).bind
    fun _ => pop_bind (pop_bind (pop_bind (Triple.ite (fun _ => throwRange_spec _) fun _ =>
      myBalance_spec.bind fun balance => context_spec.bind_value (Triple.ite (fun _ => ?_) fun _ =>
        pushOn_spec 0 (by decide)))))))
  refine Triple.bind (Q := fun _ => At env vm0 st vm0.pc _ _) (fun _ h => h) fun createGas =>
    (readShortObject_spec _).bind fun a => (push_spec a).bind fun _ => ?_
  rw [sub_self]
  exact spend_zero_spec.bind fun _ => Passed.of_goOn [a] rfl (by decide)

/-- Gas that comes back is no more than what was taken out for it. -/
lemma returnGas_spec {gas : U256} (h : gas.toNat < paid) :
    Does (At env vm0 st pc paid room) (returnGas gas) fun _ => At env vm0 st pc 1 room := by
  intro vm hvm
  refine { hvm with gas := ?_ }
  have h1 := hvm.gas
  have h2 := mod_le gas.toNat (2 ^ 64)
  have h3 := mod_le (vm.ioGas + gas.toNat % 2 ^ 64) (2 ^ 64)
  change (vm.ioGas + gas.toNat % 2 ^ 64) % 2 ^ 64 + 1 ≤ _
  omega

/-- What a call with a value costs is more than what comes back with it. -/
lemma callStipend_lt (gas value : U256) :
    (gas + if value = 0 then 0 else BitVec.ofNat 256 callStipend).toNat <
      0 + (callGas + if value = 0 then 0 else callValueTransferGas) + gas.toNat := by
  rw [BitVec.toNat_add, callGas, callStipend, callValueTransferGas]
  refine (mod_le _ _).trans_lt ?_
  split_ifs
  · have h0 : (0 : U256).toNat = 0 := rfl
    omega
  · rw [BitVec.toNat_ofNat, mod_eq_of_lt (by decide)]
    omega

/-- A call takes all its arguments and leaves one word, and the gas that comes back is less than
    what it took. -/
lemma caseCall_spec {delegate : Bool} (has : as.length = if delegate then 6 else 7) :
    Passes env vm0 as 1 st (caseCall env delegate) := by
  have hpeek : ∀ i paid room, i < as.length →
      Rests env vm0 (as ++ st) vm0.pc paid room (peek i) := fun i paid room hi =>
    (peek_spec (drop_eq_getElem_cons (by rw [length_append]; omega))).weaken fun _ _ h => h.2
  have hvalue : Rests env vm0 (as ++ st) vm0.pc 0 0 (callValue delegate) := by
    cases delegate with
    | false => exact hpeek 2 0 0 (by rw [has]; decide)
    | true => exact Triple.pure fun _ h => h
  have hfirst : (if delegate then 2 else 3) + 3 < as.length := by
    rw [has]; cases delegate <;> decide
  refine hvalue.bind fun value => (hpeek _ 0 0 (by omega)).bind fun inputOffset =>
    (hpeek _ 0 0 (by omega)).bind fun inputSize => (hpeek _ 0 0 (by omega)).bind fun outputOffset =>
    (hpeek _ 0 0 (by omega)).bind fun outputSize => memNeed_bind fun _ => memNeed_bind fun _ =>
        (payMem_spec_zero _ ?_).bind fun _ => (hpeek 0 _ _ (by omega)).bind fun gas =>
          toInt63_bind fun hgas => (updateIOGas_spec _).bind fun _ => ?_
  · split_ifs <;> decide
  rw [← has]
  exact popN_spec.bind_value (myBalance_spec.bind fun balance => context_spec.bind_value
    ((push_spec _).bind fun _ => (returnGas_spec (callStipend_lt gas value)).bind fun _ =>
      Passed.of_goOn [_] rfl one_pos))

/-! ## All instructions that move on by one byte -/

/-- The instruction moves on by one byte, unless it fails. -/
def Straight : Instruction → Bool
  | .stop | .return | .suicide | .push _ | .pushc | .jump | .jumpi | .jumpc | .jumpci => false
  | _ => true

/-- All other tiers have a price, and a small one. -/
lemma tierStepGas_pos {t : Tier} (h : tierStepGas t = some g) (h0 : t ≠ .zero) (hs : t ≠ .special) :
    0 < g ∧ g ≤ 20 := by
  cases t <;> simp_all [tierStepGas] <;> omega

/-- **Instructions that move on by one byte** take and leave what the table says, cost something,
    and stay inside the arrays. -/
theorem execute_straight {op : Instruction} (hop : Straight op = true) (hdup : op ≠ .dup 0)
    (hg : tierStepGas (instructionInfo op).gasPriceTier = some g)
    (has : as.length = (instructionInfo op).args) :
    Passes env vm0 as (instructionInfo op).ret st (execute env .source op g) := by
  have hpos := tierStepGas_pos hg
  unfold execute executeWith
  cases op with
  | stop | «return» | suicide | push | pushc | jump | jumpi | jumpc | jumpci => cases hop
  | bad | staticcall | revert | unknown => cases hg
  | add | mul | sub | div | sdiv | mod | smod | signextend | lt | gt | slt | sgt | eq
  | and | or | xor
  | byte => exact binary_spec (hpos (by decide) (by decide)).1 has
  | addmod | mulmod => exact ternary_spec (hpos (by decide) (by decide)).1 has
  | exp =>
    obtain ⟨a, b, rfl⟩ := length_eq_two.mp has
    exact peek_bind rfl (binary_spec (by rw [expGas]; omega) rfl)
  | iszero | not | blockhash =>
    exact unary_spec (hpos (by decide) (by decide)).1 has
  | address | origin | caller | callvalue | calldatasize | codesize | gasprice | timestamp | number
  | difficulty | gaslimit | pc | msize | gas =>
    exact constant_spec (hpos (by decide) (by decide)).1 has
  | calldataload =>
    exact context_spec.bind_value (unary_spec (hpos (by decide) (by decide)).1 has)
  | calldatacopy | codecopy => exact execCopy_spec (hpos (by decide) (by decide)) has
  | sha3 =>
    obtain ⟨a, b, rfl⟩ := length_eq_two.mp has
    exact execSha3_spec
  | balance =>
    obtain ⟨a, rfl⟩ := length_eq_one_iff.mp has
    exact execBalance_spec
  | extcodesize =>
    obtain ⟨a, rfl⟩ := length_eq_one_iff.mp has
    exact execExtcodesize_spec
  | extcodecopy =>
    obtain ⟨a, rest, rfl⟩ := exists_cons_of_length_eq_add_one has
    obtain ⟨b, c, d, rfl⟩ := length_eq_three.mp (succ_injective has)
    exact execExtcodecopy_spec
  | coinbase =>
    have hpos := (hpos (by decide) (by decide)).1
    rw [length_eq_zero_iff.mp has]
    exact (updateIOGas_spec g).bind fun _ => (readShortObject_spec 0).bind fun a =>
      pushOn_spec a (by omega)
  | jumpto | jumpif | jumpv | jumpsub | jumpsubv | returnsub | beginsub | begindata =>
    exact throwRange_spec _
  | pop =>
    obtain ⟨a, rfl⟩ := length_eq_one_iff.mp has
    have hpos := (hpos (by decide) (by decide)).1
    exact (updateIOGas_spec g).bind fun _ => pop_bind (Passed.of_goOn [] rfl (by omega))
  | mload =>
    obtain ⟨a, rfl⟩ := length_eq_one_iff.mp has
    have hpos := hpos (by decide) (by decide)
    exact mload_spec hpos.1 (by omega)
  | mstore => exact store_spec hashBytes_length (hpos (by decide) (by decide)) has
  | mstore8 =>
    refine store_spec ?_ (hpos (by decide) (by decide)) has
    exact fun _ => rfl
  | sload =>
    obtain ⟨a, rfl⟩ := length_eq_one_iff.mp has
    exact execSload_spec
  | sstore =>
    obtain ⟨a, b, rfl⟩ := length_eq_two.mp has
    exact execSstore_spec
  | jumpdest =>
    rw [length_eq_zero_iff.mp has]
    exact (updateIOGas_spec _).bind fun _ => Passed.of_goOn [] rfl (by decide)
  | dup n =>
    exact execDup_spec (tierStepGas_pos (t := .veryLow) hg (by decide) (by decide)).1
      (pos_of_ne_zero fun h => hdup (by rw [h])) has
  | swap n =>
    exact execSwap_spec (tierStepGas_pos (t := .veryLow) hg (by decide) (by decide)).1 has
  | log n =>
    obtain ⟨a, rest, rfl⟩ := exists_cons_of_length_eq_add_one has
    obtain ⟨b, topics, rfl⟩ := exists_cons_of_length_eq_add_one (succ_injective has)
    exact execLog_spec (succ_injective (succ_injective has))
  | create =>
    obtain ⟨a, b, c, rfl⟩ := length_eq_three.mp has
    exact caseCreate_spec
  | call | callcode | delegatecall => exact caseCall_spec has

/-! ## Halting -/

lemma execStop_spec :
    Does (At env vm0 st vm0.pc 0 0) (execStop g) (Halts (At env vm0 st vm0.pc 0 0)) :=
  (updateIOGas_spec g).bind fun _ => Triple.pure fun _ h => ⟨rfl, h.weaken (zero_le _) le_rfl⟩

lemma execReturn_spec (hg : g ≤ 2 ^ 63) :
    Does (At env vm0 (offset :: size :: st) vm0.pc 0 0) (execReturn .source g)
      (Halts (At env vm0 st vm0.pc 0 0)) :=
  peek_bind rfl (peek_bind rfl
    (memNeed_bind fun hn => (payMem_spec_zero _ hg).bind fun _ => pop_bind
      (pop_bind ((readMem_long_spec hn le_rfl).bind fun _ => Triple.pure fun _ h =>
        ⟨rfl, h.weaken (zero_le _) (zero_le _)⟩))))

lemma execSuicide_spec : Does (At env vm0 (a :: st) vm0.pc 0 0) (execSuicide env)
      (Halts (At env vm0 (a :: st) vm0.pc 0 0)) :=
  peek_bind rfl (myBalance_spec.bind fun _ => (updateIOGas_spec _).bind fun _ =>
    Triple.pure fun _ h => ⟨rfl, h.weaken (zero_le _) le_rfl⟩)

/-! ## Pushes and jumps -/

/-- A push moves on behind its operand. -/
lemma execPush_spec (hg : 0 < g) (hn : vm0.pc + 1 + n ≤ vm0.code.length) :
    Does (At env vm0 st vm0.pc 0 0) (execPush n g)
      (Next (At env vm0 (pushValue vm0.code vm0.pc n :: st) (vm0.pc + n + 1) 1 0)) := by
  refine (updateIOGas_spec g).bind fun _ vm hvm => ?_
  refine Triple.bind (P := At env vm0 st vm0.pc (0 + g) 0)
    (Q := fun b vm => b = (vm0.code.drop (vm0.pc + 1)).take n ∧ At env vm0 st vm0.pc (0 + g) 0 vm)
    (fun vm' hvm' => ?_) (fun b => Triple.of_fact fun hb => (push_spec _).bind fun _ =>
      (setPC_spec _).bind fun _ => Triple.pure fun vm' h => ⟨rfl, ?_⟩) vm hvm
  · unfold readCode
    rw [hvm'.code, hvm.pc, if_pos hn]
    exact ⟨rfl, hvm'⟩
  · rw [hb, hvm.pc] at h
    exact h.weaken (by omega) le_rfl

lemma execPushc_spec {i skip : UInt8} {r1 r2 : Bytes} (hg : 0 < g)
    (hi : vm0.code.drop (vm0.pc + 1) = i :: r1) (hskip : vm0.code.drop (vm0.pc + 2) = skip :: r2) :
    Does (At env vm0 st vm0.pc 0 0) (execPushc g)
      (Next (At env vm0 ((vm0.pool i.toNat).getD 0 :: st) (vm0.pc + 2 + skip.toNat) 1 0)) := by
  have hbyte : ∀ {j : ℕ} {b : UInt8} {r : Bytes} {st paid}, vm0.code.drop j = b :: r →
      Does (At env vm0 st vm0.pc paid 0) (codeByte j) fun c vm =>
        c = b ∧ At env vm0 st vm0.pc paid 0 vm := by
    intro j b r st paid hj vm hvm
    unfold codeByte
    rw [hvm.code, hj]
    exact ⟨rfl, hvm⟩
  refine (updateIOGas_spec g).bind fun _ vm hvm => ?_
  rw [hvm.pc, hvm.pool]
  exact (hbyte hi).bind_value ((push_spec _).bind fun _ => (hbyte hskip).bind_value
    ((setPC_spec _).bind fun _ => Triple.pure fun _ h => ⟨rfl, h.weaken (by omega) le_rfl⟩)) vm hvm

/-- `verifyJumpDest` returns the destination, or it throws. -/
lemma verifyJumpDest_ok {vm : VM} :
    verifyJumpDest dest vm = .ok dest.toNat vm ↔ isJumpDest vm.jumpDests dest = true := by
  unfold verifyJumpDest
  split_ifs with h
  · exact ⟨fun _ => h, fun _ => rfl⟩
  · exact ⟨nofun, fun hd => absurd hd h⟩

lemma verifyJumpDest_spec (dest : U256) :
    Does (At env vm0 st pc paid room) (verifyJumpDest dest) fun d vm => d = dest.toNat ∧
      (isJumpDest vm0.jumpDests dest = true ∧ At env vm0 st pc paid room vm) := by
  intro vm hvm
  unfold verifyJumpDest
  rw [hvm.jumpDests]
  split_ifs with hd
  · exact ⟨rfl, hd, hvm⟩
  · exact ⟨_, rfl⟩

/-- A jump goes to a place of the table. -/
lemma execJump_spec (hg : 0 < g) :
    Does (At env vm0 (dest :: st) vm0.pc 0 0) (execJump g) (Next fun vm =>
      isJumpDest vm0.jumpDests dest = true ∧ At env vm0 st dest.toNat 1 0 vm) :=
  (updateIOGas_spec g).bind fun _ => peek_bind rfl ((verifyJumpDest_spec _).bind_value
    (Triple.of_fact fun hd => (setPC_spec _).bind fun _ => pop_bind
      (Triple.pure fun _ h => ⟨rfl, hd, h.weaken (by omega) le_rfl⟩)))

lemma execJumpc_spec (hg : 0 < g) : Does (At env vm0 (dest :: st) vm0.pc 0 0) (execJumpc g)
      (Next (At env vm0 st (wrap64 dest.toNat) 1 0)) :=
  (updateIOGas_spec g).bind fun _ => pop_bind ((setPC_spec _).bind fun _ =>
    Triple.pure fun _ h => ⟨rfl, h.weaken (by omega) le_rfl⟩)

/-- A conditional jump goes on behind itself or to its destination. -/
lemma branchTo_spec {x : VmM ℕ} {p : Prop} {d : ℕ}
    (hx : Does (At env vm0 st pc paid room) x fun n vm =>
      n = d ∧ (p ∧ At env vm0 st pc paid room vm)) :
    Does (At env vm0 st pc paid room) (branchTo x cond) fun _ vm =>
      ∃ pc', ((cond = 0 ∧ pc' = pc + 1) ∨ (p ∧ pc' = d)) ∧ At env vm0 st pc' paid room vm :=
  Triple.ite (fun hc => next_spec.weaken fun _ _ h => ⟨_, Or.inl ⟨hc, rfl⟩, h⟩) fun _ =>
    hx.bind_value (Triple.of_fact fun hp => (setPC_spec d).weaken fun _ _ h =>
      ⟨d, Or.inr ⟨hp, rfl⟩, h⟩)

/-- The end of a conditional jump. -/
lemma branchTo_pop_spec {x : VmM ℕ} {p : Prop} {d : ℕ} (hp : 0 < paid)
    (hx : Does (At env vm0 (dest :: cond :: st) pc paid 0) x fun n vm =>
      n = d ∧ (p ∧ At env vm0 (dest :: cond :: st) pc paid 0 vm)) :
    Does (At env vm0 (dest :: cond :: st) pc paid 0)
      (branchTo x cond >>= fun _ => pop >>= fun _ => pop >>= fun _ => pure none)
      (Next fun vm => ∃ pc', ((cond = 0 ∧ pc' = pc + 1) ∨ (p ∧ pc' = d)) ∧
        At env vm0 st pc' 1 0 vm) := by
  refine (branchTo_spec hx).bind fun _ vm ⟨pc', hpc, hvm⟩ => ?_
  refine pop_bind (pop_bind ?_) vm hvm
  exact Triple.pure fun _ h => ⟨rfl, pc', hpc, h.weaken hp le_rfl⟩

/-- A conditional jump goes to the next byte or to a checked destination. -/
lemma execJumpi_spec (hg : 0 < g) :
    Does (At env vm0 (dest :: cond :: st) vm0.pc 0 0) (execJumpi g) (Next fun vm =>
      ∃ pc', ((cond = 0 ∧ pc' = vm0.pc + 1) ∨
        (isJumpDest vm0.jumpDests dest = true ∧ pc' = dest.toNat)) ∧ At env vm0 st pc' 1 0 vm) :=
  (updateIOGas_spec g).bind fun _ => peek_bind rfl (peek_bind rfl
    (branchTo_pop_spec (by omega) (verifyJumpDest_spec _)))

/-- Its constant form does not check the destination and takes 64 bits of it. -/
lemma execJumpci_spec (hg : 0 < g) :
    Does (At env vm0 (dest :: cond :: st) vm0.pc 0 0) (execJumpci g) (Next fun vm =>
      ∃ pc', ((cond = 0 ∧ pc' = vm0.pc + 1) ∨ (True ∧ pc' = wrap64 dest.toNat)) ∧
        At env vm0 st pc' 1 0 vm) :=
  (updateIOGas_spec g).bind fun _ => peek_bind rfl (peek_bind rfl
    (branchTo_pop_spec (by omega) (Triple.pure fun _ h => ⟨rfl, trivial, h⟩)))

end Specs

end VM

end Ybtc
