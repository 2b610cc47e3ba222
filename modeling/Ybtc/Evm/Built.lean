import Ybtc.Evm.Bounds

/-!
# What the code of an instruction is made of

Every instruction is put together from a few steps: the stack, the memory, the gas and the accounts.
What holds for each of them, and carries over to one step behind another, holds for every
instruction, so a result of that kind is one induction.  The main result is `VM.execute_built`.
-/

namespace Ybtc

open Stateful (Commutes mapState stateAfter)

namespace VM

/-- Another program and another pool. -/
def withCode (code : Bytes) (pool : ℕ → Option U256) (vm : VM) : VM :=
  { vm with code := code, pool := pool }

/-- **Code that is made of the steps of the machine.**  Only the pushes look at the program, and
    only a call puts gas back. -/
inductive Built (pushes calls : Prop) : {α : Type} → VmM α → Prop
  | pure {α : Type} (a : α) : Built pushes calls (pure a)
  | throw {α : Type} (e : VmFault) : Built pushes calls (throw e : VmM α)
  | bind {α β : Type} {x : VmM α} {f : α → VmM β} : Built pushes calls x →
      (∀ a, Built pushes calls (f a)) → Built pushes calls (x >>= f)
  | peek (i : ℕ) : Built pushes calls (peek i)
  | pop : Built pushes calls pop
  | push (a : U256) : Built pushes calls (push a)
  | pushOf {f : VM → U256} : (∀ code pool vm, f (withCode code pool vm) = f vm) →
      Built pushes calls fun vm => VM.push (f vm) vm
  | exchange (n : ℕ) (a b : U256) : Built pushes calls fun vm =>
    .ok () { vm with stack := (vm.stack.set 0 b).set n a }
  | checkStack (args ret : ℕ) : Built pushes calls (checkStack args ret)
  | next : Built pushes calls next
  | setPC (pc : ℕ) : Built pushes calls (setPC pc)
  | verifyJumpDest (dest : U256) : Built pushes calls (verifyJumpDest dest)
  | context : Built pushes calls context
  | readMem (start size : ℕ) : Built pushes calls (readMem start size)
  | writeMem (start : ℕ) (b : Bytes) : Built pushes calls (writeMem start b)
  | memSize : Built pushes calls memSize
  | resizeMem (n : ℕ) : Built pushes calls (resizeMem n)
  | afford (r : ℕ) : Built pushes calls fun vm =>
    if vm.ioGas < r then throwOutOfGas vm else .ok r vm
  | updateIOGas (g : ℕ) : Built pushes calls (updateIOGas g)
  | gasLeft : Built pushes calls gasLeft
  | spendNothing : Built pushes calls (spend 0)
  | readShortObject (env : StateEnv) (addr : H160) : Built pushes calls (readShortObject env addr)
  | addLog (topics : List U256) (data : Bytes) : Built pushes calls (addLog topics data)
  | addRefund (n : ℕ) : Built pushes calls (addRefund n)
  | balance (env : StateEnv) (a : H160) : Built pushes calls (onState (State.balance env a))
  | codeSize (env : StateEnv) (a : H160) : Built pushes calls (onState (State.codeSize env a))
  | code (env : StateEnv) (a : H160) : Built pushes calls (onState (State.code env a))
  | myBalance (env : StateEnv) : Built pushes calls (myBalance env)
  | storeAt (env : StateEnv) (p : U256) : Built pushes calls (storeAt env p)
  | setStore (env : StateEnv) (p v : U256) : Built pushes calls (setStore env p v)
  | look {α : Type} {f : VM → VmM α} : pushes → (∀ vm, Built pushes calls (f vm)) →
      Built pushes calls fun vm => f vm vm
  | codeByte (i : ℕ) : pushes → Built pushes calls (codeByte i)
  | readCode (start n : ℕ) : pushes → Built pushes calls (readCode start n)
  | returnGas (gas : U256) : calls → Built pushes calls (returnGas gas)

attribute [grind ←] Built.pure Built.throw Built.bind Built.peek Built.pop Built.push
  Built.checkStack Built.next Built.setPC Built.verifyJumpDest Built.context Built.readMem
  Built.writeMem Built.memSize Built.resizeMem Built.updateIOGas Built.gasLeft Built.readShortObject
  Built.addLog Built.addRefund Built.balance Built.codeSize Built.code Built.myBalance Built.storeAt
  Built.setStore Built.codeByte Built.readCode Built.returnGas

/-! ## Instructions -/

section Instructions

variable {α : Type} {pushes calls : Prop}

@[grind ←] lemma throwRange_built (what : String) : Built pushes calls (throwRange what : VmM α) :=
  .throw _

@[grind ←] lemma throwBadInstruction_built : Built pushes calls (throwBadInstruction : VmM α) :=
  .throw _

@[grind ←] lemma goOn_built : Built pushes calls goOn := .bind .next fun _ => .pure none

@[grind ←] lemma toInt63_built (v : ℕ) : Built pushes calls (toInt63 v) := by
  unfold toInt63 throwOutOfGas
  grind

@[grind ←] lemma memNeed_built (offset size : U256) : Built pushes calls (memNeed offset size) :=
  toInt63_built _

@[grind ←] lemma gasForMem_built (n : ℕ) : Built pushes calls (gasForMem n) := toInt63_built _

@[grind ←] lemma memGas_built (r n : ℕ) : Built pushes calls (memGas r n) := by grind [memGas]

@[grind ←] lemma updateGas_built (r n c : ℕ) : Built pushes calls (updateGas r n c) :=
  .bind (memGas_built r n) fun _ => .afford _

@[grind ←] lemma payMem_built (r n c : ℕ) : Built pushes calls (payMem r n c) := by
  grind [payMem, updateMem]

@[grind ←] lemma popN_built (n : ℕ) : Built pushes calls (popN n) := by
  induction n with
  | zero => exact .pure []
  | succ n ih => grind [popN]

@[grind ←] lemma callValue_built (delegate : Bool) : Built pushes calls (callValue delegate) := by
  grind [callValue]

variable (env : StateEnv)

@[grind ←] lemma sstoreGas_built (p v : U256) : Built pushes calls (sstoreGas env p v) := by
  grind [sstoreGas]

variable (ix : Indexing)

@[grind ←] lemma copyDataToMemory_built (data : Bytes) :
    Built pushes calls (copyDataToMemory ix data) := by
  grind [copyDataToMemory]

@[grind ←] lemma branchTo_built {x : VmM ℕ} (hx : Built pushes calls x) (cond : U256) :
    Built pushes calls (branchTo x cond) := by
  grind [branchTo]

@[grind ←] lemma swapTop_built (n : ℕ) : Built pushes calls (swapTop n) :=
  .bind (.peek 0) fun a => .bind (.peek n) fun b => .exchange n a b

@[grind ←] lemma unary_built (f : U256 → U256) (g : ℕ) : Built pushes calls (unary f g) := by
  grind [unary]

@[grind ←] lemma binary_built (f : U256 → U256 → U256) (g : ℕ) :
    Built pushes calls (binary f g) := by
  grind [binary]

@[grind ←] lemma ternary_built (f : U256 → U256 → U256 → U256) (g : ℕ) :
    Built pushes calls (ternary f g) := by
  grind [ternary]

/-- A value that does not come from the program. -/
lemma constant_built {f : VM → U256} (hf : ∀ code pool vm, f (withCode code pool vm) = f vm)
    (g : ℕ) : Built pushes calls (constant f g) :=
  .bind (.updateIOGas g) fun _ => .bind (.pushOf hf) fun _ => goOn_built

lemma execPush_built (n g : ℕ) (h : pushes) : Built pushes calls (execPush n g) :=
  .bind (.updateIOGas g) fun _ => .look h fun vm => by grind

lemma execPushc_built (g : ℕ) (h : pushes) : Built pushes calls (execPushc g) :=
  .bind (.updateIOGas g) fun _ => .look h fun vm => by grind

lemma execSha3_built (sha3 : Bytes → Uint256) : Built pushes calls (execSha3 ix sha3) := by
  unfold execSha3 execSha3With
  iterate 5 refine .bind (by grind) fun _ => ?_
  grind

lemma execLog_built (n : ℕ) : Built pushes calls (execLog ix n) := by
  unfold execLog execLogWith
  iterate 5 refine .bind (by grind) fun _ => ?_
  grind

lemma execCopy_built (data : ExtVM → Bytes) (g : ℕ) : Built pushes calls (execCopy ix data g) := by
  unfold execCopy execCopyWith
  iterate 5 refine .bind (by grind) fun _ => ?_
  grind

lemma execExtcodecopy_built : Built pushes calls (execExtcodecopy env ix) := by
  unfold execExtcodecopy execExtcodecopyWith
  iterate 5 refine .bind (by grind) fun _ => ?_
  grind

/-- `create` leaves all the gas it is given, so nothing is spent. -/
lemma caseCreate_built : Built pushes calls (caseCreate env) := by
  unfold caseCreate caseCreateWith
  iterate 7 refine .bind (by grind) fun _ => ?_
  refine dite _ (fun h => by rw [if_pos h]; grind) fun h => ?_
  rw [if_neg h]
  refine .bind (.myBalance env) fun balance => .bind .context fun ctx => ?_
  split_ifs
  · refine .bind .gasLeft fun createGas => .bind (.readShortObject env _) fun a =>
      .bind (.push a) fun _ => .bind ?_ fun _ => goOn_built
    rw [sub_self]
    exact .spendNothing
  · grind

lemma caseCall_built (delegate : Bool) (h : calls) :
    Built pushes calls (caseCall env delegate) := by
  unfold caseCall caseCallWith
  iterate 15 refine .bind (by grind) fun _ => ?_
  exact .bind (.returnGas _ h) fun _ => goOn_built

lemma execReturn_built (g : ℕ) : Built pushes calls (execReturn ix g) := by
  unfold execReturn execReturnWith
  iterate 4 refine .bind (by grind) fun _ => ?_
  grind

/-- The instruction is a push. -/
def Pushes (op : Instruction) : Prop := (∃ n, op = .push n) ∨ op = .pushc

/-- The instruction is a call. -/
def Calls (op : Instruction) : Prop := op ∈ [.call, .callcode, .staticcall, .delegatecall]

/-- **All instructions are made of the steps of the machine.** -/
lemma execute_built (op : Instruction) (g : ℕ) :
    Built (Pushes op) (Calls op) (execute env ix op g) := by
  have hconstant : ∀ {f : VM → U256}, (∀ code pool vm, f (withCode code pool vm) = f vm) →
    Built (Pushes op) (Calls op) (constant f g) := fun hf => constant_built hf g
  unfold execute executeWith
  cases op with
  | push n => exact execPush_built n g (.inl ⟨n, rfl⟩)
  | pushc => exact execPushc_built g (.inr rfl)
  | call | callcode | staticcall => exact caseCall_built env false (by simp [Calls])
  | delegatecall => exact caseCall_built env true (by simp [Calls])
  | address | origin | caller | callvalue | calldatasize | codesize | gasprice | timestamp | number
  | difficulty | gaslimit | pc | msize | gas => exact hconstant fun _ _ _ => rfl
  | stop => grind [execStop]
  | calldatacopy | codecopy => exact execCopy_built ix _ g
  | sha3 => exact execSha3_built ix _
  | balance => grind [execBalance]
  | extcodesize => grind [execExtcodesize]
  | extcodecopy => exact execExtcodecopy_built env ix
  | mload => grind [mloadWith]
  | mstore | mstore8 => grind [storeWith]
  | sload => grind [execSload]
  | sstore => grind [execSstore]
  | jump => grind [execJump]
  | jumpi => grind [execJumpi]
  | jumpc => grind [execJumpc]
  | jumpci => grind [execJumpci]
  | dup n => grind [execDup]
  | swap n => grind [execSwap]
  | log n => exact execLog_built ix n
  | create => exact caseCreate_built env
  | «return» => exact execReturn_built ix g
  | suicide => grind [execSuicide]
  | _ => grind

@[grind ←] lemma tierGas_built (t : Tier) : Built pushes calls (tierGas t) := by
  unfold tierGas
  split <;> grind

end Instructions

/-! ## Code that does not look at the program -/

/-- The code does not notice another program or another pool: all instructions but the pushes. -/
def Unaware {α : Type} (x : VmM α) : Prop := ∀ code pool, Commutes (withCode code pool) x

variable {α : Type} {x : VmM α}

/-- An operation on the state does not see the program. -/
lemma unaware_onState (x : ScM α) : Unaware (onState x) := by
  intro c p vm
  have hs : (withCode c p vm).state = vm.state := rfl
  unfold onState
  rw [hs]
  cases x vm.state <;> rfl

/-- **Only the pushes look at the program.** -/
lemma Built.unaware {calls : Prop} (h : Built False calls x) : Unaware x := by
  induction h with
  | bind _ _ ihx ihf => exact fun c p => (ihx c p).bind fun a => ihf a c p
  | look h _ | codeByte _ h | readCode _ _ h => exact h.elim
  | balance | codeSize | code => exact unaware_onState _
  | myBalance env => exact fun c p vm => unaware_onState (State.balance env vm.ctx.myAddress) c p vm
  | storeAt env q =>
    exact fun c p vm => unaware_onState (State.storage env vm.ctx.myAddress q) c p vm
  | setStore env q v =>
    exact fun c p vm => unaware_onState (State.setStorage env vm.ctx.myAddress q v) c p vm
  | pushOf hf =>
    intro c p vm
    dsimp only
    rw [hf]
    rfl
  | peek i =>
    intro c p vm
    have hstack : (withCode c p vm).stack = vm.stack := rfl
    unfold VM.peek
    rw [hstack]
    cases vm.stack.drop i <;> rfl
  | pop =>
    intro c p vm
    have hstack : (withCode c p vm).stack = vm.stack := rfl
    unfold VM.pop
    rw [hstack]
    cases vm.stack <;> rfl
  | checkStack args ret =>
    intro c p vm
    unfold VM.checkStack
    change (if vm.stack.length < args ∨ 1024 < vm.stack.length - args + ret then _ else _) = _
    split_ifs <;> rfl
  | verifyJumpDest dest =>
    intro c p vm
    unfold VM.verifyJumpDest
    change (if isJumpDest vm.jumpDests dest then _ else _) = _
    split_ifs <;> rfl
  | readMem start size =>
    intro c p vm
    unfold VM.readMem
    change (if size = 0 then _ else if start + size ≤ vm.mem.length then _ else _) = _
    split_ifs <;> rfl
  | writeMem start b =>
    intro c p vm
    unfold VM.writeMem
    change (if b = [] then _ else if start + b.length ≤ vm.mem.length then _ else _) = _
    split_ifs <;> rfl
  | afford r =>
    intro c p vm
    change (if vm.ioGas < r then _ else _) = mapState _ (if vm.ioGas < r then _ else _)
    split_ifs <;> rfl
  | updateIOGas g =>
    intro c p vm
    unfold VM.updateIOGas
    change (if vm.ioGas < g then _ else _) = _
    split_ifs <;> rfl
  | _ => exact fun _ _ _ => rfl

/-! ## Code that never gains gas -/

/-- There is no more gas than before, whether the code returns or fails: all instructions but the
    calls. -/
def Saves {α : Type} (x : VmM α) : Prop := ∀ vm, (stateAfter (x vm)).ioGas ≤ vm.ioGas

/-- An operation on the state leaves the gas alone. -/
lemma saves_onState (x : ScM α) : Saves (onState x) := by
  intro vm
  unfold onState
  split <;> exact le_rfl

lemma Saves.bind {β : Type} {f : α → VmM β} (hx : Saves x) (hf : ∀ a, Saves (f a)) :
    Saves (x >>= f) :=
  fun vm => Stateful.stateAfter_bind (P := fun vm1 => vm1.ioGas ≤ vm.ioGas) (hx vm) fun a vm1 h =>
    (hf a vm1).trans h

/-- **Only a call puts gas back.** -/
lemma Built.saves {pushes : Prop} (h : Built pushes False x) : Saves x := by
  induction h with
  | bind _ _ ihx ihf => exact ihx.bind ihf
  | look _ _ ih => exact fun vm => ih vm vm
  | returnGas _ h => exact h.elim
  | balance | codeSize | code => exact saves_onState _
  | myBalance | storeAt | setStore => exact fun vm => saves_onState _ vm
  | peek =>
    intro vm
    unfold VM.peek
    split <;> exact le_rfl
  | pop =>
    intro vm
    unfold VM.pop
    split <;> exact le_rfl
  | codeByte =>
    intro vm
    unfold VM.codeByte
    split <;> exact le_rfl
  | checkStack | verifyJumpDest | readMem | writeMem | readCode =>
    intro vm
    simp only [VM.checkStack, VM.verifyJumpDest, VM.readMem, VM.writeMem, VM.readCode]
    split_ifs <;> exact le_rfl
  | afford =>
    intro vm
    dsimp only
    split_ifs <;> exact le_rfl
  | updateIOGas =>
    intro vm
    unfold VM.updateIOGas
    split_ifs
    · exact le_rfl
    · exact Nat.sub_le _ _
  | spendNothing => exact spend_zero_le
  | _ => exact fun _ => le_rfl

end VM

end Ybtc
