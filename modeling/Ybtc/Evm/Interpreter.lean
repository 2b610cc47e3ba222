import Ybtc.Evm.Machine

/-!
# The interpreter

`VM::interpretCases`: the loop that fetches and executes instructions.  The instructions fall into a
few families, each one definition with parameters.

Every instruction that does not halt costs gas, so the number of turns of the loop is bounded by the
gas.  Calls and creations inside a program do nothing in this version of the machine: `ExtVM::call`
returns an empty output, and `ExtVM::create` returns the zero address and leaves the gas it is
given.  `CREATE` and `COINBASE` take the twenty bytes of an address for a number; the word they push
is left open (`StateEnv.shortObject`).
-/

namespace Ybtc

open BitVec (ofNat)

open Schedule

/-! ## Arithmetic -/

def boolWord (c : Bool) : U256 := if c then 1 else 0

def divOp (a b : U256) : U256 := if b = 0 then 0 else ofNat 256 (a.toNat / b.toNat)

def sdivOp (a b : U256) : U256 := if b = 0 then 0 else BitVec.ofInt 256 (a.toInt.tdiv b.toInt)

def modOp (a b : U256) : U256 := if b = 0 then 0 else ofNat 256 (a.toNat % b.toNat)

def smodOp (a b : U256) : U256 := if b = 0 then 0 else BitVec.ofInt 256 (a.toInt.tmod b.toInt)

def addmodOp (a b c : U256) : U256 :=
  if c = 0 then 0 else ofNat 256 ((a.toNat + b.toNat) % c.toNat)

def mulmodOp (a b c : U256) : U256 :=
  if c = 0 then 0 else ofNat 256 (a.toNat * b.toNat % c.toNat)

def byteOp (a b : U256) : U256 := if a < 32 then (b >>> (8 * (31 - a.toNat))) &&& 0xff else 0

def signextendOp (a number : U256) : U256 :=
  if a < 31 then
    let testBit := a.toNat * 8 + 7
    let mask : U256 := (1 <<< testBit) - 1
    if number.getLsbD testBit then number ||| ~~~mask else number &&& mask
  else number

/-- The loop of `exp256`. -/
def expLoop : ℕ → U256 → U256 → U256 → U256
  | 0, result, _, _ => result
  | turns + 1, result, base, exponent =>
    if exponent = 0 then result
    else expLoop turns (if exponent.toNat % 2 = 1 then result * base else result) (base * base)
      (exponent >>> 1)

/-- `exp256`; an exponent has 256 bits. -/
def exp256 (base exponent : U256) : U256 := expLoop 256 1 base exponent

/-- `firstBitSet` of a word, counted from its highest bit. -/
def firstBitSet (e : U256) : ℕ := if e = 0 then 256 else 255 - Nat.log2 e.toNat

/-- `CALLDATALOAD`. -/
def loadWord (data : Bytes) (p : U256) : U256 :=
  if p.toNat + 31 < data.length then ofNat 256 (readBE ((data.drop p.toNat).take 32))
  else if data.length ≤ p.toNat then 0
  else ofNat 256 (readBE ((List.range 32).map fun j => data.getD (p.toNat + j) 0))

namespace VM

/-! ## Families -/

/-- The next instruction. -/
def goOn : VmM (Option Bytes) := do
  next
  pure none

def unary (f : U256 → U256) (runGas : ℕ) : VmM (Option Bytes) := do
  updateIOGas runGas
  let a ← pop
  push (f a)
  goOn

def binary (f : U256 → U256 → U256) (runGas : ℕ) : VmM (Option Bytes) := do
  updateIOGas runGas
  let a ← pop
  let b ← pop
  push (f a b)
  goOn

def ternary (f : U256 → U256 → U256 → U256) (runGas : ℕ) : VmM (Option Bytes) := do
  updateIOGas runGas
  let a ← pop
  let b ← pop
  let c ← pop
  push (f a b c)
  goOn

/-- An instruction that pushes what it finds in the machine. -/
def constant (f : VM → U256) (runGas : ℕ) : VmM (Option Bytes) := do
  updateIOGas runGas
  fun vm => push (f vm) vm
  goOn

/-- The context of the execution. -/
def context : VmM ExtVM := fun vm => .ok vm.ctx vm

/-- Items are taken off the stack. -/
def popN : ℕ → VmM (List U256)
  | 0 => pure []
  | n + 1 => do
    let a ← pop
    let rest ← popN n
    pure (a :: rest)

/-! ## Computing with gas -/

/-- `m_io_gas += gas`. -/
def returnGas (gas : U256) : VmM Unit := fun vm =>
  .ok () { vm with ioGas := wrap64 (vm.ioGas + wrap64 gas.toNat) }

/-- The gas that comes back from a call, with the stipend of a call that sends a value. -/
def callReturn (gas value : U256) : VmM Unit :=
  returnGas (gas + if value = 0 then 0 else ofNat 256 callStipend)

/-- `*io_gas -= used` and `m_io_gas = uint64_t(*io_gas)`. -/
def spend (used : U256) : VmM Unit := fun vm =>
  .ok () { vm with ioGas := wrap64 (ofNat 256 vm.ioGas - used).toNat }

/-- How the machine computes with gas: the price of memory and copies, the gas that a creation uses,
    and the gas that comes back from a call. -/
structure GasArithmetic where
  payMem : ℕ → ℕ → ℕ → VmM Unit
  callReturn : U256 → U256 → VmM Unit
  spend : U256 → VmM Unit

/-- With 64 bits, as in the source. -/
def GasArithmetic.bits64 : GasArithmetic := ⟨VM.payMem, VM.callReturn, VM.spend⟩

@[simp, grind =] lemma bits64_payMem (r n c : ℕ) :
    GasArithmetic.bits64.payMem r n c = payMem r n c := rfl

variable (ar : GasArithmetic)

/-! ## Memory

The instructions that use the memory, and those that create and call, are given over an arithmetic
for gas. -/

def mloadWith (ix : Indexing) (runGas : ℕ) : VmM (Option Bytes) := do
  let p ← peek 0
  let n ← toInt63 p.toNat
  ar.payMem runGas (n + 32) 0
  let p ← pop
  let b ← readMem (ix.word p) 32
  push (ofNat 256 (readBE b))
  goOn

def mload := mloadWith .bits64

/-- `MSTORE` and `MSTORE8`, which differ in what they write. -/
def storeWith (ix : Indexing) (width : ℕ) (f : U256 → Bytes) (runGas : ℕ) :
    VmM (Option Bytes) := do
  let p ← peek 0
  let n ← toInt63 p.toNat
  ar.payMem runGas (n + width) 0
  let p ← pop
  let v ← pop
  writeMem (ix.word p) (f v)
  goOn

def store := storeWith .bits64

def execSha3With (ix : Indexing) (sha3 : Bytes → Uint256) : VmM (Option Bytes) := do
  let offset ← peek 0
  let size ← peek 1
  let runGas ← toInt63 (sha3Gas + (size.toNat + 31) / 32 * sha3WordGas)
  let need ← memNeed offset size
  ar.payMem runGas need 0
  let inOff ← pop
  let inSize ← pop
  let b ← readMem (ix.long inOff) (ix.long inSize)
  push (sha3 b)
  goOn

def execSha3 := execSha3With .bits64

/-- A new entry of the log. -/
def addLog (topics : List U256) (data : Bytes) : VmM Unit := fun vm =>
  .ok () { vm with sub :=
    { vm.sub with logs := vm.sub.logs ++ [⟨vm.ctx.myAddress, topics, data⟩] } }

/-- `LOG0` … `LOG4`. -/
def execLogWith (ix : Indexing) (n : ℕ) : VmM (Option Bytes) := do
  let offset ← peek 0
  let size ← peek 1
  let runGas ← toInt63 (logGas + logTopicGas * n + logDataGas * size.toNat)
  let need ← memNeed offset size
  ar.payMem runGas need 0
  let offset ← pop
  let size ← pop
  let topics ← popN n
  let data ← readMem (ix.long offset) (ix.long size)
  addLog topics data
  goOn

def execLog := execLogWith .bits64

/-- `CALLDATACOPY` and `CODECOPY`. -/
def execCopyWith (ix : Indexing) (data : ExtVM → Bytes) (runGas : ℕ) : VmM (Option Bytes) := do
  let offset ← peek 0
  let size ← peek 2
  let copy ← toInt63 size.toNat
  let need ← memNeed offset size
  ar.payMem runGas need copy
  let ctx ← context
  copyDataToMemory ix (data ctx)
  goOn

def execCopy := execCopyWith .bits64

/-! ## Code -/

/-- Bytes of the program. -/
def readCode (start n : ℕ) : VmM Bytes := fun vm =>
  if start + n ≤ vm.code.length then .ok ((vm.code.drop start).take n) vm
  else .error (.outside .code) vm

/-- `PUSH1` … `PUSH32`. -/
def execPush (n runGas : ℕ) : VmM (Option Bytes) := do
  updateIOGas runGas
  fun vm => (do
    let b ← readCode (vm.pc + 1) n
    push (wordOf b)
    setPC (vm.pc + n + 1)
    pure none) vm

def execPushc (runGas : ℕ) : VmM (Option Bytes) := do
  updateIOGas runGas
  fun vm => (do
    let i ← codeByte (vm.pc + 1)
    push ((vm.pool i.toNat).getD 0)
    let skip ← codeByte (vm.pc + 2)
    setPC (vm.pc + 2 + skip.toNat)
    pure none) vm

def execDup (n runGas : ℕ) : VmM (Option Bytes) := do
  updateIOGas runGas
  let a ← peek (n - 1)
  push a
  goOn

/-- The top of the stack and the item `n` below it change places. -/
def swapTop (n : ℕ) : VmM Unit := do
  let a ← peek 0
  let b ← peek n
  fun vm => .ok () { vm with stack := (vm.stack.set 0 b).set n a }

def execSwap (n runGas : ℕ) : VmM (Option Bytes) := do
  updateIOGas runGas
  swapTop n
  goOn

/-- `verifyJumpDest`, which throws. -/
def verifyJumpDest (dest : U256) : VmM ℕ := fun vm =>
  if isJumpDest vm.jumpDests dest then .ok dest.toNat vm
  else throwBadJumpDestination vm

def execJump (runGas : ℕ) : VmM (Option Bytes) := do
  updateIOGas runGas
  let dest ← peek 0
  let pc ← verifyJumpDest dest
  setPC pc
  let _ ← pop
  pure none

/-- The end of a conditional jump. -/
def branchTo (dest : VmM ℕ) (cond : U256) : VmM Unit :=
  if cond = 0 then next
  else do
    let pc ← dest
    setPC pc

def execJumpi (runGas : ℕ) : VmM (Option Bytes) := do
  updateIOGas runGas
  let dest ← peek 0
  let cond ← peek 1
  branchTo (verifyJumpDest dest) cond
  let _ ← pop
  let _ ← pop
  pure none

def execJumpc (runGas : ℕ) : VmM (Option Bytes) := do
  updateIOGas runGas
  let dest ← pop
  setPC (wrap64 dest.toNat)
  pure none

/-- `JUMPCI`.  The table of instructions gives it one argument, but it takes two off the stack; with
    only one there it reads below the stack. -/
def execJumpci (runGas : ℕ) : VmM (Option Bytes) := do
  updateIOGas runGas
  let dest ← peek 0
  let cond ← peek 1
  branchTo (pure (wrap64 dest.toNat)) cond
  let _ ← pop
  let _ ← pop
  pure none

/-! ## Accounts -/

section Accounts

variable (env : StateEnv)

def execBalance : VmM (Option Bytes) := do
  updateIOGas balanceGas
  let a ← pop
  let b ← onState (State.balance env (asAddress a))
  push b
  goOn

def execExtcodesize : VmM (Option Bytes) := do
  updateIOGas extcodesizeGas
  let a ← pop
  let n ← onState (State.codeSize env (asAddress a))
  push (ofNat 256 n)
  goOn

def execExtcodecopyWith (ix : Indexing) : VmM (Option Bytes) := do
  let offset ← peek 1
  let size ← peek 3
  let copy ← toInt63 size.toNat
  let need ← memNeed offset size
  ar.payMem extcodecopyGas need copy
  let a ← pop
  let data ← onState (State.code env (asAddress a))
  copyDataToMemory ix data
  goOn

def execExtcodecopy := execExtcodecopyWith .bits64 env

/-- `m_ctx->store(n)`. -/
def storeAt (p : U256) : VmM U256 := fun vm => onState (State.storage env vm.ctx.myAddress p) vm

/-- `m_ctx->setStore(n, v)`. -/
def setStore (p v : U256) : VmM Unit := fun vm =>
  onState (State.setStorage env vm.ctx.myAddress p v) vm

def execSload : VmM (Option Bytes) := do
  updateIOGas sloadGas
  let p ← pop
  let v ← storeAt env p
  push v
  goOn

/-- `m_ctx->sub.refunds += n`. -/
def addRefund (n : ℕ) : VmM Unit := fun vm =>
  .ok () { vm with sub := { vm.sub with refunds := vm.sub.refunds + ofNat 256 n } }

/-- The gas of `SSTORE`; the refund is noted before the gas is paid. -/
def sstoreGas (p v : U256) : VmM ℕ := do
  let old ← storeAt env p
  if old = 0 ∧ v ≠ 0 then pure sstoreSetGas
  else do
    let old ← storeAt env p
    if old ≠ 0 ∧ v = 0 then do
      addRefund sstoreRefundGas
      pure sstoreResetGas
    else pure sstoreResetGas

def execSstore : VmM (Option Bytes) := do
  let p ← peek 0
  let v ← peek 1
  let runGas ← sstoreGas env p v
  updateIOGas runGas
  setStore env p v
  let _ ← pop
  let _ ← pop
  goOn

/-- The balance of the executing account. -/
def myBalance : VmM U256 := fun vm => onState (State.balance env vm.ctx.myAddress) vm

/-- `ExtVM::create`: the address, and what it leaves of `io_gas`. -/
def create (ioGas : U256) : H160 × U256 := (0, ioGas)

/-- `*io_gas = m_io_gas`. -/
def gasLeft : VmM U256 := fun vm => .ok (ofNat 256 vm.ioGas) vm

/-- `*(u160*)&addr`.  The object has only twenty bytes, so the word does not depend on them alone.
    -/
def readShortObject (_addr : H160) : VmM U256 := fun vm => .ok (env.shortObject vm.ioGas) vm

/-- `caseCreate`. -/
def caseCreateWith : VmM (Option Bytes) := do
  let offset ← peek 1
  let size ← peek 2
  let need ← memNeed offset size
  ar.payMem createGas need 0
  let endowment ← pop
  let _ ← pop
  let _ ← pop
  if endowment ≠ 0 then throwRange "Create With Value"
  else do
    let balance ← myBalance env
    let ctx ← context
    if endowment ≤ balance ∧ ctx.depth < 1024 then do
      let createGas ← gasLeft
      let (addr, gas) := create createGas
      let a ← readShortObject env addr
      push a
      ar.spend (createGas - gas)
      goOn
    else do
      push 0
      goOn

def caseCreate := caseCreateWith .bits64 env

/-- The value of a call. -/
def callValue (delegate : Bool) : VmM U256 := if delegate then pure 0 else peek 2

/-- `caseCall`; the call itself returns at once, with an empty output. -/
def caseCallWith (delegate : Bool) : VmM (Option Bytes) := do
  let value ← callValue delegate
  let first := if delegate then 2 else 3
  let inputOffset ← peek first
  let inputSize ← peek (first + 1)
  let outputOffset ← peek (first + 2)
  let outputSize ← peek (first + 3)
  let inputMemNeed ← memNeed inputOffset inputSize
  let outputMemNeed ← memNeed outputOffset outputSize
  ar.payMem (callGas + if value = 0 then 0 else callValueTransferGas)
    (max inputMemNeed outputMemNeed) 0
  let gas ← peek 0
  let runGas ← toInt63 gas.toNat
  updateIOGas runGas
  let _ ← popN (if delegate then 6 else 7)
  let balance ← myBalance env
  let ctx ← context
  push (boolWord (decide (value ≤ balance ∧ ctx.depth < 1024)))
  ar.callReturn gas value
  goOn

def caseCall := caseCallWith .bits64 env

/-! ## Halting -/

def execReturnWith (ix : Indexing) (runGas : ℕ) : VmM (Option Bytes) := do
  let offset ← peek 0
  let size ← peek 1
  let need ← memNeed offset size
  ar.payMem runGas need 0
  let b ← pop
  let s ← pop
  let out ← readMem (ix.long b) (ix.long s)
  pure (some out)

def execReturn := execReturnWith .bits64

def execStop (runGas : ℕ) : VmM (Option Bytes) := do
  updateIOGas runGas
  pure (some [])

/-- `SUICIDE`: `ExtVM::suicide` does nothing. -/
def execSuicide : VmM (Option Bytes) := do
  let _ ← peek 0
  let _ ← myBalance env
  updateIOGas suicideGas
  pure (some [])

/-! ## The loop -/

/-- One instruction, with the gas of its tier; it halts with an output or goes on. -/
def executeWith (ix : Indexing) (op : Instruction) (runGas : ℕ) : VmM (Option Bytes) :=
  match op with
  | .stop => execStop runGas
  | .add => binary (fun a b => b + a) runGas
  | .mul => binary (fun a b => b * a) runGas
  | .sub => binary (fun a b => a - b) runGas
  | .div => binary divOp runGas
  | .sdiv => binary sdivOp runGas
  | .mod => binary modOp runGas
  | .smod => binary smodOp runGas
  | .addmod => ternary addmodOp runGas
  | .mulmod => ternary mulmodOp runGas
  | .exp => do
    let exponent ← peek 1
    binary (fun base exponent => exp256 base exponent)
      (expGas + expByteGas * (32 - firstBitSet exponent / 8))
  | .signextend => binary signextendOp runGas
  | .lt => binary (fun a b => boolWord (decide (a < b))) runGas
  | .gt => binary (fun a b => boolWord (decide (b < a))) runGas
  | .slt => binary (fun a b => boolWord (decide (a.toInt < b.toInt))) runGas
  | .sgt => binary (fun a b => boolWord (decide (b.toInt < a.toInt))) runGas
  | .eq => binary (fun a b => boolWord (a == b)) runGas
  | .iszero => unary (fun a => boolWord (a == 0)) runGas
  | .and => binary (fun a b => a &&& b) runGas
  | .or => binary (fun a b => a ||| b) runGas
  | .xor => binary (fun a b => a ^^^ b) runGas
  | .not => unary (fun a => ~~~a) runGas
  | .byte => binary byteOp runGas
  | .sha3 => execSha3With ar ix env.sha3
  | .address => constant (fun vm => fromAddress vm.ctx.myAddress) runGas
  | .balance => execBalance env
  | .origin => constant (fun vm => fromAddress vm.ctx.origin) runGas
  | .caller => constant (fun vm => fromAddress vm.ctx.caller) runGas
  | .callvalue => constant (fun vm => vm.ctx.value) runGas
  | .calldataload => do
    let ctx ← context
    unary (loadWord ctx.data) runGas
  | .calldatasize => constant (fun vm => ofNat 256 vm.ctx.data.length) runGas
  | .calldatacopy => execCopyWith ar ix ExtVM.data runGas
  | .codesize => constant (fun vm => ofNat 256 vm.ctx.code.length) runGas
  | .codecopy => execCopyWith ar ix ExtVM.code runGas
  | .gasprice => constant (fun vm => vm.ctx.gasPrice) runGas
  | .extcodesize => execExtcodesize env
  | .extcodecopy => execExtcodecopyWith ar env ix
  | .blockhash => unary (fun _ => 0) runGas
  | .coinbase => do
    updateIOGas runGas
    let a ← readShortObject env 0
    push a
    goOn
  | .timestamp => constant (fun _ => 123456789) runGas
  | .number => constant (fun _ => 0) runGas
  | .difficulty => constant (fun _ => 0) runGas
  | .gaslimit => constant (fun _ => 400000) runGas
  | .jumpto | .jumpif | .jumpv | .jumpsub | .jumpsubv | .returnsub | .beginsub | .begindata =>
    throwBadInstruction
  | .pop => do
    updateIOGas runGas
    let _ ← pop
    goOn
  | .mload => mloadWith ar ix runGas
  | .mstore => storeWith ar ix 32 hashBytes runGas
  | .mstore8 => storeWith ar ix 1 (fun v => [UInt8.ofNat v.toNat]) runGas
  | .sload => execSload env
  | .sstore => execSstore env
  | .jump => execJump runGas
  | .jumpi => execJumpi runGas
  | .pc => constant (fun vm => ofNat 256 vm.pc) runGas
  | .msize => constant (fun vm => ofNat 256 vm.mem.length) runGas
  | .gas => constant (fun vm => ofNat 256 vm.ioGas) runGas
  | .jumpdest => do
    updateIOGas jumpdestGas
    goOn
  | .push n => execPush n runGas
  | .dup n => execDup n runGas
  | .swap n => execSwap n runGas
  | .log n => execLogWith ar ix n
  | .pushc => execPushc runGas
  | .jumpc => execJumpc runGas
  | .jumpci => execJumpci runGas
  | .create => caseCreateWith ar env
  | .call | .callcode => caseCallWith ar env false
  | .delegatecall => caseCallWith ar env true
  | .return => execReturnWith ar ix runGas
  | .suicide => execSuicide env
  -- The instructions below have no gas tier, and the fetch does not come this far.
  | .staticcall => caseCallWith ar env false
  | .revert => throwRange "Revert Instruction"
  | .bad | .unknown => throwBadInstruction

def execute := executeWith .bits64 env

/-- `checkStack`. -/
def checkStack (args ret : ℕ) : VmM Unit := fun vm =>
  if vm.stack.length < args ∨ 1024 < vm.stack.length - args + ret then
    throwBadStack vm
  else .ok () vm

/-- The gas of a tier; there is none for the tier `invalid`, behind the end of the array. -/
def tierGas (tier : Tier) : VmM ℕ :=
  match tierStepGas tier with
  | some g => pure g
  | none => throw (.outside .tiers)

/-- `fetchInstruction`. -/
def fetchInstruction : VmM (Instruction × ℕ) := do
  let b ← fun vm => codeByte vm.pc vm
  checkStack (instructionInfo (.ofByte b)).args (instructionInfo (.ofByte b)).ret
  let runGas ← tierGas (instructionInfo (.ofByte b)).gasPriceTier
  pure (.ofByte b, runGas)

/-- One turn of the loop. -/
def step (ix : Indexing) : VmM (Option Bytes) := do
  let fetched ← fetchInstruction
  execute env ix fetched.1 fetched.2

/-- The machine has halted, or it goes on. -/
def haltOr (goOn : VmM Bytes) : Option Bytes → VmM Bytes
  | some out => pure out
  | none => goOn

/-- The loop, for a number of turns. -/
def run : ℕ → VmM Bytes
  | 0 => throw .endless
  | turns + 1 => do
    let out ← step env .source
    haltOr (run turns) out

/-- The machine at the start of a program. -/
def initial (gas : U256) (ctx : ExtVM) (s : State) : VM where
  ctx := ctx
  sub := .initial
  ioGas := wrap64 gas.toNat
  code := (optimize ctx.code).1.code
  pool := (optimize ctx.code).1.pool
  jumpDests := (optimize ctx.code).2
  stack := []
  mem := []
  pc := 0
  state := s

/-- What `exec` leaves behind. -/
structure Outcome where
  output : Bytes
  gas : U256
  sub : SubState
deriving Repr, DecidableEq

/-- `exec`: the output, the gas that is left and what was collected. -/
def exec (gas : U256) (ctx : ExtVM) : ScM Outcome := fun s =>
  match run env (wrap64 gas.toNat + 1) (initial gas ctx s) with
  | .ok out vm => .ok ⟨out, ofNat 256 vm.ioGas, vm.sub⟩ vm.state
  | .error e vm => .error e.toFault vm.state

end Accounts

end VM

end Ybtc
