import Ybtc.Evm.State
import Ybtc.Evm.Optimize

/-!
# The virtual machine: stack, memory and gas

`sc::VM` is a stack machine with a byte memory that pays for each instruction.  This module has its
state and the parts that the instructions are made of.

Gas is 64 bits wide.  All exceptions of the machine are `std::range_error`s.
-/

namespace Ybtc

/-- `LogEntry`. -/
structure LogEntry where
  address : H160
  topics : List U256
  data : Bytes
deriving Repr, DecidableEq

/-- `SubState`. -/
structure SubState where
  suicides : List H160
  logs : List LogEntry
  refunds : U256
deriving Repr, DecidableEq

/-- `SubState()`, which is also what `clear` leaves. -/
def SubState.initial : SubState := ⟨[], [], 0⟩

/-- `ExtVM`, but for its `sub`. -/
structure ExtVM where
  myAddress : H160
  caller : H160
  origin : H160
  value : U256
  gasPrice : U256
  data : Bytes
  code : Bytes
  depth : ℕ
deriving Repr, DecidableEq

/-- `VM`.  The top of the stack is the head of the list. -/
structure VM where
  ctx : ExtVM
  sub : SubState
  ioGas : ℕ
  code : Bytes
  pool : ℕ → Option U256
  jumpDests : List ℕ
  stack : List U256
  mem : Bytes
  pc : ℕ
  state : State

/-- The arrays that the machine indexes: `m_code`, the stack, `m_mem` and `tierStepGas`. -/
inductive Region
  | code
  | stack
  | memory
  | tiers
deriving Repr, DecidableEq

/-- How the machine fails: by an access outside of an array, which is undefined, because the loop
    has not ended after the number of turns it was given, or by a fault of another kind. -/
inductive VmFault
  | outside (r : Region)
  | endless
  | fault (f : Fault)
deriving Repr, DecidableEq

/-- What the caller of the machine sees. -/
def VmFault.toFault : VmFault → Fault
  | .outside _ => .undefined .outOfBounds
  | .endless => .diverged
  | .fault f => f

/-- Code of the machine. -/
abbrev VmM := EStateM VmFault VM

/-- Code that works on the account state. -/
def onState {α : Type} (x : ScM α) : VmM α := fun vm =>
  match x vm.state with
  | .ok a s => .ok a { vm with state := s }
  | .error e s => .error (.fault e) { vm with state := s }

/-- 64-bit arithmetic. -/
def wrap64 (n : ℕ) : ℕ := n % 2 ^ 64

/-- `asAddress`. -/
def asAddress (item : U256) : H160 := BitVec.ofNat 160 item.toNat

/-- `fromAddress`. -/
def fromAddress (a : H160) : U256 := BitVec.ofNat 256 a.toNat

namespace VM

/-! ## Failures -/

/-- An exception of the machine. -/
def throwRange {α : Type} (what : String) : VmM α := throw (.fault (rangeError what))

def throwOutOfGas {α : Type} : VmM α := throwRange "Out Of Gas"

def throwBadInstruction {α : Type} : VmM α := throwRange "Bad Instruction"

def throwBadJumpDestination {α : Type} : VmM α := throwRange "Bad Jump Destination"

def throwBadStack {α : Type} : VmM α := throwRange "Bad Stack"

/-! ## The stack -/

/-- `*(m_SP - i)`. -/
def peek (i : ℕ) : VmM U256 := fun vm =>
  match vm.stack.drop i with
  | a :: _ => .ok a vm
  | [] => .error (.outside .stack) vm

/-- `*m_SP--`. -/
def pop : VmM U256 := fun vm =>
  match vm.stack with
  | a :: rest => .ok a { vm with stack := rest }
  | [] => .error (.outside .stack) vm

/-- `*++m_SP = a`. -/
def push (a : U256) : VmM Unit := fun vm => .ok () { vm with stack := a :: vm.stack }

/-- `++m_PC`. -/
def next : VmM Unit := fun vm => .ok () { vm with pc := vm.pc + 1 }

def setPC (pc : ℕ) : VmM Unit := fun vm => .ok () { vm with pc := pc }

/-- `m_code[i]`. -/
def codeByte (i : ℕ) : VmM UInt8 := fun vm =>
  match vm.code.drop i with
  | b :: _ => .ok b vm
  | [] => .error (.outside .code) vm

/-! ## The memory -/

/-- The bytes of the memory from `start` on; no byte is looked at when the size is zero. -/
def readMem (start size : ℕ) : VmM Bytes := fun vm =>
  if size = 0 then .ok [] vm
  else if start + size ≤ vm.mem.length then .ok ((vm.mem.drop start).take size) vm
  else .error (.outside .memory) vm

/-- The bytes are written into the memory. -/
def writeMem (start : ℕ) (b : Bytes) : VmM Unit := fun vm =>
  if b = [] then .ok () vm
  else if start + b.length ≤ vm.mem.length then
    .ok () { vm with mem := vm.mem.take start ++ b ++ vm.mem.drop (start + b.length) }
  else .error (.outside .memory) vm

/-! ## Gas -/

/-- `toInt63`. -/
def toInt63 (v : ℕ) : VmM ℕ := if 0x7fffffffffffffff < v then throwOutOfGas else pure v

/-- `updateIOGas`, for the gas of the instruction. -/
def updateIOGas (runGas : ℕ) : VmM Unit := fun vm =>
  if vm.ioGas < runGas then throwOutOfGas vm
  else .ok () { vm with ioGas := vm.ioGas - runGas }

/-- `memNeed`. -/
def memNeed (offset size : U256) : VmM ℕ :=
  toInt63 (if size = 0 then 0 else offset.toNat + size.toNat)

/-- What a memory of so many bytes costs. -/
def memPrice (size : ℕ) : ℕ :=
  Schedule.memoryGas * (size / 32) + size / 32 * (size / 32) / Schedule.quadCoeffDiv

/-- `gasForMem`. -/
def gasForMem (size : ℕ) : VmM ℕ := toInt63 (memPrice size)

/-- The size of the memory. -/
def memSize : VmM ℕ := fun vm => .ok vm.mem.length vm

/-- The gas of the instruction with the price of more memory. -/
def memGas (runGas newMemSize : ℕ) : VmM ℕ := do
  let size ← memSize
  if size < newMemSize then do
    let g ← gasForMem newMemSize
    let g0 ← gasForMem size
    let d ← toInt63 (wrap64 (g + 2 ^ 64 - g0))
    pure (wrap64 (runGas + d))
  else pure runGas

/-- `updateGas`; the gas of the instruction, which the machine has. -/
def updateGas (runGas newMemSize copyMemSize : ℕ) : VmM ℕ := do
  let runGas ← memGas runGas newMemSize
  let runGas := wrap64 (runGas + Schedule.copyGas * ((copyMemSize + 31) / 32))
  fun vm => if vm.ioGas < runGas then throwOutOfGas vm else .ok runGas vm

/-- `m_mem.resize(size)`, when the memory is smaller. -/
def resizeMem (size : ℕ) : VmM Unit := fun vm =>
  .ok () { vm with mem := vm.mem ++ List.replicate (size - vm.mem.length) 0 }

/-- `updateMem`; the gas of the instruction. -/
def updateMem (runGas newMemSize copyMemSize : ℕ) : VmM ℕ := do
  let newMemSize := (newMemSize + 31) / 32 * 32
  let runGas ← updateGas runGas newMemSize copyMemSize
  resizeMem newMemSize
  pure runGas

/-- The memory grows to hold what is needed, and the instruction is paid for. -/
def payMem (runGas newMemSize copyMemSize : ℕ) : VmM Unit := do
  let runGas ← updateMem runGas newMemSize copyMemSize
  updateIOGas runGas

/-! ## Indices -/

/-- How an item of the stack becomes an index into the memory: `word` for `MLOAD`, `MSTORE` and
    `MSTORE8`, `long` for the other instructions. -/
structure Indexing where
  word : U256 → ℕ
  long : U256 → ℕ

/-- The casts of the source, to `unsigned` and to `uint64_t`. -/
def Indexing.source : Indexing := ⟨fun v => v.toNat % 2 ^ 32, fun v => v.toNat % 2 ^ 64⟩

/-- No digit is lost. -/
def Indexing.full : Indexing := ⟨BitVec.toNat, BitVec.toNat⟩

/-! ## Copies -/

/-- The bytes that `copyDataToMemory` writes: what there is of the data, and zeros behind it.  The
    index of the source has 64 bits, but it is used only if it is not behind the data. -/
def copiedBytes (data : Bytes) (bigIndex size : ℕ) : Bytes :=
  let sizeToBeCopied :=
    if data.length < bigIndex + size then
      if data.length < bigIndex then 0 else data.length - bigIndex
    else size
  (data.drop bigIndex).take sizeToBeCopied ++ List.replicate (size - sizeToBeCopied) 0

/-- `copyDataToMemory`. -/
def copyDataToMemory (ix : Indexing) (data : Bytes) : VmM Unit := do
  let offset ← pop
  let bigIndex ← pop
  let size ← pop
  writeMem (ix.long offset) (copiedBytes data bigIndex.toNat (ix.long size))

end VM

end Ybtc
