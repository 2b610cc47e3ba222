import Mathlib
import Ybtc.Contract.Engine

/-!
# Instructions of the virtual machine

* **`Instruction`** — the instruction set, with `Instruction.ofByte` for the bytes of a program.
* **`instructionInfo`** — how many stack items an instruction takes and leaves, and its gas tier.
  Bytes without an entry in the table of the source have tier `invalid`.
* **`tierStepGas`** — the gas of a tier; the array of the source has no element for `invalid`.
* The constants of `EVMSchedule`, with the values of `DefaultSchedule`.
-/

namespace Ybtc

/-! ## The schedule -/

namespace Schedule

def expGas : ℕ := 10
def expByteGas : ℕ := 10
def sha3Gas : ℕ := 30
def sha3WordGas : ℕ := 6
def sloadGas : ℕ := 50
def sstoreSetGas : ℕ := 20000
def sstoreResetGas : ℕ := 5000
def sstoreRefundGas : ℕ := 15000
def jumpdestGas : ℕ := 1
def logGas : ℕ := 375
def logDataGas : ℕ := 8
def logTopicGas : ℕ := 375
def createGas : ℕ := 32000
def callGas : ℕ := 40
def callStipend : ℕ := 2300
def callValueTransferGas : ℕ := 9000
def memoryGas : ℕ := 3
def quadCoeffDiv : ℕ := 512
def copyGas : ℕ := 3
def extcodesizeGas : ℕ := 20
def extcodecopyGas : ℕ := 20
def balanceGas : ℕ := 20
def suicideGas : ℕ := 0

end Schedule

/-- `Tier`. -/
inductive Tier
  | zero
  | base
  | veryLow
  | low
  | mid
  | high
  | ext
  | special
  | invalid
deriving Repr, DecidableEq

/-- `tierStepGas[tier]`; the array has eight elements and `invalid` is the ninth tier. -/
def tierStepGas : Tier → Option ℕ
  | .zero => some 0
  | .base => some 2
  | .veryLow => some 3
  | .low => some 5
  | .mid => some 8
  | .high => some 10
  | .ext => some 20
  | .special => some 0
  | .invalid => none

/-! ## The instruction set -/

/-- `Instruction`.  `push n`, `dup n`, `swap n` and `log n` stand for the families; `unknown` is a
    byte that is no instruction. -/
inductive Instruction
  | stop | add | mul | sub | div | sdiv | mod | smod | addmod | mulmod | exp | signextend
  | lt | gt | slt | sgt | eq | iszero | and | or | xor | not | byte
  | sha3
  | address | balance | origin | caller | callvalue | calldataload | calldatasize | calldatacopy
  | codesize | codecopy | gasprice | extcodesize | extcodecopy
  | blockhash | coinbase | timestamp | number | difficulty | gaslimit
  | jumpto | jumpif | jumpv | jumpsub | jumpsubv | returnsub
  | pop | mload | mstore | mstore8 | sload | sstore | jump | jumpi | pc | msize | gas | jumpdest
  | beginsub | begindata
  | push (n : ℕ)
  | dup (n : ℕ)
  | swap (n : ℕ)
  | log (n : ℕ)
  | pushc | jumpc | jumpci | bad
  | create | call | callcode | return | delegatecall | staticcall | revert | suicide
  | unknown
deriving Repr, DecidableEq

/-- The instructions that are not part of a family. -/
def singleInstruction : ℕ → Instruction
  | 0x00 => .stop
  | 0x01 => .add
  | 0x02 => .mul
  | 0x03 => .sub
  | 0x04 => .div
  | 0x05 => .sdiv
  | 0x06 => .mod
  | 0x07 => .smod
  | 0x08 => .addmod
  | 0x09 => .mulmod
  | 0x0a => .exp
  | 0x0b => .signextend
  | 0x10 => .lt
  | 0x11 => .gt
  | 0x12 => .slt
  | 0x13 => .sgt
  | 0x14 => .eq
  | 0x15 => .iszero
  | 0x16 => .and
  | 0x17 => .or
  | 0x18 => .xor
  | 0x19 => .not
  | 0x1a => .byte
  | 0x20 => .sha3
  | 0x30 => .address
  | 0x31 => .balance
  | 0x32 => .origin
  | 0x33 => .caller
  | 0x34 => .callvalue
  | 0x35 => .calldataload
  | 0x36 => .calldatasize
  | 0x37 => .calldatacopy
  | 0x38 => .codesize
  | 0x39 => .codecopy
  | 0x3a => .gasprice
  | 0x3b => .extcodesize
  | 0x3c => .extcodecopy
  | 0x40 => .blockhash
  | 0x41 => .coinbase
  | 0x42 => .timestamp
  | 0x43 => .number
  | 0x44 => .difficulty
  | 0x45 => .gaslimit
  | 0x4a => .jumpto
  | 0x4b => .jumpif
  | 0x4c => .jumpv
  | 0x4d => .jumpsub
  | 0x4e => .jumpsubv
  | 0x4f => .returnsub
  | 0x50 => .pop
  | 0x51 => .mload
  | 0x52 => .mstore
  | 0x53 => .mstore8
  | 0x54 => .sload
  | 0x55 => .sstore
  | 0x56 => .jump
  | 0x57 => .jumpi
  | 0x58 => .pc
  | 0x59 => .msize
  | 0x5a => .gas
  | 0x5b => .jumpdest
  | 0x5c => .beginsub
  | 0x5d => .begindata
  | 0xac => .pushc
  | 0xad => .jumpc
  | 0xae => .jumpci
  | 0xaf => .bad
  | 0xf0 => .create
  | 0xf1 => .call
  | 0xf2 => .callcode
  | 0xf3 => .return
  | 0xf4 => .delegatecall
  | 0xfa => .staticcall
  | 0xfd => .revert
  | 0xff => .suicide
  | _ => .unknown

/-- `Instruction(byte)`. -/
def Instruction.ofByte (b : UInt8) : Instruction :=
  if 0x60 ≤ b.toNat ∧ b.toNat ≤ 0x7f then .push (b.toNat - 0x5f)
  else if 0x80 ≤ b.toNat ∧ b.toNat ≤ 0x8f then .dup (b.toNat - 0x7f)
  else if 0x90 ≤ b.toNat ∧ b.toNat ≤ 0x9f then .swap (b.toNat - 0x8f)
  else if 0xa0 ≤ b.toNat ∧ b.toNat ≤ 0xa4 then .log (b.toNat - 0xa0)
  else singleInstruction b.toNat

/-- The bytes that the optimiser writes. -/
def pushcByte : UInt8 := 0xac
def jumpcByte : UInt8 := 0xad
def jumpciByte : UInt8 := 0xae
def badByte : UInt8 := 0xaf

/-- `InstructionMetric`. -/
structure InstructionMetric where
  gasPriceTier : Tier
  args : ℕ
  ret : ℕ
deriving Repr, DecidableEq

/-- `instructionInfo`, as far as the interpreter uses it.  The table has no entry for `BAD`, whose
    line in the source repeats the key `STOP`, nor for `STATICCALL` and `REVERT`. -/
def instructionInfo : Instruction → InstructionMetric
  | .stop => ⟨.zero, 0, 0⟩
  | .add | .sub => ⟨.veryLow, 2, 1⟩
  | .mul | .div | .sdiv | .mod | .smod | .signextend => ⟨.low, 2, 1⟩
  | .exp => ⟨.special, 2, 1⟩
  | .not | .iszero => ⟨.veryLow, 1, 1⟩
  | .lt | .gt | .slt | .sgt | .eq | .and | .or | .xor | .byte => ⟨.veryLow, 2, 1⟩
  | .addmod | .mulmod => ⟨.mid, 3, 1⟩
  | .sha3 => ⟨.special, 2, 1⟩
  | .address | .origin | .caller | .callvalue | .calldatasize | .codesize | .gasprice =>
    ⟨.base, 0, 1⟩
  | .balance | .extcodesize => ⟨.special, 1, 1⟩
  | .calldataload => ⟨.veryLow, 1, 1⟩
  | .calldatacopy | .codecopy => ⟨.veryLow, 3, 0⟩
  | .extcodecopy => ⟨.special, 4, 0⟩
  | .blockhash => ⟨.ext, 1, 1⟩
  | .coinbase | .timestamp | .number | .difficulty | .gaslimit => ⟨.base, 0, 1⟩
  | .jumpto => ⟨.veryLow, 1, 0⟩
  | .jumpif => ⟨.low, 2, 0⟩
  | .jumpv => ⟨.mid, 1, 0⟩
  | .jumpsub => ⟨.low, 1, 0⟩
  | .jumpsubv => ⟨.mid, 1, 0⟩
  | .returnsub => ⟨.mid, 1, 0⟩
  | .pop => ⟨.base, 1, 0⟩
  | .mload => ⟨.veryLow, 1, 1⟩
  | .mstore | .mstore8 => ⟨.veryLow, 2, 0⟩
  | .sload => ⟨.special, 1, 1⟩
  | .sstore => ⟨.special, 2, 0⟩
  | .jump => ⟨.mid, 1, 0⟩
  | .jumpi => ⟨.high, 2, 0⟩
  | .pc | .msize | .gas => ⟨.base, 0, 1⟩
  | .jumpdest | .beginsub | .begindata => ⟨.special, 0, 0⟩
  | .push _ => ⟨.veryLow, 0, 1⟩
  | .dup n => ⟨.veryLow, n, n + 1⟩
  | .swap n => ⟨.veryLow, n + 1, n + 1⟩
  | .log n => ⟨.special, n + 2, 0⟩
  | .pushc => ⟨.veryLow, 0, 1⟩
  | .jumpc => ⟨.mid, 1, 0⟩
  | .jumpci => ⟨.high, 1, 0⟩
  | .create => ⟨.special, 3, 1⟩
  | .call | .callcode => ⟨.special, 7, 1⟩
  | .return => ⟨.zero, 2, 0⟩
  | .delegatecall => ⟨.special, 6, 1⟩
  | .suicide => ⟨.special, 1, 0⟩
  | .bad | .staticcall | .revert | .unknown => ⟨.invalid, 0, 0⟩

end Ybtc
