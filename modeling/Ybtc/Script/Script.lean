import Ybtc.Core.Codec

/-!
# Scripts as byte strings

The parsing half of `script/script.h` and `script/script.cpp`: a `CScript` is a byte string, and
everything the rest of the node asks of it without running it goes through one function, `getOp`,
which splits the next instruction off the front of the remaining bytes.

The scans are fuelled by the length of the script.  `getOp_length` says that a successful `getOp`
consumes at least one byte, so that fuel never runs out before the bytes do; `scan_eq` packages
this as the fuel-free recursion equation that all later proofs use.
-/

namespace Ybtc

open List

/-- `std::vector<unsigned char>`. -/
abbrev Bytes := List UInt8

/-- A serialized script. -/
abbrev CScript := Bytes

/-! ## Opcodes -/

abbrev OP_0 : UInt8 := 0x00
abbrev OP_PUSHDATA1 : UInt8 := 0x4c
abbrev OP_PUSHDATA2 : UInt8 := 0x4d
abbrev OP_PUSHDATA4 : UInt8 := 0x4e
abbrev OP_1NEGATE : UInt8 := 0x4f
abbrev OP_1 : UInt8 := 0x51
abbrev OP_16 : UInt8 := 0x60
abbrev OP_NOP : UInt8 := 0x61
abbrev OP_IF : UInt8 := 0x63
abbrev OP_NOTIF : UInt8 := 0x64
abbrev OP_ELSE : UInt8 := 0x67
abbrev OP_ENDIF : UInt8 := 0x68
abbrev OP_VERIFY : UInt8 := 0x69
abbrev OP_RETURN : UInt8 := 0x6a
abbrev OP_TOALTSTACK : UInt8 := 0x6b
abbrev OP_FROMALTSTACK : UInt8 := 0x6c
abbrev OP_2DROP : UInt8 := 0x6d
abbrev OP_2DUP : UInt8 := 0x6e
abbrev OP_3DUP : UInt8 := 0x6f
abbrev OP_2OVER : UInt8 := 0x70
abbrev OP_2ROT : UInt8 := 0x71
abbrev OP_2SWAP : UInt8 := 0x72
abbrev OP_IFDUP : UInt8 := 0x73
abbrev OP_DEPTH : UInt8 := 0x74
abbrev OP_DROP : UInt8 := 0x75
abbrev OP_DUP : UInt8 := 0x76
abbrev OP_NIP : UInt8 := 0x77
abbrev OP_OVER : UInt8 := 0x78
abbrev OP_PICK : UInt8 := 0x79
abbrev OP_ROLL : UInt8 := 0x7a
abbrev OP_ROT : UInt8 := 0x7b
abbrev OP_SWAP : UInt8 := 0x7c
abbrev OP_TUCK : UInt8 := 0x7d
abbrev OP_CAT : UInt8 := 0x7e
abbrev OP_SUBSTR : UInt8 := 0x7f
abbrev OP_LEFT : UInt8 := 0x80
abbrev OP_RIGHT : UInt8 := 0x81
abbrev OP_SIZE : UInt8 := 0x82
abbrev OP_INVERT : UInt8 := 0x83
abbrev OP_AND : UInt8 := 0x84
abbrev OP_OR : UInt8 := 0x85
abbrev OP_XOR : UInt8 := 0x86
abbrev OP_EQUAL : UInt8 := 0x87
abbrev OP_EQUALVERIFY : UInt8 := 0x88
abbrev OP_1ADD : UInt8 := 0x8b
abbrev OP_1SUB : UInt8 := 0x8c
abbrev OP_2MUL : UInt8 := 0x8d
abbrev OP_2DIV : UInt8 := 0x8e
abbrev OP_NEGATE : UInt8 := 0x8f
abbrev OP_ABS : UInt8 := 0x90
abbrev OP_NOT : UInt8 := 0x91
abbrev OP_0NOTEQUAL : UInt8 := 0x92
abbrev OP_ADD : UInt8 := 0x93
abbrev OP_SUB : UInt8 := 0x94
abbrev OP_MUL : UInt8 := 0x95
abbrev OP_DIV : UInt8 := 0x96
abbrev OP_MOD : UInt8 := 0x97
abbrev OP_LSHIFT : UInt8 := 0x98
abbrev OP_RSHIFT : UInt8 := 0x99
abbrev OP_BOOLAND : UInt8 := 0x9a
abbrev OP_BOOLOR : UInt8 := 0x9b
abbrev OP_NUMEQUAL : UInt8 := 0x9c
abbrev OP_NUMEQUALVERIFY : UInt8 := 0x9d
abbrev OP_NUMNOTEQUAL : UInt8 := 0x9e
abbrev OP_LESSTHAN : UInt8 := 0x9f
abbrev OP_GREATERTHAN : UInt8 := 0xa0
abbrev OP_LESSTHANOREQUAL : UInt8 := 0xa1
abbrev OP_GREATERTHANOREQUAL : UInt8 := 0xa2
abbrev OP_MIN : UInt8 := 0xa3
abbrev OP_MAX : UInt8 := 0xa4
abbrev OP_WITHIN : UInt8 := 0xa5
abbrev OP_RIPEMD160 : UInt8 := 0xa6
abbrev OP_SHA1 : UInt8 := 0xa7
abbrev OP_SHA256 : UInt8 := 0xa8
abbrev OP_HASH160 : UInt8 := 0xa9
abbrev OP_HASH256 : UInt8 := 0xaa
abbrev OP_CODESEPARATOR : UInt8 := 0xab
abbrev OP_CHECKSIG : UInt8 := 0xac
abbrev OP_CHECKSIGVERIFY : UInt8 := 0xad
abbrev OP_CHECKMULTISIG : UInt8 := 0xae
abbrev OP_CHECKMULTISIGVERIFY : UInt8 := 0xaf
abbrev OP_NOP1 : UInt8 := 0xb0
abbrev OP_CHECKLOCKTIMEVERIFY : UInt8 := 0xb1
abbrev OP_CHECKSEQUENCEVERIFY : UInt8 := 0xb2
abbrev OP_NOP4 : UInt8 := 0xb3
abbrev OP_NOP10 : UInt8 := 0xb9
abbrev OP_SMARTCODE : UInt8 := 0xba
abbrev OP_SMARTCODEVERIFY : UInt8 := 0xbb
abbrev OP_CREATE : UInt8 := 0xc1
abbrev OP_CALL : UInt8 := 0xc2
abbrev OP_OOPS : UInt8 := 0xc5
abbrev OP_INVALIDOPCODE : UInt8 := 0xff

/-- Maximum number of bytes pushable to the stack. -/
def maxScriptElementSize : ℕ := 128000

/-- Maximum script length in bytes. -/
def maxScriptSize : ℕ := 129000

/-- Maximum number of public keys per multisig. -/
def maxPubkeysPerMultisig : ℕ := 20

/-! ## One instruction -/

/-- What `GetOp2` reads: the opcode, its immediate operand and the bytes behind both. -/
structure ScriptOp where
  opcode : UInt8
  vch : Bytes
  rest : Bytes
deriving Repr, DecidableEq

lemma toNat_ofNat_lt {n : ℕ} (h : n < 256) : (UInt8.ofNat n).toNat = n := by
  rw [UInt8.toNat_ofNat', Nat.mod_eq_of_lt h]

-- `ReadLE16`, `ReadLE32`, `WriteLE16` and `WriteLE32`.
export Codec (readLE writeLE readLE_writeLE writeLE_length writeLE_readLE readLE_lt readLE_append)

/-- The operand of a push opcode: `lenBytes` length bytes (for `OP_PUSHDATA1/2/4`) or the size
    given by the opcode itself, followed by that many bytes. -/
def getPushOperand (opcode : UInt8) (pc : Bytes) (lenBytes : ℕ) (nSize : ℕ) : Option ScriptOp :=
  if pc.length < lenBytes then none
  else if (pc.drop lenBytes).length < nSize then none
  else some ⟨opcode, (pc.drop lenBytes).take nSize, (pc.drop lenBytes).drop nSize⟩

/-- `CScript::GetOp2` on the bytes from `pc` to the end.  `none` is the source's `return false`. -/
def getOp : Bytes → Option ScriptOp
  | [] => none
  | opcode :: pc =>
    if opcode < OP_PUSHDATA1 then getPushOperand opcode pc 0 opcode.toNat
    else if opcode = OP_PUSHDATA1 then getPushOperand opcode pc 1 (readLE (pc.take 1))
    else if opcode = OP_PUSHDATA2 then getPushOperand opcode pc 2 (readLE (pc.take 2))
    else if opcode = OP_PUSHDATA4 then getPushOperand opcode pc 4 (readLE (pc.take 4))
    else some ⟨opcode, [], pc⟩

@[simp] lemma getOp_nil : getOp [] = none := rfl

lemma getPushOperand_length {opcode : UInt8} {pc : Bytes} {l n : ℕ} {op : ScriptOp}
    (h : getPushOperand opcode pc l n = some op) : op.rest.length ≤ pc.length := by
  unfold getPushOperand at h
  split_ifs at h
  injection h with h
  subst h
  simp only [length_drop]
  omega

/-- **Every instruction has a byte of its own**: a successful `getOp` leaves a strictly shorter
    tail. -/
lemma getOp_length {pc : Bytes} {op : ScriptOp} (h : getOp pc = some op) :
    op.rest.length < pc.length := by
  cases pc with
  | nil => simp at h
  | cons opcode pc =>
    rw [length_cons, Nat.lt_succ_iff]
    simp only [getOp] at h
    split_ifs at h
    · exact getPushOperand_length h
    · exact getPushOperand_length h
    · exact getPushOperand_length h
    · exact getPushOperand_length h
    · injection h with h; subst h; exact le_refl _

/-! ## Scanning a script

`Find`, `GetSigOpCount`, `IsPushOnly` and `HasValidOps` all walk the instructions of a script from
the front until `GetOp` fails.  They share one walk. -/

/-- The instructions of a script up to the first one `GetOp` cannot read, and whether the end of
    the script was reached. -/
def scanFuel : ℕ → Bytes → List ScriptOp × Bool
  | 0, pc => ([], pc.isEmpty)
  | fuel + 1, pc =>
    match getOp pc with
    | none => ([], pc.isEmpty)
    | some op =>
      let (ops, atEnd) := scanFuel fuel op.rest
      (op :: ops, atEnd)

variable (s : CScript)

/-- The walk over the whole script; its length is enough fuel. -/
def scan : List ScriptOp × Bool := scanFuel s.length s

/-- More fuel than bytes changes nothing. -/
lemma scanFuel_eq_scan : ∀ (fuel : ℕ) (s : Bytes), s.length ≤ fuel → scanFuel fuel s = scan s := by
  have key : ∀ (n m : ℕ) (s : Bytes), s.length ≤ n → s.length ≤ m →
      scanFuel n s = scanFuel m s := by
    intro n
    induction n with
    | zero =>
      intro m s hn hm
      have hs : s = [] := length_eq_zero_iff.mp (Nat.le_zero.mp hn)
      subst hs
      cases m <;> rfl
    | succ n ih =>
      intro m s hn hm
      cases m with
      | zero =>
        have hs : s = [] := length_eq_zero_iff.mp (Nat.le_zero.mp hm)
        subst hs
        rfl
      | succ m =>
        simp only [scanFuel]
        cases hop : getOp s with
        | none => rfl
        | some op =>
          have hlt := getOp_length hop
          simp only [ih m op.rest (by omega) (by omega)]
  intro fuel s h
  exact key fuel s.length s h (le_refl _)

/-- **The walk, without fuel.** -/
lemma scan_eq : scan s = match getOp s with
      | none => ([], s.isEmpty)
      | some op => (op :: (scan op.rest).1, (scan op.rest).2) := by
  cases s with
  | nil => rfl
  | cons b s =>
    simp only [scan, length_cons, scanFuel]
    cases hop : getOp (b :: s) with
    | none => rfl
    | some op =>
      have hlt := getOp_length hop
      rw [length_cons] at hlt
      simp only [scanFuel_eq_scan s.length op.rest (by omega)]
      rfl

/-- `CScript::Find`: how often an opcode occurs as an instruction of the script. -/
def find (op : UInt8) : ℕ := ((scan s).1.filter fun o => o.opcode == op).length

/-- `CScript::HasOpCreate`. -/
def hasOpCreate : Bool := find s OP_CREATE == 1

/-- `CScript::HasOpCall`. -/
def hasOpCall : Bool := find s OP_CALL == 1

/-- `CScript::HasOpOops`. -/
def hasOpOops : Bool := find s OP_OOPS == 1

/-- `CScript::IsUnspendable`. -/
def isUnspendable : Bool :=
  (match s with
    | b :: _ => b == OP_RETURN
    | [] => false) || decide (maxScriptSize < s.length)

/-! ## Signature operations -/

/-- `CScript::DecodeOP_N`; the source asserts that the opcode is `OP_0` or between `OP_1` and
    `OP_16`. -/
def decodeOpN (opcode : UInt8) : ℕ := if opcode = OP_0 then 0 else opcode.toNat - (OP_1.toNat - 1)

/-- The signature operations of one instruction, given the opcode before it. -/
def sigOpsOf (fAccurate : Bool) (lastOpcode opcode : UInt8) : ℕ :=
  if opcode = OP_CHECKSIG ∨ opcode = OP_CHECKSIGVERIFY then 1
  else if opcode = OP_CHECKMULTISIG ∨ opcode = OP_CHECKMULTISIGVERIFY then
    if fAccurate ∧ OP_1 ≤ lastOpcode ∧ lastOpcode ≤ OP_16 then decodeOpN lastOpcode
    else maxPubkeysPerMultisig
  else 0

/-- The loop of `CScript::GetSigOpCount(bool)`. -/
def sigOpLoop (fAccurate : Bool) : UInt8 → List ScriptOp → ℕ
  | _, [] => 0
  | lastOpcode, op :: ops =>
    sigOpsOf fAccurate lastOpcode op.opcode + sigOpLoop fAccurate op.opcode ops

/-- `CScript::GetSigOpCount(bool fAccurate)`. -/
def getSigOpCount (fAccurate : Bool) : ℕ :=
  sigOpLoop fAccurate OP_INVALIDOPCODE (scan s).1

/-- The byte at a position, with `OP_INVALIDOPCODE` past the end.  Every caller tests the size of
    the script first. -/
def byteAt (i : ℕ) : UInt8 := s.getD i OP_INVALIDOPCODE

/-- `CScript::IsPayToScriptHash`. -/
def isPayToScriptHash : Bool :=
  s.length == 23 && byteAt s 0 == OP_HASH160 && byteAt s 1 == 0x14 && byteAt s 22 == OP_EQUAL

/-- `CScript::IsPayToPubkey`. -/
def isPayToPubkey : Bool :=
  (s.length == 35 && byteAt s 0 == 33 && byteAt s 34 == OP_CHECKSIG
      && (byteAt s 1 == 0x02 || byteAt s 1 == 0x03))
    || (s.length == 67 && byteAt s 0 == 65 && byteAt s 66 == OP_CHECKSIG && byteAt s 1 == 0x04)

/-- `CScript::IsPayToPubkeyHash`. -/
def isPayToPubkeyHash : Bool :=
  s.length == 25 && byteAt s 0 == OP_DUP && byteAt s 1 == OP_HASH160 && byteAt s 2 == 0x14
    && byteAt s 23 == OP_EQUALVERIFY && byteAt s 24 == OP_CHECKSIG

/-- `CScript::IsWitnessProgram`: the version and the program, when the script is one. -/
def isWitnessProgram : Option (ℕ × Bytes) :=
  if s.length < 4 ∨ 42 < s.length then none
  else if byteAt s 0 ≠ OP_0 ∧ (byteAt s 0 < OP_1 ∨ OP_16 < byteAt s 0) then none
  else if (byteAt s 1).toNat + 2 = s.length then some (decodeOpN (byteAt s 0), s.drop 2)
  else none

/-- `CScript::IsPushOnly`. -/
def isPushOnly : Bool := (scan s).2 && (scan s).1.all fun op => op.opcode ≤ OP_16

/-- `CScript::GetSigOpCount(const CScript& scriptSig)`: for a script-hash output, the operations of
    the last item the input script pushes. -/
def getSigOpCountP2SH (s scriptSig : CScript) : ℕ :=
  if !isPayToScriptHash s then getSigOpCount s true
  else if !isPushOnly scriptSig then 0
  else getSigOpCount (((scan scriptSig).1.getLast?.map ScriptOp.vch).getD []) true

end Ybtc
