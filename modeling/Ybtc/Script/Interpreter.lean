import Ybtc.Core.Stateful
import Ybtc.Script.ScriptNum

/-!
# The script interpreter

`EvalScript` of `script/interpreter.cpp`.  The interpreter is a computation on the state that the
source keeps in local variables and in the caller's stack, and a failing instruction leaves the
stack as it is at that moment.  The caller of a contract output ignores the verdict and reads the
stack, so what a failure leaves behind matters as much as what a success does.

Hash functions, signature checks and `CheckLowS` are parameters.
-/

namespace Ybtc

open Stateful

/-! ## State and exits -/

inductive ScriptError
  | ok
  | unknownError
  | scriptSize
  | pushSize
  | opCount
  | stackSize
  | sigCount
  | pubkeyCount
  | verify
  | equalVerify
  | checkMultiSigVerify
  | checkSigVerify
  | numEqualVerify
  | badOpcode
  | disabledOpcode
  | invalidStackOperation
  | invalidAltstackOperation
  | unbalancedConditional
  | negativeLocktime
  | unsatisfiedLocktime
  | opReturn
  | minimalData
  | sigDer
  | sigHashtype
  | sigHighS
  | sigNullDummy
  | pubkeyType
  | minimalIf
  | sigNullFail
  | discourageUpgradableNops
  | witnessPubkeyType
deriving Repr, DecidableEq

/-- How a run ends before the end of the script: by an error, or at one of the contract opcodes,
    where the source says `return true; // temp`. -/
inductive EvalExit
  | failed (serror : ScriptError)
  | contract (opcode : UInt8)
deriving Repr, DecidableEq

/-- The interpreter's variables.  The stacks and `vfExec` have their top first; `codeHash` is the
    script from `pbegincodehash` on. -/
structure EvalState where
  stack : List Bytes
  altstack : List Bytes
  vfExec : List Bool
  nOpCount : ℕ
  codeHash : Bytes
deriving Repr, DecidableEq

abbrev Eval := EStateM EvalExit EvalState

inductive SigVersion
  | base
  | witnessV0
deriving Repr, DecidableEq

/-- The hash functions of the switch. -/
inductive HashKind
  | ripemd160
  | sha1
  | sha256
  | hash160
  | hash256
deriving Repr, DecidableEq

/-- The size of `vchHash`. -/
def HashKind.size : HashKind → ℕ
  | .ripemd160 | .sha1 | .hash160 => 20
  | .sha256 | .hash256 => 32

/-- What the interpreter gets from the cryptographic library. -/
structure Crypto where
  hash : HashKind → Bytes → Bytes
  hash_length : ∀ k vch, (hash k vch).length = k.size
  checkLowS : Bytes → Bool

/-- `BaseSignatureChecker` and what derives from it. -/
structure SignatureChecker where
  checkSig : Bytes → Bytes → CScript → SigVersion → Bool
  checkLockTime : ℤ → Bool
  checkSequence : ℤ → Bool

/-- `BaseSignatureChecker` itself. -/
def SignatureChecker.none : SignatureChecker :=
  ⟨fun _ _ _ _ => false, fun _ => false, fun _ => false⟩

/-- The arguments of `EvalScript` that stay fixed. -/
structure EvalEnv where
  crypto : Crypto
  checker : SignatureChecker
  flags : ℕ
  sigversion : SigVersion

/-! ## Flags -/

abbrev verifyStrictEnc : ℕ := 1
abbrev verifyDerSig : ℕ := 2
abbrev verifyLowS : ℕ := 3
abbrev verifyNullDummy : ℕ := 4
abbrev verifyMinimalData : ℕ := 6
abbrev verifyDiscourageUpgradableNops : ℕ := 7
abbrev verifyCheckLockTimeVerify : ℕ := 9
abbrev verifyCheckSequenceVerify : ℕ := 10
abbrev verifyMinimalIf : ℕ := 13
abbrev verifyNullFail : ℕ := 14
abbrev verifyWitnessPubkeyType : ℕ := 15

/-- `SCRIPT_EXEC_BYTE_CODE`. -/
def scriptExecByteCode : ℕ := 2 ^ 30

variable (env : EvalEnv)

def EvalEnv.has (bit : ℕ) : Bool := env.flags.testBit bit

def EvalEnv.fRequireMinimal : Bool := env.has verifyMinimalData

/-! ## Instructions -/

inductive UnaryOp
  | add1
  | sub1
  | negate
  | abs
  | not
  | notEqual0
deriving Repr, DecidableEq

inductive BinaryOp
  | add
  | sub
  | boolAnd
  | boolOr
  | numEqual
  | numEqualVerify
  | numNotEqual
  | lessThan
  | greaterThan
  | lessThanOrEqual
  | greaterThanOrEqual
  | min
  | max
deriving Repr, DecidableEq

/-- The cases of the switch. -/
inductive Instr
  | pushValue (n : ℤ)
  | nop
  | checkLockTimeVerify
  | checkSequenceVerify
  | upgradableNop
  | conditional (negated : Bool)
  | otherwise
  | endif
  | verify
  | ret
  | toAltStack
  | fromAltStack
  -- `n` items are taken off; `items` says which of them go back on, the new top first
  | shuffle (n : ℕ) (items : List ℕ)
  | ifDup
  | depth
  | pick (roll : Bool)
  | size
  | equal (verify : Bool)
  | unary (op : UnaryOp)
  | binary (op : BinaryOp)
  | within
  | hash (kind : HashKind)
  | codeSeparator
  | checkSig (verify : Bool)
  | checkMultiSig (verify : Bool)
  | contract (opcode : UInt8)
  | bad
deriving Repr, DecidableEq

/-- The opcodes that have a case of their own. -/
def instrTable : List (UInt8 × Instr) :=
  [(OP_NOP, .nop), (OP_CHECKLOCKTIMEVERIFY, .checkLockTimeVerify),
   (OP_CHECKSEQUENCEVERIFY, .checkSequenceVerify), (OP_IF, .conditional false),
   (OP_NOTIF, .conditional true), (OP_ELSE, .otherwise), (OP_ENDIF, .endif), (OP_VERIFY, .verify),
   (OP_RETURN, .ret), (OP_TOALTSTACK, .toAltStack), (OP_FROMALTSTACK, .fromAltStack),
   (OP_2DROP, .shuffle 2 []), (OP_2DUP, .shuffle 2 [0, 1, 0, 1]),
   (OP_3DUP, .shuffle 3 [0, 1, 2, 0, 1, 2]), (OP_2OVER, .shuffle 4 [2, 3, 0, 1, 2, 3]),
   (OP_2ROT, .shuffle 6 [4, 5, 0, 1, 2, 3]), (OP_2SWAP, .shuffle 4 [2, 3, 0, 1]),
   (OP_IFDUP, .ifDup), (OP_DEPTH, .depth), (OP_DROP, .shuffle 1 []), (OP_DUP, .shuffle 1 [0, 0]),
   (OP_NIP, .shuffle 2 [0]), (OP_OVER, .shuffle 2 [1, 0, 1]), (OP_PICK, .pick false),
   (OP_ROLL, .pick true), (OP_ROT, .shuffle 3 [2, 0, 1]), (OP_SWAP, .shuffle 2 [1, 0]),
   (OP_TUCK, .shuffle 2 [0, 1, 0]), (OP_SIZE, .size), (OP_EQUAL, .equal false),
   (OP_EQUALVERIFY, .equal true), (OP_1ADD, .unary .add1), (OP_1SUB, .unary .sub1),
   (OP_NEGATE, .unary .negate), (OP_ABS, .unary .abs), (OP_NOT, .unary .not),
   (OP_0NOTEQUAL, .unary .notEqual0), (OP_ADD, .binary .add), (OP_SUB, .binary .sub),
   (OP_BOOLAND, .binary .boolAnd), (OP_BOOLOR, .binary .boolOr), (OP_NUMEQUAL, .binary .numEqual),
   (OP_NUMEQUALVERIFY, .binary .numEqualVerify), (OP_NUMNOTEQUAL, .binary .numNotEqual),
   (OP_LESSTHAN, .binary .lessThan), (OP_GREATERTHAN, .binary .greaterThan),
   (OP_LESSTHANOREQUAL, .binary .lessThanOrEqual),
   (OP_GREATERTHANOREQUAL, .binary .greaterThanOrEqual), (OP_MIN, .binary .min),
   (OP_MAX, .binary .max), (OP_WITHIN, .within), (OP_RIPEMD160, .hash .ripemd160),
   (OP_SHA1, .hash .sha1), (OP_SHA256, .hash .sha256), (OP_HASH160, .hash .hash160),
   (OP_HASH256, .hash .hash256), (OP_CODESEPARATOR, .codeSeparator), (OP_CHECKSIG, .checkSig false),
   (OP_CHECKSIGVERIFY, .checkSig true), (OP_CHECKMULTISIG, .checkMultiSig false),
   -- the two `OP_SMARTCODE` cases repeat the body of the multisig cases word for word
   (OP_CHECKMULTISIGVERIFY, .checkMultiSig true), (OP_SMARTCODE, .checkMultiSig false),
   (OP_SMARTCODEVERIFY, .checkMultiSig true), (OP_CREATE, .contract OP_CREATE),
   (OP_CALL, .contract OP_CALL), (OP_OOPS, .contract OP_OOPS)]

/-- The case of the switch an opcode selects. -/
def instrOf (opcode : UInt8) : Instr :=
  if opcode = OP_1NEGATE ∨ (OP_1 ≤ opcode ∧ opcode ≤ OP_16) then
    .pushValue ((opcode.toNat : ℤ) - ((OP_1.toNat : ℤ) - 1))
  else if opcode = OP_NOP1 ∨ (OP_NOP4 ≤ opcode ∧ opcode ≤ OP_NOP10) then .upgradableNop
  else (instrTable.lookup opcode).getD .bad

/-- The disabled opcodes. -/
def disabledOpcodes : List UInt8 :=
  [OP_CAT, OP_SUBSTR, OP_LEFT, OP_RIGHT, OP_INVERT, OP_AND, OP_OR, OP_XOR, OP_2MUL, OP_2DIV, OP_MUL,
   OP_DIV, OP_MOD, OP_LSHIFT, OP_RSHIFT]

/-! ## Stack access -/

/-- `if (c) return set_error(serror, e);` -/
def stopIf (c : Prop) [Decidable c] (e : ScriptError) : Eval Unit := fun s =>
  if c then .error (.failed e) s else .ok () s

lemma stopIf_neg {c : Prop} [Decidable c] {e : ScriptError} {s : EvalState} (h : ¬ c) :
    stopIf c e s = .ok () s := if_neg h

/-- `if (stack.size() < n) return set_error(serror, e);` -/
def needItems (n : ℕ) (e : ScriptError) : Eval Unit := fun s =>
  if s.stack.length < n then .error (.failed e) s else .ok () s

/-- `stacktop(-1-i)`; the exception of `at` ends in the `catch (...)` of `EvalScript`. -/
def stackTop (i : ℕ) : Eval Bytes := fun s =>
  match s.stack[i]? with
  | some vch => .ok vch s
  | none => .error (.failed .unknownError) s

/-- `popstack(stack)`, with the same `catch`. -/
def popStack : Eval Unit := fun s =>
  match s.stack with
  | _ :: stack => .ok () { s with stack := stack }
  | [] => .error (.failed .unknownError) s

/-- `stack.push_back(vch)`. -/
def pushStack (vch : Bytes) : Eval Unit := fun s => .ok () { s with stack := vch :: s.stack }

/-- `CScriptNum(vch, fRequireMinimal, nMaxNumSize)`, with the same `catch`. -/
def readNum (vch : Bytes) (nMaxNumSize : ℕ) : Eval ℤ := fun s =>
  match scriptNum vch env.fRequireMinimal nMaxNumSize with
  | .ok n => .ok n s
  | .error _ => .error (.failed .unknownError) s

/-- `CScriptNum::nDefaultMaxNumSize`. -/
def defaultMaxNumSize : ℕ := 4

/-- `CScriptNum::getint`. -/
def getInt (n : ℤ) : ℤ := max (-2 ^ 31) (min n (2 ^ 31 - 1))

/-- `CastToBool`: false for zero and negative zero. -/
def castToBool : Bytes → Bool
  | [] => false
  | [b] => b != 0 && b != 0x80
  | b :: b' :: vch => b != 0 || castToBool (b' :: vch)

def vchFalse : Bytes := []

def vchTrue : Bytes := [1]

def ofBool (b : Bool) : Bytes := if b then vchTrue else vchFalse

/-- The tail of the `…VERIFY` variants: drop the result if it is true. -/
def verifyResult (verify fSuccess : Bool) (e : ScriptError) : Eval Unit :=
  if verify then do
    stopIf (fSuccess = false) e
    popStack
  else pure ()

/-! ## Encodings -/

/-- `CheckMinimalPush`. -/
def checkMinimalPush (data : Bytes) (opcode : UInt8) : Bool :=
  match data with
  | [] => opcode == OP_0
  | [b] =>
    if 1 ≤ b ∧ b ≤ 16 then opcode == OP_1 + (b - 1)
    else if b = 0x81 then opcode == OP_1NEGATE
    else opcode.toNat == 1
  | _ =>
    if data.length ≤ 75 then opcode.toNat == data.length
    else if data.length ≤ 255 then opcode == OP_PUSHDATA1
    else if data.length ≤ 65535 then opcode == OP_PUSHDATA2
    else true

/-- `IsCompressedOrUncompressedPubKey`. -/
def isCompressedOrUncompressedPubKey (vch : Bytes) : Bool :=
  if vch.length < 33 then false
  else if byteAt vch 0 = 0x04 then vch.length == 65
  else if byteAt vch 0 = 0x02 ∨ byteAt vch 0 = 0x03 then vch.length == 33
  else false

/-- `IsCompressedPubKey`. -/
def isCompressedPubKey (vch : Bytes) : Bool :=
  vch.length == 33 && (byteAt vch 0 == 0x02 || byteAt vch 0 == 0x03)

/-- `IsValidSignatureEncoding`. -/
def isValidSignatureEncoding (sig : Bytes) : Bool :=
  let lenR := (byteAt sig 3).toNat
  let lenS := (byteAt sig (5 + lenR)).toNat
  decide (9 ≤ sig.length ∧ sig.length ≤ 73) && byteAt sig 0 == 0x30
    && (byteAt sig 1).toNat == sig.length - 3 && decide (5 + lenR < sig.length)
    && lenR + lenS + 7 == sig.length && byteAt sig 2 == 0x02 && lenR != 0
    && byteAt sig 4 &&& 0x80 == 0
    && !(decide (1 < lenR) && byteAt sig 4 == 0x00 && byteAt sig 5 &&& 0x80 == 0)
    && byteAt sig (lenR + 4) == 0x02 && lenS != 0 && byteAt sig (lenR + 6) &&& 0x80 == 0
    && !(decide (1 < lenS) && byteAt sig (lenR + 6) == 0x00 && byteAt sig (lenR + 7) &&& 0x80 == 0)

/-- `IsDefinedHashtypeSignature`. -/
def isDefinedHashtypeSignature (sig : Bytes) : Bool :=
  match sig.getLast? with
  | none => false
  | some b => 1 ≤ b &&& 0x7f && b &&& 0x7f ≤ 3

/-- `CheckSignatureEncoding`. -/
def checkSignatureEncoding (sig : Bytes) : Option ScriptError :=
  if sig = [] then none
  else if (env.has verifyDerSig || env.has verifyLowS || env.has verifyStrictEnc)
      && !isValidSignatureEncoding sig then some .sigDer
  else if env.has verifyLowS && !env.crypto.checkLowS sig.dropLast then some .sigHighS
  else if env.has verifyStrictEnc && !isDefinedHashtypeSignature sig then some .sigHashtype
  else none

/-- `CheckPubKeyEncoding`. -/
def checkPubKeyEncoding (vchPubKey : Bytes) : Option ScriptError :=
  if env.has verifyStrictEnc && !isCompressedOrUncompressedPubKey vchPubKey then some .pubkeyType
  else if env.has verifyWitnessPubkeyType && env.sigversion == .witnessV0
      && !isCompressedPubKey vchPubKey then some .witnessPubkeyType
  else none

/-- Both encoding checks of a signature operation. -/
def checkEncodings (sig vchPubKey : Bytes) : Eval Unit := fun s =>
  match (checkSignatureEncoding env sig).or (checkPubKeyEncoding env vchPubKey) with
  | some e => .error (.failed e) s
  | none => .ok () s

/-! ## `FindAndDelete` -/

/-- Drop copies of `b` from the front; `b` is not empty. -/
def dropCopies (b : Bytes) : ℕ → Bytes → ℕ → Bytes × ℕ
  | 0, pc, nFound => (pc, nFound)
  | fuel + 1, pc, nFound =>
    if b.isPrefixOf pc then dropCopies b fuel (pc.drop b.length) (nFound + 1) else (pc, nFound)

/-- The loop of `FindAndDelete`: `chunk` is what lies between `pc2` and `pc`. -/
def findAndDeleteLoop (b : Bytes) : ℕ → Bytes → Bytes → Bytes → ℕ → Bytes × ℕ
  | 0, result, chunk, pc, nFound => (result ++ chunk ++ pc, nFound)
  | fuel + 1, result, chunk, pc, nFound =>
    let (pc', nFound') := dropCopies b pc.length pc nFound
    match getOp pc' with
    | none => (result ++ chunk ++ pc', nFound')
    | some op =>
      findAndDeleteLoop b fuel (result ++ chunk) (pc'.take (pc'.length - op.rest.length))
        op.rest nFound'

/-- `CScript::FindAndDelete`. -/
def findAndDelete (s : CScript) (b : CScript) : CScript :=
  if b = [] then s
  else
    match findAndDeleteLoop b (s.length + 1) [] [] s 0 with
    | (_, 0) => s
    | (result, _ + 1) => result

/-- The script that is signed: from the last code separator, in legacy scripts without the
    signatures. -/
def scriptCodeFor (codeHash : Bytes) (sigs : List Bytes) : CScript :=
  match env.sigversion with
  | .witnessV0 => codeHash
  | .base => sigs.foldl (fun code sig => findAndDelete code (pushBytes [] sig)) codeHash

/-! ## The cases of the switch -/

/-- `MAX_OPS_PER_SCRIPT`. -/
def maxOpsPerScript : ℕ := 201

/-- `MAX_STACK_SIZE`. -/
def maxStackSize : ℕ := 1000

/-- `nOpCount += n` and the limit. -/
def countOps (n : ℕ) : Eval Unit := fun s =>
  if maxOpsPerScript < s.nOpCount + n then
    .error (.failed .opCount) { s with nOpCount := s.nOpCount + n }
  else .ok () { s with nOpCount := s.nOpCount + n }

def UnaryOp.apply (bn : ℤ) : UnaryOp → ℤ
  | .add1 => bn + 1
  | .sub1 => bn - 1
  | .negate => -bn
  | .abs => if bn < 0 then -bn else bn
  | .not => if bn = 0 then 1 else 0
  | .notEqual0 => if bn ≠ 0 then 1 else 0

def BinaryOp.apply (bn1 bn2 : ℤ) : BinaryOp → ℤ
  | .add => bn1 + bn2
  | .sub => bn1 - bn2
  | .boolAnd => if bn1 ≠ 0 ∧ bn2 ≠ 0 then 1 else 0
  | .boolOr => if bn1 ≠ 0 ∨ bn2 ≠ 0 then 1 else 0
  | .numEqual | .numEqualVerify => if bn1 = bn2 then 1 else 0
  | .numNotEqual => if bn1 ≠ bn2 then 1 else 0
  | .lessThan => if bn1 < bn2 then 1 else 0
  | .greaterThan => if bn1 > bn2 then 1 else 0
  | .lessThanOrEqual => if bn1 ≤ bn2 then 1 else 0
  | .greaterThanOrEqual => if bn1 ≥ bn2 then 1 else 0
  | .min => if bn1 < bn2 then bn1 else bn2
  | .max => if bn1 > bn2 then bn1 else bn2

/-- `OP_CHECKLOCKTIMEVERIFY`. -/
def evalCheckLockTime : Eval Unit :=
  if !env.has verifyCheckLockTimeVerify then
    stopIf (env.has verifyDiscourageUpgradableNops = true) .discourageUpgradableNops
  else do
    needItems 1 .invalidStackOperation
    let vch ← stackTop 0
    let nLockTime ← readNum env vch 5
    stopIf (nLockTime < 0) .negativeLocktime
    stopIf (env.checker.checkLockTime nLockTime = false) .unsatisfiedLocktime

/-- `OP_CHECKSEQUENCEVERIFY`. -/
def evalCheckSequence : Eval Unit :=
  if !env.has verifyCheckSequenceVerify then
    stopIf (env.has verifyDiscourageUpgradableNops = true) .discourageUpgradableNops
  else do
    needItems 1 .invalidStackOperation
    let vch ← stackTop 0
    let nSequence ← readNum env vch 5
    stopIf (nSequence < 0) .negativeLocktime
    stopIf (nSequence.toNat.testBit 31 = false ∧ env.checker.checkSequence nSequence = false)
      .unsatisfiedLocktime

/-- The condition an `OP_IF` or `OP_NOTIF` takes off the stack. -/
def popCondition (negated : Bool) : Eval Bool := do
  needItems 1 .unbalancedConditional
  let vch ← stackTop 0
  stopIf (env.sigversion = .witnessV0 ∧ env.has verifyMinimalIf = true ∧
    (1 < vch.length ∨ (vch.length = 1 ∧ vch ≠ [1]))) .minimalIf
  popStack
  pure (castToBool vch != negated)

/-- `vfExec.push_back(fValue)`. -/
def openBranch (fValue : Bool) : Eval Unit := fun s =>
  .ok () { s with vfExec := fValue :: s.vfExec }

/-- `OP_IF` and `OP_NOTIF`. -/
def evalConditional (fExec negated : Bool) : Eval Unit :=
  if fExec then do
    let fValue ← popCondition env negated
    openBranch fValue
  else openBranch false

/-- `OP_ELSE`. -/
def evalElse : Eval Unit := fun s =>
  match s.vfExec with
  | [] => .error (.failed .unbalancedConditional) s
  | fValue :: vfExec => .ok () { s with vfExec := (!fValue) :: vfExec }

/-- `OP_ENDIF`. -/
def evalEndif : Eval Unit := fun s =>
  match s.vfExec with
  | [] => .error (.failed .unbalancedConditional) s
  | _ :: vfExec => .ok () { s with vfExec := vfExec }

/-- `OP_VERIFY`. -/
def evalVerify : Eval Unit := do
  needItems 1 .invalidStackOperation
  let vch ← stackTop 0
  stopIf (castToBool vch = false) .verify
  popStack

/-- `OP_TOALTSTACK`. -/
def evalToAltStack : Eval Unit := fun s =>
  match s.stack with
  | [] => .error (.failed .invalidStackOperation) s
  | vch :: stack => .ok () { s with stack := stack, altstack := vch :: s.altstack }

/-- `OP_FROMALTSTACK`. -/
def evalFromAltStack : Eval Unit := fun s =>
  match s.altstack with
  | [] => .error (.failed .invalidAltstackOperation) s
  | vch :: altstack => .ok () { s with stack := vch :: s.stack, altstack := altstack }

/-- The cases that only move items near the top. -/
def evalShuffle (n : ℕ) (items : List ℕ) : Eval Unit := fun s =>
  if s.stack.length < n then .error (.failed .invalidStackOperation) s
  else .ok () { s with stack := items.filterMap (s.stack[·]?) ++ s.stack.drop n }

/-- `OP_IFDUP`. -/
def evalIfDup : Eval Unit := do
  needItems 1 .invalidStackOperation
  let vch ← stackTop 0
  if castToBool vch then pushStack vch else pure ()

/-- `OP_DEPTH`. -/
def evalDepth : Eval Unit := fun s => pushStack (serialize s.stack.length) s

/-- The item `OP_PICK` copies, `OP_ROLL` moves. -/
def pickItem (roll : Bool) (n : ℤ) : Eval Unit := fun s =>
  if n < 0 ∨ s.stack.length ≤ n then .error (.failed .invalidStackOperation) s
  else
    match s.stack[n.toNat]? with
    | none => .error (.failed .unknownError) s
    | some vch =>
      pushStack vch (if roll then { s with stack := s.stack.eraseIdx n.toNat } else s)

/-- `OP_PICK` and `OP_ROLL`. -/
def evalPick (roll : Bool) : Eval Unit := do
  needItems 2 .invalidStackOperation
  let vch ← stackTop 0
  let n ← readNum env vch defaultMaxNumSize
  popStack
  pickItem roll (getInt n)

/-- `OP_SIZE`. -/
def evalSize : Eval Unit := do
  needItems 1 .invalidStackOperation
  let vch ← stackTop 0
  pushStack (serialize vch.length)

/-- `OP_EQUAL` and `OP_EQUALVERIFY`. -/
def evalEqual (verify : Bool) : Eval Unit := do
  needItems 2 .invalidStackOperation
  let vch1 ← stackTop 1
  let vch2 ← stackTop 0
  popStack
  popStack
  pushStack (ofBool (vch1 == vch2))
  verifyResult verify (vch1 == vch2) .equalVerify

/-- The numeric cases with one operand. -/
def evalUnary (op : UnaryOp) : Eval Unit := do
  needItems 1 .invalidStackOperation
  let vch ← stackTop 0
  let bn ← readNum env vch defaultMaxNumSize
  popStack
  pushStack (serialize (op.apply bn))

/-- The numeric cases with two operands. -/
def evalBinary (op : BinaryOp) : Eval Unit := do
  needItems 2 .invalidStackOperation
  let vch1 ← stackTop 1
  let vch2 ← stackTop 0
  let bn1 ← readNum env vch1 defaultMaxNumSize
  let bn2 ← readNum env vch2 defaultMaxNumSize
  popStack
  popStack
  pushStack (serialize (op.apply bn1 bn2))
  verifyResult (op == .numEqualVerify) (castToBool (serialize (op.apply bn1 bn2))) .numEqualVerify

/-- `OP_WITHIN`. -/
def evalWithin : Eval Unit := do
  needItems 3 .invalidStackOperation
  let vch1 ← stackTop 2
  let vch2 ← stackTop 1
  let vch3 ← stackTop 0
  let bn1 ← readNum env vch1 defaultMaxNumSize
  let bn2 ← readNum env vch2 defaultMaxNumSize
  let bn3 ← readNum env vch3 defaultMaxNumSize
  popStack
  popStack
  popStack
  pushStack (ofBool (decide (bn2 ≤ bn1 ∧ bn1 < bn3)))

/-- The hash cases. -/
def evalHash (kind : HashKind) : Eval Unit := do
  needItems 1 .invalidStackOperation
  let vch ← stackTop 0
  popStack
  pushStack (env.crypto.hash kind vch)

/-- `OP_CODESEPARATOR`. -/
def evalCodeSeparator (rest : Bytes) : Eval Unit := fun s => .ok () { s with codeHash := rest }

/-- The signature check itself. -/
def checkSigWith (sigs : List Bytes) (sig vchPubKey : Bytes) : Eval Bool := fun s =>
  .ok (env.checker.checkSig sig vchPubKey (scriptCodeFor env s.codeHash sigs) env.sigversion) s

/-- `OP_CHECKSIG` and `OP_CHECKSIGVERIFY`. -/
def evalCheckSig (verify : Bool) : Eval Unit := do
  needItems 2 .invalidStackOperation
  let sig ← stackTop 1
  let vchPubKey ← stackTop 0
  checkEncodings env sig vchPubKey
  let fSuccess ← checkSigWith env [sig] sig vchPubKey
  stopIf (fSuccess = false ∧ env.has verifyNullFail = true ∧ sig ≠ []) .sigNullFail
  popStack
  popStack
  pushStack (ofBool fSuccess)
  verifyResult verify fSuccess .checkSigVerify

/-- The items at the positions `start`, …, `start + n - 1` below the top. -/
def stackItems (start n : ℕ) : Eval (List Bytes) := fun s => .ok ((s.stack.drop start).take n) s

/-- The loop that matches signatures with keys, `allSigs` being those taken out of the signed
    script.  There are never more signatures than keys left. -/
def multiSigLoop (env : EvalEnv) (allSigs : List Bytes) : List Bytes → List Bytes → Eval Bool
  | [], _ => pure true
  | _ :: _, [] => pure false
  | sig :: sigs, key :: keys => do
    checkEncodings env sig key
    let fOk ← checkSigWith env allSigs sig key
    if fOk then
      if keys.length < sigs.length then pure false else multiSigLoop env allSigs sigs keys
    else
      if keys.length < sigs.length + 1 then pure false
      else multiSigLoop env allSigs (sig :: sigs) keys
termination_by structural _ keys => keys

/-- The loop that takes the arguments off the stack. -/
def cleanUpArgs (env : EvalEnv) (fSuccess : Bool) : ℕ → ℕ → Eval Unit
  | 0, _ => pure ()
  | i + 1, ikey2 => do
    let vch ← stackTop 0
    stopIf (fSuccess = false ∧ env.has verifyNullFail = true ∧ ikey2 = 0 ∧ vch ≠ []) .sigNullFail
    popStack
    cleanUpArgs env fSuccess i (ikey2 - 1)

/-- `OP_CHECKMULTISIG`, `OP_SMARTCODE` and their `VERIFY` variants. -/
def evalCheckMultiSig (verify : Bool) : Eval Unit := do
  needItems 1 .invalidStackOperation
  let vchKeys ← stackTop 0
  let nKeys ← readNum env vchKeys defaultMaxNumSize
  stopIf (getInt nKeys < 0 ∨ maxPubkeysPerMultisig < getInt nKeys) .pubkeyCount
  countOps (getInt nKeys).toNat
  needItems (2 + (getInt nKeys).toNat) .invalidStackOperation
  let vchSigs ← stackTop (1 + (getInt nKeys).toNat)
  let nSigs ← readNum env vchSigs defaultMaxNumSize
  stopIf (getInt nSigs < 0 ∨ getInt nKeys < getInt nSigs) .sigCount
  needItems (3 + (getInt nKeys).toNat + (getInt nSigs).toNat) .invalidStackOperation
  let keys ← stackItems 1 (getInt nKeys).toNat
  let sigs ← stackItems (2 + (getInt nKeys).toNat) (getInt nSigs).toNat
  let fSuccess ← multiSigLoop env sigs sigs keys
  cleanUpArgs env fSuccess (2 + (getInt nKeys).toNat + (getInt nSigs).toNat)
    ((getInt nKeys).toNat + 2)
  needItems 1 .invalidStackOperation
  let dummy ← stackTop 0
  stopIf (env.has verifyNullDummy = true ∧ dummy ≠ []) .sigNullDummy
  popStack
  pushStack (ofBool fSuccess)
  verifyResult verify fSuccess .checkMultiSigVerify

/-- `OP_CREATE`, `OP_CALL` and `OP_OOPS`: push the rest of the script, opcode included, and
    `return true`. -/
def evalContract (opcode : UInt8) (rest : Bytes) : Eval Unit := fun s =>
  .error (.contract opcode) { s with stack := (opcode :: rest) :: s.stack }

/-- The switch. -/
def evalInstr (fExec : Bool) (rest : Bytes) : Instr → Eval Unit
  | .pushValue n => pushStack (serialize n)
  | .nop => pure ()
  | .checkLockTimeVerify => evalCheckLockTime env
  | .checkSequenceVerify => evalCheckSequence env
  | .upgradableNop =>
    stopIf (env.has verifyDiscourageUpgradableNops = true) .discourageUpgradableNops
  | .conditional negated => evalConditional env fExec negated
  | .otherwise => evalElse
  | .endif => evalEndif
  | .verify => evalVerify
  | .ret => stopIf True .opReturn
  | .toAltStack => evalToAltStack
  | .fromAltStack => evalFromAltStack
  | .shuffle n items => evalShuffle n items
  | .ifDup => evalIfDup
  | .depth => evalDepth
  | .pick roll => evalPick env roll
  | .size => evalSize
  | .equal verify => evalEqual verify
  | .unary op => evalUnary env op
  | .binary op => evalBinary env op
  | .within => evalWithin env
  | .hash kind => evalHash env kind
  | .codeSeparator => evalCodeSeparator rest
  | .checkSig verify => evalCheckSig env verify
  | .checkMultiSig verify => evalCheckMultiSig env verify
  | .contract opcode => evalContract opcode rest
  | .bad => stopIf True .badOpcode

/-! ## The loop -/

/-- `if (opcode > OP_16 && ++nOpCount > MAX_OPS_PER_SCRIPT)`. -/
def countOp (opcode : UInt8) : Eval Unit := if opcode ≤ OP_16 then pure () else countOps 1

/-- A push opcode in an executed branch. -/
def evalPush (op : ScriptOp) : Eval Unit := do
  stopIf (env.fRequireMinimal = true ∧ checkMinimalPush op.vch op.opcode = false) .minimalData
  pushStack op.vch

/-- The choice between a push, the switch and nothing. -/
def dispatch (op : ScriptOp) (fExec : Bool) : Eval Unit :=
  if fExec = true ∧ op.opcode ≤ OP_PUSHDATA4 then evalPush env op
  else if fExec = true ∨ (OP_IF ≤ op.opcode ∧ op.opcode ≤ OP_ENDIF) then
    evalInstr env fExec op.rest (instrOf op.opcode)
  else pure ()

/-- `!count(vfExec.begin(), vfExec.end(), false)`. -/
def executing : Eval Bool := fun s => .ok (s.vfExec.all id) s

/-- The size limit at the end of each turn. -/
def checkStackSize : Eval Unit := fun s =>
  if maxStackSize < s.stack.length + s.altstack.length then .error (.failed .stackSize) s
  else .ok () s

/-- One turn of the loop, the instruction read. -/
def evalStep (op : ScriptOp) : Eval Unit := do
  let fExec ← executing
  stopIf (maxScriptElementSize < op.vch.length) .pushSize
  countOp op.opcode
  stopIf (op.opcode ∈ disabledOpcodes) .disabledOpcode
  dispatch env op fExec
  checkStackSize

/-- The instructions of the script one after the other; `atEnd` tells whether the last of them ends
    the script or is followed by one `GetOp` cannot read. -/
def evalLoop (env : EvalEnv) (atEnd : Bool) : List ScriptOp → Eval Unit
  | [] => stopIf (atEnd = false) .badOpcode
  | op :: ops => do
    evalStep env op
    evalLoop env atEnd ops

/-- The check behind the loop. -/
def checkBalanced : Eval Unit := fun s =>
  if s.vfExec = [] then .ok () s else .error (.failed .unbalancedConditional) s

/-- The body of `EvalScript`. -/
def evalBody (script : CScript) : Eval Unit := do
  stopIf (maxScriptSize < script.length) .scriptSize
  evalLoop env (scan script).2 (scan script).1
  checkBalanced

/-- **`EvalScript`**: how the run ends, and the variables at that moment; the caller sees the
    stack. -/
def evalScript (stack : List Bytes) (script : CScript) : EStateM.Result EvalExit EvalState Unit :=
  evalBody env script ⟨stack, [], [], 0, script⟩

end Ybtc
