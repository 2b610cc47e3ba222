import Ybtc.Evm.Instruction

/-!
# The code optimiser

Before a program runs, `VM::optimize` copies it, with zeros behind it, notes its jump destinations
and rewrites it: a constant of more than one byte goes to a pool and is pushed from there (`PUSHC`),
and a jump to a constant that is a destination is not checked again (`JUMPC`, `JUMPCI`).
-/

namespace Ybtc

/-- `copyCode(33)`. -/
def copyCode (code : Bytes) : Bytes := code ++ List.replicate 33 0

/-- The number of bytes that a push instruction takes from the program; other instructions take
    none. -/
def pushWidth (op : UInt8) : ℕ := if 0x60 ≤ op.toNat ∧ op.toNat ≤ 0x7f then op.toNat - 0x5f else 0

/-- Instructions of the optimiser in the program itself are made invalid. -/
def banSynthetic (pc : ℕ) (op : UInt8) (code : Bytes) : Bytes :=
  if op = pushcByte ∨ op = jumpcByte ∨ op = jumpciByte then code.set pc badByte else code

/-- The first loop of `optimize`. -/
def scanJumpDests (nBytes : ℕ) : ℕ → ℕ → Bytes → List ℕ → Bytes × List ℕ
  | 0, _, code, dests => (code, dests)
  | turns + 1, pc, code, dests =>
    if pc < nBytes then
      scanJumpDests nBytes turns (pc + 1 + pushWidth (code.getD pc 0))
        (banSynthetic pc (code.getD pc 0) code)
        (if code.getD pc 0 = 0x5b then dests ++ [pc] else dests)
    else (code, dests)

/-- `verifyJumpDest`: the destinations are in increasing order, and the binary search finds those
    that are there. -/
def isJumpDest (dests : List ℕ) (dest : U256) : Bool :=
  decide (dest.toNat ≤ 0x7fffffffffffffff) && dests.contains dest.toNat

/-! ## Constants -/

/-- The program and the pool of constants while they are worked on. -/
structure Optimized where
  code : Bytes
  pool : ℕ → Option U256

/-- The number out of the bytes of a push instruction. -/
def wordOf (b : Bytes) : U256 := b.foldl (fun val d => val <<< 8 ||| BitVec.ofNat 256 d.toNat) 0

/-- The value of a push instruction. -/
def pushValue (code : Bytes) (pc n : ℕ) : U256 := wordOf ((code.drop (pc + 1)).take n)

/-- `hashByte` for the bytes of a constant, of which the first one is left out. -/
def poolHash (code : Bytes) (pc n : ℕ) : ℕ :=
  ((code.drop (pc + 2)).take (n - 1)).foldl
    (fun h b => (h ^^^ b.toNat) * 16777619 % 2 ^ 32) 2166136261

/-- `getHash`. -/
def foldHash (h : ℕ) : ℕ := (h >>> 8 ^^^ h) &&& 0xff

/-- A constant goes to the pool, unless its place is taken by another one. -/
def poolConstant (pc n : ℕ) (val : U256) (o : Optimized) : Optimized :=
  let hash := foldHash (poolHash o.code pc n)
  if n ≤ 1 ∨ ((o.pool hash).any (· != val)) then o
  else
    { code := ((o.code.set pc pushcByte).set (pc + 1) (UInt8.ofNat hash)).set (pc + 2)
        (UInt8.ofNat (n - 1))
      pool := Function.update o.pool hash (some val) }

/-- A jump to a constant is not checked again. -/
def constantJump (dests : List ℕ) (i : ℕ) (val : U256) (o : Optimized) : Optimized :=
  if o.code.getD i 0 = 0x56 ∧ isJumpDest dests val then { o with code := o.code.set i jumpcByte }
  else if o.code.getD i 0 = 0x57 ∧ isJumpDest dests val then
    { o with code := o.code.set i jumpciByte }
  else o

/-- The second loop of `optimize`, at a push instruction. -/
def optimizePush (dests : List ℕ) (pc n : ℕ) (o : Optimized) : Optimized :=
  constantJump dests (pc + n + 1) (pushValue o.code pc n)
    (poolConstant pc n (pushValue o.code pc n) o)

/-- The second loop of `optimize`. -/
def optimizeFrom (nBytes : ℕ) (dests : List ℕ) : ℕ → ℕ → Optimized → Optimized
  | 0, _, o => o
  | turns + 1, pc, o =>
    if pc < nBytes then
      optimizeFrom nBytes dests turns (pc + 1 + pushWidth (o.code.getD pc 0))
        (if pushWidth (o.code.getD pc 0) = 0 then o
          else optimizePush dests pc (pushWidth (o.code.getD pc 0)) o)
    else o

/-- `optimize`: the program, its pool and its jump destinations. -/
def optimize (code : Bytes) : Optimized × List ℕ :=
  let scanned := scanJumpDests code.length code.length 0 (copyCode code) []
  (optimizeFrom code.length scanned.2 code.length 0 ⟨scanned.1, fun _ => none⟩, scanned.2)

end Ybtc
