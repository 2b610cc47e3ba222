import Mathlib.Data.Finmap
import Ybtc.Chain.BlockIndex

/-!
# The map of block index objects

`mapBlockIndex` with the whole of `CBlockIndex` from `chain.h`.  A pointer to an index object is the
key under which the map holds it, so that an object can be changed in place while others point to
it; `phashBlock` points to that key.  The skip pointer, `nChainTx` and `nSequenceId` are left out:
nothing here reads them.
-/

namespace Ybtc

/-! ## Index objects -/

/-- `CDiskBlockPos` -/
structure CDiskBlockPos where
  nFile : BitVec 32
  nPos : BitVec 32
deriving Repr, DecidableEq

/-- `CDiskBlockPos::SetNull` -/
def CDiskBlockPos.null : CDiskBlockPos := ⟨-1, 0⟩

/-- `BLOCK_VALID_TREE` and the other bits of `BlockStatus`. -/
def blockValidTree : BitVec 32 := 2
def blockValidScripts : BitVec 32 := 5
def blockValidMask : BitVec 32 := 7
def blockHaveData : BitVec 32 := 8
def blockHaveUndo : BitVec 32 := 16
def blockFailedValid : BitVec 32 := 32
def blockFailedChild : BitVec 32 := 64
def blockFailedMask : BitVec 32 := blockFailedValid ||| blockFailedChild

/-- `CBlockIndex` as an object in memory.  `nHeight`, `nFile` and `nVersion` are signed. -/
structure BlockNode where
  pprev : Option Uint256
  nHeight : BitVec 32
  nFile : BitVec 32
  nDataPos : BitVec 32
  nUndoPos : BitVec 32
  nChainWork : Uint256
  nTx : BitVec 32
  nStatus : BitVec 32
  nVersion : BitVec 32
  hashMerkleRoot : Uint256
  hashStateRoot : Uint256
  nTime : BitVec 32
  nBits : BitVec 32
  nTimeMax : BitVec 32
deriving Repr, DecidableEq

namespace BlockNode

/-- `CBlockIndex::SetNull` -/
def null : BlockNode where
  pprev := none
  nHeight := 0
  nFile := 0
  nDataPos := 0
  nUndoPos := 0
  nChainWork := 0
  nTx := 0
  nStatus := 0
  nVersion := 0
  hashMerkleRoot := Uint256.null
  hashStateRoot := Uint256.null
  nTime := 0
  nBits := 0
  nTimeMax := 0

/-- `CBlockIndex::CBlockIndex(const CBlockHeader& block)` -/
def ofHeader (block : CBlockHeader) : BlockNode :=
  { null with
    nVersion := BitVec.ofInt 32 block.nVersion
    hashMerkleRoot := block.hashMerkleRoot
    hashStateRoot := block.hashStateRoot
    nTime := BitVec.ofNat 32 block.nTime
    nBits := BitVec.ofNat 32 block.nBits }

variable (n : BlockNode)

/-- `CBlockIndex::GetBlockPos` -/
def getBlockPos : CDiskBlockPos :=
  if n.nStatus &&& blockHaveData ≠ 0 then ⟨n.nFile, n.nDataPos⟩ else .null

/-- `CBlockIndex::GetUndoPos` -/
def getUndoPos : CDiskBlockPos :=
  if n.nStatus &&& blockHaveUndo ≠ 0 then ⟨n.nFile, n.nUndoPos⟩ else .null

/-- `CBlockIndex::GetBlockHeader`; the height is converted to an unsigned number. -/
def getBlockHeader : CBlockHeader where
  nVersion := n.nVersion.toInt
  hashPrevBlock := n.pprev.getD Uint256.null
  hashMerkleRoot := n.hashMerkleRoot
  hashStateRoot := n.hashStateRoot
  nTime := n.nTime.toNat
  nBits := n.nBits.toNat
  nHeight := n.nHeight.toNat

/-- `CBlockIndex::IsValid` -/
def isValid (nUpTo : BitVec 32) : Bool :=
  n.nStatus &&& blockFailedMask = 0 ∧ nUpTo ≤ n.nStatus &&& blockValidMask

/-- `CBlockIndex::RaiseValidity` -/
def raiseValidity (nUpTo : BitVec 32) : BlockNode :=
  if n.nStatus &&& blockFailedMask ≠ 0 then n
  else if n.nStatus &&& blockValidMask < nUpTo then
    { n with nStatus := (n.nStatus &&& ~~~blockValidMask) ||| nUpTo }
  else n

end BlockNode

/-- The field values of a header are values of their C++ types. -/
structure CBlockHeader.Fits (block : CBlockHeader) : Prop where
  nVersion : -2 ^ 31 ≤ block.nVersion ∧ block.nVersion < 2 ^ 31
  nTime : block.nTime < 2 ^ 32
  nBits : block.nBits < 2 ^ 32
  nHeight : block.nHeight < 2 ^ 32

/-! ## The map -/

/-- `mapBlockIndex` -/
abbrev BlockMap := Finmap fun _ : Uint256 => BlockNode

namespace BlockMap

/-- The predecessors from a pointer on, at most `k` of them. -/
def ancestorsFrom (m : BlockMap) : ℕ → Option Uint256 → List IndexEntry
  | 0, _ => []
  | _ + 1, none => []
  | k + 1, some h =>
    match m.lookup h with
    | none => []
    | some n => ⟨h, n.nHeight.toNat, n.nTime.toNat, n.hashStateRoot⟩ :: ancestorsFrom m k n.pprev

/-- **The object under a key with the chain of its predecessors**; there are as many of them as its
    height says. -/
def toIndex (m : BlockMap) (h : Uint256) : Option CBlockIndex :=
  (m.lookup h).map fun n =>
    ⟨some h, n.nHeight.toNat, n.nTime.toNat, n.hashStateRoot,
      m.ancestorsFrom n.nHeight.toNat n.pprev⟩

end BlockMap

end Ybtc
