import Mathlib.Data.List.Sort
import Ybtc.Primitives.Transaction

/-!
# The block index and the consensus parameters

`CBlockIndex` from `chain.h`, as the block it stands for together with the chain of its
predecessors, nearest first.  Following `pprev` is taking the tail of that chain, and `GetAncestor`
is the walk along it; the skip list that shortens the walk is left out.

The consensus parameters are those of `consensus/params.h` that the modelled rules read.
-/

namespace Ybtc

/-- What the index keeps of a block. -/
structure IndexEntry where
  hash : Uint256
  nHeight : ℕ
  nTime : ℕ
  hashStateRoot : Uint256
deriving Repr, DecidableEq

/-- `CBlockIndex`.  `phashBlock` is null in the temporary index of `TestBlockValidity`. -/
structure CBlockIndex where
  phashBlock : Option Uint256
  nHeight : ℕ
  nTime : ℕ
  hashStateRoot : Uint256
  ancestors : List IndexEntry
deriving Repr, DecidableEq

/-- The index object of an entry on top of its own predecessors. -/
def IndexEntry.toIndex (e : IndexEntry) (ancestors : List IndexEntry) : CBlockIndex :=
  ⟨some e.hash, e.nHeight, e.nTime, e.hashStateRoot, ancestors⟩

namespace CBlockIndex

/-- The predecessor. -/
def pprev (p : CBlockIndex) : Option CBlockIndex :=
  match p.ancestors with
  | [] => none
  | e :: es => some (e.toIndex es)

/-- `CBlockIndex::GetBlockHash`; the null hash stands for the null pointer, which only the
    temporary index has. -/
def getBlockHash (p : CBlockIndex) : Uint256 := p.phashBlock.getD Uint256.null

/-- The walk along the predecessors to a height. -/
def ancestorIn (height : ℕ) : List IndexEntry → Option CBlockIndex
  | [] => none
  | e :: es => if e.nHeight = height then some (e.toIndex es) else ancestorIn height es

/-- `CBlockIndex::GetAncestor`. -/
def getAncestor (p : CBlockIndex) (height : ℕ) : Option CBlockIndex :=
  if p.nHeight < height then none
  else if p.nHeight = height then some p
  else ancestorIn height p.ancestors

/-- `CBlockIndex::GetMedianTimePast`: the median of the times of this block and up to ten
    predecessors. -/
def getMedianTimePast (p : CBlockIndex) : ℕ :=
  let times := ((p.nTime :: p.ancestors.map IndexEntry.nTime).take 11).insertionSort (· ≤ ·)
  times.getD (times.length / 2) 0

end CBlockIndex

/-- The deployments decided by version bits. -/
inductive DeploymentPos
  | testdummy
  | csv
  | segwit
deriving Repr, DecidableEq

/-- The chain parameters read by the modelled rules. -/
structure ConsensusParams where
  hashGenesisBlock : Uint256
  nSubsidyHalvingInterval : ℕ
  bip34Height : ℕ
  bip34Hash : Uint256
  bip65Height : ℕ
  bip66Height : ℕ
  /-- The `-regtest` argument. -/
  fRegTest : Bool
  /-- `VersionBitsState(pindexPrev, …) == THRESHOLD_ACTIVE`. -/
  versionBitsActive : Option CBlockIndex → DeploymentPos → Bool

/-- `GetBlockSubsidy`.  The interval is positive for every network. -/
def getBlockSubsidy (nHeight : ℕ) (params : ConsensusParams) : CAmount :=
  if 20 ≤ nHeight / params.nSubsidyHalvingInterval then 0
  else
    (if nHeight = 2 ∧ params.fRegTest = false then 2100000 * coin else 8 * coin)
      / 2 ^ (nHeight / params.nSubsidyHalvingInterval)

lemma getBlockSubsidy_nonneg (nHeight : ℕ) (params : ConsensusParams) :
    0 ≤ getBlockSubsidy nHeight params := by
  unfold getBlockSubsidy
  split_ifs
  · exact le_refl _
  · exact Int.ediv_nonneg (by decide) (by positivity)
  · exact Int.ediv_nonneg (by decide) (by positivity)

end Ybtc
