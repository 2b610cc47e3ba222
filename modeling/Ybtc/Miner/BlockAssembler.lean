import Ybtc.Mempool.Pool
import Ybtc.Miner.Casino
import Ybtc.Validation.TestBlock

/-!
# Assembling a block

`BlockAssembler` from `miner.cpp`: the transactions of the memory pool are taken package by package,
best fee rate first, the contract transactions among them are executed as they are taken, and the
coinbase is rebuilt at the end if there are gas refunds to pay.

The two orders of the pool compare products of floating point numbers; they are parameters of
`MinerContext`.  The loop of `addPackageTxs` gets a number of turns, and a run that needs more ends
with `Fault.diverged`, so that a block is only ever returned by a loop that has ended.
-/

namespace Ybtc

open Stateful

/-! ## The surroundings -/

/-- `CTxMemPoolModifiedEntry`. -/
structure CTxMemPoolModifiedEntry where
  iter : Uint256
  nSizeWithAncestors : ℤ
  nModFeesWithAncestors : CAmount
  nSigOpCostWithAncestors : ℤ
deriving Repr, DecidableEq

/-- The constructor. -/
def CTxMemPoolModifiedEntry.ofEntry (e : CTxMemPoolEntry) : CTxMemPoolModifiedEntry :=
  ⟨e.hash, e.nSizeWithAncestors, e.nModFeesWithAncestors, e.nSigOpCostWithAncestors⟩

/-- What `BlockAssembler` reads.  The contract layer of `chain` is the one of the engine. -/
structure MinerContext where
  crypto : Crypto
  E : ContractEngine
  chain : ChainContext
  casino : CasinoParams
  pool : CTxMemPool
  /-- `chainActive.Tip()`. -/
  tip : CBlockIndex
  /-- The fresh cache over `pcoinsTip`. -/
  viewNew : CCoinsViewCache
  cache : chain.C.State
  /-- `ComputeBlockVersion`, or the argument that overrides it. -/
  nVersion : ℤ
  /-- `GetAdjustedTime()` at the beginning, in `UpdateTime` and in `TestBlockValidity`. -/
  timeStart : ℕ
  timeUpdate : ℕ
  timeTest : ℕ
  /-- `options.nBlockMaxWeight`. -/
  optionMaxWeight : ℕ
  blockMinFeeRate : CFeeRate
  /-- `CompareTxMemPoolEntryByAncestorFee`. -/
  compareByAncestorFee : CTxMemPoolEntry → CTxMemPoolEntry → Bool
  /-- `CompareModifiedEntry`. -/
  compareModified : CTxMemPoolModifiedEntry → CTxMemPoolModifiedEntry → Bool
  /-- The timeout of the segwit deployment is not zero. -/
  segwitTimeout : Bool
  /-- The height of the last checkpoint, if checkpoints are enabled. -/
  checkpoint : Option ℕ
  /-- `COINBASE_FLAGS`. -/
  coinbaseFlags : CScript

namespace MinerContext

variable (ctx : MinerContext)

/-- The chain whose contracts are run by the engine. -/
def chainContext : ChainContext := ctx.chain.withLayer (ctx.E.layer ctx.crypto)

/-- `nHeight`. -/
def nHeight : ℕ := ctx.tip.nHeight + 1

/-- `nBlockMaxWeight`: between 4000 and the limit for a block less 4000. -/
def nBlockMaxWeight : ℕ := max 4000 (min (maxBlockWeight - 4000) ctx.optionMaxWeight)

/-- `GetBlockSubsidy(nHeight, …)`. -/
def subsidy : CAmount := getBlockSubsidy ctx.nHeight ctx.chain.params

/-- The entries of the pool in the order of `ancestor_score`. -/
def ancestorScore : List CTxMemPoolEntry :=
  ctx.pool.mapTx.insertionSort fun a b => ctx.compareByAncestorFee a b = true

end MinerContext

/-! ## The block under construction -/

/-- The template and the counters of the assembler. -/
structure Assembler where
  vtx : List CTransaction
  vTxFees : List CAmount
  vTxSigOpsCost : List ℤ
  nBlockWeight : ℕ
  nBlockTx : ℕ
  nBlockSigOpsCost : ℕ
  nFees : CAmount
  inBlock : List Uint256
  hasContract : Bool
  vRefundGasFee : List CTxOut

/-- `resetBlock`, with the coinbase in its place. -/
def Assembler.reset (coinbaseTx : CTransaction) : Assembler :=
  ⟨[coinbaseTx], [-1], [-1], 4000, 0, 400, 0, [], false, []⟩

/-- What `AttemptToAddContractToBlock` and `AddToBlock` both do to the template. -/
def Assembler.push (A : Assembler) (iter : CTxMemPoolEntry) : Assembler :=
  { A with
    vtx := A.vtx ++ [iter.tx]
    vTxFees := A.vTxFees ++ [iter.nFee]
    vTxSigOpsCost := A.vTxSigOpsCost ++ [(iter.sigOpCost : ℤ)]
    nBlockWeight := A.nBlockWeight + iter.getTxWeight
    nBlockTx := A.nBlockTx + 1
    nBlockSigOpsCost := A.nBlockSigOpsCost + iter.sigOpCost
    nFees := A.nFees + iter.nFee
    inBlock := iter.hash :: A.inBlock }

/-- What the loop of `addPackageTxs` carries along besides the block. -/
structure Selection where
  /-- The entries from `mi` on. -/
  mi : List CTxMemPoolEntry
  mapModifiedTx : List CTxMemPoolModifiedEntry
  failedTx : List Uint256
  nConsecutiveFailed : ℕ

section Assembly

variable (ctx : MinerContext)

/-- One selected transaction: `AttemptToAddContractToBlock`, which always succeeds because
    `TxContractExec` does, or `AddToBlock`. -/
def addEntry (A : Assembler) (iter : CTxMemPoolEntry) : EStateM Fault ctx.E.State Assembler :=
  if iter.tx.hasCreateOrCall then do
    let _ ← ctx.E.rootHash
    let vRefundGasFee ← txContractExec ctx.crypto ctx.E iter.tx A.vRefundGasFee
    pure { A.push iter with hasContract := true, vRefundGasFee := vRefundGasFee }
  else pure (A.push iter)

/-! ## Packages -/

/-- The value of a size in a `uint64_t`. -/
def toUint64 (n : ℤ) : ℕ := (n % 2 ^ 64).toNat

/-- `TestPackage`. -/
def testPackage (A : Assembler) (packageSize : ℕ) (packageSigOpsCost : ℤ) : Bool :=
  decide (A.nBlockWeight + witnessScaleFactor * packageSize < ctx.nBlockMaxWeight)
    && decide (toUint64 (A.nBlockSigOpsCost + packageSigOpsCost) < maxBlockSigopsCost)

/-- `TestPackageTransactions`. -/
def testPackageTransactions (fIncludeWitness : Bool) (package : List CTxMemPoolEntry) : Bool :=
  package.all fun it => isFinalTx it.tx ctx.nHeight ctx.tip.getMedianTimePast
    && (fIncludeWitness || !it.tx.hasWitness)

/-- `CompareTxIterByAncestorCount`. -/
def compareByAncestorCount (a b : CTxMemPoolEntry) : Bool :=
  if a.nCountWithAncestors ≠ b.nCountWithAncestors then
    decide (a.nCountWithAncestors < b.nCountWithAncestors)
  else decide (a.hash.toNat < b.hash.toNat)

/-- `SortForBlock`. -/
def sortForBlock (package : List CTxMemPoolEntry) : List CTxMemPoolEntry :=
  package.insertionSort fun a b => compareByAncestorCount a b = true

/-- A descendant of an added transaction: entered with its modified fee taken off, or updated by
    `update_for_parent_inclusion`, which takes off the fee itself. -/
def updateModified (it : CTxMemPoolEntry) (desc : CTxMemPoolEntry)
    (mapModifiedTx : List CTxMemPoolModifiedEntry) : List CTxMemPoolModifiedEntry :=
  if mapModifiedTx.any fun m => m.iter == desc.hash then
    mapModifiedTx.map fun m =>
      if m.iter = desc.hash then
        ⟨m.iter, m.nSizeWithAncestors - it.getTxSize, m.nModFeesWithAncestors - it.nFee,
          m.nSigOpCostWithAncestors - it.sigOpCost⟩
      else m
  else
    mapModifiedTx ++ [⟨desc.hash, desc.nSizeWithAncestors - it.getTxSize,
      desc.nModFeesWithAncestors - it.getModifiedFee, desc.nSigOpCostWithAncestors - it.sigOpCost⟩]

/-- The descendants of one added transaction. -/
def updateForAdded (alreadyAdded : List Uint256) (mapModifiedTx : List CTxMemPoolModifiedEntry)
    (hash : Uint256) : Except Fault (List CTxMemPoolModifiedEntry) := do
  let it ← ctx.pool.deref hash
  let descendants ← ctx.pool.calculateDescendants hash []
  (descendants.filter fun d => !alreadyAdded.contains d).foldlM
    (fun m d => do
      let desc ← ctx.pool.deref d
      .ok (updateModified it desc m)) mapModifiedTx

/-- The order of `setEntries`. -/
def setOrder (hashes : List Uint256) : List Uint256 :=
  hashes.insertionSort fun a b => a.toNat ≤ b.toNat

/-- `UpdatePackagesForAdded`. -/
def updatePackagesForAdded (alreadyAdded : List Uint256)
    (mapModifiedTx : List CTxMemPoolModifiedEntry) : Except Fault (List CTxMemPoolModifiedEntry) :=
  (setOrder alreadyAdded).foldlM (updateForAdded ctx alreadyAdded) mapModifiedTx

/-- `mapModifiedTx.get<ancestor_score>().begin()`. -/
def bestModified : List CTxMemPoolModifiedEntry → Option CTxMemPoolModifiedEntry
  | [] => none
  | m :: ms => some (ms.foldl (fun best e => if ctx.compareModified e best then e else best) m)

/-- `SkipMapTxEntry`. -/
def skipMapTxEntry (A : Assembler) (sel : Selection) (hash : Uint256) : Bool :=
  sel.mapModifiedTx.any (fun m => m.iter == hash) || A.inBlock.contains hash
    || sel.failedTx.contains hash

/-- The package failed: an entry of `mapModifiedTx` is erased and remembered. -/
def Selection.drop (sel : Selection) (fUsingModified : Bool) (hash : Uint256) : Selection :=
  if fUsingModified then
    { sel with
      mapModifiedTx := sel.mapModifiedTx.filter fun m => m.iter != hash
      failedTx := hash :: sel.failedTx }
  else sel

/-! ## The loop -/

/-- How a turn of the loop ends. -/
inductive Turn
  | finished (A : Assembler)
  | next (A : Assembler) (sel : Selection)

/-- `MAX_CONSECUTIVE_FAILURES`. -/
def maxConsecutiveFailures : ℕ := 1000

/-- The package does not fit: the loop goes on, or gives up on a block that is almost full. -/
def packageTooBig (A : Assembler) (sel : Selection) (fUsingModified : Bool) (hash : Uint256) :
    Turn :=
  let sel' := { sel.drop fUsingModified hash with nConsecutiveFailed := sel.nConsecutiveFailed + 1 }
  if maxConsecutiveFailures < sel.nConsecutiveFailed + 1 ∧
      ctx.nBlockMaxWeight - 4000 < A.nBlockWeight then .finished A
  else .next A sel'

/-- The entries of a package, without those that are in the block. -/
def packageOf (A : Assembler) (iter : CTxMemPoolEntry) : Except Fault (List CTxMemPoolEntry) := do
  let ancestors ← ctx.pool.calculateMemPoolAncestors none iter false
  let unconfirmed ← ((ancestors.getD []).filter fun h => !A.inBlock.contains h).mapM ctx.pool.deref
  .ok (if unconfirmed.any fun e => e.hash == iter.hash then unconfirmed else iter :: unconfirmed)

/-- The package goes into the block. -/
def addPackage (A : Assembler) (sel : Selection) (package : List CTxMemPoolEntry) :
    EStateM Fault ctx.E.State Turn := do
  let A' ← (sortForBlock package).foldlM (addEntry ctx) A
  let added := package.map CTxMemPoolEntry.hash
  let remaining := sel.mapModifiedTx.filter fun m => !added.contains m.iter
  let mapModifiedTx ← Stateful.liftExcept (updatePackagesForAdded ctx added remaining)
  pure (.next A' { sel with mapModifiedTx := mapModifiedTx, nConsecutiveFailed := 0 })

/-- A turn from the point where the transaction to evaluate is chosen; `m` has the totals of its
    package. -/
def consider (fIncludeWitness : Bool) (A : Assembler) (sel : Selection) (iter : CTxMemPoolEntry)
    (m : CTxMemPoolModifiedEntry) (fUsingModified : Bool) : EStateM Fault ctx.E.State Turn :=
  if A.inBlock.contains iter.hash then throw .assertion
  else if m.nModFeesWithAncestors
      < ctx.blockMinFeeRate.getFee (toUint64 m.nSizeWithAncestors) then pure (.finished A)
  else if !testPackage ctx A (toUint64 m.nSizeWithAncestors) m.nSigOpCostWithAncestors then
    pure (packageTooBig ctx A sel fUsingModified iter.hash)
  else do
    let package ← Stateful.liftExcept (packageOf ctx A iter)
    if !testPackageTransactions ctx fIncludeWitness package then
      pure (.next A (sel.drop fUsingModified iter.hash))
    else addPackage ctx A sel package

/-- The best entry of `mapModifiedTx` is chosen. -/
def considerModified (fIncludeWitness : Bool) (A : Assembler) (sel : Selection)
    (m : CTxMemPoolModifiedEntry) : EStateM Fault ctx.E.State Turn := do
  let iter ← Stateful.liftExcept (ctx.pool.deref m.iter)
  consider ctx fIncludeWitness A sel iter m true

/-- One turn of the loop of `addPackageTxs`. -/
def turn (fIncludeWitness : Bool) (A : Assembler) (sel : Selection) :
    EStateM Fault ctx.E.State Turn :=
  match sel.mi, bestModified ctx sel.mapModifiedTx with
  | [], none => pure (.finished A)
  | [], some m => considerModified ctx fIncludeWitness A sel m
  | iter :: mi, best =>
    if skipMapTxEntry A sel iter.hash then pure (.next A { sel with mi := mi })
    else
      match best.filter fun m => ctx.compareModified m (.ofEntry iter) with
      | some m => considerModified ctx fIncludeWitness A sel m
      | none => consider ctx fIncludeWitness A { sel with mi := mi } iter (.ofEntry iter) false

/-- The loop of `addPackageTxs`. -/
def packageLoop (fIncludeWitness : Bool) :
    ℕ → Assembler → Selection → EStateM Fault ctx.E.State Assembler
  | 0, _, _ => throw .diverged
  | fuel + 1, A, sel => do
    match ← turn ctx fIncludeWitness A sel with
    | .finished A' => pure A'
    | .next A' sel' => packageLoop fIncludeWitness fuel A' sel'

/-- `addPackageTxs`; the block holds nothing but the coinbase yet. -/
def addPackageTxs (fuel : ℕ) (fIncludeWitness : Bool) (A : Assembler) :
    EStateM Fault ctx.E.State Assembler := do
  let mapModifiedTx ← Stateful.liftExcept (updatePackagesForAdded ctx A.inBlock [])
  packageLoop ctx fIncludeWitness fuel A ⟨ctx.ancestorScore, mapModifiedTx, [], 0⟩

/-! ## The whole block -/

/-- The coinbase before anything is added to it. -/
def coinbaseTemplate (scriptPubKeyIn : CScript) : CTransaction :=
  ⟨2, [⟨⟨Uint256.null, 0xffffffff⟩, pushInt64 [] ctx.nHeight ++ [OP_0], sequenceFinal, []⟩],
    [⟨ctx.subsidy, scriptPubKeyIn⟩], 0⟩

/-- What the first half of `CreateNewBlock` has found: the root it started from,
    `originalRewardTx`, and the assembled transactions. -/
structure Selected where
  oldHashStateRoot : Uint256
  originalRewardTx : CTransaction
  assembler : Assembler

/-- `CreateNewBlock` up to `addPackageTxs`. -/
def selectTransactions (fuel : ℕ) (scriptPubKeyIn : CScript) (fMineWitnessTx : Bool) :
    EStateM Fault ctx.E.State Selected := do
  let oldHashStateRoot ← ctx.E.rootHash
  let originalRewardTx ← addCasinoToCoinBaseTx ctx.crypto ctx.E ctx.casino
    (coinbaseTemplate ctx scriptPubKeyIn) ctx.nHeight
  let A ← addPackageTxs ctx fuel
    (ctx.chain.params.versionBitsActive (some ctx.tip) .segwit && fMineWitnessTx)
    (Assembler.reset originalRewardTx)
  pure ⟨oldHashStateRoot, originalRewardTx, A⟩

/-- The first output of a transaction gets another value. -/
def setFirstValue (tx : CTransaction) (nValue : CAmount) : List CTxOut :=
  match tx.vout with
  | [] => []
  | out :: vout => ⟨nValue, out.scriptPubKey⟩ :: vout

/-- The coinbase `RebuildRefundTransaction` makes. -/
def rebuildRefundTransaction (originalRewardTx : CTransaction) (nFees : CAmount)
    (vRefundGasFee : List CTxOut) : CTransaction :=
  { originalRewardTx with
    vout := setFirstValue originalRewardTx
      (nFees + ctx.subsidy - CTransaction.outputSum vRefundGasFee) ++ vRefundGasFee }

/-- `hasContract && vRefundGasFee.size() > 0`: the coinbase is rebuilt. -/
def Assembler.rebuilds (A : Assembler) : Bool := A.hasContract && !A.vRefundGasFee.isEmpty

/-- The coinbase of the block, before its commitment. -/
def rewardTx (sel : Selected) : CTransaction :=
  if sel.assembler.rebuilds then
    rebuildRefundTransaction ctx sel.originalRewardTx sel.assembler.nFees
      sel.assembler.vRefundGasFee
  else sel.originalRewardTx

/-- The time of the block: `GetAdjustedTime`, and then `UpdateTime`. -/
def blockTime : ℕ := max ctx.timeStart (max (ctx.tip.getMedianTimePast + 1) ctx.timeUpdate)

/-- The block before its commitment, with the root that was reached. -/
def uncommittedBlock (sel : Selected) (hashStateRoot : Uint256) : CBlock :=
  ⟨⟨ctx.nVersion, ctx.tip.getBlockHash, Uint256.null, hashStateRoot, blockTime ctx, 0, ctx.nHeight⟩,
    rewardTx ctx sel :: sel.assembler.vtx.tail, false⟩

/-- The block that is tested and returned. -/
def assembledBlock (sel : Selected) (hashStateRoot : Uint256) : CBlock :=
  generateCoinbaseCommitment ctx.chain.H ctx.chain.params ctx.segwitTimeout ctx.tip
    (uncommittedBlock ctx sel hashStateRoot)

/-- `CBlockTemplate`. -/
structure CBlockTemplate where
  block : CBlock
  vTxFees : List CAmount
  vTxSigOpsCost : List ℤ
  vchCoinbaseCommitment : Bytes

/-- The template around a block; the commitment is the one the block did not have before. -/
def blockTemplate (sel : Selected) (block : CBlock) : CBlockTemplate where
  block := block
  vTxFees := -sel.assembler.nFees :: sel.assembler.vTxFees.tail
  vTxSigOpsCost :=
    (witnessScaleFactor * ((block.vtx.head?.map getLegacySigOpCount).getD 0) : ℕ)
      :: sel.assembler.vTxSigOpsCost.tail
  vchCoinbaseCommitment :=
    if ctx.segwitTimeout && (witnessCommitment (rewardTx ctx sel)).isNone then
      (block.commitment.map CTxOut.scriptPubKey).getD []
    else []

/-- A failed test ends the assembly with an exception. -/
def testFailed : Stop → Fault
  | .reject r => .thrown (.runtimeError
      ("CreateNewBlock: TestBlockValidity failed: " ++ r.strRejectReason))
  | .fault f => f

/-- `CreateNewBlock` from `addPackageTxs` on. -/
def finishBlock (sel : Selected) : EStateM Fault ctx.E.State CBlockTemplate := do
  let hashStateRoot ← ctx.E.rootHash
  ctx.E.setRoot sel.oldHashStateRoot
  let _ ← Stateful.mapError testFailed (testBlockValidity ctx.chainContext ctx.checkpoint ctx.tip
    (assembledBlock ctx sel hashStateRoot) ctx.tip ctx.viewNew ctx.cache ctx.timeTest false false)
  pure (blockTemplate ctx sel (assembledBlock ctx sel hashStateRoot))

/-- **`CreateNewBlock`.** -/
def createNewBlock (fuel : ℕ) (scriptPubKeyIn : CScript) (fMineWitnessTx : Bool) :
    EStateM Fault ctx.E.State CBlockTemplate := do
  let sel ← selectTransactions ctx fuel scriptPubKeyIn fMineWitnessTx
  finishBlock ctx sel

/-! ## The extra nonce -/

/-- The script signature of the coinbase, with the extra nonce. -/
def extraNonceScript (nExtraNonce : ℕ) : CScript :=
  pushNum (pushInt64 [] ctx.nHeight) nExtraNonce ++ ctx.coinbaseFlags

/-- `IncrementExtraNonce`, for the value the counter has after it was incremented. -/
def incrementExtraNonce (nExtraNonce : ℕ) (block : CBlock) : Except Fault CBlock :=
  match block.vtx with
  | [] => .error (.undefined .outOfBounds)
  | coinbase :: rest =>
    match coinbase.vin with
    | [] => .error (.undefined .outOfBounds)
    | txin :: vin =>
      if 100 < (extraNonceScript ctx nExtraNonce).length then .error .assertion
      else
        let txin' := { txin with scriptSig := extraNonceScript ctx nExtraNonce }
        let changed : CBlock := { block with
          vtx := { coinbase with vin := txin' :: vin } :: rest }
        .ok { changed with hashMerkleRoot := (ctx.chain.H.blockMerkleRoot changed).1 }

end Assembly

end Ybtc
