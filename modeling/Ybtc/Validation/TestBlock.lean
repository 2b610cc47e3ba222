import Ybtc.Validation.ConnectSteps

/-!
# Testing a block that is not part of the chain yet

`TestBlockValidity`, with the header checks it makes, and the functions by which a block under
construction commits to its witnesses.

The block is connected with `fJustCheck` to a view that is thrown away.  A rejection by
`ConnectBlock` is followed by `setRoot`; a fault leaves the function where it occurs, so that
nothing is restored.
-/

namespace Ybtc

open Fallible Stateful

/-! ## The header -/

/-- `MAX_FUTURE_BLOCK_TIME`. -/
def maxFutureBlockTime : ℕ := 2 * 60 * 60

/-- The eight hexadecimal digits of `0x%08x`. -/
def hex08 (n : ℤ) : String :=
  String.ofList ((List.range 8).reverse.map fun i =>
    Nat.digitChar ((n % 2 ^ 32).toNat / 16 ^ i % 16))

/-- The version of a block is too old for its height. -/
def versionOutdated (params : ConsensusParams) (nVersion : ℤ) (nHeight : ℕ) : Bool :=
  (decide (nVersion < 2) && decide (params.bip34Height ≤ nHeight))
    || (decide (nVersion < 3) && decide (params.bip66Height ≤ nHeight))
    || (decide (nVersion < 4) && decide (params.bip65Height ≤ nHeight))

/-- `ContextualCheckBlockHeader`; `checkpoint` is the height of the last checkpoint in the index, if
    checkpoints are enabled. -/
def contextualCheckBlockHeader (params : ConsensusParams) (checkpoint : Option ℕ)
    (block : CBlockHeader) (pindexPrev : CBlockIndex) (nAdjustedTime : ℕ) : Checked Unit := do
  dosIf ((checkpoint.map fun h => decide (pindexPrev.nHeight + 1 < h)).getD false) 100 .checkpoint
    "bad-fork-prior-to-checkpoint" false
  invalidIf (block.nTime ≤ pindexPrev.getMedianTimePast) .invalid "time-too-old"
  invalidIf (nAdjustedTime + maxFutureBlockTime < block.nTime) .invalid "time-too-new"
  invalidIf (versionOutdated params block.nVersion (pindexPrev.nHeight + 1) = true) .obsolete
    ("bad-version(0x" ++ hex08 block.nVersion ++ ")")

/-! ## The test -/

/-- The entry of an index object among the predecessors of the next block. -/
def CBlockIndex.toEntry (p : CBlockIndex) : IndexEntry :=
  ⟨p.getBlockHash, p.nHeight, p.nTime, p.hashStateRoot⟩

/-- `indexDummy`: the index object of the block, which has no hash. -/
def indexDummy (block : CBlock) (pindexPrev : CBlockIndex) : CBlockIndex :=
  ⟨none, pindexPrev.nHeight + 1, block.nTime, block.hashStateRoot,
    pindexPrev.toEntry :: pindexPrev.ancestors⟩

/-- `if (!…) { pState->setRoot(oldHashStateRoot); return false; }` -/
def restoreOnReject {α : Type} (L : ContractLayer) (old : Uint256) (x : EStateM Stop L.State α) :
    EStateM Stop L.State α := fun s =>
  match x s with
  | .ok a s' => .ok a s'
  | .error (.reject r) s' =>
    (do mapError Stop.fault (L.setRoot old); throw (Stop.reject r)) s'
  | .error (.fault f) s' => .error (.fault f) s'

/-- `TestBlockValidity`; `viewNew` is the fresh cache over `pcoinsTip`. -/
def testBlockValidity (ctx : ChainContext) (checkpoint : Option ℕ) (tip : CBlockIndex)
    (block : CBlock) (pindexPrev : CBlockIndex) (viewNew : CCoinsViewCache) (cache : ctx.C.State)
    (nAdjustedTime : ℕ) (fCheckPOW fCheckMerkleRoot : Bool) :
    EStateM Stop ctx.L.State (Connected ctx.C) := do
  Stateful.liftExcept (assertThat (pindexPrev = tip))
  Stateful.liftExcept (contextualCheckBlockHeader ctx.params checkpoint block.getBlockHeader
    pindexPrev nAdjustedTime)
  let checked ← Stateful.liftExcept (checkBlock ctx.H block fCheckPOW fCheckMerkleRoot)
  Stateful.liftExcept (contextualCheckBlock ctx.H ctx.params checked (some pindexPrev))
  let old ← Stateful.mapError Stop.fault ctx.L.rootHash
  restoreOnReject ctx.L old
    (connectBlock ctx true checked (indexDummy checked pindexPrev) viewNew cache)

/-- **What a passed test says about a block without the `fChecked` mark.** -/
lemma testBlockValidity_ok {ctx : ChainContext} {checkpoint : Option ℕ} {tip : CBlockIndex}
    {block : CBlock} {pindexPrev : CBlockIndex} {viewNew : CCoinsViewCache} {cache : ctx.C.State}
    {nAdjustedTime : ℕ} {pow merkle : Bool} {s s' : ctx.L.State} {r : Connected ctx.C}
    (hc : block.fChecked = false)
    (h : testBlockValidity ctx checkpoint tip block pindexPrev viewNew cache
      nAdjustedTime pow merkle
      s = .ok r s') : BlockChecked block := by
  unfold testBlockValidity at h
  obtain ⟨_, _, _, h⟩ := Stateful.bind_ok.mp h
  obtain ⟨_, _, _, h⟩ := bind_ok.mp h
  obtain ⟨checked, _, hcheck, _⟩ := bind_ok.mp h
  exact (checkBlock_ok hc (Stateful.liftExcept_apply_ok.mp hcheck).1).1

/-! ## Commitments -/

/-- The nonce of a new block: 32 zero bytes. -/
def zeroNonce : Bytes := List.replicate 32 0

/-- The script of the commitment output: 38 bytes, of which the last 32 are the hash. -/
def commitmentScript (H : Hashes) (block : CBlock) : CScript :=
  [OP_RETURN, 0x24, 0xaa, 0x21, 0xa9, 0xed]
    ++ (H.hashWithNonce (H.blockWitnessMerkleRoot block).1 zeroNonce ++ zeroNonce).take 32

/-- Changing the first transaction of a block. -/
def CBlock.modifyCoinbase (block : CBlock) (f : CTransaction → CTransaction) : CBlock :=
  { block with vtx := match block.vtx with
    | [] => []
    | coinbase :: rest => f coinbase :: rest }

/-- The commitment output of the block's coinbase. -/
def CBlock.commitment (block : CBlock) : Option CTxOut := block.vtx.head?.bind witnessCommitment

/-- `tx.vin[0].scriptWitness.stack = {nonce};` -/
def setWitnessNonce (tx : CTransaction) : CTransaction :=
  { tx with vin := match tx.vin with
    | [] => []
    | txin :: vin => { txin with scriptWitness := [zeroNonce] } :: vin }

/-- `UpdateUncommittedBlockStructures`. -/
def updateUncommittedBlockStructures (params : ConsensusParams) (pindexPrev : CBlockIndex)
    (block : CBlock) : CBlock :=
  if block.commitment.isSome && params.versionBitsActive (some pindexPrev) .segwit
      && !(block.vtx.head?.map CTransaction.hasWitness).getD false then
    block.modifyCoinbase setWitnessNonce
  else block

/-- The block with its commitment output; `segwitTimeout` says that the timeout of the deployment
    is not zero. -/
def addCommitment (H : Hashes) (segwitTimeout : Bool) (block : CBlock) : CBlock :=
  if segwitTimeout && block.commitment.isNone then
    block.modifyCoinbase fun tx => { tx with vout := tx.vout ++ [⟨0, commitmentScript H block⟩] }
  else block

/-- `GenerateCoinbaseCommitment`. -/
def generateCoinbaseCommitment (H : Hashes) (params : ConsensusParams) (segwitTimeout : Bool)
    (pindexPrev : CBlockIndex) (block : CBlock) : CBlock :=
  updateUncommittedBlockStructures params pindexPrev (addCommitment H segwitTimeout block)

/-- The output `GenerateCoinbaseCommitment` adds, if it adds one. -/
def commitmentOutputs (H : Hashes) (segwitTimeout : Bool) (block : CBlock) : List CTxOut :=
  if segwitTimeout && block.commitment.isNone then [⟨0, commitmentScript H block⟩] else []

/-- **What the commitment changes**: at most one output without value is added to the coinbase. -/
lemma generateCoinbaseCommitment_spec (H : Hashes) (params : ConsensusParams) (segwitTimeout : Bool)
    (pindexPrev : CBlockIndex) {block : CBlock} {cb : CTransaction} {rest : List CTransaction}
    (h : block.vtx = cb :: rest) :
    ∃ cb', generateCoinbaseCommitment H params segwitTimeout pindexPrev block
        = { block with vtx := cb' :: rest } ∧
      cb'.vout = cb.vout ++ commitmentOutputs H segwitTimeout block := by
  obtain ⟨cb1, hadd, hout⟩ : ∃ cb1,
      addCommitment H segwitTimeout block = { block with vtx := cb1 :: rest } ∧
        cb1.vout = cb.vout ++ commitmentOutputs H segwitTimeout block := by
    unfold addCommitment commitmentOutputs
    split_ifs
    · refine ⟨{ cb with vout := cb.vout ++ [⟨0, commitmentScript H block⟩] }, ?_, rfl⟩
      simp only [CBlock.modifyCoinbase, h]
    · refine ⟨cb, ?_, (List.append_nil _).symm⟩
      rw [← h]
  unfold generateCoinbaseCommitment updateUncommittedBlockStructures
  rw [hadd]
  split_ifs
  · exact ⟨setWitnessNonce cb1, rfl, hout⟩
  · exact ⟨cb1, rfl, hout⟩

end Ybtc
