import Ybtc.Core.Stateful
import Ybtc.Validation.CheckBlock
import Ybtc.Validation.CheckInputs

/-!
# Connecting a block

`ConnectBlock` from `validation.cpp`, with the functions it calls on the way: the BIP30 test, the
loop over the transactions, `CheckContractTx` and the final tests.

The coins view is a local object of the callers, so it is passed and returned.  The contract state
`pState` is a global that keeps whatever was done to it before a rejection or an exception; a call
is therefore a computation in `EStateM Stop`, whose failures carry the contract state they leave.
What contract execution does is a parameter at this level (`ContractLayer`).

Script checks are recorded in `Connected.evaluated`: with `nScriptCheckThreads = 0` every check is
run where it is made, otherwise the ones that were put on the queue are run by `control.Wait()`.
-/

namespace Ybtc

open Fallible CCoinsViewCache Stateful Uint256

/-! ## The surroundings -/

/-- Contract execution as the block code sees it: the global `pState` and what is done to it. -/
structure ContractLayer where
  State : Type
  /-- `sha3(rlp(""))`, the root of the empty trie. -/
  emptyRoot : Uint256
  /-- `pState->rootHash()`. -/
  rootHash : EStateM Fault State Uint256
  /-- `pState->setRoot(root)`. -/
  setRoot : Uint256 → EStateM Fault State Unit
  /-- `SmartContract::GetBlockContract`: its verdict and the refund outputs. -/
  getBlockContract : CBlock → EStateM Fault State (Bool × List CTxOut)

/-- What `ConnectBlock` reads besides its arguments. -/
structure ChainContext where
  H : Hashes
  params : ConsensusParams
  E : ScriptEngine
  C : ScriptCache
  L : ContractLayer
  nScriptCheckThreads : ℕ
  mapBlockIndex : Uint256 → Option CBlockIndex
  /-- The block lies under `hashAssumeValid` and is old enough for its scripts to be skipped. -/
  assumedValid : CBlockIndex → Bool
  /-- `GetUndoPos().IsNull() || !IsValid(BLOCK_VALID_SCRIPTS)` and `FindUndoPos` fails. -/
  findUndoPosFails : CBlockIndex → Bool
  /-- `UndoWriteToDisk` fails. -/
  undoWriteFails : CBlockIndex → Bool
  /-- `fTxIndex` is set and `WriteTxIndex` fails. -/
  txIndexFails : CBlockIndex → Bool

/-- `GetBlockScriptFlags`. -/
def getBlockScriptFlags (pindex : CBlockIndex) (params : ConsensusParams) : ℕ :=
  (if 1333238400 ≤ pindex.nTime then 1 else 0)
    ||| (if params.bip66Height ≤ pindex.nHeight then 2 ^ 2 else 0)
    ||| (if params.bip65Height ≤ pindex.nHeight then 2 ^ 9 else 0)
    ||| (if params.versionBitsActive pindex.pprev .csv then 2 ^ 10 else 0)
    ||| (if params.versionBitsActive pindex.pprev .segwit then 2 ^ 11 ||| 2 ^ 4 else 0)

/-! ## BIP30 -/

/-- `fEnforceBIP30`.  The two hashes are those of the blocks that once violated the rule. -/
def enforceBIP30 (params : ConsensusParams) (pindex prev : CBlockIndex) : Bool :=
  (pindex.phashBlock.isNone ||
    !((pindex.nHeight == 91842 && pindex.getBlockHash
          == 0x00000000000a4d0a398161ffc163c503763b1f4360639393e0e4c8e300e0caec#256)
      || (pindex.nHeight == 91880 && pindex.getBlockHash
          == 0x00000000000743f190a18c5577a3c2d2a1f610ae9601ac046a38084ccb7cd721#256)))
    && (match prev.getAncestor params.bip34Height with
        | none => true
        | some p => !(p.getBlockHash == params.bip34Hash))

/-- The outpoints a transaction creates, spendable or not. -/
def createdOutpoints (H : Hashes) (tx : CTransaction) : List COutPoint :=
  (List.range tx.vout.length).map fun i => ⟨H.txid tx, i⟩

/-- The BIP30 test on a list of outpoints: none may have an unspent coin. -/
def checkOverwrites : List COutPoint → CCoinsViewCache → Checked CCoinsViewCache
  | [], v => .ok v
  | o :: os, v => do
    dosIf ((v.haveCoin o).1) 100 .invalid "bad-txns-BIP30" false
    checkOverwrites os (v.haveCoin o).2

/-! ## One transaction -/

/-- The checks one transaction made, and whether the script execution cache spared them. -/
structure MadeChecks where
  tx : CTransaction
  cacheHit : Bool
  checks : List CScriptCheck

/-- What the loop of `ConnectBlock` carries along. -/
structure LoopState (C : ScriptCache) where
  view : CCoinsViewCache
  cache : C.State
  nFees : CAmount
  nSigOpsCost : ℕ
  hasContract : Bool
  vtxundo : List (List Coin)
  made : List MadeChecks

/-- What stays the same during the loop. -/
structure BlockSettings where
  pindex : CBlockIndex
  fJustCheck : Bool
  fScriptChecks : Bool
  flags : ℕ
  nLockTimeFlags : ℕ

variable (ctx : ChainContext) (b : BlockSettings)

/-- `GetSpendHeight`. -/
def getSpendHeight (v : CCoinsViewCache) : Checked ℕ :=
  match ctx.mapBlockIndex v.getBestBlock with
  | none => .error (.fault (.undefined .nullPointer))
  | some pindexPrev => .ok (pindexPrev.nHeight + 1)

/-- `HaveInputs` and the BIP68 locks. -/
def checkLocks (tx : CTransaction) (v : CCoinsViewCache) : Checked CCoinsViewCache :=
  if tx.isCoinBase then .ok v
  else do
    dosIf ((v.haveInputs tx).1 = false) 100 .invalid "bad-txns-inputs-missingorspent" false
    let final ← liftFault (sequenceLocks tx b.nLockTimeFlags
      ((accessCoins tx.vin (v.haveInputs tx).2).1.map Coin.nHeight) b.pindex)
    dosIf (final = false) 100 .invalid "bad-txns-nonfinal" false
    .ok (accessCoins tx.vin (v.haveInputs tx).2).2

/-- The fee and the input checks of a transaction that is not a coinbase. -/
def checkFeeAndInputs (st : LoopState ctx.C) (tx : CTransaction) : Checked (LoopState ctx.C) :=
  if tx.isCoinBase then .ok st
  else do
    let nValueOut ← liftFault tx.getValueOut
    let nSpendHeight ← getSpendHeight ctx (st.view.getValueIn tx).2
    let r ← checkInputs ctx.H ctx.E ctx.C tx (st.view.getValueIn tx).2 nSpendHeight b.fScriptChecks
      b.flags b.fJustCheck b.fJustCheck st.cache (ctx.nScriptCheckThreads != 0)
    .ok { st with
      view := r.view
      cache := r.cache
      nFees := toInt64 (st.nFees + ((st.view.getValueIn tx).1 - nValueOut))
      made := st.made ++ [⟨tx, r.cacheHit, r.checks⟩] }

/-- One iteration of the loop over `block.vtx`. -/
def connectTx (st : LoopState ctx.C) (tx : CTransaction) : Checked (LoopState ctx.C) := do
  let v1 ← checkLocks b tx st.view
  let (cost, v2) ← liftFault (getTransactionSigOpCost tx v1 b.flags)
  dosIf (maxBlockSigopsCost < st.nSigOpsCost + cost) 100 .invalid "bad-blk-sigops" false
  let st' ← checkFeeAndInputs ctx b { st with view := v2, nSigOpsCost := st.nSigOpsCost + cost } tx
  let (undo, v3) ← liftFault (updateCoins ctx.H tx st'.view b.pindex.nHeight)
  .ok { st' with
    view := v3
    hasContract := st'.hasContract || tx.hasCreateOrCall
    vtxundo := st'.vtxundo ++ [undo] }

/-! ## The whole block -/

/-- The settings `ConnectBlock` derives for a block. -/
def blockSettings (fJustCheck : Bool) (pindex : CBlockIndex) : BlockSettings where
  pindex := pindex
  fJustCheck := fJustCheck
  fScriptChecks := !ctx.assumedValid pindex
  flags := getBlockScriptFlags pindex ctx.params
  nLockTimeFlags :=
    if ctx.params.versionBitsActive pindex.pprev .csv then locktimeVerifySequence else 0

/-- The BIP30 test, where it is enforced. -/
def checkBIP30 (prev : CBlockIndex) (vtx : List CTransaction) (view : CCoinsViewCache) :
    Checked CCoinsViewCache :=
  if enforceBIP30 ctx.params b.pindex prev then
    checkOverwrites (vtx.flatMap (createdOutpoints ctx.H)) view
  else .ok view

/-- The BIP30 test and the loop over the transactions. -/
def connectTxs (prev : CBlockIndex) (vtx : List CTransaction) (view : CCoinsViewCache)
    (cache : ctx.C.State) : Checked (LoopState ctx.C) := do
  let v ← checkBIP30 ctx b prev vtx view
  vtx.foldlM (connectTx ctx b) ⟨v, cache, 0, 0, false, [], []⟩

/-- `CheckContractRefundFee`; the comparison in the source stands behind the `return`. -/
def checkContractRefundFee (_block : CBlock) (_vRefundGasFee : List CTxOut) : Bool := true

/-- `pState->setRoot(oldHashStateRoot); return state.DoS(…);` -/
def rejectAndRestore (L : ContractLayer) (old : Uint256) (reason : String) :
    EStateM Stop L.State Unit := do
  mapError Stop.fault (L.setRoot old)
  throw (.reject (.dos 100 .invalid reason true))

/-- `CheckContractTx`. -/
def checkContractTx (H : Hashes) (L : ContractLayer) (block : CBlock) (hasContract : Bool) :
    EStateM Stop L.State Unit :=
  if !hasContract then pure ()
  else do
    let oldHashStateRoot ← mapError Stop.fault L.rootHash
    let (ok, vRefundGasFee) ← mapError Stop.fault
      (L.getBlockContract { block with fChecked := false })
    if !ok then
      rejectAndRestore L oldHashStateRoot "bad-contract when connecting block"
    else if !checkContractRefundFee block vRefundGasFee then
      rejectAndRestore L oldHashStateRoot "bad-contract-refund when connecting block"
    else do
      let root ← mapError Stop.fault L.rootHash
      if block.hashStateRoot ≠ root then
        rejectAndRestore L oldHashStateRoot "bad-txnstateroot when connecting block"
      else if H.getHash { block with fChecked := false } ≠ H.getHash block then
        rejectAndRestore L oldHashStateRoot "bad-proofhash when connecting block"
      else pure ()

/-- `ConnectBlock` rejects on top of the rejection of `CheckContractTx`. -/
def contractRejected : Stop → Stop
  | .reject r => .reject { r with
      nDoS := r.nDoS + 100
      chRejectCode := .invalid
      strRejectReason := "block-validation-failed"
      corruptionPossible := false }
  | .fault f => .fault f

/-- `if (!tx.HasCreateOrCall() && !tx.HasOops()) control.Add(vChecks);` -/
def MadeChecks.queued (m : MadeChecks) : Bool := !m.tx.hasCreateOrCall && !m.tx.hasOops

/-- The checks on the queue. -/
def queuedChecks (made : List MadeChecks) : List CScriptCheck :=
  (made.filter MadeChecks.queued).flatMap MadeChecks.checks

/-- The checks that are run: on the spot without threads, from the queue with them. -/
def evaluatedChecks (nScriptCheckThreads : ℕ) (made : List MadeChecks) : List CScriptCheck :=
  if nScriptCheckThreads = 0 then made.flatMap MadeChecks.checks else queuedChecks made

/-- What an accepting `ConnectBlock` leaves. -/
structure Connected (C : ScriptCache) where
  view : CCoinsViewCache
  cache : C.State
  nFees : CAmount
  vtxundo : List (List Coin)
  made : List MadeChecks
  evaluated : List CScriptCheck

/-- The coinbase limit and `control.Wait()`. -/
def checkReward (block : CBlock) (st : LoopState ctx.C) : Checked Unit :=
  match block.vtx with
  | [] => .error (.fault (.undefined .outOfBounds))
  | coinbase :: _ => do
    let cbOut ← liftFault coinbase.getValueOut
    dosIf (toInt64 (st.nFees + getBlockSubsidy b.pindex.nHeight ctx.params) < cbOut) 100 .invalid
      "bad-cb-amount" false
    dosIf (¬ ∀ check ∈ (if ctx.nScriptCheckThreads = 0 then [] else queuedChecks st.made),
      ctx.E.Passes check) 100 .invalid "block-validation-failed" false

/-- The root a header field stands for: the empty trie when it is zero. -/
def stateRootOf (emptyRoot hashStateRoot : Uint256) : Uint256 :=
  if hashStateRoot = null then emptyRoot else hashStateRoot

/-- Writing the undo data and the transaction index. -/
def writeBlockData (pindex : CBlockIndex) : Checked Unit := do
  failIf (ctx.findUndoPosFails pindex) (.reject (.err "out of disk space"))
  failIf (ctx.undoWriteFails pindex) (.reject (.err "Failed to write undo data"))
  failIf (ctx.txIndexFails pindex) (.reject (.err "Failed to write transaction index"))

/-- The part of `ConnectBlock` behind the special case for the genesis block. -/
def connectAfterGenesis (fJustCheck : Bool) (block : CBlock) (pindex prev : CBlockIndex)
    (view : CCoinsViewCache) (cache : ctx.C.State) :
    EStateM Stop ctx.L.State (Connected ctx.C) := do
  let st ← Stateful.liftExcept
    (connectTxs ctx (blockSettings ctx fJustCheck pindex) prev block.vtx view cache)
  Stateful.mapError contractRejected (checkContractTx ctx.H ctx.L block st.hasContract)
  Stateful.liftExcept (checkReward ctx (blockSettings ctx fJustCheck pindex) block st)
  if fJustCheck then
    Stateful.mapError Stop.fault (ctx.L.setRoot (stateRootOf ctx.L.emptyRoot prev.hashStateRoot))
    pure ⟨st.view, st.cache, st.nFees, st.vtxundo.tail, st.made,
      evaluatedChecks ctx.nScriptCheckThreads st.made⟩
  else
    Stateful.liftExcept (writeBlockData ctx pindex)
    pure ⟨st.view.setBestBlock pindex.getBlockHash, st.cache, st.nFees, st.vtxundo.tail, st.made,
      evaluatedChecks ctx.nScriptCheckThreads st.made⟩

/-- The view an accepted block is left with. -/
def finalView (fJustCheck : Bool) (pindex : CBlockIndex) (v : CCoinsViewCache) : CCoinsViewCache :=
  if fJustCheck then v else v.setBestBlock pindex.getBlockHash

/-- `ConnectBlock`. -/
def connectBlock (fJustCheck : Bool) (block : CBlock) (pindex : CBlockIndex)
    (view : CCoinsViewCache) (cache : ctx.C.State) :
    EStateM Stop ctx.L.State (Connected ctx.C) := do
  Stateful.liftExcept (assertThat
    (pindex.phashBlock = none ∨ pindex.phashBlock = some (ctx.H.getHash block)))
  let _ ← Stateful.liftExcept (checkBlock ctx.H block (!fJustCheck) (!fJustCheck))
  Stateful.liftExcept (assertThat
    ((pindex.pprev.map CBlockIndex.getBlockHash).getD null = view.getBestBlock))
  if ctx.H.getHash block = ctx.params.hashGenesisBlock then
    pure ⟨finalView fJustCheck pindex view, cache, 0, [], [], []⟩
  else
    match pindex.pprev with
    | none => throw (.fault (.undefined .nullPointer))
    | some prev => connectAfterGenesis ctx fJustCheck block pindex prev view cache

/-! ## A small network

Concrete parameters on which the definitions can be run: transaction ids read off the version field,
no active deployments, a contract state that is just its root, one block on top of genesis. -/

/-- Hash functions that tell transactions apart by their version and blocks by their height. -/
def Hashes.small : Hashes where
  txid tx := BitVec.ofInt 256 tx.nVersion
  wtxid tx := BitVec.ofInt 256 tx.nVersion
  blockHash h := BitVec.ofNat 256 (h.nHeight + 1000)
  computeMerkleRoot _ := (null, false)
  hashWithNonce _ _ := []
  scriptCacheKey w flags := w + BitVec.ofNat 256 flags

/-- A script execution cache that never forgets. -/
def ScriptCache.list : ScriptCache where
  State := List Uint256
  contains s k := s.contains k
  insert s k := k :: s
  markErase s _ := s
  contains_markErase _ _ _ := rfl

/-- A contract state in which no contract does anything. -/
def ContractLayer.idle : ContractLayer where
  State := Uint256
  emptyRoot := 0x56#256
  rootHash s := .ok s s
  setRoot r _ := .ok () r
  getBlockContract _ s := .ok (true, []) s

/-- The regression-test parameters, without deployments. -/
def ConsensusParams.regtest : ConsensusParams where
  hashGenesisBlock := 1000#256
  nSubsidyHalvingInterval := 150
  bip34Height := 100000000
  bip34Hash := null
  bip65Height := 1351
  bip66Height := 1251
  fRegTest := true
  versionBitsActive _ _ := false

def genesisEntry : IndexEntry := ⟨1000#256, 0, 1600000000, null⟩

/-- The surroundings, given the number of threads and what scripts do. -/
def ChainContext.small (threads : ℕ) (E : ScriptEngine) : ChainContext where
  H := Hashes.small
  params := ConsensusParams.regtest
  E := E
  C := ScriptCache.list
  L := ContractLayer.idle
  nScriptCheckThreads := threads
  mapBlockIndex h := if h = 1000#256 then some (genesisEntry.toIndex []) else none
  assumedValid _ := false
  findUndoPosFails _ := false
  undoWriteFails _ := false
  txIndexFails _ := false

/-- The index entry of the block on top of genesis. -/
def smallIndex : CBlockIndex := ⟨some 1001#256, 1, 1600000010, null, [genesisEntry]⟩

def smallCoinbase : CTransaction :=
  ⟨1, [⟨⟨null, 0xffffffff⟩, [0x51, 0x51], sequenceFinal, []⟩], [⟨8 * coin, [OP_1]⟩], 0⟩

/-- A transaction with the given inputs and one output. -/
def smallSpend (prevouts : List COutPoint) (out : CTxOut) : CTransaction :=
  ⟨2, prevouts.map fun o => ⟨o, [], sequenceFinal, []⟩, [out], 0⟩

def smallBlock (txs : List CTransaction) : CBlock :=
  { nVersion := 4, hashPrevBlock := 1000#256, hashMerkleRoot := null,
    hashStateRoot := null, nTime := 1600000010, nBits := 0, nHeight := 1,
    vtx := smallCoinbase :: txs, fChecked := false }

/-- The one outpoint with a coin, worth ten coins. -/
def smallOutpoint : COutPoint := ⟨99#256, 5⟩

def smallView : CCoinsViewCache :=
  ofBase (Finmap.singleton smallOutpoint ⟨⟨10 * coin, [OP_1]⟩, false, 0⟩) 1000#256

end Ybtc
