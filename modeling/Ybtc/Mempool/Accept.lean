import Ybtc.Mempool.Pool
import Ybtc.Validation.ConnectBlock

/-!
# Admission to the memory pool

`AcceptToMemoryPoolWorker`, check by check in the order of the source.  The only check that is
about contracts is `CheckSenderScript`: it looks at the script of the coin the first input spends.

The coins the worker works on are those of the inputs, looked up in the pool first and then in the
UTXO set of the tip.
-/

namespace Ybtc

open Fallible CCoinsViewCache

/-- `STANDARD_SCRIPT_VERIFY_FLAGS`. -/
def standardScriptVerifyFlags : ℕ := 0xffdf

/-- `MANDATORY_SCRIPT_VERIFY_FLAGS`. -/
def mandatoryScriptVerifyFlags : ℕ := 1

/-- `SCRIPT_VERIFY_CLEANSTACK`. -/
def scriptVerifyCleanStack : ℕ := 2 ^ 8

/-- `STANDARD_LOCKTIME_VERIFY_FLAGS`. -/
def standardLocktimeVerifyFlags : ℕ := 3

/-- `MAX_STANDARD_TX_SIGOPS_COST`. -/
def maxStandardTxSigopsCost : ℕ := maxBlockSigopsCost / 5

/-- `MAX_BIP125_RBF_SEQUENCE`. -/
def maxBip125RbfSequence : ℕ := 0xfffffffd

/-- `MEMPOOL_HEIGHT`. -/
def mempoolHeight : ℕ := 0x7fffffff

/-- What `AcceptToMemoryPoolWorker` reads besides the transaction and the pool.  Standardness, the
    rolling minimum fee and the trimming of a full pool are parameters. -/
structure AcceptContext where
  H : Hashes
  params : ConsensusParams
  E : ScriptEngine
  C : ScriptCache
  /-- `chainActive.Tip()`. -/
  tip : CBlockIndex
  /-- `pcoinsTip`. -/
  pcoinsTip : CCoinsViewCache
  fRequireStandard : Bool
  /-- `-prematurewitness`. -/
  prematureWitness : Bool
  fEnableReplacement : Bool
  /-- `IsStandardTx`: the reason, if the transaction is not. -/
  isStandardTx : CTransaction → Bool → Option String
  areInputsStandard : CTransaction → CCoinsViewCache → Bool
  isWitnessStandard : CTransaction → CCoinsViewCache → Bool
  /-- `GetMinFee`. -/
  getMinFee : CTxMemPool → CFeeRate
  minRelayTxFee : CFeeRate
  incrementalRelayFee : CFeeRate
  limits : CTxMemPool.AncestorLimits
  /-- `scriptVerifyFlags`, which only a test network may change. -/
  scriptVerifyFlags : ℕ
  /-- `LimitMempoolSize`. -/
  limitMempoolSize : CTxMemPool → CTxMemPool

/-- The remaining arguments. -/
structure AcceptArgs where
  fLimitFree : Bool
  nAcceptTime : ℤ
  fOverrideMempoolLimit : Bool
  nAbsurdFee : CAmount

section Worker

variable (ctx : AcceptContext) (pool : CTxMemPool)

/-! ## Coins of the inputs -/

/-- `CCoinsViewMemPool::GetCoin`. -/
def mempoolCoin (o : COutPoint) : Option Coin :=
  match pool.find o.hash with
  | some e => (e.tx.vout[o.n]?).map fun out => ⟨out, false, mempoolHeight⟩
  | none => ctx.pcoinsTip.coinAt o

/-- One round of `HaveInputs`: a coin that is found is put in. -/
def fetchInput (m : CoinMap) (o : COutPoint) : CoinMap :=
  match mempoolCoin ctx pool o with
  | some c => m.insert o c
  | none => m

variable (tx : CTransaction)

/-- The coins found for the inputs. -/
def inputCoins : CoinMap := tx.prevouts.foldl (fetchInput ctx pool) ∅

/-- The view with all inputs fetched. -/
def inputsView : CCoinsViewCache :=
  ofBase (inputCoins ctx pool tx) ctx.pcoinsTip.getBestBlock

/-- `CheckSenderScript`; every caller has checked that there is an input. -/
def checkSenderScript (view : CCoinsViewCache) (tx : CTransaction) : Bool :=
  match tx.vin with
  | [] => false
  | txin :: _ =>
    let script := (view.accessCoin txin.prevout).1.out.scriptPubKey
    isPayToPubkeyHash script || isPayToPubkey script

/-! ## Conflicts -/

/-- The pool transaction spending an outpoint may be replaced. -/
def replaceable (hash : Uint256) : Bool :=
  ctx.fEnableReplacement && (match pool.find hash with
    | some e => e.tx.vin.any fun txin => decide (txin.nSequence ≤ maxBip125RbfSequence)
    | none => false)

/-- The loop that collects `setConflicts`. -/
def collectConflicts : List CTxIn → List Uint256 → Checked (List Uint256)
  | [], setConflicts => .ok setConflicts
  | txin :: vin, setConflicts =>
    match pool.mapNextTx txin.prevout with
    | none => collectConflicts vin setConflicts
    | some hash =>
      if setConflicts.contains hash then collectConflicts vin setConflicts
      else do
        invalidIf (replaceable ctx pool hash = false) .duplicate "txn-mempool-conflict"
        collectConflicts vin (hash :: setConflicts)

/-- The entries of `setConflicts` that are in the pool. -/
def conflictEntries (setConflicts : List Uint256) : List CTxMemPoolEntry :=
  setConflicts.filterMap pool.find

/-- The rules for a replacement; the result is `allConflicting`. -/
def checkReplacement (nModifiedFees : CAmount) (nSize : ℕ)
    (setConflicts : List Uint256) : Checked (List Uint256) := do
  let entries := conflictEntries pool setConflicts
  dosIf (∃ mi ∈ entries, (CFeeRate.ofFee nModifiedFees nSize).nSatoshisPerK
      ≤ (CFeeRate.ofFee mi.getModifiedFee mi.getTxSize).nSatoshisPerK) 0 .insufficientFee
    "insufficient fee" false
  dosIf (100 < (entries.map CTxMemPoolEntry.nCountWithDescendants).sum) 0 .nonstandard
    "too many potential replacements" false
  let allConflicting ← liftFault
    (entries.foldlM (fun all mi => pool.calculateDescendants mi.hash all) [])
  let conflicting ← liftFault (allConflicting.mapM pool.deref)
  let setConflictsParents := entries.flatMap fun mi => mi.tx.prevouts.map COutPoint.hash
  dosIf (∃ txin ∈ tx.vin, txin.prevout.hash ∉ setConflictsParents ∧
      pool.contains txin.prevout.hash = true) 0 .nonstandard "replacement-adds-unconfirmed" false
  dosIf (nModifiedFees < (conflicting.map CTxMemPoolEntry.getModifiedFee).sum) 0 .insufficientFee
    "insufficient fee" false
  dosIf (nModifiedFees - (conflicting.map CTxMemPoolEntry.getModifiedFee).sum
      < ctx.incrementalRelayFee.getFee nSize) 0 .insufficientFee "insufficient fee" false
  .ok allConflicting

/-- The replacement rules apply when there is a conflict. -/
def checkConflicts (nModifiedFees : CAmount) (nSize : ℕ)
    (setConflicts : List Uint256) : Checked (List Uint256) :=
  if setConflicts = [] then .ok []
  else checkReplacement ctx pool tx nModifiedFees nSize setConflicts

/-! ## Script checks -/

/-- `CheckInputs` with everything checked on the spot. -/
def checkInputsNow (view : CCoinsViewCache) (flags : ℕ)
    (cacheFullScriptStore : Bool) (cache : ctx.C.State) : Checked (CheckedInputs ctx.C) :=
  checkInputs ctx.H ctx.E ctx.C tx view (ctx.tip.nHeight + 1) true flags true cacheFullScriptStore
    cache false

/-- A rejection that may be due to a missing witness is marked as possible corruption. -/
def markWitnessMissing (view : CCoinsViewCache) (cache : ctx.C.State) :
    Stop → Stop
  | .reject r =>
    let without := clearFlags ctx.scriptVerifyFlags (scriptVerifyWitness ||| scriptVerifyCleanStack)
    let unclean := clearFlags ctx.scriptVerifyFlags scriptVerifyCleanStack
    let missing := !tx.hasWitness
      && (checkInputsNow ctx tx view without false cache).isOk
      && !(checkInputsNow ctx tx view unclean false cache).isOk
    .reject { r with corruptionPossible := r.corruptionPossible || missing }
  | stop => stop

/-- The comparison of one input's coin with the pool or the UTXO set. -/
def crossCheckInput (view : CCoinsViewCache) (txin : CTxIn) : Checked Bool :=
  let coin := (view.accessCoin txin.prevout).1
  if coin.isSpent then .ok false
  else
    match pool.find txin.prevout.hash with
    | some txFrom => do
      assertThat (txFrom.hash = txin.prevout.hash)
      assertThat (txFrom.tx.vout[txin.prevout.n]? = some coin.out)
      .ok true
    | none => do
      assertThat ((ctx.pcoinsTip.coinAt txin.prevout).map Coin.out = some coin.out)
      .ok true

/-- The loop of `CheckInputsFromMempoolAndCache`. -/
def crossCheckLoop (view : CCoinsViewCache) : List CTxIn → Checked Bool
  | [] => .ok true
  | txin :: vin => do
    let ok ← crossCheckInput ctx pool view txin
    if ok then crossCheckLoop view vin else .ok false

/-- The check against the flags of the next block, `CheckInputsFromMempoolAndCache`, which also
    fills the script execution cache.  A failure under other flags than the standard ones is looked
    at again; the result is the new cache, or `none` for `return false`. -/
def checkNextBlockFlags (view : CCoinsViewCache) (cache : ctx.C.State) :
    Checked (Option ctx.C.State) := do
  let flags := getBlockScriptFlags ctx.tip ctx.params
  let same ← crossCheckLoop ctx pool view tx.vin
  match if same then checkInputsNow ctx tx view flags true cache
      else .error (.reject (.err "Missing input")) with
  | .ok checked => .ok (some checked.cache)
  | .error (.fault f) => .error (.fault f)
  | .error (.reject _) =>
    if clearFlags flags ctx.scriptVerifyFlags = 0 then .ok none
    else
      match checkInputsNow ctx tx view mandatoryScriptVerifyFlags false cache with
      | .ok checked => .ok (some checked.cache)
      | .error (.fault f) => .error (.fault f)
      | .error (.reject _) => .ok none

/-! ## The worker -/

/-- The heights `CheckSequenceLocks` assumes for the inputs. -/
def prevHeights (view : CCoinsViewCache) (tx : CTransaction) : List ℕ :=
  tx.vin.map fun txin =>
    let coin := (view.accessCoin txin.prevout).1
    if coin.nHeight = mempoolHeight then ctx.tip.nHeight + 1 else coin.nHeight

/-- The index entry of a block on top of the tip. -/
def nextIndex : CBlockIndex :=
  ⟨none, ctx.tip.nHeight + 1, 0, Uint256.null,
    ⟨ctx.tip.getBlockHash, ctx.tip.nHeight, ctx.tip.nTime, ctx.tip.hashStateRoot⟩
      :: ctx.tip.ancestors⟩

/-- The `LockPoints` `CheckSequenceLocks` fills in. -/
def lockPointsOf (view : CCoinsViewCache) (tx : CTransaction) : Except Fault LockPoints := do
  let heights := prevHeights ctx view tx
  let locks ← calculateSequenceLocks tx standardLocktimeVerifyFlags heights (nextIndex ctx)
  let maxInputHeight := (heights.filter (· ≠ ctx.tip.nHeight + 1)).foldl max 0
  .ok ⟨locks.1, locks.2, (ctx.tip.getAncestor maxInputHeight).map CBlockIndex.getBlockHash⟩

/-- The checks that need no coins. -/
def checkLoose : Checked (List Uint256) := do
  checkTransaction tx true
  dosIf (tx.isCoinBase = true) 100 .invalid "coinbase" false
  dosIf (ctx.prematureWitness = false ∧ tx.hasWitness = true ∧
    ctx.params.versionBitsActive (some ctx.tip) .segwit = false) 0 .nonstandard
      "no-witness-yet" true
  dosIf (ctx.fRequireStandard = true ∧
      (ctx.isStandardTx tx (ctx.params.versionBitsActive (some ctx.tip) .segwit)).isSome = true)
    0 .nonstandard
    ((ctx.isStandardTx tx (ctx.params.versionBitsActive (some ctx.tip) .segwit)).getD "") false
  dosIf (isFinalTx tx (ctx.tip.nHeight + 1) ctx.tip.getMedianTimePast = false) 0 .nonstandard
    "non-final" false
  invalidIf (pool.contains (ctx.H.txid tx) = true) .duplicate "txn-already-in-mempool"
  collectConflicts ctx pool tx.vin []

/-- The outputs of the transaction are known although an input is missing. -/
def alreadyKnown : Bool :=
  (List.range tx.vout.length).any fun i =>
    ((ctx.pcoinsTip.cacheCoins.lookup ⟨ctx.H.txid tx, i⟩).map fun e => !e.coin.isSpent).getD false

/-- What the part of the worker between the coins and the pool has found out. -/
structure Admission where
  entry : CTxMemPoolEntry
  setAncestors : List Uint256
  allConflicting : List Uint256

variable (args : AcceptArgs)

/-- The checks on a transaction all of whose inputs exist. -/
def checkWithCoins (tx : CTransaction) (setConflicts : List Uint256)
    (view : CCoinsViewCache) : Checked Admission := do
  let final ← liftFault (sequenceLocks tx standardLocktimeVerifyFlags (prevHeights ctx view tx)
    (nextIndex ctx))
  let lp ← liftFault (lockPointsOf ctx view tx)
  dosIf (final = false) 0 .nonstandard "non-BIP68-final" false
  invalidIf (ctx.fRequireStandard = true ∧ ctx.areInputsStandard tx view = false) .nonstandard
    "bad-txns-nonstandard-inputs"
  dosIf (tx.hasWitness = true ∧ ctx.fRequireStandard = true ∧
    ctx.isWitnessStandard tx view = false) 0 .nonstandard "bad-witness-nonstandard" true
  let (nSigOpsCost, _) ← liftFault (getTransactionSigOpCost tx view standardScriptVerifyFlags)
  let nValueOut ← liftFault tx.getValueOut
  dosIf (tx.hasCreateOrCall = true ∧ checkSenderScript view tx = false) 1 .invalid
    "bad-txns-invalid-sender-script" false
  let nFees := (view.getValueIn tx).1 - nValueOut
  let nModifiedFees := nFees + pool.mapDeltas (ctx.H.txid tx)
  let fSpendsCoinbase := tx.vin.any fun txin => (view.accessCoin txin.prevout).1.fCoinBase
  let entry := CTxMemPoolEntry.new ctx.H tx nFees args.nAcceptTime ctx.tip.nHeight fSpendsCoinbase
    nSigOpsCost lp
  dosIf (maxStandardTxSigopsCost < nSigOpsCost) 0 .nonstandard "bad-txns-too-many-sigops" false
  dosIf (0 < (ctx.getMinFee pool).getFee entry.getTxSize ∧
    nModifiedFees < (ctx.getMinFee pool).getFee entry.getTxSize) 0 .insufficientFee
    "mempool min fee not met" false
  dosIf (args.fLimitFree = true ∧ nModifiedFees < ctx.minRelayTxFee.getFee entry.getTxSize) 0
    .insufficientFee "min relay fee not met" false
  invalidIf (args.nAbsurdFee ≠ 0 ∧ args.nAbsurdFee < nFees ∧ tx.hasCreateOrCall = false ∧
    tx.hasOops = false) .highFee "absurdly-high-fee"
  let ancestors ← liftFault (pool.calculateMemPoolAncestors (some ctx.limits) entry true)
  dosIf (ancestors = none) 0 .nonstandard "too-long-mempool-chain" false
  dosIf ((ancestors.getD []).any setConflicts.contains = true) 10 .invalid
    "bad-txns-spends-conflicting-tx" false
  let allConflicting ← checkConflicts ctx pool tx nModifiedFees entry.getTxSize setConflicts
  .ok ⟨entry, ancestors.getD [], allConflicting⟩

/-- What the worker changes: the pool, and the script execution cache. -/
structure PoolState (C : ScriptCache) where
  pool : CTxMemPool
  cache : C.State

/-- Trimming, and the test whether the new transaction has survived it. -/
def limitAfterAdd (hash : Uint256) :
    EStateM Stop (PoolState ctx.C) Bool := fun st =>
  if args.fOverrideMempoolLimit then .ok true st
  else
    let st' : PoolState ctx.C := { st with pool := ctx.limitMempoolSize st.pool }
    if st'.pool.contains hash then .ok true st'
    else .error (.reject (.dos 0 .insufficientFee "mempool full" false)) st'

/-- The pool after a replacement. -/
def admitEntry (adm : Admission) : Except Fault CTxMemPool := do
  let removed ← pool.removeStaged adm.allConflicting false
  removed.addUnchecked adm.entry adm.setAncestors

/-- The script checks, and the admission itself. -/
def checkScriptsAndAdmit (tx : CTransaction) (view : CCoinsViewCache)
    (adm : Admission) : EStateM Stop (PoolState ctx.C) Bool := fun st =>
  match checkInputsNow ctx tx view ctx.scriptVerifyFlags false st.cache with
  | .error stop => .error (markWitnessMissing ctx tx view st.cache stop) st
  | .ok checked =>
    match checkNextBlockFlags ctx st.pool tx view checked.cache with
    | .error stop => .error stop { st with cache := checked.cache }
    | .ok none => .ok false { st with cache := checked.cache }
    | .ok (some cache) =>
      match admitEntry st.pool adm with
      | .error f => .error (.fault f) { st with cache := cache }
      | .ok pool' => limitAfterAdd ctx args (ctx.H.txid tx) ⟨pool', cache⟩

/-- The part of the worker that works on the coins of the inputs. -/
def acceptWithView (tx : CTransaction) (setConflicts : List Uint256)
    (view : CCoinsViewCache) : EStateM Stop (PoolState ctx.C) Bool := fun st =>
  if tx.prevouts.all fun o => (view.haveCoin o).1 then
    match checkWithCoins ctx st.pool args tx setConflicts view with
    | .error stop => .error stop st
    | .ok adm => checkScriptsAndAdmit ctx args tx view adm st
  else if alreadyKnown ctx tx then .error (.reject (.inval .duplicate "txn-already-known")) st
  else .ok false st

/-- **`AcceptToMemoryPoolWorker`.**  `none` is a `return false` that leaves no rejection behind:
    missing inputs, and script checks that fail for the flags of the next block. -/
def acceptToMemoryPoolWorker (tx : CTransaction) :
    EStateM Stop (PoolState ctx.C) Bool := fun st =>
  match checkLoose ctx st.pool tx with
  | .error stop => .error stop st
  | .ok setConflicts =>
    acceptWithView ctx args tx setConflicts (inputsView ctx st.pool tx) st

end Worker

/-! ## What an accepted transaction has passed -/

section Accepted

variable {ctx : AcceptContext} {args : AcceptArgs} {tx : CTransaction} {setConflicts : List Uint256}
  {pool : CTxMemPool}

lemma checkLoose_ok (h : checkLoose ctx pool tx = .ok setConflicts) :
    checkTransaction tx true = .ok () ∧ tx.isCoinBase = false := by
  simp only [checkLoose, bind_ok, exists_const, dosIf_ok] at h
  obtain ⟨_, hct, hcb, _⟩ := h
  exact ⟨hct, by simpa using hcb⟩

lemma checkWithCoins_ok {view : CCoinsViewCache}
    {adm : Admission} (h : checkWithCoins ctx pool args tx setConflicts view = .ok adm) :
    tx.hasCreateOrCall = true → checkSenderScript view tx = true := by
  simp only [checkWithCoins, bind_ok, exists_const, dosIf_ok, invalidIf_ok, Prod.exists,
    Except.ok.injEq] at h
  obtain ⟨_, _, lp, _, _, _, _, n, _, _, _, _, hsender, _⟩ := h
  intro hc
  simpa [hc] using hsender

/-- **What acceptance establishes.** -/
structure Accepted (ctx : AcceptContext) (pool : CTxMemPool) (tx : CTransaction) : Prop where
  checked : checkTransaction tx true = .ok ()
  notCoinBase : tx.isCoinBase = false
  inputs : ∀ o ∈ tx.prevouts, ((inputsView ctx pool tx).haveCoin o).1 = true
  sender : tx.hasCreateOrCall = true → checkSenderScript (inputsView ctx pool tx) tx = true

/-- What an accepted transaction has passed. -/
theorem acceptToMemoryPoolWorker_ok {st st' : PoolState ctx.C}
    (h : acceptToMemoryPoolWorker ctx args tx st = .ok true st') : Accepted ctx st.pool tx := by
  unfold acceptToMemoryPoolWorker at h
  cases hl : checkLoose ctx st.pool tx with
  | error stop => rw [hl] at h; cases h
  | ok setConflicts =>
    obtain ⟨hct, hcb⟩ := checkLoose_ok hl
    simp only [hl, acceptWithView] at h
    split_ifs at h with hin hk
    · cases hc : checkWithCoins ctx st.pool args tx setConflicts (inputsView ctx st.pool tx) with
      | error stop => rw [hc] at h; cases h
      | ok adm => exact ⟨hct, hcb, List.all_eq_true.mp hin, checkWithCoins_ok hc⟩
    · cases h

end Accepted

end Ybtc
