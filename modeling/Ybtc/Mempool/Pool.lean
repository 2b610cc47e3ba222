import Ybtc.Consensus.TxVerify

/-!
# The memory pool

`CTxMemPool` as far as admission and block assembly use it: the entries with their cached totals
over ancestors and descendants, the links between them, and the walks along the links.

Sets of entries are lists of transaction ids without repetition.  The source iterates its sets in
the order of the ids; nothing in this file depends on that order.
-/

namespace Ybtc

open Function

/-! ## Fee rates and sizes -/

/-- `CFeeRate`, in satoshis per 1000 bytes. -/
structure CFeeRate where
  nSatoshisPerK : CAmount
deriving Repr, DecidableEq

namespace CFeeRate

/-- `CFeeRate::CFeeRate(nFeePaid, nBytes)`. -/
def ofFee (nFeePaid : CAmount) (nBytes : ℕ) : CFeeRate :=
  ⟨if 0 < nBytes then (nFeePaid * 1000).tdiv nBytes else 0⟩

/-- `CFeeRate::GetFee`. -/
def getFee (r : CFeeRate) (nBytes : ℕ) : CAmount :=
  let nFee := (r.nSatoshisPerK * nBytes).tdiv 1000
  if nFee = 0 ∧ nBytes ≠ 0 then
    if 0 < r.nSatoshisPerK then 1 else if r.nSatoshisPerK < 0 then -1 else nFee
  else nFee

end CFeeRate

/-- The default of `-bytespersigop`. -/
def bytesPerSigOp : ℕ := 20

/-- `GetTransactionWeight`. -/
def getTransactionWeight (tx : CTransaction) : ℕ :=
  tx.sizeNoWitness * (witnessScaleFactor - 1) + tx.totalSize

/-- `GetVirtualTransactionSize`. -/
def getVirtualTransactionSize (nWeight nSigOpCost : ℕ) : ℕ :=
  (max nWeight (nSigOpCost * bytesPerSigOp) + witnessScaleFactor - 1) / witnessScaleFactor

/-! ## Entries -/

/-- `LockPoints`. -/
structure LockPoints where
  height : ℤ
  time : ℤ
  maxInputBlock : Option Uint256
deriving Repr, DecidableEq

/-- `CTxMemPoolEntry`; `hash` is the id the transaction carries. -/
structure CTxMemPoolEntry where
  hash : Uint256
  tx : CTransaction
  nFee : CAmount
  nTime : ℤ
  entryHeight : ℕ
  spendsCoinbase : Bool
  sigOpCost : ℕ
  lockPoints : LockPoints
  feeDelta : CAmount
  nCountWithDescendants : ℤ
  nSizeWithDescendants : ℤ
  nModFeesWithDescendants : CAmount
  nCountWithAncestors : ℤ
  nSizeWithAncestors : ℤ
  nModFeesWithAncestors : CAmount
  nSigOpCostWithAncestors : ℤ
deriving Repr, DecidableEq

namespace CTxMemPoolEntry

variable (e : CTxMemPoolEntry)

/-- `GetTxWeight`. -/
def getTxWeight : ℕ := getTransactionWeight e.tx

/-- `GetTxSize`. -/
def getTxSize : ℕ := getVirtualTransactionSize e.getTxWeight e.sigOpCost

/-- `GetModifiedFee`. -/
def getModifiedFee : CAmount := e.nFee + e.feeDelta

/-- The constructor. -/
def new (H : Hashes) (tx : CTransaction) (nFee : CAmount) (nTime : ℤ) (entryHeight : ℕ)
    (spendsCoinbase : Bool) (sigOpCost : ℕ) (lp : LockPoints) : CTxMemPoolEntry :=
  let nSize := getVirtualTransactionSize (getTransactionWeight tx) sigOpCost
  ⟨H.txid tx, tx, nFee, nTime, entryHeight, spendsCoinbase, sigOpCost, lp, 0,
    1, nSize, nFee, 1, nSize, nFee, sigOpCost⟩

/-- `UpdateFeeDelta`. -/
def updateFeeDelta (newFeeDelta : CAmount) : CTxMemPoolEntry :=
  { e with
    nModFeesWithDescendants := e.nModFeesWithDescendants + (newFeeDelta - e.feeDelta)
    nModFeesWithAncestors := e.nModFeesWithAncestors + (newFeeDelta - e.feeDelta)
    feeDelta := newFeeDelta }

/-- `UpdateDescendantState`, with its assertions. -/
def updateDescendantState (modifySize : ℤ) (modifyFee : CAmount) (modifyCount : ℤ)
    (e : CTxMemPoolEntry) : Except Fault CTxMemPoolEntry :=
  if e.nSizeWithDescendants + modifySize ≤ 0 ∨ e.nCountWithDescendants + modifyCount ≤ 0 then
    .error .assertion
  else .ok { e with
    nSizeWithDescendants := e.nSizeWithDescendants + modifySize
    nModFeesWithDescendants := e.nModFeesWithDescendants + modifyFee
    nCountWithDescendants := e.nCountWithDescendants + modifyCount }

/-- `UpdateAncestorState`, with its assertions. -/
def updateAncestorState (modifySize : ℤ) (modifyFee : CAmount) (modifyCount modifySigOps : ℤ)
    (e : CTxMemPoolEntry) : Except Fault CTxMemPoolEntry :=
  if e.nSizeWithAncestors + modifySize ≤ 0 ∨ e.nCountWithAncestors + modifyCount ≤ 0 ∨
      e.nSigOpCostWithAncestors + modifySigOps < 0 then .error .assertion
  else .ok { e with
    nSizeWithAncestors := e.nSizeWithAncestors + modifySize
    nModFeesWithAncestors := e.nModFeesWithAncestors + modifyFee
    nCountWithAncestors := e.nCountWithAncestors + modifyCount
    nSigOpCostWithAncestors := e.nSigOpCostWithAncestors + modifySigOps }

end CTxMemPoolEntry

/-! ## The pool -/

/-- `TxLinks`: the parents and children of an entry that are in the pool. -/
structure TxLinks where
  parents : List Uint256
  children : List Uint256
deriving Repr, DecidableEq

/-- `CTxMemPool`. -/
structure CTxMemPool where
  mapTx : List CTxMemPoolEntry
  mapLinks : Uint256 → TxLinks
  mapNextTx : COutPoint → Option Uint256
  mapDeltas : Uint256 → CAmount

namespace CTxMemPool

variable (pool : CTxMemPool)

def empty : CTxMemPool := ⟨[], fun _ => ⟨[], []⟩, fun _ => none, fun _ => 0⟩

variable (hash : Uint256)

/-- `mapTx.find(hash)`. -/
def find : Option CTxMemPoolEntry := pool.mapTx.find? (·.hash == hash)

/-- `exists(hash)`. -/
def contains : Bool := (pool.find hash).isSome

/-- An iterator is only used while its entry is in the pool. -/
def deref : Except Fault CTxMemPoolEntry :=
  match pool.find hash with
  | some e => .ok e
  | none => .error (.undefined .outOfBounds)

def getMemPoolParents : List Uint256 := (pool.mapLinks hash).parents

def getMemPoolChildren : List Uint256 := (pool.mapLinks hash).children

/-! ### Walks -/

/-- The limits of `CalculateMemPoolAncestors`. -/
structure AncestorLimits where
  limitAncestorCount : ℕ
  limitAncestorSize : ℕ
  limitDescendantCount : ℕ
  limitDescendantSize : ℕ

/-- The stage after the parents of an entry have been added, or `none` when there are too many. -/
def addParents (limit : Option AncestorLimits) (setAncestors : List Uint256) :
    List Uint256 → List Uint256 → Option (List Uint256)
  | [], stage => some stage
  | phash :: parents, stage =>
    let stage' := if setAncestors.contains phash then stage else stage.insert phash
    if (limit.map fun l => decide (l.limitAncestorCount
        < stage'.length + setAncestors.length + 1)).getD false then none
    else addParents limit setAncestors parents stage'

/-- Whether one of the limits is exceeded at an ancestor. -/
def exceeds (limit : Option AncestorLimits) (entry e : CTxMemPoolEntry) (total : ℕ) : Bool :=
  match limit with
  | none => false
  | some l =>
    decide ((l.limitDescendantSize : ℤ) < e.nSizeWithDescendants + entry.getTxSize)
      || decide ((l.limitDescendantCount : ℤ) < e.nCountWithDescendants + 1)
      || decide (l.limitAncestorSize < total)

/-- The loop of `CalculateMemPoolAncestors`; `none` is `return false`. -/
def ancestorLoop (limit : Option AncestorLimits) (entry : CTxMemPoolEntry) :
    ℕ → ℕ → List Uint256 → List Uint256 → Except Fault (Option (List Uint256))
  | _, _, setAncestors, [] => .ok (some setAncestors)
  | 0, _, _, _ :: _ => .error .diverged
  | fuel + 1, total, setAncestors, stageit :: stage => do
    let e ← pool.deref stageit
    if exceeds limit entry e (total + e.getTxSize) then .ok none
    else
      match addParents limit (stageit :: setAncestors) (pool.getMemPoolParents stageit) stage with
      | none => .ok none
      | some stage' =>
        ancestorLoop limit entry fuel (total + e.getTxSize) (stageit :: setAncestors) stage'

/-- The parents of a transaction that is not in the pool yet. -/
def searchParents (limit : Option AncestorLimits) :
    List CTxIn → List Uint256 → Option (List Uint256)
  | [], parentHashes => some parentHashes
  | txin :: vin, parentHashes =>
    if !pool.contains txin.prevout.hash then searchParents limit vin parentHashes
    else
      let parentHashes' := parentHashes.insert txin.prevout.hash
      if (limit.map fun l => decide (l.limitAncestorCount < parentHashes'.length + 1)).getD false
      then none
      else searchParents limit vin parentHashes'

/-- `CalculateMemPoolAncestors`; no limits stands for the largest ones. -/
def calculateMemPoolAncestors (limit : Option AncestorLimits) (entry : CTxMemPoolEntry)
    (fSearchForParents : Bool) : Except Fault (Option (List Uint256)) :=
  if fSearchForParents then
    match pool.searchParents limit entry.tx.vin [] with
    | none => .ok none
    | some stage => pool.ancestorLoop limit entry pool.mapTx.length entry.getTxSize [] stage
  else
    pool.ancestorLoop limit entry pool.mapTx.length entry.getTxSize []
      (pool.getMemPoolParents entry.hash)

/-- The loop of `CalculateDescendants`. -/
def descendantLoop : ℕ → List Uint256 → List Uint256 → Except Fault (List Uint256)
  | _, setDescendants, [] => .ok setDescendants
  | 0, _, _ :: _ => .error .diverged
  | fuel + 1, setDescendants, it :: stage =>
    descendantLoop fuel (it :: setDescendants)
      ((pool.getMemPoolChildren it).foldl
        (fun st c => if (it :: setDescendants).contains c then st else st.insert c) stage)

/-- `CalculateDescendants`. -/
def calculateDescendants (entryit : Uint256) (setDescendants : List Uint256) :
    Except Fault (List Uint256) :=
  if setDescendants.contains entryit then .ok setDescendants
  else pool.descendantLoop pool.mapTx.length setDescendants [entryit]

/-! ### Updates -/

/-- `mapTx.modify(it, f)`. -/
def modify (f : CTxMemPoolEntry → Except Fault CTxMemPoolEntry) :
    Except Fault CTxMemPool := do
  let mapTx ← pool.mapTx.mapM fun e => if e.hash = hash then f e else .ok e
  .ok { pool with mapTx := mapTx }

/-- `modify` for each of a set of entries. -/
def modifyAll (hashes : List Uint256) (f : CTxMemPoolEntry → Except Fault CTxMemPoolEntry) :
    Except Fault CTxMemPool :=
  hashes.foldlM (fun p h => p.modify h f) pool

/-- `UpdateChild`. -/
def updateChild (entry child : Uint256) (add : Bool) : CTxMemPool :=
  let links := pool.mapLinks entry
  let children := if add then links.children.insert child else links.children.erase child
  { pool with mapLinks := update pool.mapLinks entry ⟨links.parents, children⟩ }

/-- `UpdateParent`. -/
def updateParent (entry parent : Uint256) (add : Bool) : CTxMemPool :=
  let links := pool.mapLinks entry
  let parents := if add then links.parents.insert parent else links.parents.erase parent
  { pool with mapLinks := update pool.mapLinks entry ⟨parents, links.children⟩ }

/-- `UpdateAncestorsOf`. -/
def updateAncestorsOf (add : Bool) (it : CTxMemPoolEntry) (setAncestors : List Uint256) :
    Except Fault CTxMemPool :=
  let linked := (pool.getMemPoolParents it.hash).foldl
    (fun p parent => p.updateChild parent it.hash add) pool
  let sign : ℤ := if add then 1 else -1
  linked.modifyAll setAncestors
    (CTxMemPoolEntry.updateDescendantState (sign * it.getTxSize) (sign * it.getModifiedFee) sign)

/-- `UpdateEntryForAncestors`. -/
def updateEntryForAncestors (setAncestors : List Uint256) :
    Except Fault CTxMemPool := do
  let ancestors ← setAncestors.mapM pool.deref
  pool.modify hash (CTxMemPoolEntry.updateAncestorState
    (ancestors.map fun a => (a.getTxSize : ℤ)).sum (ancestors.map fun a => a.getModifiedFee).sum
    ancestors.length (ancestors.map fun a => (a.sigOpCost : ℤ)).sum)

/-- The entry, its delta, its spent outpoints and its parents, before the totals. -/
def insertEntry (entry : CTxMemPoolEntry) : CTxMemPool :=
  let newit := if pool.mapDeltas entry.hash = 0 then entry
    else entry.updateFeeDelta (pool.mapDeltas entry.hash)
  let mapNextTx := entry.tx.prevouts.foldl (fun m o => update m o (some entry.hash)) pool.mapNextTx
  let inserted : CTxMemPool := { pool with
    mapTx := pool.mapTx ++ [newit]
    mapLinks := update pool.mapLinks entry.hash ⟨[], []⟩
    mapNextTx := mapNextTx }
  (entry.tx.prevouts.map COutPoint.hash).dedup.foldl
    (fun p phash => if p.contains phash then p.updateParent entry.hash phash true else p) inserted

/-- `addUnchecked(hash, entry, setAncestors, …)`. -/
def addUnchecked (entry : CTxMemPoolEntry) (setAncestors : List Uint256) :
    Except Fault CTxMemPool := do
  let inserted := pool.insertEntry entry
  let newit ← inserted.deref entry.hash
  let updated ← inserted.updateAncestorsOf true newit setAncestors
  updated.updateEntryForAncestors entry.hash setAncestors

/-- `removeUnchecked`. -/
def removeUnchecked (it : CTxMemPoolEntry) : CTxMemPool :=
  { pool with
    mapTx := pool.mapTx.filter fun e => e.hash != it.hash
    mapLinks := update pool.mapLinks it.hash ⟨[], []⟩
    mapNextTx := it.tx.prevouts.foldl (fun m o => update m o none) pool.mapNextTx }

/-- One entry of the ancestor loop of `UpdateForRemoveFromMempool`. -/
def updateAncestorsForRemoval : Except Fault CTxMemPool := do
  let e ← pool.deref hash
  let setAncestors ← pool.calculateMemPoolAncestors none e false
  pool.updateAncestorsOf false e (setAncestors.getD [])

/-- One entry of the descendant loop of `UpdateForRemoveFromMempool`. -/
def updateDescendantsForRemoval : Except Fault CTxMemPool := do
  let e ← pool.deref hash
  let setDescendants ← pool.calculateDescendants hash []
  pool.modifyAll (setDescendants.erase hash) (CTxMemPoolEntry.updateAncestorState
    (-e.getTxSize) (-e.getModifiedFee) (-1) (-e.sigOpCost))

/-- `UpdateForRemoveFromMempool`. -/
def updateForRemoveFromMempool (entriesToRemove : List Uint256) (updateDescendants : Bool) :
    Except Fault CTxMemPool := do
  let p ← if updateDescendants then
      entriesToRemove.foldlM (fun p h => p.updateDescendantsForRemoval h) pool
    else .ok pool
  let p' ← entriesToRemove.foldlM (fun p h => p.updateAncestorsForRemoval h) p
  .ok (entriesToRemove.foldl (fun p h =>
    (p.getMemPoolChildren h).foldl (fun q child => q.updateParent child h false) p) p')

/-- `RemoveStaged`. -/
def removeStaged (stage : List Uint256) (updateDescendants : Bool) : Except Fault CTxMemPool := do
  let p ← pool.updateForRemoveFromMempool stage updateDescendants
  stage.foldlM (fun q h => do
    let e ← q.deref h
    .ok (q.removeUnchecked e)) p

end CTxMemPool

end Ybtc
