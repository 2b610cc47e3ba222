import Ybtc.Coins.Database
import Ybtc.Validation.Disconnect

/-!
# Replaying blocks after a crash

`ReplayBlocks` from `validation.cpp`: when the coins database was left in the middle of a flush, the
blocks of the old branch are rolled back with `DisconnectBlock`, the blocks of the new branch are
rolled forward with `RollforwardBlock`, and the result is flushed.  Neither direction trusts what it
finds: spending a missing coin and overwriting an existing one are both allowed.

At start-up the function runs before the contract state exists (`ContractLayer.absent`).
-/

namespace Ybtc

open Fallible CCoinsViewCache CBlockIndex

/-! ## The block tree -/

/-- The index objects of a list of entries, each with the rest as its predecessors. -/
def indicesOf : List IndexEntry → List CBlockIndex
  | [] => []
  | e :: es => e.toIndex es :: indicesOf es

/-- A block and its predecessors, in the order of `pprev`. -/
def CBlockIndex.chain (p : CBlockIndex) : List CBlockIndex := p :: indicesOf p.ancestors

/-- The loop of `LastCommonAncestor` and the assertion behind it; `none` is the null pointer. -/
def walkTogether : List CBlockIndex → List CBlockIndex → Except Fault (Option CBlockIndex)
  | [], [] => .ok none
  | pa :: as, pb :: bs => if pa = pb then .ok (some pa) else walkTogether as bs
  | [], _ :: _ => .error .assertion
  | _ :: _, [] => .error .assertion

/-- `LastCommonAncestor`. -/
def lastCommonAncestor (pa pb : CBlockIndex) : Except Fault (Option CBlockIndex) :=
  let a := if pb.nHeight < pa.nHeight then pa.getAncestor pb.nHeight else some pa
  let b := if pa.nHeight < pb.nHeight then pb.getAncestor pa.nHeight else some pb
  walkTogether (a.elim [] chain) (b.elim [] chain)

/-- What `ReplayBlocks` reads: the block index, the block files and the undo files. -/
structure ReplayContext where
  H : Hashes
  mapBlockIndex : Uint256 → Option CBlockIndex
  readBlockFromDisk : CBlockIndex → Option CBlock
  files : UndoFiles

variable (ctx : ReplayContext)

/-! ## Rolling forward -/

/-- `AddCoins` with `check = true`, from output `i` on. -/
def addCoinsChecked (txid : Uint256) (fCoinbase : Bool) (nHeight : ℕ) :
    ℕ → List CTxOut → CCoinsViewCache → Except Fault CCoinsViewCache
  | _, [], v => .ok v
  | i, out :: vout, v => do
    let v' ← (v.haveCoin ⟨txid, i⟩).2.addCoin ⟨txid, i⟩ ⟨out, fCoinbase, nHeight⟩
      (v.haveCoin ⟨txid, i⟩).1
    addCoinsChecked txid fCoinbase nHeight (i + 1) vout v'

/-- The inputs of a transaction spent without a look at the result. -/
def spendUnchecked (os : List COutPoint) (v : CCoinsViewCache) : CCoinsViewCache :=
  os.foldl (fun v o => (v.spendCoin o).2) v

/-- One transaction of `RollforwardBlock`. -/
def rollforwardTx (H : Hashes) (nHeight : ℕ) (v : CCoinsViewCache) (tx : CTransaction) :
    Except Fault CCoinsViewCache :=
  addCoinsChecked (H.txid tx) tx.isCoinBase nHeight 0 tx.vout (spendUnchecked tx.spends v)

/-- `RollforwardBlock`; `none` is `return false`. -/
def rollforwardBlock (pindex : CBlockIndex) (v : CCoinsViewCache) :
    Except Fault (Option CCoinsViewCache) :=
  match ctx.readBlockFromDisk pindex with
  | none => .ok none
  | some block => (block.vtx.foldlM (rollforwardTx ctx.H pindex.nHeight) v).map some

/-- The blocks of the new branch at the given heights. -/
def rollforward (pindexNew : CBlockIndex) : List ℕ → CCoinsViewCache →
    Except Fault (Option CCoinsViewCache)
  | [], v => .ok (some v)
  | h :: hs, v =>
    match pindexNew.getAncestor h with
    | none => .error (.undefined .nullPointer)
    | some pindex => do
      match ← rollforwardBlock ctx pindex v with
      | none => .ok none
      | some v' => rollforward pindexNew hs v'

/-! ## Rolling back -/

/-- `while (pindexOld != pindexFork)`, along the predecessors of the old tip. -/
def rollback (L : ContractLayer) (pindexFork : Option CBlockIndex) :
    List CBlockIndex → CCoinsViewCache → EStateM Fault L.State (Option CCoinsViewCache)
  | [], v => if pindexFork = none then pure (some v) else throw (.undefined .nullPointer)
  | p :: ps, v =>
    if pindexFork = some p then pure (some v)
    else if p.nHeight = 0 then rollback L pindexFork ps v
    else
      match ctx.readBlockFromDisk p with
      | none => pure none
      | some block => do
        match ← disconnectBlock ctx.H L ctx.files block p v with
        | .failed => pure none
        | .ok v' => rollback L pindexFork ps v'
        | .unclean v' => rollback L pindexFork ps v'

/-! ## The whole function -/

/-- `cache.SetBestBlock(…); cache.Flush();` -/
def flushReplayed (it : Iteration) (db : CCoinsViewDB) (pindexNew : CBlockIndex)
    (v : CCoinsViewCache) : Except Fault (Bool × CCoinsViewDB) :=
  (db.batchWrite (it.toList v.cacheCoins) pindexNew.getBlockHash).map fun db' => (true, db')

/-- The part of `ReplayBlocks` behind the look-up of the two tips. -/
def replayFrom (L : ContractLayer) (it : Iteration) (db : CCoinsViewDB) (pindexNew : CBlockIndex)
    (pindexOld pindexFork : Option CBlockIndex) : EStateM Fault L.State (Bool × CCoinsViewDB) := do
  match ← rollback ctx L pindexFork (pindexOld.elim [] chain) db.newCache with
  | none => pure (false, db)
  | some v =>
    let nForkHeight := pindexFork.elim 0 nHeight
    match ← Stateful.liftExcept (rollforward ctx pindexNew
      (List.range' (nForkHeight + 1) (pindexNew.nHeight - nForkHeight)) v) with
    | none => pure (false, db)
    | some v' => Stateful.liftExcept (flushReplayed it db pindexNew v')

/-- `ReplayBlocks`; `false` is an error the node reports. -/
def replayBlocks (L : ContractLayer) (it : Iteration) (db : CCoinsViewDB) :
    EStateM Fault L.State (Bool × CCoinsViewDB) :=
  match db.getHeadBlocks with
  | [] => pure (true, db)
  | [hashNew, hashOld] =>
    match ctx.mapBlockIndex hashNew with
    | none => pure (false, db)
    | some pindexNew =>
      if hashOld = Uint256.null then replayFrom ctx L it db pindexNew none none
      else
        match ctx.mapBlockIndex hashOld with
        | none => pure (false, db)
        | some pindexOld => do
          match ← Stateful.liftExcept (lastCommonAncestor pindexOld pindexNew) with
          | none => throw .assertion
          | some pindexFork =>
            replayFrom ctx L it db pindexNew (some pindexOld) (some pindexFork)
  | _ => pure (false, db)

/-- The contract layer before `pState` is created: every use goes through a null pointer. -/
def ContractLayer.absent (emptyRoot : Uint256) : ContractLayer where
  State := Unit
  emptyRoot := emptyRoot
  rootHash := throw (.undefined .nullPointer)
  setRoot _ := throw (.undefined .nullPointer)
  getBlockContract _ := throw (.undefined .nullPointer)

end Ybtc
