import Ybtc.Validation.ConnectBlock

/-!
# Disconnecting a block

`DisconnectBlock` from `validation.cpp` with `ApplyTxInUndo` and `AccessByTxid`: the transactions of
a block are undone from the last to the first, for each its outputs are spent and the coins of its
inputs put back from the undo data, and at the end the best block and the root of the contract state
are set back.

A mismatch on the way only clears `fClean`; `DISCONNECT_FAILED` is returned at once.  The undo data
comes from a file (`UndoFiles`).
-/

namespace Ybtc

open Fallible CCoinsViewCache

/-- `DisconnectResult`, with the view it leaves; after a failure nobody may use the view. -/
inductive DisconnectResult
  | ok (view : CCoinsViewCache)
  | unclean (view : CCoinsViewCache)
  | failed

/-- Why the undoing of a transaction stops early. -/
inductive UndoStop
  | failed
  | fault (f : Fault)
deriving DecidableEq

/-- The undo data of `rev` files. -/
structure UndoFiles where
  /-- `!pindex->GetUndoPos().IsNull()`. -/
  hasUndoPos : CBlockIndex → Bool
  /-- `UndoReadFromDisk`. -/
  undoReadFromDisk : CBlockIndex → Option (List (List Coin))

/-! ## Restoring one input -/

/-- `MAX_OUTPUTS_PER_BLOCK`: the block weight over four times the size of an empty output. -/
def maxOutputsPerBlock : ℕ := 4000000 / (4 * CTransaction.sizeOfTxOut CTxOut.null)

/-- The loop of `AccessByTxid`, with the number of outputs still to try. -/
def accessByTxidLoop (txid : Uint256) : ℕ → ℕ → CCoinsViewCache → Coin × CCoinsViewCache
  | 0, _, v => (Coin.empty, v)
  | left + 1, n, v =>
    if !(v.accessCoin ⟨txid, n⟩).1.isSpent then v.accessCoin ⟨txid, n⟩
    else accessByTxidLoop txid left (n + 1) (v.accessCoin ⟨txid, n⟩).2

/-- `AccessByTxid`. -/
def accessByTxid (v : CCoinsViewCache) (txid : Uint256) : Coin × CCoinsViewCache :=
  accessByTxidLoop txid maxOutputsPerBlock 0 v

/-- The undo record completed: an old record without metadata takes it from another output of the
    same transaction. -/
def completeUndo (undo : Coin) (v : CCoinsViewCache) (out : COutPoint) :
    Except UndoStop (Coin × CCoinsViewCache) :=
  if undo.nHeight = 0 then
    if !(accessByTxid v out.hash).1.isSpent then
      .ok ({ undo with
          nHeight := (accessByTxid v out.hash).1.nHeight
          fCoinBase := (accessByTxid v out.hash).1.fCoinBase }, (accessByTxid v out.hash).2)
    else .error .failed
  else .ok (undo, v)

/-- `ApplyTxInUndo`, with `fClean`. -/
def applyTxInUndo (undo : Coin) (view : CCoinsViewCache) (out : COutPoint) :
    Except UndoStop (Bool × CCoinsViewCache) := do
  let (undo', v) ← completeUndo undo (view.haveCoin out).2 out
  match v.addCoin out undo' (view.haveCoin out).1 with
  | .ok v' => .ok (!(view.haveCoin out).1, v')
  | .error f => .error (.fault f)

/-! ## Undoing one transaction -/

/-- The loop over the outputs from output `i` on: every spendable output is spent and compared. -/
def spendOutputs (txid : Uint256) (nHeight : ℕ) (isCoinbase : Bool) :
    ℕ → List CTxOut → Bool × CCoinsViewCache → Bool × CCoinsViewCache
  | _, [], p => p
  | i, out :: vout, (fClean, v) =>
    if isUnspendable out.scriptPubKey then
      spendOutputs txid nHeight isCoinbase (i + 1) vout (fClean, v)
    else
      spendOutputs txid nHeight isCoinbase (i + 1) vout
        (fClean && (v.spendCoin ⟨txid, i⟩).1 == some ⟨out, isCoinbase, nHeight⟩,
          (v.spendCoin ⟨txid, i⟩).2)

/-- The loop over the inputs, given from the last to the first with their undo records. -/
def restoreInputs : List (COutPoint × Coin) → Bool × CCoinsViewCache →
    Except UndoStop (Bool × CCoinsViewCache)
  | [], p => .ok p
  | (out, undo) :: rest, (fClean, v) => do
    let (clean, v') ← applyTxInUndo undo v out
    restoreInputs rest (fClean && clean, v')

/-- One turn of the loop over the transactions; only the first transaction has no undo record. -/
def disconnectTx (H : Hashes) (nHeight : ℕ) (p : Bool × CCoinsViewCache)
    (tu : CTransaction × Option (List Coin)) : Except UndoStop (Bool × CCoinsViewCache) :=
  match tu.2 with
  | none => .ok (spendOutputs (H.txid tu.1) nHeight tu.1.isCoinBase 0 tu.1.vout p)
  | some txundo => do
    failIf (txundo.length ≠ tu.1.vin.length) .failed
    restoreInputs (tu.1.prevouts.zip txundo).reverse
      (spendOutputs (H.txid tu.1) nHeight tu.1.isCoinBase 0 tu.1.vout p)

/-! ## The block -/

/-- The transactions of a block with their undo records. -/
def withUndo : List CTransaction → List (List Coin) → List (CTransaction × Option (List Coin))
  | [], _ => []
  | coinbase :: rest, vtxundo => (coinbase, none) :: rest.zip (vtxundo.map some)

/-- The coins part of `DisconnectBlock`, from the undo data on. -/
def disconnectTxs (H : Hashes) (block : CBlock) (nHeight : ℕ) (vtxundo : List (List Coin))
    (view : CCoinsViewCache) : Except UndoStop (Bool × CCoinsViewCache) := do
  failIf (vtxundo.length + 1 ≠ block.vtx.length) .failed
  (withUndo block.vtx vtxundo).reverse.foldlM (disconnectTx H nHeight) (true, view)

/-- `fClean ? DISCONNECT_OK : DISCONNECT_UNCLEAN`. -/
def disconnectResult (fClean : Bool) (view : CCoinsViewCache) : DisconnectResult :=
  if fClean then .ok view else .unclean view

/-- `DisconnectBlock`. -/
def disconnectBlock (H : Hashes) (L : ContractLayer) (files : UndoFiles) (block : CBlock)
    (pindex : CBlockIndex) (view : CCoinsViewCache) : EStateM Fault L.State DisconnectResult :=
  if files.hasUndoPos pindex = false then pure .failed
  else
    match pindex.pprev with
    | none => throw (.undefined .nullPointer)
    | some prev =>
      match files.undoReadFromDisk pindex with
      | none => pure .failed
      | some vtxundo =>
        match disconnectTxs H block pindex.nHeight vtxundo view with
        | .error .failed => pure .failed
        | .error (.fault f) => throw f
        | .ok (fClean, v) => do
          L.setRoot (stateRootOf L.emptyRoot prev.hashStateRoot)
          pure (disconnectResult fClean (v.setBestBlock prev.getBlockHash))

end Ybtc
