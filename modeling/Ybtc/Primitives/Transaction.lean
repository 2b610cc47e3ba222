import Ybtc.Primitives.Validation
import Ybtc.Script.Script

/-!
# Transactions and blocks

The data of `primitives/transaction.h`, `primitives/block.h` and the parts of their methods that
validation, the mempool and the miner use.

Hashing is outside this development.  `Hashes` collects the hash functions the code applies to
transactions, headers and lists of leaves; every result holds for all of them, and where a result
needs two different transactions to have different ids it says so for the transactions at hand.
Serialized sizes, on the other hand, are computed here, since the size limits are rules of the
program.
-/

namespace Ybtc

/-- A 256-bit hash value. -/
abbrev Uint256 := BitVec 256

/-- The null hash. -/
def Uint256.null : Uint256 := 0#256

/-! ## Outpoints, inputs and outputs -/

/-- An output of a transaction, by transaction id and position. -/
structure COutPoint where
  hash : Uint256
  n : ℕ
deriving Repr, DecidableEq

/-- `COutPoint::IsNull`. -/
def COutPoint.isNull (o : COutPoint) : Bool := o.hash == Uint256.null && o.n == 0xffffffff

/-- An input of a transaction. -/
structure CTxIn where
  prevout : COutPoint
  scriptSig : CScript
  nSequence : ℕ
  scriptWitness : List Bytes
deriving Repr, DecidableEq

/-- `CTxIn::SEQUENCE_FINAL`. -/
def sequenceFinal : ℕ := 0xffffffff

/-- An output of a transaction. -/
structure CTxOut where
  nValue : CAmount
  scriptPubKey : CScript
deriving Repr, DecidableEq

/-- `CTxOut::SetNull`. -/
def CTxOut.null : CTxOut := ⟨-1, []⟩

/-- `CTxOut::IsNull`. -/
def CTxOut.isNull (o : CTxOut) : Bool := o.nValue == -1

/-! ## Transactions -/

structure CTransaction where
  nVersion : ℤ
  vin : List CTxIn
  vout : List CTxOut
  nLockTime : ℕ
deriving Repr, DecidableEq

namespace CTransaction

variable (tx : CTransaction)

/-- `CTransaction::IsCoinBase`. -/
def isCoinBase : Bool :=
  match tx.vin with
  | [txin] => txin.prevout.isNull
  | _ => false

/-- `CTransaction::HasWitness`. -/
def hasWitness : Bool := tx.vin.any fun txin => !txin.scriptWitness.isEmpty

/-- `CTransaction::HasCreateOrCall`. -/
def hasCreateOrCall : Bool :=
  tx.vout.any fun v => hasOpCreate v.scriptPubKey || hasOpCall v.scriptPubKey

/-- `CTransaction::HasOops`. -/
def hasOops : Bool := tx.vout.any fun v => hasOpOops v.scriptPubKey

/-- The outpoints a transaction spends, in order. -/
def prevouts : List COutPoint := tx.vin.map CTxIn.prevout

/-- The loop of `GetValueOut`. -/
def valueOutLoop : CAmount → List CTxOut → Except Fault CAmount
  | nValueOut, [] => .ok nValueOut
  | nValueOut, txOut :: vout =>
    if ¬ MoneyRange txOut.nValue ∨ ¬ MoneyRange (nValueOut + txOut.nValue) then
      .error (.thrown (.runtimeError "GetValueOut: value out of range"))
    else valueOutLoop (nValueOut + txOut.nValue) vout

/-- `CTransaction::GetValueOut`, the checked sum of the outputs. -/
def getValueOut : Except Fault CAmount := valueOutLoop 0 tx.vout

/-- What the outputs add up to. -/
def outputSum (vout : List CTxOut) : CAmount := (vout.map CTxOut.nValue).sum

lemma valueOutLoop_ok : ∀ {vout : List CTxOut} {acc v : CAmount}, valueOutLoop acc vout = .ok v →
      v = acc + outputSum vout ∧ ∀ o ∈ vout, MoneyRange o.nValue
  | [], acc, v, h => by
    simp only [valueOutLoop, Except.ok.injEq] at h
    simp [outputSum, h]
  | o :: vout, acc, v, h => by
    simp only [valueOutLoop] at h
    split_ifs at h with hr
    rw [not_or, not_not, not_not] at hr
    obtain ⟨hv, hall⟩ := valueOutLoop_ok h
    refine ⟨?_, ?_⟩
    · rw [hv, outputSum, outputSum, List.map_cons, List.sum_cons, add_assoc]
    · intro x hx
      rcases List.mem_cons.mp hx with rfl | hx
      · exact hr.1
      · exact hall x hx

/-- `GetValueOut` returns the sum of the outputs, all of which are then in range. -/
lemma getValueOut_ok {tx : CTransaction} {v : CAmount} (h : tx.getValueOut = .ok v) :
    v = outputSum tx.vout ∧ ∀ o ∈ tx.vout, MoneyRange o.nValue := by
  obtain ⟨hv, hall⟩ := valueOutLoop_ok h
  exact ⟨by rw [hv, zero_add], hall⟩

/-! ### Serialized sizes -/

/-- `GetSizeOfCompactSize`. -/
def sizeOfCompactSize (n : ℕ) : ℕ :=
  if n < 253 then 1 else if n ≤ 0xffff then 3 else if n ≤ 0xffffffff then 5 else 9

/-- Size of a length-prefixed byte string. -/
def sizeOfBytes (b : Bytes) : ℕ := sizeOfCompactSize b.length + b.length

/-- Size of an input without its witness. -/
def sizeOfTxIn (txin : CTxIn) : ℕ := 36 + sizeOfBytes txin.scriptSig + 4

/-- Size of an output. -/
def sizeOfTxOut (txout : CTxOut) : ℕ := 8 + sizeOfBytes txout.scriptPubKey

/-- Size of an input's witness stack. -/
def sizeOfWitness (txin : CTxIn) : ℕ :=
  sizeOfCompactSize txin.scriptWitness.length + (txin.scriptWitness.map sizeOfBytes).sum

/-- `GetSerializeSize` with `SERIALIZE_TRANSACTION_NO_WITNESS`. -/
def sizeNoWitness : ℕ :=
  4 + sizeOfCompactSize tx.vin.length + (tx.vin.map sizeOfTxIn).sum
    + sizeOfCompactSize tx.vout.length + (tx.vout.map sizeOfTxOut).sum + 4

/-- `CTransaction::GetTotalSize`: the extended format is used when there is a witness. -/
def totalSize : ℕ :=
  if tx.hasWitness then tx.sizeNoWitness + 2 + (tx.vin.map sizeOfWitness).sum
  else tx.sizeNoWitness

end CTransaction

/-! ## Blocks -/

structure CBlockHeader where
  nVersion : ℤ
  hashPrevBlock : Uint256
  hashMerkleRoot : Uint256
  hashStateRoot : Uint256
  nTime : ℕ
  nBits : ℕ
  nHeight : ℕ
deriving Repr, DecidableEq

/-- A block; `fChecked` is the memory-only mark that `CheckBlock` has passed. -/
structure CBlock extends CBlockHeader where
  vtx : List CTransaction
  fChecked : Bool
deriving Repr, DecidableEq

namespace CBlock

/-- `GetBlockHeader`. -/
def getBlockHeader (block : CBlock) : CBlockHeader := block.toCBlockHeader

/-- Size of a serialized header. -/
def headerSize : ℕ := 4 + 32 + 32 + 32 + 4 + 4 + 4

/-- `GetSerializeSize(block, …)` without witnesses. -/
def sizeNoWitness (block : CBlock) : ℕ :=
  headerSize + CTransaction.sizeOfCompactSize block.vtx.length
    + (block.vtx.map CTransaction.sizeNoWitness).sum

/-- `GetSerializeSize(block, …)` with witnesses. -/
def totalSize (block : CBlock) : ℕ :=
  headerSize + CTransaction.sizeOfCompactSize block.vtx.length
    + (block.vtx.map CTransaction.totalSize).sum

/-- `GetBlockWeight`. -/
def getBlockWeight (block : CBlock) : ℕ := block.sizeNoWitness * 3 + block.totalSize

end CBlock

/-! ## Hashes -/

/-- The hash functions the node applies to its data. -/
structure Hashes where
  /-- `CTransaction::GetHash`: the double SHA-256 of the serialization without witnesses. -/
  txid : CTransaction → Uint256
  /-- The double SHA-256 of the serialization with witnesses. -/
  wtxid : CTransaction → Uint256
  /-- `CBlockHeader::GetHash`. -/
  blockHash : CBlockHeader → Uint256
  /-- `ComputeMerkleRoot` with its mutation flag. -/
  computeMerkleRoot : List Uint256 → Uint256 × Bool
  /-- `CHash256` over a hash and 32 more bytes. -/
  hashWithNonce : Uint256 → Bytes → Bytes
  /-- The key of the script execution cache: a salted hash of the witness hash and the flags. -/
  scriptCacheKey : Uint256 → ℕ → Uint256

namespace Hashes

variable (H : Hashes)

/-- `CTransaction::GetWitnessHash`. -/
def getWitnessHash (tx : CTransaction) : Uint256 := if tx.hasWitness then H.wtxid tx else H.txid tx

/-- `BlockMerkleRoot`. -/
def blockMerkleRoot (block : CBlock) : Uint256 × Bool := H.computeMerkleRoot (block.vtx.map H.txid)

/-- `BlockWitnessMerkleRoot`: the witness hash of the coinbase is 0. -/
def blockWitnessMerkleRoot (block : CBlock) : Uint256 × Bool :=
  H.computeMerkleRoot (Uint256.null :: block.vtx.tail.map H.getWitnessHash)

/-- `CBlock::GetHash`. -/
def getHash (block : CBlock) : Uint256 := H.blockHash block.getBlockHeader

end Hashes

end Ybtc
