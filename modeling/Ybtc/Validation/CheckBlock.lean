import Ybtc.Consensus.TxVerify
import Ybtc.Script.ScriptNum

/-!
# Checks on a block by itself

`CheckBlock` and `ContextualCheckBlock` from `validation.cpp`.

`CheckBlock` remembers a complete pass in the block's `fChecked` mark and does nothing when the mark
is set, so it returns the block it leaves.  A block as it comes from the network or from disk has no
mark (`SetNull`), and `checkBlock_ok` says what a pass over such a block has established.  Each
transaction is checked *without* the duplicate-input test.
-/

namespace Ybtc

open Fallible List CTransaction

/-- `CheckCasino`, the proof-of-work test: it accepts every hash. -/
def checkCasino (_hash : Uint256) (_nBits : ℕ) : Bool := true

/-- `CheckBlockHeader`. -/
def checkBlockHeader (H : Hashes) (block : CBlock) (fCheckPOW : Bool) : Checked Unit :=
  dosIf (fCheckPOW && !checkCasino (H.getHash block) block.nBits) 50 .invalid "high-hash" false

/-- The transaction checks of `CheckBlock`, which keep the code and reason of the failing one. -/
def checkBlockTransaction (tx : CTransaction) : Checked Unit :=
  match checkTransaction tx false with
  | .error (.reject r) => .error (.reject (.inval r.chRejectCode r.strRejectReason))
  | x => x

/-- `CheckBlock`. -/
def checkBlock (H : Hashes) (block : CBlock) (fCheckPOW fCheckMerkleRoot : Bool) : Checked CBlock :=
  if block.fChecked then .ok block
  else do
    checkBlockHeader H block fCheckPOW
    dosIf (fCheckMerkleRoot ∧ block.hashMerkleRoot ≠ (H.blockMerkleRoot block).1) 100 .invalid
      "bad-txnmrklroot" true
    dosIf (fCheckMerkleRoot ∧ (H.blockMerkleRoot block).2) 100 .invalid "bad-txns-duplicate" true
    dosIf (block.vtx = [] ∨ maxBlockWeight < block.vtx.length * witnessScaleFactor
        ∨ maxBlockWeight < block.sizeNoWitness * witnessScaleFactor) 100 .invalid
      "bad-blk-length" false
    dosIf ((block.vtx.head?.map isCoinBase).getD false = false) 100 .invalid "bad-cb-missing" false
    dosIf (block.vtx.tail.any isCoinBase) 100 .invalid "bad-cb-multiple" false
    checkAll checkBlockTransaction block.vtx
    dosIf (maxBlockSigopsCost < (block.vtx.map getLegacySigOpCount).sum * witnessScaleFactor) 100
      .invalid "bad-blk-sigops" false
    .ok { block with fChecked := fCheckPOW && fCheckMerkleRoot }

variable {tx : CTransaction}

lemma checkBlockTransaction_ok :
    checkBlockTransaction tx = .ok () ↔ checkTransaction tx false = .ok () := by
  unfold checkBlockTransaction
  split
  · next h => simp [h]
  · rfl

/-- **A block that passed**: a coinbase first and nowhere else, and every transaction has inputs
    and output values in range. -/
structure BlockChecked (block : CBlock) : Prop where
  coinbase : ∃ cb rest, block.vtx = cb :: rest ∧ cb.isCoinBase = true ∧
    ∀ tx ∈ rest, tx.isCoinBase = false
  vin : ∀ tx ∈ block.vtx, tx.vin ≠ []
  vout : ∀ tx ∈ block.vtx, ∀ o ∈ tx.vout, MoneyRange o.nValue

/-- The coinbase has nothing before it. -/
lemma coinbase_first {vtx pre post : List CTransaction}
    (h : ∃ cb rest, vtx = cb :: rest ∧ cb.isCoinBase = true ∧ ∀ tx ∈ rest, tx.isCoinBase = false)
    (hl : vtx = pre ++ tx :: post) (hcb : tx.isCoinBase = true) : pre = [] := by
  obtain ⟨cb, rest, hvtx, _, hrest⟩ := h
  cases pre with
  | nil => rfl
  | cons p pre =>
    rw [hvtx, cons_append] at hl
    have hmem : tx ∈ rest := by rw [(List.cons.inj hl).2]; simp
    rw [hrest tx hmem] at hcb
    cases hcb

/-- What a pass of `CheckBlock` over a block without the mark establishes.  The block it returns
    differs at most in the mark. -/
lemma checkBlock_ok {H : Hashes} {block block' : CBlock} {pow merkle : Bool}
    (hc : block.fChecked = false) (h : checkBlock H block pow merkle = .ok block') :
    BlockChecked block ∧ block' = { block with fChecked := pow && merkle } := by
  rw [checkBlock, hc, if_neg Bool.false_ne_true] at h
  simp only [bind_ok, exists_const, dosIf_ok, checkAll_ok, not_or] at h
  obtain ⟨_, _, _, _, ⟨hne, _, _⟩, hcb, hmult, htxs, _, hb⟩ := h
  refine ⟨?_, (Except.ok.inj hb).symm⟩
  have hall : ∀ tx ∈ block.vtx, checkTransaction tx false = .ok () := by
    intro tx htx
    exact checkBlockTransaction_ok.mp (htxs tx htx)
  refine ⟨?_, fun tx htx => (checkTransaction_ok (hall tx htx)).1,
    fun tx htx => (checkTransaction_ok (hall tx htx)).2⟩
  cases hv : block.vtx with
  | nil => exact absurd hv hne
  | cons cb rest =>
    refine ⟨cb, rest, rfl, ?_, ?_⟩
    · simpa [hv] using hcb
    · simpa [hv] using hmult

/-- A transaction with an input takes some space. -/
lemma sizeNoWitness_ge (h : tx.vin ≠ []) : 51 ≤ tx.sizeNoWitness := by
  have hcompact : ∀ n, 1 ≤ sizeOfCompactSize n := by
    intro n
    unfold sizeOfCompactSize
    split_ifs <;> omega
  cases hvin : tx.vin with
  | nil => exact absurd hvin h
  | cons txin vin =>
    have hin := hcompact (txin :: vin).length
    have hout := hcompact tx.vout.length
    have hsig := hcompact txin.scriptSig.length
    unfold sizeNoWitness
    rw [hvin, map_cons, sum_cons, sizeOfTxIn, sizeOfBytes]
    omega

/-- **The weight limit bounds the number of transactions.** -/
lemma checkBlock_length {H : Hashes} {block block' : CBlock} {pow merkle : Bool}
    (hc : block.fChecked = false) (h : checkBlock H block pow merkle = .ok block') :
    51 * witnessScaleFactor * block.vtx.length ≤ maxBlockWeight := by
  have hvin := (checkBlock_ok hc h).1.vin
  rw [checkBlock, hc, if_neg Bool.false_ne_true] at h
  simp only [bind_ok, exists_const, dosIf_ok, checkAll_ok, not_or] at h
  obtain ⟨_, _, _, _, ⟨_, _, hsize⟩, _⟩ := h
  have hsum : block.vtx.length * 51 ≤ (block.vtx.map sizeNoWitness).sum := by
    have := card_nsmul_le_sum (block.vtx.map sizeNoWitness) 51 (by
      intro size hsize
      obtain ⟨tx, htx, rfl⟩ := mem_map.mp hsize
      exact sizeNoWitness_ge (hvin tx htx))
    rwa [length_map, smul_eq_mul] at this
  have hle : (block.vtx.map sizeNoWitness).sum ≤ block.sizeNoWitness := Nat.le_add_left _ _
  rw [not_lt] at hsize
  unfold witnessScaleFactor at hsize ⊢
  omega

/-! ## Checks that need the predecessor -/

/-- `GetWitnessCommitmentIndex`: the last output of the coinbase that carries a commitment. -/
def isWitnessCommitment (s : CScript) : Bool :=
  38 ≤ s.length && byteAt s 0 == OP_RETURN && byteAt s 1 == 0x24 && byteAt s 2 == 0xaa
    && byteAt s 3 == 0x21 && byteAt s 4 == 0xa9 && byteAt s 5 == 0xed

/-- The commitment output of a coinbase. -/
def witnessCommitment (coinbase : CTransaction) : Option CTxOut :=
  (coinbase.vout.filter fun o => isWitnessCommitment o.scriptPubKey).getLast?

/-- The witness part of `ContextualCheckBlock`; `true` when the block commits to its witnesses. -/
def checkWitnessCommitment (H : Hashes) (block : CBlock) (coinbase : CTransaction) : Checked Bool :=
  match witnessCommitment coinbase with
  | none => .ok false
  | some out =>
    match coinbase.vin with
    | [] => .error (.fault (.undefined .outOfBounds))
    | txin :: _ => do
      dosIf (txin.scriptWitness.length ≠ 1 ∨ (txin.scriptWitness.headD []).length ≠ 32) 100
        .invalid "bad-witness-nonce-size" true
      dosIf (H.hashWithNonce (H.blockWitnessMerkleRoot block).1 (txin.scriptWitness.headD [])
          ≠ (out.scriptPubKey.drop 6).take 32) 100 .invalid "bad-witness-merkle-match" true
      .ok true

/-- The commitment is looked for once segregated witness is active. -/
def haveWitnessCommitment (H : Hashes) (params : ConsensusParams) (block : CBlock)
    (coinbase : CTransaction) (pindexPrev : Option CBlockIndex) : Checked Bool :=
  if params.versionBitsActive pindexPrev .segwit then checkWitnessCommitment H block coinbase
  else .ok false

/-- The lock-time cut-off of `ContextualCheckBlock`. -/
def lockTimeCutoff (params : ConsensusParams) (block : CBlock) (pindexPrev : Option CBlockIndex) :
    Checked ℕ :=
  if params.versionBitsActive pindexPrev .csv then
    match pindexPrev with
    | none => .error (.fault (.undefined .nullPointer))
    | some p => .ok p.getMedianTimePast
  else .ok block.nTime

/-- `ContextualCheckBlock`. -/
def contextualCheckBlock (H : Hashes) (params : ConsensusParams) (block : CBlock)
    (pindexPrev : Option CBlockIndex) : Checked Unit := do
  let nHeight := (pindexPrev.map fun p => p.nHeight + 1).getD 0
  let nLockTimeCutoff ← lockTimeCutoff params block pindexPrev
  dosIf (block.vtx.any fun tx => !isFinalTx tx nHeight nLockTimeCutoff) 10 .invalid
    "bad-txns-nonfinal" false
  match block.vtx with
  | [] => .error (.fault (.undefined .outOfBounds))
  | coinbase :: _ => do
    dosIf (params.bip34Height ≤ nHeight ∧
        ¬ (pushInt64 [] nHeight).isPrefixOf ((coinbase.vin.head?.map CTxIn.scriptSig).getD [])) 100
      .invalid "bad-cb-height" false
    let fHaveWitness ← haveWitnessCommitment H params block coinbase pindexPrev
    dosIf (fHaveWitness = false ∧ block.vtx.any hasWitness) 100 .invalid "unexpected-witness" true
    dosIf (maxBlockWeight < block.getBlockWeight) 100 .invalid "bad-blk-weight" false

end Ybtc
