import Ybtc.Chain.BlockIndex
import Ybtc.Coins.Inputs

/-!
# Transaction checks

`consensus/tx_verify.cpp`: the checks on a transaction that need no scripts to run.

The specification lemmas say what an accepted transaction satisfies; rejections are never looked at
again, so there are no lemmas about them.
-/

namespace Ybtc

open Fallible CCoinsViewCache CTransaction

/-! ## Limits and flags -/

/-- `MAX_BLOCK_WEIGHT`. -/
def maxBlockWeight : ℕ := 4000000

/-- `MAX_BLOCK_SIGOPS_COST`. -/
def maxBlockSigopsCost : ℕ := 80000

/-- `COINBASE_MATURITY`. -/
def coinbaseMaturity : ℕ := 4

/-- `WITNESS_SCALE_FACTOR`. -/
def witnessScaleFactor : ℕ := 4

/-- `LOCKTIME_THRESHOLD`: below it a lock time is a height. -/
def locktimeThreshold : ℕ := 500000000

/-- `LOCKTIME_VERIFY_SEQUENCE`. -/
def locktimeVerifySequence : ℕ := 1

/-- `SCRIPT_VERIFY_WITNESS`. -/
def scriptVerifyWitness : ℕ := 2 ^ 11

/-! ## Context-free checks -/

/-- The loop over the outputs in `CheckTransaction`. -/
def checkOutputs : CAmount → List CTxOut → Checked Unit
  | _, [] => .ok ()
  | nValueOut, txout :: vout => do
    dosIf (txout.nValue < 0) 100 .invalid "bad-txns-vout-negative" false
    dosIf (maxMoney < txout.nValue) 100 .invalid "bad-txns-vout-toolarge" false
    dosIf (¬ MoneyRange (nValueOut + txout.nValue)) 100 .invalid
      "bad-txns-txouttotal-toolarge" false
    checkOutputs (nValueOut + txout.nValue) vout

/-- `CheckTransaction`, the context-free checks.  Blocks are checked without the test for duplicate
    inputs. -/
def checkTransaction (tx : CTransaction) (fCheckDuplicateInputs : Bool) : Checked Unit := do
  dosIf (tx.vin = []) 10 .invalid "bad-txns-vin-empty" false
  dosIf (tx.vout = []) 10 .invalid "bad-txns-vout-empty" false
  dosIf (maxBlockWeight < tx.sizeNoWitness * witnessScaleFactor) 100 .invalid
    "bad-txns-oversize" false
  checkOutputs 0 tx.vout
  dosIf (fCheckDuplicateInputs ∧ ¬ tx.prevouts.Nodup) 100 .invalid "bad-txns-inputs-duplicate" false
  if tx.isCoinBase then
    dosIf (tx.vin.any fun txin => txin.scriptSig.length < 2 ∨ 100 < txin.scriptSig.length) 100
      .invalid "bad-cb-length" false
  else
    dosIf (tx.vin.any fun txin => txin.prevout.isNull) 10 .invalid "bad-txns-prevout-null" false

variable {tx : CTransaction}

lemma checkOutputs_ok : ∀ {vout : List CTxOut} {acc : CAmount},
    checkOutputs acc vout = .ok () → ∀ o ∈ vout, MoneyRange o.nValue
  | [], _, _ => by simp
  | out :: vout, acc, h => by
    simp only [checkOutputs, bind_unit_ok, dosIf_ok, not_lt, not_not] at h
    obtain ⟨hneg, hbig, _, hrest⟩ := h
    rw [List.forall_mem_cons]
    exact ⟨⟨hneg, hbig⟩, checkOutputs_ok hrest⟩

/-- **What `CheckTransaction` guarantees** when the duplicate-input test is off: there are inputs,
    and every output value is in range. -/
lemma checkTransaction_ok {dup : Bool} (h : checkTransaction tx dup = .ok ()) :
    tx.vin ≠ [] ∧ ∀ o ∈ tx.vout, MoneyRange o.nValue := by
  simp only [checkTransaction, bind_unit_ok, dosIf_ok] at h
  obtain ⟨hvin, _, _, hout, _⟩ := h
  exact ⟨hvin, checkOutputs_ok hout⟩

/-- `IsFinalTx`. -/
def isFinalTx (tx : CTransaction) (nBlockHeight nBlockTime : ℕ) : Bool :=
  tx.nLockTime == 0
    || decide (tx.nLockTime < if tx.nLockTime < locktimeThreshold then nBlockHeight else nBlockTime)
    || tx.vin.all fun txin => txin.nSequence == sequenceFinal

/-! ## Inputs -/

/-- The loop of `Consensus::CheckTxInputs` over the coins of the inputs; it returns `nValueIn`. -/
def checkInputCoins (nSpendHeight : ℕ) : CAmount → List Coin → Checked CAmount
  | nValueIn, [] => .ok nValueIn
  | nValueIn, c :: coins => do
    assertThat (c.isSpent = false)
    invalidIf (c.fCoinBase ∧ (nSpendHeight : ℤ) - c.nHeight < coinbaseMaturity) .invalid
      "bad-txns-premature-spend-of-coinbase"
    dosIf (¬ MoneyRange c.out.nValue ∨ ¬ MoneyRange (nValueIn + c.out.nValue)) 100 .invalid
      "bad-txns-inputvalues-outofrange" false
    checkInputCoins nSpendHeight (nValueIn + c.out.nValue) coins

/-- A fault inside a check. -/
def liftFault {α : Type} (x : Except Fault α) : Checked α := x.mapError Stop.fault

@[simp] lemma liftFault_ok {α : Type} {x : Except Fault α} {a : α} :
    liftFault x = .ok a ↔ x = .ok a := by
  cases x with
  | error e | ok b => simp [liftFault, Except.mapError]

/-- `Consensus::CheckTxInputs`: maturity, and the range of every partial sum of the inputs. -/
def checkTxInputs (tx : CTransaction) (inputs : CCoinsViewCache) (nSpendHeight : ℕ) :
    Checked CCoinsViewCache := do
  invalidIf ((inputs.haveInputs tx).1 = false) .none ""
  let nValueIn ← checkInputCoins nSpendHeight 0 (accessCoins tx.vin (inputs.haveInputs tx).2).1
  let nValueOut ← liftFault tx.getValueOut
  dosIf (nValueIn < nValueOut) 100 .invalid "bad-txns-in-belowout" false
  dosIf (nValueIn - nValueOut < 0) 100 .invalid "bad-txns-fee-negative" false
  dosIf (¬ MoneyRange (nValueIn - nValueOut)) 100 .invalid "bad-txns-fee-outofrange" false
  .ok (accessCoins tx.vin (inputs.haveInputs tx).2).2

lemma checkInputCoins_ok {nSpendHeight : ℕ} : ∀ {coins : List Coin} {acc v : CAmount},
    checkInputCoins nSpendHeight acc coins = .ok v → v = acc + (coins.map coinValue).sum
  | [], acc, v, h => by
    cases h
    simp
  | c :: coins, acc, v, h => by
    simp only [checkInputCoins, bind_unit_ok] at h
    obtain ⟨_, _, _, hrest⟩ := h
    rw [checkInputCoins_ok hrest, List.map_cons, List.sum_cons, add_assoc]
    rfl

/-- **What `CheckTxInputs` guarantees**: every input has an unspent coin, and together they are
    worth at least the outputs. -/
lemma checkTxInputs_ok {v v' : CCoinsViewCache} {h : ℕ} (hcb : tx.isCoinBase = false)
    (hok : checkTxInputs tx v h = .ok v') :
    Fetched v v' ∧ (∀ o ∈ tx.prevouts, v.coinAt o ≠ none) ∧
      outputSum tx.vout ≤ (tx.prevouts.map v.valueAt).sum := by
  simp only [checkTxInputs, bind_ok, exists_const, invalidIf_ok, dosIf_ok, liftFault_ok,
    not_lt, Bool.not_eq_false] at hok
  obtain ⟨hhave, nIn, hIn, nOut, hOut, hle, _, _, hv'⟩ := hok
  have hf := haveInputs_fetched v tx
  have hcoins := (haveInputs_spec hcb).mp hhave
  have hcoins' : ∀ txin ∈ tx.vin, (v.haveInputs tx).2.coinAt txin.prevout ≠ none := by
    simpa [prevouts, hf.coinAt] using hcoins
  cases hv'
  refine ⟨hf.trans (accessCoins_fetched _ _), hcoins, ?_⟩
  have hsum : (tx.vin.map fun txin => (v.haveInputs tx).2.valueAt txin.prevout).sum
      = (tx.prevouts.map v.valueAt).sum := by
    rw [hf.valueAt, prevouts, List.map_map]
    rfl
  have hval := checkInputCoins_ok hIn
  rw [accessCoins_value hcoins', hsum, zero_add] at hval
  rw [← (getValueOut_ok hOut).1, ← hval]
  exact hle

/-! ## Sequence locks -/

/-- One input of `CalculateSequenceLocks`. -/
def sequenceLockStep (block : CBlockIndex) (locks : ℤ × ℤ) (txin : CTxIn) (nCoinHeight : ℕ) :
    Except Fault (ℤ × ℤ) :=
  if txin.nSequence.testBit 31 then .ok locks
  else if txin.nSequence.testBit 22 then
    match block.getAncestor (nCoinHeight - 1) with
    | none => .error (.undefined .nullPointer)
    | some p =>
      .ok (locks.1, max locks.2
        ((p.getMedianTimePast : ℤ) + ((txin.nSequence % 2 ^ 16) * 2 ^ 9 : ℕ) - 1))
  else .ok (max locks.1 ((nCoinHeight : ℤ) + (txin.nSequence % 2 ^ 16 : ℕ) - 1), locks.2)

/-- The loop of `CalculateSequenceLocks`. -/
def sequenceLockLoop (block : CBlockIndex) : ℤ × ℤ → List (CTxIn × ℕ) → Except Fault (ℤ × ℤ)
  | locks, [] => .ok locks
  | locks, (txin, h) :: rest => do
    let locks' ← sequenceLockStep block locks txin h
    sequenceLockLoop block locks' rest

/-- `CalculateSequenceLocks`: the last invalid height and time. -/
def calculateSequenceLocks (tx : CTransaction) (flags : ℕ) (prevHeights : List ℕ)
    (block : CBlockIndex) : Except Fault (ℤ × ℤ) :=
  if 2 ≤ tx.nVersion % 2 ^ 32 ∧ flags.testBit 0 then
    sequenceLockLoop block (-1, -1) (tx.vin.zip prevHeights)
  else .ok (-1, -1)

/-- `SequenceLocks`, that is `EvaluateSequenceLocks` of the calculated locks. -/
def sequenceLocks (tx : CTransaction) (flags : ℕ) (prevHeights : List ℕ) (block : CBlockIndex) :
    Except Fault Bool := do
  let locks ← calculateSequenceLocks tx flags prevHeights block
  match block.pprev with
  | none => .error .assertion
  | some p => .ok (decide (locks.1 < block.nHeight ∧ locks.2 < p.getMedianTimePast))

/-! ## Signature operations -/

/-- `GetLegacySigOpCount`. -/
def getLegacySigOpCount (tx : CTransaction) : ℕ :=
  (tx.vin.map fun txin => getSigOpCount txin.scriptSig false).sum
    + (tx.vout.map fun txout => getSigOpCount txout.scriptPubKey false).sum

/-- `WitnessSigOps`. -/
def witnessSigOps (witversion : ℕ) (witprogram : Bytes) (witness : List Bytes) : ℕ :=
  if witversion = 0 then
    if witprogram.length = 20 then 1
    else if witprogram.length = 32 ∧ witness ≠ [] then getSigOpCount (witness.getLast?.getD []) true
    else 0
  else 0

/-- `CountWitnessSigOps`. -/
def countWitnessSigOps (scriptSig scriptPubKey : CScript) (witness : List Bytes) (flags : ℕ) :
    Except Fault ℕ :=
  if flags.testBit 11 = false then .ok 0
  else if flags.testBit 0 = false then .error .assertion
  else
    match isWitnessProgram scriptPubKey with
    | some (version, program) => .ok (witnessSigOps version program witness)
    | none =>
      if isPayToScriptHash scriptPubKey && isPushOnly scriptSig then
        match isWitnessProgram (((scan scriptSig).1.getLast?.map ScriptOp.vch).getD []) with
        | some (version, program) => .ok (witnessSigOps version program witness)
        | none => .ok 0
      else .ok 0

/-- The part of `GetP2SHSigOpCount` for one input. -/
def p2shSigOps (txin : CTxIn) (c : Coin) : ℕ :=
  if isPayToScriptHash c.out.scriptPubKey then
    getSigOpCountP2SH c.out.scriptPubKey txin.scriptSig
  else 0

/-- The sum over the inputs in `GetTransactionSigOpCost`. -/
def inputSigOpCost (flags : ℕ) : List (CTxIn × Coin) → Except Fault ℕ
  | [] => .ok 0
  | (txin, c) :: rest => do
    if c.isSpent then .error .assertion
    else
      let w ← countWitnessSigOps txin.scriptSig c.out.scriptPubKey txin.scriptWitness flags
      let r ← inputSigOpCost flags rest
      .ok ((if flags.testBit 0 then p2shSigOps txin c * witnessScaleFactor else 0) + w + r)

/-- `GetTransactionSigOpCost`, which reads the spent coins. -/
def getTransactionSigOpCost (tx : CTransaction) (inputs : CCoinsViewCache) (flags : ℕ) :
    Except Fault (ℕ × CCoinsViewCache) :=
  if tx.isCoinBase then .ok (getLegacySigOpCount tx * witnessScaleFactor, inputs)
  else do
    let n ← inputSigOpCost flags (tx.vin.zip (accessCoins tx.vin inputs).1)
    .ok (getLegacySigOpCount tx * witnessScaleFactor + n, (accessCoins tx.vin inputs).2)

lemma getTransactionSigOpCost_fetched {v v' : CCoinsViewCache} {flags n : ℕ}
    (h : getTransactionSigOpCost tx v flags = .ok (n, v')) : Fetched v v' := by
  unfold getTransactionSigOpCost at h
  split_ifs at h
  · obtain ⟨-, rfl⟩ := Prod.mk.inj (Except.ok.inj h)
    exact Fetched.refl v
  · obtain ⟨_, _, h⟩ := bind_ok.mp h
    obtain ⟨-, rfl⟩ := Prod.mk.inj (Except.ok.inj h)
    exact accessCoins_fetched tx.vin v

end Ybtc
