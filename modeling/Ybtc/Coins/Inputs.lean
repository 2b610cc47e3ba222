import Ybtc.Coins.Meaning

/-!
# A transaction's inputs and outputs on a view

The loops over a transaction's inputs and outputs that `coins.cpp` and `UpdateCoins` run: whether
all inputs are there, what they are worth, and the update itself.
-/

namespace Ybtc

open List CTransaction

namespace CCoinsViewCache

/-! ## Reading the inputs -/

/-- The loop of `HaveInputs`. -/
def haveInputsLoop : List CTxIn → CCoinsViewCache → Bool × CCoinsViewCache
  | [], v => (true, v)
  | txin :: vin, v =>
    if (v.haveCoin txin.prevout).1 then haveInputsLoop vin (v.haveCoin txin.prevout).2
    else (false, (v.haveCoin txin.prevout).2)

/-- `CCoinsViewCache::HaveInputs`. -/
def haveInputs (v : CCoinsViewCache) (tx : CTransaction) : Bool × CCoinsViewCache :=
  if tx.isCoinBase then (true, v) else haveInputsLoop tx.vin v

/-- The coins of a list of inputs, read one after the other by `AccessCoin`. -/
def accessCoins : List CTxIn → CCoinsViewCache → List Coin × CCoinsViewCache
  | [], v => ([], v)
  | txin :: vin, v =>
    let (coins, v') := accessCoins vin (v.accessCoin txin.prevout).2
    ((v.accessCoin txin.prevout).1 :: coins, v')

/-- `CCoinsViewCache::GetValueIn`. -/
def getValueIn (v : CCoinsViewCache) (tx : CTransaction) : CAmount × CCoinsViewCache :=
  if tx.isCoinBase then (0, v)
  else
    let (coins, v') := accessCoins tx.vin v
    ((coins.map coinValue).sum, v')

variable {v v' : CCoinsViewCache} {tx : CTransaction}

lemma haveInputsLoop_fetched : ∀ (vin : List CTxIn) (v : CCoinsViewCache),
    Fetched v (haveInputsLoop vin v).2
  | [], v => Fetched.refl v
  | txin :: vin, v => by
    have h := haveCoin_fetched v txin.prevout
    rw [haveInputsLoop]
    split_ifs
    · exact h.trans (haveInputsLoop_fetched vin _)
    · exact h

lemma haveInputsLoop_eq_true : ∀ {vin : List CTxIn} {v : CCoinsViewCache},
    (haveInputsLoop vin v).1 = true ↔ ∀ txin ∈ vin, v.coinAt txin.prevout ≠ none
  | [], v => by simp [haveInputsLoop]
  | txin :: vin, v => by
    have hf := haveCoin_fetched v txin.prevout
    rw [haveInputsLoop, forall_mem_cons, ← Option.isSome_iff_ne_none, ← haveCoin_eq]
    split_ifs with h
    · rw [haveInputsLoop_eq_true]
      simp only [hf.coinAt, h, true_and]
    · simp [h]

/-- All inputs have an unspent coin exactly when `HaveInputs` says so. -/
lemma haveInputs_spec (hcb : tx.isCoinBase = false) :
    (v.haveInputs tx).1 = true ↔ ∀ o ∈ tx.prevouts, v.coinAt o ≠ none := by
  simp [haveInputs, hcb, haveInputsLoop_eq_true, prevouts]

lemma haveInputs_fetched (v : CCoinsViewCache) (tx : CTransaction) :
    Fetched v (v.haveInputs tx).2 := by
  unfold haveInputs
  split_ifs
  · exact Fetched.refl v
  · exact haveInputsLoop_fetched tx.vin v

lemma accessCoins_fetched : ∀ (vin : List CTxIn) (v : CCoinsViewCache),
    Fetched v (accessCoins vin v).2
  | [], v => Fetched.refl v
  | txin :: vin, v => (accessCoin_fetched v txin.prevout).trans (accessCoins_fetched vin _)

/-- Reading inputs that all have a coin gives these coins, in order. -/
lemma accessCoins_coinAt : ∀ {vin : List CTxIn} {v : CCoinsViewCache},
    (∀ txin ∈ vin, v.coinAt txin.prevout ≠ none) →
      (accessCoins vin v).1.map some = vin.map fun txin => v.coinAt txin.prevout
  | [], v, _ => rfl
  | txin :: vin, v, h => by
    rw [forall_mem_cons] at h
    have hf := accessCoin_fetched v txin.prevout
    obtain ⟨c, hc⟩ := Option.ne_none_iff_exists'.mp h.1
    have ih := @accessCoins_coinAt vin (v.accessCoin txin.prevout).2
      (by simpa only [hf.coinAt] using h.2)
    simp only [accessCoins, map_cons, ih, hf.coinAt, accessCoin_of_coinAt hc, hc]

variable {vin : List CTxIn}

/-- The value of inputs that all have a coin. -/
lemma accessCoins_value (h : ∀ txin ∈ vin, v.coinAt txin.prevout ≠ none) :
    ((accessCoins vin v).1.map coinValue).sum
      = (vin.map fun txin => v.valueAt txin.prevout).sum := by
  have hmap : (accessCoins vin v).1.map coinValue
      = ((accessCoins vin v).1.map some).map fun x => (x.map coinValue).getD 0 := by
    rw [map_map]; rfl
  rw [hmap, accessCoins_coinAt h, map_map]
  rfl

lemma getValueIn_fetched (v : CCoinsViewCache) (tx : CTransaction) :
    Fetched v (v.getValueIn tx).2 := by
  unfold getValueIn
  split_ifs
  · exact Fetched.refl v
  · exact accessCoins_fetched tx.vin v

/-- `GetValueIn` is the sum of the values found at the inputs. -/
lemma getValueIn_spec (hcb : tx.isCoinBase = false) (h : ∀ o ∈ tx.prevouts, v.coinAt o ≠ none) :
    (v.getValueIn tx).1 = (tx.prevouts.map v.valueAt).sum := by
  have h' : ∀ txin ∈ tx.vin, v.coinAt txin.prevout ≠ none := by
    simpa [prevouts] using h
  simp only [getValueIn, hcb, Bool.false_eq_true, if_false, accessCoins_value h', prevouts, map_map]
  rfl

/-! ## Spending the inputs -/

/-- The first loop of `UpdateCoins`: every input is spent, its coin goes to the undo data, and
    `assert(is_spent)` stops the node when there was nothing to spend. -/
def spendLoop : List CTxIn → CCoinsViewCache → Except Fault (List Coin × CCoinsViewCache)
  | [], v => .ok ([], v)
  | txin :: vin, v =>
    match v.spendCoin txin.prevout with
    | (none, _) => .error .assertion
    | (some c, v') => do
      let (undo, v'') ← spendLoop vin v'
      .ok (c :: undo, v'')

/-- A coinbase has nothing to spend. -/
def spendInputs (tx : CTransaction) (v : CCoinsViewCache) :
    Except Fault (List Coin × CCoinsViewCache) :=
  if tx.isCoinBase then .ok ([], v) else spendLoop tx.vin v

/-- `UpdateCoins`, with the undo data of the transaction. -/
def updateCoins (H : Hashes) (tx : CTransaction) (v : CCoinsViewCache) (nHeight : ℕ) :
    Except Fault (List Coin × CCoinsViewCache) := do
  let (undo, v') ← spendInputs tx v
  let v'' ← v'.addCoins H tx nHeight
  .ok (undo, v'')

/-- One turn of the loop. -/
lemma spendLoop_cons {txin : CTxIn} {undo : List Coin} (hw : v.WF)
    (h : spendLoop (txin :: vin) v = .ok (undo, v')) : ∃ c undo' v1,
      (v.spendCoin txin.prevout).1 = some c ∧ undo = c :: undo' ∧ Updates v v1 txin.prevout none ∧
        spendLoop vin v1 = .ok (undo', v') := by
  rw [spendLoop] at h
  rcases hs : v.spendCoin txin.prevout with ⟨_ | c, v1⟩
  · rw [hs] at h; cases h
  · rw [hs] at h
    obtain ⟨⟨undo', v2⟩, hrec, hout⟩ := Fallible.bind_ok.mp h
    cases Except.ok.inj hout
    have hup := spendCoin_updates hw txin.prevout
    rw [hs] at hup
    exact ⟨c, undo', v1, rfl, rfl, hup, hrec⟩

/-- **After spending, nothing is left at the spent outpoints** — whether or not they are distinct —
    and nothing changed elsewhere. -/
lemma spendLoop_spec : ∀ {vin : List CTxIn} {v v' : CCoinsViewCache} {undo : List Coin},
    v.WF → spendLoop vin v = .ok (undo, v') →
      Evolves v v' ∧
      (∀ o ∈ vin.map CTxIn.prevout, v'.coinAt o = none) ∧
      (∀ o, o ∉ vin.map CTxIn.prevout → v'.coinAt o = v.coinAt o)
  | [], v, v', undo, hw, h => by
    obtain ⟨-, rfl⟩ := Prod.mk.inj (Except.ok.inj h)
    exact ⟨Evolves.refl hw, by simp, fun _ _ => rfl⟩
  | txin :: vin, v, v', undo, hw, h => by
    obtain ⟨_, _, v1, -, -, hup, hrec⟩ := spendLoop_cons hw h
    obtain ⟨hev, hin, hout'⟩ := spendLoop_spec hup.wf hrec
    refine ⟨hup.evolves.trans hev, ?_, ?_⟩
    · intro o ho
      by_cases hmem : o ∈ vin.map CTxIn.prevout
      · exact hin o hmem
      · rw [map_cons, mem_cons] at ho
        have heq : o = txin.prevout := ho.resolve_right hmem
        rw [hout' o hmem, heq, hup.self]
    · intro o ho
      rw [map_cons, mem_cons, not_or] at ho
      rw [hout' o ho.2, hup.other o ho.1]

/-- **The accounting of a spend.**  Distinct outpoints take their values out of the view. -/
lemma spendLoop_total : ∀ {vin : List CTxIn} {v v' : CCoinsViewCache} {undo : List Coin},
    v.WF → (vin.map CTxIn.prevout).Nodup → spendLoop vin v = .ok (undo, v') →
      v'.utxoTotal + ((vin.map CTxIn.prevout).map v.valueAt).sum = v.utxoTotal
  | [], v, v', undo, _, _, h => by
    obtain ⟨-, rfl⟩ := Prod.mk.inj (Except.ok.inj h)
    simp
  | txin :: vin, v, v', undo, hw, hnd, h => by
    rw [map_cons, nodup_cons] at hnd
    obtain ⟨_, _, v1, -, -, hup, hrec⟩ := spendLoop_cons hw h
    have ih := spendLoop_total hup.wf hnd.2 hrec
    -- The remaining outpoints are other ones, so their values have not changed yet.
    have hrest : (vin.map CTxIn.prevout).map v1.valueAt
        = (vin.map CTxIn.prevout).map v.valueAt := by
      refine map_congr_left ?_
      intro o ho
      have hne : o ≠ txin.prevout := by rintro rfl; exact hnd.1 ho
      simp only [valueAt, Ledger.held, hup.other o hne]
    have htot := hup.utxoTotal
    rw [valueAt_of_none hup.self] at htot
    rw [map_cons, map_cons, sum_cons]
    rw [hrest] at ih
    linarith

/-! ## Adding the outputs -/

/-- The next `n` outputs, from `i` on, can be given coins. -/
structure Addable (txid : Uint256) (cb : Bool) (i n : ℕ) (v : CCoinsViewCache) : Prop where
  wf : v.WF
  noShadow : ∀ j, i ≤ j → j < i + n → v.NoShadow ⟨txid, j⟩
  free : cb = true → ∀ j, i ≤ j → j < i + n → v.coinAt ⟨txid, j⟩ = none

variable {txid : Uint256} {cb : Bool} {nHeight : ℕ}

/-- One turn of the loop: an output is skipped or gets its coin. -/
lemma addCoinsLoop_cons {out : CTxOut} {vout : List CTxOut} {i : ℕ}
    (ha : Addable txid cb i (vout.length + 1) v)
    (h : addCoinsLoop txid cb nHeight i (out :: vout) v = .ok v') :
    ∃ v1, addCoinsLoop txid cb nHeight (i + 1) vout v1 = .ok v' ∧
      Addable txid cb (i + 1) vout.length v1 ∧
      ((isUnspendable out.scriptPubKey = true ∧ v1 = v) ∨
        (isUnspendable out.scriptPubKey = false ∧ v.coinAt ⟨txid, i⟩ = none ∧
          Updates v v1 ⟨txid, i⟩ (some ⟨out, cb, nHeight⟩))) := by
  rw [addCoinsLoop] at h
  obtain ⟨v1, hadd, hrec⟩ := Fallible.bind_ok.mp h
  have hcase := addCoin_cases ha.wf (ha.noShadow i (le_refl i) (by omega))
    (fun hc => ha.free hc i (le_refl i) (by omega)) hadd
  refine ⟨v1, hrec, ?_, hcase⟩
  rcases hcase with ⟨-, rfl⟩ | ⟨-, -, hup⟩
  · exact ⟨ha.wf, fun j hj hj' => ha.noShadow j (by omega) (by omega),
      fun hc j hj hj' => ha.free hc j (by omega) (by omega)⟩
  · refine ⟨hup.wf, fun j hj hj' => hup.noShadow _ (ha.noShadow j (by omega) (by omega)), ?_⟩
    intro hc j hj hj'
    have hne : (⟨txid, j⟩ : COutPoint) ≠ ⟨txid, i⟩ := by
      intro he; injection he with _ he; omega
    rw [hup.other _ hne]
    exact ha.free hc j (by omega) (by omega)

/-- What adding the outputs of a transaction does.  Only outpoints of that transaction can gain a
    coin, and the value of the view grows by at most the sum of the outputs. -/
lemma addCoinsLoop_spec : ∀ {vout : List CTxOut} {i : ℕ} {v v' : CCoinsViewCache},
    Addable txid cb i vout.length v → (∀ o ∈ vout, 0 ≤ o.nValue) →
    addCoinsLoop txid cb nHeight i vout v = .ok v' →
      Evolves v v' ∧
      (∀ o, (o.hash = txid → i ≤ o.n → i + vout.length ≤ o.n) → v'.coinAt o = v.coinAt o) ∧
      v'.utxoTotal ≤ v.utxoTotal + outputSum vout
  | [], i, v, v', ha, _, h => by
    cases h
    exact ⟨Evolves.refl ha.wf, fun _ _ => rfl, by simp [outputSum]⟩
  | out :: vout, i, v, v', ha, hpos, h => by
    obtain ⟨v1, hrec, ha1, hcase⟩ := addCoinsLoop_cons ha h
    rw [forall_mem_cons] at hpos
    have hsum : outputSum (out :: vout) = out.nValue + outputSum vout := by
      rw [outputSum, map_cons, sum_cons]; rfl
    obtain ⟨hev, hsame, htot⟩ := addCoinsLoop_spec ha1 hpos.2 hrec
    have hlater : ∀ o : COutPoint, (o.hash = txid → i ≤ o.n → i + (vout.length + 1) ≤ o.n) →
        v'.coinAt o = v1.coinAt o := fun o ho =>
      hsame o fun hh hi => by have := ho hh (by omega); omega
    rcases hcase with ⟨_, rfl⟩ | ⟨_, hn, hup⟩
    · exact ⟨hev, hlater, by linarith [hpos.1]⟩
    · refine ⟨hup.evolves.trans hev, fun o ho => ?_, ?_⟩
      · have hne : o ≠ ⟨txid, i⟩ := by
          rintro rfl
          have : i + (vout.length + 1) ≤ i := ho rfl (le_refl i)
          omega
        rw [hlater o ho, hup.other o hne]
      · have h1 := hup.utxoTotal
        rw [valueAt_of_none hn, valueAt_of_coinAt hup.self] at h1
        linarith

end CCoinsViewCache

end Ybtc
