import Mathlib
import Ybtc.Mempool.Pool

/-!
# Coin selection

`CWallet::SelectCoinsMinConf` picks coins that add up to at least a target.  Small coins go through
a randomised search for a subset with a small sum; the smallest coin that leaves enough change
competes with what the search finds.

All sums are `int64_t`.  Those of coins fit, as there is less money than that; the target plus
`MIN_CHANGE` need not.

The choices the code leaves to chance are parameters (`SelectionChoices`): the shuffle, the order in
which the sort leaves coins of equal value, and the random bits of the two searches.  The main
results are `approximateBestSubset_sound` and `selectCoinsMinConf_right_iff`.
-/

namespace Ybtc

open Function List

/-! ## Coins -/

/-- `MIN_CHANGE`. -/
def minChange : CAmount := 1000000

/-- `nTargetValue + MIN_CHANGE`. -/
def withChange (nTargetValue : CAmount) : CAmount := toInt64 (nTargetValue + minChange)

/-- `CWalletTx`: a transaction of the wallet, and whether the wallet sent it.  The wallet keeps
    valid transactions only. -/
structure CWalletTx where
  hash : Uint256
  tx : CTransaction
  isFromMe : Bool
  moneyRange : ∀ out ∈ tx.vout, MoneyRange out.nValue

/-- `COutput`: an output of a transaction of the wallet. -/
structure COutput where
  tx : CWalletTx
  i : Fin tx.tx.vout.length
  nDepth : ℤ
  fSpendable : Bool

/-- `CInputCoin`. -/
structure CInputCoin where
  outpoint : COutPoint
  txout : CTxOut
deriving Repr, DecidableEq

open CInputCoin

/-- `CInputCoin(pcoin, i)`. -/
def COutput.inputCoin (output : COutput) : CInputCoin :=
  ⟨⟨output.tx.hash, output.i⟩, output.tx.tx.vout.get output.i⟩

/-- The value of a coin. -/
def CInputCoin.nValue (coin : CInputCoin) : CAmount := coin.txout.nValue

/-- What a list of coins is worth. -/
def coinsValue (coins : List CInputCoin) : CAmount := (coins.map nValue).sum

variable {coins1 coins2 : List CInputCoin}

@[simp] lemma coinsValue_nil : coinsValue [] = 0 := rfl

@[simp] lemma coinsValue_cons (coin : CInputCoin) (coins : List CInputCoin) :
    coinsValue (coin :: coins) = coin.nValue + coinsValue coins := sum_cons

@[simp] lemma coinsValue_append (coins1 coins2 : List CInputCoin) :
    coinsValue (coins1 ++ coins2) = coinsValue coins1 + coinsValue coins2 := by
  simp [coinsValue]

/-- The order does not matter. -/
lemma coinsValue_perm (h : coins1.Perm coins2) : coinsValue coins1 = coinsValue coins2 :=
  (h.map nValue).sum_eq

/-- Some of the coins are worth no more than all of them. -/
lemma coinsValue_le_of_sublist (h : coins1.Sublist coins2)
    (hpos : ∀ coin ∈ coins2, 0 ≤ coin.nValue) : coinsValue coins1 ≤ coinsValue coins2 := by
  refine (h.map nValue).sum_le_sum fun v hv => ?_
  obtain ⟨coin, hcoin, rfl⟩ := mem_map.mp hv
  exact hpos coin hcoin

lemma coinsValue_le_of_subperm (h : coins1.Subperm coins2)
    (hpos : ∀ coin ∈ coins2, 0 ≤ coin.nValue) : coinsValue coins1 ≤ coinsValue coins2 := by
  obtain ⟨part, hperm, hsub⟩ := h
  rw [← coinsValue_perm hperm]
  exact coinsValue_le_of_sublist hsub hpos

/-- **Coins whose sums fit**: none is worth less than nothing, and all together are worth less than
    2⁶³. -/
structure SumsFit (coins : List CInputCoin) : Prop where
  pos : ∀ coin ∈ coins, 0 ≤ coin.nValue
  total : coinsValue coins < 2 ^ 63

/-- It is so for some of the coins, in any order. -/
lemma SumsFit.subperm (h : SumsFit coins2) (hsub : coins1.Subperm coins2) : SumsFit coins1 :=
  ⟨fun coin hcoin => h.pos coin (hsub.subset hcoin),
    (coinsValue_le_of_subperm hsub h.pos).trans_lt h.total⟩

/-- The sum is stored as it is. -/
lemma SumsFit.toInt64 (h : SumsFit coins1) : toInt64 (coinsValue coins1) = coinsValue coins1 := by
  have hnil : coinsValue [] ≤ coinsValue coins1 :=
    coinsValue_le_of_sublist (nil_sublist _) h.pos
  exact toInt64_of_fits ⟨le_trans (by decide) hnil, h.total⟩

/-! ### Sets of coins

`std::set<CInputCoin>` compares coins by their outpoints. -/

/-- `setCoinsRet.insert(coin)`. -/
def insertCoin (setCoinsRet : List CInputCoin) (coin : CInputCoin) : List CInputCoin :=
  if coin.outpoint ∈ setCoinsRet.map outpoint then setCoinsRet
  else setCoinsRet ++ [coin]

/-- Inserting coins with new outpoints keeps them all. -/
lemma foldl_insertCoin : ∀ {coins setCoinsRet : List CInputCoin},
    ((setCoinsRet ++ coins).map outpoint).Nodup →
      coins.foldl insertCoin setCoinsRet = setCoinsRet ++ coins
  | [], setCoinsRet, _ => by simp
  | coin :: coins, setCoinsRet, hnodup => by
    have hnew : coin.outpoint ∉ setCoinsRet.map outpoint := by
      intro hmem
      rw [map_append, nodup_append] at hnodup
      exact hnodup.2.2 _ hmem _ (by simp) rfl
    have happend : setCoinsRet ++ coin :: coins = (setCoinsRet ++ [coin]) ++ coins := by simp
    rw [happend] at hnodup ⊢
    rw [foldl_cons, insertCoin, if_neg hnew]
    exact foldl_insertCoin hnodup

/-! ## The randomised search -/

section Search

variable (vValue : List CInputCoin)

/-- A mark for each coin. -/
abbrev Marks := Fin vValue.length → Bool

/-- What the marked coins are worth. -/
def markedValue (marks : Marks vValue) : CAmount :=
  ∑ i, if marks i then (vValue.get i).nValue else 0

/-- The marked coins. -/
def markedCoins (marks : Marks vValue) : List CInputCoin :=
  ((List.finRange vValue.length).filter marks).map vValue.get

/-- The variables of `ApproximateBestSubset`; `drawn` counts the random bits taken so far. -/
structure Search where
  vfIncluded : Marks vValue
  nTotal : CAmount
  fReachedTarget : Bool
  vfBest : Marks vValue
  nBest : CAmount
  drawn : ℕ

variable {vValue}

/-- `nPass == 0 ? insecure_rand.randbool() : !vfIncluded[i]`. -/
def Search.takes (bits : ℕ → Bool) (nPass : ℕ) (i : Fin vValue.length) (s : Search vValue) :
    Bool × Search vValue :=
  if nPass = 0 then (bits s.drawn, { s with drawn := s.drawn + 1 }) else (!s.vfIncluded i, s)

/-- The body of the inner loop, for a coin that is taken. -/
def Search.add (nTargetValue : CAmount) (i : Fin vValue.length) (s : Search vValue) :
    Search vValue :=
  let nTotal := toInt64 (s.nTotal + (vValue.get i).nValue)
  let vfIncluded := update s.vfIncluded i true
  if nTargetValue ≤ nTotal then
    let better := decide (nTotal < s.nBest)
    { s with
      fReachedTarget := true
      nBest := if better then nTotal else s.nBest
      vfBest := if better then vfIncluded else s.vfBest
      nTotal := toInt64 (nTotal - (vValue.get i).nValue)
      vfIncluded := update vfIncluded i false }
  else { s with nTotal := nTotal, vfIncluded := vfIncluded }

/-- One turn of the inner loop. -/
def Search.visit (bits : ℕ → Bool) (nTargetValue : CAmount) (nPass : ℕ) (s : Search vValue)
    (i : Fin vValue.length) : Search vValue :=
  let (take, s) := s.takes bits nPass i
  if take then s.add nTargetValue i else s

/-- One pass over the coins. -/
def Search.pass (bits : ℕ → Bool) (nTargetValue : CAmount) (nPass : ℕ) (s : Search vValue) :
    Search vValue :=
  (List.finRange vValue.length).foldl (Search.visit bits nTargetValue nPass) s

/-- One repetition: the second pass is skipped when the first reached the target. -/
def Search.repetition (bits : ℕ → Bool) (nTargetValue : CAmount) (s : Search vValue) :
    Search vValue :=
  let s := { s with vfIncluded := fun _ => false, nTotal := 0, fReachedTarget := false }
  let s := s.pass bits nTargetValue 0
  if s.fReachedTarget then s else s.pass bits nTargetValue 1

/-- The outer loop. -/
def Search.repeat (bits : ℕ → Bool) (nTargetValue : CAmount) : ℕ → Search vValue → Search vValue
  | 0, s => s
  | iterations + 1, s =>
    if s.nBest = nTargetValue then s
    else Search.repeat bits nTargetValue iterations (s.repetition bits nTargetValue)

variable (vValue)

/-- The state before the outer loop. -/
def Search.start (nTotalLower : CAmount) : Search vValue :=
  ⟨fun _ => false, 0, false, fun _ => true, nTotalLower, 0⟩

/-- `ApproximateBestSubset`: two passes over the coins, a thousand times; `vfBest` and `nBest`. -/
def approximateBestSubset (bits : ℕ → Bool) (nTotalLower nTargetValue : CAmount) :
    Marks vValue × CAmount :=
  let s := Search.repeat bits nTargetValue 1000 (Search.start vValue nTotalLower)
  (s.vfBest, s.nBest)

/-! ### What the marks are worth -/

variable {vValue} {i : Fin vValue.length}

/-- One more coin is marked. -/
lemma markedValue_update {marks : Marks vValue} (h : marks i = false) :
    markedValue vValue (update marks i true)
      = markedValue vValue marks + (vValue.get i).nValue := by
  unfold markedValue
  rw [← Finset.add_sum_erase _ _ (Finset.mem_univ i),
    ← Finset.add_sum_erase _ (fun j => if marks j then (vValue.get j).nValue else 0)
      (Finset.mem_univ i)]
  have hrest : ∀ j ∈ Finset.univ.erase i, (if update marks i true j
      then (vValue.get j).nValue else 0) = if marks j then (vValue.get j).nValue else 0 := by
    intro j hj
    rw [update_of_ne (Finset.ne_of_mem_erase hj)]
  rw [Finset.sum_congr rfl hrest, update_self, h]
  simp only [if_true, Bool.false_eq_true, if_false]
  ring

lemma markedValue_none : markedValue vValue (fun _ => false) = 0 := by simp [markedValue]

variable (marks : Marks vValue)

/-- The marked coins are worth the sum over the marks. -/
lemma coinsValue_markedCoins :
    coinsValue (markedCoins vValue marks) = markedValue vValue marks := by
  rw [markedValue, Fin.sum_univ_def, coinsValue, markedCoins, map_map]
  induction List.finRange vValue.length with
  | nil => rfl
  | cons i l ih => cases hm : marks i <;> simp [hm, ih]

lemma markedCoins_sublist : (markedCoins vValue marks).Sublist vValue := by
  have h : (markedCoins vValue marks).Sublist ((List.finRange vValue.length).map vValue.get) :=
    filter_sublist.map vValue.get
  rwa [map_get_finRange] at h

/-- The sums of the search fit. -/
lemma SumsFit.toInt64_markedValue (h : SumsFit vValue) :
    Ybtc.toInt64 (markedValue vValue marks) = markedValue vValue marks := by
  rw [← coinsValue_markedCoins]
  exact (h.subperm (markedCoins_sublist marks).subperm).toInt64

/-! ### The invariant of the search -/

/-- The totals are the sums they stand for, and the best one reaches the target. -/
structure Search.Sound (nTargetValue : CAmount) (s : Search vValue) : Prop where
  included : s.nTotal = markedValue vValue s.vfIncluded
  best : s.nBest = markedValue vValue s.vfBest
  reaches : nTargetValue ≤ s.nBest

variable {nTargetValue : CAmount} {bits : ℕ → Bool} {nPass : ℕ} {s : Search vValue}

section

variable (hfit : SumsFit vValue)

include hfit

/-- **Taking a coin** that is not included keeps the invariant. -/
lemma Search.Sound.add_sound (h : s.Sound nTargetValue)
    (hfree : s.vfIncluded i = false) : (s.add nTargetValue i).Sound nTargetValue := by
  have hsum : toInt64 (s.nTotal + (vValue.get i).nValue)
      = markedValue vValue (update s.vfIncluded i true) := by
    rw [h.included, ← markedValue_update hfree, hfit.toInt64_markedValue]
  -- The coin is taken out again.
  have hback : toInt64 (markedValue vValue (update s.vfIncluded i true) - (vValue.get i).nValue)
      = markedValue vValue s.vfIncluded := by
    rw [markedValue_update hfree, add_sub_cancel_right, hfit.toInt64_markedValue]
  unfold Search.add
  simp only [hsum]
  by_cases hreached : nTargetValue ≤ markedValue vValue (update s.vfIncluded i true)
  · simp only [if_pos hreached]
    refine ⟨?_, ?_, ?_⟩
    · rw [update_idem, ← hfree, update_eq_self, hback]
    · by_cases hbetter : markedValue vValue (update s.vfIncluded i true) < s.nBest
      · simp only [hbetter, decide_true, if_true]
      · simpa only [hbetter, decide_false, Bool.false_eq_true, if_false] using h.best
    · by_cases hbetter : markedValue vValue (update s.vfIncluded i true) < s.nBest
      · simpa only [hbetter, decide_true, if_true] using hreached
      · simpa only [hbetter, decide_false, Bool.false_eq_true, if_false] using h.reaches
  · simp only [if_neg hreached]
    exact ⟨rfl, h.best, h.reaches⟩

omit hfit in

lemma Search.add_other {j : Fin vValue.length} (hj : j ≠ i) :
    (s.add nTargetValue i).vfIncluded j = s.vfIncluded j := by
  unfold Search.add
  dsimp only
  split_ifs <;> simp [update_of_ne hj]

/-- Before a coin is visited in the first pass, it is not included. -/
def Search.Fresh (nPass : ℕ) (rest : List (Fin vValue.length)) (s : Search vValue) : Prop :=
  nPass = 0 → ∀ i ∈ rest, s.vfIncluded i = false

/-- One turn of the inner loop. -/
lemma Search.visit_sound {rest : List (Fin vValue.length)}
    (h : s.Sound nTargetValue) (hfresh : s.Fresh nPass (i :: rest)) (hi : i ∉ rest) :
    (s.visit bits nTargetValue nPass i).Sound nTargetValue ∧
      (s.visit bits nTargetValue nPass i).Fresh nPass rest := by
  have hother : ∀ j ∈ rest, j ≠ i := fun j hj hij => hi (hij ▸ hj)
  by_cases hpass : nPass = 0
  · -- The first pass draws a bit.
    have hfree := hfresh hpass
    simp only [Search.visit, Search.takes, if_pos hpass]
    cases bits s.drawn with
    | false => exact ⟨⟨h.included, h.best, h.reaches⟩, fun _ j hj => hfree j (by simp [hj])⟩
    | true =>
      rw [if_pos rfl]
      have hdrawn : Search.Sound nTargetValue { s with drawn := s.drawn + 1 } :=
        ⟨h.included, h.best, h.reaches⟩
      refine ⟨hdrawn.add_sound hfit (hfree i (by simp)), ?_⟩
      intro _ j hj
      rw [Search.add_other (hother j hj)]
      exact hfree j (by simp [hj])
  · simp only [Search.visit, Search.takes, if_neg hpass]
    cases hincluded : s.vfIncluded i with
    | false => exact ⟨h.add_sound hfit hincluded, fun h0 => absurd h0 hpass⟩
    | true => exact ⟨h, fun h0 => absurd h0 hpass⟩

/-- One pass, by induction over the coins that are left. -/
lemma Search.foldl_visit_sound : ∀ {rest : List (Fin vValue.length)} {s : Search vValue},
    rest.Nodup → s.Sound nTargetValue → s.Fresh nPass rest →
      (rest.foldl (Search.visit bits nTargetValue nPass) s).Sound nTargetValue
  | [], _, _, h, _ => h
  | _ :: _, _, hnodup, h, hfresh => by
    rw [nodup_cons] at hnodup
    obtain ⟨hsound, hrest⟩ := Search.visit_sound hfit h hfresh hnodup.1
    rw [foldl_cons]
    exact foldl_visit_sound hnodup.2 hsound hrest

lemma Search.Sound.repetition_sound (h : s.Sound nTargetValue) :
    (s.repetition bits nTargetValue).Sound nTargetValue := by
  unfold Search.repetition
  have hfirst : (Search.pass bits nTargetValue 0
      { s with vfIncluded := fun _ => false, nTotal := 0, fReachedTarget := false }).Sound
        nTargetValue :=
    Search.foldl_visit_sound hfit (nodup_finRange _)
      ⟨markedValue_none.symm, h.best, h.reaches⟩ fun _ _ _ => rfl
  dsimp only
  split_ifs with hreached
  · exact hfirst
  · exact Search.foldl_visit_sound hfit (nodup_finRange _) hfirst fun h0 => absurd h0 one_ne_zero

/-- And all repetitions. -/
lemma Search.repeat_sound : ∀ {iterations : ℕ} {s : Search vValue}, s.Sound nTargetValue →
    (Search.repeat bits nTargetValue iterations s).Sound nTargetValue
  | 0, _, h => h
  | _ + 1, _, h => by
    rw [Search.repeat]
    split_ifs
    · exact h
    · exact repeat_sound (h.repetition_sound hfit)

/-- **The search is sound for every sequence of random bits**: the best sum is the sum of the marked
    coins, and it reaches the target. -/
lemma approximateBestSubset_sound (bits : ℕ → Bool) {nTotalLower : CAmount}
    (hlower : nTotalLower = coinsValue vValue) (htarget : nTargetValue ≤ nTotalLower) :
    (approximateBestSubset vValue bits nTotalLower nTargetValue).2 = coinsValue (markedCoins vValue
            (approximateBestSubset vValue bits nTotalLower nTargetValue).1) ∧
      nTargetValue ≤ (approximateBestSubset vValue bits nTotalLower nTargetValue).2 := by
  have hstart : (Search.start vValue nTotalLower).Sound nTargetValue := by
    refine ⟨markedValue_none.symm, ?_, htarget⟩
    rw [← coinsValue_markedCoins]
    simp only [Search.start, markedCoins, filter_true, map_get_finRange]
    exact hlower
  have hend : (Search.repeat bits nTargetValue 1000 (Search.start vValue nTotalLower)).Sound
      nTargetValue := Search.repeat_sound hfit hstart
  exact ⟨by rw [coinsValue_markedCoins]; exact hend.best, hend.reaches⟩

end

end Search

/-! ## The selection -/

/-- `CTxMemPool::TransactionWithinChainLimit`. -/
def CTxMemPool.transactionWithinChainLimit (pool : CTxMemPool) (txid : Uint256) (chainLimit : ℕ) :
    Bool :=
  match pool.find txid with
  | none => true
  | some it => decide (it.nCountWithAncestors < chainLimit) &&
      decide (it.nCountWithDescendants < chainLimit)

/-- The arguments that say which coins may be used. -/
structure CoinEligibility where
  nConfMine : ℤ
  nConfTheirs : ℤ
  nMaxAncestors : ℕ

/-- The tests at the head of the loop over the coins. -/
def CoinEligibility.accepts (el : CoinEligibility) (mempool : CTxMemPool) (output : COutput) :
    Bool :=
  output.fSpendable &&
    !decide (output.nDepth < if output.tx.isFromMe then el.nConfMine else el.nConfTheirs) &&
    mempool.transactionWithinChainLimit output.tx.hash el.nMaxAncestors

/-- What the code leaves to chance, or to the implementation of the library: the shuffle, the sort
    by value, and the bits of the two searches. -/
structure SelectionChoices where
  shuffle : List COutput → List COutput
  shuffle_perm : ∀ l, (shuffle l).Perm l
  sort : List CInputCoin → List CInputCoin
  sort_perm : ∀ l, (sort l).Perm l
  sort_sorted : ∀ l, (sort l).Pairwise fun a b => a.nValue ≤ b.nValue
  bits : ℕ → Bool
  bitsWithChange : ℕ → Bool

/-- The variables of the loop over the coins. -/
structure CoinScan where
  vValue : List CInputCoin
  nTotalLower : CAmount
  coinLowestLarger : Option CInputCoin

/-- The loop over the coins; a coin that matches the target ends it at once. -/
def scanCoins (accepts : COutput → Bool) (nTargetValue : CAmount) :
    List COutput → CoinScan → CInputCoin ⊕ CoinScan
  | [], s => .inr s
  | output :: vCoins, s =>
    let coin := output.inputCoin
    if !accepts output then scanCoins accepts nTargetValue vCoins s
    else if coin.nValue = nTargetValue then .inl coin
    else if coin.nValue < withChange nTargetValue then
      scanCoins accepts nTargetValue vCoins
        { s with
          vValue := s.vValue ++ [coin]
          nTotalLower := toInt64 (s.nTotalLower + coin.nValue) }
    else if s.coinLowestLarger.all fun lowest => decide (coin.nValue < lowest.nValue) then
      scanCoins accepts nTargetValue vCoins { s with coinLowestLarger := some coin }
    else scanCoins accepts nTargetValue vCoins s

/-- What the function returns: the result, `setCoinsRet` and `nValueRet`. -/
structure CoinSelection where
  found : Bool
  setCoinsRet : List CInputCoin
  nValueRet : CAmount
deriving Repr, DecidableEq

/-- Nothing is selected. -/
def CoinSelection.failed : CoinSelection := ⟨false, [], 0⟩

/-- Coins are inserted one after the other, and their values added. -/
def CoinSelection.ofCoins (coins : List CInputCoin) : CoinSelection :=
  ⟨true, coins.foldl insertCoin [], coins.foldl (fun sum coin => toInt64 (sum + coin.nValue)) 0⟩

/-- The two searches: the second looks for a sum that leaves enough change. -/
def searchSubset (choices : SelectionChoices) (nTargetValue nTotalLower : CAmount)
    (vValue : List CInputCoin) : Marks vValue × CAmount :=
  let first := approximateBestSubset vValue choices.bits nTotalLower nTargetValue
  if first.2 ≠ nTargetValue ∧ withChange nTargetValue ≤ nTotalLower then
    approximateBestSubset vValue choices.bitsWithChange nTotalLower (withChange nTargetValue)
  else first

/-- The bigger coin is preferred to the result of the search. -/
def prefersLarger (nTargetValue nBest : CAmount) (lowest : CInputCoin) : Bool :=
  (decide (nBest ≠ nTargetValue) && decide (nBest < withChange nTargetValue)) ||
    decide (lowest.nValue ≤ nBest)

/-- The part behind the loop over the coins. -/
def selectFromScan (choices : SelectionChoices) (nTargetValue : CAmount) (s : CoinScan) :
    CoinSelection :=
  if s.nTotalLower = nTargetValue then .ofCoins s.vValue
  else if s.nTotalLower < nTargetValue then
    match s.coinLowestLarger with
    | none => .failed
    | some lowest => .ofCoins [lowest]
  else
    let vValue := (choices.sort s.vValue).reverse
    let best := searchSubset choices nTargetValue s.nTotalLower vValue
    match s.coinLowestLarger with
    | some lowest =>
      if prefersLarger nTargetValue best.2 lowest then .ofCoins [lowest]
      else .ofCoins (markedCoins vValue best.1)
    | none => .ofCoins (markedCoins vValue best.1)

/-- `CWallet::SelectCoinsMinConf`. -/
def selectCoinsMinConf (choices : SelectionChoices) (mempool : CTxMemPool) (nTargetValue : CAmount)
    (el : CoinEligibility) (vCoins : List COutput) : CoinSelection :=
  match scanCoins (el.accepts mempool) nTargetValue (choices.shuffle vCoins) ⟨[], 0, none⟩ with
  | .inl coin => .ofCoins [coin]
  | .inr s => selectFromScan choices nTargetValue s

/-- The coins that may be used. -/
def eligibleCoins (accepts : COutput → Bool) (vCoins : List COutput) : List CInputCoin :=
  (vCoins.filter accepts).map COutput.inputCoin

/-! ### The loop over the coins -/

variable {accepts : COutput → Bool} {nTargetValue : CAmount}

/-- What the loop knows of the eligible coins it has seen. -/
structure CoinScan.Covers (nTargetValue : CAmount) (seen : List CInputCoin) (s : CoinScan) :
    Prop where
  total : s.nTotalLower = coinsValue s.vValue
  lower : s.vValue.Sublist seen
  small : ∀ coin ∈ s.vValue, coin.nValue < withChange nTargetValue
  larger : ∀ coin, s.coinLowestLarger = some coin →
    coin ∈ seen ∧ withChange nTargetValue ≤ coin.nValue
  all_lower : s.coinLowestLarger = none → s.vValue = seen

variable {seen : List CInputCoin} {s : CoinScan} {coin : CInputCoin}

/-- A small coin joins the others. -/
lemma CoinScan.Covers.add_lower (h : s.Covers nTargetValue seen)
    (hcoin : coin.nValue < withChange nTargetValue) (hfit : SumsFit (seen ++ [coin])) :
    CoinScan.Covers nTargetValue (seen ++ [coin])
      { s with
        vValue := s.vValue ++ [coin]
        nTotalLower := toInt64 (s.nTotalLower + coin.nValue) } where
  total := by
    have hsum : s.nTotalLower + coin.nValue = coinsValue (s.vValue ++ [coin]) := by simp [h.total]
    rw [hsum, (hfit.subperm (h.lower.append_right [coin]).subperm).toInt64]
  lower := h.lower.append_right [coin]
  small := forall_mem_append.mpr ⟨h.small, forall_mem_singleton.mpr hcoin⟩
  larger := fun c hc => ⟨mem_append_left _ (h.larger c hc).1, (h.larger c hc).2⟩
  all_lower := fun hnone => by rw [h.all_lower hnone]

/-- A bigger coin is the smallest of its kind so far. -/
lemma CoinScan.Covers.add_larger (h : s.Covers nTargetValue seen)
    (hcoin : withChange nTargetValue ≤ coin.nValue) :
    CoinScan.Covers nTargetValue (seen ++ [coin]) { s with coinLowestLarger := some coin } where
  total := h.total
  lower := h.lower.trans (sublist_append_left _ _)
  small := h.small
  larger := fun c hc => by
    cases hc
    exact ⟨by simp, hcoin⟩
  all_lower := fun hnone => by simp at hnone

/-- Another one is passed over. -/
lemma CoinScan.Covers.skip_larger (h : s.Covers nTargetValue seen) (coin : CInputCoin)
    (hsome : s.coinLowestLarger ≠ none) :
    s.Covers nTargetValue (seen ++ [coin]) where
  total := h.total
  lower := h.lower.trans (sublist_append_left _ _)
  small := h.small
  larger := fun c hc => ⟨mem_append_left _ (h.larger c hc).1, (h.larger c hc).2⟩
  all_lower := fun hnone => absurd hnone hsome

/-- What the loop can end with. -/
def ScanEnds (nTargetValue : CAmount) (eligible : List CInputCoin) : CInputCoin ⊕ CoinScan → Prop
  | .inl coin => coin ∈ eligible ∧ coin.nValue = nTargetValue
  | .inr s => s.Covers nTargetValue eligible

/-- **The loop over the coins**, by induction over those that are left. -/
lemma scanCoins_ends : ∀ {vCoins : List COutput} {seen : List CInputCoin} {s : CoinScan},
    SumsFit (seen ++ eligibleCoins accepts vCoins) → s.Covers nTargetValue seen →
      ScanEnds nTargetValue (seen ++ eligibleCoins accepts vCoins)
        (scanCoins accepts nTargetValue vCoins s)
  | [], seen, s, _, h => by simpa [scanCoins, eligibleCoins, ScanEnds] using h
  | output :: vCoins, seen, s, hfit, h => by
    rw [scanCoins]
    cases haccepts : accepts output with
    | false =>
      have heligible : eligibleCoins accepts (output :: vCoins)
          = eligibleCoins accepts vCoins := by simp [eligibleCoins, haccepts]
      rw [heligible] at hfit ⊢
      exact scanCoins_ends hfit h
    | true =>
      have heligible : seen ++ eligibleCoins accepts (output :: vCoins)
          = (seen ++ [output.inputCoin]) ++ eligibleCoins accepts vCoins := by
        simp [eligibleCoins, haccepts]
      rw [heligible] at hfit ⊢
      simp only [Bool.not_true, Bool.false_eq_true, if_false]
      split_ifs with hexact hlower hlargest
      · exact ⟨by simp, hexact⟩
      · exact scanCoins_ends hfit
          (h.add_lower hlower (hfit.subperm (sublist_append_left _ _).subperm))
      · exact scanCoins_ends hfit (h.add_larger (not_lt.mp hlower))
      · refine scanCoins_ends hfit (h.skip_larger _ ?_)
        intro hnone
        simp [hnone] at hlargest

/-! ### What is selected -/

/-- A good selection: coins of the list, worth at least the target. -/
def Serves (nTargetValue : CAmount) (eligible coins : List CInputCoin) : Prop :=
  coins.Subperm eligible ∧ nTargetValue ≤ coinsValue coins

variable {eligible : List CInputCoin}

lemma serves_singleton (hmem : coin ∈ eligible)
    (hvalue : nTargetValue ≤ coin.nValue) : Serves nTargetValue eligible [coin] :=
  ⟨singleton_subperm_iff.mpr hmem, by simpa using hvalue⟩

variable (choices : SelectionChoices)

section

variable (hroom : nTargetValue ≤ withChange nTargetValue)

include hroom

/-- The marked coins reach the target, whichever search has found them. -/
lemma searchSubset_serves {nTotalLower : CAmount} {vValue : List CInputCoin} (hfit : SumsFit vValue)
    (hlower : nTotalLower = coinsValue vValue) (htarget : nTargetValue ≤ nTotalLower) :
    Serves nTargetValue vValue
      (markedCoins vValue (searchSubset choices nTargetValue nTotalLower vValue).1) := by
  refine ⟨(markedCoins_sublist _).subperm, ?_⟩
  unfold searchSubset
  dsimp only
  split_ifs with hchange
  · obtain ⟨hbest, hreaches⟩ :=
      approximateBestSubset_sound hfit choices.bitsWithChange hlower hchange.2
    rw [← hbest]
    exact hroom.trans hreaches
  · obtain ⟨hbest, hreaches⟩ := approximateBestSubset_sound hfit choices.bits hlower htarget
    rw [← hbest]
    exact hreaches

/-- Either nothing is found because the coins do not suffice, or a good selection is. -/
def SelectionEnds (nTargetValue : CAmount) (eligible : List CInputCoin) (r : CoinSelection) :
    Prop :=
  (r = .failed ∧ coinsValue eligible < nTargetValue) ∨
    ∃ coins, Serves nTargetValue eligible coins ∧ r = .ofCoins coins

omit hroom in
lemma SelectionEnds.perm {eligible1 eligible2 : List CInputCoin} {r : CoinSelection}
    (hperm : eligible1.Perm eligible2) (h : SelectionEnds nTargetValue eligible1 r) :
    SelectionEnds nTargetValue eligible2 r := by
  rcases h with ⟨hr, hlt⟩ | ⟨coins, ⟨hsub, hvalue⟩, hr⟩
  · exact Or.inl ⟨hr, by rwa [← coinsValue_perm hperm]⟩
  · exact Or.inr ⟨coins, ⟨hsub.trans hperm.subperm, hvalue⟩, hr⟩

/-- **The part behind the loop**, for a target that leaves room for the change. -/
lemma selectFromScan_ends (hfit : SumsFit eligible) (h : s.Covers nTargetValue eligible) :
    SelectionEnds nTargetValue eligible (selectFromScan choices nTargetValue s) := by
  have hlarger : ∀ coin, s.coinLowestLarger = some coin → Serves nTargetValue eligible [coin] := by
    intro coin hcoin
    obtain ⟨hmem, hvalue⟩ := h.larger coin hcoin
    exact serves_singleton hmem (hroom.trans hvalue)
  unfold selectFromScan
  split_ifs with hexact hlow
  · -- All small coins together are worth the target.
    exact Or.inr ⟨_, ⟨h.lower.subperm, by rw [← h.total, hexact]⟩, rfl⟩
  · -- They are not worth enough: the smallest bigger coin, if there is one.
    cases hlowest : s.coinLowestLarger with
    | none =>
      refine Or.inl ⟨rfl, ?_⟩
      rw [← h.all_lower hlowest, ← h.total]
      exact hlow
    | some lowest => exact Or.inr ⟨_, hlarger lowest hlowest, rfl⟩
  · -- They are worth more: a subset of them, or the bigger coin.
    have hperm : (choices.sort s.vValue).reverse.Perm s.vValue :=
      (reverse_perm _).trans (choices.sort_perm _)
    have hbest : Serves nTargetValue eligible (markedCoins (choices.sort s.vValue).reverse
        (searchSubset choices nTargetValue s.nTotalLower (choices.sort s.vValue).reverse).1) := by
      obtain ⟨hsub, hvalue⟩ := searchSubset_serves choices hroom
        (hfit.subperm (hperm.subperm.trans h.lower.subperm))
        (h.total.trans (coinsValue_perm hperm).symm) (not_lt.mp hlow)
      exact ⟨hsub.trans (hperm.subperm.trans h.lower.subperm), hvalue⟩
    cases hlowest : s.coinLowestLarger with
    | none => exact Or.inr ⟨_, hbest, rfl⟩
    | some lowest =>
      dsimp only
      split_ifs
      · exact Or.inr ⟨_, hlarger lowest hlowest, rfl⟩
      · exact Or.inr ⟨_, hbest, rfl⟩

end

variable (mempool : CTxMemPool) (el : CoinEligibility)

/-- The shuffle does not change what is eligible. -/
lemma eligibleCoins_shuffle (vCoins : List COutput) :
    (eligibleCoins accepts (choices.shuffle vCoins)).Perm (eligibleCoins accepts vCoins) :=
  ((choices.shuffle_perm vCoins).filter _).map _

/-- **The call**: a coin that matches the target, or the part behind the loop over all coins. -/
lemma selectCoinsMinConf_cases {vCoins : List COutput}
    (hfit : SumsFit (eligibleCoins (el.accepts mempool) vCoins)) :
    (∃ coin ∈ eligibleCoins (el.accepts mempool) vCoins, coin.nValue = nTargetValue ∧
      selectCoinsMinConf choices mempool nTargetValue el vCoins = .ofCoins [coin]) ∨
    ∃ seen s, seen.Perm (eligibleCoins (el.accepts mempool) vCoins) ∧ s.Covers nTargetValue seen ∧
      selectCoinsMinConf choices mempool nTargetValue el vCoins
        = selectFromScan choices nTargetValue s := by
  have hshuffled : (eligibleCoins (el.accepts mempool) (choices.shuffle vCoins)).Perm _ :=
    eligibleCoins_shuffle choices vCoins
  have hstart : CoinScan.Covers nTargetValue [] ⟨[], 0, none⟩ :=
    ⟨rfl, List.Sublist.refl _, by simp, by simp, fun _ => rfl⟩
  have hscan : ScanEnds nTargetValue (eligibleCoins (el.accepts mempool) (choices.shuffle vCoins))
      (scanCoins (el.accepts mempool) nTargetValue (choices.shuffle vCoins) ⟨[], 0, none⟩) :=
    scanCoins_ends (hfit.subperm hshuffled.subperm) hstart
  unfold selectCoinsMinConf
  cases hends : scanCoins (el.accepts mempool) nTargetValue (choices.shuffle vCoins)
      ⟨[], 0, none⟩ with
  | inl coin =>
    rw [hends] at hscan
    exact Or.inl ⟨coin, hshuffled.subset hscan.1, hscan.2, rfl⟩
  | inr s =>
    rw [hends] at hscan
    exact Or.inr ⟨_, s, hshuffled, hscan, rfl⟩

/-- **What `SelectCoinsMinConf` can end with**, for a target that leaves room for the change. -/
lemma selectCoinsMinConf_ends {vCoins : List COutput}
    (hfit : SumsFit (eligibleCoins (el.accepts mempool) vCoins))
    (hroom : nTargetValue ≤ withChange nTargetValue) :
    SelectionEnds nTargetValue (eligibleCoins (el.accepts mempool) vCoins)
      (selectCoinsMinConf choices mempool nTargetValue el vCoins) := by
  rcases selectCoinsMinConf_cases choices mempool el hfit with
    ⟨coin, hmem, hvalue, hr⟩ | ⟨seen, s, hperm, hcovers, hr⟩
  · exact Or.inr ⟨_, serves_singleton hmem hvalue.ge, hr⟩
  · rw [hr]
    exact (selectFromScan_ends choices hroom (hfit.subperm hperm.subperm) hcovers).perm hperm

/-- **Without that room a single coin is selected**, whatever it is worth, if there is one.  The sum
    with `MIN_CHANGE` is negative, so every coin counts as a bigger one. -/
lemma selectCoinsMinConf_noRoom (hwrap : withChange nTargetValue ≤ 0) (htarget : 0 < nTargetValue)
    {vCoins : List COutput} (hfit : SumsFit (eligibleCoins (el.accepts mempool) vCoins))
    (hcoins : ∀ coin ∈ eligibleCoins (el.accepts mempool) vCoins, coin.nValue ≠ nTargetValue) :
    (eligibleCoins (el.accepts mempool) vCoins = [] ∧
      selectCoinsMinConf choices mempool nTargetValue el vCoins = .failed) ∨
    ∃ coin ∈ eligibleCoins (el.accepts mempool) vCoins,
      selectCoinsMinConf choices mempool nTargetValue el vCoins = .ofCoins [coin] := by
  rcases selectCoinsMinConf_cases choices mempool el hfit with
    ⟨coin, hmem, hvalue, -⟩ | ⟨seen, s, hperm, hcovers, hr⟩
  · exact absurd hvalue (hcoins coin hmem)
  have hnone : s.vValue = [] := eq_nil_iff_forall_not_mem.mpr fun coin hcoin =>
    absurd (hfit.pos coin (hperm.subset (hcovers.lower.subset hcoin)))
      (not_le.mpr ((hcovers.small coin hcoin).trans_le hwrap))
  have htotal : s.nTotalLower = 0 := by rw [hcovers.total, hnone, coinsValue_nil]
  rw [hr, selectFromScan, htotal, if_neg htarget.ne, if_pos htarget]
  cases hlowest : s.coinLowestLarger with
  | none =>
    have hseen := hcovers.all_lower hlowest
    rw [hnone] at hseen
    exact Or.inl ⟨(hseen ▸ hperm).symm.eq_nil, rfl⟩
  | some coin => exact Or.inr ⟨coin, hperm.subset (hcovers.larger coin hlowest).1, rfl⟩

/-! ## Soundness and completeness -/

/-- The coins `AvailableCoins` lists: no output occurs twice, and there is less money than an
    `int64_t` can count. -/
structure AvailableCoins where
  vCoins : List COutput
  distinct : (vCoins.map fun output => output.inputCoin.outpoint).Nodup
  total : coinsValue (vCoins.map COutput.inputCoin) < 2 ^ 63

/-- The value of a coin of the wallet is in range. -/
lemma inputCoin_moneyRange (output : COutput) : MoneyRange output.inputCoin.nValue :=
  output.tx.moneyRange _ (get_mem _ _)

/-- The sums of the eligible ones fit. -/
lemma AvailableCoins.sumsFit (available : AvailableCoins) :
    SumsFit (eligibleCoins accepts available.vCoins) := by
  have hall : SumsFit (available.vCoins.map COutput.inputCoin) := by
    refine ⟨fun coin hcoin => ?_, available.total⟩
    obtain ⟨output, -, rfl⟩ := mem_map.mp hcoin
    exact (inputCoin_moneyRange output).1
  exact hall.subperm (filter_sublist.map _).subperm

/-- Coins with different outpoints all end up in the set. -/
lemma ofCoins_eq {coins : List CInputCoin} (hfit : SumsFit coins)
    (hnodup : (coins.map outpoint).Nodup) :
    CoinSelection.ofCoins coins = ⟨true, coins, coinsValue coins⟩ := by
  have hset : coins.foldl insertCoin [] = coins := foldl_insertCoin (by simpa using hnodup)
  -- The sum of the coins that were added is stored as it is.
  have hsum : ∀ rest added : List CInputCoin, added ++ rest = coins →
      rest.foldl (fun sum coin => toInt64 (sum + coin.nValue)) (coinsValue added) =
        coinsValue coins := by
    intro rest
    induction rest with
    | nil => rintro added rfl; rw [append_nil]; rfl
    | cons coin rest ih =>
      rintro added rfl
      have happend : added ++ coin :: rest = (added ++ [coin]) ++ rest := by simp
      have hadd : toInt64 (coinsValue added + coin.nValue) = coinsValue (added ++ [coin]) := by
        have hsub : (added ++ [coin]).Sublist (added ++ coin :: rest) := by simp
        rw [← (hfit.subperm hsub.subperm).toInt64, coinsValue_append, coinsValue_cons,
          coinsValue_nil, add_zero]
      rw [foldl_cons, hadd]
      exact ih _ happend.symm
  rw [CoinSelection.ofCoins, hset]
  exact congrArg _ (hsum coins [] rfl)

/-- **What is expected of the selection**: it succeeds exactly when the eligible coins are worth the
    target, and then the set it returns holds eligible coins, is worth `nValueRet`, and reaches the
    target. -/
structure SelectsRightly (nTargetValue : CAmount) (eligible : List CInputCoin) (r : CoinSelection) :
    Prop where
  found : r.found = true ↔ nTargetValue ≤ coinsValue eligible
  selected : r.found = true → r.setCoinsRet ⊆ eligible ∧ (r.setCoinsRet.map outpoint).Nodup ∧
    coinsValue r.setCoinsRet = r.nValueRet ∧ nTargetValue ≤ r.nValueRet

/-- It is so for whatever the selection can end with. -/
lemma SelectionEnds.rightly {r : CoinSelection} (h : SelectionEnds nTargetValue eligible r)
    (hfit : SumsFit eligible) (hdistinct : (eligible.map outpoint).Nodup) :
    SelectsRightly nTargetValue eligible r := by
  rcases h with ⟨rfl, hless⟩ | ⟨coins, hserves, rfl⟩
  · exact ⟨iff_of_false Bool.false_ne_true (not_le.mpr hless), fun h => absurd h Bool.false_ne_true⟩
  · have hnodup : (coins.map outpoint).Nodup := by
      obtain ⟨part, hperm, hsub⟩ := hserves.1
      exact (hperm.map _).nodup_iff.mp ((hsub.map _).nodup hdistinct)
    rw [ofCoins_eq (hfit.subperm hserves.1) hnodup]
    exact ⟨iff_of_true rfl (hserves.2.trans (coinsValue_le_of_subperm hserves.1 hfit.pos)),
      fun _ => ⟨hserves.1.subset, hnodup, rfl, hserves.2⟩⟩

/-- **Coin selection is sound and complete exactly if the target leaves room for the change**, or if
    there are no coins to select from.  For all available coins and every random choice. -/
theorem selectCoinsMinConf_right_iff (target : Int64) (available : AvailableCoins) :
    SelectsRightly target.toInt (eligibleCoins (el.accepts mempool) available.vCoins)
        (selectCoinsMinConf choices mempool target.toInt el available.vCoins) ↔
      target.toInt + minChange < 2 ^ 63 ∨
        eligibleCoins (el.accepts mempool) available.vCoins = [] := by
  have hlow : -2 ^ 63 ≤ target.toInt := Int64.le_toInt target
  have hhigh : target.toInt < 2 ^ 63 := Int64.toInt_lt target
  have hfit : SumsFit (eligibleCoins (el.accepts mempool) available.vCoins) := available.sumsFit
  have hdistinct : ((eligibleCoins (el.accepts mempool) available.vCoins).map outpoint).Nodup := by
    rw [eligibleCoins, map_map]
    exact (filter_sublist.map _).nodup available.distinct
  have hchange : minChange = (1000000 : ℤ) := rfl
  by_cases hroom : target.toInt + minChange < 2 ^ 63
  · refine iff_of_true ?_ (Or.inl hroom)
    have hsum : withChange target.toInt = target.toInt + minChange :=
      toInt64_of_fits ⟨by rw [hchange]; omega, hroom⟩
    refine (selectCoinsMinConf_ends choices mempool el hfit ?_).rightly hfit hdistinct
    rw [hsum, hchange]
    exact le_add_of_nonneg_right (by decide)
  -- The sum wraps: the target is larger than any coin, and the sum less than none.
  have hwrap : withChange target.toInt ≤ 0 := by
    show (target.toInt + minChange + 2 ^ 63) % 2 ^ 64 - 2 ^ 63 ≤ (0 : ℤ)
    rw [hchange] at hroom ⊢
    omega
  have hmore : maxMoney < target.toInt := by
    show (2100000000000000 : ℤ) < target.toInt
    rw [hchange] at hroom
    omega
  have hlarge : ∀ coin ∈ eligibleCoins (el.accepts mempool) available.vCoins,
      coin.nValue < target.toInt := by
    intro coin hcoin
    obtain ⟨output, -, rfl⟩ := mem_map.mp hcoin
    exact (inputCoin_moneyRange output).2.trans_lt hmore
  have htarget : 0 < target.toInt := lt_trans (by decide) hmore
  rcases selectCoinsMinConf_noRoom choices mempool el hwrap htarget hfit
    (fun coin hcoin => (hlarge coin hcoin).ne) with ⟨hnil, hr⟩ | ⟨coin, hcoin, hr⟩
  · refine iff_of_true ?_ (Or.inr hnil)
    rw [hr, hnil]
    exact ⟨iff_of_false Bool.false_ne_true (not_le.mpr htarget), fun h =>
      absurd h Bool.false_ne_true⟩
  · refine iff_of_false (fun h => ?_) (not_or.mpr ⟨hroom, ne_nil_of_mem hcoin⟩)
    rw [hr, ofCoins_eq (hfit.subperm (singleton_subperm_iff.mpr hcoin)) (nodup_singleton _)] at h
    obtain ⟨-, -, -, hreaches⟩ := h.selected rfl
    rw [coinsValue_cons, coinsValue_nil, add_zero] at hreaches
    exact absurd hreaches (not_le.mpr (hlarge coin hcoin))

/-- A wallet with one coin. -/
def oneCoin : COutput :=
  ⟨⟨0, ⟨1, [], [⟨Ybtc.coin, [OP_1]⟩], 0⟩, false, by decide⟩, ⟨0, by decide⟩, 6, true⟩

/-- Nothing is shuffled, and the bits are all set. -/
def SelectionChoices.plain : SelectionChoices where
  shuffle := id
  shuffle_perm := .refl
  sort := insertionSort fun a b => a.nValue ≤ b.nValue
  sort_perm := perm_insertionSort _
  sort_sorted := pairwise_insertionSort _
  bits _ := true
  bitsWithChange _ := true

/-- **One coin is taken for the largest target there is**, which it does not reach. -/
theorem selectCoinsMinConf_short :
    selectCoinsMinConf .plain .empty (2 ^ 63 - 1) ⟨1, 6, 0⟩ [oneCoin] =
        ⟨true, [oneCoin.inputCoin], Ybtc.coin⟩ ∧
      eligibleCoins (CoinEligibility.accepts ⟨1, 6, 0⟩ .empty) [oneCoin] = [oneCoin.inputCoin] ∧
      ¬ SelectsRightly (2 ^ 63 - 1) [oneCoin.inputCoin] ⟨true, [oneCoin.inputCoin], Ybtc.coin⟩ :=
  ⟨rfl, by decide +kernel, fun h => absurd (h.selected rfl).2.2.2 (by decide)⟩

end Ybtc
