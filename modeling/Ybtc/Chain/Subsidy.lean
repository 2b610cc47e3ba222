import Mathlib
import Ybtc.Chain.BlockIndex

/-!
# The money supply

`GetBlockSubsidy` pays eight coins for a block, halves them every 9 500 000 blocks, and pays 2 100
000 coins at height 2.  The limit on amounts was left at 21 000 000 coins.  The main result is
`minted_moneyRange_iff`.
-/

namespace Ybtc

/-! ## Networks -/

/-- The networks with a subsidy at height 2. -/
inductive Network
  | main
  | test
deriving Repr, DecidableEq

/-- `CMainParams` and `CTestNetParams`; what the version bits say depends on the chain. -/
def Network.params (versionBitsActive : Option CBlockIndex → DeploymentPos → Bool) :
    Network → ConsensusParams
  | .main => {
      hashGenesisBlock := 0x0000520287602ce9341f60886a24d9dfcb8b66ae46c96d914670a68a3263715f
      nSubsidyHalvingInterval := 9500000
      bip34Height := 227931
      bip34Hash := 0x000000000000024b89b42a942fe0d9fea3bb44ab7bd1b19115dd6a759c0808b8
      bip65Height := 388381
      bip66Height := 363725
      fRegTest := false
      versionBitsActive := versionBitsActive }
  | .test => {
      hashGenesisBlock := 0x04b4fe90f93514de0f38af8a1bee000fa583b76f54085212670fb7bb6e5bcb5d
      nSubsidyHalvingInterval := 9500000
      bip34Height := 21111
      bip34Hash := 0x0000000023b3a96d3484e5abb3755c413e7d41500f8e2a5c3f0dd01299cd8ef8
      bip65Height := 581885
      bip66Height := 330776
      fRegTest := false
      versionBitsActive := versionBitsActive }

variable {versionBitsActive : Option CBlockIndex → DeploymentPos → Bool} (net : Network)

/-- The networks do not differ in what the subsidy depends on. -/
@[simp] lemma Network.params_interval :
    (net.params versionBitsActive).nSubsidyHalvingInterval = 9500000 := by cases net <;> rfl

@[simp] lemma Network.params_fRegTest : (net.params versionBitsActive).fRegTest = false := by
  cases net <;> rfl

/-! ## The sum -/

/-- The subsidies of the heights `1`, …, `h`. -/
def minted (params : ConsensusParams) (h : ℕ) : CAmount :=
  ∑ i ∈ Finset.range h, getBlockSubsidy (i + 1) params

variable (params : ConsensusParams)

lemma minted_succ (h : ℕ) :
    minted params (h + 1) = minted params h + getBlockSubsidy (h + 1) params :=
  Finset.sum_range_succ _ _

/-- The sum never falls. -/
lemma minted_mono : Monotone (minted params) := by
  refine monotone_nat_of_le_succ fun h => ?_
  rw [minted_succ]
  exact le_add_of_nonneg_right (getBlockSubsidy_nonneg _ _)

/-- The subsidy before the first halving. -/
lemma getBlockSubsidy_early {h : ℕ} (hh : h < 9500000) :
    getBlockSubsidy h (net.params versionBitsActive) =
      if h = 2 then 2100000 * coin else 8 * coin := by
  have hdiv : h / 9500000 = 0 := Nat.div_eq_of_lt hh
  simp [getBlockSubsidy, hdiv]

/-- **The sum before the first halving**, from height 2 on. -/
lemma minted_early {h : ℕ} (hlow : 2 ≤ h) (hhigh : h < 9500000) :
    minted (net.params versionBitsActive) h = (2100000 + 8 * ((h : ℤ) - 1)) * coin := by
  induction h, hlow using Nat.le_induction with
  | base =>
    rw [minted_succ, minted_succ, getBlockSubsidy_early net (by norm_num),
      getBlockSubsidy_early net (by norm_num)]
    rfl
  | succ h hlow ih =>
    rw [minted_succ, ih (by omega), getBlockSubsidy_early net hhigh, if_neg (by omega)]
    push_cast
    ring

/-- The last height at which the sum is a valid amount. -/
def lastSoundHeight : ℕ := 2362501

/-- At that height it is the largest valid amount. -/
lemma minted_lastSoundHeight :
    minted (net.params versionBitsActive) lastSoundHeight = maxMoney := by
  rw [minted_early net (by decide) (by decide)]
  rfl

/-- **The sum of the subsidies is a valid amount up to height 2 362 501, and never again.** -/
theorem minted_moneyRange_iff (h : ℕ) :
    MoneyRange (minted (net.params versionBitsActive) h) ↔ h ≤ lastSoundHeight := by
  constructor
  · rintro ⟨-, hmax⟩
    by_contra hlt
    have hnext : minted (net.params versionBitsActive) (lastSoundHeight + 1) ≤ maxMoney :=
      (minted_mono _ (not_le.mp hlt)).trans hmax
    rw [minted_succ, minted_lastSoundHeight, getBlockSubsidy_early net (by decide)] at hnext
    exact absurd hnext (by decide)
  · intro hle
    refine ⟨Finset.sum_nonneg fun _ _ => getBlockSubsidy_nonneg _ _, ?_⟩
    calc minted (net.params versionBitsActive) h
        ≤ minted (net.params versionBitsActive) lastSoundHeight := minted_mono _ hle
      _ = maxMoney := minted_lastSoundHeight net

/-- One block later eight coins too many were minted. -/
theorem minted_exceeds_maxMoney :
    minted (Network.main.params fun _ _ => false) 2362502 = maxMoney + 8 * coin ∧
      ¬ MoneyRange (minted (Network.main.params fun _ _ => false) 2362502) := by
  have hsum : minted (Network.main.params fun _ _ => false) 2362502 = maxMoney + 8 * coin := by
    rw [minted_early .main (by decide) (by decide)]
    rfl
  refine ⟨hsum, ?_⟩
  rw [hsum]
  rintro ⟨-, hmax⟩
  exact absurd hmax (by decide)

end Ybtc
