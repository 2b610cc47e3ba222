import Ybtc.Miner.PackageSteps
import Ybtc.Miner.Coinbase

/-!
# The package selection

The loop of `addPackageTxs` as a whole, over a consistent pool.  The main result is
`addPackageTxs_selects`.
-/

namespace Ybtc

namespace Packages

open CTxMemPool Stateful List CTxMemPoolEntry Quantity Assembler

/-! ## The block -/

/-- Every ancestor comes before its descendants. -/
def AncestorsFirst (pool : CTxMemPool) (hs : List Uint256) : Prop :=
  ∀ before h after, hs = before ++ h :: after → ∀ a, pool.Ancestor a h → a ∈ before

/-- **The block holds the given entries behind its coinbase**, each once and after its ancestors. -/
structure Placed (pool : CTxMemPool) (cb : CTransaction) (A : Assembler)
    (entries : List CTxMemPoolEntry) : Prop where
  vtx : A.vtx = cb :: entries.map tx
  inBlock : A.inBlock = (entries.map hash).reverse
  mem : ∀ e ∈ entries, e ∈ pool.mapTx
  nodup : (entries.map hash).Nodup
  first : AncestorsFirst pool (entries.map hash)

section Selection

variable {ctx : MinerContext} {w : Bool} {cb : CTransaction} {A A' : Assembler}
  {sel sel' : Selection} {s₀ s s' : ctx.E.State} {entries : List CTxMemPoolEntry}

variable {hs : List Uint256} {x : Uint256} {package : List CTxMemPoolEntry} {iter : CTxMemPoolEntry}
  {q : Quantity}

/-- Ancestors are first if they are there and do not come later. -/
lemma ancestorsFirst_of_pairwise (hc : ctx.pool.Consistent)
    (hclosed : ∀ h ∈ hs, ∀ a, ctx.pool.Ancestor a h → a ∈ hs)
    (horder : hs.Pairwise fun x y => ¬ ctx.pool.Ancestor y x) : AncestorsFirst ctx.pool hs := by
  rintro before h after rfl a ha
  have hlater := (pairwise_cons.mp (pairwise_append.mp horder).2.1).1
  rcases mem_append.mp (hclosed h (by simp) a ha) with hb | hrest
  · exact hb
  · rcases mem_cons.mp hrest with rfl | hafter
    · exact absurd ha (hc.acyclic a)
    · exact absurd ha (hlater a hafter)

variable {pool : CTxMemPool} {a : Uint256}

lemma AncestorsFirst.closed (h : AncestorsFirst pool hs)
    (hx : x ∈ hs) (ha : pool.Ancestor a x) : a ∈ hs := by
  obtain ⟨before, after, rfl⟩ := append_of_mem hx
  exact mem_append_left _ (h before x after rfl a ha)

lemma AncestorsFirst.pairwise (hn : hs.Nodup) (h : AncestorsFirst pool hs) :
    hs.Pairwise fun x y => ¬ pool.Ancestor y x := by
  induction hs using List.reverseRecOn with
  | nil => simp
  | append_singleton hs x ih =>
    obtain ⟨hn, -, hdisjoint⟩ := nodup_append.mp hn
    rw [pairwise_append]
    refine ⟨ih hn ?_, by simp, ?_⟩
    · rintro before y after rfl a ha
      exact h before y (after ++ [x]) (by simp) a ha
    · intro y hy z hz hanc
      obtain ⟨before, after, rfl⟩ := append_of_mem hy
      have hzin := h before y (after ++ [x]) (by simp) z hanc
      exact hdisjoint z (by simp [hzin]) z hz rfl

lemma Placed.mem_inBlock (h : Placed ctx.pool cb A entries) :
    x ∈ A.inBlock ↔ x ∈ entries.map hash := by
  rw [h.inBlock, mem_reverse]

lemma sortForBlock_hashes : x ∈ (sortForBlock package).map hash ↔
      x ∈ package.map hash :=
  ((perm_insertionSort _ package).map _).mem_iff

/-- **A package on top** of a block that holds none of it. -/
lemma Placed.add (hc : ctx.pool.Consistent) (h : Placed ctx.pool cb A entries)
    (hpool : ∀ e ∈ package, e ∈ ctx.pool.mapTx) (hnodup : (package.map hash).Nodup)
    (hpackage : (package.map hash).toFinset = remaining ctx.pool A.inBlock iter.hash)
    (hgrown : Grown A A' (sortForBlock package)) :
    Placed ctx.pool cb A' (entries ++ sortForBlock package) := by
  have hmem : ∀ x, x ∈ (sortForBlock package).map hash ↔
      x ∈ remaining ctx.pool A.inBlock iter.hash := by
    intro x
    rw [sortForBlock_hashes, ← hpackage, mem_toFinset]
  have hout : ∀ x ∈ (sortForBlock package).map hash,
      x ∉ entries.map hash := by
    intro x hx hin
    exact (mem_remaining.mp ((hmem x).mp hx)).2.2 (h.mem_inBlock.mpr hin)
  have hsorted : ∀ e ∈ sortForBlock package, e ∈ ctx.pool.mapTx :=
    fun e he => hpool e ((mem_insertionSort _).mp he)
  refine ⟨?_, ?_, ?_, ?_, ?_⟩
  · simp [hgrown.vtx, h.vtx]
  · simp [hgrown.inBlock, h.inBlock]
  · intro e he
    rcases mem_append.mp he with he | he
    · exact h.mem e he
    · exact hsorted e he
  · rw [map_append, nodup_append]
    refine ⟨h.nodup, ((perm_insertionSort _ package).map _).nodup_iff.mpr hnodup, ?_⟩
    rintro x hx y hy rfl
    exact hout x hy hx
  · rw [map_append]
    refine ancestorsFirst_of_pairwise hc ?_ ?_
    · intro x hx a ha
      rcases mem_append.mp hx with hx | hx
      · exact mem_append_left _ (h.first.closed hx ha)
      · -- an ancestor of the package is in the block, or part of the package
        obtain ⟨-, hxi, -⟩ := mem_remaining.mp ((hmem x).mp hx)
        have hai : ctx.pool.Ancestor a iter.hash := by
          rcases hxi with rfl | hxi
          · exact ha
          · exact ha.trans hxi
        by_cases hin : a ∈ A.inBlock
        · exact mem_append_left _ (h.mem_inBlock.mp hin)
        · refine mem_append_right _ ((hmem a).mpr ?_)
          exact mem_remaining.mpr ⟨(hc.ancestor_mem ha).2, Or.inr hai, hin⟩
    · rw [pairwise_append]
      refine ⟨h.first.pairwise h.nodup, pairwise_map.mpr (sortForBlock_order hc hpool), ?_⟩
      intro x hx y hy hanc
      exact hout y hy (h.first.closed hx hanc)

/-! ## What remains -/

variable {h : Uint256}

open Classical in
/-- What remains when transactions are added: less by the ancestors among them. -/
lemma total_remaining_add {value : CTxMemPoolEntry → ℤ} {added inBlock inBlock' : List Uint256}
    (hpool : ∀ a ∈ added, a ∈ pool.hashes) (hout : ∀ a ∈ added, a ∉ inBlock)
    (hblock : ∀ x, x ∈ inBlock' ↔ x ∈ added ∨ x ∈ inBlock) (hh : h ∉ added) :
    pool.total value (remaining pool inBlock' h) = pool.total value (remaining pool inBlock h)
      - pool.total value (added.toFinset.filter (pool.Ancestor · h)) := by
  have hsub : added.toFinset.filter (pool.Ancestor · h) ⊆ remaining pool inBlock h := by
    intro a ha
    rw [Finset.mem_filter, mem_toFinset] at ha
    exact mem_remaining.mpr ⟨hpool a ha.1, Or.inr ha.2, hout a ha.1⟩
  have hdiff : remaining pool inBlock' h
      = remaining pool inBlock h \ added.toFinset.filter (pool.Ancestor · h) := by
    ext a
    simp only [Finset.mem_sdiff, mem_remaining, Finset.mem_filter, mem_toFinset, hblock, not_or]
    constructor
    · rintro ⟨hp, hanc, hna, hnb⟩
      exact ⟨⟨hp, hanc, hnb⟩, fun hin => hna hin.1⟩
    · rintro ⟨⟨hp, hanc, hnb⟩, hno⟩
      refine ⟨hp, hanc, fun hin => ?_, hnb⟩
      rcases hanc with rfl | hanc
      · exact hh hin
      · exact hno ⟨hin, hanc⟩
  have hsum := Finset.sum_sdiff (f := pool.valueAt value) hsub
  rw [hdiff]
  unfold total
  omega

/-! ## An added package -/

/-- **What an added package leaves**, with the entry it was chosen for. -/
structure PackageAdded (ctx : MinerContext) (A : Assembler) (sel : Selection)
    (iter : CTxMemPoolEntry) (package : List CTxMemPoolEntry) (A' : Assembler)
    (M' : List CTxMemPoolModifiedEntry) : Prop where
  mem : ∀ e ∈ package, e ∈ ctx.pool.mapTx
  nodup : (package.map hash).Nodup
  hashes : (package.map hash).toFinset = remaining ctx.pool A.inBlock iter.hash
  grown : Grown A A' (sortForBlock package)
  inBlock : ∀ x, x ∈ A'.inBlock ↔ x ∈ package.map hash ∨ x ∈ A.inBlock
  keys_nodup : (modifiedKeys M').Nodup
  keys : ∀ h, h ∈ modifiedKeys M' ↔ h ∉ package.map hash ∧
    (h ∈ modifiedKeys sel.mapModifiedTx ∨
      ∃ a ∈ package.map hash, ctx.pool.Ancestor a h)
  /-- A total is as far from what remains as it was before. -/
  error : ∀ (q : Quantity) h, h ∉ A'.inBlock →
    (∀ it ∈ ctx.pool.mapTx, ctx.pool.Ancestor it.hash h → q.Tracks it) →
    q.current ctx.pool M' h - ctx.pool.total q.ofEntry (remaining ctx.pool A'.inBlock h)
      = q.current ctx.pool sel.mapModifiedTx h
        - ctx.pool.total q.ofEntry (remaining ctx.pool A.inBlock h)

lemma Listed.packageAdded (hc : ctx.pool.Consistent) (hlist : Listed ctx A sel)
    {M' : List CTxMemPoolModifiedEntry} (hiter : iter ∈ ctx.pool.mapTx)
    (hnot : iter.hash ∉ A.inBlock) (hpackage : packageOf ctx A iter = .ok package)
    (hgrown : Grown A A' (sortForBlock package))
    (hmodified : updatePackagesForAdded ctx (package.map hash)
      (sel.mapModifiedTx.filter fun m => !(package.map hash).contains m.iter)
        = .ok M') : PackageAdded ctx A sel iter package A' M' := by
  obtain ⟨package', hpackage', hmem, hnodup, hhashes⟩ := packageOf_spec hc hiter hnot
  obtain rfl : package' = package := Except.ok.inj (hpackage'.symm.trans hpackage)
  have hpool : ∀ a ∈ package'.map hash, a ∈ ctx.pool.hashes := by
    intro a ha
    obtain ⟨e, he, rfl⟩ := mem_map.mp ha
    exact hash_mem (hmem e he)
  have hout : ∀ a ∈ package'.map hash, a ∉ A.inBlock := by
    intro a ha
    rw [← mem_toFinset, hhashes] at ha
    exact (mem_remaining.mp ha).2.2
  have hblock : ∀ x, x ∈ A'.inBlock ↔ x ∈ package'.map hash ∨ x ∈ A.inBlock := by
    intro x
    rw [hgrown.inBlock, mem_append, mem_reverse, sortForBlock_hashes]
  obtain ⟨M1, hM1, hkeys_nodup, hkeys, hcurrent⟩ := updatePackagesForAdded_spec hc hnodup hpool
    (sel.mapModifiedTx.filter fun m => !(package'.map hash).contains m.iter)
  obtain rfl : M1 = M' := Except.ok.inj (hM1.symm.trans hmodified)
  refine ⟨hmem, hnodup, hhashes, hgrown, hblock, ?_, ?_, ?_⟩
  · refine hkeys_nodup (hlist.nodup.sublist ?_)
    exact filter_sublist.map _
  · intro h
    rw [hkeys, modifiedKeys_filter fun k => !(package'.map hash).contains k]
    simp only [mem_filter, contains_eq_mem, Bool.not_eq_true', decide_eq_false_iff_not]
    tauto
  · intro q h hh htrack
    have hnew : h ∉ package'.map hash := fun hin => hh ((hblock h).mpr (Or.inl hin))
    rw [hcurrent q h hnew fun it hit _ hanc => htrack it hit hanc, current_filter,
      total_remaining_add hpool hout hblock hnew]
    · ring
    · rintro m - rfl
      simpa using hnew

/-! ## Totals that are never too small -/

/-- The size and the signature operations, which the limits are about. -/
def Limited (q : Quantity) : Prop := q = .size ∨ q = .sigOps

lemma Limited.nonneg (hq : Limited q) (e : CTxMemPoolEntry) : 0 ≤ q.ofEntry e := by
  rcases hq with rfl | rfl
  · exact Int.natCast_nonneg _
  · exact Int.natCast_nonneg _

lemma Limited.tracks (hq : Limited q) (it : CTxMemPoolEntry) : q.Tracks it := by
  rcases hq with rfl | rfl
  · exact size_tracks it
  · exact sigOps_tracks it

lemma Limited.cached (hc : ctx.pool.Consistent) (hq : Limited q) : q.Cached ctx.pool := by
  rcases hq with rfl | rfl
  · exact hc.size
  · exact hc.sigOps

/-- The totals cover what remains, and are at most those of the whole pool. -/
def Covers (ctx : MinerContext) (A : Assembler) (sel : Selection) : Prop :=
  ∀ q, Limited q → ∀ h ∈ ctx.pool.hashes, h ∉ A.inBlock →
    ctx.pool.total q.ofEntry (remaining ctx.pool A.inBlock h)
        ≤ q.current ctx.pool sel.mapModifiedTx h ∧
      q.current ctx.pool sel.mapModifiedTx h ≤ ctx.pool.total q.ofEntry ctx.pool.hashes.toFinset

/-- The totals of the pool cover everything. -/
lemma pool_covers (hc : ctx.pool.Consistent) (hq : Limited q) {M : List CTxMemPoolModifiedEntry}
    (hh : h ∈ ctx.pool.hashes) (hkey : h ∉ modifiedKeys M) (inBlock : List Uint256) :
    ctx.pool.total q.ofEntry (remaining ctx.pool inBlock h) ≤ q.current ctx.pool M h ∧
      q.current ctx.pool M h ≤ ctx.pool.total q.ofEntry ctx.pool.hashes.toFinset := by
  obtain ⟨e, he, rfl⟩ := mem_hashes.mp hh
  rw [current_of_notMem hkey, hc.valueAt _ he, hq.cached hc e he]
  exact ⟨total_mono hq.nonneg Finset.sdiff_subset,
    total_mono hq.nonneg fun _ ha => mem_toFinset.mpr (mem_ancestry.mp ha).1⟩

/-- **The invariant of the loop.**  The totals the assembler goes by are never too small, so a
    package that passes `TestPackage` keeps the limits. -/
structure Sound (ctx : MinerContext) (cb : CTransaction) (A : Assembler) (sel : Selection)
    (entries : List CTxMemPoolEntry) : Prop where
  placed : Placed ctx.pool cb A entries
  listed : Listed ctx A sel
  mi_length : sel.mi.length ≤ ctx.pool.mapTx.length
  covers : Covers ctx A sel
  /-- The weight that is reserved for the coinbase may be the whole block already. -/
  weight : A.nBlockWeight = 4000 ∨ A.nBlockWeight < ctx.nBlockMaxWeight
  sigOps : A.nBlockSigOpsCost < maxBlockSigopsCost

lemma Listed.advance (hlist : Listed ctx A sel) {mi : List CTxMemPoolEntry}
    (hmi : sel.mi = iter :: mi) (n : ℕ) : Listed ctx A ⟨mi, sel.mapModifiedTx, sel.failedTx, n⟩ :=
  ⟨fun e he => hlist.mi e (hmi ▸ mem_cons_of_mem iter he), hlist.nodup, hlist.modified⟩

lemma Listed.fail (hlist : Listed ctx A sel) (h : Uint256) (n : ℕ) : Listed ctx A
      ⟨sel.mi, sel.mapModifiedTx.filter fun m => m.iter != h, h :: sel.failedTx, n⟩ := by
  refine ⟨hlist.mi, ?_, ?_⟩
  · rw [modifiedKeys_filter fun k => k != h]
    exact hlist.nodup.filter _
  · intro k hk
    rw [modifiedKeys_filter fun k => k != h] at hk
    exact hlist.modified k (mem_filter.mp hk).1

section Added

variable {iter : CTxMemPoolEntry} {package mi : List CTxMemPoolEntry}
  {M' : List CTxMemPoolModifiedEntry}

lemma PackageAdded.new (h : PackageAdded ctx A sel iter package A' M')
    (ha : a ∈ package.map hash) : a ∉ A.inBlock := by
  rw [← mem_toFinset, h.hashes] at ha
  exact (mem_remaining.mp ha).2.2

lemma PackageAdded.listed (hc : ctx.pool.Consistent) (hplaced : Placed ctx.pool cb A entries)
    (hlist : Listed ctx A sel) (h : PackageAdded ctx A sel iter package A' M')
    (hmi : mi <:+ sel.mi) (n : ℕ) : Listed ctx A' ⟨mi, M', sel.failedTx, n⟩ := by
  refine ⟨fun e he => hlist.mi e (hmi.mem he), h.keys_nodup, ?_⟩
  intro k hk
  obtain ⟨hnew, hk⟩ := (h.keys k).mp hk
  have hin : k ∈ A'.inBlock → k ∈ A.inBlock := by
    intro hk'
    exact ((h.inBlock k).mp hk').resolve_left hnew
  rcases hk with hk | ⟨a, ha, hanc⟩
  · exact ⟨(hlist.modified k hk).1, fun hk' => (hlist.modified k hk).2 (hin hk')⟩
  · -- were the descendant in the block, so would be the ancestor that is only added now
    refine ⟨(hc.ancestor_mem hanc).1, fun hk' => h.new ha ?_⟩
    exact hplaced.mem_inBlock.mpr (hplaced.first.closed (hplaced.mem_inBlock.mp (hin hk')) hanc)

lemma PackageAdded.covers (hcovers : Covers ctx A sel)
    (h : PackageAdded ctx A sel iter package A' M') (n : ℕ) :
    Covers ctx A' ⟨mi, M', sel.failedTx, n⟩ := by
  intro q hq k hk hout
  have hold : k ∉ A.inBlock := fun hin => hout ((h.inBlock k).mpr (Or.inr hin))
  have herror := h.error q k hout fun it _ _ => hq.tracks it
  have hless : ctx.pool.total q.ofEntry (remaining ctx.pool A'.inBlock k)
      ≤ ctx.pool.total q.ofEntry (remaining ctx.pool A.inBlock k) := by
    refine total_mono hq.nonneg fun x hx => ?_
    obtain ⟨hp, hanc, hno⟩ := mem_remaining.mp hx
    exact mem_remaining.mpr ⟨hp, hanc, fun hin => hno ((h.inBlock x).mpr (Or.inr hin))⟩
  obtain ⟨hlow, hhigh⟩ := hcovers q hq k hk hold
  show _ ≤ q.current ctx.pool M' k ∧ q.current ctx.pool M' k ≤ _
  omega

/-! ## The limits -/

lemma weights_le_sizes (es : List CTxMemPoolEntry) : (es.map getTxWeight).sum
      ≤ witnessScaleFactor * (es.map getTxSize).sum := by
  induction es with
  | nil => simp
  | cons e es ih =>
    have he : e.getTxWeight ≤ witnessScaleFactor * e.getTxSize := by
      unfold getTxSize getVirtualTransactionSize witnessScaleFactor
      omega
    simp only [map_cons, sum_cons, Nat.mul_add]
    omega

/-- The sums over a package are the totals over what remained. -/
lemma PackageAdded.sums (hc : ctx.pool.Consistent) (h : PackageAdded ctx A sel iter package A' M') :
    (((package.map getTxSize).sum : ℕ) : ℤ)
        = ctx.pool.total size.ofEntry (remaining ctx.pool A.inBlock iter.hash) ∧
      (((package.map sigOpCost).sum : ℕ) : ℤ)
        = ctx.pool.total sigOps.ofEntry (remaining ctx.pool A.inBlock iter.hash) := by
  rw [← h.hashes, hc.total_map _ h.mem h.nodup, hc.total_map _ h.mem h.nodup]
  constructor
  · simp [size, Nat.cast_list_sum, Function.comp_def]
  · simp [sigOps, Nat.cast_list_sum, Function.comp_def]

lemma toUint64_of_fits {n : ℤ} (h0 : 0 ≤ n) (h1 : n < 2 ^ 64) : (toUint64 n : ℤ) = n := by
  unfold toUint64
  rw [Int.emod_eq_of_lt h0 h1, Int.toNat_of_nonneg h0]

/-- **A package that passes `TestPackage` keeps the limits.** -/
lemma PackageAdded.limits (hc : ctx.pool.Consistent) (hsound : Sound ctx cb A sel entries)
    (h : PackageAdded ctx A sel iter package A' M') (hiter : iter ∈ ctx.pool.mapTx)
    (hnot : iter.hash ∉ A.inBlock) (hfits : Fits ctx A sel iter.hash) :
    A'.nBlockWeight < ctx.nBlockMaxWeight ∧ A'.nBlockSigOpsCost < maxBlockSigopsCost := by
  obtain ⟨hsize, hsig⟩ := h.sums hc
  obtain ⟨hsizeLow, hsizeHigh⟩ := hsound.covers .size (Or.inl rfl) iter.hash (hash_mem hiter) hnot
  obtain ⟨hsigLow, hsigHigh⟩ := hsound.covers .sigOps (Or.inr rfl) iter.hash (hash_mem hiter) hnot
  have hsizeFits : size.current ctx.pool sel.mapModifiedTx iter.hash < 2 ^ 63 := by
    have hfits : 4 * ctx.pool.total size.ofEntry ctx.pool.hashes.toFinset < 2 ^ 63 := hc.size_fits
    omega
  have hsigFits : sigOps.current ctx.pool sel.mapModifiedTx iter.hash < 2 ^ 63 :=
    lt_of_le_of_lt hsigHigh hc.sigOps_fits
  have hweights := weights_le_sizes package
  have hperm := perm_insertionSort (fun a b => compareByAncestorCount a b = true) package
  have hweightSum : ((sortForBlock package).map getTxWeight).sum
      = (package.map getTxWeight).sum := (hperm.map _).sum_eq
  have hsigSum : ((sortForBlock package).map sigOpCost).sum
      = (package.map sigOpCost).sum := (hperm.map _).sum_eq
  have hlimit := hsound.sigOps
  unfold maxBlockSigopsCost at *
  rw [Fits, testPackage, Bool.and_eq_true, decide_eq_true_eq, decide_eq_true_eq] at hfits
  have h1 := toUint64_of_fits (n := size.current ctx.pool sel.mapModifiedTx iter.hash)
    (by omega) (by omega)
  have h2 := toUint64_of_fits (n := A.nBlockSigOpsCost
    + sigOps.current ctx.pool sel.mapModifiedTx iter.hash) (by omega) (by omega)
  unfold maxBlockSigopsCost at hfits
  unfold witnessScaleFactor at *
  rw [h.grown.weight, h.grown.sigOps, hweightSum, hsigSum]
  omega

end Added

/-! ## The loop -/

/-- Giving up on an entry leaves the totals of the pool for it. -/
lemma Covers.fail (hc : ctx.pool.Consistent) (hcovers : Covers ctx A sel) (h : Uint256) (n : ℕ) :
    Covers ctx A ⟨sel.mi, sel.mapModifiedTx.filter fun m => m.iter != h, h :: sel.failedTx, n⟩ := by
  intro q hq k hk hout
  by_cases hkh : k = h
  · refine pool_covers hc hq hk ?_ A.inBlock
    rw [modifiedKeys_filter fun k => k != h]
    simp [hkh]
  · rw [current_filter]
    · exact hcovers q hq k hk hout
    · rintro m - rfl
      simpa using hkh

/-- **One step** keeps the invariant. -/
lemma Sound.step (hc : ctx.pool.Consistent) (hsound : Sound ctx cb A sel entries)
    (hstep : Step ctx A sel A' sel') : ∃ entries', Sound ctx cb A' sel' entries' := by
  cases hstep with
  | advance hmi =>
    refine ⟨entries, hsound.placed, hsound.listed.advance hmi _, ?_, hsound.covers,
      hsound.weight, hsound.sigOps⟩
    have hlen := hsound.mi_length
    rw [hmi, length_cons] at hlen
    exact Nat.le_of_succ_le hlen
  | fail hh =>
    exact ⟨entries, hsound.placed, hsound.listed.fail _ _, hsound.mi_length,
      hsound.covers.fail hc _ _, hsound.weight, hsound.sigOps⟩
  | @add iter mi package _ M' _ hiter hnot hmi hfits hpackage hgrown hmodified =>
    have hadded := hsound.listed.packageAdded hc hiter hnot hpackage hgrown hmodified
    obtain ⟨hweight, hsigOps⟩ := hadded.limits hc hsound hiter hnot hfits
    exact ⟨_, hsound.placed.add hc hadded.mem hadded.nodup hadded.hashes hadded.grown,
      hadded.listed hc hsound.placed hsound.listed hmi 0,
      hmi.length_le.trans hsound.mi_length, hadded.covers hsound.covers 0, Or.inr hweight,
      hsigOps⟩

/-- A bound on the number of turns that are left. -/
def budget (ctx : MinerContext) (A : Assembler) (sel : Selection) : ℕ :=
  (ctx.pool.mapTx.length - A.inBlock.length) * (2 * ctx.pool.mapTx.length + 1)
    + sel.mi.length + sel.mapModifiedTx.length

lemma Listed.modified_length (hlist : Listed ctx A sel) :
    sel.mapModifiedTx.length ≤ ctx.pool.mapTx.length := by
  have hle := (subperm_of_subset hlist.nodup fun h hh => (hlist.modified h hh).1).length_le
  simpa [modifiedKeys, hashes] using hle

lemma Placed.length_le (h : Placed ctx.pool cb A entries) :
    A.inBlock.length ≤ ctx.pool.mapTx.length := by
  have hsub : entries.map hash ⊆ ctx.pool.hashes := by
    intro x hx
    obtain ⟨e, he, rfl⟩ := mem_map.mp hx
    exact hash_mem (h.mem e he)
  have hle := (subperm_of_subset h.nodup hsub).length_le
  rw [h.inBlock, length_reverse]
  simpa [hashes] using hle

section

variable (hc : ctx.pool.Consistent)

include hc

/-- **Every step spends some of the budget.** -/
lemma Sound.budget_lt (hsound : Sound ctx cb A sel entries)
    (hstep : Step ctx A sel A' sel') : budget ctx A' sel' < budget ctx A sel := by
  obtain ⟨entries', hsound'⟩ := hsound.step hc hstep
  cases hstep with
  | advance hmi =>
    simp only [budget, hmi, length_cons]
    omega
  | @fail h _ hh =>
    obtain ⟨m, hm, rfl⟩ := mem_map.mp hh
    have hless : (sel.mapModifiedTx.filter fun m' => m'.iter != m.iter).length
        < sel.mapModifiedTx.length :=
      length_filter_lt_length_iff_exists.mpr ⟨m, hm, by simp⟩
    unfold budget
    exact Nat.add_lt_add_left hless _
  | @add iter mi package _ M' _ hiter hnot hmi hfits hpackage hgrown hmodified =>
    -- the block grows, and whatever happens to the lists they stay within the pool
    have hadded := hsound.listed.packageAdded hc hiter hnot hpackage hgrown hmodified
    have hpos : 0 < package.length := by
      rw [length_pos_iff]
      rintro rfl
      have hself : iter.hash ∈ remaining ctx.pool A.inBlock iter.hash :=
        mem_remaining.mpr ⟨hash_mem hiter, Or.inl rfl, hnot⟩
      rw [← hadded.hashes] at hself
      simp at hself
    have hgrow : A'.inBlock.length = package.length + A.inBlock.length := by
      simp [hgrown.inBlock, sortForBlock, length_insertionSort]
    have hblock := hsound'.placed.length_le
    have hmi' := hsound'.mi_length
    have hM' := hsound'.listed.modified_length
    have hmul : (ctx.pool.mapTx.length - A'.inBlock.length) * (2 * ctx.pool.mapTx.length + 1)
        + (2 * ctx.pool.mapTx.length + 1)
        ≤ (ctx.pool.mapTx.length - A.inBlock.length) * (2 * ctx.pool.mapTx.length + 1) := by
      rw [← Nat.succ_mul]
      exact Nat.mul_le_mul_right _ (by omega)
    simp only at hmi' hM'
    simp only [budget]
    omega

/-! ## The iterations -/

/-- **The iterations of the loop**, where every state but the last one satisfies `Good`. -/
inductive Iteration (ctx : MinerContext) (w : Bool) (cb : CTransaction) (s₀ : ctx.E.State)
    (Good : Assembler → Selection → Prop) : Assembler → Selection → ctx.E.State → Prop
  | start : Iteration ctx w cb s₀ Good (reset cb) ⟨ctx.ancestorScore, [], [], 0⟩ s₀
  | next {A A' : Assembler} {sel sel' : Selection} {s s' : ctx.E.State}
      (before : Iteration ctx w cb s₀ Good A sel s) (good : Good A sel)
      (turned : turn ctx w A sel s = .ok (.next A' sel') s') :
      Iteration ctx w cb s₀ Good A' sel' s'

lemma sound_start (cb : CTransaction) :
    Sound ctx cb (reset cb) ⟨ctx.ancestorScore, [], [], 0⟩ [] := by
  refine ⟨⟨rfl, rfl, by simp, by simp, ?_⟩, ⟨?_, by simp [modifiedKeys], by simp [modifiedKeys]⟩,
    ?_, ?_, Or.inl rfl, by simp [reset, maxBlockSigopsCost]⟩
  · rintro before h after hnil
    simp at hnil
  · exact fun e he => (mem_insertionSort _).mp he
  · exact (length_insertionSort _ _).le
  · intro q hq h hh _
    exact pool_covers hc hq hh (by simp [modifiedKeys]) _

lemma Sound.turn (hsound : Sound ctx cb A sel entries)
    (h : Ybtc.turn ctx w A sel s = .ok (.next A' sel') s') : Step ctx A sel A' sel' :=
  (turn_step hc hsound.listed).ok trivial h

lemma Iteration.sound {Good : Assembler → Selection → Prop}
    (h : Iteration ctx w cb s₀ Good A sel s) : ∃ entries, Sound ctx cb A sel entries := by
  induction h with
  | start => exact ⟨[], sound_start hc cb⟩
  | next _ _ turned ih =>
    obtain ⟨entries, hsound⟩ := ih
    exact hsound.step hc (hsound.turn hc turned)

/-! ## The exact totals -/

/-- **The entries of `mapModifiedTx` hold the sums** over the transaction and those of its ancestors
    that are not in the block.  They can be wrong in two ways: `update_for_parent_inclusion` takes
    off the fee without its delta, and an entry that was erased when its package failed comes back
    with the totals of the pool. -/
def ExactTotals (ctx : MinerContext) (A : Assembler) (sel : Selection) : Prop :=
  ∀ m ∈ sel.mapModifiedTx,
    m.nSizeWithAncestors
      = ctx.pool.total (fun e => e.getTxSize) (remaining ctx.pool A.inBlock m.iter) ∧
    m.nModFeesWithAncestors = ctx.pool.total getModifiedFee (remaining ctx.pool A.inBlock m.iter) ∧
    m.nSigOpCostWithAncestors
      = ctx.pool.total (fun e => e.sigOpCost) (remaining ctx.pool A.inBlock m.iter)

/-- The fee of a transaction with children has no delta. -/
def PlainFees (pool : CTxMemPool) : Prop :=
  ∀ e ∈ pool.mapTx, e.feeDelta = 0 ∨ pool.getMemPoolChildren e.hash = []

/-- The package that is looked at has an ancestor of a failed transaction only together with that
    transaction. -/
def Spares (ctx : MinerContext) (A : Assembler) (sel : Selection) : Prop :=
  ∀ h, candidate ctx A sel = some h → ∀ a ∈ remaining ctx.pool A.inBlock h,
    ∀ f ∈ sel.failedTx, ctx.pool.Ancestor a f → f ∈ remaining ctx.pool A.inBlock h

/-- What the three totals are of. -/
def Measured (q : Quantity) : Prop := q = .size ∨ q = .modFees ∨ q = .sigOps

lemma Measured.tracks {q : Quantity} (hplain : PlainFees ctx.pool)
    (hq : Measured q) {it : CTxMemPoolEntry} (hit : it ∈ ctx.pool.mapTx)
    (hanc : ctx.pool.Ancestor it.hash h) : q.Tracks it := by
  rcases hq with rfl | rfl | rfl
  · exact size_tracks it
  · refine modFees_tracks ((hplain it hit).resolve_right fun hnone => ?_)
    obtain ⟨c, -, hparent⟩ := Relation.TransGen.tail'_iff.mp hanc
    have hchild := (hc.children it.hash c).mpr hparent
    simp [hnone] at hchild
  · exact sigOps_tracks it

lemma Measured.cached {q : Quantity} (hq : Measured q) : q.Cached ctx.pool := by
  rcases hq with rfl | rfl | rfl
  · exact hc.size
  · exact hc.modFees
  · exact hc.sigOps

/-- The totals are exact, those of the failed transactions aside. -/
def Exact (ctx : MinerContext) (A : Assembler) (sel : Selection) : Prop :=
  ∀ q, Measured q → ∀ h ∈ ctx.pool.hashes, h ∉ A.inBlock →
    h ∈ modifiedKeys sel.mapModifiedTx ∨ h ∉ sel.failedTx →
      q.current ctx.pool sel.mapModifiedTx h
        = ctx.pool.total q.ofEntry (remaining ctx.pool A.inBlock h)

lemma exact_start (cb : CTransaction) : Exact ctx (reset cb) ⟨ctx.ancestorScore, [], [], 0⟩ := by
  intro q hq h hh _ _
  obtain ⟨e, he, rfl⟩ := mem_hashes.mp hh
  have hall : remaining ctx.pool [] e.hash = ctx.pool.ancestry e.hash := by simp [remaining]
  show q.current ctx.pool [] e.hash = ctx.pool.total q.ofEntry (remaining ctx.pool [] e.hash)
  rw [current_of_notMem (by simp [modifiedKeys]), hc.valueAt _ he, hq.cached hc e he, hall]

/-- **One step** keeps the totals exact. -/
lemma Exact.step (hplain : PlainFees ctx.pool)
    (hsound : Sound ctx cb A sel entries) (hspares : Spares ctx A sel) (hexact : Exact ctx A sel)
    (hstep : Step ctx A sel A' sel') : Exact ctx A' sel' := by
  cases hstep with
  | advance _ => exact hexact
  | @fail h _ hh =>
    intro q hq k hk hout hnot
    have hkh : k ≠ h := by
      rintro rfl
      rw [modifiedKeys_filter fun x => x != k] at hnot
      simp at hnot
    rw [current_filter]
    · refine hexact q hq k hk hout ?_
      rw [modifiedKeys_filter fun x => x != h, mem_filter, mem_cons, not_or] at hnot
      exact hnot.imp And.left And.right
    · rintro m - rfl
      simpa using hkh
  | @add iter mi package _ M' hcandidate hiter hnot hmi hfits hpackage hgrown hmodified =>
    have hadded := hsound.listed.packageAdded hc hiter hnot hpackage hgrown hmodified
    intro q hq k hk hout hcase
    have hold : k ∉ A.inBlock := fun hin => hout ((hadded.inBlock k).mpr (Or.inr hin))
    have herror := hadded.error q k hout fun it hit hanc => hq.tracks hc hplain hit hanc
    have hbefore : k ∈ modifiedKeys sel.mapModifiedTx ∨ k ∉ sel.failedTx := by
      by_contra hno
      rw [not_or, not_not] at hno
      -- a failed transaction would have to come back as a descendant of the package
      rcases (hadded.keys k).mp (hcase.resolve_right fun h => h hno.2) with ⟨hnew, hkey | hkey⟩
      · exact hno.1 hkey
      · obtain ⟨a, ha, hanc⟩ := hkey
        rw [← mem_toFinset, hadded.hashes] at ha hnew
        exact hnew (hspares iter.hash hcandidate a ha k hno.2 hanc)
    have hzero := hexact q hq k hk hold hbefore
    show q.current ctx.pool M' k = _
    omega

end

lemma Exact.totals (hsound : Sound ctx cb A sel entries) (hexact : Exact ctx A sel) :
    ExactTotals ctx A sel := by
  intro m hm
  have hkey : m.iter ∈ modifiedKeys sel.mapModifiedTx := mem_map_of_mem hm
  obtain ⟨hpool, hout⟩ := hsound.listed.modified m.iter hkey
  have htotal : ∀ q, Measured q →
      q.ofModified m = ctx.pool.total q.ofEntry (remaining ctx.pool A.inBlock m.iter) := by
    intro q hq
    rw [← hexact q hq m.iter hpool hout (Or.inl hkey), current_of_mem hsound.listed.nodup hm]
  exact ⟨htotal .size (Or.inl rfl), htotal .modFees (Or.inr (Or.inl rfl)),
    htotal .sigOps (Or.inr (Or.inr rfl))⟩

lemma Iteration.exact (hc : ctx.pool.Consistent) (hplain : PlainFees ctx.pool)
    (h : Iteration ctx w cb s₀ (Spares ctx) A sel s) : Exact ctx A sel := by
  induction h with
  | start => exact exact_start hc cb
  | next before good turned ih =>
    obtain ⟨entries, hsound⟩ := before.sound hc
    exact ih.step hc hplain hsound good (hsound.turn hc turned)

/-! ## The whole selection -/

/-- **The loop ends** within its budget, at one of its iterations. -/
lemma Iteration.loop (hc : ctx.pool.Consistent) {fuel : ℕ}
    (h : Iteration ctx w cb s₀ (fun _ _ => True) A sel s) (hfuel : budget ctx A sel < fuel) :
    Meets (ExecFault ctx)
      (fun A' _ => ∃ sel' s', Iteration ctx w cb s₀ (fun _ _ => True) A' sel' s')
      (packageLoop ctx w fuel A sel s) := by
  induction fuel generalizing A sel s with
  | zero => omega
  | succ fuel ih =>
    obtain ⟨entries, hsound⟩ := h.sound hc
    have hturn := turn_step (w := w) hc hsound.listed
    rw [packageLoop, bind_apply]
    cases hres : turn ctx w A sel s with
    | error f s1 => exact hturn.error trivial hres
    | ok t s1 =>
      have hstepped := hturn.ok trivial hres
      cases t with
      | finished A1 =>
        obtain rfl : A1 = A := hstepped
        exact ⟨sel, s, h⟩
      | next A1 sel1 =>
        refine ih (h.next trivial hres) ?_
        exact Nat.lt_of_lt_of_le (hsound.budget_lt hc hstepped) (Nat.le_of_lt_succ hfuel)

/-- **The package selection over a consistent pool.**  The loop ends after a number of turns that is
    at most quadratic in the size of the pool, unless executing a contract transaction fails.  At
    every iteration each transaction of the block is there once and after its ancestors, and the
    limits are kept.  If no transaction with children has a fee delta, and failed transactions are
    spared at every iteration, the totals are exact. -/
theorem addPackageTxs_selects (hc : ctx.pool.Consistent) (w : Bool) (cb : CTransaction)
    (s₀ : ctx.E.State) :
    (∀ fuel, 2 * ctx.pool.mapTx.length * (ctx.pool.mapTx.length + 1) < fuel →
      Meets (ExecFault ctx) (fun A _ => ∃ sel s, Iteration ctx w cb s₀ (fun _ _ => True) A sel s)
        (addPackageTxs ctx fuel w (reset cb) s₀)) ∧
    (∀ A sel s, Iteration ctx w cb s₀ (fun _ _ => True) A sel s →
      (∃ entries, Placed ctx.pool cb A entries) ∧
        (4000 < ctx.nBlockMaxWeight → A.nBlockWeight < ctx.nBlockMaxWeight) ∧
        A.nBlockSigOpsCost < maxBlockSigopsCost) ∧
    (PlainFees ctx.pool → ∀ A sel s, Iteration ctx w cb s₀ (Spares ctx) A sel s →
      ExactTotals ctx A sel) := by
  refine ⟨?_, ?_, ?_⟩
  · intro fuel hfuel
    have hstart : Iteration ctx w cb s₀ (fun _ _ => True) (reset cb)
      ⟨ctx.ancestorScore, [], [], 0⟩ s₀ := .start
    refine hstart.loop hc ?_
    have hlen : ctx.ancestorScore.length = ctx.pool.mapTx.length := length_insertionSort _ _
    simp only [budget, reset, length_nil, hlen]
    refine lt_of_eq_of_lt ?_ hfuel
    rw [Nat.sub_zero]
    ring
  · intro A sel s h
    obtain ⟨entries, hsound⟩ := h.sound hc
    refine ⟨⟨entries, hsound.placed⟩, fun hmax => ?_, hsound.sigOps⟩
    rcases hsound.weight with hreserved | hless
    · rw [hreserved]
      exact hmax
    · exact hless
  · intro hplain A sel s h
    obtain ⟨entries, hsound⟩ := h.sound hc
    exact (h.exact hc hplain).totals hsound

end Selection

/-! ## A family

A transaction that spends two others of the pool; the second of them may have a fee delta. -/

namespace Family

def spend (prevouts : List COutPoint) : CTransaction := smallSpend prevouts ⟨coin, [OP_1]⟩

/-- An entry without the totals over descendants, which nothing here reads. -/
def entry (hash : Uint256) (tx : CTransaction) (nFee feeDelta : CAmount) (count size fees : ℤ) :
    CTxMemPoolEntry :=
  ⟨hash, tx, nFee, 0, 0, false, 0, ⟨0, 0, none⟩, feeDelta, 1, 0, 0, count, size, fees, 0⟩

def parent₁ : CTxMemPoolEntry := entry 1#256 (spend [⟨9#256, 0⟩]) 10000 0 1 61 10000

def parent₂ (delta : CAmount) : CTxMemPoolEntry :=
  entry 2#256 (spend [⟨9#256, 1⟩]) 8000 delta 1 61 (8000 + delta)

def child (delta : CAmount) : CTxMemPoolEntry :=
  entry 3#256 (spend [⟨1#256, 0⟩, ⟨2#256, 0⟩]) 5000 0 3 224 (23000 + delta)

def pool (delta : CAmount) : CTxMemPool where
  mapTx := [parent₁, parent₂ delta, child delta]
  mapLinks h :=
    if h = 3#256 then ⟨[1#256, 2#256], []⟩
    else if h = 1#256 ∨ h = 2#256 then ⟨[], [3#256]⟩
    else ⟨[], []⟩
  mapNextTx _ := none
  mapDeltas _ := 0

variable {delta : CAmount}

lemma pool_hashes : (pool delta).hashes = [1#256, 2#256, 3#256] := rfl

lemma toFinset_hashes : (pool delta).hashes.toFinset = {1#256, 2#256, 3#256} := by
  simp [pool_hashes]

lemma mem_parents {h p : Uint256} :
    p ∈ (pool delta).getMemPoolParents h ↔ h = 3#256 ∧ (p = 1#256 ∨ p = 2#256) := by
  unfold getMemPoolParents pool
  dsimp only
  split_ifs with h3 h1
  · simp [h3]
  · simp [h3]
  · simp [h3]

lemma mem_children {h c : Uint256} :
    c ∈ (pool delta).getMemPoolChildren h ↔ c = 3#256 ∧ (h = 1#256 ∨ h = 2#256) := by
  unfold getMemPoolChildren pool
  dsimp only
  split_ifs with h3 h1
  · subst h3
    simp
  · simp [h1]
  · simp [h1]

lemma ancestor_iff {a h : Uint256} :
    (pool delta).Ancestor a h ↔ h = 3#256 ∧ (a = 1#256 ∨ a = 2#256) := by
  constructor
  · intro hanc
    induction hanc with
    | single hp => exact mem_parents.mp hp
    | tail _ hp ih =>
      obtain ⟨rfl, -⟩ := mem_parents.mp hp
      simp at ih
  · intro h
    exact .single (mem_parents.mpr h)

lemma ancestry_parent {h : Uint256} (hh : h = 1#256 ∨ h = 2#256) :
    (pool delta).ancestry h = {h} := by
  ext a
  rw [mem_ancestry, ancestor_iff, pool_hashes, Finset.mem_singleton]
  rcases hh with rfl | rfl
  · simp +contextual
  · simp +contextual

lemma ancestry_child : (pool delta).ancestry 3#256 = {1#256, 2#256, 3#256} := by
  ext a
  rw [mem_ancestry, ancestor_iff, pool_hashes]
  simp only [mem_cons, not_mem_nil, Finset.mem_insert, Finset.mem_singleton]
  tauto

lemma find_parent₁ : (pool delta).find 1#256 = some parent₁ := rfl

lemma find_parent₂ : (pool delta).find 2#256 = some (parent₂ delta) := rfl

lemma find_child : (pool delta).find 3#256 = some (child delta) := rfl

/-- The total over the whole family. -/
lemma total_child (value : CTxMemPoolEntry → ℤ) : (pool delta).total value {1#256, 2#256, 3#256}
      = value parent₁ + (value (parent₂ delta) + value (child delta)) := by
  rw [total, Finset.sum_insert (by simp), Finset.sum_insert (by simp), Finset.sum_singleton]
  simp [valueAt, find_parent₁, find_parent₂, find_child]

lemma size_parent₁ : parent₁.getTxSize = 61 := by decide

lemma size_parent₂ : (parent₂ delta).getTxSize = 61 := size_parent₁

lemma size_child : (child delta).getTxSize = 102 :=
  show (child 0).getTxSize = 102 by decide

lemma forall_mem_pool {P : CTxMemPoolEntry → Prop} (h1 : P parent₁) (h2 : P (parent₂ delta))
    (h3 : P (child delta)) : ∀ e ∈ (pool delta).mapTx, P e := by
  intro e he
  simp only [pool, mem_cons, not_mem_nil, or_false] at he
  rcases he with rfl | rfl | rfl <;> assumption

/-- A cached total is right if it is the entry's own value, and the sum for the child. -/
lemma cached {cache value : CTxMemPoolEntry → ℤ} (h1 : cache parent₁ = value parent₁)
    (h2 : cache (parent₂ delta) = value (parent₂ delta))
    (h3 : cache (child delta) = value parent₁ + (value (parent₂ delta) + value (child delta))) :
    ∀ e ∈ (pool delta).mapTx,
      cache e = (pool delta).total value ((pool delta).ancestry e.hash) := by
  refine forall_mem_pool ?_ ?_ ?_
  · rw [h1, show parent₁.hash = 1#256 from rfl, ancestry_parent (Or.inl rfl), total,
      Finset.sum_singleton, valueAt, find_parent₁]
    rfl
  · rw [h2, show (parent₂ delta).hash = 2#256 from rfl, ancestry_parent (Or.inr rfl), total,
      Finset.sum_singleton, valueAt, find_parent₂]
    rfl
  · rw [h3, show (child delta).hash = 3#256 from rfl, ancestry_child, total_child]

lemma consistent : (pool delta).Consistent where
  nodup := by rw [pool_hashes]; decide
  parents := by
    intro e he p
    have hout : p ∈ [1#256, 2#256, 3#256] → 9#256 ≠ p := by
      rintro hp rfl
      simp at hp
    rw [mem_parents, pool_hashes]
    revert e
    refine forall_mem_pool ?_ ?_ ?_
    · simpa [parent₁, entry, spend, smallSpend] using hout
    · simpa [parent₂, entry, spend, smallSpend] using hout
    · simp only [child, entry, spend, smallSpend, map_cons, map_nil, mem_cons,
        not_mem_nil, or_false, exists_eq_or_imp, exists_eq_left]
      tauto
  unlinked := by
    intro h hh
    rw [pool_hashes] at hh
    refine eq_nil_iff_forall_not_mem.mpr fun p hp => hh ?_
    simp [(mem_parents.mp hp).1]
  children := by
    intro p c
    rw [mem_children, mem_parents]
  parents_nodup := by
    intro h
    unfold getMemPoolParents pool
    dsimp only
    split_ifs <;> decide
  acyclic := by
    intro h hanc
    obtain ⟨rfl, hh⟩ := ancestor_iff.mp hanc
    simp at hh
  count := by
    refine forall_mem_pool ?_ ?_ ?_
    · rw [show parent₁.hash = 1#256 from rfl, ancestry_parent (Or.inl rfl)]
      rfl
    · rw [show (parent₂ delta).hash = 2#256 from rfl, ancestry_parent (Or.inr rfl)]
      rfl
    · rw [show (child delta).hash = 3#256 from rfl, ancestry_child]
      rfl
  size := cached (congrArg Nat.cast size_parent₁.symm) (congrArg Nat.cast size_parent₂.symm) (by
    rw [size_parent₁, size_parent₂, size_child]
    rfl)
  modFees := cached rfl rfl (by
    show 23000 + delta = 10000 + 0 + (8000 + delta + (5000 + 0))
    ring)
  sigOps := cached rfl rfl rfl
  size_fits := by
    rw [toFinset_hashes, total_child, size_parent₁, size_parent₂, size_child]
    decide
  sigOps_fits := by
    rw [toFinset_hashes, total_child]
    show (0 + (0 + 0) : ℤ) < 2 ^ 63
    decide

lemma plainFees : PlainFees (pool 0) := forall_mem_pool (Or.inl rfl) (Or.inl rfl) (Or.inl rfl)

lemma remaining_child : remaining (pool delta) [2#256, 1#256] 3#256 = {3#256} := by
  rw [remaining, ancestry_child]
  rfl

/-- Turns before which no package has failed. -/
def turns (ctx : MinerContext) (w : Bool) (cb : CTransaction) :
    ℕ → EStateM Fault ctx.E.State (Assembler × Selection)
  | 0 => pure (reset cb, ⟨ctx.ancestorScore, [], [], 0⟩)
  | n + 1 => do
    let p ← turns ctx w cb n
    match p.2.failedTx, ← turn ctx w p.1 p.2 with
    | [], .next A sel => pure (A, sel)
    | _, _ => throw .diverged

variable {ctx : MinerContext}

lemma iteration_of_turns {w : Bool} {cb : CTransaction}
    {Good : Assembler → Selection → Prop} (hgood : ∀ A sel, sel.failedTx = [] → Good A sel) {n : ℕ}
    {p : Assembler × Selection} {s₀ s : ctx.E.State} (h : turns ctx w cb n s₀ = .ok p s) :
    Iteration ctx w cb s₀ Good p.1 p.2 s := by
  induction n generalizing p s with
  | zero =>
    cases h
    exact .start
  | succ n ih =>
    obtain ⟨q, s1, hq, hrest⟩ := bind_ok.mp h
    obtain ⟨t, s2, ht, hend⟩ := bind_ok.mp hrest
    cases hfailed : q.2.failedTx with
    | cons f fs =>
      rw [hfailed] at hend
      cases hend
    | nil =>
      rw [hfailed] at hend
      cases t with
      | finished A => cases hend
      | next A sel =>
        cases hend
        exact (ih hq).next (hgood _ _ hfailed) ht

/-- After two turns the parents are in the block, and the child has been updated twice. -/
lemma after_parents (delta : CAmount) (hrun : returnsWith (fun p _ =>
      decide (p.1.inBlock = [2#256, 1#256]) &&
        decide (p.2.mapModifiedTx = [⟨3#256, 102, 5000 + delta, 0⟩]))
      (turns (.small (pool delta)) true (spend []) 2 0#256) = true)
    {Good : Assembler → Selection → Prop} (hgood : ∀ A sel, sel.failedTx = [] → Good A sel) :
    ∃ A sel s, Iteration (.small (pool delta)) true (spend []) 0#256 Good A sel s ∧
      A.inBlock = [2#256, 1#256] ∧ sel.mapModifiedTx = [⟨3#256, 102, 5000 + delta, 0⟩] := by
  obtain ⟨p, s, hp, hcheck⟩ := returnsWith_iff.mp hrun
  rw [Bool.and_eq_true, decide_eq_true_eq, decide_eq_true_eq] at hcheck
  exact ⟨p.1, p.2, s, iteration_of_turns hgood hp, hcheck⟩

lemma spares_of_unfailed (A : Assembler) (sel : Selection)
    (h : sel.failedTx = []) : Spares ctx A sel := by
  intro _ _ _ _ f hf
  simp [h] at hf

end Family

open Family

theorem addPackageTxs_selects_family : (pool 0).Consistent ∧ PlainFees (pool 0) ∧ ∃ A sel s,
      Iteration (.small (pool 0)) true (spend []) 0#256 (Spares (.small (pool 0))) A sel s ∧
      sel.mapModifiedTx = [⟨3#256, 102, 5000, 0⟩] ∧
      ExactTotals (.small (pool 0)) A sel := by
  obtain ⟨A, sel, s, hiter, -, hM⟩ := after_parents 0 (by decide +kernel) spares_of_unfailed
  refine ⟨consistent, plainFees, A, sel, s, hiter, hM, ?_⟩
  exact (@addPackageTxs_selects (.small (pool 0)) consistent true (spend [])
    0#256).2.2 plainFees A sel s hiter

/-- **With a delta the total is wrong**: the child's fees are off by the delta of its parent. -/
theorem modified_fees_inexact : (pool 1000).Consistent ∧ ∃ A sel s,
      Iteration (.small (pool 1000)) true (spend []) 0#256 (fun _ _ => True) A sel s ∧
      ¬ ExactTotals (.small (pool 1000)) A sel := by
  obtain ⟨A, sel, s, hiter, hblock, hM⟩ :=
    @after_parents 1000 (by decide +kernel) (fun _ _ => True) fun _ _ _ => trivial
  refine ⟨consistent, A, sel, s, hiter, fun hexact => ?_⟩
  have hfees := (hexact ⟨3#256, 102, 6000, 0⟩ (by rw [hM]; exact mem_cons_self)).2.1
  rw [hblock, remaining_child] at hfees
  simp [total, valueAt, find_child] at hfees
  cases hfees

end Packages

end Ybtc
