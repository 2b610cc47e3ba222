import Ybtc.Core.Worklist
import Ybtc.Core.Entries
import Ybtc.Mempool.Pool

/-!
# Ancestors in the memory pool

The links of a pool make a graph.  This file says what the two walks along it find, and what a pool
has to satisfy for its cached totals to mean anything.  The main results are
`calculateMemPoolAncestors_spec` and `calculateDescendants_spec`.
-/

namespace Ybtc

open List CTxMemPoolEntry Worklist

namespace CTxMemPool

open Relation (ReflTransGen TransGen)
open Worklist (Edge)

variable (pool : CTxMemPool)

/-! ## Definitions -/

/-- The ids of the entries. -/
def hashes : List Uint256 := pool.mapTx.map CTxMemPoolEntry.hash

/-- The second transaction spends an output of the first, or of one that descends from it. -/
def Ancestor (a h : Uint256) : Prop := TransGen (Edge pool.getMemPoolParents) h a

open Classical in
/-- A transaction and its ancestors. -/
noncomputable def ancestry (h : Uint256) : Finset Uint256 :=
  pool.hashes.toFinset.filter fun a => a = h ∨ pool.Ancestor a h

/-- What an entry contributes to a total. -/
def valueAt (value : CTxMemPoolEntry → ℤ) (h : Uint256) : ℤ := ((pool.find h).map value).getD 0

/-- The total over a set of entries. -/
def total (value : CTxMemPoolEntry → ℤ) (s : Finset Uint256) : ℤ := ∑ h ∈ s, pool.valueAt value h

/-- **A consistent pool**, as `CTxMemPool::check` understands it: the parents are the transactions
    of the pool that are spent, the children mirror them, and the totals over ancestors are right.
    Sets are lists without repetition, and the totals fit their fields of 64 bits. -/
structure Consistent : Prop where
  nodup : pool.hashes.Nodup
  parents : ∀ e ∈ pool.mapTx, ∀ p, p ∈ pool.getMemPoolParents e.hash ↔
    p ∈ pool.hashes ∧ ∃ txin ∈ e.tx.vin, txin.prevout.hash = p
  unlinked : ∀ h, h ∉ pool.hashes → pool.getMemPoolParents h = []
  children : ∀ p c, c ∈ pool.getMemPoolChildren p ↔ p ∈ pool.getMemPoolParents c
  parents_nodup : ∀ h, (pool.getMemPoolParents h).Nodup
  /-- No transaction spends its own outputs. -/
  acyclic : ∀ h, ¬ pool.Ancestor h h
  count : ∀ e ∈ pool.mapTx, e.nCountWithAncestors = (pool.ancestry e.hash).card
  size : ∀ e ∈ pool.mapTx,
    e.nSizeWithAncestors = pool.total (fun e => e.getTxSize) (pool.ancestry e.hash)
  modFees : ∀ e ∈ pool.mapTx,
    e.nModFeesWithAncestors = pool.total getModifiedFee (pool.ancestry e.hash)
  sigOps : ∀ e ∈ pool.mapTx,
    e.nSigOpCostWithAncestors = pool.total (fun e => e.sigOpCost) (pool.ancestry e.hash)
  size_fits : witnessScaleFactor * pool.total (fun e => e.getTxSize) pool.hashes.toFinset < 2 ^ 63
  sigOps_fits : pool.total (fun e => e.sigOpCost) pool.hashes.toFinset < 2 ^ 63

/-! ## Entries by their ids -/

variable {pool}

variable {h a : Uint256} {e : CTxMemPoolEntry}

lemma mem_hashes : h ∈ pool.hashes ↔ ∃ e ∈ pool.mapTx, e.hash = h := mem_map

lemma hash_mem (he : e ∈ pool.mapTx) : e.hash ∈ pool.hashes := mem_hashes.mpr ⟨e, he, rfl⟩

lemma Consistent.find (hc : pool.Consistent) (he : e ∈ pool.mapTx) : pool.find e.hash = some e :=
  Entries.find?_key hc.nodup he

lemma Consistent.deref (hc : pool.Consistent) (he : e ∈ pool.mapTx) :
    pool.deref e.hash = .ok e := by
  unfold CTxMemPool.deref
  rw [hc.find he]

lemma Consistent.mapM_deref (hc : pool.Consistent) {hs : List Uint256}
    (h : ∀ x ∈ hs, x ∈ pool.hashes) :
    ∃ es, hs.mapM pool.deref = .ok es ∧ es.map hash = hs ∧
      ∀ e ∈ es, e ∈ pool.mapTx := by
  induction hs with
  | nil => exact ⟨[], rfl, rfl, by simp⟩
  | cons x hs ih =>
    rw [forall_mem_cons] at h
    obtain ⟨e, he, rfl⟩ := mem_hashes.mp h.1
    obtain ⟨es, hmap, rfl, hes⟩ := ih h.2
    refine ⟨e :: es, ?_, rfl, forall_mem_cons.mpr ⟨he, hes⟩⟩
    rw [mapM_cons, hc.deref he, Fallible.ok_bind, hmap]
    rfl

lemma Consistent.valueAt (hc : pool.Consistent) (value : CTxMemPoolEntry → ℤ) (he : e ∈ pool.mapTx)
    : pool.valueAt value e.hash = value e := by
  simp [CTxMemPool.valueAt, hc.find he]

lemma total_mono {value : CTxMemPoolEntry → ℤ} (hv : ∀ e, 0 ≤ value e) {s t : Finset Uint256}
    (h : s ⊆ t) : pool.total value s ≤ pool.total value t := by
  refine Finset.sum_le_sum_of_subset_of_nonneg h fun x _ _ => ?_
  unfold valueAt
  cases pool.find x with
  | none => simp
  | some e => simpa using hv e

/-- A total over distinct entries of the pool is a sum over the entries. -/
lemma Consistent.total_map (hc : pool.Consistent) (value : CTxMemPoolEntry → ℤ)
    {l : List CTxMemPoolEntry} (hl : ∀ e ∈ l, e ∈ pool.mapTx) (hn : (l.map hash).Nodup) :
    pool.total value (l.map hash).toFinset = (l.map value).sum := by
  rw [total, sum_toFinset _ hn, map_map]
  refine congrArg List.sum (map_congr_left fun e he => ?_)
  exact hc.valueAt value (hl e he)

/-! ## Ancestors -/

lemma Consistent.parents_mem (hc : pool.Consistent) {p : Uint256}
    (hp : p ∈ pool.getMemPoolParents h) : h ∈ pool.hashes ∧ p ∈ pool.hashes := by
  have hh : h ∈ pool.hashes := by
    by_contra hno
    simp [hc.unlinked h hno] at hp
  obtain ⟨e, he, rfl⟩ := mem_hashes.mp hh
  exact ⟨hh, ((hc.parents e he p).mp hp).1⟩

lemma Consistent.ancestor_mem (hc : pool.Consistent) (ha : pool.Ancestor a h) :
    h ∈ pool.hashes ∧ a ∈ pool.hashes := by
  induction ha with
  | single hp => exact hc.parents_mem hp
  | tail _ hp ih => exact ⟨ih.1, (hc.parents_mem hp).2⟩

lemma Ancestor.trans {b : Uint256} (hab : pool.Ancestor a b) (hbh : pool.Ancestor b h) :
    pool.Ancestor a h :=
  TransGen.trans hbh hab

lemma mem_ancestry : a ∈ pool.ancestry h ↔ a ∈ pool.hashes ∧ (a = h ∨ pool.Ancestor a h) := by
  classical
  simp [ancestry]

lemma ancestry_mono (ha : pool.Ancestor a h) : pool.ancestry a ⊆ pool.ancestry h := by
  intro b hb
  obtain ⟨hmem, rfl | hba⟩ := mem_ancestry.mp hb
  · exact mem_ancestry.mpr ⟨hmem, Or.inr ha⟩
  · exact mem_ancestry.mpr ⟨hmem, Or.inr (hba.trans ha)⟩

/-- **An ancestor has fewer ancestors**, because the links have no cycles. -/
lemma Consistent.count_lt (hc : pool.Consistent) {a : CTxMemPoolEntry} (ha : a ∈ pool.mapTx)
    (he : e ∈ pool.mapTx) (hae : pool.Ancestor a.hash e.hash) :
    a.nCountWithAncestors < e.nCountWithAncestors := by
  rw [hc.count a ha, hc.count e he, Nat.cast_lt]
  refine Finset.card_lt_card ⟨ancestry_mono hae, fun hsub => ?_⟩
  obtain ⟨_, heq | hea⟩ := mem_ancestry.mp (hsub (mem_ancestry.mpr ⟨hash_mem he, Or.inl rfl⟩))
  · rw [heq] at hae
    exact hc.acyclic _ hae
  · exact hc.acyclic _ (hae.trans hea)

/-! ## The walks -/

/-- Without limits, the parents are staged like the neighbours of any walk. -/
lemma addParents_none (setAncestors parents stage : List Uint256) :
    addParents none setAncestors parents stage = some (stageAll setAncestors parents stage) := by
  induction parents generalizing stage with
  | nil => rfl
  | cons p parents ih =>
    rw [addParents, stageAll, foldl_cons]
    simpa [stageAll] using ih (if p ∈ setAncestors then stage else stage.insert p)

/-- Without limits, the loop is the walk along the parents. -/
lemma Consistent.ancestorLoop (hc : pool.Consistent) (entry : CTxMemPoolEntry) {fuel total : ℕ}
    {setAncestors stage found : List Uint256} (hstage : ∀ x ∈ stage, x ∈ pool.hashes)
    (h : walk pool.getMemPoolParents fuel setAncestors stage = some found) :
    pool.ancestorLoop none entry fuel total setAncestors stage = .ok (some found) := by
  induction fuel generalizing total setAncestors stage with
  | zero =>
    cases stage with
    | nil => rw [walk] at h; rw [CTxMemPool.ancestorLoop, h]
    | cons x stage => cases h
  | succ fuel ih =>
    cases stage with
    | nil => rw [walk] at h; rw [CTxMemPool.ancestorLoop, h]
    | cons x stage =>
      rw [walk] at h
      obtain ⟨e, he, rfl⟩ := mem_hashes.mp (hstage x mem_cons_self)
      rw [CTxMemPool.ancestorLoop, hc.deref he, Fallible.ok_bind, addParents_none]
      refine ih ?_ h
      intro y hy
      rcases mem_stageAll.mp hy with hy | ⟨hy, -⟩
      · exact hstage y (mem_cons_of_mem _ hy)
      · exact (hc.parents_mem hy).2

/-- **`CalculateMemPoolAncestors` finds the ancestors.** -/
theorem Consistent.calculateMemPoolAncestors_spec (hc : pool.Consistent) (e : CTxMemPoolEntry) :
    ∃ found, pool.calculateMemPoolAncestors none e false = .ok (some found) ∧ found.Nodup ∧
      ∀ a, a ∈ found ↔ pool.Ancestor a e.hash := by
  have hfront : Worklist.Front pool.getMemPoolParents pool.hashes []
      (pool.getMemPoolParents e.hash) :=
    ⟨hc.parents_nodup e.hash, fun p hp => (hc.parents_mem hp).2, fun _ hx => by cases hx⟩
  obtain ⟨found, hwalk, hnodup, hfound⟩ := walk_spec pool.mapTx.length
    (fun x _ c hcx => (hc.parents_mem hcx).2) hfront (by simp [hashes])
  refine ⟨found, ?_, hnodup, fun a => ?_⟩
  · rw [calculateMemPoolAncestors, if_neg Bool.false_ne_true]
    exact hc.ancestorLoop e (fun p hp => (hc.parents_mem hp).2) hwalk
  · rw [hfound, Ancestor, TransGen.head'_iff]
    simp [Edge]

/-- The loop is the walk along the children. -/
lemma descendantLoop_eq {fuel : ℕ} {setDescendants stage found : List Uint256}
    (h : walk pool.getMemPoolChildren fuel setDescendants stage = some found) :
    pool.descendantLoop fuel setDescendants stage = .ok found := by
  induction fuel generalizing setDescendants stage with
  | zero =>
    cases stage with
    | nil => cases h; rw [descendantLoop]
    | cons x stage => cases h
  | succ fuel ih =>
    cases stage with
    | nil => rw [walk] at h; cases h; rw [descendantLoop]
    | cons x stage =>
      rw [walk] at h
      rw [descendantLoop, ← ih h]
      simp [stageAll]

/-- **`CalculateDescendants` finds the entry and its descendants.** -/
theorem Consistent.calculateDescendants_spec (hc : pool.Consistent) (hh : h ∈ pool.hashes) :
    ∃ found, pool.calculateDescendants h [] = .ok found ∧ found.Nodup ∧
      ∀ d, d ∈ found ↔ d = h ∨ pool.Ancestor h d := by
  have hmem : ∀ x, ∀ c ∈ pool.getMemPoolChildren x, c ∈ pool.hashes := fun x c hcx =>
    (hc.parents_mem ((hc.children x c).mp hcx)).1
  have hfront : Worklist.Front pool.getMemPoolChildren pool.hashes [] [h] :=
    ⟨by simp, by simpa using hh, fun _ hx => by cases hx⟩
  obtain ⟨found, hwalk, hnodup, hfound⟩ := walk_spec pool.mapTx.length
    (fun x _ c hcx => hmem x c hcx) hfront (by simp [hashes])
  refine ⟨found, ?_, hnodup, fun d => ?_⟩
  · rw [calculateDescendants, if_neg (by simp)]
    exact descendantLoop_eq hwalk
  · -- the children mirror the parents, so a walk down is a walk up read backwards
    have hswap : Edge pool.getMemPoolChildren = Function.swap (Edge pool.getMemPoolParents) := by
      funext x c
      exact propext (hc.children x c)
    rw [hfound, hswap]
    simp only [not_mem_nil, false_or, mem_singleton, exists_eq_left]
    rw [Relation.reflTransGen_swap, Relation.reflTransGen_iff_eq_or_transGen]
    exact or_congr_left eq_comm

end CTxMemPool

end Ybtc
