import Ybtc.Mempool.Ancestry
import Ybtc.Miner.AssemblySteps

/-!
# The totals of packages

`mapModifiedTx` holds the totals of those transactions that have ancestors in the block; for all
others the pool has them.  This file follows one quantity, whichever of the two holds it, through
`UpdatePackagesForAdded`.  The main result is `updatePackagesForAdded_spec`.
-/

namespace Ybtc

open CTxMemPool List CTxMemPoolModifiedEntry

/-! ## Quantities -/

/-- Something packages are measured by: of one transaction, and the cached totals. -/
structure Quantity where
  ofEntry : CTxMemPoolEntry → ℤ
  withAncestors : CTxMemPoolEntry → ℤ
  ofModified : CTxMemPoolModifiedEntry → ℤ

/-- `update_for_parent_inclusion`. -/
def CTxMemPoolModifiedEntry.includeParent (it : CTxMemPoolEntry) (m : CTxMemPoolModifiedEntry) :
    CTxMemPoolModifiedEntry :=
  ⟨m.iter, m.nSizeWithAncestors - it.getTxSize, m.nModFeesWithAncestors - it.nFee,
    m.nSigOpCostWithAncestors - it.sigOpCost⟩

/-- The entry `UpdatePackagesForAdded` makes for a descendant that has none. -/
def CTxMemPoolModifiedEntry.descendantOf (it desc : CTxMemPoolEntry) : CTxMemPoolModifiedEntry :=
  ⟨desc.hash, desc.nSizeWithAncestors - it.getTxSize,
    desc.nModFeesWithAncestors - it.getModifiedFee, desc.nSigOpCostWithAncestors - it.sigOpCost⟩

namespace Quantity

def size : Quantity := ⟨fun e => e.getTxSize, fun e => e.nSizeWithAncestors,
  fun m => m.nSizeWithAncestors⟩

def modFees : Quantity := ⟨fun e => e.getModifiedFee, fun e => e.nModFeesWithAncestors,
  fun m => m.nModFeesWithAncestors⟩

def sigOps : Quantity := ⟨fun e => e.sigOpCost, fun e => e.nSigOpCostWithAncestors,
  fun m => m.nSigOpCostWithAncestors⟩

/-- The pool has the right totals. -/
def Cached (q : Quantity) (pool : CTxMemPool) : Prop :=
  ∀ e ∈ pool.mapTx, q.withAncestors e = pool.total q.ofEntry (pool.ancestry e.hash)

/-- A transaction that is included takes with it what it contributed.  `update_for_parent_inclusion`
    does this for sizes and signature operations, and for fees if there is no fee delta. -/
structure Tracks (q : Quantity) (it : CTxMemPoolEntry) : Prop where
  includeParent : ∀ m, q.ofModified (m.includeParent it) = q.ofModified m - q.ofEntry it
  descendantOf : ∀ desc, q.ofModified (.descendantOf it desc) = q.withAncestors desc - q.ofEntry it

variable (it : CTxMemPoolEntry)

lemma size_tracks : size.Tracks it := ⟨fun _ => rfl, fun _ => rfl⟩

lemma sigOps_tracks : sigOps.Tracks it := ⟨fun _ => rfl, fun _ => rfl⟩

/-- The fee itself is the modified fee only where there is no delta. -/
lemma modFees_tracks {it : CTxMemPoolEntry} (h : it.feeDelta = 0) : modFees.Tracks it := by
  refine ⟨fun m => ?_, fun _ => rfl⟩
  simp [modFees, includeParent, CTxMemPoolEntry.getModifiedFee, h]

/-- **The total the assembler goes by.** -/
def current (q : Quantity) (pool : CTxMemPool) (mapModifiedTx : List CTxMemPoolModifiedEntry)
    (h : Uint256) : ℤ :=
  ((mapModifiedTx.find? fun m => m.iter == h).map q.ofModified).getD
    (pool.valueAt q.withAncestors h)

end Quantity

open Quantity

/-- The transactions that have an entry. -/
def modifiedKeys (mapModifiedTx : List CTxMemPoolModifiedEntry) : List Uint256 :=
  mapModifiedTx.map CTxMemPoolModifiedEntry.iter

section Lookup

variable {q : Quantity} {pool : CTxMemPool} {M : List CTxMemPoolModifiedEntry} {h : Uint256}

lemma Quantity.current_of_mem (hn : (modifiedKeys M).Nodup) {m : CTxMemPoolModifiedEntry}
    (hm : m ∈ M) : q.current pool M m.iter = q.ofModified m := by
  simp [current, Entries.find?_key hn hm]

lemma Quantity.current_of_notMem (hh : h ∉ modifiedKeys M) :
    q.current pool M h = pool.valueAt q.withAncestors h := by
  simp [current, Entries.find?_key_none hh]

lemma modifiedKeys_filter (p : Uint256 → Bool) (M : List CTxMemPoolModifiedEntry) :
    modifiedKeys (M.filter fun m => p m.iter) = (modifiedKeys M).filter p := by
  rw [modifiedKeys, modifiedKeys, filter_map]
  rfl

/-- Erasing other entries changes nothing. -/
lemma Quantity.current_filter {p : CTxMemPoolModifiedEntry → Bool}
    (hp : ∀ m ∈ M, m.iter = h → p m = true) :
    q.current pool (M.filter p) h = q.current pool M h := by
  unfold current
  rw [find?_filter]
  have hsame : M.find? (fun m => decide (p m = true ∧ (m.iter == h) = true))
      = M.find? fun m => m.iter == h := by
    refine find?_congr fun m hm => ?_
    by_cases hmh : m.iter = h
    · simp [hmh, hp m hm hmh]
    · simp [hmh]
  rw [← hsame]

end Lookup

/-! ## One descendant -/

section Updates

variable {pool : CTxMemPool} {it desc : CTxMemPoolEntry} {M M' : List CTxMemPoolModifiedEntry}
  {h : Uint256}

lemma updateModified_of_mem (hd : desc.hash ∈ modifiedKeys M) : updateModified it desc M
      = M.map fun m => if m.iter = desc.hash then m.includeParent it else m := by
  obtain ⟨m, hm, hmd⟩ := mem_map.mp hd
  rw [updateModified, if_pos (any_eq_true.mpr ⟨m, hm, by simpa using hmd⟩)]
  rfl

lemma updateModified_of_notMem (hd : desc.hash ∉ modifiedKeys M) :
    updateModified it desc M = M ++ [.descendantOf it desc] := by
  rw [updateModified, if_neg]
  · rfl
  · intro hany
    obtain ⟨m, hm, hmd⟩ := any_eq_true.mp hany
    exact hd (mem_map.mpr ⟨m, hm, by simpa using hmd⟩)

/-- **What including `it` does to the entries of the transactions `ds`.** -/
structure TakesOff (pool : CTxMemPool) (it : CTxMemPoolEntry) (ds : List Uint256)
    (M M' : List CTxMemPoolModifiedEntry) : Prop where
  nodup : (modifiedKeys M).Nodup → (modifiedKeys M').Nodup
  keys : ∀ h, h ∈ modifiedKeys M' ↔ h ∈ modifiedKeys M ∨ h ∈ ds
  current : ∀ (q : Quantity) h, (h ∈ ds → q.Tracks it) →
    q.current pool M' h = q.current pool M h - if h ∈ ds then q.ofEntry it else 0

lemma includeParent_keys (it : CTxMemPoolEntry) (k : Uint256) (M : List CTxMemPoolModifiedEntry) :
    modifiedKeys (M.map fun m => if m.iter = k then m.includeParent it else m)
      = modifiedKeys M := by
  rw [modifiedKeys, map_map]
  refine map_congr_left fun m _ => ?_
  simp only [Function.comp_apply]
  split_ifs <;> rfl

/-- One descendant. -/
lemma updateModified_takesOff (hf : pool.find desc.hash = some desc) :
    TakesOff pool it [desc.hash] M (updateModified it desc M) := by
  by_cases hd : desc.hash ∈ modifiedKeys M
  · rw [updateModified_of_mem hd]
    refine ⟨?_, ?_, ?_⟩
    · rw [includeParent_keys]
      exact id
    · intro h
      rw [includeParent_keys, mem_singleton]
      exact ⟨Or.inl, by rintro (hh | rfl) <;> assumption⟩
    · intro q h htrack
      simp only [current, find?_map, mem_singleton]
      have hsame : (fun m : CTxMemPoolModifiedEntry => m.iter == h)
          ∘ (fun m => if m.iter = desc.hash then m.includeParent it else m)
          = fun m => m.iter == h := by
        funext m
        simp only [Function.comp_apply]
        split_ifs <;> rfl
      rw [hsame]
      cases hfind : M.find? fun m => m.iter == h with
      | none =>
        have hne : h ≠ desc.hash := by
          rintro rfl
          obtain ⟨m, hm, hmd⟩ := mem_map.mp hd
          have hno := find?_eq_none.mp hfind m hm
          simp [hmd] at hno
        simp [hne]
      | some m =>
        have hmh : m.iter = h := by simpa using find?_some hfind
        by_cases hhd : h = desc.hash
        · simp [hmh, hhd, (htrack (by simp [hhd])).includeParent m]
        · simp [hmh, hhd]
  · rw [updateModified_of_notMem hd]
    have hkeys : modifiedKeys (M ++ [.descendantOf it desc]) = modifiedKeys M ++ [desc.hash] := by
      rw [modifiedKeys, map_append]
      rfl
    refine ⟨?_, ?_, ?_⟩
    · intro hn
      rw [hkeys, nodup_append]
      refine ⟨hn, by simp, ?_⟩
      rintro a ha b hb rfl
      rw [mem_singleton] at hb
      exact hd (hb ▸ ha)
    · intro h
      rw [hkeys, mem_append]
    · intro q h htrack
      by_cases hhd : h = desc.hash
      · subst hhd
        have hnone := @Entries.find?_key_none _ _ CTxMemPoolModifiedEntry.iter M _ _ desc.hash hd
        simp only [current, find?_append, hnone]
        simpa [descendantOf, valueAt, hf] using (htrack (by simp)).descendantOf desc
      · have hone : ([descendantOf it desc].find? fun m => m.iter == h)
            = none := by
          simp [descendantOf, Ne.symm hhd]
        simp [current, find?_append, hone, hhd]

lemma TakesOff.refl : TakesOff pool it [] M M := ⟨id, by simp, by simp⟩

variable {ds : List Uint256}

lemma TakesOff.trans {M1 : List CTxMemPoolModifiedEntry} {d : Uint256}
    (hd : d ∉ ds) (h1 : TakesOff pool it [d] M M1) (h2 : TakesOff pool it ds M1 M') :
    TakesOff pool it (d :: ds) M M' := by
  refine ⟨fun hn => h2.nodup (h1.nodup hn), ?_, ?_⟩
  · intro h
    rw [h2.keys, h1.keys, mem_singleton, mem_cons, or_assoc]
  · intro q h htrack
    rw [h2.current q h fun hh => htrack (mem_cons_of_mem d hh),
      h1.current q h fun hh => htrack (mem_singleton.mp hh ▸ mem_cons_self)]
    by_cases hhd : h = d
    · subst hhd
      simp [hd]
    · simp [hhd]

/-- **The descendants of one transaction.** -/
lemma descendants_takesOff (hc : pool.Consistent) (hn : ds.Nodup)
    (hds : ∀ d ∈ ds, d ∈ pool.hashes) (M : List CTxMemPoolModifiedEntry) :
    ∃ M', ds.foldlM (fun m d => do
        let desc ← pool.deref d
        .ok (updateModified it desc m)) M = Except.ok M' ∧ TakesOff pool it ds M M' := by
  induction ds generalizing M with
  | nil => exact ⟨M, rfl, TakesOff.refl⟩
  | cons d ds ih =>
    obtain ⟨hd, hrest⟩ := nodup_cons.mp hn
    rw [forall_mem_cons] at hds
    obtain ⟨desc, hdesc, rfl⟩ := mem_hashes.mp hds.1
    obtain ⟨M', hfold, hoff⟩ := ih hrest hds.2 (updateModified it desc M)
    refine ⟨M', ?_, (updateModified_takesOff (hc.find hdesc)).trans hd hoff⟩
    rw [foldlM_cons, hc.deref hdesc]
    exact hfold

end Updates

/-! ## All added transactions -/

section Added

variable {ctx : MinerContext} {added : List Uint256}

/-- One added transaction. -/
lemma updateForAdded_spec (hc : ctx.pool.Consistent) {it : CTxMemPoolEntry}
    (hit : it ∈ ctx.pool.mapTx) (hadded : it.hash ∈ added) (M : List CTxMemPoolModifiedEntry) :
    ∃ M' ds, updateForAdded ctx added M it.hash = .ok M' ∧ TakesOff ctx.pool it ds M M' ∧
      ∀ d, d ∈ ds ↔ ctx.pool.Ancestor it.hash d ∧ d ∉ added := by
  obtain ⟨descendants, hwalk, hnodup, hmem⟩ := hc.calculateDescendants_spec (hash_mem hit)
  have hds : ∀ d, d ∈ descendants.filter (fun d => !added.contains d) ↔
      ctx.pool.Ancestor it.hash d ∧ d ∉ added := by
    intro d
    have hne : d ∉ added → d ≠ it.hash := fun hno heq => hno (heq ▸ hadded)
    simp only [mem_filter, hmem, contains_eq_mem, Bool.not_eq_true', decide_eq_false_iff_not]
    tauto
  obtain ⟨M', hfold, hoff⟩ := descendants_takesOff hc (hnodup.filter _)
    (fun d hd => (hc.ancestor_mem ((hds d).mp hd).1).1) M
  refine ⟨M', _, ?_, hoff, hds⟩
  rw [updateForAdded, hc.deref hit, Fallible.ok_bind, hwalk]
  exact hfold

open Classical in
/-- Some of the added transactions: the induction is on the list of those to come. -/
lemma foldAdded_spec (hc : ctx.pool.Consistent) {l : List Uint256}
    (hl : ∀ a ∈ l, a ∈ ctx.pool.hashes ∧ a ∈ added) (M : List CTxMemPoolModifiedEntry) :
    ∃ M', l.foldlM (updateForAdded ctx added) M = .ok M' ∧
      ((modifiedKeys M).Nodup → (modifiedKeys M').Nodup) ∧
      (∀ h, h ∈ modifiedKeys M' ↔ h ∈ modifiedKeys M ∨
        h ∉ added ∧ ∃ a ∈ l, ctx.pool.Ancestor a h) ∧
      ∀ (q : Quantity) h, h ∉ added →
        (∀ it ∈ ctx.pool.mapTx, it.hash ∈ l → ctx.pool.Ancestor it.hash h → q.Tracks it) →
        q.current ctx.pool M' h = q.current ctx.pool M h - (l.map fun a =>
          if ctx.pool.Ancestor a h then ctx.pool.valueAt q.ofEntry a else 0).sum := by
  induction l generalizing M with
  | nil => exact ⟨M, rfl, id, by simp, by simp⟩
  | cons a l ih =>
    rw [forall_mem_cons] at hl
    obtain ⟨it, hit, rfl⟩ := mem_hashes.mp hl.1.1
    obtain ⟨M1, ds, hone, hoff, hds⟩ := updateForAdded_spec hc hit hl.1.2 M
    obtain ⟨M', hfold, hnodup, hkeys, hcurrent⟩ := ih hl.2 M1
    refine ⟨M', ?_, fun hn => hnodup (hoff.nodup hn), ?_, ?_⟩
    · rw [foldlM_cons, hone]
      exact hfold
    · intro h
      rw [hkeys, hoff.keys, hds]
      simp only [mem_cons, exists_eq_or_imp]
      tauto
    · intro q h hh htrack
      have hiff : h ∈ ds ↔ ctx.pool.Ancestor it.hash h := by simp [hds, hh]
      rw [hcurrent q h hh fun b hb hbl => htrack b hb (mem_cons_of_mem _ hbl),
        hoff.current q h fun hd => htrack it hit mem_cons_self (hiff.mp hd),
        map_cons, sum_cons, hc.valueAt q.ofEntry hit]
      simp only [hiff]
      ring

open Classical in
/-- **`UpdatePackagesForAdded`**: all descendants of the added transactions have an entry
    afterwards, and the totals lose what the added ancestors contributed. -/
theorem updatePackagesForAdded_spec (hc : ctx.pool.Consistent) (hn : added.Nodup)
    (hadded : ∀ a ∈ added, a ∈ ctx.pool.hashes) (M : List CTxMemPoolModifiedEntry) :
    ∃ M', updatePackagesForAdded ctx added M = .ok M' ∧
      ((modifiedKeys M).Nodup → (modifiedKeys M').Nodup) ∧
      (∀ h, h ∈ modifiedKeys M' ↔ h ∈ modifiedKeys M ∨
        h ∉ added ∧ ∃ a ∈ added, ctx.pool.Ancestor a h) ∧
      ∀ (q : Quantity) h, h ∉ added →
        (∀ it ∈ ctx.pool.mapTx, it.hash ∈ added → ctx.pool.Ancestor it.hash h → q.Tracks it) →
        q.current ctx.pool M' h = q.current ctx.pool M h
          - ctx.pool.total q.ofEntry (added.toFinset.filter (ctx.pool.Ancestor · h)) := by
  have hperm : (setOrder added).Perm added := perm_insertionSort _ added
  obtain ⟨M', hfold, hnodup, hkeys, hcurrent⟩ := @foldAdded_spec ctx added hc (setOrder added)
    (fun a ha => ⟨hadded a (hperm.subset ha), hperm.subset ha⟩) M
  simp only [hperm.mem_iff] at hkeys hcurrent
  refine ⟨M', hfold, hnodup, hkeys, fun q h hh htrack => ?_⟩
  rw [hcurrent q h hh htrack, total, Finset.sum_filter, sum_toFinset _ hn, (hperm.map _).sum_eq]

end Added

end Ybtc
