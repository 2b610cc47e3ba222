import Ybtc.Miner.PackageTotals

/-!
# One turn of the package selection

What a turn of the loop of `addPackageTxs` does over a consistent pool, as one inversion lemma from
which the invariants of the loop are derived.  The main results are `packageOf_spec`,
`sortForBlock_order` and `turn_step`.
-/

namespace Ybtc

namespace Packages

open CTxMemPool Stateful List CTxMemPoolEntry Quantity

/-! ## Packages -/

/-- A transaction and its ancestors, without those in the block. -/
noncomputable def remaining (pool : CTxMemPool) (inBlock : List Uint256) (h : Uint256) :
    Finset Uint256 :=
  pool.ancestry h \ inBlock.toFinset

lemma mem_remaining {pool : CTxMemPool} {inBlock : List Uint256} {a h : Uint256} :
    a ∈ remaining pool inBlock h ↔
      a ∈ pool.hashes ∧ (a = h ∨ pool.Ancestor a h) ∧ a ∉ inBlock := by
  rw [remaining, Finset.mem_sdiff, mem_ancestry, and_assoc, mem_toFinset]

section Steps

variable {ctx : MinerContext} {w : Bool} {A A' : Assembler} {sel sel' : Selection}
  {iter : CTxMemPoolEntry}

/-- **A package is what remains of the ancestry.** -/
lemma packageOf_spec (hc : ctx.pool.Consistent) (hiter : iter ∈ ctx.pool.mapTx)
    (hnot : iter.hash ∉ A.inBlock) :
    ∃ package, packageOf ctx A iter = .ok package ∧ (∀ e ∈ package, e ∈ ctx.pool.mapTx) ∧
      (package.map hash).Nodup ∧
      (package.map hash).toFinset = remaining ctx.pool A.inBlock iter.hash := by
  obtain ⟨found, hwalk, hnodup, hfound⟩ := hc.calculateMemPoolAncestors_spec iter
  have hmem : ∀ a, a ∈ found.filter (fun h => !A.inBlock.contains h) ↔
      ctx.pool.Ancestor a iter.hash ∧ a ∉ A.inBlock := by
    intro a
    simp [hfound]
  obtain ⟨unconfirmed, hmap, hhashes, hpool⟩ := hc.mapM_deref
    (fun a ha => (hc.ancestor_mem ((hmem a).mp ha).1).2)
  have hself : (unconfirmed.any fun e => e.hash == iter.hash) = false := by
    rw [any_eq_false]
    intro e he heq
    have hin : e.hash ∈ found.filter fun h => !A.inBlock.contains h := by
      rw [← hhashes]
      exact mem_map_of_mem he
    rw [beq_iff_eq.mp heq] at hin
    exact hc.acyclic _ ((hmem _).mp hin).1
  refine ⟨iter :: unconfirmed, ?_, forall_mem_cons.mpr ⟨hiter, hpool⟩, ?_, ?_⟩
  · rw [packageOf, hwalk, Fallible.ok_bind, Option.getD_some, hmap, Fallible.ok_bind, hself]
    rfl
  · rw [map_cons, hhashes, nodup_cons]
    exact ⟨fun hin => hc.acyclic _ ((hmem _).mp hin).1, hnodup.filter _⟩
  · ext a
    rw [mem_toFinset, map_cons, hhashes, mem_cons, hmem, mem_remaining]
    constructor
    · rintro (rfl | ⟨ha, hout⟩)
      · exact ⟨hash_mem hiter, Or.inl rfl, hnot⟩
      · exact ⟨(hc.ancestor_mem ha).2, Or.inr ha, hout⟩
    · rintro ⟨-, rfl | ha, hout⟩
      · exact Or.inl rfl
      · exact Or.inr ⟨ha, hout⟩

/-! ## The order in the block -/

lemma compareByAncestorCount_iff {a b : CTxMemPoolEntry} : compareByAncestorCount a b = true ↔
    a.nCountWithAncestors < b.nCountWithAncestors ∨
      a.nCountWithAncestors = b.nCountWithAncestors ∧ a.hash.toNat < b.hash.toNat := by
  unfold compareByAncestorCount
  split_ifs with hne
  · simp [hne]
  · rw [not_not] at hne
    simp [hne]

variable {package : List CTxMemPoolEntry}

/-- **Sorting by the number of ancestors puts ancestors first.** -/
lemma sortForBlock_order (hc : ctx.pool.Consistent) (hpool : ∀ e ∈ package, e ∈ ctx.pool.mapTx) :
    (sortForBlock package).Pairwise fun x y => ¬ ctx.pool.Ancestor y.hash x.hash := by
  have hsorted : (sortForBlock package).Pairwise
      fun x y => ¬ compareByAncestorCount y x = true := by
    refine Entries.pairwise_insertionSort_strict ?_ ?_ package
    · intro a b
      rw [compareByAncestorCount_iff, compareByAncestorCount_iff]
      omega
    · intro a b c
      rw [compareByAncestorCount_iff, compareByAncestorCount_iff, compareByAncestorCount_iff]
      omega
  have hmem : ∀ e ∈ sortForBlock package, e ∈ ctx.pool.mapTx :=
    fun e he => hpool e ((mem_insertionSort _).mp he)
  refine hsorted.imp_of_mem ?_
  intro x y hx hy hxy hanc
  exact hxy (compareByAncestorCount_iff.mpr (Or.inl (hc.count_lt (hmem y hy) (hmem x hx) hanc)))

/-! ## The entries of a package -/

/-- A fault of executing a contract transaction of the pool. -/
def ExecFault (ctx : MinerContext) (f : Fault) : Prop :=
  ∃ A iter s s', iter ∈ ctx.pool.mapTx ∧ addEntry ctx A iter s = .error f s'

/-- The block has grown by some entries. -/
structure Grown (A A' : Assembler) (es : List CTxMemPoolEntry) : Prop where
  vtx : A'.vtx = A.vtx ++ es.map tx
  inBlock : A'.inBlock = (es.map hash).reverse ++ A.inBlock
  weight : A'.nBlockWeight = A.nBlockWeight + (es.map getTxWeight).sum
  sigOps : A'.nBlockSigOpsCost = A.nBlockSigOpsCost + (es.map sigOpCost).sum

variable {es : List CTxMemPoolEntry}

lemma Grown.trans {B : Assembler} (h1 : Grown A A' [iter])
    (h2 : Grown A' B es) : Grown A B (iter :: es) := by
  refine ⟨?_, ?_, ?_, ?_⟩
  · simp [h2.vtx, h1.vtx]
  · simp [h2.inBlock, h1.inBlock]
  · simp [h2.weight, h1.weight, Nat.add_assoc]
  · simp [h2.sigOps, h1.sigOps, Nat.add_assoc]

lemma addEntry_grown (hiter : iter ∈ ctx.pool.mapTx) :
    Triple (ExecFault ctx) (fun _ => True) (addEntry ctx A iter) fun A' _ => Grown A A' [iter] := by
  intro s _
  cases h : addEntry ctx A iter s with
  | error f s' => exact ⟨A, iter, s, s', hiter, h⟩
  | ok A' s' =>
    unfold addEntry at h
    split_ifs at h
    · obtain ⟨_, _, _, hrest⟩ := bind_ok.mp h
      obtain ⟨_, _, _, hend⟩ := bind_ok.mp hrest
      cases hend
      exact ⟨rfl, rfl, rfl, rfl⟩
    · cases h
      exact ⟨rfl, rfl, rfl, rfl⟩

lemma addEntries_grown (hes : ∀ e ∈ es, e ∈ ctx.pool.mapTx)
    (A : Assembler) : Triple (ExecFault ctx) (fun _ => True) (es.foldlM (addEntry ctx) A)
      fun A' _ => Grown A A' es := by
  induction es generalizing A with
  | nil => exact Triple.pure fun _ _ => ⟨by simp, by simp, by simp, by simp⟩
  | cons e es ih =>
    rw [forall_mem_cons] at hes
    rw [foldlM_cons]
    refine (addEntry_grown hes.1).bind fun A1 s hgrown => ?_
    exact (ih hes.2 A1).weaken (fun A2 _ h => hgrown.trans h) s trivial

/-! ## A turn -/

/-- The selection speaks of entries of the pool that are not in the block. -/
structure Listed (ctx : MinerContext) (A : Assembler) (sel : Selection) : Prop where
  mi : ∀ e ∈ sel.mi, e ∈ ctx.pool.mapTx
  nodup : (modifiedKeys sel.mapModifiedTx).Nodup
  modified : ∀ h ∈ modifiedKeys sel.mapModifiedTx, h ∈ ctx.pool.hashes ∧ h ∉ A.inBlock

/-- The transaction a turn looks at. -/
def candidate (ctx : MinerContext) (A : Assembler) (sel : Selection) : Option Uint256 :=
  match sel.mi, bestModified ctx sel.mapModifiedTx with
  | [], best => best.map CTxMemPoolModifiedEntry.iter
  | iter :: _, best =>
    if skipMapTxEntry A sel iter.hash then none
    else some (((best.filter fun m => ctx.compareModified m (.ofEntry iter)).map
      CTxMemPoolModifiedEntry.iter).getD iter.hash)

/-- The package of a transaction passes `TestPackage` with its current totals. -/
def Fits (ctx : MinerContext) (A : Assembler) (sel : Selection) (h : Uint256) : Prop :=
  testPackage ctx A (toUint64 (size.current ctx.pool sel.mapModifiedTx h))
    (sigOps.current ctx.pool sel.mapModifiedTx h) = true

/-- **The ways a turn goes on**: to advance in the pool, to give up on a modified entry, or to add a
    package that fits. -/
inductive Step (ctx : MinerContext) (A : Assembler) (sel : Selection) : Assembler → Selection → Prop
  /-- The next entry of the pool is skipped, or its package fails. -/
  | advance {iter : CTxMemPoolEntry} {mi : List CTxMemPoolEntry} {n : ℕ}
      (hmi : sel.mi = iter :: mi) : Step ctx A sel A ⟨mi, sel.mapModifiedTx, sel.failedTx, n⟩
  /-- The package of a modified entry fails. -/
  | fail {h : Uint256} {n : ℕ} (hh : h ∈ modifiedKeys sel.mapModifiedTx) :
      Step ctx A sel A ⟨sel.mi, sel.mapModifiedTx.filter fun m => m.iter != h, h :: sel.failedTx, n⟩
  /-- A package is added. -/
  | add {iter : CTxMemPoolEntry} {mi : List CTxMemPoolEntry} {package : List CTxMemPoolEntry}
      {A' : Assembler} {M' : List CTxMemPoolModifiedEntry}
      (hcandidate : candidate ctx A sel = some iter.hash) (hiter : iter ∈ ctx.pool.mapTx)
      (hnot : iter.hash ∉ A.inBlock) (hmi : mi <:+ sel.mi) (hfits : Fits ctx A sel iter.hash)
      (hpackage : packageOf ctx A iter = .ok package)
      (hgrown : Grown A A' (sortForBlock package))
      (hmodified : updatePackagesForAdded ctx (package.map hash)
        (sel.mapModifiedTx.filter fun m => !(package.map hash).contains m.iter) = .ok M') :
      Step ctx A sel A' ⟨mi, M', sel.failedTx, 0⟩

/-- What a turn may return. -/
def Stepped (ctx : MinerContext) (A : Assembler) (sel : Selection) : Turn → Prop
  | .finished A' => A' = A
  | .next A' sel' => Step ctx A sel A' sel'

/-- The transaction that is evaluated, with the totals of its package. -/
inductive Chosen (ctx : MinerContext) (sel : Selection) (iter : CTxMemPoolEntry) :
    Selection → CTxMemPoolModifiedEntry → Bool → Prop
  | modified {m : CTxMemPoolModifiedEntry} (hm : m ∈ sel.mapModifiedTx)
      (hiter : m.iter = iter.hash) : Chosen ctx sel iter sel m true
  | fresh {mi : List CTxMemPoolEntry} (hmi : sel.mi = iter :: mi)
      (hkey : iter.hash ∉ modifiedKeys sel.mapModifiedTx) :
      Chosen ctx sel iter { sel with mi := mi } (.ofEntry iter) false

section Chosen

variable {sel1 : Selection} {m : CTxMemPoolModifiedEntry} {used : Bool}

/-- The totals are the current ones. -/
lemma Chosen.current (hc : ctx.pool.Consistent) (hlist : Listed ctx A sel)
    (hiter : iter ∈ ctx.pool.mapTx) (h : Chosen ctx sel iter sel1 m used) :
    m.nSizeWithAncestors = size.current ctx.pool sel.mapModifiedTx iter.hash ∧
      m.nSigOpCostWithAncestors = sigOps.current ctx.pool sel.mapModifiedTx iter.hash := by
  cases h with
  | modified hm heq =>
    rw [← heq, current_of_mem hlist.nodup hm, current_of_mem hlist.nodup hm]
    exact ⟨rfl, rfl⟩
  | fresh hmi hkey =>
    rw [current_of_notMem hkey, current_of_notMem hkey, hc.valueAt _ hiter, hc.valueAt _ hiter]
    exact ⟨rfl, rfl⟩

/-- The package has failed. -/
lemma Chosen.dropped (h : Chosen ctx sel iter sel1 m used) (n : ℕ) :
    Step ctx A sel A { sel1.drop used iter.hash with nConsecutiveFailed := n } := by
  cases h with
  | modified hm heq =>
    rw [Selection.drop, if_pos rfl]
    exact Step.fail (heq ▸ mem_map_of_mem hm)
  | fresh hmi hkey =>
    rw [Selection.drop, if_neg Bool.false_ne_true]
    exact Step.advance hmi

/-- What is left of the selection. -/
lemma Chosen.rest (h : Chosen ctx sel iter sel1 m used) :
    sel1.mapModifiedTx = sel.mapModifiedTx ∧ sel1.failedTx = sel.failedTx ∧ sel1.mi <:+ sel.mi := by
  cases h with
  | modified hm heq => exact ⟨rfl, rfl, suffix_rfl⟩
  | fresh hmi hkey => exact ⟨rfl, rfl, hmi ▸ suffix_cons iter _⟩

/-- A package that passed all tests. -/
lemma addPackage_stepped (hc : ctx.pool.Consistent) (hiter : iter ∈ ctx.pool.mapTx)
    (hnot : iter.hash ∉ A.inBlock) (hcandidate : candidate ctx A sel = some iter.hash)
    (hfits : Fits ctx A sel iter.hash) (hchosen : Chosen ctx sel iter sel1 m used)
    (hpackage : packageOf ctx A iter = .ok package) :
    Triple (ExecFault ctx) (fun _ => True) (addPackage ctx A sel1 package)
      fun t _ => Stepped ctx A sel t := by
  obtain ⟨package', hpackage', hpool, hnodup, -⟩ := packageOf_spec hc hiter hnot
  obtain rfl : package' = package := Except.ok.inj (hpackage'.symm.trans hpackage)
  obtain ⟨hM, hfailed, hmi⟩ := hchosen.rest
  have hsorted : ∀ e ∈ sortForBlock package', e ∈ ctx.pool.mapTx :=
    fun e he => hpool e ((mem_insertionSort _).mp he)
  have hhashes : ∀ a ∈ package'.map hash, a ∈ ctx.pool.hashes := by
    intro a ha
    obtain ⟨e, he, rfl⟩ := mem_map.mp ha
    exact hash_mem (hpool e he)
  refine (addEntries_grown hsorted A).bind fun A' s hgrown => ?_
  obtain ⟨M', hM', -⟩ := updatePackagesForAdded_spec hc hnodup hhashes
    (sel1.mapModifiedTx.filter fun m => !(package'.map hash).contains m.iter)
  rw [hM']
  show Step ctx A sel A' { sel1 with mapModifiedTx := M', nConsecutiveFailed := 0 }
  rw [hM] at hM'
  rw [hfailed]
  exact Step.add hcandidate hiter hnot hmi hfits hpackage hgrown hM'

lemma consider_stepped (hc : ctx.pool.Consistent) (hlist : Listed ctx A sel)
    (hiter : iter ∈ ctx.pool.mapTx) (hnot : iter.hash ∉ A.inBlock)
    (hcandidate : candidate ctx A sel = some iter.hash)
    (hchosen : Chosen ctx sel iter sel1 m used) :
    Triple (ExecFault ctx) (fun _ => True) (consider ctx w A sel1 iter m used)
      fun t _ => Stepped ctx A sel t := by
  obtain ⟨hsize, hsigOps⟩ := hchosen.current hc hlist hiter
  unfold consider
  refine Triple.ite (fun hin => absurd (contains_iff_mem.mp hin) hnot) fun _ => ?_
  refine Triple.ite (fun _ => Triple.pure fun _ _ => rfl) fun _ => ?_
  refine Triple.ite (fun _ => Triple.pure fun _ _ => ?_) fun hfits => ?_
  · unfold packageTooBig
    split_ifs
    · rfl
    · exact hchosen.dropped _
  · rw [Bool.not_eq_true', Bool.not_eq_false, hsize, hsigOps] at hfits
    obtain ⟨package, hpackage, -⟩ := packageOf_spec hc hiter hnot
    rw [hpackage]
    refine Triple.ite (fun _ => Triple.pure fun _ _ => ?_) fun _ => ?_
    · exact hchosen.dropped (sel1.drop used iter.hash).nConsecutiveFailed
    · exact addPackage_stepped hc hiter hnot hcandidate hfits hchosen hpackage

end Chosen

variable {m : CTxMemPoolModifiedEntry}

lemma bestModified_mem {M : List CTxMemPoolModifiedEntry}
    (h : bestModified ctx M = some m) : m ∈ M := by
  cases M with
  | nil => cases h
  | cons m0 ms =>
    cases h
    have hfold : ∀ (l : List CTxMemPoolModifiedEntry) (b : CTxMemPoolModifiedEntry),
        l.foldl (fun best e => if ctx.compareModified e best then e else best) b ∈ b :: l := by
      intro l
      induction l with
      | nil => simp
      | cons e l ih =>
        intro b
        rw [foldl_cons]
        split_ifs
        · exact mem_cons_of_mem b (ih e)
        · rcases mem_cons.mp (ih b) with hb | hl
          · rw [hb]; exact mem_cons_self
          · exact mem_cons_of_mem b (mem_cons_of_mem e hl)
    exact hfold ms m0

lemma considerModified_stepped (hc : ctx.pool.Consistent) (hlist : Listed ctx A sel)
    (hm : m ∈ sel.mapModifiedTx) (hcandidate : candidate ctx A sel = some m.iter) :
    Triple (ExecFault ctx) (fun _ => True) (considerModified ctx w A sel m)
      fun t _ => Stepped ctx A sel t := by
  obtain ⟨hpool, hnot⟩ := hlist.modified m.iter (mem_map_of_mem hm)
  obtain ⟨iter, hiter, heq⟩ := mem_hashes.mp hpool
  unfold considerModified
  rw [← heq, hc.deref hiter]
  rw [← heq] at hnot hcandidate
  exact consider_stepped hc hlist hiter hnot hcandidate (.modified hm heq.symm)

/-- **What a turn does.** -/
theorem turn_step (hc : ctx.pool.Consistent) (hlist : Listed ctx A sel) :
    Triple (ExecFault ctx) (fun _ => True) (turn ctx w A sel) fun t _ => Stepped ctx A sel t := by
  cases hmi : sel.mi with
  | nil =>
    cases hbest : bestModified ctx sel.mapModifiedTx with
    | none =>
      simp only [turn, hmi, hbest]
      exact Triple.pure fun _ _ => rfl
    | some m =>
      simp only [turn, hmi, hbest]
      refine considerModified_stepped hc hlist (bestModified_mem hbest) ?_
      simp [candidate, hmi, hbest]
  | cons iter mi =>
    have hiter : iter ∈ ctx.pool.mapTx := hlist.mi iter (by simp [hmi])
    simp only [turn, hmi]
    refine Triple.ite (fun _ => Triple.pure fun _ _ => Step.advance hmi) fun hskip => ?_
    have hcandidate : candidate ctx A sel
        = some ((((bestModified ctx sel.mapModifiedTx).filter fun m =>
            ctx.compareModified m (.ofEntry iter)).map CTxMemPoolModifiedEntry.iter).getD
              iter.hash) := by
      simp only [candidate, hmi]
      exact if_neg hskip
    cases hbest : (bestModified ctx sel.mapModifiedTx).filter
        fun m => ctx.compareModified m (.ofEntry iter) with
    | some m =>
      rw [hbest] at hcandidate
      exact considerModified_stepped hc hlist
        (bestModified_mem (Option.filter_eq_some_iff.mp hbest).1) hcandidate
    | none =>
      rw [hbest] at hcandidate
      simp only [skipMapTxEntry, Bool.or_eq_true, not_or, contains_iff_mem] at hskip
      refine consider_stepped hc hlist hiter hskip.1.2 hcandidate (.fresh hmi fun hkey => ?_)
      obtain ⟨m, hm, heq⟩ := mem_map.mp hkey
      exact hskip.1.1 (any_eq_true.mpr ⟨m, hm, by simpa using heq⟩)

end Steps

end Packages

end Ybtc
