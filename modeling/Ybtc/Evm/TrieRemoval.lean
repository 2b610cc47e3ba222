import Ybtc.Evm.TrieRefinement

/-!
# Removal from the trie

`deleteAt` takes a key out of the tree under a node and brings what is left back into shape: a
branch with one child becomes a pair, and a pair above a pair becomes one pair.
-/

namespace Ybtc

open RadixTrie List Bool Function Fallible

variable {sha3 : Bytes → Uint256}

/-! ## Growth -/

section Growth

variable (sha3)

@[grind ←] lemma isTwoItemNode_grows (n : Bytes) : Grows (isTwoItemNode n) := Grows.of_except

@[grind ←] lemma graftChild_grows (i : Bytes) : Grows (graftChild i) := by grind [graftChild]

variable (orig : Bytes)

@[grind ←] lemma graft_grows : Grows (graft orig) := by
  unfold graft
  iterate 4 refine Grows.bind (by grind) fun _ => ?_
  grind

variable (items : List Bytes)

@[grind ←] lemma merge_grows (i : ℕ) : Grows (merge items i) := by grind [merge]

@[grind ←] lemma rejig_grows (except : Option ℕ) :
    Grows (rejig items except) := by grind [rejig, mergeUsed]

@[grind ←] lemma deleteAtAux_grows {deleteAt : Bytes → TrieM Bytes} (h : ∀ r, Grows (deleteAt r))
    (orig : Bytes) : Grows (deleteAtAux sha3 deleteAt orig) := by grind [deleteAtAux]

@[grind ←] lemma replaceChild_grows (i0 : Bytes) (child : Option Bytes) :
    Grows (replaceChild sha3 orig i0 child) := by
  cases child <;> grind [replaceChild]

@[grind ←] lemma replaceItem_grows (items : List Bytes) (n : ℕ)
    (child : Option Bytes) : Grows (replaceItem sha3 orig items n child) := by
  cases child <;> grind [replaceItem]

@[grind ←] lemma deleteAtBranch_grows {deleteAt : Bytes → List Nibble → TrieM Bytes}
    (h : ∀ r k, Grows (deleteAt r k)) (orig : Bytes) (items : List Bytes) (k : List Nibble) :
    Grows (deleteAtBranch sha3 deleteAt orig items k) := by
  cases k <;> grind [deleteAtBranch]

@[grind ←] lemma deleteAt_grows (turns : ℕ) (orig : Bytes) (k : List Nibble) :
    Grows (deleteAt sha3 turns orig k) := by
  induction turns generalizing orig k with
  | zero => exact Grows.throw _
  | succ turns ih =>
    refine Grows.ite (by grind) (Grows.bind (by grind) fun _ => Grows.ite ?_ (by grind))
    refine Grows.bind (by grind) fun _ => Grows.bind (by grind) fun _ => ?_
    grind

end Growth

/-! ## Pairs above pairs -/

/-- The node of the tree is a pair. -/
def isPair : NodeTrie → Bool
  | .leaf _ _ => true
  | .ext _ _ => true
  | _ => false

section Joining

variable {db : OverlayDB} {t : NodeTrie}

variable (sha3) in
lemma itemCount_encodeTrie (hf : Fits t) (hne : t ≠ .empty) :
    RLP.itemCount (encodeTrie sha3 t) = .ok (if isPair t then 2 else 17) := by
  cases t with
  | empty => exact absurd rfl hne
  | leaf k v => exact (view_leaf sha3 hf).itemCount
  | ext k t => exact (view_ext sha3 hf).itemCount
  | branch cs => exact (view_branch sha3 hf).itemCount

lemma isData_encodeTrie (hf : Fits t) (hne : t ≠ .empty) :
    RLP.isData (encodeTrie sha3 t) = false := by
  have hl := isList_encodeTrie sha3 hf hne
  unfold RLP.isList at hl
  unfold RLP.isData
  cases hd : (encodeTrie sha3 t).head? with
  | none => rfl
  | some n =>
    rw [hd, Option.any_some, decide_eq_true_eq] at hl
    rw [Option.any_some, decide_eq_false_iff_not]
    omega

/-- Whether the node behind an item is a pair. -/
lemma isTwoItemNode_refItem (hf : Fits t) (hne : t ≠ .empty)
    (hh : Holds sha3 db (encodeTrie sha3 t)) :
    isTwoItemNode (refItem sha3 (encodeTrie sha3 t)) db = .ok (isPair t) db := by
  have hcount := itemCount_encodeTrie sha3 hf hne
  have htwo : ((if isPair t then 2 else 17 : ℕ) == 2) = isPair t := by cases isPair t <;> rfl
  unfold isTwoItemNode refItem
  by_cases hl : (encodeTrie sha3 t).length < 32
  · rw [if_pos hl, isData_encodeTrie hf hne, if_neg Bool.false_ne_true, hcount, Fallible.ok_bind,
      isList_encodeTrie sha3 hf hne, htwo]
    rfl
  · have hlim := hashBytes_short (sha3 (encodeTrie sha3 t))
    rw [if_neg hl, isData_rlpBytes hlim, if_pos rfl, toHash_hashBytes, ok_bind, hh (by omega),
      (isItem_encodeTrie hf).ofBytes, ok_bind, hcount, ok_bind, htwo]
    rfl

/-- The pair below a pair. -/
lemma graftChild_yields (hf : Fits t) (hne : t ≠ .empty) (hh : Holds sha3 db (encodeTrie sha3 t)) :
    Yields (graftChild (refItem sha3 (encodeTrie sha3 t))) db fun n _ => n = encodeTrie sha3 t := by
  unfold graftChild refItem
  by_cases hl : (encodeTrie sha3 t).length < 32
  · rw [if_pos hl, isList_encodeTrie sha3 hf hne, if_pos rfl]
    exact Yields.pure rfl
  · have hlim := hashBytes_short (sha3 (encodeTrie sha3 t))
    rw [if_neg hl, isList_rlpBytes hlim, if_neg Bool.false_ne_true]
    refine Yields.lift_bind (toHash_hashBytes _) fun _ => ?_
    refine ⟨encodeTrie sha3 t, db.kill (sha3 (encodeTrie sha3 t)), ?_, rfl⟩
    change Stateful.liftExcept (RLP.ofBytes (db.lookup (sha3 (encodeTrie sha3 t)))) _ = _
    rw [hh (by omega), (isItem_encodeTrie hf).ofBytes]
    rfl

/-- What both ends of a removal do with a pair above a tree. -/
def joined (k : List Nibble) (i : Bytes) (two : Bool) : TrieM Bytes :=
  if two then graft (pairNode k false i) else pure (pairNode k false i)

/-- **A pair above a tree is `join`ed with it.** -/
lemma joined_yields {k : List Nibble} (hk : k.length < sizeLimit) (hf : Fits t) (hne : t ≠ .empty)
    (hh : Holds sha3 db (encodeTrie sha3 t)) (hst : TrieStored sha3 db t) :
    Yields (joined k (refItem sha3 (encodeTrie sha3 t)) (isPair t)) db
      (Encoded sha3 (join k t)) := by
  have hv := view_ext sha3 (k := k) (t := t) ⟨hk, hf⟩
  have hgraft : ∀ {kn : List Nibble} {leaf : Bool} {i : Bytes},
      PairView (encodeTrie sha3 t) kn leaf i → Yields (graft (encodeTrie sha3 (.ext k t))) db
        fun b db' => b = pairNode (k ++ kn) leaf i ∧ TrieStored sha3 db' t := by
    intro kn leaf i hn
    refine Yields.lift_bind hv.item_one (Yields.bind (graftChild_grows _)
      (graftChild_yields hf hne hh) (fun _ => ?_) ?_)
    · iterate 3 refine Grows.bind (by grind) fun _ => ?_
      grind
    · rintro _ db1 rfl hg hc
      refine Yields.lift_bind hn.itemCount (Yields.assert_bind rfl (Yields.lift_bind hv.keyOf
        (Yields.lift_bind hn.keyOf (Yields.lift_bind hn.isLeaf (Yields.lift_bind hn.item_one ?_)))))
      exact Yields.pure ⟨rfl, hst.mono hg hc⟩
  unfold joined
  cases t with
  | empty => exact absurd rfl hne
  | leaf kn w =>
    refine (hgraft (view_leaf sha3 hf)).weaken fun b db' hb _ => ⟨?_, trivial⟩
    rw [hb.1, join, encodeTrie]
  | ext kn u =>
    refine (hgraft (view_ext sha3 hf)).weaken fun b db' hb _ => ⟨?_, hb.2⟩
    rw [hb.1, join, encodeTrie]
  | branch cs =>
    exact Yields.pure ⟨by simp [join, encodeTrie], hh, hst⟩

end Joining

/-! ## Branches with one child left -/

section Collapsing

variable {db : OverlayDB} {cs : Nibble → NodeTrie}

/-- The only element of a list with a property. -/
lemma filter_eq_singleton {α : Type} [DecidableEq α] {l : List α} (hl : l.Nodup) {p : α → Bool}
    {a : α} (ha : a ∈ l) (hp : ∀ x ∈ l, p x = true ↔ x = a) : l.filter p = [a] := by
  rw [filter_congr fun x hx => Bool.eq_iff_iff.mpr ((hp x hx).trans beq_iff_eq.symm), filter_beq,
    count_eq_one_of_mem hl ha, replicate_one]

section

variable (hf : ∀ i, Fits (cs i))

include hf

/-- The positions of a branch in use. -/
lemma isEmpty_branchItems (i : ℕ) (hi : i < 17) :
    RLP.isEmpty ((branchItems sha3 cs).getD i []) = false ↔
      ∃ d : Nibble, d.val = i ∧ cs d ≠ .empty := by
  by_cases h16 : i < 16
  · have hd := branchItems_getD sha3 cs ⟨i, h16⟩
    dsimp only at hd
    rw [hd]
    constructor
    · intro he
      refine ⟨⟨i, h16⟩, rfl, fun hc => ?_⟩
      rw [hc, refItem_empty] at he
      exact absurd he (by decide)
    · rintro ⟨d, rfl, hne⟩
      exact isEmpty_refItem (hf d) hne
  · obtain rfl : i = 16 := by omega
    have hlast : (branchItems sha3 cs).getD 16 [] = rlpNull := by
      simp [branchItems]
    rw [hlast]
    constructor
    · intro he
      exact absurd he (by decide)
    · rintro ⟨d, hd, -⟩
      exact absurd d.isLt (by omega)

/-- `uniqueInUse` finds the only child. -/
lemma uniqueInUse_some {d : Nibble} (hd : cs d ≠ .empty)
    (hu : ∀ e, cs e ≠ .empty → e = d) : uniqueInUse (branchItems sha3 cs) none = some d.val := by
  have hfilter : ((List.range 17).filter fun i => some i != none &&
      !RLP.isEmpty ((branchItems sha3 cs).getD i [])) = [d.val] := by
    refine filter_eq_singleton nodup_range (mem_range.mpr (by omega)) fun i hi => ?_
    rw [and_eq_true, not_eq_true', isEmpty_branchItems hf i (mem_range.mp hi)]
    constructor
    · rintro ⟨-, e, rfl, he⟩
      rw [hu e he]
    · rintro rfl
      exact ⟨rfl, d, rfl, hd⟩
  rw [uniqueInUse, hfilter]

/-- `uniqueInUse` finds nothing unless there is exactly one child. -/
lemma uniqueInUse_none (h : ¬ ∃! d, cs d ≠ .empty) :
    uniqueInUse (branchItems sha3 cs) none = none := by
  cases hu : uniqueInUse (branchItems sha3 cs) none with
  | none => rfl
  | some i =>
    refine absurd ?_ h
    unfold uniqueInUse at hu
    split at hu
    · rename_i j hfilter
      have hmem : ∀ e, cs e ≠ .empty → e.val = j := by
        intro e he
        have : e.val ∈ [j] := by
          rw [← hfilter, mem_filter, and_eq_true, not_eq_true']
          exact ⟨mem_range.mpr (by omega), rfl,
            (isEmpty_branchItems hf _ (by omega)).mpr ⟨e, rfl, he⟩⟩
        exact mem_singleton.mp this
      have hj : j ∈ (List.range 17).filter fun i => some i != none &&
          !RLP.isEmpty ((branchItems sha3 cs).getD i []) := by
        rw [hfilter]
        exact mem_singleton_self j
      rw [mem_filter, and_eq_true, not_eq_true'] at hj
      obtain ⟨d, rfl, hd⟩ := (isEmpty_branchItems hf j (mem_range.mp hj.1)).mp hj.2.2
      exact ⟨d, hd, fun e he => Fin.ext (hmem e he)⟩
    · cases hu

/-- **A branch after a change is brought into shape.** -/
lemma rejig_yields (hst : TrieStored sha3 db (.branch cs)) :
    Yields (rejig (branchItems sha3 cs) none) db (Encoded sha3 (collapse cs)) := by
  unfold rejig collapse
  by_cases h : ∃! d, cs d ≠ .empty
  · rw [dif_pos h, uniqueInUse_some hf h.choose_spec.1 h.choose_spec.2]
    have hne := h.choose_spec.1
    generalize h.choose = d at hne
    have hitem := branchItems_getD sha3 cs d
    have htwo := isTwoItemNode_refItem (hf d) hne (hst d).1
    have hmerge : merge (branchItems sha3 cs) d.val =
        pure (pairNode [d] false (refItem sha3 (encodeTrie sha3 (cs d)))) := by
      rw [merge, if_pos (by omega), hitem, trieAssert,
        if_pos (isEmpty_refItem (hf d) hne), pairNode,
        Fin.ofNat_val_eq_self]
      rfl
    refine Yields.ok_bind (by rw [hitem]; exact htwo) ?_
    rw [hmerge]
    exact joined_yields (k := [d]) (Nat.lt_of_lt_of_le Nat.one_lt_two (by decide)) (hf d) hne
      (hst d).1 (hst d).2
  · rw [dif_neg h, uniqueInUse_none hf h]
    exact Yields.pure ⟨(encodeTrie_branch sha3 cs).symm, hst⟩

end

end Collapsing

/-! ## Removal -/

section Removal

variable {db : OverlayDB}

variable {o : Option NodeTrie}

/-- The keys and values of a tree in shape are of a possible size. -/
lemma Fits.of_shape : ∀ {t : NodeTrie} {n : ℕ}, Shape (fun v => v.length < sizeLimit) t n →
    n < sizeLimit → Fits t
  | .empty, _, _, _ => trivial
  | .leaf _ _, _, h, hn => ⟨h.1 ▸ hn, h.2⟩
  | .ext k t, n, h, hn => by
    obtain ⟨-, -, m, rfl, ht⟩ := h
    exact ⟨by omega, Fits.of_shape ht (by omega)⟩
  | .branch cs, n, h, hn => by
    obtain ⟨-, m, rfl, hcs⟩ := h
    exact fun i => Fits.of_shape (hcs i) (by omega)

variable (sha3) in
/-- What `deleteAt` returns for the tree that is left, if the key was there. -/
def Leaves (db : OverlayDB) : Option NodeTrie → Bytes → Prop
  | none, b => b = []
  | some t, b => b = encodeTrie sha3 t ∧ TrieStored sha3 db t

variable (sha3) in
/-- What `deleteAtAux` returns for it. -/
def LeavesItem (db : OverlayDB) : Option NodeTrie → Option Bytes → Prop
  | none, i => i = none
  | some t, i => i = some (refItem sha3 (encodeTrie sha3 t)) ∧ Holds sha3 db (encodeTrie sha3 t) ∧
      TrieStored sha3 db t

lemma deleteAtAux_yields {t : NodeTrie} {f : Bytes → TrieM Bytes} (hgf : ∀ r, Grows (f r))
    (hf : Fits t) (hh : Holds sha3 db (encodeTrie sha3 t)) (hfo : ∀ u, o = some u → Fits u)
    (ho : t = .empty → o = none)
    (ih : Yields (f (encodeTrie sha3 t)) db fun b db' => Leaves sha3 db' o b) :
    Yields (deleteAtAux sha3 f (refItem sha3 (encodeTrie sha3 t))) db
      fun i db' => LeavesItem sha3 db' o i := by
  unfold deleteAtAux
  by_cases he : t = .empty
  · rw [ho he, he, refItem_empty, if_pos (by decide)]
    exact Yields.pure rfl
  · rw [isEmpty_refItem hf he, if_neg Bool.false_ne_true]
    have hchild : childNode (refItem sha3 (encodeTrie sha3 t)) db = .ok (encodeTrie sha3 t) db := by
      rw [childNode, child_refItem hf he hh]
      rfl
    refine Yields.ok_bind hchild (Yields.bind (hgf _) ih (by grind) ?_)
    intro b db1 hb hg hc
    cases o with
    | none =>
      obtain rfl : b = [] := hb
      rw [if_pos rfl]
      exact Yields.pure rfl
    | some u =>
      obtain ⟨rfl, hst⟩ := hb
      rw [if_neg (isItem_encodeTrie (hfo u rfl)).nonempty]
      refine Yields.bind (streamNode_grows sha3 _) (streamNode_yields db1 _)
        (fun _ => Grows.pure _) ?_
      rintro i db2 ⟨rfl, hh2⟩ hg2 hc2
      exact Yields.pure ⟨rfl, hh2, hst.mono hg2 hc2⟩

variable {i : Option Bytes} {orig : Bytes}

/-- The end of a removal below a run. -/
lemma replaceChild_yields {k : List Nibble} (hk : k.length < sizeLimit)
    (hfo : ∀ u, o = some u → Fits u ∧ u ≠ .empty) (hi : LeavesItem sha3 db o i) :
    Yields (replaceChild sha3 orig (rlpBytes (hexPrefixEncode k false)) i) db
      fun b db' => Leaves sha3 db' (o.map (join k)) b := by
  cases o with
  | none =>
    obtain rfl : i = none := hi
    exact Yields.pure rfl
  | some u =>
    obtain ⟨rfl, hh, hst⟩ := hi
    obtain ⟨hf, hne⟩ := hfo u rfl
    refine Yields.kill_bind (by grind) fun db1 hg hc => ?_
    exact Yields.ok_bind (isTwoItemNode_refItem hf hne (hh.mono hg hc))
      (joined_yields hk hf hne (hh.mono hg hc) (hst.mono hg hc))

/-- The end of a removal below a branch. -/
lemma replaceItem_yields {cs : Nibble → NodeTrie} {d : Nibble}
    (hf : ∀ e, Fits (cs e)) (hfo : ∀ u, o = some u → Fits u) (hst : TrieStored sha3 db (.branch cs))
    (hi : LeavesItem sha3 db o i) :
    Yields (replaceItem sha3 orig (branchItems sha3 cs) d.val i) db
      fun b db' => Leaves sha3 db' (o.map fun u => collapse (Function.update cs d u)) b := by
  cases o with
  | none =>
    obtain rfl : i = none := hi
    exact Yields.pure rfl
  | some u =>
    obtain ⟨rfl, hh, hstu⟩ := hi
    refine Yields.kill_bind (rejig_grows _ _) fun db1 hg hc => ?_
    rw [branchItems_set]
    refine rejig_yields ((forall_update_iff _ fun _ => Fits).mpr ⟨hfo u rfl, fun e _ => hf e⟩)
      ((forall_update_iff _ fun _ t => Holds sha3 db1 (encodeTrie sha3 t) ∧
        TrieStored sha3 db1 t).mpr
        ⟨⟨hh.mono hg hc, hstu.mono hg hc⟩, fun e _ => hst.mono hg hc e⟩)

/-- **Removal in the store is removal in the tree.** -/
theorem deleteAt_encodeTrie : ∀ {t : NodeTrie} {n turns : ℕ} {key : List Nibble} {db : OverlayDB},
    Shape (fun v => v.length < sizeLimit) t n → n < sizeLimit → key.length = n → n + 1 ≤ turns →
    TrieStored sha3 db t → Yields (deleteAt sha3 turns (encodeTrie sha3 t) key) db
      fun b db' => Leaves sha3 db' (delete t key) b
  | _, _, 0, _, _, _, _, _, ht, _ => by omega
  | .empty, n, turns + 1, key, db, _, _, _, ht, _ => by
    rw [encodeTrie, deleteAt, if_pos (by decide), delete]
    exact Yields.pure rfl
  | .leaf k w, n, turns + 1, key, db, hs, hn, hk, ht, hst => by
    have hv := view_leaf sha3 (Fits.of_shape hs hn)
    rw [deleteAt, hv.isEmpty, if_neg Bool.false_ne_true, delete]
    refine hv.yields ?_
    by_cases hkey : k = key
    · rw [if_pos ⟨hkey, rfl⟩, if_pos hkey]
      exact Yields.kill_bind (Grows.pure _) fun db1 _ _ => Yields.pure ⟨rfl, trivial⟩
    · rw [if_neg fun h => hkey h.1, if_neg hkey,
        if_neg (not_prefix_of_ne (hs.1.trans hk.symm) hkey)]
      exact Yields.pure rfl
  | .ext k t, n, turns + 1, key, db, hs, hn, hk, ht, hst => by
    have hf := Fits.of_shape hs hn
    have hv := view_ext sha3 hf
    obtain ⟨hk0, hb, m, hm, hsh⟩ := hs
    have hpos := length_pos_iff.mpr hk0
    rw [deleteAt, hv.isEmpty, if_neg Bool.false_ne_true, delete]
    refine hv.yields ?_
    rw [if_neg fun h => Bool.false_ne_true h.2]
    by_cases hp : k <+: key
    · obtain ⟨rest, rfl⟩ := hp
      rw [length_append] at hk
      rw [if_pos (prefix_append k rest), if_pos (prefix_append k rest), drop_left]
      have hfo : ∀ u, delete t rest = some u → Fits u ∧ u ≠ .empty := fun u hu =>
        ⟨Fits.of_shape (Shape.delete hsh (by omega) hu).1 (by omega),
          (Shape.delete hsh (by omega) hu).2 hb⟩
      refine Yields.lift_bind hv.item_zero (Yields.lift_bind hv.item_one ?_)
      refine Yields.bind (by grind) (deleteAtAux_yields (o := delete t rest) (by grind) hf.2 hst.1
          (fun u hu => (hfo u hu).1) (fun he => by rw [he, delete])
          (deleteAt_encodeTrie hsh (by omega) (by omega) (by omega) hst.2))
        (fun _ => replaceChild_grows sha3 _ _ _) ?_
      intro i db1 hi _ _
      exact replaceChild_yields hf.1 hfo hi
    · rw [if_neg hp, if_neg hp]
      exact Yields.pure rfl
  | .branch cs, n, turns + 1, [], db, hs, _, hk, _, _ => by
    obtain ⟨-, m, hm, -⟩ := hs
    simp [hm] at hk
  | .branch cs, n, turns + 1, d :: rest, db, hs, hn, hk, ht, hst => by
    have hf := Fits.of_shape hs hn
    have hv := view_branch sha3 hf
    obtain ⟨-, m, hm, hsh⟩ := hs
    rw [length_cons] at hk
    rw [deleteAt, hv.isEmpty, if_neg Bool.false_ne_true, delete]
    refine Yields.lift_bind hv.itemCount ?_
    rw [if_neg (by decide)]
    refine Yields.assert_bind rfl (Yields.lift_bind hv.items ?_)
    have hfo : ∀ u, delete (cs d) rest = some u → Fits u := fun u hu =>
      Fits.of_shape (Shape.delete (hsh d) (by omega) hu).1 (by omega)
    rw [deleteAtBranch, branchItems_getD]
    refine Yields.bind (by grind) (deleteAtAux_yields (o := delete (cs d) rest) (by grind) (hf d)
        (hst d).1 hfo (fun he => by rw [he, delete])
        (deleteAt_encodeTrie (hsh d) (by omega) (by omega) (by omega) (hst d).2))
      (fun _ => replaceItem_grows sha3 _ _ _ _) ?_
    intro i db1 hi hg hc
    exact replaceItem_yields hf hfo (hst.mono hg hc) hi

end Removal

end Ybtc
