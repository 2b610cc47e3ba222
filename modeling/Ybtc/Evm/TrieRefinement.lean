import Ybtc.Evm.TrieNodes

/-!
# The trie code computes on trees

`at` and `insert` of `GenericTrieDB` do to the stored nodes of a tree what look-up and insertion do
to the tree.
-/

namespace Ybtc

open RadixTrie Fallible Stateful

variable {sha3 : Bytes → Uint256} {ok : Bytes → Prop}

/-! ## Look-up -/

/-- **Look-up in the stored nodes of a tree.** -/
lemma atAux_encodeTrie {db : OverlayDB} : ∀ {t : NodeTrie} {n turns : ℕ} {key : List Nibble},
    Shape ok t n → Fits t → TrieStored sha3 db t → key.length = n → n < turns →
      atAux db turns (encodeTrie sha3 t) key = .ok ((lookup t key).getD [])
  | _, _, 0, _, _, _, _, _, hlt => by omega
  | .empty, n, turns + 1, key, _, _, _, _, _ => by
    rw [encodeTrie, atAux, if_pos (Or.inl (by decide))]
    rfl
  | .leaf k v, n, turns + 1, key, hs, hf, _, hn, _ => by
    have hv := view_leaf sha3 hf
    rw [atAux, if_neg (by simp [hv.isEmpty, hv.isItem.nonempty]), hv.itemCount, ok_bind,
      if_pos rfl, hv.keyOf, ok_bind, hv.isLeaf, ok_bind, hv.item_one,
      ok_bind, lookup]
    by_cases hk : key = k
    · rw [if_pos ⟨hk, rfl⟩, if_pos hk, toString_rlpBytes (lt_trans hf.2 (by decide))]
      rfl
    · rw [if_neg fun h => hk h.1, if_neg fun h => h.2 rfl, if_neg hk]
      rfl
  | .ext k t, n, turns + 1, key, hs, hf, hst, hn, hlt => by
    obtain ⟨hk0, hb, m, rfl, hsh⟩ := hs
    have hv := view_ext sha3 hf
    have hpos := List.length_pos_iff.mpr hk0
    rw [atAux, if_neg (by simp [hv.isEmpty, hv.isItem.nonempty]), hv.itemCount, ok_bind,
      if_pos rfl, hv.keyOf, ok_bind, hv.isLeaf, ok_bind, hv.item_one,
      ok_bind, lookup, if_neg fun h => Bool.false_ne_true h.2]
    by_cases hk : k <+: key
    · rw [if_pos ⟨hk, Bool.false_ne_true⟩, if_pos hk,
        child_refItem hf.2 (by rintro rfl; exact hb) hst.1, ok_bind]
      exact atAux_encodeTrie hsh hf.2 hst.2 (by rw [List.length_drop]; omega) (by omega)
    · rw [if_neg fun h => hk h.1, if_neg hk]
      rfl
  | .branch cs, n, turns + 1, [], hs, _, _, hn, _ => by
    obtain ⟨-, m, rfl, -⟩ := hs
    simp at hn
  | .branch cs, n, turns + 1, d :: rest, hs, hf, hst, hn, hlt => by
    obtain ⟨-, m, rfl, hsh⟩ := hs
    have hv := view_branch sha3 hf
    rw [atAux, if_neg (by simp [hv.isEmpty, hv.isItem.nonempty]), hv.itemCount, ok_bind,
      if_neg (by decide), if_pos rfl, atBranch, hv.item, ok_bind, branchItems_getD, lookup]
    by_cases he : cs d = .empty
    · rw [he, refItem_empty, if_pos (by decide)]
      rfl
    · rw [isEmpty_refItem (hf d) he, if_neg Bool.false_ne_true,
        child_refItem (hf d) he (hst d).1, ok_bind]
      exact atAux_encodeTrie (hsh d) (hf d) (hst d).2 (by simpa using hn) (by omega)

/-! ## Growth -/

section Growth

variable {α β : Type}

/-- The computation only adds to the table of the store. -/
def Grows (x : TrieM α) : Prop := ∀ db, Grown db (stateAfter (x db))

@[grind ←] lemma Grows.pure (a : α) : Grows (Pure.pure a : TrieM α) := fun db => Grown.refl db

@[grind ←] lemma Grows.throw (e : Fault) : Grows (MonadExcept.throw e : TrieM α) :=
  fun db => Grown.refl db

@[grind ←] lemma Grows.lift (x : Except Fault α) : Grows (Stateful.liftExcept x : TrieM α) := by
  intro db
  cases x <;> exact Grown.refl db

@[grind ←] lemma Grows.bind {x : TrieM α} {f : α → TrieM β} (hx : Grows x) (hf : ∀ a, Grows (f a)) :
    Grows (x >>= f) :=
  fun db => stateAfter_bind (hx db) fun a db1 h => Grown.trans h (hf a db1)

lemma Grows.ite {c : Prop} [Decidable c] {x y : TrieM α} (hx : Grows x) (hy : Grows y) :
    Grows (if c then x else y) := by
  split_ifs
  · exact hx
  · exact hy

lemma Grows.of_except {f : OverlayDB → Except Fault α} :
    Grows (fun db => Stateful.liftExcept (f db) db : TrieM α) := by
  intro db
  dsimp only
  cases f db <;> exact Grown.refl db

variable (sha3)

@[grind ←] lemma forceInsertNode_grows (v : Bytes) : Grows (forceInsertNode sha3 v) :=
  fun db => Grown.insert db _ _

@[grind ←] lemma forceKillNode_grows (h : Uint256) : Grows (forceKillNode h) :=
  fun db => Grown.kill db h

@[grind ←] lemma killNodeAt_grows (d : Bytes) (h : Uint256) : Grows (killNodeAt d h) := by
  grind [killNodeAt]

@[grind ←] lemma killNode_grows (d : Bytes) : Grows (killNode sha3 d) := killNodeAt_grows d _

@[grind ←] lemma killUnless_grows (inLine : Bool) (d : Bytes) (h : Uint256) :
    Grows (killUnless inLine d h) := by
  grind [killUnless]

@[grind ←] lemma streamNode_grows (b : Bytes) : Grows (streamNode sha3 b) := by grind [streamNode]

@[grind ←] lemma trieAssert_grows (c : Prop) [Decidable c] : Grows (trieAssert c) :=
  Grows.ite (Grows.pure _) (Grows.throw _)

@[grind ←] lemma childNode_grows (n : Bytes) : Grows (childNode n) := Grows.of_except

@[grind ←] lemma storedNode_grows (h : Uint256) : Grows (storedNode h) := fun db => Grown.refl db

variable (orig : Bytes)

@[grind ←] lemma place_grows (k : List Nibble) (s : Bytes) : Grows (place sha3 orig k s) := by
  grind [place]

@[grind ←] lemma cleve_grows (s : ℕ) : Grows (cleve sha3 orig s) := by
  unfold cleve
  iterate 3 refine Grows.bind (by grind) fun _ => ?_
  grind

@[grind ←] lemma branchFor_grows (leaf : Bool) (i : Bytes) (k : List Nibble) :
    Grows (branchFor sha3 leaf i k) := by
  cases k <;> grind [branchFor, branchChild]

@[grind ←] lemma branch_grows : Grows (branch sha3 orig) := by grind [branch]

@[grind ←] lemma mergeAtAux_grows {mergeAt : Bytes → Bool → TrieM Bytes}
    (h : ∀ r inl, Grows (mergeAt r inl)) (orig : Bytes) : Grows (mergeAtAux sha3 mergeAt orig) := by
  grind [mergeAtAux]

@[grind ←] lemma mergeAtBranch_grows {mergeAt : Bytes → List Nibble → Bool → TrieM Bytes}
    (h : ∀ r k inl, Grows (mergeAt r k inl)) (orig : Bytes) (origHash : Uint256) (v : Bytes)
    (inLine : Bool) (k : List Nibble) :
    Grows (mergeAtBranch sha3 mergeAt orig origHash v inLine k) := by
  cases k <;> grind [mergeAtBranch]

@[grind ←] lemma mergeAt_grows (turns : ℕ) (orig : Bytes) (origHash : Uint256) (k : List Nibble)
    (v : Bytes) (inLine : Bool) : Grows (mergeAt sha3 turns orig origHash k v inLine) := by
  induction turns generalizing orig origHash k inLine with
  | zero => exact Grows.throw _
  | succ turns ih =>
    refine Grows.ite (place_grows sha3 _ _ _) ((Grows.lift _).bind fun c => Grows.ite ?_ (by grind))
    refine (Grows.lift _).bind fun ok => (Grows.lift _).bind fun leaf => ?_
    split_ifs <;> grind

end Growth

/-! ## Results without collisions -/

section Yields

variable {α β : Type}

/-- **What a computation returns as long as no two records collide.** -/
def Yields (x : TrieM α) (db : OverlayDB) (Q : α → OverlayDB → Prop) : Prop :=
  NoCollision (stateAfter (x db)) → ∃ a db', x db = .ok a db' ∧ Q a db'

variable {db : OverlayDB} {Q : α → OverlayDB → Prop} {R : β → OverlayDB → Prop}

variable {x : TrieM α} {a : α}

lemma Yields.pure (h : Q a db) : Yields (Pure.pure a : TrieM α) db Q :=
  fun _ => ⟨a, db, rfl, h⟩

lemma Yields.weaken {Q' : α → OverlayDB → Prop} (hx : Yields x db Q)
    (h : ∀ a db', Q a db' → NoCollision db' → Q' a db') : Yields x db Q' :=
  Assuming.weaken (C := NoCollision) hx fun a db' hc hq => h a db' hq hc

/-- What is returned comes with a store that has grown without a collision. -/
lemma Yields.grown (hx : Yields x db Q) (hg : Grows x) :
    Yields x db fun a db' => Q a db' ∧ Grown db db' ∧ NoCollision db' := by
  intro hc
  have hgrown := hg db
  obtain ⟨a, db', hr, hq⟩ := hx hc
  rw [hr] at hc hgrown
  exact ⟨a, db', hr, hq, hgrown, hc⟩

variable {f : α → TrieM β}

/-- **Sequencing.**  The second part may use that the store has grown and that there is no collision
    so far. -/
lemma Yields.bind (hgx : Grows x) (hx : Yields x db Q) (hgf : ∀ a, Grows (f a))
    (hf : ∀ a db', Q a db' → Grown db db' → NoCollision db' → Yields (f a) db' R) :
    Yields (x >>= f) db R :=
  Assuming.bind (C := NoCollision) (hx.grown hgx) (fun a db1 hc => (hgf a db1).noCollision hc)
    fun a db1 hc ⟨hq, hg, _⟩ => hf a db1 hq hg hc

/-- A step that returns. -/
lemma Yields.ok_bind {db1 : OverlayDB} (hx : x db = .ok a db1)
    (hf : Yields (f a) db1 R) : Yields (x >>= f) db R :=
  Assuming.ok_bind (C := NoCollision) hx hf

/-- A reading that succeeds. -/
lemma Yields.lift_bind {x : Except Fault α} (hx : x = .ok a)
    (hf : Yields (f a) db R) : Yields (Stateful.liftExcept x >>= f) db R := by
  subst hx
  exact hf

/-- What the code does at a pair. -/
lemma PairView.yields {d i : Bytes} {k : List Nibble} {leaf : Bool} (hv : PairView d k leaf i)
    {f : List Nibble → Bool → TrieM β} {g : ℕ → TrieM β} (hf : Yields (f k leaf) db R) :
    Yields (do
      let itemCount ← Stateful.liftExcept (RLP.itemCount d)
      if itemCount = 2 then do
        let k ← Stateful.liftExcept (keyOfNode d)
        let leaf ← Stateful.liftExcept (isLeafNode d)
        f k leaf
      else g itemCount) db R := by
  refine Yields.lift_bind hv.itemCount ?_
  rw [if_pos rfl]
  exact Yields.lift_bind hv.keyOf (Yields.lift_bind hv.isLeaf hf)

/-- An assertion that holds. -/
lemma Yields.assert_bind {c : Prop} [Decidable c] (hc : c) {f : Unit → TrieM β}
    (hf : Yields (f ()) db R) : Yields (trieAssert c >>= f) db R := by
  rw [trieAssert, if_pos hc]
  exact hf

/-- Killing a node is not noticed. -/
lemma Yields.kill_bind {d : Bytes} {h : Uint256} {f : Unit → TrieM β} (hgf : Grows (f ()))
    (hf : ∀ db', Grown db db' → NoCollision db' → Yields (f ()) db' R) :
    Yields (killNodeAt d h >>= f) db R := by
  refine Yields.bind (killNodeAt_grows d h) (Q := fun _ _ => True) ?_ (fun _ => hgf)
    (fun _ db' _ hg hc => hf db' hg hc)
  intro _
  unfold killNodeAt
  split_ifs
  · exact ⟨(), _, rfl, trivial⟩
  · exact ⟨(), _, rfl, trivial⟩

variable {f : β → α → TrieM β}

/-- A loop grows the store if its turns do. -/
lemma Grows.foldlM (hf : ∀ b x, Grows (f b x)) :
    ∀ (xs : List α) (b : β), Grows (xs.foldlM f b)
  | [], b => Grows.pure b
  | x :: xs, b => by
    rw [List.foldlM_cons]
    exact (hf b x).bind fun b' => Grows.foldlM hf xs b'

/-- **Loops.**  The invariant speaks of the elements that were dealt with. -/
lemma Yields.foldlM (hg : ∀ b x, Grows (f b x))
    {I : List α → β → OverlayDB → Prop} : ∀ {xs done : List α} {b : β} {db : OverlayDB},
    (∀ x ∈ xs, ∀ done b db, I done b db → Yields (f b x) db (I (done ++ [x]))) → I done b db →
      Yields (xs.foldlM f b) db (I (done ++ xs))
  | [], done, b, db, _, hI => Yields.pure (by rwa [List.append_nil])
  | x :: xs, done, b, db, hstep, hI => by
    rw [List.foldlM_cons]
    refine Yields.bind (hg b x) (hstep x List.mem_cons_self done b db hI)
      (fun b' => Grows.foldlM hg xs b') fun b' db' hI' _ _ => ?_
    have := Yields.foldlM hg (fun y hy => hstep y (List.mem_cons_of_mem _ hy)) hI'
    rwa [List.append_assoc, List.singleton_append] at this

end Yields

/-! ## Storing a node -/

lemma streamNode_yields (db : OverlayDB) (b : Bytes) :
    Yields (streamNode sha3 b) db fun i db' => i = refItem sha3 b ∧ Holds sha3 db' b := by
  unfold streamNode refItem
  split_ifs with hl
  · exact Yields.pure ⟨rfl, fun h => absurd hl (by omega)⟩
  · intro hc
    exact ⟨_, _, rfl, rfl, fun _ => OverlayDB.lookup_insert hc⟩

/-! ## Insertion -/

section Insertion

variable (sha3) in
/-- The node of a tree whose other nodes are in the store. -/
abbrev Encoded (t : NodeTrie) (b : Bytes) (db : OverlayDB) : Prop :=
  b = encodeTrie sha3 t ∧ TrieStored sha3 db t

variable {db : OverlayDB} {v : Bytes}

variable {u : NodeTrie} {h : Uint256} {inl : Bool}

lemma place_null (db : OverlayDB) (k : List Nibble) (v : Bytes) :
    Yields (place sha3 rlpNull k v) db fun b _ => b = encodeTrie sha3 (.leaf k v) := by
  unfold place killNode
  refine Yields.kill_bind ?_ fun db' _ _ => ?_
  · rw [if_pos (by decide)]
    exact Grows.pure _
  · rw [if_pos (by decide), encodeTrie]
    exact Yields.pure rfl

variable {k : List Nibble} {w : Bytes}

/-- The value of a leaf is replaced. -/
lemma place_leaf (hf : Fits (.leaf k w)) (db : OverlayDB) (v : Bytes) :
    Yields (place sha3 (encodeTrie sha3 (.leaf k w)) k v) db
      fun b _ => b = encodeTrie sha3 (.leaf k v) := by
  have hv := view_leaf sha3 hf
  unfold place killNode
  refine Yields.kill_bind ?_ fun db' _ _ => ?_
  · grind
  · rw [hv.isEmpty, if_neg Bool.false_ne_true]
    refine Yields.lift_bind hv.itemCount ?_
    rw [if_pos rfl]
    refine Yields.lift_bind hv.item_zero (Yields.pure ?_)
    rw [encodeTrie, pairNode]

variable {t : NodeTrie}

/-- **The child of a node is merged with the value**, if merging works on the child itself. -/
lemma mergeAtAux_yields {m : Bytes → Bool → TrieM Bytes} (hg : ∀ r inl, Grows (m r inl))
    (hf : Fits t) (hh : Holds sha3 db (encodeTrie sha3 t))
    (ih : ∀ inl, Yields (m (encodeTrie sha3 t) inl) db (Encoded sha3 u)) :
    Yields (mergeAtAux sha3 m (refItem sha3 (encodeTrie sha3 t))) db fun i db' =>
      i = refItem sha3 (encodeTrie sha3 u) ∧ Holds sha3 db' (encodeTrie sha3 u) ∧
        TrieStored sha3 db' u := by
  -- Behind the recursive call the new node is stored.
  have hrest : ∀ inl, Yields (m (encodeTrie sha3 t) inl >>= fun b => streamNode sha3 b) db
      fun i db' => i = refItem sha3 (encodeTrie sha3 u) ∧ Holds sha3 db' (encodeTrie sha3 u) ∧
        TrieStored sha3 db' u := by
    intro inl
    refine Yields.bind (hg _ _) (ih inl) (fun b => streamNode_grows sha3 b) ?_
    rintro b db1 ⟨rfl, hst⟩ - -
    intro hc
    have hgr := streamNode_grows sha3 (encodeTrie sha3 u) db1
    obtain ⟨i, db2, hr, hi, hh2⟩ := streamNode_yields db1 (encodeTrie sha3 u) hc
    rw [hr] at hc hgr
    exact ⟨i, db2, hr, hi, hh2, hst.mono hgr hc⟩
  unfold mergeAtAux
  by_cases hne : t = .empty
  · -- Nothing is there: the item is the node.
    subst hne
    rw [refItem_empty, if_neg (by decide)]
    exact hrest true
  · rw [isEmpty_refItem hf hne]
    unfold refItem
    by_cases hl : (encodeTrie sha3 t).length < 32
    · rw [if_pos hl, isList_encodeTrie sha3 hf hne, if_neg (by decide)]
      exact hrest true
    · have hchild := child_refItem hf hne hh
      rw [refItem, if_neg hl] at hchild
      rw [if_neg hl, isList_rlpBytes (hashBytes_short _), if_pos ⟨rfl, rfl⟩]
      have hnode : childNode (rlpBytes (hashBytes (sha3 (encodeTrie sha3 t)))) db =
          .ok (encodeTrie sha3 t) db := by
        rw [childNode, hchild]
        rfl
      exact Yields.ok_bind hnode (Yields.assert_bind (isItem_encodeTrie hf).nonempty (hrest false))

/-- `killUnless` is noticed as little as `killNode`. -/
lemma Yields.killUnless_bind {β : Type} {R : β → OverlayDB → Prop} {d : Bytes} {f : Unit → TrieM β}
    (hgf : Grows (f ())) (hf : ∀ db', Grown db db' → NoCollision db' → Yields (f ()) db' R) :
    Yields (killUnless inl d h >>= f) db R := by
  cases inl with
  | true =>
    intro hc
    exact hf db (Grown.refl db) ((hgf db).noCollision hc) hc
  | false => exact Yields.kill_bind hgf hf

variable {rest : List Nibble} {turns : ℕ}

/-- **Merging at a branch.** -/
lemma mergeAt_branch {cs : Nibble → NodeTrie} {d : Nibble}
    (hf : ∀ i, Fits (cs i)) (hst : TrieStored sha3 db (.branch cs))
    (ih : ∀ inl db1, TrieStored sha3 db1 (cs d) →
      Yields (mergeAt sha3 turns (encodeTrie sha3 (cs d))
      (sha3 (encodeTrie sha3 (cs d))) rest v inl) db1 (Encoded sha3 u)) :
    Yields (mergeAt sha3 (turns + 1) (encodeTrie sha3 (.branch cs)) h (d :: rest) v inl) db
      (Encoded sha3 (.branch (Function.update cs d u))) := by
  have hv := view_branch sha3 hf
  have hgm : ∀ r inl, Grows (mergeAt sha3 turns r (sha3 r) rest v inl) :=
    fun r inl => mergeAt_grows sha3 _ _ _ _ _ _
  rw [mergeAt, hv.isEmpty, if_neg Bool.false_ne_true]
  refine Yields.lift_bind hv.itemCount ?_
  rw [if_neg (by decide)]
  refine Yields.assert_bind rfl ?_
  refine Yields.killUnless_bind (by grind) fun db1 hg hc => ?_
  refine Yields.lift_bind hv.items ?_
  rw [branchItems_getD]
  have hst1 : TrieStored sha3 db1 (.branch cs) := hst.mono hg hc
  refine Yields.bind (mergeAtAux_grows sha3 hgm _)
    (mergeAtAux_yields hgm (hf d) (hst1 d).1 fun inl => ih inl db1 (hst1 d).2)
    (fun _ => Grows.pure _) ?_
  rintro i db2 ⟨rfl, hh, hstu⟩ hg2 hc2
  refine Yields.pure ⟨?_, (Function.forall_update_iff cs fun _ t =>
    Holds sha3 db2 (encodeTrie sha3 t) ∧ TrieStored sha3 db2 t).mpr ⟨⟨hh, hstu⟩, fun j _ =>
      ⟨(hst1 j).1.mono hg2 hc2, (hst1 j).2.mono hg2 hc2⟩⟩⟩
  rw [branchItems_set, encodeTrie_branch]

/-- **Merging below a run of half bytes.** -/
lemma mergeAt_ext (hf : Fits (.ext k t))
    (hst : TrieStored sha3 db (.ext k t))
    (ih : ∀ inl db1, TrieStored sha3 db1 t → Yields (mergeAt sha3 turns (encodeTrie sha3 t)
      (sha3 (encodeTrie sha3 t)) rest v inl) db1 (Encoded sha3 u)) :
    Yields (mergeAt sha3 (turns + 1) (encodeTrie sha3 (.ext k t)) h (k ++ rest) v inl) db
      (Encoded sha3 (.ext k u)) := by
  have hv := view_ext sha3 hf
  have hgm : ∀ r inl, Grows (mergeAt sha3 turns r (sha3 r) rest v inl) :=
    fun r inl => mergeAt_grows sha3 _ _ _ _ _ _
  rw [mergeAt, hv.isEmpty, if_neg Bool.false_ne_true]
  refine hv.yields ?_
  rw [if_neg fun h => Bool.false_ne_true h.2,
    if_pos ⟨List.prefix_append k rest, Bool.false_ne_true⟩, List.drop_left]
  refine Yields.killUnless_bind ?_ fun db1 hg hc => ?_
  · grind
  · have hst1 : TrieStored sha3 db1 (.ext k t) := hst.mono hg hc
    refine Yields.lift_bind hv.item_zero (Yields.lift_bind hv.item_one ?_)
    refine Yields.bind (mergeAtAux_grows sha3 hgm _)
      (mergeAtAux_yields hgm hf.2 hst1.1 fun inl => ih inl db1 hst1.2) (fun _ => Grows.pure _) ?_
    rintro i db2 ⟨rfl, hh, hstu⟩ - -
    refine Yields.pure ⟨?_, hh, hstu⟩
    rw [encodeTrie, pairNode]

variable (sha3) in
/-- What is in the store of a pair that is to be cut. -/
structure StoredBelow (db : OverlayDB) (leaf : Bool) (old : List Nibble → NodeTrie) : Prop where
  stored : ∀ rest, TrieStored sha3 db (old rest)
  holds : leaf = false → Holds sha3 db (encodeTrie sha3 (old []))

variable (sha3) in
/-- A pair with the item `i`, cut somewhere in its key: `old rest` is the tree below the cut. -/
structure PairBelow (leaf : Bool) (i : Bytes) (old : List Nibble → NodeTrie) : Prop where
  node : ∀ rest, leaf = true ∨ rest ≠ [] → encodeTrie sha3 (old rest) = pairNode rest leaf i
  self : leaf = false → refItem sha3 (encodeTrie sha3 (old [])) = i
  isItem : IsItem i
  length : i.length ≤ sizeLimit + 9
  fits : ∀ rest, rest.length < sizeLimit → Fits (old rest)
  stored : ∀ db b bs, TrieStored sha3 db (old (b :: bs)) → StoredBelow sha3 db leaf old

lemma StoredBelow.mono {db' : OverlayDB} {leaf : Bool} {old : List Nibble → NodeTrie}
    (h : StoredBelow sha3 db leaf old) (hg : Grown db db') (hc : NoCollision db') :
    StoredBelow sha3 db' leaf old :=
  ⟨fun rest => (h.stored rest).mono hg hc, fun hl => (h.holds hl).mono hg hc⟩

variable {leaf : Bool} {i : Bytes} {old : List Nibble → NodeTrie}

variable {b : Nibble} {bs : List Nibble} {turns : ℕ} {h : Uint256} {inl : Bool}

/-- The one child of a pair that is made a branch. -/
lemma branchChild_yields (hp : PairBelow sha3 leaf i old) (hst : StoredBelow sha3 db leaf old)
    (rest : List Nibble) :
    Yields (branchChild sha3 leaf rest i) db fun c db' =>
      c = refItem sha3 (encodeTrie sha3 (old rest)) ∧
        Holds sha3 db' (encodeTrie sha3 (old rest)) := by
  unfold branchChild
  split_ifs with h
  · have hn := hp.node rest h
    rw [pairNode] at hn
    rw [← hn]
    exact streamNode_yields db _
  · rw [not_or, Bool.not_eq_true, not_not] at h
    obtain ⟨hl, rfl⟩ := h
    exact Yields.pure ⟨(hp.self hl).symm, hst.holds hl⟩

/-- A pair is made a branch. -/
lemma branch_yields (hp : PairBelow sha3 leaf i old) (hst : StoredBelow sha3 db leaf old)
    (hl : (b :: bs).length < sizeLimit) :
    Yields (branch sha3 (pairNode (b :: bs) leaf i)) db
      (Encoded sha3 (.branch (Function.update (fun _ => .empty) b (old bs)))) := by
  have hv := pairView leaf hl hp.isItem hp.length
  have hgb : ∀ rest, Grows (branchChild sha3 leaf rest i) := by grind [branchChild]
  unfold branch killNode
  refine Yields.kill_bind ?_ fun db1 hg hc => ?_
  · grind
  · refine Yields.lift_bind hv.keyOf (Yields.lift_bind hv.isLeaf (Yields.lift_bind hv.item_one ?_))
    have hst1 := hst.mono hg hc
    refine Yields.bind (hgb bs) (branchChild_yields hp hst1 bs) (fun _ => Grows.pure _) ?_
    rintro c db2 ⟨rfl, hh⟩ hg2 hc2
    refine Yields.pure ⟨?_, (Function.forall_update_iff _ fun _ t =>
      Holds sha3 db2 (encodeTrie sha3 t) ∧ TrieStored sha3 db2 t).mpr
        ⟨⟨hh, (hst1.mono hg2 hc2).stored bs⟩, fun j _ => ⟨fun h32 => ?_, trivial⟩⟩⟩
    · rw [encodeTrie_branch, ← branchItems_set, branchItems_empty]
    · exact absurd h32 (by rw [encodeTrie]; decide)

/-- A value where nothing is. -/
lemma mergeAt_null (db : OverlayDB) :
    Yields (mergeAt sha3 (turns + 1) (encodeTrie sha3 .empty) h k v inl) db
      (Encoded sha3 (.leaf k v)) := by
  rw [encodeTrie, mergeAt, if_pos (by decide)]
  exact (place_null db k v).weaken fun b db' hb _ => ⟨hb, trivial⟩

section

variable (hp : PairBelow sha3 leaf i old) (hst : StoredBelow sha3 db leaf old)

include hp hst

/-- **A pair whose key parts from the new key at once** is made a branch with two children. -/
lemma mergeAt_part
    {a : Nibble} (hab : a ≠ b) {as : List Nibble} (hl : (b :: bs).length < sizeLimit) :
    Yields (mergeAt sha3 (turns + 3) (pairNode (b :: bs) leaf i) h (a :: as) v inl) db
      (Encoded sha3 (fork b (old bs) a (.leaf as v))) := by
  have hv := pairView leaf hl hp.isItem hp.length
  have hfb : ∀ j, Fits (Function.update (fun _ => Trie.empty) b (old bs) j) :=
    (Function.forall_update_iff _ fun _ => Fits).mpr
      ⟨hp.fits bs (lt_trans (Nat.lt_succ_self _) hl), fun _ _ => trivial⟩
  rw [mergeAt, hv.isEmpty, if_neg Bool.false_ne_true]
  refine hv.yields ?_
  rw [if_neg fun h => hab (List.cons.inj h.1).1.symm,
    if_neg fun h => hab (List.cons_prefix_cons.mp h.1).1.symm,
    if_neg (by rw [sharedNibbles, shared, if_neg hab]; decide)]
  refine Yields.bind (branch_grows sha3 _) (branch_yields hp hst hl) (by grind) ?_
  rintro r db1 ⟨rfl, hst1⟩ - -
  refine Yields.lift_bind (isItem_encodeTrie (t := .branch _) hfb).ofBytes ?_
  exact mergeAt_branch (u := .leaf as v) hfb hst1 fun inl db2 _ => by
    rw [Function.update_of_ne hab]
    exact mergeAt_null db2

/-- A pair is cut in two. -/
lemma cleve_yields {p : List Nibble} (hp0 : p ≠ []) (hl : (p ++ b :: bs).length < sizeLimit) :
    Yields (cleve sha3 (pairNode (p ++ b :: bs) leaf i) p.length) db
      (Encoded sha3 (.ext p (old (b :: bs)))) := by
  have hv := pairView leaf hl hp.isItem hp.length
  unfold cleve killNode
  refine Yields.kill_bind ?_ fun db1 hg hc => ?_
  · grind
  · refine Yields.lift_bind hv.keyOf (Yields.assert_bind ⟨List.length_pos_iff.mpr hp0, ?_⟩ ?_)
    rotate_left
    · rw [List.length_append]
      omega
    · refine Yields.lift_bind hv.isLeaf (Yields.lift_bind hv.item_one ?_)
      have hn := hp.node (b :: bs) (Or.inr (by simp))
      rw [pairNode] at hn
      rw [List.drop_left, List.take_left, ← hn]
      refine Yields.bind (streamNode_grows sha3 _) (streamNode_yields db1 _)
        (fun _ => Grows.pure _) ?_
      rintro c db2 ⟨rfl, hh⟩ hg2 hc2
      refine Yields.pure ⟨?_, hh, ((hst.mono hg hc).mono hg2 hc2).stored _⟩
      rw [encodeTrie, pairNode]

/-- **A pair whose key parts from the new key somewhere.** -/
lemma mergeAt_split {p as : List Nibble} {a : Nibble} (hab : a ≠ b)
    (hl : (p ++ b :: bs).length < sizeLimit) (hturns : 2 * p.length + 3 ≤ turns) :
    Yields (mergeAt sha3 turns (pairNode (p ++ b :: bs) leaf i) h (p ++ a :: as) v inl) db
      (Encoded sha3 (extend p (fork b (old bs) a (.leaf as v)))) := by
  by_cases hp0 : p = []
  · subst hp0
    obtain ⟨turns, rfl⟩ : ∃ t, turns = t + 3 := ⟨turns - 3, by omega⟩
    rw [extend, if_pos rfl]
    exact mergeAt_part hp hst hab hl
  · have hpos := List.length_pos_iff.mpr hp0
    obtain ⟨turns, rfl⟩ : ∃ t, turns = t + 3 + 1 + 1 := ⟨turns - 5, by omega⟩
    rw [List.length_append] at hl
    have hv := pairView leaf (by rwa [List.length_append]) hp.isItem hp.length (k := p ++ b :: bs)
    have hfit : Fits (.ext p (old (b :: bs))) := ⟨by omega, hp.fits _ (by omega)⟩
    rw [extend, if_neg hp0, mergeAt, hv.isEmpty, if_neg Bool.false_ne_true]
    refine hv.yields ?_
    rw [if_neg fun h => hab (List.cons.inj (List.append_cancel_left h.1)).1.symm,
      if_neg fun h => hab
        (List.cons_prefix_cons.mp ((List.prefix_append_right_inj p).mp h.1)).1.symm,
      sharedNibbles, shared_append hab, if_pos hpos]
    refine Yields.bind (cleve_grows sha3 _ _)
      (cleve_yields hp hst hp0 (by rwa [List.length_append]))
      (by grind) ?_
    rintro r db1 ⟨rfl, hst1⟩ hg hc
    refine Yields.lift_bind (isItem_encodeTrie hfit).ofBytes ?_
    refine mergeAt_ext hfit hst1 fun inl db2 hst2 => ?_
    rw [hp.node (b :: bs) (Or.inr (List.cons_ne_nil b bs))]
    exact mergeAt_part hp (hp.stored db2 b bs hst2) hab (by omega)

end

/-- Cutting the key of a leaf. -/
lemma pairBelow_leaf (hw : w.length < sizeLimit) :
    PairBelow sha3 true (rlpBytes w) fun rest => .leaf rest w where
  node rest _ := by rw [encodeTrie]
  self h := by simp at h
  isItem := isItem_rlpBytes (lt_trans hw (by decide))
  length := (rlpBytes_length w).trans (by omega)
  fits rest hr := ⟨hr, hw⟩
  stored _ _ _ _ := ⟨fun _ => trivial, fun h => by simp at h⟩

/-- Cutting a run. -/
lemma pairBelow_ext (hf : Fits t) :
    PairBelow sha3 false (refItem sha3 (encodeTrie sha3 t)) fun rest => extend rest t where
  node rest h := by
    rw [extend, if_neg (h.resolve_left Bool.false_ne_true), encodeTrie]
  self _ := by rw [extend, if_pos rfl]
  isItem := isItem_refItem (isItem_encodeTrie hf)
  length := (refItem_length _).trans (by decide)
  fits rest hr := by
    unfold extend
    split_ifs
    · exact hf
    · exact ⟨hr, hf⟩
  stored db b bs h := by
    refine ⟨fun rest => ?_, fun _ => h.1⟩
    unfold extend
    split_ifs
    · exact h.2
    · exact h

/-- **Insertion in the store is insertion in the tree.** -/
theorem mergeAt_encodeTrie {ok : Bytes → Prop} : ∀ {t : NodeTrie} {n turns : ℕ} {key : List Nibble}
    {h : Uint256} {inl : Bool} {db : OverlayDB}, Shape ok t n → Fits t → key.length = n →
    2 * n + 2 ≤ turns → TrieStored sha3 db t →
      Yields (mergeAt sha3 turns (encodeTrie sha3 t) h key v inl) db
        (Encoded sha3 (RadixTrie.insert t key v))
  | _, _, 0, _, _, _, _, _, _, _, ht, _ => by omega
  | .empty, n, turns + 1, key, h, inl, db, _, _, _, ht, _ => mergeAt_null db
  | .leaf k w, n, turns + 1, key, h, inl, db, hs, hf, hk, ht, hst => by
    by_cases hkey : k = key
    · subst hkey
      have hv := view_leaf sha3 hf
      rw [RadixTrie.insert, if_pos rfl, mergeAt, hv.isEmpty, if_neg Bool.false_ne_true]
      refine hv.yields ?_
      rw [if_pos ⟨rfl, rfl⟩]
      exact (place_leaf hf db v).weaken fun b db' hb _ => ⟨hb, trivial⟩
    · have hl : k.length = key.length := hs.1.trans hk.symm
      obtain ⟨p, a, as, b, bs, rfl, rfl, hab⟩ := exists_parting (not_prefix_of_ne hl hkey) hl.le
      rw [RadixTrie.insert, if_neg hkey, split_eq hab, encodeTrie]
      rw [List.length_append, List.length_cons] at hk
      exact mergeAt_split (pairBelow_leaf hf.2) ⟨fun _ => trivial, fun h => by simp at h⟩ hab hf.1
        (by omega)
  | .ext k t, n, turns + 1, key, h, inl, db, hs, hf, hk, ht, hst => by
    obtain ⟨hk0, -, m, hn, hst'⟩ := hs
    have hpos := List.length_pos_iff.mpr hk0
    by_cases hp : k <+: key
    · obtain ⟨rest, rfl⟩ := hp
      rw [List.length_append] at hk
      rw [RadixTrie.insert, if_pos (List.prefix_append k rest), List.drop_left]
      exact mergeAt_ext hf hst fun inl db1 hst1 =>
        mergeAt_encodeTrie hst' hf.2 (by omega) (by omega) hst1
    · obtain ⟨p, a, as, b, bs, rfl, rfl, hab⟩ := exists_parting hp (by omega)
      rw [RadixTrie.insert, if_neg hp, split_eq hab, encodeTrie]
      rw [List.length_append, List.length_cons] at hk
      refine mergeAt_split (pairBelow_ext hf.2) ((pairBelow_ext hf.2).stored db b bs ?_) hab hf.1
        (by omega)
      rw [extend, if_neg (List.cons_ne_nil b bs)]
      exact ⟨hst.1, hst.2⟩
  | .branch cs, n, turns + 1, [], h, inl, db, hs, _, hk, _, _ => by
    obtain ⟨-, m, hn, -⟩ := hs
    simp [hn] at hk
  | .branch cs, n, turns + 1, d :: rest, h, inl, db, hs, hf, hk, ht, hst => by
    obtain ⟨-, m, hn, hcs⟩ := hs
    rw [List.length_cons] at hk
    rw [RadixTrie.insert]
    exact mergeAt_branch hf hst fun inl db1 hst1 =>
      mergeAt_encodeTrie (hcs d) (hf d) (by omega) (by omega) hst1

end Insertion

end Ybtc
