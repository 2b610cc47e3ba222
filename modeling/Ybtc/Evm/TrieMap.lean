import Ybtc.Evm.TrieRemoval

/-!
# The trie as a map

A trie of the program is known by its root.  **`TreeAt`** says that the store holds a tree under a
root, for keys of any one length; **`MapAt`** that it holds a given map from hashes to byte strings,
for the tries of accounts and of storage, whose keys are hashes.  The operations of the trie are the
operations of the tree and of the map.
-/

namespace Ybtc

open RadixTrie

variable {sha3 : Bytes → Uint256}

/-- The half bytes of the hash of a key. -/
def hashKey (h : Uint256) : List Nibble := nibblesOf (hashBytes h)

lemma hashKey_length (h : Uint256) : (hashKey h).length = 64 := by
  rw [hashKey, nibblesOf_length, hashBytes_length]

/-- The key of a hash is taken whole. -/
lemma nibbleSlice_hashBytes (h : Uint256) : nibbleSlice (hashBytes h) = hashKey h :=
  nibbleSlice_eq (by rw [hashBytes_length]; decide)

lemma nibbleSlice_hashBytes_length (h : Uint256) : (nibbleSlice (hashBytes h)).length = 64 := by
  rw [nibbleSlice_hashBytes, hashKey_length]

lemma hashKey_inj {h h' : Uint256} : hashKey h = hashKey h' ↔ h = h' := by
  refine ⟨fun heq => ?_, congrArg hashKey⟩
  have hb : hashBytes h' = hashBytes h := by
    rw [← packNibbles_nibblesOf (hashBytes h), ← packNibbles_nibblesOf (hashBytes h')]
    exact congrArg packNibbles heq.symm
  refine BitVec.eq_of_toNat_eq ?_
  rw [← readBE_hashBytes h, ← readBE_hashBytes h', hb]

variable (sha3) in
/-- The tree is stored under the root, and in shape for keys of `n` half bytes. -/
structure TreeAt (n : ℕ) (db : OverlayDB) (root : Uint256) (t : NodeTrie) : Prop where
  short : n < sizeLimit
  shape : Shape (fun v : Bytes => v.length < sizeLimit) t n
  hash : root = sha3 (encodeTrie sha3 t)
  node : db.lookup root = encodeTrie sha3 t
  stored : TrieStored sha3 db t

variable (sha3) in
/-- **The map is stored under the root.** -/
def MapAt (db : OverlayDB) (root : Uint256) (m : Uint256 → Option Bytes) : Prop :=
  ∃ t, TreeAt sha3 64 db root t ∧ ∀ h, lookup t (hashKey h) = m h

/-! ## Trees -/

section Trees

variable {n : ℕ} {db db' : OverlayDB} {root : Uint256} {t : NodeTrie} {key : Bytes}

section

variable (h : TreeAt sha3 n db root t)

include h

lemma TreeAt.fits : Fits t := Fits.of_shape h.shape h.short

lemma TreeAt.ofBytes :
    RLP.ofBytes (encodeTrie sha3 t) = .ok (encodeTrie sha3 t) := (isItem_encodeTrie h.fits).ofBytes

lemma TreeAt.nonempty : encodeTrie sha3 t ≠ [] := (isItem_encodeTrie h.fits).nonempty

lemma TreeAt.storedNode :
    storedNode root db = .ok (encodeTrie sha3 t) db := by rw [Ybtc.storedNode, h.node]

/-- What is under a root stays, whatever is stored later. -/
lemma TreeAt.mono (hg : Grown db db') (hc : NoCollision db') : TreeAt sha3 n db' root t := by
  refine ⟨h.short, h.shape, h.hash, ?_, h.stored.mono hg hc⟩
  rw [hg.lookup hc (by rw [h.node]; exact h.nonempty), h.node]

end

/-- The tree without a key. -/
lemma treeAt_empty (hn : n < sizeLimit) (h : db.lookup (emptyTrie sha3) = rlpNull) :
    TreeAt sha3 n db (emptyTrie sha3) .empty :=
  ⟨hn, trivial, by rw [encodeTrie, emptyTrie], by rw [encodeTrie, h], trivial⟩

/-- A node becomes the root. -/
lemma forceInsertNode_yields (hn : n < sizeLimit)
    (hs : Shape (fun v : Bytes => v.length < sizeLimit) t n)
    (hst : TrieStored sha3 db t) : Yields (forceInsertNode sha3 (encodeTrie sha3 t)) db
      fun root db' => TreeAt sha3 n db' root t := by
  intro hc
  exact ⟨_, _, rfl, hn, hs, rfl, OverlayDB.lookup_insert hc, hst.mono (Grown.insert _ _ _) hc⟩

@[grind ←] lemma killShortRoot_grows (rootValue : Bytes) (root : Uint256) :
    Grows (killShortRoot rootValue root) := by grind [killShortRoot]

/-- The end of an update: the old root is given up and the new one stored. -/
lemma newRoot_yields (hn : n < sizeLimit) (hs : Shape (fun v : Bytes => v.length < sizeLimit) t n)
    (hst : TrieStored sha3 db t) (rv : Bytes) : Yields (do
      killShortRoot rv root
      forceInsertNode sha3 (encodeTrie sha3 t)) db fun root db' => TreeAt sha3 n db' root t := by
  refine Yields.bind (killShortRoot_grows _ _) (Q := fun _ _ => True) (fun _ => ?_)
    (fun _ => forceInsertNode_grows sha3 _)
    fun _ db1 _ hg hc => forceInsertNode_yields hn hs (hst.mono hg hc)
  unfold killShortRoot
  split_ifs
  · exact ⟨(), _, rfl, trivial⟩
  · exact ⟨(), _, rfl, trivial⟩

/-- **Look-up.** -/
lemma TreeAt.at (h : TreeAt sha3 n db root t) (hk : (nibbleSlice key).length = n) :
    trieAt db root key = .ok ((lookup t (nibbleSlice key)).getD []) := by
  rw [trieAt, h.node, h.ofBytes, Fallible.ok_bind]
  exact atAux_encodeTrie h.shape h.fits h.stored hk (by omega)

@[grind ←] lemma trieInsert_grows (root : Uint256) (key value : Bytes) :
    Grows (trieInsert sha3 root key value) := by grind [trieInsert]

/-- **Insertion.** -/
lemma TreeAt.insert (h : TreeAt sha3 n db root t) (hk : (nibbleSlice key).length = n) {v : Bytes}
    (hv : v.length < sizeLimit) : Yields (trieInsert sha3 root key v) db
      fun root' db' => TreeAt sha3 n db' root' (RadixTrie.insert t (nibbleSlice key) v) := by
  refine Yields.ok_bind h.storedNode (Yields.assert_bind h.nonempty (Yields.lift_bind h.ofBytes ?_))
  refine Yields.bind (mergeAt_grows sha3 _ _ _ _ _ _)
    (mergeAt_encodeTrie h.shape h.fits hk (by rw [hk]) h.stored)
    (by grind) ?_
  rintro b db1 ⟨rfl, hst⟩ - -
  exact newRoot_yields h.short (Shape.insert (by exact hv) h.shape hk).1 hst _

@[grind ←] lemma trieRemove_grows (root : Uint256) (key : Bytes) :
    Grows (trieRemove sha3 root key) := by grind [trieRemove]

/-- The tree after a removal, which leaves it alone if the key is not there. -/
noncomputable def afterDelete (t : NodeTrie) (key : List Nibble) : NodeTrie := (delete t key).getD t

/-- **Removal.** -/
lemma TreeAt.remove (h : TreeAt sha3 n db root t) (hk : (nibbleSlice key).length = n) :
    Yields (trieRemove sha3 root key) db
      fun root' db' => TreeAt sha3 n db' root' (afterDelete t (nibbleSlice key)) := by
  refine Yields.ok_bind h.storedNode (Yields.lift_bind h.ofBytes ?_)
  refine Yields.bind (deleteAt_grows sha3 _ _ _)
    (deleteAt_encodeTrie h.shape h.short hk (by rw [hk]) h.stored)
    (by grind) ?_
  intro b db1 hb hg hc
  unfold afterDelete
  cases hd : delete t (nibbleSlice key) with
  | none =>
    rw [hd] at hb
    obtain rfl : b = [] := hb
    rw [if_pos rfl]
    exact Yields.pure (h.mono hg hc)
  | some u =>
    rw [hd] at hb
    obtain ⟨rfl, hst⟩ := hb
    have hshape := (Shape.delete h.shape hk hd).1
    rw [if_neg (isItem_encodeTrie (Fits.of_shape hshape h.short)).nonempty]
    exact newRoot_yields h.short hshape hst _

lemma lookup_afterDelete {ok : Bytes → Prop} {key : List Nibble} (hs : Shape ok t n)
    (hk : key.length = n) (key' : List Nibble) :
    lookup (afterDelete t key) key' = if key' = key then none else lookup t key' := by
  have hremoved := lookup_delete hs hk
  unfold afterDelete
  cases hd : delete t key with
  | none =>
    rw [hd] at hremoved
    rw [Option.getD_none]
    split_ifs with hkey
    · rw [hkey]
      exact hremoved
    · rfl
  | some u =>
    rw [hd] at hremoved
    exact hremoved key'

end Trees

/-! ## Maps from hashes -/

section Maps

variable {db db' : OverlayDB} {root : Uint256} {m : Uint256 → Option Bytes}

section

variable (h : MapAt sha3 db root m)

include h

lemma MapAt.mono (hg : Grown db db') (hc : NoCollision db') : MapAt sha3 db' root m := by
  obtain ⟨t, ht, hm⟩ := h
  exact ⟨t, ht.mono hg hc, hm⟩

/-- The node of the root is there. -/
lemma MapAt.nonempty : db.lookup root ≠ [] := by
  obtain ⟨t, ht, -⟩ := h
  rw [ht.node]
  exact ht.nonempty

variable (k : Uint256)

/-- A look-up finds the value of the map. -/
lemma MapAt.at : trieAt db root (hashBytes k) = .ok ((m k).getD []) := by
  obtain ⟨t, ht, hm⟩ := h
  rw [ht.at (nibbleSlice_hashBytes_length k), ← hm k, nibbleSlice_hashBytes]

/-- An insertion returns the root of the updated map. -/
lemma MapAt.insert {v : Bytes} (hv : v.length < sizeLimit) :
    Yields (trieInsert sha3 root (hashBytes k) v) db
      fun root' db' => MapAt sha3 db' root' (Function.update m k (some v)) := by
  obtain ⟨t, ht, hm⟩ := h
  refine (ht.insert (nibbleSlice_hashBytes_length k) hv).weaken fun root' db' htree _ =>
    ⟨_, htree, fun j => ?_⟩
  rw [nibbleSlice_hashBytes, lookup_insert v ht.shape (hashKey_length k), Function.update_apply]
  simp only [hashKey_inj, hm j]

/-- A removal returns the root of the map without the key. -/
lemma MapAt.remove : Yields (trieRemove sha3 root (hashBytes k)) db
      fun root' db' => MapAt sha3 db' root' (Function.update m k none) := by
  obtain ⟨t, ht, hm⟩ := h
  refine (ht.remove (nibbleSlice_hashBytes_length k)).weaken fun root' db' htree _ =>
    ⟨_, htree, fun j => ?_⟩
  rw [nibbleSlice_hashBytes, lookup_afterDelete ht.shape (hashKey_length k), Function.update_apply]
  simp only [hashKey_inj, hm j]

end

lemma mapAt_empty (h : db.lookup (emptyTrie sha3) = rlpNull) :
    MapAt sha3 db (emptyTrie sha3) fun _ => none :=
  ⟨.empty, treeAt_empty (by decide) h, fun _ => rfl⟩

end Maps

end Ybtc
