import Ybtc.Evm.TrieDB

/-!
# Trees and their nodes

The trie of the program is a radix tree over half bytes whose nodes are written as RLP.  This module
says which bytes stand for which tree and what the readers of the program find in them.
-/

namespace Ybtc

open RadixTrie Fallible List RLP

/-- Trees with half bytes as digits and byte strings as values. -/
abbrev NodeTrie := Trie Nibble Bytes

section

variable (sha3 : Bytes → Uint256)

/-- The item that stands for a node in its parent: the node itself if it is short. -/
def refItem (b : Bytes) : Bytes := if b.length < 32 then b else rlpBytes (hashBytes (sha3 b))

/-- A pair of a key and an item. -/
def pairNode (k : List Nibble) (leaf : Bool) (i : Bytes) : Bytes :=
  rlpList [rlpBytes (hexPrefixEncode k leaf), i]

/-- The node of a tree. -/
def encodeTrie : NodeTrie → Bytes
  | .empty => rlpNull
  | .leaf k v => pairNode k true (rlpBytes v)
  | .ext k t => pairNode k false (refItem sha3 (encodeTrie t))
  | .branch cs =>
    rlpList ((List.finRange 16).map (fun i => refItem sha3 (encodeTrie (cs i))) ++ [rlpNull])

/-- The items of a branch; the last one is the value, which no key of full length reaches. -/
def branchItems (cs : Nibble → NodeTrie) : List Bytes :=
  (List.finRange 16).map (fun i => refItem sha3 (encodeTrie sha3 (cs i))) ++ [rlpNull]

lemma encodeTrie_branch (cs : Nibble → NodeTrie) :
    encodeTrie sha3 (.branch cs) = rlpList (branchItems sha3 cs) := by
  rw [encodeTrie, branchItems]

end

/-! ## Sizes -/

/-- No key and no value comes near this length. -/
def sizeLimit : ℕ := 2 ^ 62

/-- All keys and values of the tree are of a possible size. -/
def Fits : NodeTrie → Prop
  | .empty => True
  | .leaf k v => k.length < sizeLimit ∧ v.length < sizeLimit
  | .ext k t => k.length < sizeLimit ∧ Fits t
  | .branch cs => ∀ i, Fits (cs i)

lemma rlpHeader_length (start n : ℕ) : (rlpHeader start n).length ≤ 9 := by
  unfold rlpHeader
  split_ifs
  · simp
  · rw [length_cons]
    exact Nat.succ_le_succ (bigEndian_length 8 n)

lemma rlpBytes_length (b : Bytes) : (rlpBytes b).length ≤ b.length + 9 := by
  unfold rlpBytes
  split_ifs
  · omega
  · rw [length_append]
    have := rlpHeader_length 0x80 b.length
    omega

lemma isItem_rlpNull : IsItem rlpNull := isItem_rlpBytes (by decide)

section Views

variable {sha3 : Bytes → Uint256}

variable {t : NodeTrie} {db : OverlayDB}

lemma rlpBytes_hash_length (h : Uint256) : (rlpBytes (hashBytes h)).length = 33 := by
  have hs : standsForItself (hashBytes h) = false := by
    cases hb : standsForItself (hashBytes h) with
    | false => rfl
    | true =>
      obtain ⟨d, hd, -⟩ := exists_of_standsForItself hb
      have := hashBytes_length h
      rw [hd] at this
      simp at this
  rw [rlpBytes, hs, if_neg Bool.false_ne_true, length_append, hashBytes_length]
  rfl

lemma refItem_length (b : Bytes) : (refItem sha3 b).length ≤ 33 := by
  unfold refItem
  split_ifs with h
  · omega
  · exact (rlpBytes_hash_length _).le

lemma isItem_refItem {b : Bytes} (h : IsItem b) : IsItem (refItem sha3 b) := by
  unfold refItem
  split_ifs
  · exact h
  · exact isItem_rlpBytes (hashBytes_short _)

/-! ## Pairs -/

/-- What the trie code finds in a pair. -/
structure PairView (d : Bytes) (k : List Nibble) (leaf : Bool) (i : Bytes) : Prop where
  isItem : IsItem d
  isEmpty : RLP.isEmpty d = false
  isList : isList d = true
  itemCount : itemCount d = .ok 2
  keyOf : keyOfNode d = .ok k
  isLeaf : isLeafNode d = .ok leaf
  item_zero : item d 0 = .ok (rlpBytes (hexPrefixEncode k leaf))
  item_one : item d 1 = .ok i

variable {k : List Nibble}

lemma pairView {i : Bytes} (leaf : Bool) (hk : k.length < sizeLimit)
    (hi : IsItem i) (hl : i.length ≤ sizeLimit + 9) : PairView (pairNode k leaf i) k leaf i := by
  have hkey : (hexPrefixEncode k leaf).length < rlpLimit := by
    rw [hexPrefixEncode_length]
    unfold sizeLimit at hk
    unfold rlpLimit
    omega
  have hitems : ∀ d ∈ [rlpBytes (hexPrefixEncode k leaf), i], IsItem d := by
    simp only [mem_cons, not_mem_nil, or_false, forall_eq_or_imp, forall_eq]
    exact ⟨isItem_rlpBytes hkey, hi⟩
  have hsum : [rlpBytes (hexPrefixEncode k leaf), i].flatten.length < rlpLimit := by
    have := rlpBytes_length (hexPrefixEncode k leaf)
    rw [hexPrefixEncode_length] at this
    simp only [flatten_cons, flatten_nil, append_nil, length_append]
    unfold sizeLimit at hk hl
    unfold rlpLimit
    omega
  have h0 : item (pairNode k leaf i) 0 = .ok (rlpBytes (hexPrefixEncode k leaf)) :=
    item_rlpList hsum hitems 0
  refine ⟨isItem_rlpList hsum, ?_, isList_rlpList hsum, itemCount_rlpList hsum hitems, ?_, ?_, h0,
    item_rlpList hsum hitems 1⟩
  · rw [pairNode, isEmpty_rlpList hsum, decide_eq_false_iff_not]
    intro hnil
    rw [flatten_cons, append_eq_nil_iff] at hnil
    exact (isItem_rlpBytes hkey).nonempty hnil.1
  · rw [keyOfNode, h0, ok_bind, payload_rlpBytes hkey, ok_bind, keyOf_hexPrefixEncode]
  · rw [isLeafNode, h0, ok_bind, payload_rlpBytes hkey, ok_bind, isLeafKey_hexPrefixEncode]

/-! ## Branches -/

/-- What the trie code finds in a branch. -/
structure BranchView (d : Bytes) (items : List Bytes) : Prop where
  isItem : IsItem d
  isEmpty : RLP.isEmpty d = false
  isList : isList d = true
  itemCount : itemCount d = .ok 17
  item : ∀ i, item d i = .ok (items.getD i [])
  items : nodeItems d 17 = .ok items

lemma mapM_ok {α β : Type} {f : α → Except Fault β} {g : α → β} (h : ∀ a, f a = .ok (g a)) :
    ∀ l : List α, l.mapM f = .ok (l.map g)
  | [] => rfl
  | a :: l => by
    rw [mapM_cons, h a, ok_bind, mapM_ok h l]
    rfl

lemma branchView {items : List Bytes} (hlen : items.length = 17)
    (hi : ∀ d ∈ items, IsItem d ∧ d.length ≤ 33) : BranchView (rlpList items) items := by
  have hsum : items.flatten.length < rlpLimit := by
    rw [length_flatten]
    have : (items.map List.length).sum ≤ (items.map List.length).length • 33 :=
      sum_le_card_nsmul _ _ fun x hx => by
        obtain ⟨d, hd, rfl⟩ := mem_map.mp hx
        exact (hi d hd).2
    rw [length_map, hlen] at this
    exact lt_of_le_of_lt this (by decide)
  have hitems : ∀ d ∈ items, IsItem d := fun d hd => (hi d hd).1
  have hitem := item_rlpList hsum hitems
  refine ⟨isItem_rlpList hsum, ?_, isList_rlpList hsum, ?_, hitem, ?_⟩
  · rw [isEmpty_rlpList hsum, decide_eq_false_iff_not]
    intro hnil
    obtain ⟨d, rest, rfl⟩ := exists_cons_of_length_eq_add_one hlen
    rw [flatten_cons, append_eq_nil_iff] at hnil
    exact (hitems d mem_cons_self).nonempty hnil.1
  · rw [itemCount_rlpList hsum hitems, hlen]
  · rw [nodeItems, mapM_ok hitem, ← hlen]
    refine congrArg _ (ext_getElem (by simp) fun j hj hj' => ?_)
    simp [getElem?_eq_getElem hj']

variable (cs : Nibble → NodeTrie)

@[simp] lemma branchItems_length : (branchItems sha3 cs).length = 17 := by
  simp [branchItems]

variable (sha3) in
/-- The item of a child. -/
lemma branchItems_getD (d : Nibble) :
    (branchItems sha3 cs).getD d.val [] = refItem sha3 (encodeTrie sha3 (cs d)) := by
  simp [branchItems, getElem?_append]

/-- A child is replaced. -/
lemma branchItems_set (d : Nibble) (t : NodeTrie) :
    (branchItems sha3 cs).set d.val (refItem sha3 (encodeTrie sha3 t)) =
      branchItems sha3 (Function.update cs d t) := by
  refine ext_getElem (by simp) fun j hj hj' => ?_
  rw [branchItems_length] at hj'
  by_cases hd : d.val = j
  · subst hd
    simp [branchItems]
  · rw [getElem_set_ne hd]
    by_cases hj16 : j < 16
    · have hne : (⟨j, hj16⟩ : Nibble) ≠ d := fun h => hd (by rw [← h])
      simp [branchItems, hj16, Function.update_of_ne hne]
    · obtain rfl : j = 16 := by omega
      simp [branchItems]

lemma branchItems_empty : branchItems sha3 (fun _ => .empty) = List.replicate 17 rlpNull := by
  have h : refItem sha3 (encodeTrie sha3 .empty) = rlpNull := by
    rw [encodeTrie, refItem, if_pos (by decide)]
  refine ext_getElem (by simp) fun j hj hj' => ?_
  simp [branchItems, h]

variable {cs : Nibble → NodeTrie}

lemma branchItems_isItem (h : ∀ i, IsItem (encodeTrie sha3 (cs i)))
    {d : Bytes} (hd : d ∈ branchItems sha3 cs) : IsItem d ∧ d.length ≤ 33 := by
  rw [branchItems, mem_append, mem_map, mem_singleton] at hd
  rcases hd with ⟨i, -, rfl⟩ | rfl
  · exact ⟨isItem_refItem (h i), refItem_length _⟩
  · exact ⟨isItem_rlpNull, by decide⟩

/-! ## Trees -/

lemma isItem_encodeTrie : ∀ {t : NodeTrie}, Fits t → IsItem (encodeTrie sha3 t)
  | .empty, _ => isItem_rlpNull
  | .leaf k v, h => by
    have hv := rlpBytes_length v
    refine (pairView true h.1 (isItem_rlpBytes (lt_trans h.2 (by decide))) ?_).isItem
    have := h.2
    omega
  | .ext k t, h =>
    (pairView false h.1 (isItem_refItem (isItem_encodeTrie h.2))
      (le_trans (refItem_length _) (by decide))).isItem
  | .branch cs, h => by
    rw [encodeTrie_branch]
    exact (branchView (branchItems_length cs) fun d hd =>
      branchItems_isItem (fun i => isItem_encodeTrie (h i)) hd).isItem

variable (sha3) in
lemma view_leaf {v : Bytes} (h : Fits (.leaf k v)) :
    PairView (encodeTrie sha3 (.leaf k v)) k true (rlpBytes v) := by
  have hv := rlpBytes_length v
  refine pairView true h.1 (isItem_rlpBytes (lt_trans h.2 (by decide))) ?_
  have := h.2
  omega

variable (sha3) in
lemma view_ext {t : NodeTrie} (h : Fits (.ext k t)) :
    PairView (encodeTrie sha3 (.ext k t)) k false (refItem sha3 (encodeTrie sha3 t)) :=
  pairView false h.1 (isItem_refItem (isItem_encodeTrie h.2))
    (le_trans (refItem_length _) (by decide))

variable (sha3) in
lemma view_branch (h : Fits (.branch cs)) :
    BranchView (encodeTrie sha3 (.branch cs)) (branchItems sha3 cs) := by
  rw [encodeTrie_branch]
  exact branchView (branchItems_length cs) fun d hd =>
    branchItems_isItem (fun i => isItem_encodeTrie (h i)) hd

variable (sha3) in
/-- A tree that is there has a node that is a list, and only such a tree has. -/
lemma isList_encodeTrie {t : NodeTrie} (h : Fits t) (hne : t ≠ .empty) :
    isList (encodeTrie sha3 t) = true := by
  cases t with
  | empty => exact absurd rfl hne
  | leaf k v => exact (view_leaf sha3 h).isList
  | ext k t => exact (view_ext sha3 h).isList
  | branch cs => exact (view_branch sha3 h).isList

lemma isEmpty_encodeTrie (h : Fits t) (hne : t ≠ .empty) :
    RLP.isEmpty (encodeTrie sha3 t) = false := by
  cases t with
  | empty => exact absurd rfl hne
  | leaf k v => exact (view_leaf sha3 h).isEmpty
  | ext k t => exact (view_ext sha3 h).isEmpty
  | branch cs => exact (view_branch sha3 h).isEmpty

/-- The item of an empty child is empty. -/
@[simp] lemma refItem_empty : refItem sha3 (encodeTrie sha3 .empty) = rlpNull := by
  rw [encodeTrie, refItem, if_pos (by decide)]

lemma isEmpty_refItem (h : Fits t) (hne : t ≠ .empty) :
    RLP.isEmpty (refItem sha3 (encodeTrie sha3 t)) = false := by
  unfold refItem
  split_ifs
  · exact isEmpty_encodeTrie h hne
  · rw [isEmpty_rlpBytes (hashBytes_short _), decide_eq_false_iff_not]
    intro hnil
    have := hashBytes_length (sha3 (encodeTrie sha3 t))
    rw [hnil] at this
    simp at this

/-! ## The store -/

variable (sha3) in
/-- A node that is not part of its parent is in the store. -/
def Holds (db : OverlayDB) (b : Bytes) : Prop := 32 ≤ b.length → db.lookup (sha3 b) = b

variable (sha3) in
/-- **The nodes below a tree are in the store.** -/
def TrieStored (db : OverlayDB) : NodeTrie → Prop
  | .empty => True
  | .leaf _ _ => True
  | .ext _ t => Holds sha3 db (encodeTrie sha3 t) ∧ TrieStored db t
  | .branch cs => ∀ i, Holds sha3 db (encodeTrie sha3 (cs i)) ∧ TrieStored db (cs i)

variable {db' : OverlayDB}

lemma Holds.mono {b : Bytes} (h : Holds sha3 db b) (hg : Grown db db')
    (hc : NoCollision db') : Holds sha3 db' b := by
  intro hl
  have hb := h hl
  have hne : db.lookup (sha3 b) ≠ [] := by
    rw [hb]
    rintro rfl
    simp at hl
  rw [hg.lookup hc hne, hb]

/-- TrieStored trees stay stored. -/
lemma TrieStored.mono (hg : Grown db db') (hc : NoCollision db') :
    ∀ {t : NodeTrie}, TrieStored sha3 db t → TrieStored sha3 db' t
  | .empty, _ => trivial
  | .leaf _ _, _ => trivial
  | .ext _ _, h => ⟨h.1.mono hg hc, h.2.mono hg hc⟩
  | .branch _, h => fun i => ⟨(h i).1.mono hg hc, (h i).2.mono hg hc⟩

/-- **The child behind an item is found.** -/
lemma child_refItem (hf : Fits t) (hne : t ≠ .empty) (h : Holds sha3 db (encodeTrie sha3 t)) :
    db.child (refItem sha3 (encodeTrie sha3 t)) = .ok (encodeTrie sha3 t) := by
  unfold refItem
  split_ifs with hl
  · rw [OverlayDB.child, isList_encodeTrie sha3 hf hne, if_pos rfl]
  · have hlim := hashBytes_short (sha3 (encodeTrie sha3 t))
    rw [OverlayDB.child, isList_rlpBytes hlim, if_neg Bool.false_ne_true, toHash_hashBytes,
      ok_bind, h (by omega), (isItem_encodeTrie hf).ofBytes]

end Views

end Ybtc
