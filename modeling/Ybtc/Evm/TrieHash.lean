import Ybtc.Evm.TrieRuns

/-!
# The hash of a map

`hash256` computes the root of a trie from the whole map at once: it sorts the keys by their half
bytes and goes down the common beginnings, without a store.
-/

namespace Ybtc

open OrderedMap (empty find_eq_some)

open RadixTrie Fallible List

/-- `HexMap`: the keys are half bytes. -/
abbrev HexMap := OrderedMap (List Nibble) Bytes

/-! ## The functions of the source -/

/-- How far the first key and another one agree, from `preLen` on and up to `x`. -/
def sharedUpTo (k k' : List Nibble) (preLen x : ℕ) : ℕ :=
  preLen + shared ((k.drop preLen).take (x - preLen)) ((k'.drop preLen).take (x - preLen))

/-- The loop for `sharedPre`. -/
def sharedPreLoop (first : List Nibble) (preLen : ℕ) : ℕ → List (List Nibble × Bytes) → ℕ
  | sharedPre, [] => sharedPre
  | sharedPre, e :: rest =>
    if sharedPre = 0 then 0
    else
      let x := min sharedPre (min (first.length % 2 ^ 32) (e.1.length % 2 ^ 32))
      sharedPreLoop first preLen (min (sharedUpTo first e.1 preLen x) sharedPre) rest

/-- The entry goes on with the half byte `i`. -/
def goesOn (preLen : ℕ) (i : Nibble) (e : List Nibble × Bytes) : Bool := e.1[preLen]? == some i

/-- The item of a range, which is null for an empty one. -/
def rangeItem (aux : List (List Nibble × Bytes) → Except Fault Bytes)
    (range : List (List Nibble × Bytes)) : Except Fault Bytes :=
  if range = [] then .ok rlpNull else aux range

/-- The items of the children, with the recursive call as an argument. -/
def hash256children (aux : List (List Nibble × Bytes) → Except Fault Bytes) (preLen : ℕ) :
    List Nibble → List (List Nibble × Bytes) → Except Fault (List Bytes)
  | [], _ => .ok []
  | i :: is, b => do
    let item ← rangeItem aux (b.takeWhile (goesOn preLen i))
    let items ← hash256children aux preLen is (b.dropWhile (goesOn preLen i))
    .ok (item :: items)

section

variable (sha3 : Bytes → Uint256)

/-- `hash256aux`, with the recursive call as an argument. -/
def hash256aux (rlp : Except Fault Bytes) : Except Fault Bytes := rlp.map (refItem sha3)

/-- `hash256rlp`, of the entries from `begin` to `end`. -/
def hash256rlp : ℕ → List (List Nibble × Bytes) → ℕ → Except Fault Bytes
  | 0, _, _ => .error .diverged
  | _ + 1, [], _ => .ok rlpNull
  | _ + 1, [e], preLen => do
    let k ← hexPrefixEncodeVector e.1 true preLen minusOne
    .ok (rlpList [rlpBytes k, rlpBytes e.2])
  | turns + 1, e :: e' :: es, preLen =>
    let sharedPre := sharedPreLoop e.1 preLen minusOne (e' :: es)
    if preLen < sharedPre then do
      let k ← hexPrefixEncodeVector e.1 false preLen sharedPre
      let child ← hash256aux sha3 (hash256rlp turns (e :: e' :: es) sharedPre)
      .ok (rlpList [rlpBytes k, child])
    else do
      let items ← hash256children
        (fun range => hash256aux sha3 (hash256rlp turns range ((preLen + 1) % 2 ^ 32))) preLen
        (List.finRange 16) (if preLen = e.1.length then e' :: es else e :: e' :: es)
      .ok (rlpList (items ++ [if preLen = e.1.length then rlpBytes e.2 else rlpNull]))

/-- The map by half bytes: `hexMap[asNibbles(i->first)] = i->second`, from the last to the first. -/
def hexMapOf (s : BytesMap) : HexMap :=
  s.entries.reverse.foldl (fun h e => h.insert (nibblesOf e.1) e.2) empty

/-- The length of the longest key, which bounds the recursion. -/
def longestKey (s : HexMap) : ℕ := s.entries.foldl (fun n e => max n e.1.length) 0

/-- `rlp256`. -/
def rlp256 (s : BytesMap) : Except Fault Bytes :=
  if s.entries = [] then .ok rlpNull
  else hash256rlp sha3 (longestKey (hexMapOf s) + 2) (hexMapOf s).entries 0

/-- `hash256`. -/
def hash256 (s : BytesMap) : Except Fault Uint256 := (rlp256 sha3 s).map sha3

end

variable {k : List Nibble} {preLen : ℕ}

/-! ## Common beginnings -/

/-- The loop takes the minimum over the other keys. -/
lemma sharedPreLoop_eq {first : List Nibble} (hfirst : first.length < 2 ^ 32) :
    ∀ {es : List (List Nibble × Bytes)} {pre : ℕ}, preLen ≤ pre →
      (∀ e ∈ es, preLen ≤ shared first e.1 ∧ e.1.length < 2 ^ 32) →
        sharedPreLoop first preLen pre es = es.foldl (fun p e => min p (shared first e.1)) pre
  | [], _, _, _ => rfl
  | e :: es, pre, hp, h => by
    obtain ⟨hs, hl⟩ := h e mem_cons_self
    have h1 := shared_le first e.1
    have h2 := shared_le_right first e.1
    rw [sharedPreLoop, Nat.mod_eq_of_lt hfirst, Nat.mod_eq_of_lt hl, foldl_cons]
    have hstep : min (sharedUpTo first e.1 preLen
        (min pre (min first.length e.1.length))) pre = min pre (shared first e.1) := by
      have hd := shared_drop hs
      rw [sharedUpTo, shared_take]
      omega
    have hmin : preLen ≤ min pre (shared first e.1) := by omega
    have ih := sharedPreLoop_eq hfirst hmin fun e' he' => h e' (mem_cons_of_mem _ he')
    split_ifs with h0
    · rw [← ih, h0, Nat.zero_min]
      cases es <;> simp [sharedPreLoop]
    · dsimp only
      rw [hstep, ih]

variable {α : Type}

/-- The minimum is attained. -/
lemma foldl_min_eq {f : α → ℕ} {q : ℕ} : ∀ {es : List α} {pre : ℕ}, q ≤ pre →
    (∀ e ∈ es, q ≤ f e) → pre = q ∨ (∃ e ∈ es, f e = q) → es.foldl (fun p e => min p (f e)) pre = q
  | [], pre, _, _, h => by
    rcases h with h | ⟨e, he, -⟩
    · exact h
    · cases he
  | e :: es, pre, hq, hall, h => by
    rw [foldl_cons]
    have hqe := hall e mem_cons_self
    refine foldl_min_eq (by omega) (fun e' he' => hall e' (mem_cons_of_mem _ he')) ?_
    rcases h with h | ⟨e', he', hf⟩
    · exact Or.inl (by omega)
    · rcases mem_cons.mp he' with rfl | he'
      · exact Or.inl (by omega)
      · exact Or.inr ⟨e', he', hf⟩

variable {cs : Nibble → NodeTrie} {ok : Bytes → Prop}

/-- **The entries of a branch share what is in front of it**, and no more. -/
lemma sharedPreLoop_branch {n : ℕ}
    (hs : Shape ok (.branch cs) n) {q : List Nibble} (hq : q.length + n < 2 ^ 31)
    (hpre : preLen ≤ q.length) : ∃ e e' es, (entries (.branch cs)).map (behind q) = e :: e' :: es ∧
      q <+: e.1 ∧ q.length < e.1.length ∧ e.1.length < 2 ^ 31 ∧
        sharedPreLoop e.1 preLen minusOne (e' :: es) = q.length := by
  obtain ⟨d, r, v, e', es, hentries, e2, he2, d', r', hd', hne⟩ := hs.entries_branch
  have hlen : ∀ e ∈ entries (.branch cs), e.1.length = n := fun e he =>
    hs.length_of_lookup (mem_entries.mp he)
  have hr : r.length + 1 = n := hlen (d :: r, v) (by rw [hentries]; exact mem_cons_self)
  have hbehind : (behind q (d :: r, v)).1.length = q.length + n := by
    rw [behind, length_append, length_cons, hr]
  refine ⟨behind q (d :: r, v), behind q e', es.map (behind q), by rw [hentries]; rfl,
    prefix_append _ _, by omega, by omega, ?_⟩
  have hshared : ∀ e : List Nibble × Bytes, shared (q ++ d :: r) (q ++ e.1) =
      q.length + shared (d :: r) e.1 := fun e => shared_append_append _ _ q
  have hfirst : (q ++ d :: r).length < 2 ^ 32 := by
    rw [length_append, length_cons]
    omega
  change sharedPreLoop (q ++ d :: r) preLen minusOne ((e' :: es).map (behind q)) = q.length
  rw [sharedPreLoop_eq hfirst (by rw [minusOne]; omega), foldl_map]
  · refine foldl_min_eq (by rw [minusOne]; omega) (fun e _ => ?_) (Or.inr ⟨e2, he2, ?_⟩)
    · exact (hshared e).symm ▸ Nat.le_add_right _ _
    · rw [behind, hshared, hd', shared, if_neg hne, Nat.add_zero]
  · intro e he
    obtain ⟨e1, he1, rfl⟩ := mem_map.mp he
    have := hlen e1 (by rw [hentries]; exact mem_cons_of_mem _ he1)
    refine ⟨(hshared e1).symm ▸ le_trans hpre (Nat.le_add_right _ _), ?_⟩
    rw [behind, length_append]
    omega

/-! ## Children -/

section Tree

variable {sha3 : Bytes → Uint256} {ok : Bytes → Prop}

lemma goesOn_behind (p r : List Nibble) (i j : Nibble) (v : Bytes) :
    goesOn p.length i (p ++ j :: r, v) = (j == i) := by
  rw [goesOn, getElem?_append_right le_rfl, Nat.sub_self, getElem?_cons_zero]
  rfl

/-- The range of a half byte is cut off the front of the ranges of several. -/
lemma takeWhile_goesOn {f : α → Bool} {l l' : List α} (h : ∀ e ∈ l, f e = true)
    (h' : ∀ e ∈ l', f e = false) : (l ++ l').takeWhile f = l ∧ (l ++ l').dropWhile f = l' := by
  rw [takeWhile_append_of_pos h, dropWhile_append_of_pos h]
  cases l' with
  | nil => simp
  | cons e l' =>
    have he := h' e mem_cons_self
    simp [he]

/-- The entries of some children, behind what is in front of their branch. -/
def childEntries (cs : Nibble → NodeTrie) (p : List Nibble) (is : List Nibble) :
    List (List Nibble × Bytes) := is.flatMap fun d => (entries (cs d)).map (behind (p ++ [d]))

lemma childEntries_finRange (cs : Nibble → NodeTrie) (p : List Nibble) :
    (entries (.branch cs)).map (behind p) = childEntries cs p (List.finRange 16) := by
  rw [entries, childEntries, map_flatMap]
  simp only [map_map, Function.comp_def, behind_behind]

/-- **The items of the children** are those of the node of the branch. -/
lemma hash256children_eq {p : List Nibble}
    {aux : List (List Nibble × Bytes) → Except Fault Bytes}
    (haux : ∀ i, cs i ≠ .empty →
      aux ((entries (cs i)).map (behind (p ++ [i]))) = .ok (refItem sha3 (encodeTrie sha3 (cs i))))
    (hcs : ∀ i, ∃ m, Shape ok (cs i) m) : ∀ {is : List Nibble}, is.Nodup →
      hash256children aux p.length is (childEntries cs p is) =
        .ok (is.map fun i => refItem sha3 (encodeTrie sha3 (cs i)))
  | [], _ => rfl
  | i :: is, hnd => by
    obtain ⟨hi, hnd⟩ := nodup_cons.mp hnd
    have hmine : ∀ e ∈ (entries (cs i)).map (behind (p ++ [i])), goesOn p.length i e = true := by
      intro e he
      obtain ⟨⟨r, v⟩, -, rfl⟩ := mem_map.mp he
      rw [behind, append_assoc, singleton_append, goesOn_behind, beq_self_eq_true]
    have hothers : ∀ e ∈ childEntries cs p is, goesOn p.length i e = false := by
      intro e he
      obtain ⟨j, hj, he⟩ := mem_flatMap.mp he
      obtain ⟨⟨r, v⟩, -, rfl⟩ := mem_map.mp he
      rw [behind, append_assoc, singleton_append, goesOn_behind, beq_eq_false_iff_ne]
      rintro rfl
      exact hi hj
    have hcut := takeWhile_goesOn hmine hothers
    have hcons : childEntries cs p (i :: is) =
        (entries (cs i)).map (behind (p ++ [i])) ++ childEntries cs p is := flatMap_cons
    have hitem : rangeItem aux ((entries (cs i)).map (behind (p ++ [i]))) =
        .ok (refItem sha3 (encodeTrie sha3 (cs i))) := by
      unfold rangeItem
      by_cases he : cs i = .empty
      · rw [he, entries, map_nil, if_pos rfl, encodeTrie]
        rfl
      · obtain ⟨m, hm⟩ := hcs i
        obtain ⟨e, hmem⟩ := hm.exists_entry he
        rw [if_neg (ne_nil_of_mem (mem_map_of_mem hmem)), haux i he]
    rw [hash256children, hcons, hcut.1, hcut.2, hitem, ok_bind,
      hash256children_eq haux hcs hnd, ok_bind, map_cons]

/-! ## Trees -/

/-- **The node of a tree is written from its entries.** -/
lemma hash256rlp_encodeTrie : ∀ {t : NodeTrie} {n turns : ℕ} {p : List Nibble}, Shape ok t n →
    p.length + n < 2 ^ 31 → n < turns →
      hash256rlp sha3 turns ((entries t).map (behind p)) p.length = .ok (encodeTrie sha3 t)
  | _, _, 0, _, _, _, h => by omega
  | .empty, _, turns + 1, p, _, _, _ => by
    rw [entries, map_nil, hash256rlp, encodeTrie]
  | .leaf k v, n, turns + 1, p, hs, hn, _ => by
    obtain ⟨rfl, -⟩ := hs
    have hlen : (p ++ k).length < 2 ^ 31 := by rw [length_append]; exact hn
    rw [entries, map_singleton, hash256rlp, behind, hexPrefixEncodeVector_eq
      (hexEnd_minusOne hlen) (by rw [length_append]; omega) le_rfl, ok_bind,
      take_length, drop_left, encodeTrie, pairNode]
  | .ext k t, n, turns + 1, p, hs, hn, ht => by
    obtain ⟨hk, hb, m, rfl, hst⟩ := hs
    obtain ⟨cs, rfl⟩ := hb.exists
    have hkl : 0 < k.length := length_pos_iff.mpr hk
    have hq : (p ++ k).length + m < 2 ^ 31 := by rw [length_append]; omega
    have hpq : p.length ≤ (p ++ k).length := by rw [length_append]; omega
    obtain ⟨e, e', es, hentries, ⟨r, hr⟩, hlt, hlt', hshared⟩ := sharedPreLoop_branch hst hq hpq
    have hlist : (entries (.ext k (.branch cs))).map (behind p) = e :: e' :: es := by
      rw [← hentries, entries, map_map]
      simp only [Function.comp_def, behind_behind]
    have hturns : m < turns := by omega
    have ih := hash256rlp_encodeTrie hst hq hturns
    rw [hentries] at ih
    rw [hlist, hash256rlp, hshared]
    rw [if_pos (by rw [length_append]; omega), ih, hexPrefixEncodeVector_eq
      (if_pos (by omega)) hpq hlt.le, ok_bind, encodeTrie, pairNode]
    have htake : (e.1.take (p ++ k).length).drop p.length = k := by
      rw [← hr, take_left, drop_left]
    rw [htake]
    rfl
  | .branch cs, n, turns + 1, p, hs, hn, ht => by
    obtain ⟨e, e', es, hentries, -, hlt, -, hshared⟩ := sharedPreLoop_branch hs hn le_rfl
    obtain ⟨-, m, rfl, hcs⟩ := hs
    let aux := fun range => hash256aux sha3 (hash256rlp sha3 turns range ((p.length + 1) % 2 ^ 32))
    have haux : ∀ i, cs i ≠ .empty → aux ((entries (cs i)).map (behind (p ++ [i]))) =
        .ok (refItem sha3 (encodeTrie sha3 (cs i))) := by
      intro i _
      change hash256aux sha3 (hash256rlp sha3 turns _ _) = _
      have hturns : m < turns := by omega
      have ih := hash256rlp_encodeTrie (p := p ++ [i]) (hcs i)
        (by rw [length_append, length_singleton]; omega) hturns
      rw [length_append, length_singleton] at ih
      rw [Nat.mod_eq_of_lt (by omega), ih]
      rfl
    have hchildren := hash256children_eq haux (fun i => ⟨m, hcs i⟩) (nodup_finRange 16)
    rw [← childEntries_finRange, hentries] at hchildren
    rw [hentries, hash256rlp, hshared]
    rw [if_neg (lt_irrefl _), if_neg (by omega), if_neg (by omega), hchildren, ok_bind, encodeTrie]

end Tree

/-! ## Maps -/

variable {key : List Nibble} {v : Bytes}

/-- What is found in the map by half bytes. -/
lemma find_foldl_insert :
    ∀ {l : List (Bytes × Bytes)} {h : HexMap}, (l.map Prod.fst).Nodup →
      ((l.foldl (fun h e => h.insert (nibblesOf e.1) e.2) h).find key = some v ↔
        (∃ k, nibblesOf k = key ∧ (k, v) ∈ l) ∨
          (∀ e ∈ l, nibblesOf e.1 ≠ key) ∧ h.find key = some v)
  | [], h, _ => by simp
  | e :: l, h, hnd => by
    obtain ⟨he, hnd⟩ := nodup_cons.mp (map_cons ▸ hnd)
    rw [foldl_cons, find_foldl_insert hnd, OrderedMap.find_insert]
    by_cases hk : key = nibblesOf e.1
    · subst hk
      have hnot : ∀ e' ∈ l, nibblesOf e'.1 ≠ nibblesOf e.1 := fun e' he' heq =>
        he (nibblesOf_inj.mp heq ▸ mem_map_of_mem he')
      rw [if_pos rfl]
      constructor
      · rintro (⟨k, hk, hm⟩ | ⟨-, hv⟩)
        · exact absurd hk (hnot _ hm)
        · exact Or.inl ⟨e.1, rfl, by rw [← Option.some.inj hv]; exact mem_cons_self⟩
      · rintro (⟨k, hk, hm⟩ | ⟨hall, -⟩)
        · refine Or.inr ⟨hnot, ?_⟩
          rcases mem_cons.mp hm with heq | hm
          · rw [← heq]
          · exact absurd hk (hnot _ hm)
        · exact absurd rfl (hall e mem_cons_self)
    · rw [if_neg hk]
      constructor
      · rintro (⟨k, hk', hm⟩ | ⟨hall, hf⟩)
        · exact Or.inl ⟨k, hk', mem_cons_of_mem _ hm⟩
        · refine Or.inr ⟨fun e' he' => ?_, hf⟩
          rcases mem_cons.mp he' with rfl | he'
          · exact fun heq => hk heq.symm
          · exact hall e' he'
      · rintro (⟨k, hk', hm⟩ | ⟨hall, hf⟩)
        · rcases mem_cons.mp hm with heq | hm
          · rw [← heq] at hk
            exact absurd hk'.symm hk
          · exact Or.inl ⟨k, hk', hm⟩
        · exact Or.inr ⟨fun e' he' => hall e' (mem_cons_of_mem _ he'), hf⟩

lemma find_hexMapOf {s : BytesMap} :
    (hexMapOf s).find key = some v ↔ ∃ k, nibblesOf k = key ∧ s.find k = some v := by
  have hnd : (s.entries.reverse.map Prod.fst).Nodup := by
    rw [map_reverse, nodup_reverse]
    exact pairwise_map.mpr (s.sorted.imp LT.lt.ne)
  rw [hexMapOf, find_foldl_insert hnd]
  simp only [OrderedMap.find_empty, reduceCtorEq, and_false, or_false, mem_reverse,
    find_eq_some]

section Roots

variable {sha3 : Bytes → Uint256} {len : ℕ} {db : OverlayDB} {root : Uint256} {m : BytesMap}

/-- A tree that holds the map has its entries, by half bytes. -/
lemma hexMapOf_eq {t : NodeTrie} (hs : Shape ok t (2 * len))
    (hm : ∀ k, lookup t (nibblesOf k) = m.find k) : hexMapOf m = contents t := by
  refine OrderedMap.ext_find fun key => Option.ext fun v => ?_
  rw [find_hexMapOf, find_contents]
  constructor
  · rintro ⟨k, rfl, hk⟩
    rw [hm, hk]
  · intro h
    have hkey : nibblesOf (packNibbles key) = key :=
      nibblesOf_packNibbles (by rw [hs.length_of_lookup h]; omega)
    exact ⟨packNibbles key, hkey, by rw [← hm, hkey, h]⟩

lemma le_foldl_max {f : α → ℕ} : ∀ {l : List α} {n : ℕ},
    n ≤ l.foldl (fun n e => max n (f e)) n ∧ ∀ e ∈ l, f e ≤ l.foldl (fun n e => max n (f e)) n
  | [], n => ⟨le_rfl, fun e he => by cases he⟩
  | e :: l, n => by
    obtain ⟨h1, h2⟩ := le_foldl_max (f := f) (l := l) (n := max n (f e))
    rw [foldl_cons]
    refine ⟨(le_max_left _ _).trans h1, fun e' he' => ?_⟩
    rcases mem_cons.mp he' with rfl | he'
    · exact (le_max_right _ _).trans h1
    · exact h2 e' he'

/-- **The hash of the map is the root of a trie that holds it.** -/
lemma Represents.hash256_eq (hlen : len < 2 ^ 30) (h : Represents sha3 len db root m) :
    hash256 sha3 m = .ok root := by
  obtain ⟨t, ht, hm⟩ := h
  have hhex := hexMapOf_eq ht.shape hm
  rw [hash256, rlp256, ht.hash]
  by_cases he : m.entries = []
  · have hempty : t = .empty := by
      by_contra hne
      obtain ⟨⟨key, v⟩, hmem⟩ := ht.shape.exists_entry hne
      have hf : (contents t).find key = some v := find_eq_some.mpr hmem
      rw [← hhex] at hf
      obtain ⟨k, -, hk⟩ := find_hexMapOf.mp hf
      have := find_eq_some.mp hk
      rw [he] at this
      cases this
    rw [if_pos he, hempty, encodeTrie]
    rfl
  · obtain ⟨⟨k, v⟩, es, hcons⟩ := exists_cons_of_ne_nil he
    have hmem : (nibblesOf k, v) ∈ (hexMapOf m).entries := find_eq_some.mp
      (find_hexMapOf.mpr ⟨k, rfl, find_eq_some.mpr (by rw [hcons]; exact mem_cons_self)⟩)
    have hlong : 2 * len ≤ longestKey (hexMapOf m) := by
      have hk : lookup t (nibblesOf k) = some v := by
        rw [hhex] at hmem
        exact mem_entries.mp hmem
      rw [← ht.shape.length_of_lookup hk]
      exact (le_foldl_max (f := fun e : List Nibble × Bytes => e.1.length)).2 _ hmem
    have hturns : 2 * len < longestKey (hexMapOf m) + 2 := by omega
    have hnil : (entries t).map (behind []) = (hexMapOf m).entries := by
      rw [hhex]
      exact map_id _
    have hrlp : hash256rlp sha3 (longestKey (hexMapOf m) + 2) (hexMapOf m).entries 0 =
        .ok (encodeTrie sha3 t) := by
      rw [← hnil]
      exact hash256rlp_encodeTrie (p := []) ht.shape (by rw [length_nil]; omega) hturns
    rw [if_neg he, hrlp]
    rfl

lemma Represents.trieRoot_eq (h : Represents sha3 len db root m) : trieRoot db root = .ok root := by
  obtain ⟨t, ht, -⟩ := h
  rw [trieRoot, if_neg]
  rw [ht.node]
  exact ht.nonempty

end Roots

/-- **The root is canonical.**  As long as no two records collide, the root after a run is the hash
    of the finite map after the run. -/
theorem trieRun_root (sha3 : Bytes → Uint256) (len : ℕ) (hlen : len < 2 ^ 30) (ops : List TrieOp)
    (hl : ∀ op ∈ ops, op.Legal len) (hf : ∀ op ∈ ops, op.Fits) (db : OverlayDB) :
    Yields (trieRun sha3 ops) db fun root db' =>
      trieRoot db' root = hash256 sha3 (finalMap ops) ∧ hash256 sha3 (finalMap ops) = .ok root :=
  (trieRun_represents hlen hl hf db).weaken fun _ _ h _ =>
    ⟨h.trieRoot_eq.trans (h.hash256_eq hlen).symm, h.hash256_eq hlen⟩

theorem trieRun_root_three : ∃ root db', trieRun digitsHash threeChanges emptyStore = .ok root db' ∧
    trieRoot db' root = hash256 digitsHash (finalMap threeChanges) ∧
      hash256 digitsHash (finalMap threeChanges) = .ok root :=
  trieRun_root digitsHash 2 (by decide) _ threeChanges_legal threeChanges_fits emptyStore
    threeChanges_noCollision

end Ybtc
