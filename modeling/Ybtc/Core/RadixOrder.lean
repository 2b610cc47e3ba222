import Ybtc.Core.OrderedMap
import Ybtc.Core.RadixTrie

/-!
# The entries of a radix tree, in order

Where the digits are ordered, a radix tree holds its keys in lexicographic order: below a branch the
children follow one another by their digits.
-/

namespace RadixTrie

open List

variable {b : ℕ} {V : Type}

/-- An entry behind the digits `p`. -/
def behind (p : List (Fin b)) (e : List (Fin b) × V) : List (Fin b) × V := (p ++ e.1, e.2)

/-- The entries of a tree, from left to right. -/
def entries : Trie (Fin b) V → List (List (Fin b) × V)
  | .empty => []
  | .leaf k v => [(k, v)]
  | .ext k t => (entries t).map (behind k)
  | .branch cs => (List.finRange b).flatMap fun d => (entries (cs d)).map (behind [d])

variable {p k k' : List (Fin b)}

lemma behind_behind (p q : List (Fin b)) (e : List (Fin b) × V) :
    behind p (behind q e) = behind (p ++ q) e := by
  rw [behind, behind, behind, append_assoc]

lemma mem_map_behind {key : List (Fin b)} {v : V} {l : List (List (Fin b) × V)} :
    (key, v) ∈ l.map (behind p) ↔ ∃ rest, key = p ++ rest ∧ (rest, v) ∈ l := by
  constructor
  · intro h
    obtain ⟨⟨rest, w⟩, he, heq⟩ := mem_map.mp h
    cases heq
    exact ⟨rest, rfl, he⟩
  · rintro ⟨rest, rfl, he⟩
    exact mem_map.mpr ⟨(rest, v), he, rfl⟩

/-- **The entries are what is found.** -/
lemma mem_entries : ∀ {t : Trie (Fin b) V} {key : List (Fin b)} {v : V},
    (key, v) ∈ entries t ↔ lookup t key = some v
  | .empty, key, v => by simp [entries, lookup]
  | .leaf k w, key, v => by
    rw [entries, lookup, mem_singleton, Prod.mk.injEq]
    split_ifs with h
    · simp [h, eq_comm]
    · simp [h]
  | .ext k t, key, v => by
    rw [entries, mem_map_behind, lookup_ext]
    constructor
    · rintro ⟨rest, rfl, he⟩
      rw [under_append_left]
      exact mem_entries.mp he
    · intro h
      by_cases hk : k <+: key
      · obtain ⟨rest, rfl⟩ := hk
        rw [under_append_left] at h
        exact ⟨rest, rfl, mem_entries.mpr h⟩
      · rw [under_of_not_below _ hk] at h
        cases h
  | .branch cs, [], v => by
    simp [entries, lookup, mem_map_behind]
  | .branch cs, d :: rest, v => by
    rw [entries, lookup, mem_flatMap]
    constructor
    · rintro ⟨d', -, he⟩
      obtain ⟨rest', heq, he⟩ := mem_map_behind.mp he
      obtain ⟨rfl, rfl⟩ := List.cons.inj heq
      exact mem_entries.mp he
    · intro h
      exact ⟨d, mem_finRange d, mem_map_behind.mpr ⟨rest, rfl, mem_entries.mpr h⟩⟩

lemma append_lt_append_iff : p ++ k < p ++ k' ↔ k < k' := by
  induction p with
  | nil => rfl
  | cons d p ih => rw [cons_append, cons_append, cons_lt_cons_iff, ih]; simp

lemma append_le_append_iff : p ++ k ≤ p ++ k' ↔ k ≤ k' := by
  rw [← not_lt, ← not_lt, append_lt_append_iff]

lemma cons_le_cons_iff {a a' : Fin b} : a :: k ≤ a' :: k' ↔ a < a' ∨ a = a' ∧ k ≤ k' := by
  rw [← not_lt, List.not_lt, List.cons_le_cons_iff, ← List.not_lt, not_lt]

lemma nil_le (k : List (Fin b)) : [] ≤ k := not_lt.mp (not_lt_nil k)

/-- A key before another one is before all that go on from it. -/
lemma lt_append_of_lt (h : k < k') (r : List (Fin b)) : k < k' ++ r :=
  lt_of_lt_of_le h (not_lt.mp (List.not_lt.mpr le_append_left))

/-- A key before another one, which does not go on from it, is before it with all that go on. -/
lemma append_lt_of_lt : ∀ {k k' : List (Fin b)}, k < k' → ¬ k <+: k' → ∀ r, k ++ r < k'
  | [], _, _, hp, _ => absurd nil_prefix hp
  | a :: k, [], h, _, _ => absurd h (not_lt_nil _)
  | a :: k, a' :: k', h, hp, r => by
    rw [cons_append, cons_lt_cons_iff]
    rcases cons_lt_cons_iff.mp h with hlt | ⟨rfl, hk⟩
    · exact Or.inl hlt
    · exact Or.inr ⟨rfl, append_lt_of_lt hk (fun hp' => hp (cons_prefix_cons.mpr ⟨rfl, hp'⟩)) r⟩

/-- **The keys increase.** -/
lemma entries_sorted : ∀ t : Trie (Fin b) V, (entries t).Pairwise fun e e' => e.1 < e'.1
  | .empty => List.Pairwise.nil
  | .leaf k v => pairwise_singleton _ _
  | .ext k t => pairwise_map.mpr ((entries_sorted t).imp append_lt_append_iff.mpr)
  | .branch cs => by
    refine pairwise_flatMap.mpr ⟨fun d _ => ?_, ?_⟩
    · exact pairwise_map.mpr ((entries_sorted (cs d)).imp append_lt_append_iff.mpr)
    · refine (pairwise_lt_finRange b).imp fun {d d'} hlt e he e' he' => ?_
      obtain ⟨r, -, rfl⟩ := mem_map.mp he
      obtain ⟨r', -, rfl⟩ := mem_map.mp he'
      exact cons_lt_cons_iff.mpr (Or.inl hlt)

/-- The tree as an ordered map. -/
def contents (t : Trie (Fin b) V) : OrderedMap (List (Fin b)) V := ⟨entries t, entries_sorted t⟩

lemma find_contents (t : Trie (Fin b) V) (key : List (Fin b)) :
    (contents t).find key = lookup t key :=
  Option.ext fun _ => OrderedMap.find_eq_some.trans mem_entries

variable {cs : Fin b → Trie (Fin b) V}

/-- The entries of a branch begin with the digits of its children. -/
lemma mem_entries_branch {e : List (Fin b) × V}
    (he : e ∈ entries (.branch cs)) : ∃ d r, e.1 = d :: r ∧ (r, e.2) ∈ entries (cs d) := by
  rw [entries, mem_flatMap] at he
  obtain ⟨d, -, he⟩ := he
  obtain ⟨r, hr, he⟩ := mem_map_behind.mp he
  exact ⟨d, r, hr, he⟩

section Shapes

variable {ok : V → Prop}

/-- A tree that is there has an entry. -/
lemma Shape.exists_entry : ∀ {t : Trie (Fin b) V} {n : ℕ}, Shape ok t n → t ≠ .empty →
    ∃ e, e ∈ entries t
  | .empty, _, _, h => absurd rfl h
  | .leaf k v, _, _, _ => ⟨(k, v), mem_singleton_self _⟩
  | .ext k t, _, hs, _ => by
    obtain ⟨-, ht, m, -, hst⟩ := hs
    obtain ⟨e, he⟩ := hst.exists_entry (by rintro rfl; exact ht)
    exact ⟨behind k e, mem_map_of_mem he⟩
  | .branch cs, _, hs, _ => by
    obtain ⟨⟨a, -, -, ha, -⟩, m, -, hcs⟩ := hs
    obtain ⟨e, he⟩ := (hcs a).exists_entry ha
    exact ⟨behind [a] e, mem_flatMap.mpr ⟨a, mem_finRange a, mem_map_of_mem he⟩⟩

/-- **A branch has two entries that part at once**, the first one and a later one. -/
lemma Shape.entries_branch {n : ℕ} (hs : Shape ok (.branch cs) n) :
    ∃ d r v e es, entries (.branch cs) = (d :: r, v) :: e :: es ∧
      ∃ e' ∈ e :: es, ∃ d' r', e'.1 = d' :: r' ∧ d ≠ d' := by
  obtain ⟨⟨a, c, hac, ha, hc⟩, m, -, hcs⟩ := hs
  have hmem : ∀ {d}, cs d ≠ .empty → ∃ r v, (d :: r, v) ∈ entries (.branch cs) := by
    intro d hd
    obtain ⟨⟨r, v⟩, he⟩ := (hcs d).exists_entry hd
    exact ⟨r, v, mem_flatMap.mpr ⟨d, mem_finRange d, mem_map_behind.mpr ⟨r, rfl, he⟩⟩⟩
  obtain ⟨ra, va, hma⟩ := hmem ha
  obtain ⟨rc, vc, hmc⟩ := hmem hc
  obtain ⟨e0, l, hl⟩ := exists_cons_of_ne_nil (ne_nil_of_mem hma)
  have hfirst : e0 ∈ entries (.branch cs) := by rw [hl]; exact mem_cons_self
  obtain ⟨d, r, hd, -⟩ := mem_entries_branch hfirst
  -- One of the two children is not the first one.
  obtain ⟨d', r', v', hne, hm'⟩ : ∃ d' r' v', d ≠ d' ∧ (d' :: r', v') ∈ l := by
    rw [hl] at hma hmc
    by_cases had : d = a
    · refine ⟨c, rc, vc, fun h => hac (had.symm.trans h), ?_⟩
      refine (mem_cons.mp hmc).resolve_left fun h => ?_
      rw [← h] at hd
      exact hac (had.symm.trans (List.cons.inj hd).1.symm)
    · refine ⟨a, ra, va, had, (mem_cons.mp hma).resolve_left fun h => ?_⟩
      rw [← h] at hd
      exact had (List.cons.inj hd).1.symm
  obtain ⟨e, es, rfl⟩ := exists_cons_of_ne_nil (ne_nil_of_mem hm')
  exact ⟨d, r, e0.2, e, es, by rw [hl, ← hd], _, hm', d', r', rfl, hne⟩

end Shapes

section Shapes

variable {D : Type} [DecidableEq D] {ok : V → Prop}

/-- What is found has a key of the tree's length. -/
lemma Shape.length_of_lookup : ∀ {t : Trie D V} {n : ℕ} {key : List D} {v : V}, Shape ok t n →
    lookup t key = some v → key.length = n
  | .empty, _, _, _, _, h => by cases h
  | .leaf k w, _, key, v, hs, h => by
    rw [lookup] at h
    split_ifs at h with hk
    rw [hk, hs.1]
  | .ext k t, n, key, v, hs, h => by
    obtain ⟨-, -, m, rfl, hst⟩ := hs
    rw [lookup_ext] at h
    by_cases hk : k <+: key
    · obtain ⟨rest, rfl⟩ := hk
      rw [under_append_left] at h
      rw [length_append, Shape.length_of_lookup hst h]
    · rw [under_of_not_below _ hk] at h
      cases h
  | .branch cs, n, [], v, hs, h => by cases h
  | .branch cs, n, d :: rest, v, hs, h => by
    obtain ⟨-, m, rfl, hcs⟩ := hs
    rw [length_cons, Shape.length_of_lookup (hcs d) h]

end Shapes

end RadixTrie
