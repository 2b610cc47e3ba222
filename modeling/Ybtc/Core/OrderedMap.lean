import Mathlib.Data.List.Lex
import Mathlib.Data.List.Sort
import Mathlib.Tactic

/-!
# Maps in the order of their keys

A `std::map` keeps its entries in the order of the keys, and loops over it meet them in that order.
-/

/-- A map whose entries are in the order of their keys. -/
structure OrderedMap (K V : Type) [LinearOrder K] where
  entries : List (K × V)
  sorted : entries.Pairwise fun a b => a.1 < b.1

namespace OrderedMap

open List

variable {K V : Type} [LinearOrder K]

variable (m : OrderedMap K V)

/-- The value under a key. -/
def find (k : K) : Option V := (m.entries.find? fun e => e.1 = k).map Prod.snd

/-- The map without an entry. -/
def empty : OrderedMap K V := ⟨[], List.Pairwise.nil⟩

/-- `m[k] = v`: the new entry stands between the smaller and the greater keys. -/
def insert (k : K) (v : V) : OrderedMap K V where
  entries := m.entries.filter (fun e => e.1 < k) ++ (k, v) :: m.entries.filter fun e => k < e.1
  sorted := by
    refine pairwise_append.mpr ⟨m.sorted.filter _, pairwise_cons.mpr
      ⟨fun e he => by simpa using (mem_filter.mp he).2, m.sorted.filter _⟩, fun a ha b hb => ?_⟩
    have hak : a.1 < k := by simpa using (mem_filter.mp ha).2
    rcases mem_cons.mp hb with rfl | hb
    · exact hak
    · exact hak.trans (by simpa using (mem_filter.mp hb).2)

/-- `m.erase(k)`. -/
def erase (k : K) : OrderedMap K V where
  entries := m.entries.filter fun e => e.1 ≠ k
  sorted := m.sorted.filter _

/-! ## What is found -/

variable {m : OrderedMap K V} {k : K} {v : V}

/-- Entries with one key are the same. -/
lemma eq_of_mem {w : V} (hv : (k, v) ∈ m.entries) (hw : (k, w) ∈ m.entries) : v = w := by
  have hn : (m.entries.map Prod.fst).Nodup := pairwise_map.mpr (m.sorted.imp LT.lt.ne)
  exact (Prod.ext_iff.mp (inj_on_of_nodup_map hn hv hw rfl)).2

/-- **The entries are what is found.** -/
lemma find_eq_some : m.find k = some v ↔ (k, v) ∈ m.entries := by
  constructor
  · intro h
    obtain ⟨e, he, rfl⟩ := Option.map_eq_some_iff.mp h
    obtain rfl : e.1 = k := by simpa using find?_some he
    exact mem_of_find?_eq_some he
  · intro h
    have hsome : (m.entries.find? fun e => e.1 = k).isSome := find?_isSome.mpr ⟨(k, v), h, by simp⟩
    obtain ⟨⟨k', w⟩, he⟩ := Option.isSome_iff_exists.mp hsome
    obtain rfl : k' = k := by simpa using find?_some he
    rw [find, he, Option.map_some, eq_of_mem (mem_of_find?_eq_some he) h]

lemma find_empty (k : K) : (empty : OrderedMap K V).find k = none := rfl

lemma mem_insert {k' : K} {w : V} :
    (k', w) ∈ (m.insert k v).entries ↔ k' = k ∧ w = v ∨ k' ≠ k ∧ (k', w) ∈ m.entries := by
  simp only [insert, mem_append, mem_cons, mem_filter, decide_eq_true_eq, Prod.mk.injEq]
  constructor
  · rintro (⟨hm, hlt⟩ | ⟨rfl, rfl⟩ | ⟨hm, hlt⟩)
    · exact .inr ⟨hlt.ne, hm⟩
    · exact .inl ⟨rfl, rfl⟩
    · exact .inr ⟨hlt.ne', hm⟩
  · rintro (⟨rfl, rfl⟩ | ⟨hne, hm⟩)
    · exact .inr (.inl ⟨rfl, rfl⟩)
    · rcases lt_or_gt_of_ne hne with hlt | hgt
      · exact .inl ⟨hm, hlt⟩
      · exact .inr (.inr ⟨hm, hgt⟩)

/-- **Insertion.** -/
lemma find_insert (k : K) (v : V) (k' : K) :
    (m.insert k v).find k' = if k' = k then some v else m.find k' := by
  refine Option.ext fun w => ?_
  rw [find_eq_some, mem_insert]
  split_ifs with h
  · simp [h, eq_comm]
  · simp [h, find_eq_some]

/-- **Removal.** -/
lemma find_erase (k k' : K) : (m.erase k).find k' = if k' = k then none else m.find k' := by
  refine Option.ext fun w => ?_
  rw [find_eq_some, erase, mem_filter]
  split_ifs with h
  · simp [h]
  · simp [h, find_eq_some]

/-- Lists in strictly increasing order with the same entries are the same. -/
lemma eq_of_sorted {l l' : List (K × V)} (h : l.Pairwise fun a b => a.1 < b.1)
    (h' : l'.Pairwise fun a b => a.1 < b.1) (hmem : ∀ e, e ∈ l ↔ e ∈ l') : l = l' := by
  have hnodup : ∀ {l : List (K × V)}, (l.Pairwise fun a b => a.1 < b.1) → l.Nodup :=
    fun h => h.imp fun hlt heq => hlt.ne (congrArg Prod.fst heq)
  refine List.Perm.eq_of_pairwise (fun a b _ _ hab hba => absurd hba hab.asymm) h h' ?_
  exact (perm_ext_iff_of_nodup (hnodup h) (hnodup h')).mpr hmem

/-- **A map is determined by what is found in it.** -/
lemma ext_find {m' : OrderedMap K V} (h : ∀ k, m.find k = m'.find k) : m = m' := by
  have he : m.entries = m'.entries := eq_of_sorted m.sorted m'.sorted fun ⟨k, v⟩ => by
    rw [← find_eq_some, ← find_eq_some, h k]
  cases m
  cases m'
  congr

end OrderedMap
