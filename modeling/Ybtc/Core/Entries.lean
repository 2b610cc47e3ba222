import Mathlib

/-!
# Lists of entries

What the proofs need of lists that stand for tables and for sorted views of them.
-/

namespace Entries

open List

variable {α K : Type} {key : α → K}

/-! ## Keys -/

variable {l : List α}

/-- **A search by key** finds the one entry that has it, where no key occurs twice. -/
lemma find?_key [BEq K] [LawfulBEq K] (hn : (l.map key).Nodup) {x : α} (hx : x ∈ l) :
    (l.find? fun y => key y == key x) = some x := by
  cases hf : l.find? fun y => key y == key x with
  | none =>
    have hno := find?_eq_none.mp hf x hx
    simp at hno
  | some y =>
    have hkey : key y = key x := by simpa using find?_some hf
    rw [inj_on_of_nodup_map hn (mem_of_find?_eq_some hf) hx hkey]

lemma find?_key_none [BEq K] [LawfulBEq K] {k : K} (hk : k ∉ l.map key) :
    (l.find? fun y => key y == k) = none := by
  rw [find?_eq_none]
  intro y hy heq
  exact hk (mem_map.mpr ⟨y, hy, by simpa using heq⟩)

/-! ## Sorting by a strict order -/

section Sorting

variable {r : α → α → Prop} [DecidableRel r]

lemma pairwise_orderedInsert_strict (hasymm : ∀ a b, r a b → ¬ r b a)
    (htrans : ∀ a b c, r a b → r b c → r a c) (x : α)
    (h : l.Pairwise fun a b => ¬ r b a) : (l.orderedInsert r x).Pairwise fun a b => ¬ r b a := by
  induction l with
  | nil => simp
  | cons b l ih =>
    obtain ⟨hb, hl⟩ := pairwise_cons.mp h
    by_cases hxb : r x b
    · rw [orderedInsert_cons_of_le r l hxb, pairwise_cons]
      refine ⟨?_, h⟩
      intro y hy hyx
      rcases mem_cons.mp hy with rfl | hyl
      · exact hasymm x y hxb hyx
      · exact hb y hyl (htrans y x b hyx hxb)
    · rw [orderedInsert_of_not_le r l hxb, pairwise_cons]
      refine ⟨?_, ih hl⟩
      intro y hy
      rcases (mem_orderedInsert r).mp hy with rfl | hyl
      · exact hxb
      · exact hb y hyl

/-- **Sorting by a strict order**: what comes later is not smaller. -/
lemma pairwise_insertionSort_strict (hasymm : ∀ a b, r a b → ¬ r b a)
    (htrans : ∀ a b c, r a b → r b c → r a c) (l : List α) :
    (l.insertionSort r).Pairwise fun a b => ¬ r b a := by
  induction l with
  | nil => simp
  | cons x l ih => exact pairwise_orderedInsert_strict hasymm htrans x ih

end Sorting

end Entries
