import Mathlib

/-!
# Worklists

A walk along the edges of a graph keeps two lists: the nodes it is done with, and a stage of nodes
it still has to visit.  Every turn moves one node from the stage to the nodes that are done, and
stages its neighbours, unless they are in one of the lists already.  The main result is `walk_spec`.
-/

namespace Worklist

open List

open Relation (ReflTransGen TransGen)

variable {α : Type} [DecidableEq α]

/-- The neighbours that are new go to the stage. -/
def stageAll (done neighbours stage : List α) : List α :=
  neighbours.foldl (fun st c => if c ∈ done then st else st.insert c) stage

/-- The walk. -/
def walk (next : α → List α) : ℕ → List α → List α → Option (List α)
  | _, done, [] => some done
  | 0, _, _ :: _ => none
  | fuel + 1, done, x :: stage =>
    walk next fuel (x :: done) (stageAll (x :: done) (next x) stage)

/-- One edge. -/
def Edge (next : α → List α) (a b : α) : Prop := b ∈ next a

lemma mem_stageAll {done neighbours stage : List α} {c : α} :
    c ∈ stageAll done neighbours stage ↔ c ∈ stage ∨ c ∈ neighbours ∧ c ∉ done := by
  induction neighbours generalizing stage with
  | nil => simp [stageAll]
  | cons n ns ih =>
    simp only [stageAll, foldl_cons] at ih ⊢
    rw [ih]
    split_ifs with hn
    · simp only [mem_cons]
      grind
    · simp only [mem_insert_iff, mem_cons]
      grind

lemma stageAll_nodup {done neighbours stage : List α} (h : stage.Nodup) :
    (stageAll done neighbours stage).Nodup := by
  induction neighbours generalizing stage with
  | nil => exact h
  | cons n ns ih =>
    simp only [stageAll, foldl_cons] at ih ⊢
    split_ifs
    · exact ih h
    · exact ih h.insert

/-- **The invariant of a walk** in the nodes `V`: no node is in the lists twice, and every neighbour
    of a node that is done is in one of them. -/
structure Front (next : α → List α) (V done stage : List α) : Prop where
  nodup : (done ++ stage).Nodup
  inside : ∀ x ∈ done ++ stage, x ∈ V
  closed : ∀ x ∈ done, ∀ c ∈ next x, c ∈ done ∨ c ∈ stage

variable {next : α → List α} {V done stage : List α} {x : α}

omit [DecidableEq α] in
lemma Front.length_le (h : Front next V done stage) : done.length + stage.length ≤ V.length := by
  rw [← length_append]
  exact (subperm_of_subset h.nodup h.inside).length_le

/-- One turn. -/
lemma Front.step (h : Front next V done (x :: stage)) (hx : ∀ c ∈ next x, c ∈ V) :
    Front next V (x :: done) (stageAll (x :: done) (next x) stage) := by
  obtain ⟨hdone, hstage, hdisjoint⟩ := nodup_append.mp h.nodup
  obtain ⟨hxstage, hstage⟩ := nodup_cons.mp hstage
  have hxdone : x ∉ done := fun hxd => hdisjoint x hxd x mem_cons_self rfl
  refine ⟨?_, ?_, ?_⟩
  · rw [nodup_append]
    refine ⟨nodup_cons.mpr ⟨hxdone, hdone⟩, stageAll_nodup hstage, ?_⟩
    rintro a ha b hb rfl
    rcases mem_stageAll.mp hb with hmem | ⟨-, hnot⟩
    · rcases mem_cons.mp ha with rfl | hadone
      · exact hxstage hmem
      · exact hdisjoint a hadone a (mem_cons_of_mem x hmem) rfl
    · exact hnot ha
  · intro a ha
    rcases mem_append.mp ha with ha | ha
    · refine h.inside a ?_
      rcases mem_cons.mp ha with rfl | ha
      · simp
      · simp [ha]
    · rcases mem_stageAll.mp ha with ha | ⟨ha, -⟩
      · exact h.inside a (by simp [ha])
      · exact hx a ha
  · intro a ha c hc
    by_cases hcd : c ∈ x :: done
    · exact Or.inl hcd
    · right
      rw [mem_stageAll]
      rcases mem_cons.mp ha with rfl | ha
      · exact Or.inr ⟨hc, hcd⟩
      · rcases h.closed a ha c hc with hc' | hc'
        · exact absurd (mem_cons_of_mem x hc') hcd
        · rcases mem_cons.mp hc' with rfl | hc'
          · exact absurd mem_cons_self hcd
          · exact Or.inl hc'

omit [DecidableEq α] in
/-- What can be reached from a node that is done was found, or can be reached from the stage. -/
lemma Front.reach (h : Front next V done stage) {a y : α} (ha : a ∈ done)
    (hy : ReflTransGen (Edge next) a y) : y ∈ done ∨ ∃ z ∈ stage, ReflTransGen (Edge next) z y := by
  induction hy using ReflTransGen.head_induction_on with
  | refl => exact Or.inl ha
  | @head b c hbc hcy ih =>
    rcases h.closed b ha c hbc with hc | hc
    · exact ih hc
    · exact Or.inr ⟨c, hc, hcy⟩

/-- **The walk ends and finds what can be reached.** -/
theorem walk_spec (fuel : ℕ) (hV : ∀ x ∈ V, ∀ c ∈ next x, c ∈ V) {done stage : List α}
    (h : Front next V done stage) (hfuel : V.length ≤ fuel + done.length) :
    ∃ found, walk next fuel done stage = some found ∧ found.Nodup ∧
      ∀ y, y ∈ found ↔ y ∈ done ∨ ∃ x ∈ stage, ReflTransGen (Edge next) x y := by
  induction fuel generalizing done stage with
  | zero =>
    have hlen := h.length_le
    obtain rfl : stage = [] := length_eq_zero_iff.mp (by omega)
    exact ⟨done, by rw [walk], by simpa using h.nodup, by simp⟩
  | succ fuel ih =>
    cases stage with
    | nil => exact ⟨done, by rw [walk], by simpa using h.nodup, by simp⟩
    | cons x stage =>
      have hxV : x ∈ V := h.inside x (by simp)
      have hstep := h.step (hV x hxV)
      obtain ⟨found, hwalk, hnodup, hfound⟩ := ih hstep (by rw [length_cons]; omega)
      refine ⟨found, by rw [walk, hwalk], hnodup, fun y => ?_⟩
      rw [hfound]
      constructor
      · rintro (hy | ⟨z, hz, hzy⟩)
        · rcases mem_cons.mp hy with rfl | hy
          · exact Or.inr ⟨y, mem_cons_self, .refl⟩
          · exact Or.inl hy
        · rcases mem_stageAll.mp hz with hz | ⟨hz, -⟩
          · exact Or.inr ⟨z, mem_cons_of_mem x hz, hzy⟩
          · exact Or.inr ⟨x, mem_cons_self, .head hz hzy⟩
      · rintro (hy | ⟨z, hz, hzy⟩)
        · exact Or.inl (mem_cons_of_mem x hy)
        · rcases mem_cons.mp hz with rfl | hz
          · exact hstep.reach mem_cons_self hzy
          · exact Or.inr ⟨z, mem_stageAll.mpr (Or.inl hz), hzy⟩

end Worklist
