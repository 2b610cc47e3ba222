import Mathlib.Data.Finmap
import Ybtc.Core.Fallible

/-!
# Loops over the entries of a finite map

A hash table is iterated in an order nobody promises.  A loop over its entries has a definite result
all the same when each turn touches only the key of its own entry.
-/

namespace Keyed

open List

variable {K X Y ε : Type} [DecidableEq K]

/-! ## Enumerations -/

/-- The list holds exactly the entries of the map. -/
def Enumerates (l : List (Σ _ : K, Y)) (m : Finmap fun _ : K => Y) : Prop :=
  (l : Multiset (Σ _ : K, Y)) = m.entries

namespace Enumerates

variable {l : List (Σ _ : K, Y)} {m : Finmap fun _ : K => Y}

omit [DecidableEq K] in
lemma nodup (h : Enumerates l m) : (l.map Sigma.fst).Nodup := by
  have hn := m.nodupKeys
  rw [← h, Multiset.coe_nodupKeys] at hn
  exact hn

lemma mem_iff (h : Enumerates l m) {k : K} {y : Y} :
    (⟨k, y⟩ : Σ _ : K, Y) ∈ l ↔ m.lookup k = some y := by
  rw [show m.lookup k = some y ↔ _ from Finmap.lookup_eq_some_iff, ← h, Multiset.mem_coe]

end Enumerates

/-! ## The loop -/

/-- What the turn for an entry does to a map: the value at the entry's key becomes `write` of what
    it was, and all other keys are left alone. -/
structure Writes (write : Option X → Y → Option X) (e : Σ _ : K, Y)
    (m m' : Finmap fun _ : K => X) : Prop where
  self : m'.lookup e.1 = write (m.lookup e.1) e.2
  other : ∀ k, k ≠ e.1 → m'.lookup k = m.lookup k

/-- What the whole loop does. -/
structure WritesAll (write : Option X → Y → Option X) (l : List (Σ _ : K, Y))
    (m m' : Finmap fun _ : K => X) : Prop where
  self : ∀ e ∈ l, m'.lookup e.1 = write (m.lookup e.1) e.2
  other : ∀ k, k ∉ l.map Sigma.fst → m'.lookup k = m.lookup k

variable {write : Option X → Y → Option X} {Pre : Option X → Y → Prop} {c : Finmap fun _ : K => Y}
  {l : List (Σ _ : K, Y)} {k : K}

lemma WritesAll.lookup_of_some {m m' : Finmap fun _ : K => X} (h : WritesAll write l m m')
    (hl : Enumerates l c) {y : Y} (hk : c.lookup k = some y) : m'.lookup k = write (m.lookup k) y :=
  h.self ⟨k, y⟩ (hl.mem_iff.mpr hk)

lemma WritesAll.lookup_of_none {m m' : Finmap fun _ : K => X} (h : WritesAll write l m m')
    (hl : Enumerates l c) (hk : c.lookup k = none) : m'.lookup k = m.lookup k := by
  refine h.other k fun hm => ?_
  obtain ⟨⟨k', y⟩, he, rfl⟩ := mem_map.mp hm
  rw [hl.mem_iff.mp he] at hk
  cases hk

/-- **A loop over entries with distinct keys.**  If a turn succeeds whenever `Pre` holds of what the
    map has at its key, and `Pre` holds of all entries at the start, then the loop succeeds. -/
lemma foldlM_keyed
    {step : (Finmap fun _ : K => X) → (Σ _ : K, Y) → Except ε (Finmap fun _ : K => X)}
    (hstep : ∀ m e, Pre (m.lookup e.1) e.2 → ∃ m', step m e = .ok m' ∧ Writes write e m m') :
    ∀ (l : List (Σ _ : K, Y)) (m : Finmap fun _ : K => X), (l.map Sigma.fst).Nodup →
      (∀ e ∈ l, Pre (m.lookup e.1) e.2) →
      ∃ m', l.foldlM step m = .ok m' ∧ WritesAll write l m m' := by
  intro l
  induction l with
  | nil => exact fun m _ _ => ⟨m, rfl, by simp, fun _ _ => rfl⟩
  | cons e l ih =>
    intro m hn hpre
    rw [map_cons, nodup_cons] at hn
    obtain ⟨m1, hm1, hw⟩ := hstep m e (hpre e mem_cons_self)
    -- The other entries have other keys, so the first turn has not touched them.
    have hne : ∀ e' ∈ l, e'.1 ≠ e.1 := fun e' he' heq => hn.1 (heq ▸ mem_map_of_mem he')
    obtain ⟨m2, hm2, hself, hother⟩ := ih m1 hn.2 (by
      intro e' he'
      rw [hw.other e'.1 (hne e' he')]
      exact hpre e' (mem_cons_of_mem e he'))
    refine ⟨m2, ?_, ?_, ?_⟩
    · rw [foldlM_cons, hm1]
      exact hm2
    · intro e' he'
      rcases mem_cons.mp he' with rfl | he'
      · rw [hother e'.1 hn.1, hw.self]
      · rw [hself e' he', hw.other e'.1 (hne e' he')]
    · intro k hk
      rw [map_cons, mem_cons, not_or] at hk
      rw [hother k hk.2, hw.other k hk.1]

/-- The same for turns that cannot fail. -/
lemma foldl_keyed {step : (Finmap fun _ : K => X) → (Σ _ : K, Y) → Finmap fun _ : K => X}
    (hstep : ∀ m e, Writes write e m (step m e)) (l : List (Σ _ : K, Y)) (m : Finmap fun _ : K => X)
    (hn : (l.map Sigma.fst).Nodup) : WritesAll write l m (l.foldl step m) := by
  obtain ⟨m', hm', hw⟩ := @foldlM_keyed K X Y Unit _ write (fun _ _ => True)
    (fun m e => .ok (step m e)) (fun m e _ => ⟨_, rfl, hstep m e⟩) l m hn (by simp)
  have : l.foldlM (fun m e => (.ok (step m e) : Except Unit _)) m = .ok (l.foldl step m) :=
    foldlM_pure
  rw [this] at hm'
  injection hm' with hm'
  rw [hm']
  exact hw

end Keyed
