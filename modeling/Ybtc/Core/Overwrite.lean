import Mathlib.Tactic

/-!
# Replaying overwrites

A transformation of a map is an *overwrite* when at each key it either writes a fixed value or
leaves what is there.  Such a transformation can be replayed over its own partial result: where it
writes, it does not matter what was there, and where it does not, before and after are the same.
The main result is `replay_mixture`.
-/

namespace Overwrite

variable {K V ι : Type}

/-- At each key a fixed value is written, or nothing. -/
def Overwrites (T : (K → V) → K → V) : Prop := ∀ k, (∃ x, ∀ f, T f k = x) ∨ ∀ f, T f k = f k

/-- Overwrites compose: the later one wins where it writes. -/
lemma Overwrites.comp {S T : (K → V) → K → V} (hS : Overwrites S) (hT : Overwrites T) :
    Overwrites (S ∘ T) := by
  intro k
  rcases hS k with ⟨x, hx⟩ | hS
  · exact Or.inl ⟨x, fun f => hx (T f)⟩
  · rcases hT k with ⟨x, hx⟩ | hT
    · exact Or.inl ⟨x, fun f => (hS (T f)).trans (hx f)⟩
    · exact Or.inr fun f => (hS (T f)).trans (hT f)

/-- A sequence of overwrites is one. -/
lemma overwrites_foldl {step : (K → V) → ι → K → V} (h : ∀ i, Overwrites fun f => step f i) :
    ∀ l : List ι, Overwrites fun f => l.foldl step f
  | [] => fun _ => Or.inr fun _ => rfl
  | i :: l => (overwrites_foldl h l).comp (h i)

/-- At each key the value from before or the one from after. -/
def Mixture (before after m : K → V) : Prop := ∀ k, m k = before k ∨ m k = after k

/-- **Replaying an overwrite over a mixture of before and after gives after.** -/
lemma replay_mixture {T : (K → V) → K → V} (hT : Overwrites T) {f m : K → V}
    (hm : Mixture f (T f) m) : T m = T f := by
  funext k
  rcases hT k with ⟨x, hx⟩ | hT
  · rw [hx, hx]
  · rcases hm k with h | h
    · rw [hT, hT, h]
    · rw [hT, h]

end Overwrite
