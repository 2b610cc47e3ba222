import Ybtc.Core.Stateful

/-!
# Counting the steps of a computation

To bound how often a computation does something, it is written once more with a counter next to its
state: steps of interest are marked with `tick`, all others are taken over with `onFst`.

Both follow the shape of the computation.
-/

namespace Stateful

variable {ε σ α β : Type}

open EStateM (Result)

/-- A step that counts. -/
def tick (x : EStateM ε σ α) : EStateM ε (σ × ℕ) α := fun p => onFst x (p.1, p.2 + 1)

/-- The outcome without the counter. -/
def forget : Result ε (σ × ℕ) α → Result ε σ α
  | .ok a p => .ok a p.1
  | .error e p => .error e p.1

/-- **The counting computation is the original one, with a counter.** -/
def Refines (counting : EStateM ε (σ × ℕ) α) (x : EStateM ε σ α) : Prop :=
  ∀ p, forget (counting p) = x p.1

/-- **The counter grows by at most `k`.** -/
def Costs (k : ℕ) (counting : EStateM ε (σ × ℕ) α) : Prop :=
  ∀ p, (stateAfter (counting p)).2 ≤ p.2 + k

/-! ## Refinement -/

variable {c : EStateM ε (σ × ℕ) α} {x : EStateM ε σ α} {d : α → EStateM ε (σ × ℕ) β} {k : ℕ}

lemma Refines.onFst (x : EStateM ε σ α) : Refines (onFst x) x := by
  intro p
  unfold Stateful.onFst
  cases x p.1 <;> rfl

lemma Refines.tick (x : EStateM ε σ α) : Refines (tick x) x := fun p => Refines.onFst x (p.1, _)

lemma Refines.pure (a : α) : Refines (Pure.pure a) (Pure.pure a : EStateM ε σ α) := fun _ => rfl

lemma Refines.bind {f : α → EStateM ε σ β} (hx : Refines c x) (hf : ∀ a, Refines (d a) (f a)) :
    Refines (c >>= d) (x >>= f) := by
  intro p
  have h := hx p
  rw [bind_apply, bind_apply, ← h]
  cases c p with
  | ok a p' => exact hf a p'
  | error e p' => rfl

lemma Refines.ite {cond : Prop} [Decidable cond] {d : EStateM ε (σ × ℕ) α} {y : EStateM ε σ α}
    (hx : Refines c x) (hy : Refines d y) :
    Refines (if cond then c else d) (if cond then x else y) := by
  split_ifs
  · exact hx
  · exact hy

/-! ## Cost -/

lemma Costs.mono {m : ℕ} (h : Costs k c) (hkm : k ≤ m) : Costs m c :=
  fun p => (h p).trans (Nat.add_le_add_left hkm _)

lemma Costs.onFst (x : EStateM ε σ α) : Costs 0 (onFst x) := fun p => by simp

lemma Costs.tick (x : EStateM ε σ α) : Costs 1 (tick x) := fun p => by simp [Stateful.tick]

lemma Costs.pure (a : α) : Costs 0 (Pure.pure a : EStateM ε (σ × ℕ) α) := fun _ => le_refl _

lemma Costs.bind {m : ℕ} (hc : Costs k c) (hd : ∀ a, Costs m (d a)) : Costs (k + m) (c >>= d) := by
  intro p
  have h := hc p
  rw [bind_apply]
  cases hp : c p with
  | ok a p' =>
    rw [hp, stateAfter_ok] at h
    have h' := hd a p'
    dsimp only
    omega
  | error e p' =>
    rw [hp, stateAfter_error] at h
    dsimp only [stateAfter_error]
    omega

/-- **Sequencing** before steps that do not count. -/
lemma Costs.bind_free (hc : Costs k c) (hd : ∀ a, Costs 0 (d a)) : Costs k (c >>= d) := hc.bind hd

/-- **Sequencing** behind a step that does not count, when its value has a property. -/
lemma Costs.onFst_bind {P : α → Prop} (hx : ∀ s a s', x s = .ok a s' → P a)
    (hd : ∀ a, P a → Costs k (d a)) : Costs k (Stateful.onFst x >>= d) := by
  intro p
  rw [bind_apply]
  unfold Stateful.onFst
  cases hp : x p.1 with
  | ok a s' => exact hd a (hx _ _ _ hp) (s', p.2)
  | error e s' => exact Nat.le_add_right _ _

/-- **Sequencing** behind a step that does not count. -/
lemma Costs.free_bind (hd : ∀ a, Costs k (d a)) : Costs k (Stateful.onFst x >>= d) :=
  Costs.onFst_bind (P := fun _ => True) (fun _ _ _ _ => trivial) fun a _ => hd a

lemma Costs.ite {cond : Prop} [Decidable cond] {d : EStateM ε (σ × ℕ) α} (hc : cond → Costs k c)
    (hd : ¬ cond → Costs k d) : Costs k (if cond then c else d) := by
  split_ifs with h
  · exact hc h
  · exact hd h

end Stateful
