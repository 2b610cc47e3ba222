import Mathlib.Data.List.Basic
import Mathlib.Tactic

/-!
# Computations that may be cut short

General facts about `Except`-valued programs, in the form the proofs about checks and loops use
them: a computation that ended well is taken apart into the facts its checks established.
-/

namespace Fallible

open List

variable {ε α β σ : Type}

variable {f : α → Except ε β} {e : ε} {x : Except ε α} {b : β}

/-- **Sequencing.**  `x >>= f` ends well exactly when `x` does and `f` does on its result. -/
lemma bind_ok : (x >>= f) = .ok b ↔ ∃ a, x = .ok a ∧ f a = .ok b := by
  cases x with
  | error e | ok a => simp [bind, Except.bind]

@[simp] lemma ok_bind (a : α) (f : α → Except ε β) : (Except.ok a >>= f) = f a := rfl

@[simp] lemma error_bind (e : ε) (f : α → Except ε β) : (Except.error e >>= f) = .error e := rfl

/-- A sequence fails where its first or its second part does. -/
lemma bind_error : (x >>= f) = .error e ↔ x = .error e ∨ ∃ a, x = .ok a ∧ f a = .error e := by
  cases x with
  | error e' => simp
  | ok a => simp

/-- Sequencing after a step whose result is ignored. -/
lemma bind_unit_ok {x : Except ε Unit} {f : Unit → Except ε β} :
    (x >>= f) = .ok b ↔ x = .ok () ∧ f () = .ok b := by
  rw [bind_ok]
  constructor
  · rintro ⟨⟨⟩, hx, hf⟩; exact ⟨hx, hf⟩
  · rintro ⟨hx, hf⟩; exact ⟨(), hx, hf⟩

@[simp] lemma pure_ok {a b : α} : (pure a : Except ε α) = .ok b ↔ a = b := by
  simp [pure, Except.pure]

/-- The guard `if (c) return error;`. -/
def failIf (c : Prop) [Decidable c] (e : ε) : Except ε Unit := if c then .error e else .ok ()

variable {c : Prop}

@[simp] lemma failIf_ok [Decidable c] {u : Unit} : failIf c e = .ok u ↔ ¬ c := by
  unfold failIf
  split_ifs with h
  · simp [h]
  · simp [h]

@[simp] lemma failIf_error [Decidable c] {e' : ε} : failIf c e = .error e' ↔ c ∧ e = e' := by
  unfold failIf
  split_ifs with h
  · simp [h]
  · simp [h]

/-- One check run on every element, in order, up to the first failure. -/
def checkAll (f : α → Except ε Unit) : List α → Except ε Unit
  | [] => .ok ()
  | a :: l => do
    f a
    checkAll f l

/-- A loop of checks ends well exactly when every check does. -/
lemma checkAll_ok {f : α → Except ε Unit} :
    ∀ {l : List α} {u : Unit}, checkAll f l = .ok u ↔ ∀ a ∈ l, f a = .ok ()
  | [], _ => by simp [checkAll]
  | a :: l, _ => by
    rw [checkAll, bind_unit_ok, checkAll_ok]
    simp

/-- What a loop has collected was computed from its elements. -/
lemma mapM_ok_mem : ∀ {l : List α} {bs : List β}, l.mapM f = .ok bs → ∀ b ∈ bs, ∃ a ∈ l, f a = .ok b
  | [], bs, h => by
    obtain rfl : [] = bs := by simpa using h
    simp
  | a :: l, bs, h => by
    rw [mapM_cons, bind_ok] at h
    obtain ⟨b1, hb1, h⟩ := h
    obtain ⟨bs', hbs', h⟩ := bind_ok.mp h
    obtain rfl := pure_ok.mp h
    intro b hb
    rcases mem_cons.mp hb with rfl | hb
    · exact ⟨a, mem_cons_self, hb1⟩
    · obtain ⟨a', ha', hab⟩ := mapM_ok_mem hbs' b hb
      exact ⟨a', mem_cons_of_mem a ha', hab⟩

/-- **The invariant rule for an accumulating loop.**  `P pre s` may speak about the elements `pre`
    processed so far; each step appends its element to them. -/
lemma foldlM_rule {step : σ → α → Except ε σ} {l : List α} {s0 s : σ}
    (P : List α → σ → Prop) (h0 : P [] s0)
    (hstep : ∀ pre a post s s', l = pre ++ a :: post → P pre s → step s a = .ok s' →
      P (pre ++ [a]) s')
    (h : l.foldlM step s0 = .ok s) : P l s := by
  -- The induction is on the elements still to come; those already consumed are `pre`.
  have key : ∀ (todo pre : List α) (s1 : σ), l = pre ++ todo → P pre s1 →
      todo.foldlM step s1 = .ok s → P l s := by
    intro todo
    induction todo with
    | nil =>
      intro pre s1 hl hP hs
      rw [foldlM_nil, pure_ok] at hs
      rw [append_nil] at hl
      rw [hl, ← hs]
      exact hP
    | cons a todo ih =>
      intro pre s1 hl hP hs
      rw [foldlM_cons, bind_ok] at hs
      obtain ⟨s2, h2, hs⟩ := hs
      refine ih (pre ++ [a]) s2 ?_ (hstep pre a todo s1 s2 hl hP h2) hs
      rw [hl, append_assoc, singleton_append]
  exact key l [] s0 rfl h0 h

/-! ## Errors that do not occur -/

/-- No error of the kind `bad` occurs, and a result has the property `P`. -/
structure Avoids (bad : ε → Prop) (x : Except ε α) (P : α → Prop) : Prop where
  error : ∀ e, x = .error e → ¬ bad e
  result : ∀ a, x = .ok a → P a

namespace Avoids

variable {bad : ε → Prop} {P P' : α → Prop} {Q : β → Prop}

variable {e : ε} {x : Except ε α}

lemma ok {a : α} (h : P a) : Avoids bad (.ok a) P := by
  refine ⟨nofun, ?_⟩
  rintro _ ⟨⟩
  exact h

lemma of_error (h : ¬ bad e) : Avoids bad (.error e : Except ε α) P := by
  refine ⟨?_, nofun⟩
  rintro _ ⟨⟩
  exact h

/-- **Sequencing.** -/
lemma bind {f : α → Except ε β} (hx : Avoids bad x P) (hf : ∀ a, P a → Avoids bad (f a) Q) :
    Avoids bad (x >>= f) Q := by
  constructor
  · intro e h
    rcases bind_error.mp h with herror | ⟨a, ha, herror⟩
    · exact hx.error e herror
    · exact (hf a (hx.result a ha)).error e herror
  · intro b h
    obtain ⟨a, ha, hb⟩ := bind_ok.mp h
    exact (hf a (hx.result a ha)).result b hb

lemma mono (hx : Avoids bad x P) (h : ∀ a, P a → P' a) : Avoids bad x P' :=
  ⟨hx.error, fun a ha => h a (hx.result a ha)⟩

/-- A guard whose error does not count. -/
lemma failIf [Decidable c] (h : ¬ bad e) : Avoids bad (failIf c e) fun _ => ¬ c := by
  refine ⟨fun e' he' => ?_, fun _ hok => failIf_ok.mp hok⟩
  rw [← (failIf_error.mp he').2]
  exact h

/-- A guard that does not apply. -/
lemma passes [Decidable c] (h : ¬ c) : Avoids bad (Fallible.failIf c e) fun _ => ¬ c :=
  ⟨fun _ he' => absurd (failIf_error.mp he').1 h, fun _ _ => h⟩

/-- Where no error occurs at all there is a result. -/
lemma exists_ok (h : Avoids (fun _ => True) x P) : ∃ a, x = .ok a ∧ P a := by
  cases hx : x with
  | error e => exact absurd trivial (h.error e hx)
  | ok a => exact ⟨a, rfl, h.result a hx⟩

end Avoids

end Fallible
