import Ybtc.Core.Stateful

/-!
# Sequences of operations

An object with a set of operations, each of which answers, changes the object's state and may fail:
`step : Op → EStateM ε σ α`.  What the object is *for* is told by a second, simpler object `spec :
Op → τ → Except ε (α × τ)`.  The main results are `runAll_matches` and `outcomes_eq`.
-/

namespace Simulation

open EStateM (Result)

variable {Op ε σ τ α : Type}

/-! ## Runs -/

/-- The operations one after the other, up to the first failure, with their answers. -/
def runAll (step : Op → EStateM ε σ α) : List Op → EStateM ε σ (List α)
  | [] => pure []
  | op :: ops => do
    let a ← step op
    let as ← runAll step ops
    pure (a :: as)

/-- The same for the specification. -/
def specRun (spec : Op → τ → Except ε (α × τ)) : List Op → τ → Except ε (List α × τ)
  | [], t => .ok ([], t)
  | op :: ops, t => do
    let r ← spec op t
    let rs ← specRun spec ops r.2
    .ok (r.1 :: rs.1, rs.2)

/-- Every operation of the sequence is allowed in the state in which it is performed. -/
def LegalRun (spec : Op → τ → Except ε (α × τ)) (Legal : τ → Op → Prop) : τ → List Op → Prop
  | _, [] => True
  | t, op :: ops => Legal t op ∧ ∀ a t', spec op t = .ok (a, t') → LegalRun spec Legal t' ops

/-! ## Simulation -/

/-- The outcome of the object is the one of its specification. -/
def Matches (R : σ → τ → Prop) : Result ε σ α → Except ε (α × τ) → Prop
  | .ok a s, .ok (b, t) => a = b ∧ R s t
  | .error e _, .error f => e = f
  | .ok _ _, .error _ => False
  | .error _ _, .ok _ => False

variable {R : σ → τ → Prop}

variable {r : Result ε σ α}

lemma matches_ok {a : α} {t : τ} (h : Matches R r (.ok (a, t))) : ∃ s, r = .ok a s ∧ R s t := by
  cases r with
  | ok b s => exact ⟨s, by rw [h.1], h.2⟩
  | error e s => exact h.elim

lemma matches_error {e : ε} (h : Matches R r (.error e : Except ε (α × τ))) :
    ∃ s, r = .error e s := by
  cases r with
  | ok b s => exact h.elim
  | error f s => exact ⟨s, by rw [show f = e from h]⟩

lemma Matches.mono {R' : σ → τ → Prop} {x : Except ε (α × τ)} (h : Matches R r x)
    (hR : ∀ s t, R s t → R' s t) : Matches R' r x := by
  cases r with
  | ok a s =>
    cases x with
    | ok p => exact ⟨h.1, hR s p.2 h.2⟩
    | error e => exact h
  | error e s =>
    cases x with
    | ok p => exact h
    | error f => exact h

variable {step : Op → EStateM ε σ α} {spec : Op → τ → Except ε (α × τ)} {Legal : τ → Op → Prop}

/-- **Simulation.**  If every allowed step matches from related states, so does every sequence of
    allowed steps. -/
theorem runAll_matches (hstep : ∀ op s t, R s t → Legal t op → Matches R (step op s) (spec op t)) :
    ∀ (ops : List Op) (s : σ) (t : τ), R s t → LegalRun spec Legal t ops →
      Matches R (runAll step ops s) (specRun spec ops t) := by
  intro ops
  induction ops with
  | nil => exact fun s t hR _ => ⟨rfl, hR⟩
  | cons op ops ih =>
    intro s t hR hl
    have hop := hstep op s t hR hl.1
    cases hs : spec op t with
    | error e =>
      rw [hs] at hop
      obtain ⟨s', hs'⟩ := matches_error hop
      simp only [runAll, specRun, hs, bind, EStateM.bind, hs', Except.bind]
      rfl
    | ok r =>
      obtain ⟨a, t'⟩ := r
      rw [hs] at hop
      obtain ⟨s', hs', hR'⟩ := matches_ok hop
      have hrest := ih s' t' hR' (hl.2 a t' hs)
      simp only [runAll, specRun, hs, bind, EStateM.bind, hs', Except.bind]
      cases hr : specRun spec ops t' with
      | error e =>
        rw [hr] at hrest
        obtain ⟨s'', hs''⟩ := matches_error hrest
        rw [hs'']
        rfl
      | ok rs =>
        obtain ⟨as, t''⟩ := rs
        rw [hr] at hrest
        obtain ⟨s'', hs'', hR''⟩ := matches_ok hrest
        rw [hs'']
        exact ⟨rfl, hR''⟩

/-- A sequence fails only in a way in which one of its steps can fail. -/
lemma specRun_error {Allowed : ε → Prop} (h : ∀ op t e, spec op t = .error e → Allowed e) :
    ∀ (ops : List Op) (t : τ) (e : ε), specRun spec ops t = .error e → Allowed e := by
  intro ops
  induction ops with
  | nil => intro t e he; cases he
  | cons op ops ih =>
    intro t e he
    cases hs : spec op t with
    | error f =>
      simp only [specRun, hs, bind, Except.bind, Except.error.injEq] at he
      exact he ▸ h op t f hs
    | ok r =>
      cases hr : specRun spec ops r.2 with
      | error f =>
        simp only [specRun, hs, hr, bind, Except.bind, Except.error.injEq] at he
        exact he ▸ ih r.2 f hr
      | ok rs => simp [specRun, hs, hr, bind, Except.bind] at he

/-! ## Sequences that go on after a failure -/

open Stateful (stateAfter)

/-- How an operation has ended. -/
def outcome : Result ε σ α → Except ε α
  | .ok a _ => .ok a
  | .error e _ => .error e

/-- How the operations end, one after the other. -/
def outcomes (step : Op → EStateM ε σ α) : List Op → σ → List (Except ε α)
  | [], _ => []
  | op :: ops, s => outcome (step op s) :: outcomes step ops (stateAfter (step op s))

/-- The state they lead to. -/
def endState (step : Op → EStateM ε σ α) : List Op → σ → σ
  | [], s => s
  | op :: ops, s => endState step ops (stateAfter (step op s))

/-- Every operation meets a condition in the state in which it is performed. -/
def EachStep (step : Op → EStateM ε σ α) (Q : σ → Op → Prop) : List Op → σ → Prop
  | [], _ => True
  | op :: ops, s => Q s op ∧ EachStep step Q ops (stateAfter (step op s))

variable {Q : σ → Op → Prop}

/-- A condition that does not depend on the state. -/
lemma EachStep.and_forall {W : Op → Prop} : ∀ {ops : List Op} {s : σ},
    EachStep step Q ops s → (∀ op ∈ ops, W op) → EachStep step (fun s op => Q s op ∧ W op) ops s
  | [], _, _, _ => trivial
  | op :: _, _, h, hw => ⟨⟨h.1, hw op List.mem_cons_self⟩,
      h.2.and_forall fun op hop => hw op (List.mem_cons_of_mem _ hop)⟩

variable {C : σ → Prop}

/-- A property that cannot appear on the way held before. -/
lemma endState_back (hback : ∀ op s, C (stateAfter (step op s)) → C s) :
    ∀ (ops : List Op) (s : σ), C (endState step ops s) → C s
  | [], _, h => h
  | op :: ops, s, h => hback op s (endState_back hback ops _ h)

/-- **Simulation of sequences that go on after a failure**, if they end in a state with a property
    that cannot appear on the way. -/
theorem outcomes_eq {spec : Op → EStateM ε τ α}
    (hback : ∀ op s, C (stateAfter (step op s)) → C s)
    (hstep : ∀ op s t, R s t → Q s op → C (stateAfter (step op s)) →
      outcome (step op s) = outcome (spec op t) ∧
        R (stateAfter (step op s)) (stateAfter (spec op t))) :
    ∀ (ops : List Op) (s : σ) (t : τ), R s t → EachStep step Q ops s → C (endState step ops s) →
      outcomes step ops s = outcomes spec ops t ∧
        R (endState step ops s) (endState spec ops t) := by
  intro ops
  induction ops with
  | nil => exact fun s t hR _ _ => ⟨rfl, hR⟩
  | cons op ops ih =>
    intro s t hR hQ hC
    obtain ⟨ho, hR'⟩ := hstep op s t hR hQ.1 (endState_back hback ops _ hC)
    obtain ⟨hos, hR''⟩ := ih _ _ hR' hQ.2 hC
    exact ⟨congrArg₂ List.cons ho hos, hR''⟩

end Simulation
