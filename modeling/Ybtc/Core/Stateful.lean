import Mathlib.Tactic

/-!
# Computations with a state that survives a failure

`EStateM ε σ` is the shape of code that works on a global object and may leave by an exception: a
failure carries the state reached so far, and nothing is undone by itself.  These are the rules by
which such a computation is taken apart.
-/

namespace Stateful

open List Stateful

variable {ε ε' σ α β : Type}

open EStateM (Result)

/-- Outcomes of runs can be compared. -/
instance resultDecidableEq [DecidableEq ε] [DecidableEq σ] [DecidableEq α] :
    DecidableEq (Result ε σ α)
  | .ok a s, .ok b t => decidable_of_iff (a = b ∧ s = t) (by simp)
  | .error e s, .error f t => decidable_of_iff (e = f ∧ s = t) (by simp)
  | .ok _ _, .error _ _ => isFalse (by simp)
  | .error _ _, .ok _ _ => isFalse (by simp)

/-- The state a run ends in. -/
def stateAfter : Result ε σ α → σ
  | .ok _ s => s
  | .error _ s => s

variable {a : α} {s s' : σ} {e : ε} {x : EStateM ε σ α} {f : α → EStateM ε σ β}

@[simp] lemma stateAfter_ok : stateAfter (.ok a s : Result ε σ α) = s := rfl

@[simp] lemma stateAfter_error : stateAfter (.error e s : Result ε σ α) = s := rfl

/-- The run returns, with a value and a state that pass the test. -/
def returnsWith (p : α → σ → Bool) : Result ε σ α → Bool
  | .ok a s => p a s
  | .error _ _ => false

lemma returnsWith_iff {p : α → σ → Bool} {r : Result ε σ α} :
    returnsWith p r = true ↔ ∃ a s, r = .ok a s ∧ p a s = true := by
  cases r <;> simp [returnsWith]

lemma bind_apply (x : EStateM ε σ α) (f : α → EStateM ε σ β) (s : σ) : (x >>= f) s = match x s with
      | .ok a s' => f a s'
      | .error e s' => .error e s' := rfl

/-- **Sequencing, success.** -/
lemma bind_ok {b : β} : (x >>= f) s = .ok b s' ↔ ∃ a s1, x s = .ok a s1 ∧ f a s1 = .ok b s' := by
  rw [bind_apply]
  cases x s with
  | ok a s1 => simp
  | error e s1 => simp

/-- **Sequencing, failure**: the first part failed, or the second did. -/
lemma bind_error : (x >>= f) s = .error e s' ↔
      x s = .error e s' ∨ ∃ a s1, x s = .ok a s1 ∧ f a s1 = .error e s' := by
  rw [bind_apply]
  cases x s with
  | ok a s1 => simp
  | error e' s1 => simp

lemma bind_of_ok (h : x s = .ok a s') : (x >>= f) s = f a s' := by
  rw [bind_apply, h]

lemma bind_of_error (h : x s = .error e s') : (x >>= f) s = .error e s' := by
  rw [bind_apply, h]

variable {P : σ → Prop}

/-- **Where a sequence ends**: what holds at the end of the first part, and is kept by the second.
    -/
lemma stateAfter_bind (hx : P (stateAfter (x s)))
    (hf : ∀ a s1, P s1 → P (stateAfter (f a s1))) : P (stateAfter ((x >>= f) s)) := by
  rw [bind_apply]
  cases hxs : x s with
  | ok a s1 =>
    rw [hxs] at hx
    exact hf a s1 hx
  | error e s1 =>
    rw [hxs] at hx
    exact hx

@[simp] lemma pure_apply (a : α) (s : σ) : (pure a : EStateM ε σ α) s = .ok a s := rfl

/-- A computation that does not touch the state. -/
def liftExcept (x : Except ε α) : EStateM ε σ α := fun s =>
  match x with
  | .ok a => .ok a s
  | .error e => .error e s

lemma liftExcept_apply_ok {x : Except ε α} : liftExcept x s = .ok a s' ↔ x = .ok a ∧ s' = s := by
  cases x with
  | error e => simp [liftExcept]
  | ok b => simp [liftExcept, eq_comm]

/-- **Sequencing** behind a computation that does not touch the state. -/
lemma liftExcept_bind_ok {x : Except ε α} {b : β} :
    (liftExcept x >>= f) s = .ok b s' ↔ ∃ a, x = .ok a ∧ f a s = .ok b s' := by
  cases x with
  | error e | ok a => simp [bind_apply, liftExcept]

/-- A computation whose failures are read as failures of another kind. -/
def mapError (g : ε → ε') (x : EStateM ε σ α) : EStateM ε' σ α := fun s =>
  match x s with
  | .ok a s' => .ok a s'
  | .error e s' => .error (g e) s'

variable {g : ε → ε'}

lemma mapError_apply_ok : mapError g x s = .ok a s' ↔ x s = .ok a s' := by
  unfold mapError
  cases x s with
  | ok b s1 => simp
  | error e s1 => simp

/-- A computation on the first part of a state. -/
def onFst {τ : Type} (x : EStateM ε σ α) : EStateM ε (σ × τ) α := fun p =>
  match x p.1 with
  | .ok a s' => .ok a (s', p.2)
  | .error e s' => .error e (s', p.2)

@[simp] lemma stateAfter_onFst_snd {τ : Type} (x : EStateM ε σ α) (p : σ × τ) :
    (stateAfter (onFst x p)).2 = p.2 := by
  unfold onFst
  cases x p.1 <;> rfl

variable {f : β → α → EStateM ε σ β}

/-- **Loops**: what every turn hands on of the accumulator, the loop does. -/
lemma foldlM_value {P : β → Prop} : ∀ {xs : List α} {b b' : β}
    {s s' : σ}, (∀ x ∈ xs, ∀ b s b' s', P b → f b x s = .ok b' s' → P b') → P b →
      xs.foldlM f b s = .ok b' s' → P b'
  | [], b, b', s, s', _, hb, h => by
    cases h
    exact hb
  | x :: xs, b, b', s, s', hf, hb, h => by
    rw [foldlM_cons] at h
    rw [forall_mem_cons] at hf
    obtain ⟨b1, s1, hx, hrest⟩ := bind_ok.mp h
    exact foldlM_value hf.2 (hf.1 b s b1 s1 hb hx) hrest

/-- A step that appends to a list, and neither what it appends nor the state it reaches depends on
    what is in the list already. -/
def Appends (f : List β → EStateM ε σ (List β)) : Prop :=
  ∀ b s a s', f b s = .ok a s' → ∃ new, a = b ++ new ∧ ∀ b₂, f b₂ s = .ok (b₂ ++ new) s'

lemma Appends.pure : Appends fun b : List β => (Pure.pure b : EStateM ε σ (List β)) := by
  intro b s a s' h
  cases h
  exact ⟨[], (append_nil b).symm, fun b2 => by rw [append_nil]; rfl⟩

/-- **Loops** of such steps are such steps. -/
lemma Appends.foldlM {f : List β → α → EStateM ε σ (List β)} (hf : ∀ x, Appends fun b => f b x) :
    ∀ xs : List α, Appends fun b => xs.foldlM f b
  | [] => Appends.pure
  | x :: xs => by
    intro b s a s' h
    change (f b x >>= fun b => xs.foldlM f b) s = _ at h
    obtain ⟨b1, s1, hx, hrest⟩ := bind_ok.mp h
    obtain ⟨new, rfl, hnew⟩ := hf x b s b1 s1 hx
    obtain ⟨more, rfl, hmore⟩ := Appends.foldlM hf xs _ s1 a s' hrest
    refine ⟨new ++ more, append_assoc b new more, fun b2 => ?_⟩
    change (f b2 x >>= fun b => xs.foldlM f b) s = _
    rw [← append_assoc]
    exact bind_ok.mpr ⟨_, s1, hnew b2, hmore _⟩

/-- Every element meets a condition in the state in which its turn comes. -/
def Along (f : List β → α → EStateM ε σ (List β)) (Good : σ → α → Prop) : List α → σ → Prop
  | [], _ => True
  | x :: xs, s => Good s x ∧ ∀ b s', f [] x s = .ok b s' → Along f Good xs s'

/-- **Loops along which a condition holds** keep what a step under that condition keeps. -/
lemma Along.foldlM {f : List β → α → EStateM ε σ (List β)} {Good : σ → α → Prop}
    (hf : ∀ x, Appends fun b => f b x)
    (hstep : ∀ x b b' s s', P s → Good s x → f b x s = .ok b' s' → P s') :
    ∀ (xs : List α) {b b' : List β} {s s' : σ}, P s → Along f Good xs s →
      xs.foldlM f b s = .ok b' s' → P s'
  | [], b, b', s, s', hs, _, h => by
    cases h
    exact hs
  | x :: xs, b, b', s, s', hs, hgood, h => by
    rw [foldlM_cons] at h
    obtain ⟨b1, s1, hx, hrest⟩ := bind_ok.mp h
    obtain ⟨new, -, hnew⟩ := hf x b s b1 s1 hx
    exact Along.foldlM hf hstep xs (hstep x b b1 s s1 hs hgood.1 hx) (hgood.2 _ s1 (hnew [])) hrest

/-! ## Invariants -/

/-- The computation keeps `P`, whether it returns or fails, and what it returns satisfies `Q`. -/
def Keeps (P : σ → Prop) (Q : α → Prop) (x : EStateM ε σ α) : Prop :=
  ∀ s, P s → P (stateAfter (x s)) ∧ ∀ a s', x s = .ok a s' → Q a

section Keeps

variable {P : σ → Prop} {Q : α → Prop} {R : β → Prop}

variable {x : EStateM ε σ α}

/-- **Sequencing**: the second part may use what the first one promises. -/
lemma Keeps.bind {f : α → EStateM ε σ β} (hx : Keeps P Q x) (hf : ∀ a, Q a → Keeps P R (f a)) :
    Keeps P R (x >>= f) := by
  intro s hs
  obtain ⟨hP, hQ⟩ := hx s hs
  rw [bind_apply]
  cases hxs : x s with
  | ok a s1 =>
    rw [hxs] at hP
    exact hf a (hQ a s1 hxs) s1 hP
  | error e s1 =>
    rw [hxs] at hP
    exact ⟨hP, fun b s' h => by cases h⟩

lemma Keeps.pure {a : α} (h : Q a) : Keeps P Q (Pure.pure a : EStateM ε σ α) := by
  intro s hs
  refine ⟨hs, ?_⟩
  intro b s' hb
  cases hb
  exact h

lemma Keeps.weaken {Q' : α → Prop} (hx : Keeps P Q x) (h : ∀ a, Q a → Q' a) : Keeps P Q' x := by
  intro s hs
  obtain ⟨hP, hQ⟩ := hx s hs
  exact ⟨hP, fun a s' ha => h a (hQ a s' ha)⟩

/-- A computation that leaves the state alone keeps everything. -/
lemma Keeps.of_stateAfter (h : ∀ s, stateAfter (x s) = s)
    (hQ : ∀ s, P s → ∀ a s', x s = .ok a s' → Q a) : Keeps P Q x := by
  intro s hs
  refine ⟨?_, hQ s hs⟩
  rw [h s]
  exact hs

lemma Keeps.liftExcept (x : Except ε α) :
    Keeps P (fun _ => True) (liftExcept x : EStateM ε σ α) := by
  refine Keeps.of_stateAfter (fun s => ?_) (fun _ _ _ _ _ => trivial)
  cases x <;> rfl

lemma Keeps.throw (e : ε) : Keeps P Q (throw e : EStateM ε σ α) :=
  fun _ hs => ⟨hs, fun _ _ h => by cases h⟩

lemma Keeps.ite {c : Prop} [Decidable c] {y : EStateM ε σ α} (hx : c → Keeps P Q x)
    (hy : ¬ c → Keeps P Q y) : Keeps P Q (if c then x else y) := by
  split_ifs with hc
  · exact hx hc
  · exact hy hc

end Keeps

/-! ## Logs -/

/-- A computation that returns has appended `ts` to the log. -/
def Logs {τ : Type} (log : σ → List τ) (ts : List τ) (x : EStateM ε σ α) : Prop :=
  ∀ s a s', x s = .ok a s' → log s' = log s ++ ts

section Logs

variable {τ : Type} {log : σ → List τ} {ts us : List τ}

variable {x : EStateM ε σ α}

/-- A computation that appends the same however it ends. -/
lemma Logs.of_stateAfter (h : ∀ s, log (stateAfter (x s)) = log s ++ ts) : Logs log ts x :=
  fun s _ _ hx => by simpa [hx] using h s

/-- A computation that leaves the log alone. -/
lemma Logs.quiet (h : ∀ s, log (stateAfter (x s)) = log s) : Logs log [] x :=
  Logs.of_stateAfter fun s => by rw [h s, append_nil]

lemma Logs.liftExcept_bind {x : Except ε α} {f : α → EStateM ε σ β}
    (hf : ∀ a, x = .ok a → Logs log ts (f a)) : Logs log ts (liftExcept x >>= f) := by
  cases x with
  | ok a => exact hf a rfl
  | error e => exact fun _ _ _ h => by cases h

lemma Logs.pure (a : α) : Logs log [] (Pure.pure a : EStateM ε σ α) := Logs.quiet fun _ => rfl

lemma Logs.bind {f : α → EStateM ε σ β} (hx : Logs log ts x) (hf : ∀ a, Logs log us (f a)) :
    Logs log (ts ++ us) (x >>= f) := by
  intro s b s' h
  obtain ⟨a, s1, hxs, hfs⟩ := bind_ok.mp h
  rw [hf a s1 b s' hfs, hx s a s1 hxs, append_assoc]

/-- **Loops**: each turn appends its own part. -/
lemma Logs.foldlM (part : α → List τ) : ∀ (xs : List α) (b : β),
    (∀ x ∈ xs, ∀ b, Logs log (part x) (f b x)) → Logs log (xs.flatMap part) (xs.foldlM f b)
  | [], b, _ => Logs.pure b
  | x :: xs, b, h => by
    rw [foldlM_cons, flatMap_cons]
    rw [forall_mem_cons] at h
    exact (h.1 b).bind fun b' => Logs.foldlM part xs b' h.2

end Logs

/-! ## Related states -/

/-- **What the computation returns depends on the state only up to `R`**: from related states it
    returns the same value, in related states. -/
def Respects (R : σ → σ → Prop) (x : EStateM ε σ α) : Prop :=
  ∀ s t, R s t → ∀ a s', x s = .ok a s' → ∃ t', x t = .ok a t' ∧ R s' t'

section Respects

variable {R : σ → σ → Prop}

lemma Respects.pure (a : α) : Respects R (Pure.pure a : EStateM ε σ α) := by
  intro s t hR b s' h
  cases h
  exact ⟨t, rfl, hR⟩

lemma Respects.liftExcept (x : Except ε α) : Respects R (liftExcept x : EStateM ε σ α) := by
  intro s t hR b s' h
  obtain ⟨hx, rfl⟩ := liftExcept_apply_ok.mp h
  exact ⟨t, liftExcept_apply_ok.mpr ⟨hx, rfl⟩, hR⟩

lemma Respects.bind {x : EStateM ε σ α} {f : α → EStateM ε σ β} (hx : Respects R x)
    (hf : ∀ a, Respects R (f a)) : Respects R (x >>= f) := by
  intro s t hR b s' h
  obtain ⟨a, s1, hxs, hfs⟩ := bind_ok.mp h
  obtain ⟨t1, hxt, hR1⟩ := hx s t hR a s1 hxs
  obtain ⟨t', hft, hR'⟩ := hf a s1 t1 hR1 b s' hfs
  exact ⟨t', bind_ok.mpr ⟨a, t1, hxt, hft⟩, hR'⟩

/-- **Loops**: every turn respects the relation, so the loop does. -/
lemma Respects.foldlM (hf : ∀ b x, Respects R (f b x)) :
    ∀ (xs : List α) (b : β), Respects R (xs.foldlM f b)
  | [], b => Respects.pure b
  | x :: xs, b => by
    rw [foldlM_cons]
    exact (hf b x).bind fun b' => Respects.foldlM hf xs b'

lemma Respects.ite {c : Prop} [Decidable c] {x y : EStateM ε σ α} (hx : c → Respects R x)
    (hy : ¬ c → Respects R y) : Respects R (if c then x else y) := by
  split_ifs with hc
  · exact hx hc
  · exact hy hc

end Respects

/-! ## Limits on failures -/

/-- A run that returns with `P`, or fails in an allowed way. -/
def Ends (P : σ → Prop) (Allowed : ε → Prop) : Result ε σ α → Prop
  | .ok _ s' => P s'
  | .error e _ => Allowed e

/-- From every state with `P` the computation returns with `P`, or fails in an allowed way. -/
def Within (P : σ → Prop) (Allowed : ε → Prop) (x : EStateM ε σ α) : Prop :=
  ∀ s, P s → Ends P Allowed (x s)

section Within

variable {P : σ → Prop} {Allowed : ε → Prop}

variable {x : EStateM ε σ α}

lemma Within.ok (hx : Within P Allowed x) {s s' : σ} {a : α} (hs : P s) (h : x s = .ok a s') :
    P s' := by
  have := hx s hs
  rw [h] at this
  exact this

lemma Within.error (hx : Within P Allowed x) {s s' : σ} {e : ε} (hs : P s) (h : x s = .error e s') :
    Allowed e := by
  have := hx s hs
  rw [h] at this
  exact this

lemma Within.pure (a : α) : Within P Allowed (Pure.pure a : EStateM ε σ α) := fun _ hs => hs

lemma Within.bind {f : α → EStateM ε σ β} (hx : Within P Allowed x)
    (hf : ∀ a, Within P Allowed (f a)) : Within P Allowed (x >>= f) := by
  intro s hs
  rw [bind_apply]
  cases hxs : x s with
  | ok a s1 => exact hf a s1 (hx.ok hs hxs)
  | error e s1 => exact hx.error hs hxs

/-- **Loops**: every turn stays within the limits, so the loop does. -/
lemma Within.foldlM : ∀ (xs : List α) (b : β),
    (∀ x ∈ xs, ∀ b, Within P Allowed (f b x)) → Within P Allowed (xs.foldlM f b)
  | [], b, _ => Within.pure b
  | x :: xs, b, h => by
    rw [foldlM_cons]
    rw [forall_mem_cons] at h
    exact (h.1 b).bind fun b' => Within.foldlM xs b' h.2

end Within

/-! ## Triples -/

/-- A run that returns with `Q`, or fails in an allowed way. -/
def Meets (Allowed : ε → Prop) (Q : α → σ → Prop) : Result ε σ α → Prop
  | .ok a s' => Q a s'
  | .error e _ => Allowed e

/-- From every state with `P` the computation returns with `Q`, or fails in an allowed way. -/
def Triple (Allowed : ε → Prop) (P : σ → Prop) (x : EStateM ε σ α) (Q : α → σ → Prop) : Prop :=
  ∀ s, P s → Meets Allowed Q (x s)

section Triple

variable {Allowed : ε → Prop} {P P' : σ → Prop} {Q Q' : α → σ → Prop} {R : β → σ → Prop}

variable {x : EStateM ε σ α} {s s' : σ} {f : α → EStateM ε σ β} {a : α}

lemma Triple.ok (hx : Triple Allowed P x Q) (hs : P s) (h : x s = .ok a s') : Q a s' := by
  have := hx s hs
  rw [h] at this
  exact this

lemma Triple.error (hx : Triple Allowed P x Q) {e : ε} (hs : P s) (h : x s = .error e s') :
    Allowed e := by
  have := hx s hs
  rw [h] at this
  exact this

lemma Triple.pure (h : ∀ s, P s → Q a s) :
    Triple Allowed P (Pure.pure a : EStateM ε σ α) Q := h

lemma Triple.throw {e : ε} (h : Allowed e) : Triple Allowed P (throw e : EStateM ε σ α) Q :=
  fun _ _ => h

/-- **Sequencing.** -/
lemma Triple.bind (hx : Triple Allowed P x Q) (hf : ∀ a, Triple Allowed (Q a) (f a) R) :
    Triple Allowed P (x >>= f) R := by
  intro s hs
  rw [bind_apply]
  cases hxs : x s with
  | ok a s1 => exact hf a s1 (hx.ok hs hxs)
  | error e s1 => exact hx.error hs hxs

/-- **Sequencing**, when the first part returns a known value. -/
lemma Triple.bind_value {v : α} (hx : Triple Allowed P x fun a s => a = v ∧ P' s)
    (hf : Triple Allowed P' (f v) R) : Triple Allowed P (x >>= f) R :=
  hx.bind fun _ s hs => hs.1 ▸ hf s hs.2

/-- **Two continuations** of one computation agree if they do so wherever it returns. -/
lemma Triple.bind_congr {g : α → EStateM ε σ β} (hx : Triple Allowed P x Q) (hs : P s)
    (h : ∀ a s', Q a s' → f a s' = g a s') : (x >>= f) s = (x >>= g) s := by
  rw [bind_apply, bind_apply]
  cases hxs : x s with
  | ok a s' => exact h a s' (hx.ok hs hxs)
  | error e s' => rfl

/-- **Consequence.** -/
lemma Triple.conseq (hx : Triple Allowed P x Q) (hP : ∀ s, P' s → P s) (hQ : ∀ a s, Q a s → Q' a s)
    : Triple Allowed P' x Q' := by
  intro s hs
  have h := hx s (hP s hs)
  cases hxs : x s with
  | ok a s1 =>
    rw [hxs] at h
    exact hQ a s1 h
  | error e s1 =>
    rw [hxs] at h
    exact h

lemma Triple.weaken (hx : Triple Allowed P x Q) (hQ : ∀ a s, Q a s → Q' a s) :
    Triple Allowed P x Q' :=
  hx.conseq (fun _ hs => hs) hQ

/-- A fact that does not speak of the state is moved out of the condition. -/
lemma Triple.of_fact {p : Prop} (hx : p → Triple Allowed P x Q) :
    Triple Allowed (fun s => p ∧ P s) x Q :=
  fun s hs => hx hs.1 s hs.2

lemma Triple.ite {c : Prop} [Decidable c] {y : EStateM ε σ α} (hx : c → Triple Allowed P x Q)
    (hy : ¬ c → Triple Allowed P y Q) : Triple Allowed P (if c then x else y) Q := by
  split_ifs with hc
  · exact hx hc
  · exact hy hc

end Triple

/-! ## Changes that go unnoticed -/

/-- The state at the end of a run is changed. -/
def mapState (f : σ → σ) : Result ε σ α → Result ε σ α
  | .ok a s => .ok a (f s)
  | .error e s => .error e (f s)

/-- **The computation does not notice the change**: it makes no difference whether the state is
    changed before or after. -/
def Commutes (f : σ → σ) (x : EStateM ε σ α) : Prop := ∀ s, x (f s) = mapState f (x s)

section Commutes

variable {f : σ → σ}

lemma Commutes.bind {x : EStateM ε σ α} {g : α → EStateM ε σ β} (hx : Commutes f x)
    (hg : ∀ a, Commutes f (g a)) : Commutes f (x >>= g) := by
  intro s
  rw [bind_apply, bind_apply, hx s]
  cases x s with
  | ok a s' => exact hg a s'
  | error e s' => rfl

end Commutes

/-! ## Assumptions on the end -/

/-- A property of the state at the end was there at the beginning. -/
def Reflects (C : σ → Prop) (x : EStateM ε σ α) : Prop := ∀ s, C (stateAfter (x s)) → C s

/-- **What a computation returns if the state it ends in has the property**, which cannot get lost
    on the way back. -/
def Assuming (C : σ → Prop) (x : EStateM ε σ α) (s : σ) (Q : α → σ → Prop) : Prop :=
  C (stateAfter (x s)) → ∃ a s', x s = .ok a s' ∧ Q a s'

section Assuming

variable {C : σ → Prop} {Q Q' : α → σ → Prop} {R : β → σ → Prop} {s : σ}

variable {x : EStateM ε σ α} {a : α}

lemma Assuming.of_ok {s' : σ} (h : x s = .ok a s') (hQ : C s' → Q a s') : Assuming C x s Q := by
  intro hc
  rw [h] at hc
  exact ⟨a, s', h, hQ hc⟩

lemma Assuming.pure (h : Q a s) : Assuming C (Pure.pure a : EStateM ε σ α) s Q :=
  fun _ => ⟨a, s, rfl, h⟩

lemma Assuming.weaken (hx : Assuming C x s Q) (h : ∀ a s', C s' → Q a s' → Q' a s') :
    Assuming C x s Q' := by
  intro hc
  obtain ⟨a, s', hr, hq⟩ := hx hc
  rw [hr] at hc
  exact ⟨a, s', hr, h a s' hc hq⟩

/-- **Sequencing.**  The property at the end is one in the middle too. -/
lemma Assuming.bind {f : α → EStateM ε σ β} (hx : Assuming C x s Q) (hf : ∀ a, Reflects C (f a))
    (h : ∀ a s', C s' → Q a s' → Assuming C (f a) s' R) : Assuming C (x >>= f) s R := by
  intro hc
  rw [bind_apply] at hc ⊢
  cases hxs : x s with
  | ok a s1 =>
    rw [hxs] at hc
    have hc1 : C s1 := hf a s1 hc
    obtain ⟨a', s', hr, hq⟩ := hx (by rw [hxs]; exact hc1)
    rw [hxs] at hr
    cases hr
    exact h a s1 hc1 hq hc
  | error e s1 =>
    rw [hxs] at hc
    obtain ⟨a', s', hr, -⟩ := hx (by rw [hxs]; exact hc)
    rw [hxs] at hr
    cases hr

/-- **Sequencing** behind a step that returns. -/
lemma Assuming.ok_bind {f : α → EStateM ε σ β} {s1 : σ} (hx : x s = .ok a s1)
    (h : Assuming C (f a) s1 R) : Assuming C (x >>= f) s R := by
  unfold Assuming
  rw [bind_of_ok hx]
  exact h

end Assuming

end Stateful
