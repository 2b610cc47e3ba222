import Ybtc.Core.Fallible

/-!
# How a call can end

The node's functions end in one of three ways, and the distinction carries most of the error
handling of the program.  They return; they return `false` after writing a rejection into a
`CValidationState`; or the call does not come back to its caller in the ordinary way at all.

Amounts are also here: `CAmount` and `MoneyRange` from `amount.h`.
-/

namespace Ybtc

open Fallible

/-! ## Amounts -/

/-- Amount in satoshis (can be negative). -/
abbrev CAmount := ℤ

/-- One coin, in satoshis. -/
def coin : CAmount := 100000000

/-- No amount larger than this (in satoshi) is valid. -/
def maxMoney : CAmount := 21000000 * coin

/-- `MoneyRange`. -/
def MoneyRange (nValue : CAmount) : Prop := 0 ≤ nValue ∧ nValue ≤ maxMoney

instance (nValue : CAmount) : Decidable (MoneyRange nValue) := inferInstanceAs (Decidable (_ ∧ _))

/-- The value a sum has once it is stored in an `int64_t`. -/
def toInt64 (x : ℤ) : ℤ := (x + 2 ^ 63) % 2 ^ 64 - 2 ^ 63

variable {c : Prop} {u : Unit}

/-- Nothing happens to a value that fits. -/
lemma toInt64_of_fits {x : ℤ} (h : -2 ^ 63 ≤ x ∧ x < 2 ^ 63) : toInt64 x = x := by
  unfold toInt64
  omega

/-- Storing a non-negative sum in an `int64_t` never makes it larger. -/
lemma toInt64_le {x : ℤ} (h : 0 ≤ x) : toInt64 x ≤ x := by
  unfold toInt64
  omega

/-! ## Rejections -/

/-- The `REJECT_*` codes; `none` is the code 0 some checks use. -/
inductive RejectCode
  | none
  | malformed
  | invalid
  | obsolete
  | duplicate
  | nonstandard
  | dust
  | insufficientFee
  | checkpoint
  | highFee
  | alreadyKnown
  | conflict
deriving Repr, DecidableEq

/-- Whether the state records a rule violation or a run-time failure of the node itself. -/
inductive ValidationMode
  | invalid
  | error
deriving Repr, DecidableEq

/-- What a failing check leaves in the `CValidationState`. -/
structure Reject where
  mode : ValidationMode
  nDoS : ℕ
  chRejectCode : RejectCode
  strRejectReason : String
  corruptionPossible : Bool
deriving Repr, DecidableEq

/-- `CValidationState::DoS`. -/
def Reject.dos (level : ℕ) (code : RejectCode) (reason : String) (corruptionIn : Bool) : Reject :=
  ⟨.invalid, level, code, reason, corruptionIn⟩

/-- `CValidationState::Invalid`: `DoS` at level 0. -/
def Reject.inval (code : RejectCode) (reason : String) : Reject := .dos 0 code reason false

/-- `CValidationState::Error`. -/
def Reject.err (reason : String) : Reject := ⟨.error, 0, .none, reason, false⟩

/-! ## Faults -/

/-- The exception types the modelled code throws, with their message. -/
inductive CppException
  | logicError (what : String)
  | runtimeError (what : String)
  | rangeError (what : String)
  | scriptnumError (what : String)
deriving Repr, DecidableEq

/-- The kinds of undefined behaviour the modelled code can run into. -/
inductive Undefined
  | emptyVector
  | nullPointer
  | outOfBounds
  | arithmetic
deriving Repr, DecidableEq

/-- A call that does not return to its caller; `diverged` is a loop that has not ended after the
    number of turns it was given. -/
inductive Fault
  | thrown (e : CppException)
  | assertion
  | exit
  | undefined (u : Undefined)
  | diverged
deriving Repr, DecidableEq

/-- A call that does not return `true`. -/
inductive Stop
  | reject (r : Reject)
  | fault (f : Fault)
deriving Repr, DecidableEq

/-- A check of the validation code: it succeeds with a value, rejects, or faults. -/
abbrev Checked := Except Stop

/-- `if (c) return state.DoS(level, false, code, reason, corruption);` -/
def dosIf (c : Prop) [Decidable c] (level : ℕ) (code : RejectCode) (reason : String)
    (corruptionIn : Bool) : Checked Unit :=
  failIf c (.reject (.dos level code reason corruptionIn))

/-- `if (c) return state.Invalid(false, code, reason);` -/
def invalidIf (c : Prop) [Decidable c] (code : RejectCode) (reason : String) : Checked Unit :=
  failIf c (.reject (.inval code reason))

/-- `assert(c);` -/
def assertThat (c : Prop) [Decidable c] : Checked Unit := Fallible.failIf (¬ c) (.fault .assertion)

@[simp] lemma dosIf_ok [Decidable c] {l : ℕ} {code : RejectCode} {r : String} {k : Bool} :
    dosIf c l code r k = .ok u ↔ ¬ c := failIf_ok

@[simp] lemma invalidIf_ok [Decidable c] {code : RejectCode} {r : String} :
    invalidIf c code r = .ok u ↔ ¬ c := failIf_ok

@[simp] lemma assertThat_ok [Decidable c] : assertThat c = .ok u ↔ c := by
  rw [assertThat, failIf_ok, not_not]

end Ybtc
