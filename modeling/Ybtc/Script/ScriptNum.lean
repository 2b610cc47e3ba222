import Ybtc.Primitives.Validation
import Ybtc.Script.Script

/-!
# Script numbers and pushes

`CScriptNum` and the `operator<<` family of `CScript`.  Numbers are stored little-endian with the
sign in the top bit of the last byte.
-/

namespace Ybtc

/-- The bytes of a 64-bit magnitude, least significant first, without leading zeros. -/
def leBytes : ℕ → ℕ → Bytes
  | 0, _ => []
  | fuel + 1, n => if n = 0 then [] else UInt8.ofNat (n % 256) :: leBytes fuel (n / 256)

variable (vch : Bytes)

/-- The sign bit of a number is the top bit of its last byte. -/
def signBit : Bool :=
  match vch.getLast? with
  | some b => 0x80 ≤ b
  | none => false

/-- `CScriptNum::serialize`. -/
def serialize (value : ℤ) : Bytes :=
  let result := leBytes 8 value.natAbs
  if signBit result then result ++ [if value < 0 then 0x80 else 0]
  else if value < 0 then result.dropLast ++ (result.getLast?.map (0x80 ||| ·)).toList
  else result

/-- `CScriptNum::set_vch`. -/
def setVch : ℤ :=
  if signBit vch then -((readLE vch : ℤ) - 0x80 * 256 ^ (vch.length - 1)) else readLE vch

/-- The last byte, without the sign bit, is zero although the byte before does not need the room. -/
def nonMinimal : Bool :=
  match vch.reverse with
  | [] => false
  | [b] => b &&& 0x7f == 0
  | b :: b' :: _ => b &&& 0x7f == 0 && b' &&& 0x80 == 0

/-- The checked constructor of `CScriptNum`, which throws `scriptnum_error`. -/
def scriptNum (fRequireMinimal : Bool) (nMaxNumSize : ℕ) : Except Fault ℤ :=
  if nMaxNumSize < vch.length then
    .error (.thrown (.scriptnumError "script number overflow"))
  else if fRequireMinimal && nonMinimal vch then
    .error (.thrown (.scriptnumError "non-minimally encoded script number"))
  else .ok (setVch vch)

/-- `CScriptNum::vch_to_uint64`, for the gas and value fields of a contract script.  It throws on
    more than eight bytes and on a set sign bit. -/
def vchToUint64 : Except Fault ℕ :=
  if 8 < vch.length then .error (.thrown (.scriptnumError "script number overflow"))
  else if signBit vch then .error (.thrown (.scriptnumError "Negative gas value."))
  else .ok (readLE vch)

/-- The number fields `vch_to_uint64` accepts. -/
def IsUint64Field : Prop := vch.length ≤ 8 ∧ signBit vch = false

instance (vch : Bytes) : Decidable (IsUint64Field vch) := inferInstanceAs (Decidable (_ ∧ _))

/-- `vch_to_uint64` returns exactly on at most eight bytes with the sign bit clear. -/
lemma vchToUint64_ok {vch : Bytes} {n : ℕ} :
    vchToUint64 vch = .ok n ↔ IsUint64Field vch ∧ readLE vch = n := by
  unfold vchToUint64 IsUint64Field
  split_ifs with h1 h2
  · simp; omega
  · simp [h2]
  · simp [h2, not_lt.mp h1]

/-- Whatever `vch_to_uint64` throws is a `scriptnum_error`. -/
lemma vchToUint64_error {vch : Bytes} {f : Fault} (h : vchToUint64 vch = .error f) :
    ¬ IsUint64Field vch ∧ ∃ what, f = .thrown (.scriptnumError what) := by
  unfold vchToUint64 at h
  split_ifs at h with h1 h2
  · exact ⟨fun hf => absurd hf.1 (not_le.mpr h1), _, (Except.error.inj h).symm⟩
  · refine ⟨?_, _, (Except.error.inj h).symm⟩
    intro hf
    rw [hf.2] at h2
    cases h2

/-- Both outcomes of `vch_to_uint64`. -/
lemma vchToUint64_cases : (IsUint64Field vch ∧ vchToUint64 vch = .ok (readLE vch)) ∨
      (¬ IsUint64Field vch ∧ ∃ what, vchToUint64 vch =
        .error (.thrown (.scriptnumError what))) := by
  cases h : vchToUint64 vch with
  | ok n =>
    obtain ⟨hf, rfl⟩ := vchToUint64_ok.mp h
    exact Or.inl ⟨hf, rfl⟩
  | error e =>
    obtain ⟨hf, what, rfl⟩ := vchToUint64_error h
    exact Or.inr ⟨hf, what, rfl⟩

/-- `operator<<(const std::vector<unsigned char>&)`. -/
def pushBytes (s : CScript) (b : Bytes) : CScript :=
  if b.length < OP_PUSHDATA1.toNat then s ++ UInt8.ofNat b.length :: b
  else if b.length ≤ 0xff then s ++ OP_PUSHDATA1 :: UInt8.ofNat b.length :: b
  else if b.length ≤ 0xffff then s ++ OP_PUSHDATA2 :: (writeLE 2 b.length ++ b)
  else s ++ OP_PUSHDATA4 :: (writeLE 4 b.length ++ b)

/-- `operator<<(const CScriptNum&)`. -/
def pushNum (s : CScript) (n : ℤ) : CScript := pushBytes s (serialize n)

/-- `push_int64`, that is `operator<<(int64_t)`. -/
def pushInt64 (s : CScript) (n : ℤ) : CScript :=
  if n = -1 ∨ (1 ≤ n ∧ n ≤ 16) then s ++ [UInt8.ofNat (n + (OP_1.toNat - 1)).toNat]
  else if n = 0 then s ++ [OP_0]
  else pushBytes s (serialize n)

end Ybtc
