import Mathlib.Data.FinEnum
import Ybtc.Script.EvalBounds

/-!
# Reading back what was pushed

A script that the node builds itself is a sequence of opcodes and of pushes.  Walking over such a
script gives back exactly these, whatever bytes were pushed: data is never taken for an opcode.
-/

namespace Ybtc

open List UInt8

variable {b : Bytes} {s : CScript}

lemma readLE_leBytes : ∀ {k n : ℕ}, n < 256 ^ k → readLE (leBytes k n) = n
  | 0, n, h => by
    obtain rfl : n = 0 := by simpa using h
    rfl
  | k + 1, n, h => by
    rw [leBytes]
    split_ifs with h0
    · rw [h0]
      rfl
    · have hk : n / 256 < 256 ^ k := Nat.div_lt_of_lt_mul (pow_succ' 256 k ▸ h)
      rw [readLE, readLE_leBytes hk, toNat_ofNat']
      omega

/-- The operand behind a length field of `k` bytes. -/
lemma getPushOperand_writeLE (opcode : UInt8) (k : ℕ) (b rest : Bytes) :
    getPushOperand opcode (writeLE k b.length ++ b ++ rest) k b.length =
      some ⟨opcode, b, rest⟩ := by
  have hdrop : (writeLE k b.length ++ b ++ rest).drop k = b ++ rest := by
    rw [append_assoc]
    exact drop_left' (writeLE_length k _)
  unfold getPushOperand
  rw [hdrop, if_neg (by simp), if_neg (by simp), take_left, drop_left]

lemma readLE_take_writeLE {k : ℕ} (rest : Bytes) (h : b.length < 256 ^ k) :
    readLE ((writeLE k b.length ++ b ++ rest).take k) = b.length := by
  rw [append_assoc, take_left' (writeLE_length k _), readLE_writeLE k _ h]

/-- **The round trip**: a push is read back as one instruction with the bytes that were pushed. -/
lemma getOp_pushBytes (rest : Bytes) (h : b.length < 2 ^ 32) : ∃ opcode, opcode ≤ OP_PUSHDATA4 ∧
      getOp (pushBytes [] b ++ rest) = some ⟨opcode, b, rest⟩ := by
  unfold pushBytes
  split_ifs with h1 h2 h3
  · -- A short push: the opcode is the length.
    have hlen : (ofNat b.length).toNat = b.length := by
      rw [toNat_ofNat']
      exact Nat.mod_eq_of_lt (lt_trans h1 (by decide))
    have hlt : ofNat b.length < OP_PUSHDATA1 := by
      rw [lt_iff_toNat_lt, hlen]
      exact h1
    have hle : ofNat b.length ≤ OP_PUSHDATA4 := by
      rw [le_iff_toNat_le, hlen]
      exact le_of_lt (lt_of_lt_of_le h1 (by decide))
    refine ⟨ofNat b.length, hle, ?_⟩
    simp only [nil_append, cons_append, getOp, if_pos hlt, hlen]
    exact getPushOperand_writeLE (ofNat b.length) 0 b rest
  · refine ⟨OP_PUSHDATA1, by decide, ?_⟩
    have hfits : b.length < 256 ^ 1 := by omega
    have hbyte : ofNat b.length :: b = writeLE 1 b.length ++ b := by
      simp only [writeLE, Nat.mod_eq_of_lt (show b.length < 256 by omega)]
      rfl
    rw [nil_append, hbyte, cons_append]
    simp only [getOp, if_neg (show ¬ OP_PUSHDATA1 < OP_PUSHDATA1 by decide), if_true,
      readLE_take_writeLE rest hfits]
    exact getPushOperand_writeLE OP_PUSHDATA1 1 b rest
  · refine ⟨OP_PUSHDATA2, by decide, ?_⟩
    have hfits : b.length < 256 ^ 2 := by omega
    rw [nil_append, cons_append]
    simp only [getOp, if_neg (show ¬ OP_PUSHDATA2 < OP_PUSHDATA1 by decide),
      if_neg (show OP_PUSHDATA2 ≠ OP_PUSHDATA1 by decide), if_true, readLE_take_writeLE rest hfits]
    exact getPushOperand_writeLE OP_PUSHDATA2 2 b rest
  · refine ⟨OP_PUSHDATA4, by decide, ?_⟩
    have hfits : b.length < 256 ^ 4 := by omega
    rw [nil_append, cons_append]
    simp only [getOp, if_neg (show ¬ OP_PUSHDATA4 < OP_PUSHDATA1 by decide),
      if_neg (show OP_PUSHDATA4 ≠ OP_PUSHDATA1 by decide),
      if_neg (show OP_PUSHDATA4 ≠ OP_PUSHDATA2 by decide), if_true, readLE_take_writeLE rest hfits]
    exact getPushOperand_writeLE OP_PUSHDATA4 4 b rest

/-! ## Counting opcodes -/

@[simp] lemma find_nil (op : UInt8) : find [] op = 0 := rfl

/-- Counting, instruction by instruction. -/
lemma find_getOp {o : ScriptOp} (h : getOp s = some o) (op : UInt8) :
    find s op = (if o.opcode = op then 1 else 0) + find o.rest op := by
  unfold find
  rw [scan_eq s, h]
  by_cases ho : o.opcode = op
  · simp [ho, Nat.add_comm]
  · simp [ho]

/-- An opcode that takes no data. -/
lemma find_op {c : UInt8} (hc : OP_PUSHDATA4 < c) (rest : Bytes) (op : UInt8) :
    find (c :: rest) op = (if c = op then 1 else 0) + find rest op := by
  have hlt := lt_iff_toNat_lt.mp hc
  have hget : getOp (c :: rest) = some ⟨c, [], rest⟩ := by
    have hne : ∀ d : UInt8, d.toNat ≤ OP_PUSHDATA4.toNat → c ≠ d := by
      rintro d hd rfl
      omega
    have hnlt : ¬ c < OP_PUSHDATA1 := by
      rw [lt_iff_toNat_lt]
      have : OP_PUSHDATA1.toNat ≤ OP_PUSHDATA4.toNat := by decide
      omega
    simp only [getOp, if_neg hnlt, if_neg (hne OP_PUSHDATA1 (by decide)),
      if_neg (hne OP_PUSHDATA2 (by decide)), if_neg (hne OP_PUSHDATA4 (by decide))]
  exact find_getOp hget op

/-- A push counts for no opcode beyond the pushes. -/
lemma find_push (h : b.length < 2 ^ 32) (rest : Bytes) {op : UInt8} (hop : OP_PUSHDATA4 < op) :
    find (pushBytes [] b ++ rest) op = find rest op := by
  obtain ⟨opcode, hle, hget⟩ := getOp_pushBytes rest h
  rw [find_getOp hget op, if_neg, Nat.zero_add]
  intro heq
  rw [← heq, lt_iff_toNat_lt] at hop
  exact absurd hop (not_lt.mpr (le_iff_toNat_le.mp hle))

/-- What was pushed before stays in front. -/
lemma pushBytes_eq (s : CScript) (b : Bytes) : pushBytes s b = s ++ pushBytes [] b := by
  unfold pushBytes
  split_ifs <;> simp

lemma opcode_ne_of_find_eq_zero {opcode : UInt8} (h : find s opcode = 0) :
    ∀ op ∈ (scan s).1, op.opcode ≠ opcode := by
  intro op hop heq
  have hmem : op ∈ (scan s).1.filter fun o => o.opcode == opcode := by simp [hop, heq]
  rw [length_eq_zero_iff.mp h] at hmem
  exact absurd hmem (by simp)

/-! ## The first instruction -/

lemma getPushOperand_opcode {opcode : UInt8} {pc : Bytes} {l n : ℕ} {op : ScriptOp}
    (h : getPushOperand opcode pc l n = some op) : op.opcode = opcode ∧ op.vch.length = n := by
  unfold getPushOperand at h
  split_ifs at h with h1 h2
  cases h
  refine ⟨rfl, ?_⟩
  rw [length_take, Nat.min_eq_left (not_lt.mp h2)]

/-- The opcode is the first byte, and `OP_0` pushes nothing. -/
lemma getOp_opcode {op : ScriptOp} (h : getOp s = some op) :
    byteAt s 0 = op.opcode ∧ (op.opcode = OP_0 → op.vch = []) := by
  cases s with
  | nil => simp at h
  | cons c pc =>
    show c = op.opcode ∧ _
    have hlong : ∀ {k n}, c ≠ OP_0 → getPushOperand c pc k n = some op →
        c = op.opcode ∧ (op.opcode = OP_0 → op.vch = []) := fun hne h =>
      have hop := (getPushOperand_opcode h).1.symm
      ⟨hop, fun hzero => absurd (hop.trans hzero) hne⟩
    simp only [getOp] at h
    split_ifs at h with h1 h2 h3 h4
    · obtain ⟨hop, hlen⟩ := getPushOperand_opcode h
      refine ⟨hop.symm, fun hzero => ?_⟩
      rw [← hop, hzero] at hlen
      exact length_eq_zero_iff.mp hlen
    · exact hlong (h2 ▸ by decide) h
    · exact hlong (h3 ▸ by decide) h
    · exact hlong (h4 ▸ by decide) h
    · cases h
      exact ⟨rfl, fun _ => rfl⟩

/-! ## Numbers -/

/-- A set sign bit is the largest bit of the number. -/
lemma le_readLE_of_signBit : ∀ {b : Bytes}, signBit b = true → 128 * 256 ^ (b.length - 1) ≤ readLE b
  | [], h => absurd h (by decide)
  | [x], h => by
    have hx : (0x80 : UInt8) ≤ x := by simpa [signBit] using h
    simpa [readLE] using le_iff_toNat_le.mp hx
  | x :: y :: b, h => by
    have ih := le_readLE_of_signBit (b := y :: b) (by simpa [signBit] using h)
    rw [readLE]
    simp only [length_cons, Nat.add_sub_cancel] at ih ⊢
    rw [pow_succ]
    omega

/-- **The round trip for numbers**: what `CScriptNum` writes for a number of 63 bits is what
    `vch_to_uint64` reads. -/
lemma vchToUint64_serialize {n : ℕ} (hn : n < 2 ^ 63) : vchToUint64 (serialize n) = .ok n := by
  have hread : readLE (leBytes 8 n) = n := readLE_leBytes (lt_trans hn (by norm_num))
  have hlen := leBytes_length 8 n
  have hneg : ¬ (n : ℤ) < 0 := by omega
  rw [vchToUint64_ok, serialize, Int.natAbs_natCast]
  cases hsign : signBit (leBytes 8 n) with
  | true =>
    -- The number has at most 63 bits, so there is room for a zero byte.
    have hlow := le_readLE_of_signBit hsign
    rw [hread] at hlow
    have hshort : (leBytes 8 n).length ≤ 7 := by
      by_contra hlong
      have height : (leBytes 8 n).length = 8 := by omega
      rw [height] at hlow
      norm_num at hlow hn
      omega
    rw [if_pos rfl, if_neg hneg]
    refine ⟨⟨by rw [length_append]; exact Nat.succ_le_succ hshort, ?_⟩, ?_⟩
    · simp [signBit]
    · rw [readLE_append, hread]
      simp [readLE]
  | false =>
    rw [if_neg Bool.false_ne_true, if_neg hneg]
    exact ⟨⟨hlen, hsign⟩, hread⟩

/-! ## The minimal encoding -/

/-- `serialize` in 64 bits: the negation of the least value overflows. -/
def serialize64 (value : ℤ) : Except Fault Bytes :=
  if value = -2 ^ 63 then .error (.undefined .arithmetic) else .ok (serialize value)

/-- The checked constructor in 64 bits: `set_vch` shifts a ninth byte by the width of its type. -/
def scriptNum64 (vch : Bytes) (fRequireMinimal : Bool) (nMaxNumSize : ℕ) : Except Fault ℤ := do
  let n ← scriptNum vch fRequireMinimal nMaxNumSize
  if 8 < vch.length then .error (.undefined .arithmetic) else .ok n

/-- The encoding of `n` is written and read back, every other string is rejected or is another
    number, and `vch_to_uint64` agrees. -/
structure NumberCodec (n : ℤ) (nMaxNumSize : ℕ) : Prop where
  signed : (serialize n).length ≤ nMaxNumSize → serialize64 n = .ok (serialize n) ∧
    scriptNum64 (serialize n) true nMaxNumSize = .ok n ∧
    ∀ vch ≠ serialize n, (∃ e, scriptNum64 vch true nMaxNumSize = .error (.thrown e)) ∨
      ∃ m ≠ n, scriptNum64 vch true nMaxNumSize = .ok m
  unsigned : 0 ≤ n → vchToUint64 (serialize n) = .ok n.toNat

/-- There is no leading zero. -/
lemma leBytes_getLast : ∀ {k n : ℕ}, n < 256 ^ k → (leBytes k n).getLast? ≠ some 0
  | 0, _, _ => by simp [leBytes]
  | k + 1, n, h => by
    rw [leBytes]
    split_ifs with h0
    · simp
    · have hk : n / 256 < 256 ^ k := Nat.div_lt_of_lt_mul (pow_succ' 256 k ▸ h)
      by_cases hd : n / 256 = 0
      · -- The last digit of all.
        have hnil : leBytes k (n / 256) = [] := by
          rw [hd]
          cases k <;> simp [leBytes]
        rw [hnil, getLast?_singleton]
        intro hz
        have := congrArg toNat (Option.some_inj.mp hz)
        rw [toNat_ofNat'] at this
        simp only [UInt8.toNat_zero] at this
        omega
      · have hne : leBytes k (n / 256) ≠ [] := by
          cases k with
          | zero => simp only [pow_zero, Nat.lt_one_iff] at hk; exact absurd hk hd
          | succ k => rw [leBytes, if_neg hd]; simp
        rw [getLast?_cons_of_ne_nil hne]
        exact leBytes_getLast hk

variable {vch : Bytes} {n : ℤ} {nMaxNumSize : ℕ}

/-- The top bit of the last byte is the sign, the other bits belong to the magnitude. -/
lemma setVch_concat (init : Bytes) (b : UInt8) :
    setVch (init ++ [b]) = if 0x80 ≤ b then -(readLE (init ++ [b &&& 0x7f]) : ℤ)
      else readLE (init ++ [b &&& 0x7f]) := by
  have hbyte : ∀ b : UInt8, b.toNat = (b &&& 0x7f).toNat + if 0x80 ≤ b then 128 else 0 := by
    decide +kernel
  simp only [setVch, signBit, getLast?_concat, decide_eq_true_eq, length_append, length_singleton,
    Nat.add_sub_cancel, readLE_append, readLE, hbyte b]
  split_ifs <;> push_cast <;> ring

/-- The size of a minimal string is that of its number, with one more bit for the sign. -/
lemma length_of_minimal (h : nonMinimal vch = false) :
    vch.length = (Nat.digits 256 (2 * (setVch vch).natAbs)).length := by
  obtain rfl | ⟨init, b, rfl⟩ := eq_nil_or_concat' vch
  · simp [setVch, signBit, readLE]
  have hmag : (setVch (init ++ [b])).natAbs = readLE init +
      256 ^ init.length * (b &&& 0x7f).toNat := by
    rw [setVch_concat, apply_ite Int.natAbs, Int.natAbs_neg, ite_self, Int.natAbs_natCast,
      readLE_append]
    rfl
  have hlow : (b &&& 0x7f).toNat ≤ 127 := by
    rw [UInt8.toNat_and]
    exact Nat.and_le_right
  have hup : 2 * (setVch (init ++ [b])).natAbs < 256 ^ (init.length + 1) := by
    have := readLE_lt init
    have := Nat.mul_le_mul_left (256 ^ init.length) hlow
    rw [hmag, pow_succ]
    omega
  have hdown : 256 ^ init.length ≤ 2 * (setVch (init ++ [b])).natAbs := by
    rw [hmag]
    by_cases hb : b &&& 0x7f = 0
    · -- The byte before needs all its bits.
      obtain rfl | ⟨init, c, rfl⟩ := eq_nil_or_concat' init
      · simp [nonMinimal, hb] at h
      have hbit : ∀ c : UInt8, c &&& 0x80 ≠ 0 → 128 ≤ c.toNat := by decide +kernel
      have := Nat.mul_le_mul_left (256 ^ init.length) (hbit c (by simpa [nonMinimal, hb] using h))
      rw [readLE_append, length_append, length_singleton, pow_succ]
      simp only [readLE, Nat.mul_zero, Nat.add_zero]
      omega
    · have hpos : 0 < (b &&& 0x7f).toNat := Nat.pos_of_ne_zero fun h0 => hb (UInt8.toNat_inj.mp h0)
      have := Nat.mul_le_mul_left (256 ^ init.length) hpos
      omega
  have hne := (Nat.one_le_pow init.length 256 (by norm_num)).trans hdown
  rw [Nat.length_digits 256 _ (by norm_num) (by omega), Nat.log_eq_of_pow_le_of_lt_pow hdown hup,
    length_append, length_singleton]

/-- The number of a minimal string gives back its bytes. -/
lemma readLE_of_minimal (h : nonMinimal vch = false) : readLE vch = (setVch vch).natAbs +
      if setVch vch < 0 then 128 * 256 ^ (vch.length - 1) else 0 := by
  cases hs : signBit vch with
  | false => simp [setVch, hs]
  | true =>
    have htop := le_readLE_of_signBit hs
    have hz : setVch vch ≠ 0 := by
      intro hz
      have hlen := length_of_minimal h
      rw [hz] at hlen
      obtain rfl : vch = [] := by simpa using hlen
      cases hs
    have hv : setVch vch = -((readLE vch : ℤ) - (128 * 256 ^ (vch.length - 1) : ℕ)) := by
      rw [setVch, if_pos hs]
      push_cast
      rfl
    rw [if_pos (by omega)]
    omega

/-- **A minimal string is determined by its number.** -/
lemma minimal_ext (hv : nonMinimal vch = false) (hb : nonMinimal b = false)
    (h : setVch vch = setVch b) : vch = b := by
  have hlen : vch.length = b.length := by rw [length_of_minimal hv, h, ← length_of_minimal hb]
  rw [← writeLE_readLE vch, readLE_of_minimal hv, hlen, h, ← readLE_of_minimal hb, writeLE_readLE]

/-- **The round trip.** -/
lemma setVch_serialize (hn : n.natAbs < 256 ^ 8) :
    setVch (serialize n) = n ∧ nonMinimal (serialize n) = false := by
  have hread := readLE_leBytes hn
  have hlast := leBytes_getLast hn
  obtain hr | ⟨init, c, hr⟩ := eq_nil_or_concat' (leBytes 8 n.natAbs)
  · obtain rfl : n = 0 := by
      rw [hr] at hread
      exact Int.natAbs_eq_zero.mp hread.symm
    decide
  rw [hr] at hread hlast
  have hbits : ∀ c : UInt8, (0x80 ≤ c → c &&& 0x80 ≠ 0) ∧ (¬ 0x80 ≤ c → c &&& 0x7f = c ∧
      (0x80 ||| c) &&& 0x7f = c ∧ 0x80 ≤ 0x80 ||| c) := by decide +kernel
  -- It is enough that the sign and the magnitude are those of the number.
  have key : ∀ init' b, serialize n = init' ++ [b] → (0x80 ≤ b ↔ n < 0) →
      readLE (init' ++ [b &&& 0x7f]) = n.natAbs → setVch (serialize n) = n := by
    intro init' b he hs hm
    rw [he, setVch_concat, hm]
    split_ifs with h <;> rw [hs] at h <;> omega
  by_cases hc : 0x80 ≤ c
  · -- The sign needs another byte.
    have he : serialize n = init ++ [c] ++ [if n < 0 then 0x80 else 0] := by
      simp [serialize, hr, signBit, hc]
    refine ⟨key _ _ he ?_ ?_, by simp [he, nonMinimal, (hbits c).1 hc]⟩
    · split_ifs with h <;> simp [h]
    · rw [← hread]
      split_ifs <;> simp [readLE_append, readLE]
  · obtain ⟨h1, h2, h3⟩ := (hbits c).2 hc
    have he : serialize n = init ++ [if n < 0 then 0x80 ||| c else c] := by
      split_ifs with h <;> simp [serialize, signBit, hr, hc, h]
    have hlow : (if n < 0 then 0x80 ||| c else c) &&& 0x7f = c := by
      split_ifs
      · exact h2
      · exact h1
    refine ⟨key _ _ he ?_ (by rw [hlow, hread]), ?_⟩
    · split_ifs with h <;> simp [h, h3, hc]
    · rw [he]
      cases hi : init.reverse <;> simp_all [nonMinimal]

/-- **Script numbers are read back** under a limit of at most eight bytes; a ninth one could not be
    shifted into place.  The interpreter has limits of four and five. -/
theorem numberCodec_of_le (hlow : -2 ^ 63 ≤ n) (hhigh : n < 2 ^ 63) (h8 : nMaxNumSize ≤ 8) :
    NumberCodec n nMaxNumSize := by
  obtain ⟨hv, hmin⟩ := setVch_serialize (n := n) (by omega)
  have hdefined : ∀ vch, vch.length ≤ nMaxNumSize → nonMinimal vch = false →
      scriptNum64 vch true nMaxNumSize = .ok (setVch vch) := by
    intro vch hfit hmin
    rw [scriptNum64, scriptNum, if_neg (not_lt.mpr hfit), hmin]
    exact if_neg (by omega)
  refine ⟨fun hfit => ⟨?_, ?_, fun vch hne => ?_⟩, fun h0 => ?_⟩
  · refine if_neg ?_
    rintro rfl
    exact absurd (hfit.trans h8) (by decide)
  · rw [hdefined _ hfit hmin, hv]
  · by_cases hfit' : nMaxNumSize < vch.length
    · rw [scriptNum64, scriptNum, if_pos hfit']
      exact Or.inl ⟨_, rfl⟩
    cases hm : nonMinimal vch with
    | true =>
      rw [scriptNum64, scriptNum, if_neg hfit', hm]
      exact Or.inl ⟨_, rfl⟩
    | false =>
      refine Or.inr ⟨_, ?_, hdefined vch (not_lt.mp hfit') hm⟩
      rintro rfl
      exact hne (minimal_ext hm hmin hv.symm)
  · obtain ⟨k, rfl⟩ := Int.eq_ofNat_of_zero_le h0
    exact vchToUint64_serialize (by omega)

/-- A thousand, under the limit that the interpreter has by default. -/
theorem numberCodec_thousand : (serialize 1000).length ≤ 4 ∧ NumberCodec 1000 4 :=
  ⟨by decide, numberCodec_of_le (by decide) (by decide) (by decide)⟩

end Ybtc
