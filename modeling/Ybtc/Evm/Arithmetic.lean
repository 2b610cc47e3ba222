import Ybtc.Evm.Interpreter

/-!
# The arithmetic of the virtual machine

The main loop works on unsigned words; for signed ones it goes through numbers with a sign and a
magnitude, and divides in 512 bits.  The specification has 256-bit words and integers.  The main
result is `VM.arithmetic_meant`.
-/

namespace Ybtc

open BitVec (ofInt)

open Nat BitVec

/-! ## The code -/

/-- A conversion to `s256` or `s512`, which keep the sign and so many bits of the magnitude. -/
def toSigned (bits : ℕ) (n : ℤ) : ℤ := n.sign * ((n.natAbs % 2 ^ bits : ℕ) : ℤ)

/-- `u2s`. -/
def u2s (u : U256) : ℤ :=
  if u.getLsbD 255 then toSigned 256 (-(2 ^ 256 - u.toNat)) else toSigned 256 u.toNat

/-- `s2u`. -/
def s2u (n : ℤ) : U256 := if 0 ≤ n then ofInt 256 n else ofInt 256 (2 ^ 256 + n)

/-- The bits of `u512` and `s512`. -/
def wide : ℕ := 512

/-- A division in 512 bits, before its result is converted back. -/
def workaround (op : ℤ → ℤ → ℤ) (a b : ℤ) : ℤ := op (toSigned wide a) (toSigned wide b)

def divWorkaround : ℤ → ℤ → ℤ := workaround Int.tdiv

def modWorkaround : ℤ → ℤ → ℤ := workaround Int.tmod

/-- **What an arithmetic instruction leaves** for the items it takes off the stack. -/
def arithmetic : Instruction → List U256 → U256
  | .add, [a, b] => b + a
  | .mul, [a, b] => b * a
  | .sub, [a, b] => a - b
  | .div, [a, b] => if b = 0 then 0 else ofInt 256 (divWorkaround a.toNat b.toNat)
  | .sdiv, [a, b] => if b = 0 then 0 else s2u (toSigned 256 (divWorkaround (u2s a) (u2s b)))
  | .mod, [a, b] => if b = 0 then 0 else ofInt 256 (modWorkaround a.toNat b.toNat)
  | .smod, [a, b] => if b = 0 then 0 else s2u (toSigned 256 (modWorkaround (u2s a) (u2s b)))
  | .addmod, [a, b, c] =>
    if c = 0 then 0 else ((a.setWidth wide + b.setWidth wide) % c.setWidth wide).setWidth 256
  | .mulmod, [a, b, c] =>
    if c = 0 then 0 else (a.setWidth wide * b.setWidth wide % c.setWidth wide).setWidth 256
  | .exp, [a, b] => exp256 a b
  | .signextend, [a, b] => signextendOp a b
  | .byte, [a, b] => byteOp a b
  | .lt, [a, b] => boolWord (decide (a < b))
  | .gt, [a, b] => boolWord (decide (b < a))
  | .slt, [a, b] => boolWord (decide (u2s a < u2s b))
  | .sgt, [a, b] => boolWord (decide (u2s b < u2s a))
  | _, _ => 0

/-! ## The specification -/

/-- **What the result means.**  `toNat` is the value of a word, `toInt` that in two's complement. -/
def Meant : Instruction → List U256 → U256 → Prop
  | .add, [a, b], r => r.toNat = (a.toNat + b.toNat) % 2 ^ 256
  | .mul, [a, b], r => r.toNat = a.toNat * b.toNat % 2 ^ 256
  | .sub, [a, b], r => (r.toNat : ℤ) = (a.toNat - b.toNat : ℤ) % 2 ^ 256
  | .div, [a, b], r => r.toNat = if b = 0 then 0 else a.toNat / b.toNat
  | .sdiv, [a, b], r => r.toInt = if b = 0 then 0
      else if a.toInt = -2 ^ 255 ∧ b.toInt = -1 then -2 ^ 255 else a.toInt.tdiv b.toInt
  | .mod, [a, b], r => r.toNat = if b = 0 then 0 else a.toNat % b.toNat
  | .smod, [a, b], r => r.toInt = if b = 0 then 0 else a.toInt.tmod b.toInt
  | .addmod, [a, b, c], r => r.toNat = if c = 0 then 0 else (a.toNat + b.toNat) % c.toNat
  | .mulmod, [a, b, c], r => r.toNat = if c = 0 then 0 else a.toNat * b.toNat % c.toNat
  | .exp, [a, b], r => r.toNat = a.toNat ^ b.toNat % 2 ^ 256
  | .signextend, [a, b], r =>
    if a.toNat < 31 then ∀ i < 256, r.getLsbD i = b.getLsbD (min i (a.toNat * 8 + 7)) else r = b
  | .byte, [a, b], r => r.toNat = if a.toNat < 32 then b.toNat / 256 ^ (31 - a.toNat) % 256 else 0
  | .lt, [a, b], r => r = if a.toNat < b.toNat then 1 else 0
  | .gt, [a, b], r => r = if a.toNat > b.toNat then 1 else 0
  | .slt, [a, b], r => r = if a.toInt < b.toInt then 1 else 0
  | .sgt, [a, b], r => r = if a.toInt > b.toInt then 1 else 0
  | _, _, _ => False

/-! ## Conversions -/

section Conversions

variable {m n : ℤ} {bits : ℕ} {a b c : U256}

lemma toSigned_of_lt (h : n.natAbs < 2 ^ bits) : toSigned bits n = n := by
  rw [toSigned, mod_eq_of_lt h, Int.sign_mul_natAbs]

/-- **`u2s` is the value in two's complement.** -/
lemma u2s_eq (u : U256) : u2s u = u.toInt := by
  have hlt := u.isLt
  have hbit : u.getLsbD 255 = decide (2 ^ 255 ≤ u.toNat) :=
    (msb_eq_getLsbD_last u).symm.trans (msb_eq_decide u)
  rw [u2s, hbit, toInt_eq_toNat_cond]
  by_cases h : 2 ^ 255 ≤ u.toNat
  · rw [if_pos (by simpa using h), if_neg (by omega), toSigned_of_lt (by omega)]
    omega
  · rw [if_neg (by simpa using h), if_pos (by omega), toSigned_of_lt (by omega)]

lemma natAbs_toInt_le (u : U256) : u.toInt.natAbs ≤ 2 ^ 255 := by
  have h1 := u.le_toInt
  have h2 := u.toInt_lt (w := 256)
  omega

/-- `s2u` keeps the value, up to the modulus. -/
lemma s2u_eq (h : n.natAbs ≤ 2 ^ 255) : s2u (toSigned 256 n) = ofInt 256 n := by
  rw [toSigned_of_lt (by omega), s2u]
  split_ifs
  · rfl
  · rw [ofInt_add]
    exact zero_add _

variable (op : ℤ → ℤ → ℤ)

lemma workaround_eq (hm : m.natAbs < 2 ^ 256) (hn : n.natAbs < 2 ^ 256) :
    workaround op m n = op m n := by
  have hpow : 2 ^ 256 < 2 ^ wide := Nat.pow_lt_pow_right (by decide) (by decide)
  rw [workaround, toSigned_of_lt (hm.trans hpow), toSigned_of_lt (hn.trans hpow)]

/-- An unsigned division. -/
lemma workaround_toNat : workaround op a.toNat b.toNat = op a.toNat b.toNat :=
  workaround_eq op a.isLt b.isLt

/-- A signed division, whose result is not larger than what is divided. -/
lemma s2u_workaround {op : ℤ → ℤ → ℤ} (hop : (op a.toInt b.toInt).natAbs ≤ a.toInt.natAbs) :
    s2u (toSigned 256 (workaround op (u2s a) (u2s b))) = ofInt 256 (op a.toInt b.toInt) := by
  have ha := natAbs_toInt_le a
  have hb := natAbs_toInt_le b
  rw [u2s_eq, u2s_eq, workaround_eq op (by omega) (by omega), s2u_eq (hop.trans ha)]

lemma toNat_wide (a : U256) : (a.setWidth wide).toNat = a.toNat := toNat_setWidth_of_le (by decide)

/-- A remainder in 512 bits. -/
lemma wide_mod {x : BitVec wide} {n : ℕ} (hx : x.toNat = n % 2 ^ wide)
    (hn : n < 2 ^ 256 * 2 ^ 256) :
    (x % c.setWidth wide).setWidth 256 = BitVec.ofNat 256 (n % c.toNat) := by
  rw [← pow_add, show 256 + 256 = wide from rfl] at hn
  apply eq_of_toNat_eq
  rw [toNat_setWidth, toNat_umod, toNat_wide, hx, mod_eq_of_lt hn, toNat_ofNat]

end Conversions

/-! ## Results -/

section Results

variable (a b c : U256)

lemma divOp_toNat : (divOp a b).toNat = if b = 0 then 0 else a.toNat / b.toNat := by
  rw [divOp, apply_ite BitVec.toNat, toNat_ofNat, mod_eq_of_lt ((div_le_self _ _).trans_lt a.isLt)]
  rfl

/-- A remainder by a word is a word. -/
lemma ofNat_mod_toNat (n : ℕ) : (if c = 0 then 0 else BitVec.ofNat 256 (n % c.toNat)).toNat =
    if c = 0 then 0 else n % c.toNat := by
  split_ifs with hc
  · rfl
  · have hpos : 0 < c.toNat := pos_of_ne_zero fun h => hc (eq_of_toNat_eq h)
    rw [toNat_ofNat, mod_eq_of_lt ((mod_lt _ hpos).trans c.isLt)]

lemma sdivOp_eq : sdivOp a b = a.sdiv b := by
  rw [sdivOp]
  split_ifs with hb
  · rw [hb]
    exact sdiv_zero.symm
  · rw [← toInt_inj, toInt_ofInt, toInt_sdiv]

/-- Only the least number divided by -1 is out of range. -/
lemma sdivOp_toInt : (sdivOp a b).toInt = if b = 0 then 0
    else if a.toInt = -2 ^ 255 ∧ b.toInt = -1 then -2 ^ 255 else a.toInt.tdiv b.toInt := by
  split_ifs with hb hmin
  · rw [sdivOp, if_pos hb]
    rfl
  · rw [sdivOp_eq, toInt_sdiv, hmin.1, hmin.2]
    rfl
  · rw [sdivOp_eq, toInt_sdiv_of_ne_or_ne]
    rw [← not_and_or]
    rintro ⟨rfl, rfl⟩
    exact hmin ⟨rfl, rfl⟩

lemma smodOp_toInt : (smodOp a b).toInt = if b = 0 then 0 else a.toInt.tmod b.toInt := by
  rw [smodOp, apply_ite BitVec.toInt, toInt_ofInt, ← toInt_srem, toInt_bmod_cancel]
  rfl

/-- **The loop of `exp256`**: what is left of the power is in the base and the exponent. -/
lemma expLoop_toNat : ∀ {turns : ℕ} {result base exponent : U256}, exponent.toNat < 2 ^ turns →
    (expLoop turns result base exponent).toNat =
      result.toNat * base.toNat ^ exponent.toNat % 2 ^ 256
  | 0, result, base, exponent, h => by
    rw [expLoop, show exponent.toNat = 0 by omega, pow_zero, mul_one, mod_eq_of_lt result.isLt]
  | turns + 1, result, base, exponent, h => by
    rw [expLoop]
    by_cases hz : exponent = 0
    · rw [if_pos hz, hz, show BitVec.toNat (0 : U256) = 0 from rfl, pow_zero, mul_one,
        mod_eq_of_lt result.isLt]
    · have hhalf : (exponent >>> 1).toNat = exponent.toNat / 2 := by
        rw [toNat_ushiftRight, shiftRight_one]
      have hsquare : (base * base).toNat ≡ base.toNat ^ 2 [MOD 2 ^ 256] := by
        rw [toNat_mul, ← pow_two]
        exact mod_modEq _ _
      have hresult : (if exponent.toNat % 2 = 1 then result * base else result).toNat ≡
          result.toNat * base.toNat ^ (exponent.toNat % 2) [MOD 2 ^ 256] := by
        split_ifs with hodd
        · rw [toNat_mul, hodd, pow_one]
          exact mod_modEq _ _
        · rw [show exponent.toNat % 2 = 0 by omega, pow_zero, mul_one]
      rw [if_neg hz, expLoop_toNat (by rw [hhalf]; omega), hhalf]
      refine (hresult.mul (hsquare.pow _)).trans (Eq.symm ?_)
      rw [← pow_mul, mul_assoc, ← pow_add, mod_add_div]

lemma byteOp_toNat : (byteOp a b).toNat =
    if a.toNat < 32 then b.toNat / 256 ^ (31 - a.toNat) % 256 else 0 := by
  rw [byteOp, apply_ite BitVec.toNat, toNat_and, toNat_ushiftRight, shiftRight_eq_div_pow, pow_mul]
  exact if_congr Iff.rfl (and_two_pow_sub_one_eq_mod _ 8) rfl

/-- The lower bits of a word. -/
lemma mask_getLsbD {t i : ℕ} (ht : t < 256) (hi : i < 256) :
    (1 <<< t - 1 : U256).getLsbD i = decide (i < t) := by
  have hmask : (1 <<< t - 1 : U256) = BitVec.ofNat 256 (2 ^ t - 1) := by
    have hpow : 2 ^ t < 2 ^ 256 := Nat.pow_lt_pow_right (by decide) ht
    have hpos := Nat.two_pow_pos t
    apply eq_of_toNat_eq
    rw [toNat_sub, Nat.one_shiftLeft, toNat_ofNat]
    change (2 ^ 256 - 1 + 2 ^ t % 2 ^ 256) % 2 ^ 256 = _
    omega
  rw [hmask, getLsbD_ofNat, testBit_two_pow_sub_one]
  simp [hi]

/-- The bits above the sign bit are the sign bit. -/
lemma signextendOp_getLsbD (ha : a.toNat < 31) {i : ℕ} (hi : i < 256) :
    (signextendOp a b).getLsbD i = b.getLsbD (min i (a.toNat * 8 + 7)) := by
  have hmask := mask_getLsbD (t := a.toNat * 8 + 7) (by omega) hi
  rw [signextendOp, if_pos (show a < 31 from ha)]
  dsimp only
  split_ifs with hbit
  · rw [getLsbD_or, getLsbD_not, hmask]
    rcases lt_or_ge i (a.toNat * 8 + 7) with h | h
    · simp [min_eq_left h.le, h]
    · simp [h, hi, hbit]
  · rw [getLsbD_and, hmask]
    rcases lt_or_ge i (a.toNat * 8 + 7) with h | h
    · simp [min_eq_left h.le, h]
    · simp [h, hbit]

lemma boolWord_decide (p : Prop) [Decidable p] : boolWord (decide p) = if p then 1 else 0 :=
  if_congr decide_eq_true_iff rfl rfl

end Results

namespace VM

/-! ## The machine -/

variable {vm : VM} {a b c : U256} {st : List U256} {g : ℕ} {op : Instruction}

/-- The machine behind an instruction that costs `g` and leaves `r`. -/
def passing (vm : VM) (g : ℕ) (r : U256) (st : List U256) : VM :=
  { vm with ioGas := vm.ioGas - g, stack := r :: st, pc := vm.pc + 1 }

lemma binary_passing {f : U256 → U256 → U256} (hst : vm.stack = a :: b :: st) (hg : g ≤ vm.ioGas) :
    binary f g vm = .ok none (vm.passing g (f a b) st) := by
  obtain ⟨⟩ := vm
  cases hst
  have hpay : updateIOGas g _ = .ok () _ := if_neg (not_lt.mpr hg)
  exact Stateful.bind_of_ok hpay

lemma ternary_passing {f : U256 → U256 → U256 → U256} (hst : vm.stack = a :: b :: c :: st)
    (hg : g ≤ vm.ioGas) : ternary f g vm = .ok none (vm.passing g (f a b c) st) := by
  obtain ⟨⟩ := vm
  cases hst
  have hpay : updateIOGas g _ = .ok () _ := if_neg (not_lt.mpr hg)
  exact Stateful.bind_of_ok hpay

/-- What an instruction costs: `EXP` by the bytes of its exponent, the others by their tier. -/
def arithmeticGas (op : Instruction) (as : List U256) (g : ℕ) : ℕ :=
  if op = .exp then Schedule.expGas + Schedule.expByteGas * (32 - firstBitSet (as.getD 1 0) / 8)
  else g

/-- **The instruction does what is meant**: with the gas for it, it replaces its operands by the
    result and goes on. -/
def Performs (op : Instruction) (as : List U256) : Prop :=
  Meant op as (arithmetic op as) ∧
    ∀ (env : StateEnv) (ix : Indexing) (vm : VM) (st : List U256) (g : ℕ), vm.stack = as ++ st →
      arithmeticGas op as g ≤ vm.ioGas → execute env ix op g vm =
        .ok none (vm.passing (arithmeticGas op as g) (arithmetic op as) st)

lemma performs_binary (f : U256 → U256 → U256) (hex : ∀ env ix g, execute env ix op g = binary f g)
    (hne : op ≠ .exp) (hf : arithmetic op [a, b] = f a b) (hm : Meant op [a, b] (f a b)) :
    Performs op [a, b] := by
  refine ⟨hf ▸ hm, fun env ix vm st g hst hg => ?_⟩
  rw [arithmeticGas, if_neg hne] at hg ⊢
  rw [hex, hf]
  exact binary_passing hst hg

lemma performs_ternary (f : U256 → U256 → U256 → U256)
    (hex : ∀ env ix g, execute env ix op g = ternary f g) (hne : op ≠ .exp)
    (hf : arithmetic op [a, b, c] = f a b c) (hm : Meant op [a, b, c] (f a b c)) :
    Performs op [a, b, c] := by
  refine ⟨hf ▸ hm, fun env ix vm st g hst hg => ?_⟩
  rw [arithmeticGas, if_neg hne] at hg ⊢
  rw [hex, hf]
  exact ternary_passing hst hg

lemma performs_exp : Performs .exp [a, b] := by
  refine ⟨?_, fun env ix vm st g hst hg => ?_⟩
  · have h : (expLoop 256 1 a b).toNat = _ := expLoop_toNat b.isLt
    rwa [show BitVec.toNat (1 : U256) = 1 from rfl, one_mul] at h
  · have hpeek : peek 1 vm = .ok b vm := by
      unfold peek
      rw [hst]
      rfl
    exact (Stateful.bind_of_ok hpeek).trans (binary_passing hst hg)

/-- **The arithmetic of the machine** is that of the specification, for all operands. -/
theorem arithmetic_meant :
    (∀ op ∈ [Instruction.add, .mul, .sub, .div, .sdiv, .mod, .smod, .exp, .signextend, .byte, .lt,
      .gt, .slt, .sgt], ∀ a b, Performs op [a, b]) ∧
    ∀ op ∈ [Instruction.addmod, .mulmod], ∀ a b c, Performs op [a, b, c] := by
  refine ⟨fun op hop a b => ?_, fun op hop a b c => ?_⟩
  · fin_cases hop
    · refine performs_binary (fun a b => b + a) (fun _ _ _ => rfl) (by decide) rfl ?_
      rw [Meant, toNat_add, add_comm]
    · refine performs_binary (fun a b => b * a) (fun _ _ _ => rfl) (by decide) rfl ?_
      rw [Meant, toNat_mul, mul_comm]
    · refine performs_binary (fun a b => a - b) (fun _ _ _ => rfl) (by decide) rfl ?_
      have ha := a.isLt
      have hb := b.isLt
      rw [Meant, toNat_sub]
      omega
    · refine performs_binary divOp (fun _ _ _ => rfl) (by decide) ?_ (divOp_toNat a b)
      rw [arithmetic, divWorkaround, workaround_toNat]
      rfl
    · refine performs_binary sdivOp (fun _ _ _ => rfl) (by decide) ?_ (sdivOp_toInt a b)
      rw [arithmetic, divWorkaround,
        s2u_workaround (by rw [Int.natAbs_tdiv]; exact div_le_self _ _)]
      rfl
    · refine performs_binary modOp (fun _ _ _ => rfl) (by decide) ?_ (ofNat_mod_toNat b _)
      rw [arithmetic, modWorkaround, workaround_toNat]
      rfl
    · refine performs_binary smodOp (fun _ _ _ => rfl) (by decide) ?_ (smodOp_toInt a b)
      rw [arithmetic, modWorkaround, s2u_workaround (by rw [Int.natAbs_tmod]; exact mod_le _ _)]
      rfl
    · exact performs_exp
    · refine performs_binary signextendOp (fun _ _ _ => rfl) (by decide) rfl ?_
      rw [Meant]
      split_ifs with ha
      · exact fun i hi => signextendOp_getLsbD a b ha hi
      · exact if_neg ha
    · exact performs_binary byteOp (fun _ _ _ => rfl) (by decide) rfl (byteOp_toNat a b)
    · exact performs_binary _ (fun _ _ _ => rfl) (by decide) rfl (boolWord_decide _)
    · exact performs_binary _ (fun _ _ _ => rfl) (by decide) rfl (boolWord_decide _)
    · refine performs_binary _ (fun _ _ _ => rfl) (by decide) ?_ (boolWord_decide _)
      rw [arithmetic, u2s_eq, u2s_eq]
    · refine performs_binary _ (fun _ _ _ => rfl) (by decide) ?_ (boolWord_decide _)
      rw [arithmetic, u2s_eq, u2s_eq]
  · fin_cases hop
    · refine performs_ternary addmodOp (fun _ _ _ => rfl) (by decide) ?_ (ofNat_mod_toNat c _)
      have hlt := Nat.add_lt_add a.isLt b.isLt
      rw [arithmetic, wide_mod (by rw [toNat_add, toNat_wide, toNat_wide]) (by omega)]
      rfl
    · refine performs_ternary mulmodOp (fun _ _ _ => rfl) (by decide) ?_ (ofNat_mod_toNat c _)
      have hlt := Nat.mul_lt_mul'' a.isLt b.isLt
      rw [arithmetic, wide_mod (by rw [toNat_mul, toNat_wide, toNat_wide]) hlt]
      rfl

/-- The least number divided by -1 is itself. -/
theorem arithmetic_meant_least : Instruction.sdiv ∈ [Instruction.add, .mul, .sub, .div, .sdiv, .mod,
      .smod, .exp, .signextend, .byte, .lt, .gt, .slt, .sgt] ∧
    (arithmetic .sdiv [intMin 256, -1]).toInt = -2 ^ 255 :=
  ⟨by decide, (arithmetic_meant.1 .sdiv (by decide) (intMin 256) (-1)).1.trans rfl⟩

end VM

end Ybtc
