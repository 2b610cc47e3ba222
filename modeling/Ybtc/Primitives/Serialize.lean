import Ybtc.Primitives.Transaction

/-!
# The serialization of integers

`serialize.h`: integers of fixed width are written as their bytes, the lowest first, and a `VARINT`
as groups of seven bits, the highest first, each but the last with its top bit set.  Every group but
the last stands for one more than its digits, so that each number has exactly one form.

`WriteVarInt` is a template: on an `int` it stops at the first value that is not above `0x7F`, which
every negative number is, so a negative number is written as one byte and not read back.
-/

namespace Ybtc

open BitVec (ofNat)

open Codec List

/-! ## Fixed width -/

/-- `READWRITE` of a 32-bit integer. -/
def write32 (x : BitVec 32) : Bytes := writeLE 4 x.toNat

def read32 : Reader (BitVec 32) := ofNat 32 <$> takeLE 4

lemma reads_write32 (x : BitVec 32) : Reads read32 (write32 x) x := by
  have h := Reads.map (ofNat 32) (reads_le (k := 4) (n := x.toNat) x.isLt)
  rw [BitVec.ofNat_toNat, BitVec.setWidth_eq] at h
  exact h

/-- `READWRITE` of a `uint256`. -/
def writeUint256 (x : Uint256) : Bytes := writeLE 32 x.toNat

def readUint256 : Reader Uint256 := ofNat 256 <$> takeLE 32

lemma reads_writeUint256 (x : Uint256) : Reads readUint256 (writeUint256 x) x := by
  have h := Reads.map (ofNat 256) (reads_le (k := 32) (n := x.toNat) x.isLt)
  rw [BitVec.ofNat_toNat, BitVec.setWidth_eq] at h
  exact h

/-! ## `VARINT` -/

/-- The groups of `WriteVarInt` in front of the last one; the buffer of a 32-bit type has room for
    four of them. -/
def varIntHigh : ℕ → ℕ → Bytes
  | 0, _ => []
  | k + 1, n => (if n ≤ 0x7F then [] else varIntHigh k (n / 128 - 1)) ++
    [UInt8.ofNat (n % 128 + 128)]

/-- `WriteVarInt` for the 32-bit types. -/
def writeVarInt (n : ℤ) : Bytes :=
  if n ≤ 0x7F then [UInt8.ofNat (n % 128).toNat]
  else varIntHigh 4 (n.toNat / 128 - 1) ++ [UInt8.ofNat (n.toNat % 128)]

/-- The loop of `ReadVarInt` for a type with the given largest value. -/
def readVarIntFrom (max : ℕ) : ℕ → Reader ℕ
  | _, [] => none
  | n, chData :: is =>
    if max / 128 < n then none
    else if chData.toNat < 128 then some (n * 128 + chData.toNat % 128, is)
    else if n * 128 + chData.toNat % 128 = max then none
    else readVarIntFrom max (n * 128 + chData.toNat % 128 + 1) is

/-- `ReadVarInt`. -/
def readVarInt (max : ℕ) : Reader ℕ := readVarIntFrom max 0

/-- `std::numeric_limits<int>::max()` -/
def intMax : ℕ := 2 ^ 31 - 1

/-- `std::numeric_limits<unsigned int>::max()` -/
def uintMax : ℕ := 2 ^ 32 - 1

variable {max n : ℕ}

/-- A group that is not the last one. -/
lemma readVarIntFrom_flagged {d : ℕ} (rest : Bytes) (hd : d < 128) (hn : n ≤ max / 128)
    (hne : n * 128 + d ≠ max) :
    readVarIntFrom max n (UInt8.ofNat (d + 128) :: rest) =
      readVarIntFrom max (n * 128 + d + 1) rest := by
  have hbyte := toNat_ofNat_lt (show d + 128 < 256 by omega)
  have hmod : (d + 128) % 128 = d := by omega
  rw [readVarIntFrom, if_neg (by omega), hbyte, hmod, if_neg (by omega), if_neg hne]

/-- The groups of a number that is not in the last one. -/
def varIntPre : ℕ → Bytes
  | 0 => []
  | m + 1 => varIntPre (m / 128) ++ [UInt8.ofNat (m % 128 + 128)]
decreasing_by omega

/-- **The form of a number**, whatever its type. -/
def varIntForm (n : ℕ) : Bytes := varIntPre (n / 128) ++ [UInt8.ofNat (n % 128)]

/-- The buffer is large enough. -/
lemma varIntHigh_eq : ∀ {k m : ℕ}, m < 128 ^ (k + 1) → varIntHigh (k + 1) m = varIntPre (m + 1)
  | k, m, h => by
    rw [varIntHigh, varIntPre]
    split_ifs with hlow
    · rw [Nat.div_eq_of_lt (by omega), varIntPre]
    · match k with
      | 0 => omega
      | k + 1 => rw [varIntHigh_eq (by rw [pow_succ] at h; omega), Nat.sub_add_cancel (by omega)]

lemma writeVarInt_eq (hn : n < 2 ^ 32) : writeVarInt n = varIntForm n := by
  rw [writeVarInt, varIntForm]
  split_ifs with hlow
  · rw [Nat.div_eq_of_lt (by omega), varIntPre, nil_append]
    congr 2
  · rw [Int.toNat_natCast, varIntHigh_eq (by omega), Nat.sub_add_cancel (by omega)]

/-- The groups in front of the last one bring the reader to the number they stand for. -/
lemma readVarIntFrom_pre (rest : Bytes) : ∀ {m : ℕ}, m ≤ max →
    readVarIntFrom max 0 (varIntPre m ++ rest) = readVarIntFrom max m rest
  | 0, _ => by rw [varIntPre, nil_append]
  | m + 1, h => by
    rw [varIntPre, append_assoc, readVarIntFrom_pre _ (by omega), singleton_append,
      readVarIntFrom_flagged rest (by omega) (by omega) (by omega), Nat.div_add_mod']

lemma reads_varIntForm (hn : n ≤ max) : Reads (readVarInt max) (varIntForm n) n := by
  intro rest
  have hlast := toNat_ofNat_lt (show n % 128 < 256 by omega)
  rw [varIntForm, append_assoc, readVarInt, readVarIntFrom_pre _ (by omega), singleton_append,
    readVarIntFrom, if_neg (by omega), hlast, if_pos (by omega), Nat.mod_mod, Nat.div_add_mod']

/-- **Non-negative numbers are read back.** -/
lemma reads_varInt (hmax : max < 2 ^ 32) (hn : n ≤ max) :
    Reads (readVarInt max) (writeVarInt n) n := by
  rw [writeVarInt_eq (by omega)]
  exact reads_varIntForm hn

/-- **The reader stays within its type.** -/
lemma readVarIntFrom_le (hmax : max % 128 = 127) : ∀ {bs : Bytes} {n m : ℕ} {rest : Bytes},
    readVarIntFrom max n bs = some (m, rest) → m ≤ max
  | [], n, m, rest, h => by cases h
  | b :: bs, n, m, rest, h => by
    rw [readVarIntFrom] at h
    split_ifs at h with hn hb hne
    · obtain ⟨rfl, _⟩ := Prod.mk.inj (Option.some.inj h)
      omega
    · exact readVarIntFrom_le hmax h

/-- The reader never returns more than the largest value of its type. -/
lemma readVarInt_le (hmax : max % 128 = 127) : Returns (readVarInt max) (· ≤ max) :=
  fun _ _ _ h => readVarIntFrom_le hmax h

/-! ## The two instances -/

/-- `VARINT` of an `int`. -/
def writeInt (x : BitVec 32) : Bytes := writeVarInt x.toInt

def readInt : Reader (BitVec 32) := ofNat 32 <$> readVarInt intMax

/-- `VARINT` of an `unsigned int`. -/
def writeUInt (x : BitVec 32) : Bytes := writeVarInt x.toNat

def readUInt : Reader (BitVec 32) := ofNat 32 <$> readVarInt uintMax

variable {x : BitVec 32}

lemma toInt_nonneg_iff : 0 ≤ x.toInt ↔ x.toNat ≤ intMax := by
  rw [BitVec.toInt_eq_toNat_cond, intMax]
  split_ifs <;> omega

lemma toInt_of_nonneg (h : 0 ≤ x.toInt) : x.toInt = x.toNat := by
  rw [toInt_nonneg_iff, intMax] at h
  rw [BitVec.toInt_eq_toNat_cond, if_pos (by omega)]

lemma reads_writeInt (h : 0 ≤ x.toInt) : Reads readInt (writeInt x) x := by
  have hread := Reads.map (ofNat 32) (reads_varInt (by decide) (toInt_nonneg_iff.mp h))
  rw [BitVec.ofNat_toNat, BitVec.setWidth_eq, ← toInt_of_nonneg h] at hread
  exact hread

lemma reads_writeUInt (x : BitVec 32) : Reads readUInt (writeUInt x) x := by
  have hread := Reads.map (ofNat 32)
    (@reads_varInt uintMax x.toNat (by decide) (Nat.le_pred_of_lt x.isLt))
  rw [BitVec.ofNat_toNat, BitVec.setWidth_eq] at hread
  exact hread

/-- An `int` that was read is not negative. -/
lemma readInt_nonneg : Returns readInt fun x => 0 ≤ x.toInt := by
  refine (readVarInt_le (by decide)).map fun n hn => ?_
  rw [toInt_nonneg_iff, BitVec.toNat_ofNat]
  exact (Nat.mod_le _ _).trans hn

/-! ## Sizes -/

/-- The largest size that is read. -/
def maxSize : ℕ := 0x02000000

/-- `WriteCompactSize` -/
def writeCompactSize (nSize : ℕ) : Bytes :=
  if nSize < 253 then writeLE 1 nSize
  else if nSize ≤ 0xffff then writeLE 1 253 ++ writeLE 2 nSize
  else if nSize ≤ 0xffffffff then writeLE 1 254 ++ writeLE 4 nSize
  else writeLE 1 255 ++ writeLE 8 nSize

/-- A value that passes a check. -/
def readWhere (P : ℕ → Prop) [DecidablePred P] (r : Reader ℕ) : Reader ℕ :=
  r >>= fun n => if P n then pure n else failure

lemma reads_where {P : ℕ → Prop} [DecidablePred P] {r : Reader ℕ} {bs : Bytes}
    (h : Reads r bs n) (hn : P n) : Reads (readWhere P r) bs n := by
  rw [← append_nil bs]
  refine h.bind ?_
  rw [if_pos hn]
  exact Reads.pure n

/-- `ReadCompactSize`; only the shortest form of a size is accepted. -/
def readCompactSize : Reader ℕ := readWhere (· ≤ maxSize) (takeLE 1 >>= fun chSize =>
  if chSize < 253 then pure chSize
  else if chSize = 253 then readWhere (253 ≤ ·) (takeLE 2)
  else if chSize = 254 then readWhere (0x10000 ≤ ·) (takeLE 4)
  else readWhere (0x100000000 ≤ ·) (takeLE 8))

/-- Sizes are read back up to a limit. -/
lemma reads_compactSize (h : n ≤ maxSize) : Reads readCompactSize (writeCompactSize n) n := by
  refine reads_where ?_ h
  unfold maxSize at h
  unfold writeCompactSize
  split_ifs with h1 h2 h3
  · rw [← append_nil (writeLE 1 n)]
    refine (reads_le (by omega)).bind ?_
    rw [if_pos h1]
    exact Reads.pure n
  · exact (reads_le (by decide)).bind (reads_where (reads_le (by omega)) (by omega))
  · exact (reads_le (by decide)).bind (reads_where (reads_le (by omega)) (by omega))
  · omega

end Ybtc
