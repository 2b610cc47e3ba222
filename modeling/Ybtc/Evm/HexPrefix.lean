import Ybtc.Evm.Rlp
import Ybtc.Core.RadixTrie

/-!
# Keys of the trie

The trie branches on the half bytes of a key.  Part of a key is stored in a node in the hex-prefix
encoding: its first half byte says whether the node is a leaf and whether the number of half bytes
is odd.
-/

namespace Ybtc

open List

/-- Half a byte. -/
abbrev Nibble := Fin 16

instance nibbleNeZero : NeZero 16 := ⟨by decide⟩

/-- The upper and the lower half of a byte: `nibble(data, 2 * i)` and `nibble(data, 2 * i + 1)`. -/
def highNibble (b : UInt8) : Nibble := Fin.ofNat 16 (b.toNat / 16)

def lowNibble (b : UInt8) : Nibble := Fin.ofNat 16 b.toNat

/-- All half bytes of a byte string. -/
def nibblesOf : Bytes → List Nibble
  | [] => []
  | b :: bs => highNibble b :: lowNibble b :: nibblesOf bs

/-- `NibbleSlice(key)`, a whole key.  Its size is a number of 32 bits. -/
def nibbleSlice (key : Bytes) : List Nibble := (nibblesOf key).take (2 * key.length % 2 ^ 32)

/-- Two half bytes in one. -/
def packNibbles : List Nibble → Bytes
  | a :: b :: rest => UInt8.ofNat (a.val * 16 + b.val) :: packNibbles rest
  | _ => []

/-- The first half byte of an encoded key. -/
def keyFlags (leaf odd : Bool) : Nibble :=
  match leaf, odd with
  | false, false => 0
  | false, true => 1
  | true, false => 2
  | true, true => 3

variable (k : List Nibble)

/-- `hexPrefixEncode`: an odd number of half bytes begins in the first byte, beside the flags. -/
def hexPrefixEncode (leaf : Bool) : Bytes :=
  if k.length % 2 = 1 then packNibbles (keyFlags leaf true :: k)
  else packNibbles (keyFlags leaf false :: 0 :: k)

/-- `keyOf` of an encoded key. -/
def keyOf (hpe : Bytes) : List Nibble :=
  match hpe with
  | [] => []
  | b :: _ => if b.toNat / 16 % 2 = 1 then (nibblesOf hpe).drop 1 else (nibblesOf hpe).drop 2

/-- The leaf flag of an encoded key; `none` when there is no first byte to look at. -/
def isLeafKey (hpe : Bytes) : Option Bool := hpe.head?.map fun b => b.toNat / 32 % 2 = 1

/-- `sharedNibbles`. -/
def sharedNibbles (k k' : List Nibble) : ℕ := RadixTrie.shared k k'

/-! ## The round trip -/

private lemma toNat_pack (a b : Nibble) :
    (UInt8.ofNat (a.val * 16 + b.val)).toNat = a * 16 + b := by
  rw [UInt8.toNat_ofNat']
  omega

lemma highNibble_pack (a b : Nibble) : highNibble (UInt8.ofNat (a.val * 16 + b.val)) = a := by
  rw [highNibble, toNat_pack]
  exact Fin.ext (by simp only [Fin.ofNat]; omega)

lemma lowNibble_pack (a b : Nibble) : lowNibble (UInt8.ofNat (a.val * 16 + b.val)) = b := by
  rw [lowNibble, toNat_pack]
  exact Fin.ext (by simp only [Fin.ofNat]; omega)

/-- An even number of half bytes is unpacked again. -/
lemma nibblesOf_packNibbles : ∀ {k : List Nibble}, k.length % 2 = 0 → nibblesOf (packNibbles k) = k
  | [], _ => rfl
  | [_], h => by simp at h
  | a :: b :: k, h => by
    have hk : k.length % 2 = 0 := by
      simp only [length_cons] at h
      omega
    rw [packNibbles, nibblesOf, highNibble_pack, lowNibble_pack, nibblesOf_packNibbles hk]

lemma packNibbles_length : ∀ k : List Nibble, (packNibbles k).length = k.length / 2
  | [] => rfl
  | [_] => by simp [packNibbles]
  | a :: b :: k => by
    rw [packNibbles, length_cons, packNibbles_length k, length_cons, length_cons]
    omega

variable (leaf : Bool)

lemma keyFlags_val (odd : Bool) :
    (keyFlags leaf odd).val = (if leaf then 2 else 0) + if odd then 1 else 0 := by
  cases leaf <;> cases odd <;> rfl

/-- The first byte of an encoded key. -/
lemma hexPrefixEncode_head :
    ∃ b : Nibble, (hexPrefixEncode k leaf).head? =
      some (UInt8.ofNat ((keyFlags leaf (decide (k.length % 2 = 1))).val * 16 + b.val)) := by
  unfold hexPrefixEncode
  split_ifs with h
  · match k with
    | [] => simp at h
    | b :: k => exact ⟨b, by rw [decide_eq_true h]; rfl⟩
  · exact ⟨0, by rw [decide_eq_false h]; rfl⟩

/-- The flag is read back. -/
@[simp] lemma isLeafKey_hexPrefixEncode : isLeafKey (hexPrefixEncode k leaf) = some leaf := by
  obtain ⟨b, hb⟩ := hexPrefixEncode_head k leaf
  rw [isLeafKey, hb, Option.map_some, toNat_pack, keyFlags_val, Option.some.injEq]
  have hlt := b.isLt
  cases leaf with
  | false =>
    rw [decide_eq_false_iff_not, if_neg Bool.false_ne_true]
    split_ifs <;> omega
  | true =>
    rw [decide_eq_true_iff, if_pos rfl]
    split_ifs <;> omega

/-- **The round trip.** -/
@[simp] lemma keyOf_hexPrefixEncode : keyOf (hexPrefixEncode k leaf) = k := by
  obtain ⟨b, hb⟩ := hexPrefixEncode_head k leaf
  have hlt := b.isLt
  have hodd : (UInt8.ofNat ((keyFlags leaf (decide (k.length % 2 = 1))).val * 16 + b.val)).toNat
      / 16 % 2 = 1 ↔ k.length % 2 = 1 := by
    rw [toNat_pack, keyFlags_val]
    by_cases hk : k.length % 2 = 1
    · rw [decide_eq_true hk, if_pos rfl]
      split_ifs <;> omega
    · rw [decide_eq_false hk, if_neg Bool.false_ne_true]
      split_ifs <;> omega
  have hnib : nibblesOf (hexPrefixEncode k leaf) =
      if k.length % 2 = 1 then keyFlags leaf true :: k else keyFlags leaf false :: 0 :: k := by
    unfold hexPrefixEncode
    split_ifs with h
    · exact nibblesOf_packNibbles (by rw [length_cons]; omega)
    · exact nibblesOf_packNibbles (by rw [length_cons, length_cons]; omega)
  obtain ⟨rest, hcons⟩ := head?_eq_some_iff.mp hb
  rw [hcons] at hnib ⊢
  rw [keyOf, hnib]
  simp only [hodd]
  split_ifs with h
  · rfl
  · rfl

lemma nibblesOf_length : ∀ b : Bytes, (nibblesOf b).length = 2 * b.length
  | [] => rfl
  | b :: bs => by
    rw [nibblesOf, length_cons, length_cons, nibblesOf_length bs, length_cons]
    omega

/-- A key of less than two gigabytes is taken whole. -/
lemma nibbleSlice_eq {key : Bytes} (h : key.length < 2 ^ 31) : nibbleSlice key = nibblesOf key := by
  rw [nibbleSlice, Nat.mod_eq_of_lt (by omega), ← nibblesOf_length, take_length]

/-- The half bytes of a byte string determine it. -/
lemma packNibbles_nibblesOf : ∀ b : Bytes, packNibbles (nibblesOf b) = b
  | [] => rfl
  | b :: bs => by
    have hb := b.toNat_lt
    rw [nibblesOf, packNibbles, packNibbles_nibblesOf bs]
    refine congrArg (· :: bs) (UInt8.toNat_inj.mp ?_)
    rw [toNat_pack]
    simp only [highNibble, lowNibble, Fin.ofNat]
    omega

lemma hexPrefixEncode_length : (hexPrefixEncode k leaf).length = k.length / 2 + 1 := by
  unfold hexPrefixEncode
  split_ifs with h
  · rw [packNibbles_length, length_cons]
    omega
  · rw [packNibbles_length, length_cons, length_cons]
    omega

/-! ## The overloads

`hexPrefixEncode` is written three times: for a vector with a begin and an end, for a slice, and for
two slices one behind the other.  All count in 32 bits. -/

/-- The `end` of `hexPrefixEncode`; `e` is an `int`, and a negative one counts from the end. -/
def hexEnd (hexVector : List Nibble) (e : ℕ) : ℕ :=
  if e < 2 ^ 31 then e else (hexVector.length + 1 + e) % 2 ^ 32

/-- The half bytes from `first` to `last`, encoded; an odd one comes first. -/
def hexPrefixPack (hexVector : List Nibble) (leaf : Bool) (first last : ℕ) : Bytes :=
  if (last + first) % 2 = 1 then
    packNibbles
      (keyFlags leaf true :: hexVector.getD first 0 :: (hexVector.take last).drop (first + 1))
  else packNibbles (keyFlags leaf false :: 0 :: (hexVector.take last).drop first)

/-- `hexPrefixEncode(hexVector, leaf, begin, end)`. -/
def hexPrefixEncodeVector (hexVector : List Nibble) (leaf : Bool) (first e : ℕ) :
    Except Fault Bytes :=
  if hexVector.length < hexEnd hexVector e ∨
      ((hexEnd hexVector e + first) % 2 = 1 ∧ hexVector.length ≤ first) then
    .error (.undefined .outOfBounds)
  else .ok (hexPrefixPack hexVector leaf first (hexEnd hexVector e))

/-- The default `_end = -1`. -/
def minusOne : ℕ := 2 ^ 32 - 1

/-- The loops over the half bytes.  An odd `d` puts one beside the last, an even one behind it. -/
def writeNibbles : Bool → Bytes → List Nibble → Bytes
  | _, ret, [] => ret
  | true, ret, n :: ns => writeNibbles false (ret.modifyLast (· ||| UInt8.ofNat n)) ns
  | false, ret, n :: ns => writeNibbles true (ret ++ [UInt8.ofNat (n * 16)]) ns

/-- The flags and the half bytes. -/
def writeKey (leaf odd : Bool) (ns : List Nibble) : Bytes :=
  writeNibbles odd [UInt8.ofNat ((keyFlags leaf odd).val * 16)] ns

/-- `nibble(data, i)` for `i` from `first` to `last`. -/
def nibblesFrom (data : Bytes) (first last : ℕ) : List Nibble :=
  ((nibblesOf data).take last).drop first

/-- The `end` of a slice, with the overflow of an `int`. -/
def sliceEnd (size offset : ℕ) (endNibble : ℤ) : Except Fault ℕ :=
  let rest := Int.bmod (2 * size - offset) (2 ^ 32)
  if 0 ≤ endNibble then .ok ((endNibble + offset) % 2 ^ 32).toNat
  else if rest = 2 ^ 31 - 1 ∨ rest + 1 + endNibble < -2 ^ 31 then .error (.undefined .arithmetic)
  else .ok ((rest + 1 + endNibble + offset) % 2 ^ 32).toNat

/-- `hexPrefixEncode(data, leaf, beginNibble, endNibble, offset)`, also for a `NibbleSlice`. -/
def hexPrefixEncodeSlice (data : Bytes) (leaf : Bool) (beginNibble endNibble : ℤ) (offset : ℕ) :
    Except Fault Bytes := do
  let first := ((beginNibble + offset) % 2 ^ 32).toNat
  let last ← sliceEnd data.length offset endNibble
  if first < last ∧ 2 * data.length < last then .error (.undefined .outOfBounds)
  else .ok (writeKey leaf ((last + first) % 2 = 1) (nibblesFrom data first last))

/-- `hexPrefixEncode(d1, o1, d2, o2, leaf)`. -/
def hexPrefixEncodeSlices (d1 : Bytes) (o1 : ℕ) (d2 : Bytes) (o2 : ℕ) (leaf : Bool) : Bytes :=
  let end1 := 2 * d1.length % 2 ^ 32
  let end2 := 2 * d2.length % 2 ^ 32
  writeKey leaf ((end1 + o1 + end2 + o2) % 2 = 1) (nibblesFrom d1 o1 end1 ++ nibblesFrom d2 o2 end2)

/-- `keyOf` as a slice, whose size has 32 bits. -/
def keySlice (hpe : Bytes) : List Nibble := (keyOf hpe).take ((keyOf hpe).length % 2 ^ 32)

/-- The half bytes and the flag are encoded and read back. -/
def Encodes (k : List Nibble) (leaf : Bool) (out : Except Fault Bytes) : Prop :=
  out = .ok (hexPrefixEncode k leaf) ∧ keySlice (hexPrefixEncode k leaf) = k ∧
    isLeafKey (hexPrefixEncode k leaf) = some leaf

/-- The end that an `int` stands for: a negative one counts from behind. -/
def EndsAt (len offset : ℕ) (e : ℤ) (last : ℕ) : Prop :=
  -2 ^ 31 ≤ e ∧ e < 2 ^ 31 ∧ (last : ℤ) = if e < 0 then len + 1 + e else offset + e

/-- **All overloads encode** what is in data of at most `size` half bytes. -/
structure OverloadsAgree (size : ℕ) : Prop where
  vector : ∀ (k : List Nibble) (first last : ℕ) (e : ℤ) (leaf : Bool), k.length ≤ size →
    first < 2 ^ 31 → first ≤ last → last ≤ k.length → EndsAt k.length 0 e last →
      Encodes ((k.take last).drop first) leaf
        (hexPrefixEncodeVector k leaf first (e % 2 ^ 32).toNat)
  slice : ∀ (data : Bytes) (offset first last : ℕ) (e : ℤ) (leaf : Bool), 2 * data.length ≤ size →
    offset < 2 ^ 32 → first < 2 ^ 31 → offset + first ≤ last → last ≤ 2 * data.length →
      EndsAt (2 * data.length) offset e last → Encodes (nibblesFrom data (offset + first) last) leaf
        (hexPrefixEncodeSlice data leaf first e offset)
  slices : ∀ (d1 d2 : Bytes) (o1 o2 : ℕ) (leaf : Bool), 2 * d1.length ≤ size →
    2 * d2.length ≤ size → o1 < 2 ^ 32 → o2 < 2 ^ 32 → o1 ≤ 2 * d1.length → o2 ≤ 2 * d2.length →
      Encodes ((nibblesOf d1).drop o1 ++ (nibblesOf d2).drop o2) leaf
        (.ok (hexPrefixEncodeSlices d1 o1 d2 o2 leaf))

lemma or_pack :
    ∀ a b : Nibble, UInt8.ofNat (a * 16) ||| UInt8.ofNat b = UInt8.ofNat (a * 16 + b) := by
  decide +kernel

lemma writeNibbles_even (ret : Bytes) : ∀ {ns : List Nibble}, ns.length % 2 = 0 →
    writeNibbles false ret ns = ret ++ packNibbles ns
  | [], _ => by simp [writeNibbles, packNibbles]
  | [_], h => by simp at h
  | a :: b :: ns, h => by
    have hns : ns.length % 2 = 0 := by simpa [Nat.add_assoc] using h
    rw [writeNibbles, writeNibbles, modifyLast_concat, or_pack,
      writeNibbles_even _ hns, packNibbles,
      append_assoc, singleton_append]

/-- **What the loop writes** is the encoded key. -/
lemma writeKey_eq (leaf : Bool) (ns : List Nibble) :
    writeKey leaf (ns.length % 2 = 1) ns = hexPrefixEncode ns leaf := by
  rw [hexPrefixEncode, writeKey]
  split_ifs with h
  · obtain ⟨n, ns, rfl⟩ := exists_cons_of_length_pos (l := ns) (by omega)
    have hns : ns.length % 2 = 0 := by rw [length_cons] at h; omega
    rw [decide_eq_true h, writeNibbles, ← nil_append [_], modifyLast_concat, or_pack,
      writeNibbles_even _ hns]
    rfl
  · rw [decide_eq_false h, writeNibbles_even _ (by omega)]
    rfl

variable {k} {leaf}

/-- Within the range of an `int` the half bytes from `first` to `last` are encoded. -/
lemma hexPrefixEncodeVector_eq {leaf : Bool} {first last e : ℕ} (he : hexEnd k e = last)
    (hf : first ≤ last) (hl : last ≤ k.length) :
    hexPrefixEncodeVector k leaf first e =
      .ok (hexPrefixEncode ((k.take last).drop first) leaf) := by
  have hlen : ((k.take last).drop first).length = last - first := by
    rw [length_drop, length_take, min_eq_left hl]
  rw [hexPrefixEncodeVector, he, if_neg (by omega), hexPrefixPack, hexPrefixEncode, hlen]
  by_cases hodd : (last + first) % 2 = 1
  · have hlt : first < k.length := by omega
    have hcons : (k.take last).drop first = k.getD first 0 :: (k.take last).drop (first + 1) := by
      rw [drop_eq_getElem_cons (by rw [length_take]; omega), getElem_take,
        getD_eq_getElem?_getD, getElem?_eq_getElem hlt, Option.getD_some]
    rw [if_pos hodd, if_pos (by omega), hcons]
  · rw [if_neg hodd, if_neg (by omega)]

lemma hexEnd_minusOne (h : k.length < 2 ^ 31) : hexEnd k minusOne = k.length := by
  rw [hexEnd, minusOne, if_neg (by omega)]
  omega

lemma encodes_ok {k : List Nibble} (hk : k.length < 2 ^ 32) :
    Encodes k leaf (.ok (hexPrefixEncode k leaf)) := by
  refine ⟨rfl, ?_, isLeafKey_hexPrefixEncode k leaf⟩
  rw [keySlice, keyOf_hexPrefixEncode, Nat.mod_eq_of_lt hk, take_length]

lemma slice_encodes {data : Bytes} {offset first last : ℕ} {e : ℤ} (h : 2 * data.length < 2 ^ 31)
    (hf : offset + first ≤ last) (hl : last ≤ 2 * data.length)
    (he : EndsAt (2 * data.length) offset e last) :
    Encodes (nibblesFrom data (offset + first) last) leaf
      (hexPrefixEncodeSlice data leaf first e offset) := by
  have hlen : (nibblesFrom data (offset + first) last).length = last - (offset + first) := by
    rw [nibblesFrom, length_drop, length_take, nibblesOf_length, min_eq_left hl]
  obtain ⟨-, -, he⟩ := he
  have hrest : Int.bmod (2 * data.length - offset) (2 ^ 32) = 2 * data.length - offset :=
    Int.bmod_eq_of_le (by omega) (by omega)
  have hend : sliceEnd data.length offset e = .ok last := by
    simp only [sliceEnd, hrest]
    split_ifs at he ⊢
    all_goals first | omega | (congr 1; omega)
  have hfirst : ((first + (offset : ℤ)) % 2 ^ 32).toNat = offset + first := by omega
  have hout : hexPrefixEncodeSlice data leaf first e offset =
      .ok (hexPrefixEncode (nibblesFrom data (offset + first) last) leaf) := by
    rw [← writeKey_eq, hlen, hexPrefixEncodeSlice, hfirst, hend]
    refine (if_neg (by omega)).trans ?_
    congr 2
    simp
    omega
  rw [hout]
  exact encodes_ok (by omega)

/-- **The overloads agree, and are read back, on data of less than `2 ^ 31` half bytes.**  Behind
    that the `int` of a slice's end overflows; the keys of the trie have 64 half bytes. -/
theorem overloadsAgree_of_lt (size : ℕ) (hsize : size < 2 ^ 31) : OverloadsAgree size := by
  refine ⟨?_, ?_, ?_⟩
  · intro k first last e leaf hk _ hf hl he
    have hend : hexEnd k (e % 2 ^ 32).toNat = last := by
      obtain ⟨h1, h2, h3⟩ := he
      rw [hexEnd]
      split_ifs at h3 ⊢ <;> omega
    rw [hexPrefixEncodeVector_eq hend hf hl]
    exact encodes_ok (by rw [length_drop, length_take]; omega)
  · exact fun data offset first last e leaf hd _ _ hf hl he => slice_encodes (by omega) hf hl he
  · intro d1 d2 o1 o2 leaf h1 h2 _ _ ho1 ho2
    have hall : ∀ {d : Bytes} {o : ℕ}, 2 * d.length ≤ size →
        nibblesFrom d o (2 * d.length % 2 ^ 32) = (nibblesOf d).drop o := by
      intro d o hd
      rw [nibblesFrom, Nat.mod_eq_of_lt (by omega), ← nibblesOf_length, take_length]
    have hlen : ((nibblesOf d1).drop o1 ++ (nibblesOf d2).drop o2).length
        = 2 * d1.length - o1 + (2 * d2.length - o2) := by
      rw [length_append, length_drop, length_drop, nibblesOf_length, nibblesOf_length]
    have hout : hexPrefixEncodeSlices d1 o1 d2 o2 leaf =
        hexPrefixEncode ((nibblesOf d1).drop o1 ++ (nibblesOf d2).drop o2) leaf := by
      rw [← writeKey_eq, hlen, hexPrefixEncodeSlices, hall h1, hall h2]
      congr 1
      simp
      omega
    rw [hout]
    exact encodes_ok (by omega)

/-- The half bytes 1, 2, 3 of a leaf, from a vector, behind an offset, and from two slices. -/
theorem overloadsAgree_four : (4 : ℕ) < 2 ^ 31 ∧
    hexPrefixEncodeVector [1, 2, 3] true 0 minusOne = .ok [0x31, 0x23] ∧
      hexPrefixEncodeSlice [0x01, 0x23] true 0 (-1) 1 = .ok [0x31, 0x23] ∧
      hexPrefixEncodeSlices [0x01] 1 [0x23] 0 true = [0x31, 0x23] := by
  have agree := overloadsAgree_of_lt 4 (by decide)
  have hvector := agree.vector [1, 2, 3] 0 3 (-1) true (by decide) (by decide) (by decide)
    (by decide) ⟨by decide, by decide, by decide⟩
  have hslice := agree.slice [0x01, 0x23] 1 0 4 (-1) true (by decide) (by decide) (by decide)
    (by decide) (by decide) ⟨by decide, by decide, by decide⟩
  have hslices := agree.slices [0x01] [0x23] 1 0 true (by decide) (by decide) (by decide)
    (by decide) (by decide) (by decide)
  exact ⟨by decide, hvector.1, hslice.1, Except.ok.inj hslices.1⟩

end Ybtc
