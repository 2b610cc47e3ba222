import Ybtc.Script.Script

/-!
# The rolling bloom filter

`CRollingBloomFilter` from `bloom.cpp`.  A key has up to fifty places in a table.  A place holds the
number of the generation that marked it last, one bit in each of two words, and zero if there is
none.  After `nEntriesPerGeneration` insertions the next of three generations begins, and what is
left of the one that had the number before is wiped.
-/

namespace Ybtc

open BitVec (ofNat)

open List Function

/-- What the constructor computes in floating point, for a false-positive rate: the number of hash
    functions, and of bits for `nMaxElements` keys. -/
structure FilterSizing where
  nHashFuncs : ℕ
  nHashFuncs_mem : 1 ≤ nHashFuncs ∧ nHashFuncs ≤ 50
  nFilterBits : BitVec 32 → BitVec 32
  nFilterBits_zero : nFilterBits 0 = 0

/-- The fields that the constructor sets.  `data` has `2 * size` words. -/
structure FilterTable where
  nEntriesPerGeneration : ℕ
  nTweak : BitVec 32
  nHashFuncs : ℕ
  size : ℕ
deriving Repr, DecidableEq

/-- The constructor, with the tweak that `reset` draws.  `(nElements + 1) / 2` is an `unsigned int`,
    three times that an `int`. -/
def FilterTable.create (S : FilterSizing) (nTweak nElements : BitVec 32) : Option FilterTable :=
  let nEntriesPerGeneration := ((nElements + 1) / 2).toNat
  if nEntriesPerGeneration * 3 < 2 ^ 31 then
    let nFilterBits := S.nFilterBits (ofNat 32 (nEntriesPerGeneration * 3))
    some ⟨nEntriesPerGeneration, nTweak, S.nHashFuncs, ((nFilterBits + 63) / 64).toNat⟩
  else none

/-- The words `2 i` and `2 i + 1` of `data`. -/
abbrev WordPair := BitVec 64 × BitVec 64

/-- A bit of such a pair. -/
abbrev Place (T : FilterTable) := Fin T.size × Fin 64

/-- The fields that change. -/
structure CRollingBloomFilter (T : FilterTable) where
  nEntriesThisGeneration : ℕ
  nGeneration : ℕ
  data : Fin T.size → WordPair

namespace CRollingBloomFilter

variable {T : FilterTable}

/-- `reset`. -/
def reset (T : FilterTable) : CRollingBloomFilter T := ⟨0, 1, fun _ => (0, 0)⟩

/-- `(word & ~(1 << bit)) | (v << bit)`. -/
def putBit (word : BitVec 64) (bit v : ℕ) : BitVec 64 :=
  (word &&& ~~~BitVec.twoPow 64 bit) ||| (ofNat 64 v <<< bit)

/-- Marking one place: a pair of words, and a bit. -/
def mark (nGeneration : ℕ) (data : Fin T.size → WordPair) (p : Place T) : Fin T.size → WordPair :=
  update data p.1 (putBit (data p.1).1 p.2 (nGeneration % 2),
    putBit (data p.1).2 p.2 (nGeneration / 2))

/-- Wiping the old entries that used the generation number. -/
def wipe (nGeneration : ℕ) (w : WordPair) : WordPair :=
  let nGenerationMask1 := 0 - ofNat 64 (nGeneration % 2)
  let nGenerationMask2 := 0 - ofNat 64 (nGeneration / 2)
  let mask := (w.1 ^^^ nGenerationMask1) ||| (w.2 ^^^ nGenerationMask2)
  (w.1 &&& mask, w.2 &&& mask)

/-- `nGeneration++; if (nGeneration == 4) nGeneration = 1`. -/
def nextNumber (nGeneration : ℕ) : ℕ := if nGeneration + 1 = 4 then 1 else nGeneration + 1

/-- The first half of `insert`, which may begin a generation. -/
def nextGeneration (f : CRollingBloomFilter T) : CRollingBloomFilter T :=
  if f.nEntriesThisGeneration = T.nEntriesPerGeneration then
    ⟨0, nextNumber f.nGeneration, wipe (nextNumber f.nGeneration) ∘ f.data⟩
  else f

/-- The second half. -/
def markAll (f : CRollingBloomFilter T) (places : List (Place T)) : CRollingBloomFilter T :=
  { f with
    nEntriesThisGeneration := f.nEntriesThisGeneration + 1
    data := places.foldl (mark f.nGeneration) f.data }

/-- `((word1 | word2) >> bit) & 1`. -/
def isSet (w : WordPair) (bit : ℕ) : Bool :=
  let word := w.1 ||| w.2
  (word >>> bit).getLsbD 0

variable (murmurHash3 : BitVec 32 → Bytes → BitVec 32)

def rollingBloomHash (nHashNum : ℕ) (nTweak : BitVec 32) (vDataToHash : Bytes) : BitVec 32 :=
  murmurHash3 (ofNat 32 nHashNum * 0xFBA4C795 + nTweak) vDataToHash

/-- The places of a key.  The position is a remainder modulo the size of `data`, and its lowest bit
    is ignored. -/
def places (hsize : 0 < T.size) (vKey : Bytes) : List (Place T) :=
  (range T.nHashFuncs).map fun n =>
    let h := rollingBloomHash murmurHash3 n T.nTweak vKey
    (⟨(h >>> 6).toNat % (2 * T.size) / 2, Nat.div_lt_of_lt_mul (Nat.mod_lt _ (by omega))⟩,
      ⟨(h &&& 0x3F).toNat, by rw [BitVec.toNat_and]; exact Nat.lt_succ_of_le Nat.and_le_right⟩)

/-- Without a table the remainder is undefined. -/
def insert (f : CRollingBloomFilter T) (vKey : Bytes) : Option (CRollingBloomFilter T) :=
  if hsize : 0 < T.size then
    some (f.nextGeneration.markAll (places murmurHash3 hsize vKey))
  else none

def contains (f : CRollingBloomFilter T) (vKey : Bytes) : Option Bool :=
  if hsize : 0 < T.size then
    some ((places murmurHash3 hsize vKey).all fun p => isSet (f.data p.1) p.2)
  else none

/-! ## The number at a place -/

def generation (w : WordPair) (bit : ℕ) : ℕ := (w.1.getLsbD bit).toNat + 2 * (w.2.getLsbD bit).toNat

variable {g bit : ℕ} {data : Fin T.size → WordPair} {p q : Place T}

lemma getLsbD_putBit (hbit : bit < 64) (word : BitVec 64) (j : ℕ) {v : ℕ} (hv : v ≤ 1) :
    (putBit word bit v).getLsbD j = if j = bit then decide (v = 1) else word.getLsbD j := by
  have hput : ofNat 64 v <<< bit = if v = 1 then BitVec.twoPow 64 bit else 0 := by
    obtain rfl | rfl := Nat.le_one_iff_eq_zero_or_eq_one.mp hv
    · exact BitVec.zero_shiftLeft _
    · exact (BitVec.twoPow_eq _ _).symm
  rw [putBit, hput]
  by_cases hj : j = bit
  · split_ifs with h1 <;> simp [hj, hbit, h1]
  · have hlt : word.getLsbD j = true → j < 64 := BitVec.lt_of_getLsbD
    split_ifs <;> simpa [Ne.symm hj] using hlt

lemma generation_wipe (hg : 1 ≤ g ∧ g ≤ 3) (hbit : bit < 64) (w : WordPair) :
    generation (wipe g w) bit = if generation w bit = g then 0 else generation w bit := by
  have hmask : ∀ v ≤ 1, (0 - ofNat 64 v).getLsbD bit = decide (v = 1) := by
    intro v hv
    obtain rfl | rfl := Nat.le_one_iff_eq_zero_or_eq_one.mp hv
    · simp
    · rw [show 0 - ofNat 64 1 = BitVec.allOnes 64 from rfl, BitVec.getLsbD_allOnes]
      simp [hbit]
  have hbits : ∀ a b : Bool, (a && (a ^^ decide (g % 2 = 1) || b ^^ decide (g / 2 = 1))).toNat +
      2 * (b && (a ^^ decide (g % 2 = 1) || b ^^ decide (g / 2 = 1))).toNat =
        if a.toNat + 2 * b.toNat = g then 0 else a.toNat + 2 * b.toNat := by
    obtain rfl | rfl | rfl : g = 1 ∨ g = 2 ∨ g = 3 := by omega
    all_goals decide
  simp only [generation, wipe, BitVec.getLsbD_and, BitVec.getLsbD_or, BitVec.getLsbD_xor]
  rw [hmask (g % 2) (by omega), hmask (g / 2) (by omega)]
  exact hbits _ _

/-- The place gets the number, and all others keep theirs. -/
lemma generation_mark (hg : g ≤ 3) :
    generation (mark g data q p.1) p.2 = if p = q then g else generation (data p.1) p.2 := by
  by_cases hi : p.1 = q.1
  · have hv : (decide (g % 2 = 1)).toNat + 2 * (decide (g / 2 = 1)).toNat = g := by
      obtain rfl | rfl | rfl | rfl : g = 0 ∨ g = 1 ∨ g = 2 ∨ g = 3 := by omega
      all_goals rfl
    rw [mark, hi, update_self, generation, getLsbD_putBit q.2.isLt _ _ (by omega),
      getLsbD_putBit q.2.isLt _ _ (by omega)]
    simp only [Prod.ext_iff, hi, true_and, Fin.ext_iff]
    split_ifs
    · exact hv
    · rfl
  · rw [mark, update_of_ne hi, if_neg fun h => hi (congrArg Prod.fst h)]

lemma generation_marks (hg : g ≤ 3) (ps : List (Place T)) :
    generation (ps.foldl (mark g) data p.1) p.2 =
      if p ∈ ps then g else generation (data p.1) p.2 := by
  induction ps generalizing data with
  | nil => simp
  | cons q ps ih =>
    rw [foldl_cons, ih, generation_mark hg]
    by_cases hp : p = q <;> by_cases hp' : p ∈ ps <;> simp [hp, hp']

lemma isSet_iff (w : WordPair) (bit : ℕ) : isSet w bit = true ↔ generation w bit ≠ 0 := by
  simp only [isSet, generation, BitVec.getLsbD_ushiftRight, add_zero, BitVec.getLsbD_or]
  cases w.1.getLsbD bit <;> cases w.2.getLsbD bit <;> decide

/-! ## What a filter remembers -/

/-- A number that is at most `a` generations old. -/
def Young (nGeneration a v : ℕ) : Prop := 1 ≤ v ∧ v ≤ 3 ∧ (nGeneration + 3 - v) % 3 ≤ a

/-- The next number is that of the oldest generation. -/
lemma Young.next {a v : ℕ} (h : Young g a v) (hg : 1 ≤ g ∧ g ≤ 3) (ha : a ≤ 1) :
    v ≠ nextNumber g ∧ Young (nextNumber g) (a + 1) v := by
  unfold Young nextNumber at *
  split_ifs <;> omega

/-- The keys of the current generation and of `a` full ones, newest first: no place of them is more
    than `a` generations old. -/
structure Remembers (f : CRollingBloomFilter T) (hist : List (List (Place T))) : Prop where
  number : 1 ≤ f.nGeneration ∧ f.nGeneration ≤ 3
  entries : f.nEntriesThisGeneration ≤ T.nEntriesPerGeneration
  recent : ∀ a ≤ 2, ∀ ps ∈ hist.take (f.nEntriesThisGeneration + a * T.nEntriesPerGeneration),
    ∀ p ∈ ps, Young f.nGeneration a (generation (f.data p.1) p.2)

variable {f : CRollingBloomFilter T} {hist : List (List (Place T))}

/-- **A new generation wipes what is three generations old**, and all other numbers age. -/
lemma Remembers.nextGeneration (h : Remembers f hist) : Remembers f.nextGeneration hist ∧
    (0 < T.nEntriesPerGeneration →
      f.nextGeneration.nEntriesThisGeneration < T.nEntriesPerGeneration) := by
  have hnumber : 1 ≤ nextNumber f.nGeneration ∧ nextNumber f.nGeneration ≤ 3 := by
    have := h.number
    unfold nextNumber
    split_ifs <;> omega
  unfold CRollingBloomFilter.nextGeneration
  split_ifs with hfull
  · refine ⟨⟨hnumber, Nat.zero_le _, ?_⟩, id⟩
    intro a ha ps hps p hp
    cases a with
    | zero => simp at hps
    | succ a =>
      have hps' : ps ∈ hist.take (f.nEntriesThisGeneration + a * T.nEntriesPerGeneration) := by
        rwa [hfull, Nat.add_comm, ← Nat.succ_mul, ← Nat.zero_add (_ * _)]
      obtain ⟨hne, hyoung⟩ := (h.recent a (by omega) ps hps' p hp).next h.number (by omega)
      exact ((generation_wipe hnumber p.2.isLt _).trans (if_neg hne)).symm ▸ hyoung
  · exact ⟨h, fun _ => lt_of_le_of_ne h.entries hfull⟩

/-- **One insertion** marks all places of the key, and no other place. -/
lemma Remembers.insert (h : Remembers f hist) (hE : 0 < T.nEntriesPerGeneration)
    (ps : List (Place T)) : Remembers (f.nextGeneration.markAll ps) (ps :: hist) := by
  obtain ⟨hnext, hlt⟩ := h.nextGeneration
  refine ⟨hnext.number, hlt hE, ?_⟩
  intro a ha ps' hps' p hp
  rw [markAll, Nat.add_right_comm, take_succ_cons, mem_cons] at hps'
  rw [markAll, generation_marks hnext.number.2]
  split_ifs with hmem
  · have := hnext.number
    exact ⟨this.1, this.2, by dsimp only; omega⟩
  · obtain rfl | hps' := hps'
    · exact absurd hp hmem
    · exact hnext.recent a ha ps' hps' p hp

/-- **A run of insertions.** -/
lemma foldlM_insert (h : Remembers f hist) (hE : 0 < T.nEntriesPerGeneration) (hsize : 0 < T.size)
    (keys : List Bytes) : ∃ f', keys.foldlM (insert murmurHash3) f = some f' ∧
      Remembers f' (keys.reverse.map (places murmurHash3 hsize) ++ hist) := by
  induction keys generalizing f hist with
  | nil => exact ⟨f, rfl, h⟩
  | cons key keys ih =>
    obtain ⟨f', hf', h'⟩ := ih (h.insert hE (places murmurHash3 hsize key))
    refine ⟨f', ?_, by simpa using h'⟩
    rw [foldlM_cons, CRollingBloomFilter.insert, dif_pos hsize]
    exact hf'

/-- The keys of two generations are found. -/
lemma Remembers.contains (h : Remembers f hist) (hsize : 0 < T.size) {key : Bytes}
    (hkey : places murmurHash3 hsize key ∈ hist.take (2 * T.nEntriesPerGeneration)) :
    f.contains murmurHash3 key = some true := by
  rw [CRollingBloomFilter.contains, dif_pos hsize, all_eq_true.mpr]
  intro p hp
  have hyoung := h.recent 2 le_rfl _ (take_subset_take_left _ (Nat.le_add_left _ _) hkey) p hp
  exact (isSet_iff _ _).mpr (Nat.one_le_iff_ne_zero.mp hyoung.1)

/-- **No recent key is missed.**  For every hash function, sizing and tweak, and every size for
    which the constructor makes a table: any keys can be inserted, and the last `nElements` of them
    are found.  The node makes its filters for 5000, 50000 and 120000 keys. -/
theorem rollingBloom_recent (murmurHash3 : BitVec 32 → Bytes → BitVec 32) (S : FilterSizing)
    (nTweak nElements : BitVec 32) (T : FilterTable)
    (hT : FilterTable.create S nTweak nElements = some T) (hsize : 0 < T.size) (keys : List Bytes) :
    ∃ f, keys.foldlM (insert murmurHash3) (reset T) = some f ∧
      ∀ key ∈ keys.reverse.take nElements.toNat, f.contains murmurHash3 key = some true := by
  have hE : 0 < T.nEntriesPerGeneration ∧ nElements.toNat ≤ 2 * T.nEntriesPerGeneration := by
    simp only [FilterTable.create] at hT
    split_ifs at hT
    cases hT
    -- a generation without entries would come with a table without bits
    have hne : ((nElements + 1) / 2).toNat ≠ 0 := by
      intro h0
      rw [h0, Nat.zero_mul, show ofNat 32 0 = 0 from rfl, S.nFilterBits_zero] at hsize
      exact absurd hsize (Nat.lt_irrefl 0)
    rw [BitVec.toNat_udiv, BitVec.toNat_add] at hne ⊢
    change (nElements.toNat + 1) % 2 ^ 32 / 2 ≠ 0 at hne
    change 0 < (nElements.toNat + 1) % 2 ^ 32 / 2 ∧ _ ≤ 2 * ((nElements.toNat + 1) % 2 ^ 32 / 2)
    have := nElements.isLt
    omega
  have hreset : Remembers (reset T) [] :=
    ⟨⟨le_refl 1, show 1 ≤ 3 by decide⟩, Nat.zero_le _, by simp⟩
  obtain ⟨f, hf, h⟩ := foldlM_insert murmurHash3 hreset hE.1 hsize keys
  refine ⟨f, hf, fun key hkey => h.contains murmurHash3 hsize ?_⟩
  rw [append_nil, ← map_take]
  exact mem_map_of_mem (take_subset_take_left _ hE.2 hkey)

/-- The filter for the addresses that a peer knows, with fifteen bits for a key. -/
theorem rollingBloom_addrKnown : ∃ S T f, FilterTable.create S 0 5000 = some T ∧ 0 < T.size ∧
    [[1], [2]].foldlM (insert fun n _ => n) (reset T) = some f ∧
      ∀ key ∈ [[1], [2]], f.contains (fun n _ => n) key = some true := by
  let S : FilterSizing := ⟨10, by decide, fun nMaxElements => 15 * nMaxElements, rfl⟩
  obtain ⟨T, hT⟩ : ∃ T, FilterTable.create S 0 5000 = some T := ⟨_, rfl⟩
  have hsize : 0 < T.size := by
    cases hT
    decide
  obtain ⟨f, hf, h⟩ := rollingBloom_recent (fun n _ => n) S 0 5000 T hT hsize [[1], [2]]
  exact ⟨S, T, f, hT, hsize, hf, fun key hkey => h key (by simpa [or_comm] using hkey)⟩

end CRollingBloomFilter

end Ybtc
