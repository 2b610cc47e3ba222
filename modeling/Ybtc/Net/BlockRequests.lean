import Ybtc.Primitives.Serialize

/-!
# Requests for the transactions of a block

`blockencodings.h`: a `BlockTransactionsRequest` names transactions by their places in a block.  The
places are written as differences, each counted from the place behind the one before, and added up
again by the reader, in sixteen bits.

The reader checks that no place is above `0xffff`.  The place *behind* `0xffff` is zero in sixteen
bits, though, and the check passes again from there.
-/

namespace Ybtc

open BitVec (ofNat)

open Codec List

structure BlockTransactionsRequest where
  blockhash : Uint256
  indexes : List (BitVec 16)
deriving Repr, DecidableEq

namespace BlockTransactionsRequest

/-- The differences that are written; `offset` is the place behind the last one.  They are
    `uint64_t`, also when the places do not increase. -/
def differences : ℕ → List (BitVec 16) → List ℕ
  | _, [] => []
  | offset, index :: indexes =>
    (((index.toNat : ℤ) - offset) % 2 ^ 64).toNat :: differences (index.toNat + 1) indexes

/-- `SerializationOp`, writing. -/
def serialize (req : BlockTransactionsRequest) : Bytes :=
  writeUint256 req.blockhash ++ (writeCompactSize req.indexes.length
    ++ (differences 0 req.indexes).flatMap writeCompactSize)

/-- The second loop of the reader, which adds the differences up. -/
def accumulate : BitVec 16 → List ℕ → Option (List (BitVec 16))
  | _, [] => some []
  | offset, d :: ds =>
    if 0xffff < d + offset.toNat then none
    else (accumulate (ofNat 16 d + offset + 1) ds).map (cons (ofNat 16 d + offset))

/-- What the reader takes off the stream: the hash, and the differences. -/
def readDifferences : Reader (Uint256 × List ℕ) := do
  let blockhash ← readUint256
  let indexes_size ← readCompactSize
  Prod.mk blockhash <$> readList (readWhere (· ≤ 0xffff) readCompactSize) indexes_size

/-- `SerializationOp`, reading. -/
def unserialize (bs : Bytes) : Option (BlockTransactionsRequest × Bytes) :=
  (readDifferences bs).bind fun ⟨⟨blockhash, ds⟩, rest⟩ =>
    (accumulate 0 ds).map fun indexes => (⟨blockhash, indexes⟩, rest)

/-! ## Adding up -/

lemma differences_length (offset : ℕ) (l : List (BitVec 16)) :
    (differences offset l).length = l.length := by
  induction l generalizing offset with
  | nil => rfl
  | cons index l ih => simp [differences, ih]

variable {l : List (BitVec 16)}

/-- **Increasing places are added up again.** -/
lemma accumulate_differences {offset : ℕ} (hl : l.Pairwise (· < ·))
    (hoff : ∀ i ∈ l, offset ≤ i.toNat) :
    accumulate (ofNat 16 offset) (differences offset l) = some l ∧
      ∀ d ∈ differences offset l, d ≤ 0xffff := by
  induction l generalizing offset with
  | nil => simp [accumulate, differences]
  | cons index l ih =>
    rw [pairwise_cons] at hl
    rw [forall_mem_cons] at hoff
    have hlt := index.isLt
    obtain ⟨hacc, hle⟩ := @ih (index.toNat + 1) hl.2 fun i hi => hl.1 i hi
    have hd : (((index.toNat : ℤ) - offset) % 2 ^ 64).toNat = index.toNat - offset := by omega
    have hoffset : (ofNat 16 offset).toNat = offset := by
      rw [BitVec.toNat_ofNat, Nat.mod_eq_of_lt (by omega)]
    have hsum : ofNat 16 (index.toNat - offset) + ofNat 16 offset = index := by
      rw [← BitVec.ofNat_add, Nat.sub_add_cancel hoff.1, BitVec.ofNat_toNat, BitVec.setWidth_eq]
    have hnext : index + 1 = ofNat 16 (index.toNat + 1) := by
      rw [BitVec.ofNat_add, BitVec.ofNat_toNat, BitVec.setWidth_eq]
      rfl
    rw [differences, hd, accumulate, hoffset, if_neg (by omega), hsum, hnext, hacc, forall_mem_cons]
    exact ⟨rfl, by omega, hle⟩

/-- **When the places increase.**  The sum behind the last but one must fit into sixteen bits. -/
lemma accumulate_increasing_iff {ds : List ℕ} {offset : BitVec 16}
    (h : accumulate offset ds = some l) :
    l.Pairwise (· < ·) ∧ (∀ i ∈ l, offset ≤ i) ↔
      offset.toNat + (ds.dropLast.map (· + 1)).sum ≤ 0xffff := by
  induction ds generalizing offset l with
  | nil =>
    cases h
    have := offset.isLt
    simp
    omega
  | cons d ds ih =>
    rw [accumulate] at h
    split_ifs at h with hd
    obtain ⟨l', hl', rfl⟩ := Option.map_eq_some_iff.mp h
    have hi : (ofNat 16 d + offset).toNat = d + offset.toNat := by
      rw [BitVec.toNat_add, BitVec.toNat_ofNat]
      omega
    have hle : offset ≤ ofNat 16 d + offset := by
      rw [BitVec.le_def, hi]
      omega
    generalize ofNat 16 d + offset = i at hi hle hl' ⊢
    cases ds with
    | nil =>
      cases hl'
      have := offset.isLt
      simp only [pairwise_singleton, mem_singleton, forall_eq, hle, dropLast_singleton, map_nil,
        sum_nil, true_and, true_iff]
      omega
    | cons d' ds =>
      rw [dropLast_cons_cons, map_cons, sum_cons, pairwise_cons, forall_mem_cons]
      by_cases hmax : i.toNat = 0xffff
      · -- Behind the last place nothing is larger.
        rw [accumulate] at hl'
        split_ifs at hl'
        obtain ⟨l'', -, rfl⟩ := Option.map_eq_some_iff.mp hl'
        refine ⟨fun hall => ?_, fun hsum => by omega⟩
        have hlt := BitVec.lt_def.mp (hall.1.1 _ mem_cons_self)
        omega
      · have hsum : (i + 1).toNat = i.toNat + 1 := by
          rw [BitVec.toNat_add]
          change (i.toNat + 1) % 2 ^ 16 = _
          omega
        have hnext : ∀ j : BitVec 16, i + 1 ≤ j ↔ i < j := by
          intro j
          rw [BitVec.le_def, BitVec.lt_def, hsum, Nat.succ_le_iff]
        have hrest := ih hl'
        simp only [hnext, hsum] at hrest
        constructor
        · rintro ⟨⟨hlt, hp⟩, -⟩
          have := hrest.mp ⟨hp, hlt⟩
          omega
        · intro hle'
          obtain ⟨hp, hlt⟩ := hrest.mpr (by omega)
          exact ⟨⟨hlt, hp⟩, hle, fun j hj => BitVec.le_trans hle (BitVec.le_of_lt (hlt j hj))⟩

/-! ## The message -/

lemma indexes_length_le (hl : l.Pairwise (· < ·)) : l.length ≤ 2 ^ 16 := by
  have hnodup : (l.map BitVec.toFin).Nodup :=
    hl.map _ fun _ _ h => (BitVec.lt_def.mp h).ne ∘ congrArg Fin.val
  simpa using hnodup.length_le_card

/-- **A request with increasing places is read back.** -/
lemma unserialize_serialize {req : BlockTransactionsRequest} (h : req.indexes.Pairwise (· < ·))
    (rest : Bytes) : unserialize (req.serialize ++ rest) = some (req, rest) := by
  obtain ⟨hacc, hle⟩ := @accumulate_differences _ 0 h fun _ _ => Nat.zero_le _
  have hlen := indexes_length_le h
  have hread : Reads readDifferences req.serialize (req.blockhash, differences 0 req.indexes) := by
    refine (reads_writeUint256 _).bind ((reads_compactSize (hlen.trans (by decide))).bind ?_)
    rw [← differences_length 0 req.indexes]
    exact (Reads.list fun d hd => reads_where
      (reads_compactSize ((hle d hd).trans (by decide))) (hle d hd)).map _
  rw [unserialize, hread rest]
  exact congrArg (Option.map _) hacc

/-- The differences in a message add up to a place, that of the last one apart. -/
def Fits (bs : Bytes) : Prop := ∀ p rest, readDifferences bs = some (p, rest) →
  (p.2.dropLast.map (· + 1)).sum ≤ 0xffff

/-- **Requests survive the wire, and the places of a request that is read increase exactly when the
    differences do not run over.** -/
theorem request_round_trip (req : BlockTransactionsRequest) (bs : Bytes) :
    (req.indexes.Pairwise (· < ·) → ∀ rest, unserialize (req.serialize ++ rest) =
      some (req, rest)) ∧
      ∀ req' rest, unserialize bs = some (req', rest) →
        (req'.indexes.Pairwise (· < ·) ↔ Fits bs) := by
  refine ⟨unserialize_serialize, fun req' rest h => ?_⟩
  obtain ⟨⟨⟨blockhash, ds⟩, rest'⟩, hread, hmap⟩ := Option.bind_eq_some_iff.mp h
  obtain ⟨indexes, hacc, hreq⟩ := Option.map_eq_some_iff.mp hmap
  cases hreq
  have hiff := accumulate_increasing_iff hacc
  constructor
  · intro hp p rest hp'
    rw [hread] at hp'
    cases hp'
    simpa using hiff.mp ⟨hp, fun _ _ => Nat.zero_le _⟩
  · intro hfits
    exact (hiff.mpr (by simpa using hfits _ _ hread)).1

/-- Three places, the last one the largest there is. -/
theorem request_round_trip_three : unserialize (serialize ⟨0, [0, 7, 0xffff]⟩) =
    some (⟨0, [0, 7, 0xffff]⟩, []) :=
  (request_round_trip ⟨0, [0, 7, 0xffff]⟩ []).1 (by decide) []

/-- **A difference behind the largest place is counted from zero again.** -/
theorem wrapped_request : ∃ req, unserialize (replicate 32 0 ++ [2, 253, 255, 255, 5]) =
    some (req, []) ∧ req.indexes = [0xffff, 5] ∧ ¬ req.indexes.Pairwise (· < ·) :=
  ⟨_, rfl, rfl, by decide⟩

end BlockTransactionsRequest

end Ybtc
