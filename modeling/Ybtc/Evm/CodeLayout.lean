import Mathlib.Data.FinEnum
import Ybtc.Evm.Optimize

/-!
# What the optimiser makes of a program

The optimiser goes over a program twice, from instruction to instruction.  It rewrites an
instruction without moving any other one, so the places where instructions start are those of the
original program.
-/

namespace Ybtc

open List Nat

/-! ## Places -/

/-- The number of bytes of the instruction at a place, without its opcode. -/
def widthAt (code : Bytes) (pc : ℕ) : ℕ := pushWidth (code.getD pc 0)

/-- The place where an instruction starts. -/
def start (code : Bytes) : ℕ → ℕ
  | 0 => 0
  | k + 1 => start code k + 1 + widthAt code (start code k)

/-- All instructions before are in the program. -/
def Started (nBytes : ℕ) (code : Bytes) (k : ℕ) : Prop := ∀ j < k, start code j < nBytes

/-- The value that the instruction at a place pushes, if it is a push. -/
def pushedAt (code : Bytes) (pc : ℕ) : Option U256 :=
  if widthAt code pc = 0 then none else some (pushValue code pc (widthAt code pc))

/-- The value that the instruction before pushes. -/
def pushedBefore (code : Bytes) : ℕ → Option U256
  | 0 => none
  | k + 1 => pushedAt code (start code k)

variable {j k nBytes i : ℕ} {code orig : Bytes} {dests : List ℕ} (op : UInt8)

lemma pushWidth_le : pushWidth op ≤ 32 := by
  unfold pushWidth
  split_ifs <;> omega

lemma start_strictMono (code : Bytes) : StrictMono (start code) :=
  strictMono_nat_of_lt_succ fun k => by rw [start]; omega

/-- Instructions do not overlap. -/
lemma start_add_width_lt (code : Bytes) (h : j < k) :
    start code j + widthAt code (start code j) < start code k := by
  have := (start_strictMono code).monotone (succ_le_of_lt h)
  rw [succ_eq_add_one, start] at this
  omega

lemma Started.succ (h : Started nBytes code k) (hk : start code k < nBytes) :
    Started nBytes code (k + 1) := by
  intro j hj
  rcases Nat.lt_succ_iff_lt_or_eq.mp hj with hj | rfl
  · exact h j hj
  · exact hk

/-- The end of the program is reached within the zeros behind it. -/
lemma Started.start_lt (h : Started nBytes code k) : start code k < nBytes + 33 := by
  cases k with
  | zero => rw [start]; omega
  | succ k =>
    have h1 := h k (lt_succ_self k)
    have h2 := pushWidth_le (code.getD (start code k) 0)
    rw [start, widthAt]
    omega

/-- Past the end there is no further place. -/
lemma Started.le (h : Started nBytes code j) (hk : nBytes ≤ start code k) : j ≤ k := by
  by_contra hlt
  have := h k (by omega)
  omega

/-! ## Lists -/

lemma getD_set_self {l : Bytes} {b : UInt8} (h : i < l.length) : (l.set i b).getD i 0 = b := by
  simp [getD_eq_getElem?_getD, getElem?_set_self h]

lemma getD_set_ne {l : Bytes} {b : UInt8} (h : i ≠ j) : (l.set i b).getD j 0 = l.getD j 0 := by
  simp [getD_eq_getElem?_getD, getElem?_set_ne h]

/-- A push in front of the same data has the same value. -/
lemma pushValue_congr {a b : Bytes} {p n : ℕ} (hlen : a.length = b.length)
    (h : ∀ i ≤ n, a.getD (p + i) 0 = b.getD (p + i) 0) : pushValue a p n = pushValue b p n := by
  refine congrArg wordOf (ext_getElem? fun i => ?_)
  rw [getElem?_take, getElem?_take]
  split_ifs with hi
  · have hget := h (i + 1) hi
    rw [getElem?_drop, getElem?_drop, add_assoc, add_comm 1 i]
    rw [getD_eq_getElem?_getD, getD_eq_getElem?_getD] at hget
    by_cases hp : p + (i + 1) < a.length
    · rw [getElem?_eq_getElem hp, getElem?_eq_getElem (hlen ▸ hp), Option.getD_some,
        Option.getD_some] at hget
      rw [getElem?_eq_getElem hp, getElem?_eq_getElem (hlen ▸ hp), hget]
    · rw [getElem?_eq_none (by omega), getElem?_eq_none (by omega)]
  · rfl

/-! ## The first loop -/

/-- An instruction of the optimiser in the program itself is made invalid. -/
def banned (op : UInt8) : UInt8 :=
  if op = pushcByte ∨ op = jumpcByte ∨ op = jumpciByte then badByte else op

lemma pushWidth_banned : ∀ op : UInt8, pushWidth (banned op) = pushWidth op := by decide +kernel

lemma banSynthetic_self {pc : ℕ} (h : pc < code.length) :
    (banSynthetic pc (code.getD pc 0) code).getD pc 0 = banned (code.getD pc 0) := by
  unfold banSynthetic banned
  split_ifs
  · exact getD_set_self h
  · rfl

lemma banSynthetic_ne {pc : ℕ} {op : UInt8} (h : pc ≠ i) :
    (banSynthetic pc op code).getD i 0 = code.getD i 0 := by
  unfold banSynthetic
  split_ifs
  · exact getD_set_ne h
  · rfl

/-- The program after the first `k` turns of the first loop. -/
structure Scanned (orig : Bytes) (k : ℕ) (code : Bytes) (dests : List ℕ) : Prop where
  length : code.length = orig.length
  op : ∀ j < k, code.getD (start orig j) 0 = banned (orig.getD (start orig j) 0)
  same : ∀ i, (∀ j < k, i ≠ start orig j) → code.getD i 0 = orig.getD i 0
  dests : ∀ d, d ∈ dests ↔ ∃ j < k, start orig j = d ∧ orig.getD d 0 = 0x5b

/-- Behind the places that were visited nothing has changed. -/
lemma Scanned.behind (h : Scanned orig k code dests) (hi : start orig k ≤ i) :
    code.getD i 0 = orig.getD i 0 :=
  h.same i fun j hj => by
    have := start_strictMono orig hj
    omega

lemma Scanned.turn (h : Scanned orig k code dests) (hk : start orig k < orig.length) :
    Scanned orig (k + 1) (banSynthetic (start orig k) (code.getD (start orig k) 0) code)
      (if code.getD (start orig k) 0 = 0x5b then dests ++ [start orig k] else dests) where
  length := by
    unfold banSynthetic
    split_ifs <;> simp [h.length]
  op j hj := by
    rcases Nat.lt_succ_iff_lt_or_eq.mp hj with hj | rfl
    · rw [banSynthetic_ne (start_strictMono orig hj).ne', h.op j hj]
    · rw [banSynthetic_self (h.length ▸ hk), h.behind le_rfl]
  same i hi := by
    rw [banSynthetic_ne (hi k (lt_succ_self k)).symm]
    exact h.same i fun j hj => hi j (hj.trans (lt_succ_self k))
  dests d := by
    have hmem : d ∈ (if code.getD (start orig k) 0 = 0x5b then dests ++ [start orig k] else dests) ↔
        d ∈ dests ∨ (orig.getD (start orig k) 0 = 0x5b ∧ d = start orig k) := by
      rw [h.behind le_rfl]
      by_cases hb : orig.getD (start orig k) 0 = 0x5b
      · rw [if_pos hb, mem_append, mem_singleton, and_iff_right hb]
      · rw [if_neg hb, or_iff_left (fun h => hb h.1)]
    rw [hmem, h.dests d]
    constructor
    · rintro (⟨j, hj, hd⟩ | ⟨hb, rfl⟩)
      · exact ⟨j, hj.trans (lt_succ_self k), hd⟩
      · exact ⟨k, lt_succ_self k, rfl, hb⟩
    · rintro ⟨j, hj, rfl, hb⟩
      rcases Nat.lt_succ_iff_lt_or_eq.mp hj with hj | rfl
      · exact Or.inl ⟨j, hj, rfl, hb⟩
      · exact Or.inr ⟨hb, rfl⟩

/-- **The first loop** notes every `JUMPDEST` that is an instruction, and bans the instructions of
    the optimiser. -/
lemma scanJumpDests_marks (hn : nBytes ≤ orig.length) :
    ∀ {turns k : ℕ} {code : Bytes} {dests : List ℕ}, nBytes ≤ start orig k + turns →
      Scanned orig k code dests → Started nBytes orig k →
        ∃ k', nBytes ≤ start orig k' ∧ Started nBytes orig k' ∧
          Scanned orig k' (scanJumpDests nBytes turns (start orig k) code dests).1
            (scanJumpDests nBytes turns (start orig k) code dests).2
  | 0, k, _, _, ht, hs, hst => ⟨k, ht, hst, hs⟩
  | turns + 1, k, code, dests, ht, hs, hst => by
    rw [scanJumpDests]
    by_cases hk : start orig k < nBytes
    · rw [if_pos hk]
      have hnext : start orig k + 1 + pushWidth (code.getD (start orig k) 0) =
          start orig (k + 1) := by rw [hs.behind le_rfl, start, widthAt]
      rw [hnext]
      exact scanJumpDests_marks hn (by rw [start]; omega) (hs.turn (by omega)) (hst.succ hk)
    · rw [if_neg hk]
      exact ⟨k, by omega, hst, hs⟩

/-! ## The second loop -/

/-- A jump is not checked when the value pushed before it is a destination. -/
def uncheckedJump (dests : List ℕ) : Option U256 → UInt8 → UInt8
  | some val, op =>
    if op = 0x56 ∧ isJumpDest dests val then jumpcByte
    else if op = 0x57 ∧ isJumpDest dests val then jumpciByte
    else op
  | none, op => op

lemma pushWidth_uncheckedJump (dests : List ℕ) (v : Option U256) (op : UInt8) :
    pushWidth (uncheckedJump dests v op) = pushWidth op := by
  cases v with
  | none => rfl
  | some val =>
    rw [uncheckedJump]
    split_ifs with h1 h2
    · rw [h1.1]; rfl
    · rw [h2.1]; rfl
    · rfl

/-- A push instruction is there as it was, or the value is pushed out of the pool. -/
def PushAt (orig : Bytes) (o : Optimized) (pc : ℕ) : Prop :=
  (∀ i ≤ widthAt orig pc, o.code.getD (pc + i) 0 = orig.getD (pc + i) 0) ∨
    (1 < widthAt orig pc ∧ o.code.getD pc 0 = pushcByte ∧
      (o.code.getD (pc + 2) 0).toNat = widthAt orig pc - 1 ∧
        o.pool (o.code.getD (pc + 1) 0).toNat = some (pushValue orig pc (widthAt orig pc)))

/-- What the second loop leaves at the place of an instruction. -/
def Matches (orig : Bytes) (dests : List ℕ) (o : Optimized) (j : ℕ) : Prop :=
  if widthAt orig (start orig j) = 0 then
    o.code.getD (start orig j) 0 =
      uncheckedJump dests (pushedBefore orig j) (banned (orig.getD (start orig j) 0))
  else PushAt orig o (start orig j)

/-- The program after the first `k` turns of the second loop; `scanned` is what the first loop
    left. -/
structure Rewritten (orig scanned : Bytes) (dests : List ℕ) (k : ℕ) (o : Optimized) : Prop where
  length : o.code.length = orig.length
  done : ∀ j < k, Matches orig dests o j
  here : o.code.getD (start orig k) 0 =
    uncheckedJump dests (pushedBefore orig k) (scanned.getD (start orig k) 0)
  behind : ∀ i, start orig k < i → o.code.getD i 0 = scanned.getD i 0

/-- An earlier push is not touched by a change behind it that only adds to the pool. -/
lemma Matches.of_behind {o o' : Optimized} (h : Matches orig dests o j) (hjk : j < k)
    (hcode : ∀ i < start orig k, o'.code.getD i 0 = o.code.getD i 0)
    (hpool : ∀ i v, o.pool i = some v → o'.pool i = some v) : Matches orig dests o' j := by
  have hlt := start_add_width_lt orig hjk
  unfold Matches at h ⊢
  split_ifs at h ⊢ with hw
  · rw [hcode _ (by omega), h]
  · rcases h with h | ⟨h1, hop, hskip, hp⟩
    · exact Or.inl fun i hi => by rw [hcode _ (by omega), h i hi]
    · refine Or.inr ⟨h1, ?_, ?_, ?_⟩
      · rw [hcode _ (by omega), hop]
      · rw [hcode _ (by omega), hskip]
      · rw [hcode _ (by omega)]
        exact hpool _ _ hp

section PoolConstant

variable {pc n : ℕ} {val : U256} {o : Optimized}

lemma poolConstant_length : (poolConstant pc n val o).code.length = o.code.length := by
  unfold poolConstant
  dsimp only
  split_ifs <;> simp

/-- Only the opcode and the first two bytes of a push are overwritten. -/
lemma poolConstant_getD {i : ℕ} (h : i < pc ∨ pc + n < i) :
    (poolConstant pc n val o).code.getD i 0 = o.code.getD i 0 := by
  unfold poolConstant
  dsimp only
  split_ifs with hc
  · rfl
  · rw [not_or, not_le] at hc
    rw [getD_set_ne (by omega), getD_set_ne (by omega), getD_set_ne (by omega)]

lemma poolConstant_pool {i : ℕ} {v : U256} (h : o.pool i = some v) :
    (poolConstant pc n val o).pool i = some v := by
  unfold poolConstant
  dsimp only
  split_ifs with hc
  · exact h
  · rw [not_or] at hc
    dsimp only
    by_cases hi : i = foldHash (poolHash o.code pc n)
    · have hany := hc.2
      rw [← hi, h, Option.any_some, Bool.not_eq_true, bne_eq_false_iff_eq] at hany
      rw [hi, Function.update_self, hany]
    · rw [Function.update_of_ne hi, h]

/-- The push is still there, or it takes its value out of the pool. -/
lemma poolConstant_cases (val : U256) (hlen : pc + 2 < o.code.length) (hn : n ≤ 32) :
    (∀ i, (poolConstant pc n val o).code.getD i 0 = o.code.getD i 0) ∨
      (1 < n ∧ (poolConstant pc n val o).code.getD pc 0 = pushcByte ∧
        ((poolConstant pc n val o).code.getD (pc + 2) 0).toNat = n - 1 ∧
          (poolConstant pc n val o).pool
            ((poolConstant pc n val o).code.getD (pc + 1) 0).toNat = some val) := by
  unfold poolConstant
  dsimp only
  split_ifs with hc
  · exact Or.inl fun i => rfl
  · rw [not_or, not_le] at hc
    have hhash : foldHash (poolHash o.code pc n) < 256 := lt_of_le_of_lt and_le_right (by decide)
    refine Or.inr ⟨hc.1, ?_, ?_, ?_⟩
    · rw [getD_set_ne (by omega), getD_set_ne (by omega), getD_set_self (by omega)]
    · rw [getD_set_self (by simpa using hlen), toNat_ofNat_lt (by omega)]
    · rw [getD_set_ne (by omega), getD_set_self (by simp; omega), toNat_ofNat_lt hhash]
      exact Function.update_self _ _ _

end PoolConstant

section ConstantJump

variable {dests : List ℕ} {i : ℕ} {val : U256} {o : Optimized}

lemma constantJump_length : (constantJump dests i val o).code.length = o.code.length := by
  unfold constantJump
  split_ifs <;> simp

lemma constantJump_pool : (constantJump dests i val o).pool = o.pool := by
  unfold constantJump
  split_ifs <;> rfl

lemma constantJump_ne {i' : ℕ} (h : i ≠ i') :
    (constantJump dests i val o).code.getD i' 0 = o.code.getD i' 0 := by
  unfold constantJump
  split_ifs <;> simp only [getD_set_ne h]

lemma constantJump_self (h : i < o.code.length) : (constantJump dests i val o).code.getD i 0 =
      uncheckedJump dests (some val) (o.code.getD i 0) := by
  rw [constantJump, uncheckedJump]
  split_ifs
  · exact getD_set_self h
  · exact getD_set_self h
  · rfl

end ConstantJump

section SecondLoop

variable {orig scanned : Bytes} {dests : List ℕ} {k : ℕ} {o : Optimized}

/-- At an instruction that is no push nothing is done. -/
lemma Rewritten.turn_plain (h : Rewritten orig scanned dests k o)
    (hs : scanned.getD (start orig k) 0 = banned (orig.getD (start orig k) 0))
    (hw : widthAt orig (start orig k) = 0) : Rewritten orig scanned dests (k + 1) o where
  length := h.length
  done j hj := by
    rcases Nat.lt_succ_iff_lt_or_eq.mp hj with hj | rfl
    · exact h.done j hj
    · rw [Matches, if_pos hw, h.here, hs]
  here := by
    rw [h.behind _ ((start_strictMono orig) (lt_succ_self k)), pushedBefore, pushedAt, if_pos hw]
    rfl
  behind i hi := h.behind i (((start_strictMono orig) (lt_succ_self k)).trans hi)

/-- At a push the constant may go to the pool, and the jump behind it may become unchecked. -/
lemma Rewritten.turn_push (h : Rewritten orig scanned dests k o)
    (hlen : start orig (k + 1) < orig.length)
    (hs : ∀ i ≤ widthAt orig (start orig k),
      scanned.getD (start orig k + i) 0 = orig.getD (start orig k + i) 0)
    (hw : widthAt orig (start orig k) ≠ 0) :
    Rewritten orig scanned dests (k + 1)
      (optimizePush dests (start orig k) (widthAt orig (start orig k)) o) := by
  have hstart : start orig (k + 1) = start orig k + widthAt orig (start orig k) + 1 := by
    rw [start]; omega
  have hwidth : widthAt orig (start orig k) ≤ 32 := pushWidth_le _
  -- A push is no jump, so its own opcode is untouched so far.
  have hhere : o.code.getD (start orig k) 0 = orig.getD (start orig k) 0 := by
    have hs0 := hs 0 (zero_le _)
    rw [add_zero] at hs0
    rw [h.here, hs0]
    cases hv : pushedBefore orig k with
    | none => rfl
    | some v =>
      rw [uncheckedJump]
      split_ifs with h1 h2
      · exact absurd (by rw [widthAt, h1.1]; rfl) hw
      · exact absurd (by rw [widthAt, h2.1]; rfl) hw
      · rfl
  have hsame : ∀ i ≤ widthAt orig (start orig k),
      o.code.getD (start orig k + i) 0 = orig.getD (start orig k + i) 0 := by
    intro i hi
    rcases Nat.eq_zero_or_pos i with rfl | hpos
    · exact hhere
    · rw [h.behind _ (by omega), hs i hi]
  have hval : pushValue o.code (start orig k) (widthAt orig (start orig k)) =
      pushValue orig (start orig k) (widthAt orig (start orig k)) := pushValue_congr h.length hsame
  have hplace : start orig k + widthAt orig (start orig k) + 1 < o.code.length := by
    rw [h.length, ← hstart]
    exact hlen
  unfold optimizePush
  rw [hval, ← hstart]
  refine ⟨?_, ?_, ?_, ?_⟩
  · rw [constantJump_length, poolConstant_length, h.length]
  · intro j hj
    rcases Nat.lt_succ_iff_lt_or_eq.mp hj with hj | rfl
    · refine (h.done j hj).of_behind hj (fun i hi => ?_) fun i v hp => ?_
      · rw [constantJump_ne (by omega), poolConstant_getD (Or.inl hi)]
      · rw [constantJump_pool]
        exact poolConstant_pool hp
    · rw [Matches, if_neg hw]
      rcases poolConstant_cases (pushValue orig (start orig j) (widthAt orig (start orig j)))
        (show start orig j + 2 < o.code.length by omega) hwidth with hc | ⟨h1, hop, hskip, hp⟩
      · exact Or.inl fun i hi => by rw [constantJump_ne (by omega), hc, hsame i hi]
      · refine Or.inr ⟨h1, ?_, ?_, ?_⟩
        · rw [constantJump_ne (by omega), hop]
        · rw [constantJump_ne (by omega), hskip]
        · rw [constantJump_ne (by omega), constantJump_pool, hp]
  · rw [constantJump_self (by rw [poolConstant_length, hstart]; exact hplace),
      pushedBefore, pushedAt,
      if_neg hw, poolConstant_getD (Or.inr (by omega)), h.behind _ (by omega)]
  · intro i hi
    rw [constantJump_ne (by omega), poolConstant_getD (Or.inr (by omega)), h.behind i (by omega)]

/-- **The second loop** leaves a match at every place. -/
lemma optimizeFrom_matches {nBytes : ℕ} (hn : orig.length = nBytes + 33)
    (hop : ∀ j, start orig j < nBytes →
      scanned.getD (start orig j) 0 = banned (orig.getD (start orig j) 0))
    (hdata : ∀ j, Started nBytes orig j → ∀ i,
      start orig j < i → i ≤ start orig j + widthAt orig (start orig j) →
        scanned.getD i 0 = orig.getD i 0) :
    ∀ {turns k : ℕ} {o : Optimized}, nBytes ≤ start orig k + turns →
      Rewritten orig scanned dests k o → Started nBytes orig k →
        ∃ k', nBytes ≤ start orig k' ∧ Rewritten orig scanned dests k'
          (optimizeFrom nBytes dests turns (start orig k) o)
  | 0, k, o, ht, hr, _ => ⟨k, ht, hr⟩
  | turns + 1, k, o, ht, hr, hst => by
    by_cases hk : start orig k < nBytes
    · have hwidth : pushWidth (o.code.getD (start orig k) 0) = widthAt orig (start orig k) := by
        rw [hr.here, pushWidth_uncheckedJump, hop k hk, pushWidth_banned, widthAt]
      rw [optimizeFrom, if_pos hk, hwidth]
      refine optimizeFrom_matches (k := k + 1) hn hop hdata (by rw [start]; omega) ?_ (hst.succ hk)
      split_ifs with hw
      · exact hr.turn_plain (hop k hk) hw
      refine hr.turn_push ?_ ?_ hw
      · rw [hn]
        exact (hst.succ hk).start_lt
      · intro i hi
        rcases Nat.eq_zero_or_pos i with rfl | hpos
        · rw [Nat.add_zero, hop k hk, banned, if_neg]
          -- A push is no instruction of the optimiser.
          rintro (h | h | h) <;> exact hw (by rw [widthAt, h]; rfl)
        · exact hdata k hst _ (by omega) (by omega)
    · rw [optimizeFrom, if_neg hk]
      exact ⟨k, by omega, hr⟩

end SecondLoop

/-! ## The whole optimiser -/

variable {code : Bytes} {j : ℕ}

lemma copyCode_length (code : Bytes) : (copyCode code).length = code.length + 33 := by
  rw [copyCode, length_append, length_replicate]

/-- Behind the program there are zeros. -/
lemma copyCode_getD_behind {i : ℕ} (h : code.length ≤ i) : (copyCode code).getD i 0 = 0 := by
  rw [copyCode, getD_eq_getElem?_getD, getElem?_append_right h, getElem?_replicate]
  split_ifs <;> rfl

lemma scanned_start (orig : Bytes) : Scanned orig 0 orig [] where
  length := rfl
  op j hj := absurd hj (not_lt_zero j)
  same i _ := rfl
  dests d := by simp

/-- The first loop, from the beginning to the end. -/
lemma scanJumpDests_copyCode (code : Bytes) :
    ∃ k, code.length ≤ start (copyCode code) k ∧ Started code.length (copyCode code) k ∧
      Scanned (copyCode code) k (scanJumpDests code.length code.length 0 (copyCode code) []).1
        (scanJumpDests code.length code.length 0 (copyCode code) []).2 :=
  scanJumpDests_marks (by rw [copyCode_length]; omega) (by rw [start]; omega) (scanned_start _)
    fun j hj => absurd hj (not_lt_zero j)

/-- **The jump destinations** are the `JUMPDEST`s among the instructions. -/
theorem optimize_dests {d : ℕ} :
    d ∈ (optimize code).2 ↔ ∃ j, start (copyCode code) j = d ∧ d < code.length ∧
      (copyCode code).getD d 0 = 0x5b := by
  obtain ⟨k, hk, hst, hs⟩ := scanJumpDests_copyCode code
  rw [optimize]
  rw [hs.dests d]
  constructor
  · rintro ⟨j, hj, rfl, hb⟩
    exact ⟨j, rfl, hst j hj, hb⟩
  · rintro ⟨j, rfl, hd, hb⟩
    exact ⟨j, (start_strictMono _).lt_iff_lt.mp (hd.trans_le hk), rfl, hb⟩

/-- **Every place of the program** has its own instruction, or one that stands for it. -/
theorem optimize_matches (hj : Started code.length (copyCode code) j) :
    Matches (copyCode code) (optimize code).2 (optimize code).1 j := by
  obtain ⟨k, hk, hst, hs⟩ := scanJumpDests_copyCode code
  rw [optimize]
  generalize scanJumpDests code.length code.length 0 (copyCode code) [] = scan at hs ⊢
  have hop : ∀ j, start (copyCode code) j < code.length → scan.1.getD (start (copyCode code) j) 0 =
      banned ((copyCode code).getD (start (copyCode code) j) 0) := fun j hlt =>
    hs.op j ((start_strictMono _).lt_iff_lt.mp (hlt.trans_le hk))
  have hdata : ∀ j, Started code.length (copyCode code) j → ∀ i, start (copyCode code) j < i →
      i ≤ start (copyCode code) j + widthAt (copyCode code) (start (copyCode code) j) →
        scan.1.getD i 0 = (copyCode code).getD i 0 := by
    intro j _ i hlo hhi
    refine hs.same i fun l _ heq => ?_
    rcases lt_trichotomy l j with hl | rfl | hl
    · have := start_strictMono (copyCode code) hl
      omega
    · omega
    · have := start_add_width_lt (copyCode code) hl
      omega
  have hfirst : Rewritten (copyCode code) scan.1 scan.2 0 ⟨scan.1, fun _ => none⟩ :=
    ⟨hs.length, fun j hj => absurd hj (not_lt_zero j), rfl, fun _ _ => rfl⟩
  obtain ⟨k', hk', hr⟩ := optimizeFrom_matches (copyCode_length code) hop hdata
    (show code.length ≤ start (copyCode code) 0 + code.length by rw [start]; omega) hfirst
    fun j hj => absurd hj (not_lt_zero j)
  rcases (hj.le hk').lt_or_eq with hlt | rfl
  · exact hr.done j hlt
  · -- The end of the program, where the instruction is a zero byte.
    have hzero := copyCode_getD_behind hk'
    have hlt : ∀ l < k, start (copyCode code) j ≠ start (copyCode code) l := by
      intro l hl heq
      have := hst l hl
      omega
    have hhere := hr.here
    rw [hs.same _ hlt, hzero] at hhere
    rw [Matches, if_pos (by rw [widthAt, hzero]; rfl), hzero]
    exact hhere

/-- What can be found at the place of an instruction. -/
inductive Cell (orig : Bytes) (dests : List ℕ) (o : Optimized) (j : ℕ) : Prop
  | plain : widthAt orig (start orig j) = 0 →
      o.code.getD (start orig j) 0 = banned (orig.getD (start orig j) 0) → Cell orig dests o j
  | jumpc {val : U256} : pushedBefore orig j = some val → isJumpDest dests val = true →
      orig.getD (start orig j) 0 = 0x56 → o.code.getD (start orig j) 0 = jumpcByte →
        Cell orig dests o j
  | jumpci {val : U256} : pushedBefore orig j = some val → isJumpDest dests val = true →
      orig.getD (start orig j) 0 = 0x57 → o.code.getD (start orig j) 0 = jumpciByte →
        Cell orig dests o j
  | push : widthAt orig (start orig j) ≠ 0 → (∀ i ≤ widthAt orig (start orig j),
      o.code.getD (start orig j + i) 0 = orig.getD (start orig j + i) 0) → Cell orig dests o j
  | pushc : 1 < widthAt orig (start orig j) → o.code.getD (start orig j) 0 = pushcByte →
      (o.code.getD (start orig j + 2) 0).toNat = widthAt orig (start orig j) - 1 →
        o.pool (o.code.getD (start orig j + 1) 0).toNat =
          some (pushValue orig (start orig j) (widthAt orig (start orig j))) → Cell orig dests o j

lemma eq_of_banned {b c : UInt8} (h : banned b = c) (hc : c ≠ badByte) : b = c := by
  unfold banned at h
  split_ifs at h
  · exact absurd h.symm hc
  · exact h

lemma Matches.cell {orig : Bytes} {dests : List ℕ} {o : Optimized} (h : Matches orig dests o j) :
    Cell orig dests o j := by
  unfold Matches at h
  split_ifs at h with hw
  · cases hv : pushedBefore orig j with
    | none => exact .plain hw (by rw [h, hv]; rfl)
    | some val =>
      rw [hv, uncheckedJump] at h
      split_ifs at h with h1 h2
      · exact .jumpc hv h1.2 (eq_of_banned h1.1 (by decide)) h
      · exact .jumpci hv h2.2 (eq_of_banned h2.1 (by decide)) h
      · exact .plain hw h
  · rcases h with h | ⟨h1, hop, hskip, hp⟩
    · exact .push hw h
    · exact .pushc h1 hop hskip hp

/-- **Every place of the program, case by case.** -/
theorem optimize_cell (hj : Started code.length (copyCode code) j) :
    Cell (copyCode code) (optimize code).2 (optimize code).1 j :=
  (optimize_matches hj).cell

lemma optimize_length (code : Bytes) : (optimize code).1.code.length = code.length + 33 := by
  obtain ⟨k, hk, hst, hs⟩ := scanJumpDests_copyCode code
  rw [optimize]
  generalize scanJumpDests code.length code.length 0 (copyCode code) [] = scan at hs ⊢
  have hpush : ∀ dests pc n o, (optimizePush dests pc n o).code.length = o.code.length :=
    fun dests pc n o => by rw [optimizePush, constantJump_length, poolConstant_length]
  have hloop : ∀ turns pc o,
      (optimizeFrom code.length scan.2 turns pc o).code.length = o.code.length := by
    intro turns
    induction turns with
    | zero => intro pc o; rfl
    | succ turns ih =>
      intro pc o
      rw [optimizeFrom]
      split_ifs
      · exact ih _ _
      · rw [ih, hpush]
      · rfl
  rw [hloop, hs.length, copyCode_length]

end Ybtc
