import Ybtc.Miner.CasinoCalls

/-!
# The loop of the miner

`YbtcMiner` from `miner.cpp`.  In every turn the miner looks at the tip of the chain, decides
whether it may mine, sleeps, and has a block made.  The contract is meant to decide: `IsNextMiner`
asks it whether this miner follows the tip, and only if nobody has mined for some time an absent
miner may be replaced.  But the first test of the loop, `currentPhase >= 0`, is true of every tip,
and the branch behind it mines without a question.  The main result is `takeTurns_iff`.
-/

namespace Ybtc

open List

namespace YbtcMiner

/-! ## The decisions -/

/-- What the miner looks at of a tip. -/
structure Tip where
  hash : Uint256
  nHeight : ℕ
deriving Repr, DecidableEq

namespace Tip

/-- `pindexPrev->nHeight / CHAIN_PHASE_SIZE`. -/
def phase (tip : Tip) : ℕ := tip.nHeight / chainPhaseSize

/-- `pindexPrev->nHeight % CHAIN_PHASE_SIZE`. -/
def index (tip : Tip) : ℕ := tip.nHeight % chainPhaseSize

end Tip

/-- `CHAIN_BLOCK_INTERVAL`. -/
def chainBlockInterval : ℕ := 3000

/-- The place in the order of the winners that follows a tip. -/
def nextPlace (currentIndex : ℕ) : ℕ := (currentIndex + 1) % chainPhasePlayer

/-- `IsNextMiner`, with what `IsActiveMiner` gives; the result comes with `*checkedWinPhase` and
    `minerIndex`. -/
def isNextMiner (answer : Except Fault ℕ) (currentPhase : ℤ) (currentIndex : ℕ)
    (checkedWinPhase : ℤ) (minerIndex : ℕ) : Except Fault (Bool × ℤ × ℕ) :=
  if 0 ≤ currentPhase ∧ checkedWinPhase < currentPhase then do
    let winner ← answer
    let minerIndex := if 0 < winner then winner - 1 else chainPhasePlayer
    .ok (nextPlace currentIndex == minerIndex, currentPhase, minerIndex)
  else .ok (nextPlace currentIndex == minerIndex, checkedWinPhase, minerIndex)

/-- `whenJumpAbnormal`, in unsigned numbers of 32 bits. -/
def whenJumpAbnormal (currentPhase : ℤ) (currentIndex : ℕ) (lastWinPhase lastWinIndex : ℤ) : ℕ :=
  if lastWinIndex < 0 then if currentPhase = 0 then 1 else 9999
  else (((currentPhase - lastWinPhase) * chainPhasePlayer +
    (chainPhasePlayer + currentIndex - lastWinIndex) % 2 ^ 32 % chainPhasePlayer) % 2 ^ 32).toNat

/-- `4 * CHAIN_BLOCK_INTERVAL * whenJumpAbnormal(..)`. -/
def abnormalWait (currentPhase : ℤ) (currentIndex : ℕ) (lastWinPhase lastWinIndex : ℤ) : ℕ :=
  4 * chainBlockInterval * whenJumpAbnormal currentPhase currentIndex lastWinPhase lastWinIndex
    % 2 ^ 32

/-! ## One turn -/

/-- The variables of the loop, and the global `minerIndex`. -/
structure LoopState where
  timedHeight : ℤ
  nTimeStart : ℤ
  abnormalSkip : Bool
  lastInactive : ℤ
  lastWinPhase : ℤ
  lastWinIndex : ℤ
  checkedWinPhase : ℤ
  minerIndex : ℕ
deriving Repr, DecidableEq

/-- The values before the first turn. -/
def LoopState.initial (nTimeStart : ℤ) (minerIndex : ℕ) : LoopState :=
  ⟨-999999, nTimeStart, false, -999999, -1, -1, -1, minerIndex⟩

/-- What a turn of the loop sees. -/
structure TurnInput where
  /-- The tip at the beginning of the turn. -/
  tip : Tip
  /-- `GetTimeMicros()`. -/
  now : ℤ
  /-- What `IsActiveMiner` gives for a phase. -/
  answer : ℕ → Except Fault ℕ
  /-- The tip when `CreateNewBlock` runs, after the sleep. -/
  next : Tip
  /-- Whether `CreateNewBlock` returns a template. -/
  template : Bool

/-- The surroundings of the loop. -/
structure LoopParams where
  /-- `nTimeCheck * 0.000001 > seconds`, in floating point. -/
  exceeds : ℤ → ℕ → Bool
  /-- `chainparams.MineBlocksOnDemand()`. -/
  mineBlocksOnDemand : Bool

/-- How a turn ends: the variables, the tip a block was built on, and whether there is another
    turn. -/
structure TurnResult where
  state : LoopState
  built : Option Tip
  goesOn : Bool

section Loop

variable (p : LoopParams) (i : TurnInput)

/-- The wait for the tip of the turn is over. -/
def waitOver (st : LoopState) : Bool :=
  st.timedHeight == i.tip.nHeight && p.exceeds (i.now - st.nTimeStart)
    (abnormalWait i.tip.phase i.tip.index st.lastWinPhase st.lastWinIndex)

/-- The abnormal check. -/
def abnormalCheck (st : LoopState) : LoopState :=
  if st.timedHeight ≠ i.tip.nHeight then
    { st with timedHeight := i.tip.nHeight, nTimeStart := i.now }
  else if waitOver p i st then { st with abnormalSkip := true }
  else st

/-- The end of a turn that may mine. -/
def build (st : LoopState) : TurnResult :=
  if i.template then ⟨st, some i.next, !p.mineBlocksOnDemand⟩ else ⟨st, none, false⟩

/-- **One turn of the loop.** -/
def turn (before : LoopState) : TurnResult :=
  let currentPhase : ℤ := i.tip.phase
  let currentIndex := i.tip.index
  let st := abnormalCheck p i before
  if 0 ≤ currentPhase then
    build p i { st with minerIndex := chainPhasePlayer - 1, lastWinPhase := 0,
                        lastWinIndex := chainPhasePlayer - 1 }
  else if st.abnormalSkip then build p i { st with abnormalSkip := false }
  else
    match isNextMiner (i.answer i.tip.phase) currentPhase currentIndex st.checkedWinPhase
        st.minerIndex with
    | .error _ => ⟨st, none, false⟩
    | .ok (true, checkedWinPhase, minerIndex) =>
      build p i { st with checkedWinPhase := checkedWinPhase, minerIndex := minerIndex,
                          lastWinPhase := currentPhase, lastWinIndex := currentIndex }
    | .ok (false, checkedWinPhase, minerIndex) =>
      ⟨{ st with checkedWinPhase := checkedWinPhase, minerIndex := minerIndex,
                 lastInactive := currentIndex }, none, true⟩

/-- **Every turn builds**: a height is not negative, and neither is its phase. -/
lemma turn_built (before : LoopState) :
    (turn p i before).built = if i.template then some i.next else none := by
  have hphase : (0 : ℤ) ≤ i.tip.phase := Int.natCast_nonneg _
  rw [turn]
  simp only [if_pos hphase, build]
  split_ifs <;> rfl

end Loop

/-! ## Runs -/

/-- A turn that was made. -/
structure Turn where
  before : LoopState
  input : TurnInput
  built : Option Tip

/-- **The loop**, over the inputs of its turns. -/
def run (p : LoopParams) : LoopState → List TurnInput → List Turn
  | _, [] => []
  | st, i :: is =>
    ⟨st, i, (turn p i st).built⟩ ::
      if (turn p i st).goesOn then run p (turn p i st).state is else []

/-- In a run every turn with a template builds on the tip it finds after its sleep. -/
lemma run_built (p : LoopParams) : ∀ (st : LoopState) (is : List TurnInput),
    ∀ t ∈ run p st is, t.built = if t.input.template then some t.input.next else none
  | _, [] => fun _ h => absurd h not_mem_nil
  | st, i :: is => by
    intro t ht
    rcases mem_cons.mp ht with rfl | ht
    · exact turn_built p i st
    · split_ifs at ht
      · exact run_built p _ is t ht
      · exact absurd ht not_mem_nil

/-- One miner: its surroundings, where it starts, and what it sees. -/
structure MinerRun where
  params : LoopParams
  nTimeStart : ℤ
  minerIndex : ℕ
  inputs : List TurnInput

/-- The turns of a miner. -/
def MinerRun.turns (m : MinerRun) : List Turn :=
  run m.params (.initial m.nTimeStart m.minerIndex) m.inputs

/-- The miner builds on a tip. -/
def MinerRun.BuildsOn (m : MinerRun) (tip : Tip) : Prop := ∃ t ∈ m.turns, t.built = some tip

/-! ## Taking turns -/

/-- **The contract names the miner** as the winner who follows a tip. -/
def Named (i : TurnInput) (tip : Tip) : Prop :=
  ∃ winner, i.answer tip.phase = .ok winner ∧ 0 < winner ∧ nextPlace tip.index = winner - 1

/-- **The wait for a tip is over.** -/
def Waited (p : LoopParams) (t : Turn) (tip : Tip) : Prop :=
  tip = t.input.tip ∧ waitOver p t.input t.before = true

/-- The miner may build on a tip in a turn. -/
def MayBuild (p : LoopParams) (t : Turn) (tip : Tip) : Prop := Named t.input tip ∨ Waited p t tip

section TakeTurns

variable {ι : Type} (miners : ι → MinerRun)

/-- No two miners are the same winner of a phase. -/
def DistinctWinners : Prop :=
  ∀ m n, m ≠ n → ∀ t ∈ (miners m).turns, ∀ t' ∈ (miners n).turns, ∀ phase winner,
    t.input.answer phase = .ok winner → t'.input.answer phase = .ok winner → winner = 0

/-- All assigned miners are present: nobody has to wait for them. -/
def AllPresent : Prop := ∀ m, ∀ t ∈ (miners m).turns, ∀ tip, ¬ Waited (miners m).params t tip

/-- **The miners take turns**: each of them builds on a tip only if it may, and with all of them
    present at most one builds on a tip. -/
structure TakeTurns : Prop where
  eligible : ∀ m, ∀ t ∈ (miners m).turns, ∀ tip, t.built = some tip →
    MayBuild (miners m).params t tip
  alone : DistinctWinners miners → AllPresent miners → ∀ m n tip,
    (miners m).BuildsOn tip → (miners n).BuildsOn tip → m = n

variable {miners}

/-- Two miners that are named for one tip are the same winner. -/
lemma Named.unique {i j : TurnInput} {tip : Tip} (hi : Named i tip) (hj : Named j tip) :
    ∃ winner, 0 < winner ∧ i.answer tip.phase = .ok winner ∧ j.answer tip.phase = .ok winner := by
  obtain ⟨w, hw, hpos, hplace⟩ := hi
  obtain ⟨w', hw', hpos', hplace'⟩ := hj
  obtain rfl : w = w' := by omega
  exact ⟨w, hpos, hw, hw'⟩

/-- One builder a tip follows, since only one miner is named. -/
lemma alone_of_eligible
    (h : ∀ m, ∀ t ∈ (miners m).turns, ∀ tip, t.built = some tip → MayBuild (miners m).params t tip)
    (hdistinct : DistinctWinners miners) (hpresent : AllPresent miners) {m n : ι} {tip : Tip}
    (hm : (miners m).BuildsOn tip) (hn : (miners n).BuildsOn tip) : m = n := by
  obtain ⟨t, ht, hbuilt⟩ := hm
  obtain ⟨t', ht', hbuilt'⟩ := hn
  have hnamed := (h m t ht tip hbuilt).resolve_right (hpresent m t ht tip)
  have hnamed' := (h n t' ht' tip hbuilt').resolve_right (hpresent n t' ht' tip)
  obtain ⟨winner, hpos, hw, hw'⟩ := hnamed.unique hnamed'
  by_contra hne
  exact absurd (hdistinct m n hne t ht t' ht' tip.phase winner hw hw') (by omega)

/-- **When miners take turns**: in every turn that gets a template the miner happens to be the one
    who follows the tip, or its wait for the tip is over.  The loop does nothing to bring this
    about. -/
theorem takeTurns_iff (miners : ι → MinerRun) :
    TakeTurns miners ↔ ∀ m, ∀ t ∈ (miners m).turns, t.input.template = true →
      MayBuild (miners m).params t t.input.next := by
  constructor
  · intro h m t ht htemplate
    refine h.eligible m t ht _ ?_
    rw [run_built _ _ _ t ht, if_pos htemplate]
  · intro h
    have heligible : ∀ m, ∀ t ∈ (miners m).turns, ∀ tip, t.built = some tip →
        MayBuild (miners m).params t tip := by
      intro m t ht tip hbuilt
      rw [run_built _ _ _ t ht] at hbuilt
      split_ifs at hbuilt with htemplate
      cases hbuilt
      exact h m t ht htemplate
    exact ⟨heligible, fun hdistinct hpresent m n tip hm hn =>
      alone_of_eligible heligible hdistinct hpresent hm hn⟩

end TakeTurns

/-- A turn on the genesis block, with the answer the contract gives. -/
def genesisTurn (winner : ℕ) : TurnInput := ⟨⟨0, 0⟩, 0, fun _ => .ok winner, ⟨0, 0⟩, true⟩

/-- A miner that makes this turn, on a clock that never exceeds anything. -/
def genesisMiner (winner : ℕ) : MinerRun := ⟨⟨fun _ _ => false, false⟩, 0, 2, [genesisTurn winner]⟩

/-- The second winner follows the genesis block. -/
theorem takeTurns_second : TakeTurns fun _ : Unit => genesisMiner 2 := by
  refine (takeTurns_iff _).mpr fun _ t ht _ => Or.inl ?_
  obtain rfl := mem_singleton.mp ht
  exact ⟨2, rfl, by decide, rfl⟩

/-- **Both winners build on the genesis block**, and so would a miner who has won nothing. -/
theorem both_winners_build : (∀ winner : Fin 3, (genesisMiner winner).BuildsOn ⟨0, 0⟩) ∧
      DistinctWinners (fun m : Bool => genesisMiner (if m then 2 else 1)) ∧
      AllPresent (fun m : Bool => genesisMiner (if m then 2 else 1)) ∧
      ¬ TakeTurns fun m : Bool => genesisMiner (if m then 2 else 1) := by
  have hbuilds : ∀ winner, (genesisMiner winner).BuildsOn ⟨0, 0⟩ := fun winner =>
    ⟨_, mem_singleton_self _, rfl⟩
  have hinj : ∀ m n : Bool, (if m then 2 else 1) = (if n then 2 else 1) → m = n := by decide
  have hdistinct : DistinctWinners (fun m : Bool => genesisMiner (if m then 2 else 1)) := by
    intro m n hne t ht t' ht' phase winner h h'
    obtain rfl := mem_singleton.mp ht
    obtain rfl := mem_singleton.mp ht'
    have hsame : (if m then 2 else 1) = if n then 2 else 1 :=
      (Except.ok.inj h).trans (Except.ok.inj h').symm
    exact absurd (hinj m n hsame) hne
  have hpresent : AllPresent (fun m : Bool => genesisMiner (if m then 2 else 1)) := by
    rintro m t ht tip ⟨_, hover⟩
    obtain rfl := mem_singleton.mp ht
    cases m <;> exact absurd hover (by decide)
  exact ⟨fun winner => hbuilds winner, hdistinct, hpresent, fun h =>
    absurd (h.alone hdistinct hpresent true false ⟨0, 0⟩ (hbuilds 2) (hbuilds 1)) (by decide)⟩

end YbtcMiner

end Ybtc
