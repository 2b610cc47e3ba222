import Ybtc.Casino.Draw
import Ybtc.Contract.PushedCall
import Ybtc.Miner.Agreement

/-!
# The calls the miner makes

The miner talks to the genesis contract in hexadecimal strings: it glues selectors and words
together (`ConvertUnsignedIntToHexString`), and cuts its answers out of the output
(`ConvertHexStringToUnsignedInt`).  Both have limits.  A phase with more than four digits does not
fit the buffer, and an output that is too short ends in an exception.  The main result is
`casino_calls_wellFormed_iff`.
-/

namespace Ybtc

open BitVec (ofNat)

open Stateful List

/-! ## The lottery -/

/-- The random numbers of the standard library: `dis totalPlayer seed k` is number `k` of the
    sequence that starts with a seed, between one and the number of players. -/
structure RandomSource where
  dis : ℕ → ℕ → ℕ → ℕ
  dis_mem : ∀ {totalPlayer : ℕ} (seed k : ℕ), 1 ≤ totalPlayer →
    1 ≤ dis totalPlayer seed k ∧ dis totalPlayer seed k ≤ totalPlayer

/-- A generator that always draws the first player. -/
def RandomSource.ones : RandomSource where
  dis := fun _ _ _ => 1
  dis_mem := fun _ _ h => ⟨le_refl _, h⟩

/-- The loop of `GenerateCasinoList`, with the number of tries it has left; `found` are the winners
    so far, which are also the elements of `randomset`. -/
def drawLoop (dis : ℕ → ℕ) (winnerSize : ℕ) : ℕ → ℕ → List ℕ → List ℕ
  | 0, _, found => found
  | tries + 1, k, found =>
    if found.length < winnerSize then
      if dis k ∈ found then drawLoop dis winnerSize tries (k + 1) found
      else drawLoop dis winnerSize tries (k + 1) (found ++ [dis k])
    else found

variable (rnd : RandomSource)

/-- `GenerateCasinoList`; the places that are not filled stay zero. -/
def generateCasinoList (winnerSize totalPlayer seed : ℕ) : List ℕ :=
  let found := drawLoop (rnd.dis totalPlayer seed) winnerSize (winnerSize * 100) 0 []
  found ++ List.replicate (winnerSize - found.length) 0

/-- The values the loop draws, in their order. -/
def drawsMade (dis : ℕ → ℕ) (winnerSize : ℕ) : ℕ → ℕ → List ℕ → List ℕ
  | 0, _, _ => []
  | tries + 1, k, found =>
    if found.length < winnerSize then dis k :: drawsMade dis winnerSize tries (k + 1)
      (if dis k ∈ found then found else found ++ [dis k])
    else []

/-- The loop as it stands, for a number of turns: `k` has 32 bits, and `n` numbers are drawn. -/
def drawTurns (dis : ℕ → ℕ) (winnerSize : ℕ) : ℕ → BitVec 32 → ℕ → List ℕ → Option (List ℕ)
  | 0, _, _, _ => none
  | turns + 1, k, n, found =>
    if found.length < winnerSize ∧ k.toNat < winnerSize * 100 then
      drawTurns dis winnerSize turns (k + 1) (n + 1)
        (if dis n ∈ found then found else found ++ [dis n])
    else some found

/-- `GenerateCasinoList` as it is called.  The bounds of `dis(1, totalPlayer)` are `int`s, and a
    distribution over an empty range is undefined. -/
def BlockAssembler.generateCasinoList (turns winnerSize : ℕ) (totalPlayer : BitVec 32)
    (seed : ℕ) : Option (List ℕ) :=
  if 1 ≤ totalPlayer.toInt then
    (drawTurns (rnd.dis totalPlayer.toNat seed) winnerSize turns 0 0 []).map fun found =>
      found ++ List.replicate (winnerSize - found.length) 0
  else none

variable (dis : ℕ → ℕ) (winnerSize : ℕ) (tries : ℕ)

/-- The winners are the values drawn, each of them once. -/
lemma drawLoop_spec : ∀ (k : ℕ) (found : List ℕ),
    found.length ≤ winnerSize → found.Nodup →
      (drawLoop dis winnerSize tries k found).length ≤ winnerSize ∧
      (drawLoop dis winnerSize tries k found).Nodup ∧
      ∀ w, w ∈ drawLoop dis winnerSize tries k found ↔
        w ∈ found ∨ w ∈ drawsMade dis winnerSize tries k found := by
  induction tries with
  | zero => simp +contextual [drawLoop, drawsMade]
  | succ tries ih =>
    intro k found hlen hnodup
    rw [drawLoop, drawsMade]
    split_ifs with hlt hold
    · obtain ⟨hle, hnd, hmem⟩ := ih (k + 1) found hlen hnodup
      refine ⟨hle, hnd, fun w => ?_⟩
      rw [hmem, mem_cons]
      constructor
      · tauto
      · rintro (hw | rfl | hw) <;> tauto
    · obtain ⟨hle, hnd, hmem⟩ := ih (k + 1) (found ++ [dis k]) (by simpa using hlt)
        (hnodup.append (nodup_singleton _) (disjoint_singleton.mpr hold))
      refine ⟨hle, hnd, fun w => ?_⟩
      rw [hmem]
      simp [or_assoc]
    · simp [hlen, hnodup]

lemma drawsMade_spec : ∀ (k : ℕ) (found : List ℕ),
    (drawsMade dis winnerSize tries k found).length ≤ tries ∧
      ∀ w ∈ drawsMade dis winnerSize tries k found, ∃ i, w = dis i := by
  induction tries with
  | zero => simp [drawsMade]
  | succ tries ih =>
    intro k found
    rw [drawsMade]
    by_cases hlt : found.length < winnerSize
    · obtain ⟨hle, hdis⟩ := ih (k + 1) (if dis k ∈ found then found else found ++ [dis k])
      rw [if_pos hlt, length_cons, forall_mem_cons]
      exact ⟨Nat.succ_le_succ hle, ⟨k, rfl⟩, hdis⟩
    · simp [hlt]

/-- What is asked of a drawing: the winners are a prefix of the list, and a place is left empty only
    if too few values were drawn. -/
structure DrawnWell (winnerSize totalPlayer : ℕ) (draws list : List ℕ) : Prop where
  tries : draws.length ≤ winnerSize * 100
  filled : ∃ ws, list = ws ++ List.replicate (winnerSize - ws.length) 0 ∧
    ws.length ≤ winnerSize ∧ ws.Nodup ∧ ∀ w ∈ ws, 1 ≤ w ∧ w ≤ totalPlayer
  empty : 0 ∈ list → draws.toFinset.card < winnerSize

variable {totalPlayer : ℕ} (seed : ℕ)

/-- **The drawing does what is asked of it** when there are players. -/
lemma generateCasinoList_drawnWell (h : 1 ≤ totalPlayer) : DrawnWell winnerSize totalPlayer
      (drawsMade (rnd.dis totalPlayer seed) winnerSize (winnerSize * 100) 0 [])
      (generateCasinoList rnd winnerSize totalPlayer seed) := by
  obtain ⟨hle, hnodup, hmem⟩ := drawLoop_spec (rnd.dis totalPlayer seed) winnerSize
    (winnerSize * 100) 0 [] (Nat.zero_le _) nodup_nil
  obtain ⟨htries, hdis⟩ := drawsMade_spec (rnd.dis totalPlayer seed) winnerSize
    (winnerSize * 100) 0 []
  have hrange : ∀ w ∈ drawLoop (rnd.dis totalPlayer seed) winnerSize (winnerSize * 100) 0 [],
      1 ≤ w ∧ w ≤ totalPlayer := by
    intro w hw
    obtain ⟨i, rfl⟩ := hdis w (by simpa using (hmem w).mp hw)
    exact rnd.dis_mem seed i h
  refine ⟨htries, ⟨_, rfl, hle, hnodup, hrange⟩, fun hzero => ?_⟩
  -- The distinct values drawn are as many as the winners.
  have hcard : (drawsMade (rnd.dis totalPlayer seed) winnerSize (winnerSize * 100) 0 []).toFinset
      = (drawLoop (rnd.dis totalPlayer seed) winnerSize (winnerSize * 100) 0 []).toFinset := by
    ext w
    simp [hmem]
  rw [hcard, toFinset_card_of_nodup hnodup]
  rcases mem_append.mp hzero with hw | hw
  · exact absurd (hrange 0 hw).1 (by simp)
  · have := (mem_replicate.mp hw).1
    omega

/-- A counter of 32 bits that does not wrap ends the loop after `winnerSize * 100` numbers. -/
lemma drawTurns_eq (hsize : winnerSize * 100 < 2 ^ 32) : ∀ {n : ℕ} {found : List ℕ},
    n + tries = winnerSize * 100 → drawTurns dis winnerSize (tries + 1) (ofNat 32 n) n found =
      some (drawLoop dis winnerSize tries n found) := by
  induction tries with
  | zero =>
    intro n found hn
    rw [drawTurns, drawLoop, BitVec.toNat_ofNat, Nat.mod_eq_of_lt (by omega), if_neg (by omega)]
  | succ tries ih =>
    intro n found hn
    have hk : ofNat 32 n + 1 = ofNat 32 (n + 1) := BitVec.ofNat_add_ofNat n 1
    rw [drawTurns, drawLoop, hk, ih (by omega), BitVec.toNat_ofNat, Nat.mod_eq_of_lt (by omega)]
    split_ifs <;> first | rfl | omega

/-- **The drawing does what is asked of it**, whatever the seed and the random numbers.  The only
    caller guards against no players, reads a count of 16 bits, and has two places to fill. -/
theorem generateCasinoList_draws {winnerSize : ℕ} (hsize : winnerSize * 100 < 2 ^ 32)
    {totalPlayer : BitVec 32} (hplayers : 1 ≤ totalPlayer.toNat ∧ totalPlayer.toNat < 2 ^ 31)
    (rnd : RandomSource) (seed : ℕ) : ∃ list,
      BlockAssembler.generateCasinoList rnd (winnerSize * 100 + 1) winnerSize totalPlayer seed =
          some list ∧
        DrawnWell winnerSize totalPlayer.toNat (drawsMade (rnd.dis totalPlayer.toNat seed)
          winnerSize (winnerSize * 100) 0 []) list := by
  have hint : 1 ≤ totalPlayer.toInt := by
    rw [BitVec.toInt]
    split_ifs <;> omega
  have hturns : drawTurns (rnd.dis totalPlayer.toNat seed) winnerSize
      (winnerSize * 100 + 1) 0 0 [] =
      some _ := drawTurns_eq _ _ _ hsize (Nat.zero_add _)
  refine ⟨_, ?_, generateCasinoList_drawnWell rnd winnerSize seed hplayers.1⟩
  rw [BlockAssembler.generateCasinoList, if_pos hint]
  exact congrArg (Option.map _) hturns

/-- One player for two places. -/
theorem generateCasinoList_draws_one : ∃ list,
    BlockAssembler.generateCasinoList .ones 201 2 1#32 7 = some list ∧
      DrawnWell 2 1 (drawsMade (RandomSource.ones.dis 1 7) 2 200 0 []) list :=
  generateCasinoList_draws (by decide) (by decide) .ones 7

/-- The list has a place for every winner. -/
lemma generateCasinoList_length (totalPlayer seed : ℕ) :
    (generateCasinoList rnd winnerSize totalPlayer seed).length = winnerSize := by
  have hle := (drawLoop_spec (rnd.dis totalPlayer seed) winnerSize (winnerSize * 100) 0 []
    (Nat.zero_le _) nodup_nil).1
  rw [generateCasinoList, length_append, length_replicate]
  omega

/-- No winner has an ordinal beyond the number of players. -/
lemma generateCasinoList_le (h : 1 ≤ totalPlayer) :
    ∀ w ∈ generateCasinoList rnd winnerSize totalPlayer seed, w ≤ totalPlayer := by
  intro w hw
  obtain ⟨ws, hws, -, -, hrange⟩ := (generateCasinoList_drawnWell rnd winnerSize seed h).filled
  rw [hws] at hw
  rcases mem_append.mp hw with hw | hw
  · exact (hrange w hw).2
  · simp [eq_of_mem_replicate hw]

/-- The parameters of the casino as the node has them: the lottery is the one above, the address is
    that of a key, or not set yet, and the code of the contract fits into a script. -/
structure CasinoParams.Genuine (c : CasinoParams) (rnd : RandomSource) : Prop where
  lottery : c.generateCasinoList = Ybtc.generateCasinoList rnd chainPhasePlayer
  address : c.minerAddress.length ≤ 20
  code : c.genesisContractCode.length ≤ 100000

/-! ## The output scripts -/

/-- The fields of a call of the casino in the coinbase, as they are read back. -/
def casinoFields (c : CasinoParams) (data : Bytes) : ContractFields :=
  ⟨h160 genesisContractAddress, data, 25, 60000000, c.minerAddress, h160 c.minerAddress, 0⟩

section Scripts

variable (crypto : Crypto) {c : CasinoParams}

/-- **The call script is read back** with the data it was built from. -/
lemma casinoCallScript_fields (haddress : c.minerAddress.length ≤ 20) {data : Bytes}
    (hdata : data.length ≤ 100000) :
    contractFlag (casinoCallScript c data) = .isMessageCall ∧
      parseStack .isMessageCall (contractStack crypto (casinoCallScript c data)) =
        .ok (casinoFields c data) ∧
      (⟨0, casinoCallScript c data⟩ : CTxOut).isContract = true := by
  have hshort : ∀ b ∈ [serialize 0, c.minerAddress, serialize 60000000, serialize 25]
      ++ [genesisContractAddress], b.length ≤ 20 := by
    simp only [cons_append, nil_append, forall_mem_cons]
    exact ⟨by decide, haddress, by decide, by decide, by decide, by simp⟩
  obtain ⟨hflag, hstack, hcontract⟩ := pushedScript_reads crypto (Or.inr rfl)
    (le_trans hdata (show 100000 ≤ maxScriptElementSize by decide)) hshort (by simp) 0
  refine ⟨hflag, ?_, hcontract⟩
  exact congrArg (parseStack .isMessageCall) hstack

/-- **So is the script that creates the contract.** -/
lemma casinoCreateScript_fields (haddress : c.minerAddress.length ≤ 20)
    (hcode : c.genesisContractCode.length ≤ 100000) :
    contractFlag (casinoCreateScript c) = .isCreate ∧
      parseStack .isCreate (contractStack crypto (casinoCreateScript c)) =
        .ok (casinoFields c c.genesisContractCode) ∧
      (⟨0, casinoCreateScript c⟩ : CTxOut).isContract = true := by
  have hshort : ∀ b ∈ [c.minerAddress, serialize 60000000, serialize 25]
      ++ [genesisContractAddress], b.length ≤ 20 := by
    simp only [cons_append, nil_append, forall_mem_cons]
    exact ⟨haddress, by decide, by decide, by decide, by simp⟩
  obtain ⟨hflag, hstack, hcontract⟩ := pushedScript_reads crypto (Or.inl rfl)
    (le_trans hcode (show 100000 ≤ maxScriptElementSize by decide)) hshort (by simp) 0
  refine ⟨hflag, ?_, hcontract⟩
  exact congrArg (parseStack .isCreate) hstack

end Scripts

/-! ## The data of the calls -/

/-- `CASINO_ISWINNERME`. -/
def casinoIsWinnerMe : Bytes := [0x43, 0xb7, 0x0f, 0x13]

/-- A call with one number, as it is glued together. -/
def phaseData (selector : Bytes) (phase : ℕ) : Except Fault Bytes := do
  let digits ← convertUnsignedIntToHexString phase
  .ok (selector ++ str60zero ++ digits)

/-- The same bytes, for a number that fits. -/
def phaseCall (selector : Bytes) (phase : ℕ) : Bytes :=
  selector ++ str60zero ++ [UInt8.ofNat (phase / 256), UInt8.ofNat (phase % 256)]

/-- `IsActiveMiner`. -/
def isActiveMiner (E : ContractEngine) (c : CasinoParams) (currentPhase : ℕ) :
    EStateM Fault E.State ℕ := do
  let data ← Stateful.liftExcept (phaseData casinoIsWinnerMe currentPhase)
  casinoQuery E c data

/-- **A well-formed call**: the selector, and after it one field of 32 bytes for each word. -/
def WellFormedCall (selector : Bytes) (words : List U256) (data : Bytes) : Prop :=
  ∃ fields : List Bytes, data = selector ++ fields.flatten ∧
    List.Forall₂ (fun field word => field.length = 32 ∧ fieldWord field = word) fields words

variable {phase : ℕ} (selector : Bytes)

lemma phaseData_of_lt (h : phase < 2 ^ 16) :
    phaseData selector phase = .ok (phaseCall selector phase) := by
  rw [phaseData, convertUnsignedIntToHexString_of_lt h]
  rfl

lemma str60zero_field (h : phase < 2 ^ 16) :
    (str60zero ++ [UInt8.ofNat (phase / 256), UInt8.ofNat (phase % 256)]).length = 32 ∧
      fieldWord (str60zero ++ [UInt8.ofNat (phase / 256), UInt8.ofNat (phase % 256)]) =
        ofNat 256 phase := by
  refine ⟨by simp [str60zero], ?_⟩
  rw [fieldWord, readBE_append, str60zero, readBE_zeros, readBE_pair h]
  simp

lemma phaseCall_wellFormed (h : phase < 2 ^ 16) :
    WellFormedCall selector [ofNat 256 phase] (phaseCall selector phase) :=
  ⟨[_], by simp [phaseCall], .cons (str60zero_field h) .nil⟩

/-- The packed list, as a word. -/
def winnersWord (winner : List ℕ) : U256 :=
  ofNat 256 (winner.foldl (fun acc w => acc * 65536 + w) 0)

/-- **The call that sets the winners**, for a phase that fits. -/
lemma setWinnersData_wellFormed {w0 w1 : ℕ} (h : phase < 2 ^ 16) (h0 : w0 < 2 ^ 16)
    (h1 : w1 < 2 ^ 16) :
    ∃ data, setWinnersData phase [w0, w1] = .ok data ∧ data.length = 68 ∧
      WellFormedCall casinoSetNextWinners [ofNat 256 phase, winnersWord [w0, w1]] data := by
  obtain ⟨field, hfield, hlen, hword⟩ := winnersField_pair h0 h1
  obtain ⟨hphase, hphaseWord⟩ := str60zero_field h
  refine ⟨_, by rw [setWinnersData, convertUnsignedIntToHexString_of_lt h, hfield]; rfl, ?_,
    [_, field], ?_, .cons ⟨hphase, hphaseWord⟩ (.cons ⟨hlen, ?_⟩ .nil)⟩
  · simp [hlen, str60zero, casinoSetNextWinners]
  · simp
  · rw [fieldWord, hword]
    simp [winnersWord]

/-! ## The answers -/

section Answers

variable {E : ContractEngine} (laws : EngineLaws E) (c : CasinoParams)

/-- What the contract answers at a root to the calls of the miner. -/
def Answers (r : Uint256) (answer : Bytes → Bytes) : Prop :=
  ∀ s, laws.Valid s → laws.root s = r → ∀ data,
    data.take 4 ∈ [casinoGetTotalPlayer, casinoGetWinnerSeed, casinoIsWinnerMe] →
      ∃ success s', callContract E c (h160 genesisContractAddress) data [] false s =
        .ok (success, answer data) s'

/-- The number that is cut out of an output. -/
def outputNumber (output : Bytes) : ℕ := readBE ((output.drop 30).take 2)

variable {laws c} {s s' : E.State} {data : Bytes}

/-- A call that returns leaves the root where it was. -/
lemma callContract_back {addr : H160} {output : Bytes} {res : Bool × Bytes}
    (hs : laws.Valid s) (h : callContract E c addr data output false s = .ok res s') :
    laws.Valid s' ∧ laws.root s' = laws.root s := by
  obtain ⟨old, s0, hold, hset, -⟩ := callContract_ok h
  rw [laws.rootHash_ok hs] at hold
  cases hold
  obtain ⟨s2, hset', hroot, hv⟩ := EngineLaws.setRoot_valid (laws.known_execute hs)
  rw [hset'] at hset
  cases hset
  exact ⟨hv, hroot⟩

variable {r : Uint256} {answer : Bytes → Bytes}

variable {s : E.State} {nHeight : ℕ}

/-- **A query reads its number from an output that is long enough**, and throws otherwise. -/
lemma casinoQuery_eq (hanswer : Answers laws c r answer) (hs : laws.Valid s) (hr : laws.root s = r)
    (hdata : data.take 4 ∈ [casinoGetTotalPlayer, casinoGetWinnerSeed, casinoIsWinnerMe]) :
    ∃ s', laws.Valid s' ∧ laws.root s' = r ∧ casinoQuery E c data s =
      if 30 ≤ (answer data).length then .ok (outputNumber (answer data)) s'
      else .error (.thrown (.logicError "basic_string::substr")) s' := by
  obtain ⟨success, s', hcall⟩ := hanswer s hs hr data hdata
  obtain ⟨hv, hroot⟩ := callContract_back hs hcall
  refine ⟨s', hv, hroot.trans hr, (bind_of_ok hcall).trans ?_⟩
  show liftExcept (convertHexStringToUnsignedInt (answer data)) s' = _
  by_cases h : 30 ≤ (answer data).length
  · rw [convertHexStringToUnsignedInt, if_neg (by omega), if_pos h]
    rfl
  · rw [convertHexStringToUnsignedInt, if_pos (by omega), if_neg h]
    rfl

/-- Two bytes are less than 2¹⁶. -/
lemma outputNumber_lt (output : Bytes) : outputNumber output < 2 ^ 16 := by
  rw [outputNumber]
  rcases output.drop 30 with _ | ⟨a, _ | ⟨b, rest⟩⟩
  · decide
  · have ha := a.toNat_lt
    simp only [take_succ_cons, take_nil, readBE, reverse_singleton, readLE]
    omega
  · have ha := a.toNat_lt
    have hb := b.toNat_lt
    simp only [take_succ_cons, take_zero, readBE, reverse_cons, reverse_nil,
      nil_append, cons_append, readLE]
    omega

/-- The winners the miner draws from the two answers. -/
def drawnWinners (c : CasinoParams) (players seed : Bytes) : List ℕ :=
  c.generateCasinoList (playersOr (outputNumber players)) (outputNumber seed)

lemma playersOr_pos (n : ℕ) : 1 ≤ playersOr n := by
  unfold playersOr chainPhasePlayer
  split_ifs <;> omega

variable {rnd : RandomSource}

/-- Two winners are drawn, and both fit into four digits. -/
lemma generateCasinoList_pair (rnd : RandomSource) {total : ℕ}
    (htotal : total < 2 ^ 16) (seed : ℕ) :
    ∃ w0 w1, generateCasinoList rnd chainPhasePlayer (playersOr total) seed = [w0, w1] ∧
      w0 < 2 ^ 16 ∧ w1 < 2 ^ 16 := by
  have hlen := generateCasinoList_length rnd chainPhasePlayer (playersOr total) seed
  have hle := generateCasinoList_le rnd chainPhasePlayer seed (playersOr_pos total)
  obtain ⟨w0, w1, hw⟩ := length_eq_two.mp (show _ = 2 from hlen)
  have hbound : playersOr total < 2 ^ 16 := by
    unfold playersOr chainPhasePlayer
    split_ifs <;> omega
  rw [hw] at hle
  exact ⟨w0, w1, hw, lt_of_le_of_lt (hle w0 (by simp)) hbound,
    lt_of_le_of_lt (hle w1 (by simp)) hbound⟩

lemma drawnWinners_pair (hc : c.Genuine rnd) (players seed : Bytes) :
    ∃ w0 w1, drawnWinners c players seed = [w0, w1] ∧ w0 < 2 ^ 16 ∧ w1 < 2 ^ 16 := by
  rw [drawnWinners, hc.lottery]
  exact generateCasinoList_pair rnd (outputNumber_lt players) _

/-! ## The script of the coinbase -/

/-- The heights at which the winners of the next phase are set. -/
def CasinoHeight (nHeight : ℕ) : Prop :=
  2 < nHeight ∧ (nHeight - 1) % chainPhaseSize = chainPhaseSize - 1

instance casinoHeightDecidable : DecidablePred CasinoHeight := fun _ => instDecidableAnd

/-- The phase of a height. -/
def phaseOf (nHeight : ℕ) : ℕ := (nHeight - 1) / chainPhaseSize

lemma casinoScript_of_height (h : CasinoHeight nHeight) : casinoScript E c nHeight = (do
      let script ← casinoWinnersScript E c nHeight
      pure (some script)) := by
  have h2 := h.1
  rw [casinoScript, if_neg (by omega)]
  exact if_pos h

/-- **The script is built from two long answers.** -/
lemma casinoScript_builds (hc : c.Genuine rnd)
    (hanswer : Answers laws c r answer) (hheight : CasinoHeight nHeight)
    (hphase : phaseOf nHeight < 2 ^ 16) (hplayers : 30 ≤ (answer casinoGetTotalPlayer).length)
    (hseed : 30 ≤ (answer (phaseCall casinoGetWinnerSeed (phaseOf nHeight - 1))).length)
    (hs : laws.Valid s) (hr : laws.root s = r) :
    ∃ data s', casinoScript E c nHeight s = .ok (some (casinoCallScript c data)) s' ∧
      laws.Valid s' ∧ data.length = 68 ∧ WellFormedCall casinoSetNextWinners
        [ofNat 256 (phaseOf nHeight), winnersWord (drawnWinners c
          (answer casinoGetTotalPlayer)
          (answer (phaseCall casinoGetWinnerSeed (phaseOf nHeight - 1))))] data := by
  obtain ⟨s1, hv1, hr1, hq1⟩ := casinoQuery_eq hanswer hs hr
    (show casinoGetTotalPlayer.take 4 ∈ _ by decide)
  obtain ⟨s2, hv2, hr2, hq2⟩ := casinoQuery_eq hanswer hv1 hr1
    (show (phaseCall casinoGetWinnerSeed (phaseOf nHeight - 1)).take 4 ∈ _ by
      simp [phaseCall, casinoGetWinnerSeed])
  rw [if_pos hplayers] at hq1
  rw [if_pos hseed] at hq2
  obtain ⟨w0, w1, hw, h0, h1⟩ := drawnWinners_pair hc (answer casinoGetTotalPlayer)
    (answer (phaseCall casinoGetWinnerSeed (phaseOf nHeight - 1)))
  obtain ⟨data, hdata, hlen, hwell⟩ := setWinnersData_wellFormed hphase h0 h1
  rw [← hw] at hdata hwell
  refine ⟨data, s2, ?_, hv2, hlen, hwell⟩
  rw [casinoScript_of_height hheight]
  have hprev : convertUnsignedIntToHexString (phaseOf nHeight - 1) = _ :=
    convertUnsignedIntToHexString_of_lt (by omega)
  have hwinners : casinoWinnersScript E c nHeight s = .ok (casinoCallScript c data) s2 := by
    refine (bind_of_ok hq1).trans ?_
    refine (bind_of_ok (congrArg (fun x => liftExcept x s1) hprev)).trans ?_
    refine (bind_of_ok hq2).trans ?_
    exact (bind_of_ok (congrArg (fun x => liftExcept x s2) hdata)).trans rfl
  exact (bind_of_ok hwinners).trans rfl

/-- **And only from them.** -/
lemma casinoScript_long (hanswer : Answers laws c r answer) (hheight : CasinoHeight nHeight)
    {script : Option CScript} (hs : laws.Valid s) (hr : laws.root s = r)
    (h : casinoScript E c nHeight s = .ok script s') (hphase : phaseOf nHeight < 2 ^ 16) :
    30 ≤ (answer casinoGetTotalPlayer).length ∧
      30 ≤ (answer (phaseCall casinoGetWinnerSeed (phaseOf nHeight - 1))).length := by
  rw [casinoScript_of_height hheight] at h
  obtain ⟨_, _, hscript, _⟩ := bind_ok.mp h
  obtain ⟨totalPlayer, s1, hquery, hrest⟩ := bind_ok.mp hscript
  obtain ⟨prevPhase, s1', hprev, hrest⟩ := bind_ok.mp hrest
  obtain ⟨winnerSeed, s2, hseed, _⟩ := bind_ok.mp hrest
  obtain ⟨hdigits, rfl⟩ := liftExcept_apply_ok.mp hprev
  obtain ⟨t1, hv1, hr1, hq1⟩ := casinoQuery_eq hanswer hs hr
    (show casinoGetTotalPlayer.take 4 ∈ _ by decide)
  have hplayers : 30 ≤ (answer casinoGetTotalPlayer).length := by
    by_contra hshort
    rw [if_neg hshort, hquery] at hq1
    cases hq1
  rw [if_pos hplayers, hquery] at hq1
  cases hq1
  have hfits : convertUnsignedIntToHexString (phaseOf nHeight - 1) = _ :=
    convertUnsignedIntToHexString_of_lt (by omega)
  cases hdigits.symm.trans hfits
  obtain ⟨t2, _, _, hq2⟩ := casinoQuery_eq hanswer hv1 hr1
    (show (phaseCall casinoGetWinnerSeed (phaseOf nHeight - 1)).take 4 ∈ _ by
      simp [phaseCall, casinoGetWinnerSeed])
  refine ⟨hplayers, ?_⟩
  by_contra hshort
  rw [if_neg hshort] at hq2
  exact absurd (hseed.symm.trans hq2) (by simp)

/-! ## Nothing is thrown -/

section Coinbase

variable {crypto : Crypto} {rnd : RandomSource}

/-- The contract outputs can be read. -/
def ReadableOutputs (crypto : Crypto) (outs : List CTxOut) : Prop :=
  ∀ out ∈ outs, out.isContract = true →
    Readable (contractFlag out.scriptPubKey) (contractStack crypto out.scriptPubKey)

variable {script : CScript}

lemma readable_of_parse {flag : SmartContractFlag} {f : ContractFields}
    (hflag : contractFlag script = flag)
    (h : parseStack flag (contractStack crypto script) = .ok f) :
    Readable (contractFlag script) (contractStack crypto script) := by
  rw [hflag]
  rcases parseStack_cases flag (contractStack crypto script) with ⟨hr, _⟩ | ⟨_, _, herr, _⟩
  · exact hr
  · rw [h] at herr
    cases herr

variable {tx : CTransaction}

/-- The execution of a casino output that can be read. -/
lemma executeCasino_within (hplain : ReadableOutputs crypto tx.vout)
    (hscript : Readable (contractFlag script) (contractStack crypto script)) :
    Within laws.Valid Contained (executeCasino crypto E tx script) := by
  have hroot : Within laws.Valid Contained E.rootHash := by
    intro s hs
    rw [laws.rootHash_ok hs]
    exact hs
  refine hroot.bind fun _ => (txContractExec_within laws [] ?_).bind fun _ => Within.pure _
  intro out hout
  rcases mem_append.mp hout with hout | hout
  · exact hplain out hout
  · rw [mem_singleton.mp hout]
    exact fun _ => hscript

/-- **No exception escapes**, when the answers are long enough. -/
lemma addCasinoToCoinBaseTx_contained (hc : c.Genuine rnd) (hanswer : Answers laws c r answer)
    (hplain : ReadableOutputs crypto tx.vout) {nHeight : ℕ}
    (hphase : phaseOf nHeight < 2 ^ 16)
    (hlong : CasinoHeight nHeight → 30 ≤ (answer casinoGetTotalPlayer).length ∧
      30 ≤ (answer (phaseCall casinoGetWinnerSeed (phaseOf nHeight - 1))).length)
    (hs : laws.Valid s) (hr : laws.root s = r) :
    Ends laws.Valid Contained (addCasinoToCoinBaseTx crypto E c tx nHeight s) := by
  by_cases hone : nHeight = 1
  · -- the contract is created
    have hscript : casinoScript E c nHeight s = .ok (some (casinoCreateScript c)) s := by
      rw [casinoScript, if_pos hone]
      rfl
    obtain ⟨hflag, hparse, _⟩ := casinoCreateScript_fields crypto hc.address hc.code
    have hwithin : Within laws.Valid Contained (executeCasino crypto E tx (casinoCreateScript c)) :=
      executeCasino_within hplain (readable_of_parse hflag hparse)
    have hrun : addCasinoToCoinBaseTx crypto E c tx nHeight s =
        executeCasino crypto E tx (casinoCreateScript c) s := bind_of_ok hscript
    rw [hrun]
    exact hwithin s hs
  by_cases hheight : CasinoHeight nHeight
  · -- the winners are set
    obtain ⟨data, s', hscript, hv, hlen, _⟩ :=
      casinoScript_builds hc hanswer hheight hphase (hlong hheight).1 (hlong hheight).2 hs hr
    obtain ⟨hflag, hparse, _⟩ := casinoCallScript_fields crypto hc.address
      (show data.length ≤ 100000 by omega)
    have hwithin : Within laws.Valid Contained
        (executeCasino crypto E tx (casinoCallScript c data)) :=
      executeCasino_within hplain (readable_of_parse hflag hparse)
    have hrun : addCasinoToCoinBaseTx crypto E c tx nHeight s =
        executeCasino crypto E tx (casinoCallScript c data) s' := bind_of_ok hscript
    rw [hrun]
    exact hwithin s' hv
  · -- there is no casino output
    have hscript : casinoScript E c nHeight s = .ok none s := by
      rw [casinoScript, if_neg hone]
      exact congrFun (if_neg hheight) s
    have hrun : addCasinoToCoinBaseTx crypto E c tx nHeight s = .ok tx s := bind_of_ok hscript
    rw [hrun]
    exact hs

/-- `IsActiveMiner`, for a phase that fits. -/
lemma isActiveMiner_eq (hanswer : Answers laws c r answer) {phase : ℕ} (hphase : phase < 2 ^ 16)
    (hs : laws.Valid s) (hr : laws.root s = r) :
    ∃ s', isActiveMiner E c phase s =
      if 30 ≤ (answer (phaseCall casinoIsWinnerMe phase)).length then
        .ok (outputNumber (answer (phaseCall casinoIsWinnerMe phase))) s'
      else .error (.thrown (.logicError "basic_string::substr")) s' := by
  obtain ⟨s', _, _, hq⟩ := casinoQuery_eq hanswer hs hr
    (show (phaseCall casinoIsWinnerMe phase).take 4 ∈ _ by simp [phaseCall, casinoIsWinnerMe])
  have hdata : liftExcept (phaseData casinoIsWinnerMe phase) s =
      .ok (phaseCall casinoIsWinnerMe phase) s := by
    rw [phaseData_of_lt casinoIsWinnerMe hphase]
    rfl
  exact ⟨s', (bind_of_ok hdata).trans hq⟩

end Coinbase

/-! ## Every call -/

/-- What is expected of the miner's calls when it builds the block of a height: their data are
    well formed, and neither function lets an exception out. -/
structure CallsWellFormed (crypto : Crypto) (E : ContractEngine) (c : CasinoParams)
    (answer : Bytes → Bytes) (tx : CTransaction) (nHeight : ℕ) (s : E.State) : Prop where
  winnerMe : ∃ data, phaseData casinoIsWinnerMe (phaseOf nHeight) = .ok data ∧
    WellFormedCall casinoIsWinnerMe [ofNat 256 (phaseOf nHeight)] data
  totalPlayer : WellFormedCall casinoGetTotalPlayer [] casinoGetTotalPlayer
  winnerSeed : CasinoHeight nHeight →
    ∃ data, phaseData casinoGetWinnerSeed (phaseOf nHeight - 1) = .ok data ∧
      WellFormedCall casinoGetWinnerSeed [ofNat 256 (phaseOf nHeight - 1)] data
  nextWinners : CasinoHeight nHeight →
    ∃ data s', casinoScript E c nHeight s = .ok (some (casinoCallScript c data)) s' ∧
      WellFormedCall casinoSetNextWinners [ofNat 256 (phaseOf nHeight),
        winnersWord (drawnWinners c (answer casinoGetTotalPlayer)
          (answer (phaseCall casinoGetWinnerSeed (phaseOf nHeight - 1))))] data
  coinbase : ∀ e s', addCasinoToCoinBaseTx crypto E c tx nHeight s ≠ .error (.thrown e) s'
  active : ∀ e s', isActiveMiner E c (phaseOf nHeight) s ≠ .error (.thrown e) s'

/-- **When the calls of the miner are well formed and nothing is thrown.**  The phase must have four
    digits, and every answer that is read must have thirty bytes. -/
theorem casino_calls_wellFormed_iff (crypto : Crypto) {rnd : RandomSource} (hc : c.Genuine rnd)
    (hanswer : Answers laws c r answer) {tx : CTransaction}
    (hplain : ReadableOutputs crypto tx.vout) (nHeight : ℕ) {s : E.State}
    (hs : laws.Valid s) (hr : laws.root s = r) :
    CallsWellFormed crypto E c answer tx nHeight s ↔
      phaseOf nHeight < 2 ^ 16 ∧
        30 ≤ (answer (phaseCall casinoIsWinnerMe (phaseOf nHeight))).length ∧
        (CasinoHeight nHeight → 30 ≤ (answer casinoGetTotalPlayer).length ∧
          30 ≤ (answer (phaseCall casinoGetWinnerSeed (phaseOf nHeight - 1))).length) := by
  constructor
  · intro h
    have hphase : phaseOf nHeight < 2 ^ 16 := by
      by_contra hbig
      obtain ⟨data, hdata, _⟩ := h.winnerMe
      rw [phaseData, convertUnsignedIntToHexString, if_neg hbig] at hdata
      cases hdata
    refine ⟨hphase, ?_, fun hcasino => ?_⟩
    · by_contra hshort
      obtain ⟨s', hrun⟩ := isActiveMiner_eq hanswer hphase hs hr
      rw [if_neg hshort] at hrun
      exact h.active _ _ hrun
    · obtain ⟨_, _, hscript, _⟩ := h.nextWinners hcasino
      exact casinoScript_long hanswer hcasino hs hr hscript hphase
  · rintro ⟨hphase, hme, hlong⟩
    refine ⟨⟨_, phaseData_of_lt _ hphase, phaseCall_wellFormed _ hphase⟩, ⟨[], rfl, .nil⟩,
      fun _ => ⟨_, phaseData_of_lt _ (by omega), phaseCall_wellFormed _ (by omega)⟩,
      fun hcasino => ?_, fun e s' hthrown => ?_, fun e s' hthrown => ?_⟩
    · obtain ⟨data, s', hscript, _, _, hwell⟩ :=
        casinoScript_builds hc hanswer hcasino hphase (hlong hcasino).1 (hlong hcasino).2 hs hr
      exact ⟨data, s', hscript, hwell⟩
    · have hends := addCasinoToCoinBaseTx_contained hc hanswer hplain hphase hlong hs hr
      rw [hthrown] at hends
      exact hends.2 e rfl
    · obtain ⟨s1, hrun⟩ := isActiveMiner_eq hanswer hphase hs hr
      rw [hthrown, if_pos hme] at hrun
      cases hrun

end Answers

/-! ## An engine with a fixed answer -/

/-- An engine that answers everything with the same output. -/
abbrev ContractEngine.replying (output : Bytes) : ContractEngine :=
  .ofExecute fun _ s => .ok { ExecutionResult.initial with output := output } (s + 1)

def EngineLaws.replying (output : Bytes) : EngineLaws (.replying output) :=
  (ExecutionDetermined.ofExecute fun h => by cases h).toEngineLaws

lemma answers_replying (c : CasinoParams) (output : Bytes) (r : Uint256) :
    Answers (EngineLaws.replying output) c r fun _ => output :=
  fun s _ _ _ _ => ⟨true, s, rfl⟩

/-- A miner with that generator. -/
def CasinoParams.ones : CasinoParams :=
  ⟨List.replicate 20 1, [0x60], Ybtc.generateCasinoList .ones chainPhasePlayer⟩

lemma CasinoParams.ones_genuine : CasinoParams.ones.Genuine .ones := ⟨rfl, by decide, by decide⟩

/-- At the end of the first phase, with answers of one word. -/
theorem casino_calls_wellFormed_word :
    CallsWellFormed .zeros (.replying (List.replicate 32 0)) .ones (fun _ => List.replicate 32 0)
      ⟨1, [], [], 0⟩ 256 0 :=
  (casino_calls_wellFormed_iff .zeros CasinoParams.ones_genuine
    (answers_replying .ones (List.replicate 32 0) 0) (fun _ h => absurd h not_mem_nil)
    256 trivial rfl).mpr
    ⟨by decide, by decide, fun _ => ⟨by decide, by decide⟩⟩

/-- **An empty answer throws, and a phase with five digits exceeds the buffer.** -/
theorem casino_calls_illFormed : isActiveMiner (.replying []) .ones 0 0 =
        .error (.thrown (.logicError "basic_string::substr")) (0 : Uint256) ∧
      addCasinoToCoinBaseTx .zeros (.replying []) .ones ⟨1, [], [], 0⟩ 256 0 =
        .error (.thrown (.logicError "basic_string::substr")) (0 : Uint256) ∧
      isActiveMiner (.replying (List.replicate 32 0)) .ones (phaseOf 16777217) 0 =
        .error (.undefined .outOfBounds) (0 : Uint256) ∧
      ¬ CallsWellFormed .zeros (.replying []) .ones (fun _ => []) ⟨1, [], [], 0⟩ 256 0 := by
  refine ⟨rfl, rfl, rfl, fun h => h.active (.logicError "basic_string::substr") 0 rfl⟩

end Ybtc
