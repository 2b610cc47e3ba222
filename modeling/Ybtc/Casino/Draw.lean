import Ybtc.Casino.Phases
import Ybtc.Miner.Casino
import Ybtc.Script.Push

/-!
# The winner list on its way to the contract

The miner packs the winners it has drawn into a word, sixteen bits for each
(`AddCasinoToCoinBaseTx`); the contract takes the word apart again, and moves on by thirty-two bits
(`isWinnerId`).  Of two winners the contract only sees the last one.  The main result is
`Casino.winners_agree_iff`.
-/

namespace Ybtc

open List UInt8

/-! ## Bytes and words -/

/-- The word the contract reads from a field of the call data. -/
def fieldWord (field : Bytes) : U256 := BitVec.ofNat 256 (readBE field)

lemma readBE_append (a b : Bytes) : readBE (a ++ b) = readBE a * 256 ^ b.length + readBE b := by
  rw [readBE, reverse_append, readLE_append, length_reverse, readBE, readBE]
  ring

@[simp] lemma readBE_zeros (n : ℕ) : readBE (List.replicate n 0) = 0 := by
  rw [readBE, reverse_replicate]
  induction n with
  | zero => rfl
  | succ n ih => rw [replicate_succ, readLE, ih]; rfl

/-- Four digits read back. -/
lemma readBE_pair {u : ℕ} (h : u < 2 ^ 16) : readBE [ofNat (u / 256), ofNat (u % 256)] = u := by
  simp only [readBE, reverse_cons, reverse_nil, nil_append, cons_append, readLE, toNat_ofNat']
  omega

/-- The four digits of a number that has no more of them. -/
lemma convertUnsignedIntToHexString_of_lt {u : ℕ} (h : u < 2 ^ 16) :
    convertUnsignedIntToHexString u = .ok [ofNat (u / 256), ofNat (u % 256)] := if_pos h

/-- **The packed list** of two winners. -/
lemma winnersField_pair {w0 w1 : ℕ} (h0 : w0 < 2 ^ 16) (h1 : w1 < 2 ^ 16) :
    ∃ field, winnersField [w0, w1] = .ok field ∧ field.length = 32 ∧
      readBE field = w0 * 65536 + w1 := by
  refine ⟨List.replicate 28 0 ++ ([ofNat (w0 / 256), ofNat (w0 % 256)] ++
    [ofNat (w1 / 256), ofNat (w1 % 256)]), ?_, by simp, ?_⟩
  · simp [winnersField, chainPhasePlayer, convertUnsignedIntToHexString_of_lt h0,
      convertUnsignedIntToHexString_of_lt h1, Fallible.ok_bind]
  · rw [readBE_append, readBE_append, readBE_zeros, readBE_pair h0, readBE_pair h1]
    simp

namespace Casino

/-! ## What the contract finds -/

lemma toNat_and_ffff (x : U256) : (x &&& 0xffff).toNat = x.toNat % 65536 := by
  rw [BitVec.toNat_and, show (0xffff : U256).toNat = 2 ^ 16 - 1 from rfl,
    Nat.and_two_pow_sub_one_eq_mod]

/-- The list as two ordinals of sixteen bits: the last one is found first. -/
lemma firstId_pack {w0 w1 : ℕ} (h1 : w1 < 2 ^ 16) :
    firstId (BitVec.ofNat 256 (w0 * 65536 + w1)) = w1 := by
  rw [firstId, toNat_and_ffff, BitVec.toNat_ofNat]
  omega

/-- **And nothing else is found**, since the other one is not as far as thirty-two bits away. -/
lemma secondId_pack {w0 w1 : ℕ} (h0 : w0 < 2 ^ 16) (h1 : w1 < 2 ^ 16) :
    secondId (BitVec.ofNat 256 (w0 * 65536 + w1)) = 0 := by
  rw [secondId, toNat_and_ffff, BitVec.toNat_ushiftRight, BitVec.toNat_ofNat,
    Nat.shiftRight_eq_div_pow]
  omega

/-- The player with an ordinal. -/
def playerAt (c : Casino) (seq : ℕ) : Option Slot := if seq = 0 then none else c.players[seq - 1]?

variable {winnerList : U256} {c : Casino}

/-- If a single ordinal is found, its player is the only one who is noted. -/
lemma named_single {w : ℕ} (h : ∀ k, isWinnerId (k + 1) winnerList = true ↔ k + 1 = w) :
    ∀ (k : ℕ) (ps : List Slot),
      named winnerList k ps = if k < w then (ps[w - (k + 1)]?).toList else []
  | k, [] => by simp [named]
  | k, i :: is => by
    rw [named, named_single h (k + 1) is]
    by_cases hk : k + 1 = w
    · rw [if_pos ((h k).mpr hk)]
      simp [← hk]
    · rw [if_neg (mt (h k).mp hk)]
      by_cases hlt : k + 1 < w
      · obtain ⟨d, rfl⟩ : ∃ d, w = k + 1 + 1 + d := ⟨w - (k + 1 + 1), by omega⟩
        rw [if_pos hlt, if_pos (by omega), show k + 1 + 1 + d - (k + 1) = d + 1 by omega,
          show k + 1 + 1 + d - (k + 1 + 1) = d by omega, getElem?_cons_succ]
      · simp [hlt, show ¬ k < w by omega]

/-- The single winner of a packed list. -/
lemma drawn_pack {w0 w1 : ℕ} (h0 : w0 < 2 ^ 16) (h1 : w1 < 2 ^ 16) :
    drawn (BitVec.ofNat 256 (w0 * 65536 + w1)) c = (c.playerAt w1).toList := by
  have hid : ∀ k, isWinnerId (k + 1) (BitVec.ofNat 256 (w0 * 65536 + w1)) = true ↔ k + 1 = w1 := by
    intro k
    rw [isWinnerId_iff, firstId_pack h1, secondId_pack h0 h1]
    simp
  rw [drawn, named_single hid, playerAt, zero_add]
  rcases Nat.eq_zero_or_pos w1 with rfl | hpos
  · rfl
  · rw [if_pos hpos, if_neg (by omega)]
    cases c.players[w1 - 1]? <;> rfl

/-- **The entries of the phase that a packed list opens**: the player with the last ordinal, if
    there is one, and what was there before. -/
lemma openPhase_pack {w0 w1 : ℕ} (h0 : w0 < 2 ^ 16) (h1 : w1 < 2 ^ 16) {n : ℕ}
    (hn : n < chainPhasePlayer) :
    (c.openPhase (BitVec.ofNat 256 (w0 * 65536 + w1))).entryOf (c.phaseHeight + 1) n =
      (((c.playerAt w1).toList[n]?).map slotWord).getD (c.entryOf (c.phaseHeight + 1) n) := by
  rw [openPhase_entryOf hn, if_pos rfl, drawn_pack h0 h1]

/-! ## Agreement -/

/-- The entries of a phase. -/
def phaseEntries (c : Casino) (phase : U256) : List U256 :=
  (List.range chainPhasePlayer).map (c.entryOf phase)

/-- The entries of the new phase are the players with the listed ordinals, each of them once. -/
def Agrees (c c' : Casino) (winner : List ℕ) : Prop :=
  ((c'.phaseEntries c'.phaseHeight).map some).Perm (winner.map fun w => (c.playerAt w).map slotWord)

/-- The second entry of the new phase is left over from an earlier one, and happens to be the player
    that is first on the list. -/
def FirstLeftOver (c : Casino) (winner : List ℕ) : Prop :=
  some (c.entryOf (c.phaseHeight + 1) 1) = (winner.head?.bind c.playerAt).map slotWord

/-- **When the contract notes the winners the miner has drawn.**  It notes the last one only; so the
    entries agree with the list exactly if the other one was there before. -/
theorem winners_agree_iff (c : Casino) (winner : List ℕ)
    (hlen : winner.length = Ybtc.chainPhasePlayer) (hnodup : winner.Nodup)
    (hplayer : ∀ w ∈ winner, 1 ≤ w ∧ w ≤ c.players.length) (hshort : ∀ w ∈ winner, w < 65536) :
    ∃ field c', winnersField winner = .ok field ∧
      setNextWinners c.phaseHeight (fieldWord field) c = some (true, c') ∧
        (Agrees c c' winner ↔ FirstLeftOver c winner) := by
  obtain ⟨w0, w1, rfl⟩ : ∃ w0 w1, winner = [w0, w1] := length_eq_two.mp hlen
  have h0 : w0 < 2 ^ 16 := hshort w0 (by simp)
  have h1 : w1 < 2 ^ 16 := hshort w1 (by simp)
  obtain ⟨field, hfield, -, hword⟩ := winnersField_pair h0 h1
  refine ⟨field, c.openPhase (fieldWord field), hfield, by rw [setNextWinners_eq, if_pos rfl], ?_⟩
  have hw1 := hplayer w1 (by simp)
  obtain ⟨i, hi⟩ : ∃ i, c.playerAt w1 = some i := by
    rw [playerAt, if_neg (by omega)]
    exact ⟨_, getElem?_eq_getElem (by omega)⟩
  have hentries : (c.openPhase (fieldWord field)).phaseEntries
      (c.openPhase (fieldWord field)).phaseHeight =
        [slotWord i, c.entryOf (c.phaseHeight + 1) 1] := by
    show [_, _] = [_, _]
    rw [openPhase_phaseHeight, fieldWord, hword, openPhase_pack h0 h1 (by decide),
      openPhase_pack h0 h1 (by decide), hi]
    rfl
  rw [Agrees, hentries, FirstLeftOver]
  simp only [map_cons, map_nil, hi, Option.map_some, head?_cons, Option.bind_some]
  have hswap := List.Perm.swap (some (slotWord i)) ((c.playerAt w0).map slotWord) []
  constructor
  · intro h
    exact singleton_perm_singleton.mp ((h.trans hswap).cons_inv)
  · intro h
    rw [h]
    exact hswap.symm

/-- The first two players are drawn, the creator of the contract first: its index is what an unused
    entry holds. -/
theorem winners_agree_creator :
    FirstLeftOver threePlayers [1, 2] ∧ ∃ field c', winnersField [1, 2] = .ok field ∧
      setNextWinners threePlayers.phaseHeight (fieldWord field) threePlayers = some (true, c') ∧
        Agrees threePlayers c' [1, 2] := by
  have hfirst : FirstLeftOver threePlayers [1, 2] := by
    unfold FirstLeftOver
    decide +kernel
  have hplayers : threePlayers.players.length = 3 := by decide +kernel
  obtain ⟨field, c', hfield, hset, hiff⟩ :=
    winners_agree_iff threePlayers [1, 2] rfl (by decide) (by simp [hplayers]) (by simp)
  exact ⟨hfirst, field, c', hfield, hset, hiff.mpr hfirst⟩

/-- **The second player is not noted**: the entries of the phase are those of the first player. -/
theorem winners_lost : (winnersField [2, 1]).toOption.map (fun field =>
      (setNextWinners threePlayers.phaseHeight (fieldWord field) threePlayers).map
        fun r => r.2.phaseEntries r.2.phaseHeight) = some (some [slotWord 0, slotWord 0]) ∧
      threePlayers.playerAt 2 = some 1 := by
  decide +kernel

/-! ## Lists of all kinds

A draw may also end with fewer winners than there are places; the ordinals behind them are zero. -/

/-- **The contract holds the drawn players** as the winners of a phase: they are in its entries, and
    nobody else is.  The ordinals are those of the storage `c₀` at which the list was drawn. -/
def HoldsDrawn (c₀ c : Casino) (phase : U256) (winner : List ℕ) : Prop :=
  ∀ e, e ∈ c.phaseEntries phase ↔ ∃ w ∈ winner, (c₀.playerAt w).map slotWord = some e

/-- **The entries that the call does not write hold the player that is first on the list**, as they
    were left by an earlier phase: all but the first one, and that one too if the last ordinal is
    none of a player. -/
def OthersLeftOver (c : Casino) (winner : List ℕ) : Prop :=
  ∀ j < chainPhasePlayer, (j = 0 → c.playerAt (winner.getLastD 0) = none) →
    some (c.entryOf (c.phaseHeight + 1) j) = (c.playerAt (winner.headD 0)).map slotWord

/-- **Under this condition the packed list is decoded rightly.** -/
lemma holdsDrawn_of_leftOver {c' : Casino} {phase : U256} {w0 w1 : ℕ} (h0 : w0 < 2 ^ 16)
    (h1 : w1 < 2 ^ 16) (hphase : c.phaseHeight + 1 = phase) (hleft : c.OthersLeftOver [w0, w1])
    (hentry : ∀ j < chainPhasePlayer, c'.entryOf phase j =
      (c.openPhase (BitVec.ofNat 256 (w0 * 65536 + w1))).entryOf phase j) :
    c.HoldsDrawn c' phase [w0, w1] := by
  subst hphase
  intro e
  have hsecond : some (c.entryOf (c.phaseHeight + 1) 1) = (c.playerAt w0).map slotWord :=
    hleft 1 (by decide) (by simp)
  have hmem : e ∈ c'.phaseEntries (c.phaseHeight + 1) ↔
      e = c'.entryOf (c.phaseHeight + 1) 0 ∨ e = c'.entryOf (c.phaseHeight + 1) 1 := by
    simp [phaseEntries, chainPhasePlayer, range_succ]
  have hdrawn : (∃ w ∈ [w0, w1], (c.playerAt w).map slotWord = some e) ↔
      e = c.entryOf (c.phaseHeight + 1) 1 ∨ (c.playerAt w1).map slotWord = some e := by
    rw [exists_mem_cons_iff, ← hsecond, Option.some_inj, eq_comm]
    simp
  rw [hmem, hdrawn, hentry 0 (by decide), hentry 1 (by decide), openPhase_pack h0 h1 (by decide),
    openPhase_pack h0 h1 (by decide)]
  cases hw : c.playerAt w1 with
  | some i =>
    show e = slotWord i ∨ e = c.entryOf _ 1 ↔ e = c.entryOf _ 1 ∨ some (slotWord i) = some e
    rw [Option.some_inj, or_comm, @eq_comm _ e (slotWord i)]
  | none =>
    have hfirst : some (c.entryOf (c.phaseHeight + 1) 0) = (c.playerAt w0).map slotWord :=
      hleft 0 (by decide) fun _ => hw
    have hsame := Option.some.inj (hfirst.trans hsecond.symm)
    show e = c.entryOf _ 0 ∨ e = c.entryOf _ 1 ↔ e = c.entryOf _ 1 ∨ none = some e
    rw [hsame]
    simp

end Casino

end Ybtc
