import Ybtc.Casino.Registry

/-!
# Opening a phase

What `setNextWinners` does, in closed form.  Its loop passes the players with tokens in the order of
the register, takes a token from each, and notes those whose ordinal is in the winner list; with the
last winner it stops, and whoever comes later keeps the token.  The main result is
`Casino.setNextWinners_charges_iff`.
-/

namespace Ybtc

open List Finset

namespace Casino

/-! ## Who is noted and who is charged -/

/-- Those of the slots whose owners have tokens. -/
def withTokens (c : Casino) (is : List Slot) : List Slot := is.filter fun i => c.balances i ≠ 0

/-- The players with tokens, in the order of the register; the ordinal of a player is its place in
    this list. -/
def players (c : Casino) : List Slot := c.withTokens slots

/-- The players whose ordinals are in the winner list; `k` players come before them. -/
def named (winnerList : U256) : ℕ → List Slot → List Slot
  | _, [] => []
  | k, i :: is =>
    if isWinnerId (k + 1) winnerList then i :: named winnerList (k + 1) is
    else named winnerList (k + 1) is

/-- The players who are passed before the loop ends, with `j` winners noted already. -/
def charged (winnerList : U256) : ℕ → ℕ → List Slot → List Slot
  | _, _, [] => []
  | j, k, i :: is =>
    if isWinnerId (k + 1) winnerList then
      if chainPhasePlayer ≤ j + 1 then [i] else i :: charged winnerList (j + 1) (k + 1) is
    else i :: charged winnerList j (k + 1) is

/-- One token is taken from each of the players. -/
def charge (balances : Slot → U256) (ps : List Slot) : Slot → U256 :=
  fun i => if i ∈ ps then balances i - 1 else balances i

/-- The winners are noted from place `j` on. -/
def noteWinners (index : Fin 128) : ℕ → List Slot → (Fin 256 → U256) → Fin 256 → U256
  | _, [], w => w
  | j, i :: is, w =>
    noteWinners index (j + 1) is (Function.update w (winnerEntry index j) (slotWord i))

/-- The seed of a phase: the ends of the winners' addresses. -/
def mixSeed (addresses : Slot → U256) (seed : U256) (ws : List Slot) : U256 :=
  ws.foldl (fun seed i => seed ^^^ (addresses i &&& 0xffff)) seed

variable {winnerList : U256} {index : Fin 128} {c : Casino}

variable {i : Slot} {is : List Slot}

lemma named_sublist : ∀ {k : ℕ} {ps : List Slot}, (named winnerList k ps).Sublist ps
  | _, [] => .refl []
  | k, i :: is => by
    rw [named]
    split_ifs
    · exact named_sublist.cons_cons i
    · exact named_sublist.cons i

lemma charged_sublist : ∀ {j k : ℕ} {ps : List Slot}, (charged winnerList j k ps).Sublist ps
  | _, _, [] => .refl []
  | j, k, i :: is => by
    rw [charged]
    split_ifs
    · exact (nil_sublist is).cons_cons i
    · exact charged_sublist.cons_cons i
    · exact charged_sublist.cons_cons i

@[simp] lemma charge_nil (balances : Slot → U256) : charge balances [] = balances := by
  funext i
  simp [charge]

/-- Charging a player and then others. -/
lemma charge_update {balances : Slot → U256} {ps : List Slot} (h : i ∉ ps) :
    charge (Function.update balances i (balances i - 1)) ps = charge balances (i :: ps) := by
  funext j
  by_cases hj : j = i
  · subst hj
    simp [charge, h]
  · simp [charge, hj]

/-! ## The loop -/

/-- What the loop makes of the storage, for the players `ps` it still has before it. -/
def afterLoop (winnerList : U256) (index : Fin 128) (ps : List Slot) (j k : ℕ) (seed : U256)
    (c : Casino) : Casino :=
  let ws := (named winnerList k ps).take (chainPhasePlayer - j)
  { c with
    balances := charge c.balances (charged winnerList j k ps)
    winners := noteWinners index j ws c.winners
    winnerSeeds := Function.update c.winnerSeeds index (mixSeed c.addresses seed ws) }

/-- **The loop in closed form.** -/
lemma winnerLoop_eq : ∀ {is : List Slot} {j : ℕ} (k : ℕ) (seed : U256) (c : Casino), is.Nodup →
    j < chainPhasePlayer →
    winnerLoop winnerList index is j k seed c =
      afterLoop winnerList index (c.withTokens is) j k seed c
  | [], j, k, seed, c, _, _ => by
    simp [winnerLoop, withTokens, afterLoop, named, charged, setSeed, noteWinners, mixSeed]
  | i :: is, j, k, seed, c, hn, hj => by
    obtain ⟨hi, hn⟩ := nodup_cons.mp hn
    rw [winnerLoop]
    by_cases h0 : c.balances i = 0
    · rw [if_pos h0, withTokens, List.filter_cons_of_neg (by simpa using h0), ← withTokens,
        winnerLoop_eq k seed c hn hj]
    -- The player is charged; who of the others has tokens is as before.
    have hps : ∀ v, (c.setBalance i v).withTokens is = c.withTokens is := fun v =>
      filter_congr fun j hj => by simp [setBalance, ne_of_mem_of_not_mem hj hi]
    have hnot : ∀ j k, i ∉ charged winnerList j k (c.withTokens is) :=
      fun _ _ h => hi (mem_of_mem_filter (charged_sublist.subset h))
    rw [if_neg h0, withTokens, List.filter_cons_of_pos (by simpa using h0), ← withTokens]
    by_cases h1 : isWinnerId (k + 1) winnerList
    · by_cases h2 : chainPhasePlayer ≤ j + 1
      · have hw : chainPhasePlayer - j = 1 := by omega
        simp [afterLoop, named, charged, h1, h2, hw, noteWinners, mixSeed, setSeed, setWinner,
          setBalance, ← charge_update]
      · have hw : chainPhasePlayer - j = chainPhasePlayer - (j + 1) + 1 := by omega
        simp only [if_pos h1, if_neg h2]
        have hps' : ((c.setBalance i (c.balances i - 1)).setWinner index j i).withTokens is =
            c.withTokens is := hps _
        rw [winnerLoop_eq (k + 1) _ _ hn (by omega), hps']
        simp only [afterLoop, named, charged, if_pos h1, if_neg h2, hw, take_succ_cons,
          noteWinners, mixSeed, foldl_cons, setWinner, setBalance, charge_update (hnot _ _)]
    · simp only [if_neg h1]
      rw [winnerLoop_eq (k + 1) _ _ hn hj, hps]
      simp only [afterLoop, named, charged, if_neg h1, setBalance, charge_update (hnot _ _)]

/-- The storage after a new phase was opened. -/
def openPhase (winnerList : U256) (c : Casino) : Casino :=
  afterLoop winnerList (phaseIndex (c.phaseHeight + 1)) c.players 0 0 0
    { c with phaseHeight := c.phaseHeight + 1 }

/-- **`setNextWinners` in closed form.** -/
lemma setNextWinners_eq (phase winnerList : U256) (c : Casino) : setNextWinners phase winnerList c =
      if phase = c.phaseHeight then some (true, c.openPhase winnerList) else none := by
  have hloop : winnerLoop winnerList (phaseIndex (c.phaseHeight + 1)) slots 0 0 0
      { c with phaseHeight := c.phaseHeight + 1 } = c.openPhase winnerList :=
    winnerLoop_eq 0 0 _ (nodup_finRange 256) (by decide)
  simp only [setNextWinners, hloop]

/-! ## The entries of a phase -/

/-- Entry `j` of a phase in the ring. -/
def entryOf (c : Casino) (phase : U256) (j : ℕ) : U256 :=
  c.winners (winnerEntry (phaseIndex phase) j)

/-- The entries of different phases and places are different. -/
lemma winnerEntry_inj {index index' : Fin 128} {j j' : ℕ} (hj : j < chainPhasePlayer)
    (hj' : j' < chainPhasePlayer) :
    winnerEntry index j = winnerEntry index' j' ↔ index = index' ∧ j = j' := by
  simp only [winnerEntry, Fin.ext_iff, Fin.val_ofNat]
  simp only [chainPhasePlayer] at *
  omega

/-- Noting winners writes their entries and no others. -/
lemma noteWinners_entry {index' : Fin 128} {n : ℕ} (hn : n < chainPhasePlayer) :
    ∀ (ws : List Slot) (j : ℕ) (w : Fin 256 → U256), j + ws.length ≤ chainPhasePlayer →
      noteWinners index j ws w (winnerEntry index' n) =
        if index' = index ∧ j ≤ n then
          (ws[n - j]?.map slotWord).getD (w (winnerEntry index' n))
        else w (winnerEntry index' n)
  | [], j, w, _ => by simp [noteWinners]
  | i :: is, j, w, hlen => by
    rw [length_cons] at hlen
    rw [noteWinners, noteWinners_entry hn is (j + 1) _ (by omega), Function.update_apply]
    simp only [winnerEntry_inj hn (show j < chainPhasePlayer by omega)]
    by_cases hindex : index' = index
    · rcases lt_trichotomy n j with h | rfl | h
      · simp [hindex, show ¬ j + 1 ≤ n by omega, show ¬ j ≤ n by omega, show n ≠ j by omega]
      · simp [hindex]
      · obtain ⟨d, rfl⟩ : ∃ d, n = j + 1 + d := ⟨n - (j + 1), by omega⟩
        simp [hindex, show j + 1 + d ≠ j by omega, show j + 1 + d - j = d + 1 by omega,
          show j ≤ j + 1 + d by omega]
    · simp [hindex]

/-- The winners that are noted when a phase is opened. -/
def drawn (winnerList : U256) (c : Casino) : List Slot :=
  (named winnerList 0 c.players).take chainPhasePlayer

@[simp] lemma openPhase_phaseHeight : (c.openPhase winnerList).phaseHeight = c.phaseHeight + 1 :=
  rfl

/-- **The entries after a phase was opened**: those of the new phase are the winners, as far as
    there are any, and all others are as before. -/
lemma openPhase_entryOf {phase : U256} {n : ℕ} (hn : n < chainPhasePlayer) :
    (c.openPhase winnerList).entryOf phase n =
      if phaseIndex phase = phaseIndex (c.phaseHeight + 1) then
        ((drawn winnerList c)[n]?.map slotWord).getD (c.entryOf phase n)
      else c.entryOf phase n := by
  refine (noteWinners_entry hn _ 0 c.winners (by simp)).trans ?_
  simp [drawn, entryOf]

/-! ## Who is charged -/

/-- The first ordinal `isWinnerId` compares with. -/
def firstId (winnerList : U256) : ℕ := (winnerList &&& 0xffff).toNat

/-- The second one. -/
def secondId (winnerList : U256) : ℕ := ((winnerList >>> 32) &&& 0xffff).toNat

/-- An ordinal is in the list if it is one of the two. -/
lemma isWinnerId_iff {seq : ℕ} :
    isWinnerId seq winnerList = true ↔ seq = firstId winnerList ∨ seq = secondId winnerList := by
  simp [isWinnerId, chainPhasePlayer, isWinnerIdLoop, firstId, secondId]

/-- Everybody is charged unless the winners are complete before the last player. -/
lemma charged_eq_self_iff : ∀ {j : ℕ} (k : ℕ) (ps : List Slot), j < chainPhasePlayer →
    (charged winnerList j k ps = ps ↔
      j + (named winnerList k ps.dropLast).length < chainPhasePlayer)
  | j, k, [], hj => by simpa [charged, named] using hj
  | j, k, [i], hj => by
    rw [charged]
    split_ifs <;> simp [charged, named, hj]
  | j, k, i :: i' :: is, hj => by
    have ih := fun j => charged_eq_self_iff (j := j) (k + 1) (i' :: is)
    rw [charged, dropLast_cons_cons, named]
    split_ifs with h1 h2
    · simp
      omega
    · rw [List.cons.injEq, ih (j + 1) (by omega), length_cons]
      simp only [true_and]
      omega
    · rw [List.cons.injEq, ih j hj]
      simp

/-- How many ordinals of the list belong to players. -/
lemma named_length : ∀ (k : ℕ) (ps : List Slot), (named winnerList k ps).length =
    (({firstId winnerList, secondId winnerList} : Finset ℕ).filter
      fun seq => k < seq ∧ seq ≤ k + ps.length).card
  | k, [] => by
    rw [named, length_nil, eq_comm, card_eq_zero, filter_eq_empty_iff]
    intro seq _ h
    omega
  | k, i :: is => by
    have ih := named_length (k + 1) is
    have hrange : ∀ seq, k < seq ∧ seq ≤ k + (i :: is).length ↔
        seq = k + 1 ∨ k + 1 < seq ∧ seq ≤ k + 1 + is.length := by
      intro seq
      simp only [length_cons]
      omega
    simp only [hrange, filter_or, filter_eq']
    rw [named]
    split_ifs with h1 h2 h2
    · rw [length_cons, ih, card_union_of_disjoint, card_singleton, add_comm]
      simp
    · exact absurd (by simpa [isWinnerId_iff] using h1) h2
    · exact absurd (isWinnerId_iff.mpr (by simpa using h2)) h1
    · rw [empty_union, ih]

/-- Two numbers meet a condition exactly when they are different and each of them meets it. -/
lemma card_filter_pair_lt_two {a b : ℕ} {p : ℕ → Prop} [DecidablePred p] :
    (({a, b} : Finset ℕ).filter p).card < 2 ↔ ¬ (a ≠ b ∧ p a ∧ p b) := by
  rw [Finset.filter_insert, Finset.filter_singleton]
  by_cases hab : a = b
  · subst hab
    split_ifs <;> simp
  · split_ifs with ha hb <;> simp [*]

/-- The loop leaves before the last player: both ordinals belong to players, and neither to the last
    one. -/
def LeavesEarly (winnerList : U256) (c : Casino) : Prop :=
  firstId winnerList ≠ secondId winnerList ∧
    (1 ≤ firstId winnerList ∧ firstId winnerList < c.players.length) ∧
    (1 ≤ secondId winnerList ∧ secondId winnerList < c.players.length)

instance leavesEarlyDecidable (winnerList : U256) (c : Casino) :
    Decidable (LeavesEarly winnerList c) :=
  inferInstanceAs (Decidable (_ ∧ (_ ∧ _) ∧ (_ ∧ _)))

/-- Everybody is charged unless the loop leaves early. -/
lemma charged_players_iff :
    charged winnerList 0 0 c.players = c.players ↔ ¬ LeavesEarly winnerList c := by
  rw [charged_eq_self_iff 0 _ (by decide), zero_add, named_length, length_dropLast]
  refine card_filter_pair_lt_two.trans (not_congr (and_congr_right fun _ => and_congr ?_ ?_))
  · omega
  · omega

lemma players_nodup (c : Casino) : c.players.Nodup := by
  unfold players withTokens
  exact List.Nodup.filter _ (nodup_finRange 256)

lemma mem_players : i ∈ c.players ↔ c.balances i ≠ 0 := by
  simp [players, withTokens]

/-- Every player with tokens loses one, and nobody else does. -/
def ChargesEach (c c' : Casino) : Prop :=
  ∀ i, c'.balances i = if c.balances i = 0 then c.balances i else c.balances i - 1

/-- All players lose a token exactly when all of them are passed. -/
lemma openPhase_chargesEach_iff : ChargesEach c (c.openPhase winnerList) ↔
    charged winnerList 0 0 c.players = c.players := by
  have hbal : ∀ i, (c.openPhase winnerList).balances i =
      if i ∈ charged winnerList 0 0 c.players then c.balances i - 1 else c.balances i :=
    fun i => rfl
  constructor
  · intro h
    -- A player who is not passed would keep its balance.
    have hsub : c.players ⊆ charged winnerList 0 0 c.players := by
      intro i hi
      by_contra hnot
      have hi' := h i
      rw [hbal, if_neg hnot, if_neg (mem_players.mp hi)] at hi'
      bv_omega
    exact charged_sublist.eq_of_length_le ((players_nodup c).subperm hsub).length_le
  · intro h i
    rw [hbal, h]
    by_cases hi : c.balances i = 0
    · rw [if_neg (by simp [mem_players, hi]), if_pos hi]
    · rw [if_pos (mem_players.mpr hi), if_neg hi]

/-- **When a call of `setNextWinners` takes one token from each player**: unless both ordinals of
    the list belong to players and neither to the last one, after which the loop leaves early. -/
theorem setNextWinners_charges_iff (c : Casino) (phase winnerList : U256) (b : Bool) (c' : Casino)
    (h : setNextWinners phase winnerList c = some (b, c')) :
    ChargesEach c c' ↔ ¬ LeavesEarly winnerList c := by
  rw [setNextWinners_eq] at h
  split_ifs at h
  obtain ⟨-, rfl⟩ : true = b ∧ c.openPhase winnerList = c' := by simpa using h
  rw [openPhase_chargesEach_iff, charged_players_iff]

/-- Three players in the register, and the first one on the winner list. -/
def threePlayers : Casino := (create 1).run [⟨2, .refill⟩, ⟨3, .refill⟩]

theorem setNextWinners_charges_three :
    ¬ LeavesEarly 1 threePlayers ∧ ∃ b c', setNextWinners 0 1 threePlayers = some (b, c') ∧
      ChargesEach threePlayers c' := by
  have h : ¬ LeavesEarly 1 threePlayers := by decide +kernel
  have hphase : (0 : U256) = threePlayers.phaseHeight := by decide +kernel
  have hset : setNextWinners 0 1 threePlayers = some (true, threePlayers.openPhase 1) := by
    rw [setNextWinners_eq, if_pos hphase]
  exact ⟨h, _, _, hset, (setNextWinners_charges_iff threePlayers 0 1 _ _ hset).mpr h⟩

/-- **The last player is not charged** when the first two are the winners. -/
theorem setNextWinners_spares_last :
    (setNextWinners 0 0x200000001 threePlayers).map (fun r => r.2.balances 2) = some 20 ∧
      threePlayers.balances 2 = 20 := by
  decide +kernel

end Casino

end Ybtc
