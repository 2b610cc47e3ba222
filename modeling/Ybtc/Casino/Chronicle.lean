import Ybtc.Casino.Phases

/-!
# Who has won

`isWinnerMe` is asked whether its caller is a winner of a phase.  The contract answers from its
ring, in which it has noted slots of the register; what it was asked for is what happened when the
phase was opened.  A `Chronicle` keeps that next to the contract.

The two come apart.  A slot gets a new owner; an entry that was not written holds what an earlier
phase has left in it; and a caller who owns neither of the two slots is answered with the number of
the second one.  The main result is `Chronicle.isWinnerMe_truthful_iff`.
-/

namespace Ybtc

open Casino Function List Option

/-- A winner as it was noted: the slot, and its owner at that time. -/
abbrev Noted := Slot × U256

/-- The contract and its history: the winners noted by the call that opened a phase. -/
structure Chronicle where
  casino : Casino
  opening : U256 → Option (List Noted)

namespace Chronicle

/-- The winners a call of `setNextWinners` notes. -/
def noted (winnerList : U256) (c : Casino) : List Noted :=
  (drawn winnerList c).map fun i => (i, c.addresses i)

/-- The history after a call. -/
def openings (h : Chronicle) : Call → U256 → Option (List Noted)
  | .refill => h.opening
  | .setNextWinners phase winnerList =>
    if phase = h.casino.phaseHeight then
      update h.opening (phase + 1) (some (noted winnerList h.casino))
    else h.opening

/-- One call. -/
def step (h : Chronicle) (m : Message) : Chronicle := ⟨h.casino.perform m, h.openings m.call⟩

/-- The constructor, which opens no phase. -/
def start (creator : H160) : Chronicle := ⟨create creator, fun _ => none⟩

/-- The constructor, and then calls. -/
def run (creator : H160) (ms : List Message) : Chronicle := ms.foldl step (start creator)

/-! ## What the ring keeps -/

/-- The phases the ring has room for. -/
def InRing (c : Casino) (phase : U256) : Prop :=
  1 ≤ phase.toNat ∧ phase.toNat ≤ c.phaseHeight.toNat ∧ c.phaseHeight.toNat < phase.toNat + 128

/-- The entries of a phase are the winners that were noted. -/
structure Holds (c : Casino) (phase : U256) (rec : List Noted) : Prop where
  short : rec.length ≤ chainPhasePlayer
  sorted : rec.Pairwise fun a b => a.1 < b.1
  entries : ∀ n a, rec[n]? = some a → c.entryOf phase n = slotWord a.1
  owners : ∀ a ∈ rec, ∃ b, a.2 = usender b

/-- **What holds in every run**: the ring holds what was noted, its entries are slots, and the
    owners are addresses. -/
structure Kept (h : Chronicle) : Prop where
  holds : ∀ phase, InRing h.casino phase →
    ∃ rec, h.opening phase = some rec ∧ Holds h.casino phase rec
  slots : ∀ phase n, n < chainPhasePlayer → ∃ i, h.casino.entryOf phase n = slotWord i
  owners : ∀ i, ∃ a, h.casino.addresses i = usender a

variable {h : Chronicle}

variable {c : Casino} {phase : U256} {rec : List Noted} (creator : H160)

lemma start_kept : (start creator).Kept where
  holds := by
    rintro phase ⟨h1, h2, -⟩
    have : (start creator).casino.phaseHeight.toNat = 0 := rfl
    omega
  slots := fun _ _ _ => ⟨0, rfl⟩
  owners := by
    intro i
    by_cases hi : i = 0
    · exact ⟨creator, by simp [start, create, hi]⟩
    · exact ⟨0, by simp [start, create, hi, usender]⟩

/-- `refill` leaves the ring alone, and its new owner is an address. -/
lemma refill_kept (hk : h.Kept) (sender : H160) : (h.step ⟨sender, .refill⟩).Kept := by
  have hsame : (refill sender h.casino).2.phaseHeight = h.casino.phaseHeight ∧
      (refill sender h.casino).2.winners = h.casino.winners ∧
      ∀ i, ∃ a, (refill sender h.casino).2.addresses i = usender a := by
    rcases refill_cases sender h.casino with ⟨i, -, hr⟩ | ⟨-, i, -, hr⟩ | ⟨-, hr⟩
    · rw [hr]
      exact ⟨rfl, rfl, hk.owners⟩
    · rw [hr]
      refine ⟨rfl, rfl, fun j => ?_⟩
      by_cases hj : j = i
      · exact ⟨sender, by simp [register, hj]⟩
      · obtain ⟨a, ha⟩ := hk.owners j
        exact ⟨a, by simp [register, hj, ha]⟩
    · rw [hr]
      exact ⟨rfl, rfl, hk.owners⟩
  obtain ⟨hheight, hwinners, howners⟩ := hsame
  have hentry : ∀ phase n, (h.step ⟨sender, .refill⟩).casino.entryOf phase n =
      h.casino.entryOf phase n := fun phase n => congrFun hwinners _
  refine ⟨fun phase hp => ?_, fun phase n hn => ?_, howners⟩
  · have hp' : InRing h.casino phase := by
      unfold InRing at hp ⊢
      rwa [show (h.step ⟨sender, .refill⟩).casino.phaseHeight = _ from hheight] at hp
    obtain ⟨rec, hrec, hh⟩ := hk.holds phase hp'
    exact ⟨rec, hrec, hh.short, hh.sorted, fun n a ha => (hentry phase n).trans (hh.entries n a ha),
      hh.owners⟩
  · rw [hentry]
    exact hk.slots phase n hn

/-- The winners of a phase are noted in the order of the register. -/
lemma noted_holds (winnerList : U256) (howners : ∀ i, ∃ a, c.addresses i = usender a) :
    Holds (c.openPhase winnerList) (c.phaseHeight + 1) (noted winnerList c) := by
  have hshort : (drawn winnerList c).length ≤ chainPhasePlayer := by
    rw [drawn, length_take]
    exact min_le_left _ _
  have hsub : (drawn winnerList c).Sublist Casino.slots :=
    ((take_sublist _ _).trans named_sublist).trans filter_sublist
  refine ⟨by simpa [noted] using hshort, ?_, fun n a ha => ?_, fun a ha => ?_⟩
  · rw [noted, pairwise_map]
    exact (pairwise_lt_finRange 256).sublist hsub
  · obtain ⟨i, hi, rfl⟩ : ∃ i, (drawn winnerList c)[n]? = some i ∧ (i, c.addresses i) = a := by
      simpa [noted] using ha
    have hn : n < chainPhasePlayer := lt_of_lt_of_le (List.getElem?_eq_some_iff.mp hi).1 hshort
    rw [openPhase_entryOf hn, if_pos rfl, hi]
    rfl
  · obtain ⟨i, -, rfl⟩ := mem_map.mp ha
    exact howners i

/-- Phases that are fewer than `WINNER_BUFFER_SIZE` apart have different places in the ring. -/
lemma phaseIndex_ne {p q : U256} (hlt : p.toNat < q.toNat) (hnear : q.toNat < p.toNat + 128) :
    phaseIndex p ≠ phaseIndex q := by
  simp only [phaseIndex, ne_eq, Fin.ext_iff, Fin.val_ofNat]
  omega

/-- A new phase is noted, and the earlier ones the ring has room for stay as they are. -/
lemma openPhase_kept (hk : h.Kept) (winnerList : U256) :
    Kept ⟨h.casino.openPhase winnerList, update h.opening (h.casino.phaseHeight + 1)
      (some (noted winnerList h.casino))⟩ := by
  refine ⟨fun phase hp => ?_, fun phase n hn => ?_, hk.owners⟩
  · by_cases hnew : phase = h.casino.phaseHeight + 1
    · subst hnew
      exact ⟨_, update_self _ _ _, noted_holds winnerList hk.owners⟩
    · obtain ⟨h1, h2, h3⟩ := hp
      rw [openPhase_phaseHeight] at h2 h3
      -- The counter has not wrapped around, for `phase` is not zero.
      have hheight : (h.casino.phaseHeight + 1).toNat = h.casino.phaseHeight.toNat + 1 := by
        bv_omega
      have hlt : phase.toNat < (h.casino.phaseHeight + 1).toNat :=
        lt_of_le_of_ne h2 (fun he => hnew (BitVec.eq_of_toNat_eq he))
      obtain ⟨rec, hrec, hh⟩ := hk.holds phase ⟨h1, by omega, by omega⟩
      refine ⟨rec, (update_of_ne hnew _ _).trans hrec, hh.short, hh.sorted,
        fun n a ha => ?_, hh.owners⟩
      have hn : n < chainPhasePlayer := lt_of_lt_of_le (List.getElem?_eq_some_iff.mp ha).1 hh.short
      rw [openPhase_entryOf hn, if_neg (phaseIndex_ne hlt h3), hh.entries n a ha]
  · rw [openPhase_entryOf hn]
    split_ifs
    · cases (drawn winnerList h.casino)[n]? with
      | none => exact hk.slots phase n hn
      | some i => exact ⟨i, rfl⟩
    · exact hk.slots phase n hn

/-- **One call keeps the ring.** -/
lemma step_kept (hk : h.Kept) (m : Message) : (h.step m).Kept := by
  obtain ⟨sender, call⟩ := m
  cases call with
  | refill => exact refill_kept hk sender
  | setNextWinners phase winnerList =>
    by_cases hphase : phase = h.casino.phaseHeight
    · have hstep : h.step ⟨sender, .setNextWinners phase winnerList⟩ =
          ⟨h.casino.openPhase winnerList, update h.opening (h.casino.phaseHeight + 1)
            (some (noted winnerList h.casino))⟩ := by
        simp [step, openings, perform, setNextWinners_eq, hphase]
      rw [hstep]
      exact openPhase_kept hk winnerList
    · have hstep : h.step ⟨sender, .setNextWinners phase winnerList⟩ = h := by
        simp [step, openings, perform, setNextWinners_eq, hphase]
      rw [hstep]
      exact hk

/-- **Every run keeps it.** -/
lemma run_kept (ms : List Message) : (run creator ms).Kept := by
  have hfold : ∀ (ms : List Message) {h : Chronicle}, h.Kept → (ms.foldl step h).Kept := by
    intro ms
    induction ms with
    | nil => exact fun hk => hk
    | cons m ms ih => exact fun hk => ih (step_kept hk m)
  exact hfold ms (start_kept creator)

/-! ## The answer -/

@[simp] lemma toNat_slotWord (i : Slot) : (slotWord i).toNat = i := by
  rw [slotWord, BitVec.toNat_ofNat]
  omega

lemma slotWord_eq_zero {i : Slot} (h : slotWord i = 0) : i = 0 := by
  have := congrArg BitVec.toNat h
  rw [toNat_slotWord] at this
  exact Fin.ext this

@[simp] lemma addressAt_slotWord (c : Casino) (i : Slot) :
    c.addressAt (slotWord i) = some (c.addresses i) := by
  simp [addressAt]

/-- **The answer within the ring**, for a phase whose entries are the slots `i` and `j`: whoever
    owns neither of them is told the number of the second one. -/
lemma isWinnerMe_eq {i j : Slot} (a : H160) (hin : c.outside phase = false)
    (hi : c.entryOf phase 0 = slotWord i) (hj : c.entryOf phase 1 = slotWord j) :
    isWinnerMe a phase c = some (if c.addresses i = usender a then 1
      else if c.addresses j = usender a then 2 else slotWord j) := by
  unfold entryOf at hi hj
  have hrange : List.range chainPhasePlayer = [0, 1] := rfl
  simp only [isWinnerMe, hin, hrange, isWinnerMeLoop, hi, hj, addressAt_slotWord]
  simp only [Bool.false_eq_true, if_false, bind_eq_bind, bind_some]
  split_ifs <;> rfl

/-- **`isWinnerMe` is never reverted**: whoever made which calls, the ring holds slots. -/
theorem isWinnerMe_answers (a : H160) (ms : List Message) (phase : U256) :
    ∃ answer, isWinnerMe a phase ((create creator).run ms) = some answer := by
  have hrun : ms.foldl perform (start creator).casino = (run creator ms).casino :=
    foldl_hom casino fun _ _ => rfl
  rw [show (create creator).run ms = (run creator ms).casino from hrun]
  cases hout : (run creator ms).casino.outside phase with
  | true => exact ⟨0, by rw [isWinnerMe, hout]; rfl⟩
  | false =>
    obtain ⟨i, hi⟩ := (run_kept creator ms).slots phase 0 (by decide)
    obtain ⟨j, hj⟩ := (run_kept creator ms).slots phase 1 (by decide)
    exact ⟨_, isWinnerMe_eq a hout hi hj⟩

/-- The place of a caller among the winners that were noted, or zero. -/
def place (rec : List Noted) (a : H160) : U256 :=
  match rec.findIdx? fun w => w.2 = usender a with
  | some i => BitVec.ofNat 256 (i + 1)
  | none => 0

/-- Every caller is told its place. -/
def Truthful (c : Casino) (phase : U256) (rec : List Noted) : Prop :=
  ∀ a, isWinnerMe a phase c = some (place rec a)

lemma slot_zero_lt : 0 < 256 := by decide

/-- There was one winner; it still owns its slot and the first one of the register, and the second
    entry of the phase is empty. -/
def SoleWinner (c : Casino) (phase : U256) (rec : List Noted) : Prop :=
  ∃ i owner, rec = [(i, owner)] ∧ c.addresses i = owner ∧ c.addresses ⟨0, slot_zero_lt⟩ = owner ∧
    c.entryOf phase 1 = 0

/-- There are more addresses than names on a short list. -/
lemma exists_other (l : List U256) (hl : l.length ≤ 4) : ∃ a : H160, usender a ∉ l := by
  have hinj : Injective fun i : Fin 5 => usender (BitVec.ofNat 160 i) := by decide +kernel
  by_contra hall
  push Not at hall
  have hsub : Finset.univ.image (fun i : Fin 5 => usender (BitVec.ofNat 160 i)) ⊆ l.toFinset := by
    intro x hx
    obtain ⟨i, -, rfl⟩ := Finset.mem_image.mp hx
    exact mem_toFinset.mpr (hall _)
  have hcard := Finset.card_le_card hsub
  rw [Finset.card_image_of_injective _ hinj, Finset.card_univ, Fintype.card_fin] at hcard
  have := l.toFinset_card_le
  omega

lemma place_of_not_mem {a : H160} (ha : usender a ∉ rec.map Prod.snd) : place rec a = 0 := by
  have hnone : (rec.findIdx? fun w => w.2 = usender a) = none := by
    rw [findIdx?_eq_none_iff]
    intro w hw
    have hne : w.2 ≠ usender a := fun he => ha (he ▸ mem_map_of_mem hw)
    simpa using hne
  simp [place, hnone]

lemma place_single (i : Slot) (owner : U256) (a : H160) :
    place [(i, owner)] a = if owner = usender a then 1 else 0 := by
  by_cases h : owner = usender a
  · simp [place, h]
  · simp [place, h]

/-- **The answers within the ring.**  Only a sole winner in the first slot leaves them all right. -/
lemma truthful_iff (hh : Holds c phase rec)
    (hslots : ∀ n, n < chainPhasePlayer → ∃ i, c.entryOf phase n = slotWord i)
    (howners : ∀ i, ∃ a, c.addresses i = usender a) (hin : c.outside phase = false) :
    Truthful c phase rec ↔ SoleWinner c phase rec := by
  obtain ⟨i, hi⟩ := hslots 0 (by decide)
  obtain ⟨j, hj⟩ := hslots 1 (by decide)
  have hans := fun a => isWinnerMe_eq a hin hi hj
  constructor
  · intro ht
    -- Somebody who owns none of the slots, now or then, is told the second entry.
    have hzero : j = 0 := by
      obtain ⟨a, ha⟩ := exists_other (c.addresses i :: c.addresses j :: rec.map Prod.snd)
        (by simpa [Nat.lt_succ_iff] using hh.short.trans (show chainPhasePlayer ≤ 2 from le_refl 2))
      simp only [mem_cons, not_or] at ha
      have h := ht a
      rw [hans, if_neg (Ne.symm ha.1), if_neg (Ne.symm ha.2.1), place_of_not_mem ha.2.2] at h
      exact slotWord_eq_zero (some.inj h)
    subst hzero
    match rec, hh with
    | [], _ =>
      -- Nobody has won, and the owner of the first entry is told otherwise.
      obtain ⟨a, ha⟩ := howners i
      have h := ht a
      rw [hans, if_pos ha, place_of_not_mem not_mem_nil] at h
      exact absurd (some.inj h) (by decide)
    | [(k, owner)], hh =>
      obtain rfl : k = i := by
        have := hh.entries 0 _ rfl
        rw [hi] at this
        exact (Fin.ext (by simpa using congrArg BitVec.toNat this)).symm
      obtain ⟨a, ha⟩ := howners k
      have hk : owner = c.addresses k := by
        by_contra hne
        have h := ht a
        rw [hans, if_pos ha, place_single, if_neg (ha ▸ hne)] at h
        exact absurd (some.inj h) (by decide)
      obtain ⟨b, hb⟩ := howners 0
      refine ⟨k, owner, rfl, hk.symm, ?_, hj⟩
      by_contra hne
      have hne' : c.addresses k ≠ usender b := fun he => hne (hb.trans (he.symm.trans hk.symm))
      have h := ht b
      rw [hans, if_neg hne', if_pos hb, place_single, if_neg (hk ▸ hne')] at h
      exact absurd (some.inj h) (by decide)
    | (k, _) :: (l, _) :: _, hh =>
      -- The second winner is not in the first slot.
      have hl : slotWord 0 = slotWord l := hj.symm.trans (hh.entries 1 _ rfl)
      have hlt : k < l := (pairwise_cons.mp hh.sorted).1 _ mem_cons_self
      rw [slotWord_eq_zero hl.symm] at hlt
      exact absurd hlt (Fin.not_lt_zero k)
  · rintro ⟨k, owner, rfl, hk, h0, hentry⟩ a
    obtain rfl : k = i := by
      have := hh.entries 0 _ rfl
      rw [hi] at this
      exact (Fin.ext (by simpa using congrArg BitVec.toNat this)).symm
    obtain rfl : j = 0 := slotWord_eq_zero (hj.symm.trans hentry)
    have hfirst : c.addresses 0 = owner := h0
    rw [hans, hk, hfirst, place_single]
    split_ifs <;> rfl

/-- Outside the ring everybody is told that nobody has won. -/
lemma truthful_outside_iff (hh : Holds c phase rec) (hout : c.outside phase = true) :
    Truthful c phase rec ↔ rec = [] := by
  have hans : ∀ a, isWinnerMe a phase c = some 0 := fun a => by simp [isWinnerMe, hout]
  constructor
  · intro ht
    cases rec with
    | nil => rfl
    | cons w ws =>
      obtain ⟨a, ha⟩ := hh.owners w mem_cons_self
      have h := ht a
      -- The first of the winners has a place.
      have hplace : place (w :: ws) a = 1 := by simp [place, findIdx?_cons, ha]
      rw [hans, hplace] at h
      exact absurd (some.inj h) (by decide)
  · rintro rfl a
    rw [hans, place_of_not_mem not_mem_nil]

/-- **When every caller is told the truth**, in every run and for every phase of the ring: exactly
    if there was a sole winner.  (For the last phases of the counter the addition in `isWinnerMe`
    wraps around, and everybody is told that nobody has won.) -/
theorem isWinnerMe_truthful_iff (creator : H160) (ms : List Message) (phase : U256)
    (hphase : InRing (run creator ms).casino phase) :
    ∃ rec, (run creator ms).opening phase = some rec ∧
      (Truthful (run creator ms).casino phase rec ↔
        if (run creator ms).casino.outside phase then rec = []
        else SoleWinner (run creator ms).casino phase rec) := by
  have hk := run_kept creator ms
  obtain ⟨rec, hrec, hh⟩ := hk.holds phase hphase
  refine ⟨rec, hrec, ?_⟩
  by_cases hout : (run creator ms).casino.outside phase = true
  · rw [if_pos hout]
    exact truthful_outside_iff hh hout
  · rw [if_neg hout]
    exact truthful_iff hh (hk.slots phase) hk.owners (Bool.eq_false_iff.mpr hout)

/-- The creator of the contract is the only player, and the winner of the first phase. -/
theorem isWinnerMe_truthful_creator : InRing (run 1 [⟨1, .setNextWinners 0 1⟩]).casino 1 ∧
      ∃ rec, (run 1 [⟨1, .setNextWinners 0 1⟩]).opening 1 = some rec ∧
        Truthful (run 1 [⟨1, .setNextWinners 0 1⟩]).casino 1 rec := by
  have hphase : InRing (run 1 [⟨1, .setNextWinners 0 1⟩]).casino 1 := by
    unfold InRing
    decide +kernel
  obtain ⟨rec, hrec, hiff⟩ := isWinnerMe_truthful_iff 1 [⟨1, .setNextWinners 0 1⟩] 1 hphase
  have hsole : (run 1 [⟨1, .setNextWinners 0 1⟩]).opening 1 = some [(0, 1)] := by decide +kernel
  obtain rfl : [(0, 1)] = rec := some.inj (hsole.symm.trans hrec)
  refine ⟨hphase, [(0, 1)], hrec, hiff.mpr ?_⟩
  rw [if_neg (by decide +kernel)]
  exact ⟨0, 1, rfl, by decide +kernel, by decide +kernel, by decide +kernel⟩

/-- Three players, of whom the second and the third win the first phase. -/
def twoWinners : List Message := [⟨2, .refill⟩, ⟨3, .refill⟩, ⟨1, .setNextWinners 0 0x300000002⟩]

/-- **Who has never played is told the second place.** -/
theorem isWinnerMe_stranger :
    (run 1 twoWinners).opening 1 = some [(1, 2), (2, 3)] ∧ place [(1, 2), (2, 3)] 9 = 0 ∧
      isWinnerMe 9 1 (run 1 twoWinners).casino = some 2 ∧
        InRing (run 1 twoWinners).casino 1 := by
  unfold InRing
  decide +kernel

end Chronicle

end Ybtc
