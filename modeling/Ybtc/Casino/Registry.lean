import Ybtc.Casino.Contract

/-!
# The register of players

What `refill` does to the register, and what holds of the register in every reachable state.

The loop of `refill` looks for the sender and for the lowest balance at the same time, and stops at
the sender.  So the slot it gives away is the lowest one only if it has seen all of them, which is
the case exactly for a sender without a slot.  The main result is `Casino.registry_invariant`.
-/

namespace Ybtc

open List

namespace Casino

variable {c : Casino} {u : U256}

/-! ## The loop of `refill` -/

/-- The sender was found in the part that was searched. -/
lemma search_found : ∀ {is : List Slot} {low : U256} {index : Option Slot} {i : Slot},
    search c u is low index = .found i → i ∈ is ∧ c.addresses i = u
  | [], _, _, _, h => by simp [search] at h
  | j :: is, low, index, i, h => by
    rw [search] at h
    split_ifs at h with hj hlow
    · obtain rfl : j = i := by simpa using h
      exact ⟨mem_cons_self, hj⟩
    · exact (search_found h).imp_left (mem_cons_of_mem j)
    · exact (search_found h).imp_left (mem_cons_of_mem j)

/-- The sender was not found: nobody in the part that was searched is the sender. -/
lemma search_lowest_ne : ∀ {is : List Slot} {low : U256} {index r : Option Slot},
    search c u is low index = .lowest r → ∀ i ∈ is, c.addresses i ≠ u
  | [], _, _, _, _ => by simp
  | j :: is, low, index, r, h => by
    rw [search] at h
    split_ifs at h with hj hlow
    · exact forall_mem_cons.mpr ⟨hj, search_lowest_ne h⟩
    · exact forall_mem_cons.mpr ⟨hj, search_lowest_ne h⟩

/-- **The slot that is given away is a lowest one**; `low` is the balance of the slot found so far.
    -/
lemma search_lowest : ∀ {is : List Slot} {low : U256} {index r : Option Slot},
    search c u is low index = .lowest r →
      (r = index ∧ ∀ j ∈ is, low ≤ c.balances j) ∨
        ∃ i ∈ is, r = some i ∧ c.balances i < low ∧ ∀ j ∈ is, c.balances i ≤ c.balances j
  | [], _, _, _, h => by
    refine Or.inl ⟨?_, by simp⟩
    simpa [search, eq_comm] using h
  | j :: is, low, index, r, h => by
    rw [search] at h
    split_ifs at h with hj hlow
    · -- `j` is below everything before it; what follows may still be below `j`.
      right
      rcases search_lowest h with ⟨hr, hle⟩ | ⟨i, hi, hr, hlt, hle⟩
      · exact ⟨j, mem_cons_self, hr, hlow, forall_mem_cons.mpr ⟨BitVec.le_refl _, hle⟩⟩
      · exact ⟨i, mem_cons_of_mem j hi, hr, BitVec.lt_trans hlt hlow,
          forall_mem_cons.mpr ⟨BitVec.le_of_lt hlt, hle⟩⟩
    · rcases search_lowest h with ⟨hr, hle⟩ | ⟨i, hi, hr, hlt, hle⟩
      · exact Or.inl ⟨hr, forall_mem_cons.mpr ⟨BitVec.not_lt.mp hlow, hle⟩⟩
      · exact Or.inr ⟨i, mem_cons_of_mem j hi, hr, hlt,
          forall_mem_cons.mpr ⟨BitVec.le_trans (BitVec.le_of_lt hlt) (BitVec.not_lt.mp hlow), hle⟩⟩

/-- Every index of the register is visited. -/
@[simp] lemma mem_slots (i : Slot) : i ∈ slots := mem_finRange i

/-- The sender has a slot. -/
def Registered (c : Casino) (sender : H160) : Prop := ∃ i, c.addresses i = usender sender

/-- The balance of the slot is a lowest one. -/
def Lowest (c : Casino) (i : Slot) : Prop := ∀ j, c.balances i ≤ c.balances j

/-- **The three ends of `refill`.**  The sender has a slot and gets tokens; or the sender takes a
    lowest slot; or all balances are too high. -/
lemma refill_cases (sender : H160) (c : Casino) :
    (∃ i, c.addresses i = usender sender ∧ refill sender c =
        (c.balances i + registerReward, c.setBalance i (c.balances i + registerReward))) ∨
      (¬ c.Registered sender ∧ ∃ i, c.Lowest i ∧ refill sender c =
        (registerReward, c.register i (usender sender))) ∨
      (¬ c.Registered sender ∧ refill sender c = (0, c)) := by
  unfold refill
  cases hs : search c (usender sender) slots supply none with
  | found i => exact Or.inl ⟨i, (search_found hs).2, rfl⟩
  | lowest r =>
    have hnot : ¬ c.Registered sender := fun ⟨i, hi⟩ => search_lowest_ne hs i (mem_slots i) hi
    rcases search_lowest hs with ⟨rfl, -⟩ | ⟨i, -, rfl, -, hle⟩
    · exact Or.inr (Or.inr ⟨hnot, rfl⟩)
    · exact Or.inr (Or.inl ⟨hnot, i, fun j => hle j (mem_slots j), rfl⟩)

/-! ## The owners -/

/-- No two slots have the same owner. -/
def Distinct (c : Casino) : Prop := ∀ i j, c.addresses i ≠ 0 → c.addresses i = c.addresses j → i = j

/-- The constructor enters one owner. -/
lemma create_distinct (sender : H160) : (create sender).Distinct := by
  have hrest : ∀ i, (create sender).addresses i ≠ 0 → i = 0 := by
    intro i hi
    by_contra h
    exact hi (by simp [create, h])
  intro i j hi hij
  rw [hrest i hi, hrest j (hij ▸ hi)]

/-- A new owner keeps the owners distinct. -/
lemma register_distinct {i : Slot} (hc : c.Distinct) (hu : ∀ j, c.addresses j ≠ u) :
    (c.register i u).Distinct := by
  intro j k hj hjk
  simp only [register, Function.update_apply] at hj hjk
  split_ifs at hj hjk with h1 h2 h2
  · rw [h1, h2]
  · exact absurd hjk.symm (hu k)
  · exact absurd hjk (hu j)
  · exact hc j k hj hjk

/-- `setNextWinners` leaves the owners alone. -/
@[simp] lemma winnerLoop_addresses (winnerList : U256) (index : Fin 128) :
    ∀ (is : List Slot) (j k : ℕ) (seed : U256) (c : Casino),
      (winnerLoop winnerList index is j k seed c).addresses = c.addresses
  | [], _, _, _, _ => rfl
  | i :: is, j, k, seed, c => by
    simp only [winnerLoop]
    split_ifs with h0 h1 h2
    · exact winnerLoop_addresses winnerList index is _ _ _ _
    · rfl
    · exact winnerLoop_addresses winnerList index is _ _ _ _
    · exact winnerLoop_addresses winnerList index is _ _ _ _

/-- What a call of `setNextWinners` leaves behind. -/
lemma perform_setNextWinners (c : Casino) (sender : H160) (phase winnerList : U256) :
    (phase = c.phaseHeight ∧ c.perform ⟨sender, .setNextWinners phase winnerList⟩ =
        winnerLoop winnerList (phaseIndex (c.phaseHeight + 1)) slots 0 0 0
          { c with phaseHeight := c.phaseHeight + 1 }) ∨
      (phase ≠ c.phaseHeight ∧ c.perform ⟨sender, .setNextWinners phase winnerList⟩ = c) := by
  by_cases h : phase = c.phaseHeight
  · exact Or.inl ⟨h, by simp [perform, setNextWinners, h]⟩
  · exact Or.inr ⟨h, by simp [perform, setNextWinners, h]⟩

/-- **One call keeps the owners distinct.** -/
lemma perform_distinct (hc : c.Distinct) (m : Message) : (c.perform m).Distinct := by
  obtain ⟨sender, call⟩ := m
  cases call with
  | refill =>
    show (refill sender c).2.Distinct
    rcases refill_cases sender c with ⟨i, -, h⟩ | ⟨hnot, i, -, h⟩ | ⟨-, h⟩
    · rw [h]
      exact hc
    · rw [h]
      exact register_distinct hc fun j hj => hnot ⟨j, hj⟩
    · rw [h]
      exact hc
  | setNextWinners phase winnerList =>
    rcases perform_setNextWinners c sender phase winnerList with ⟨-, h⟩ | ⟨-, h⟩
    · rw [h]
      intro i j
      rw [winnerLoop_addresses]
      exact hc i j
    · rw [h]
      exact hc

/-- **Every sequence of calls keeps them distinct.** -/
lemma run_distinct : ∀ {c : Casino} (ms : List Message), c.Distinct → (c.run ms).Distinct
  | _, [], hc => hc
  | c, m :: ms, hc => run_distinct (c := c.perform m) ms (perform_distinct hc m)

/-! ## The invariant -/

/-- A slot has the same owner and the same balance. -/
def SameSlot (c c' : Casino) (i : Slot) : Prop :=
  c'.addresses i = c.addresses i ∧ c'.balances i = c.balances i

/-- At most one slot changes, and it is a lowest one. -/
structure ReplacesLowest (c c' : Casino) : Prop where
  lowest : ∀ i, ¬ SameSlot c c' i → c.Lowest i
  others : ∀ i, ¬ SameSlot c c' i → ∀ j, j ≠ i → SameSlot c c' j

/-- A new owner changes nothing but the slot it gets. -/
lemma register_sameSlot {i j : Slot} (h : j ≠ i) : SameSlot c (c.register i u) j :=
  ⟨Function.update_of_ne h _ _, Function.update_of_ne h _ _⟩

/-- A newcomer takes a lowest slot. -/
lemma refill_replacesLowest {sender : H160} (h : ¬ c.Registered sender) :
    ReplacesLowest c (refill sender c).2 := by
  rcases refill_cases sender c with ⟨i, hi, -⟩ | ⟨-, i, hlow, hr⟩ | ⟨-, hr⟩
  · exact absurd ⟨i, hi⟩ h
  · have honly : ∀ j, ¬ SameSlot c (refill sender c).2 j → j = i := by
      intro j hj
      by_contra hne
      rw [hr] at hj
      exact hj (register_sameSlot hne)
    refine ⟨fun j hj => honly j hj ▸ hlow, fun j hj k hk => ?_⟩
    rw [hr]
    exact register_sameSlot (honly j hj ▸ hk)
  · have hsame : ∀ j, SameSlot c (refill sender c).2 j := fun j => by
      rw [hr]
      exact ⟨rfl, rfl⟩
    exact ⟨fun j hj => absurd (hsame j) hj, fun j hj => absurd (hsame j) hj⟩

/-- **The register in every reachable state.**  Its owners are distinct, and whoever is not in it
    takes over at most one slot by `refill`, one with a lowest balance. -/
theorem registry_invariant (creator : H160) (ms : List Message) :
    ((create creator).run ms).Distinct ∧
      ∀ sender, ¬ ((create creator).run ms).Registered sender →
        ReplacesLowest ((create creator).run ms) (refill sender ((create creator).run ms)).2 :=
  ⟨run_distinct ms (create_distinct creator), fun _ h => refill_replacesLowest h⟩

/-- A newcomer to the register of two players. -/
theorem registry_invariant_newcomer : ¬ ((create 1).run [⟨2, .refill⟩]).Registered 3 ∧
      ReplacesLowest ((create 1).run [⟨2, .refill⟩])
        (refill 3 ((create 1).run [⟨2, .refill⟩])).2 := by
  have h : ¬ ((create 1).run [⟨2, .refill⟩]).Registered 3 := by
    unfold Registered
    decide +kernel
  exact ⟨h, (registry_invariant 1 [⟨2, .refill⟩]).2 3 h⟩

end Casino

end Ybtc
