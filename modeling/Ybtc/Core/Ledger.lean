import Mathlib.Algebra.BigOperators.Group.Finset.Basic
import Mathlib.Tactic

/-!
# Totals of a finite ledger

A ledger assigns to each account either nothing or a holding, and every holding has a measure in a
commutative group.  Nothing here depends on how the ledger is stored: a ledger is any function
`f : K → Option V`, together with a finite set of accounts outside which it is empty.
-/

namespace Ledger

open Finset

variable {K V M : Type*} [AddCommGroup M]

/-- Every account with a holding is in `S`. -/
def Supports (S : Finset K) (f : K → Option V) : Prop := ∀ k, f k ≠ none → k ∈ S

/-- The measure of what an account holds; zero when it holds nothing. -/
def held (μ : V → M) (f : K → Option V) (k : K) : M := ((f k).map μ).getD 0

/-- The total measure over the accounts of `S`. -/
def total (μ : V → M) (f : K → Option V) (S : Finset K) : M := ∑ k ∈ S, held μ f k

variable {μ : V → M} {f g : K → Option V} {S T : Finset K} {k : K}

lemma held_of_none (h : f k = none) : held μ f k = 0 := by simp [held, h]

/-- Supporting sets may be enlarged without changing the total. -/
lemma total_mono (hS : Supports S f) (hST : S ⊆ T) : total μ f T = total μ f S := by
  refine (sum_subset hST ?_).symm
  intro k _ hk
  by_cases hf : f k = none
  · exact held_of_none hf
  · exact absurd (hS k hf) hk

section

variable [DecidableEq K]

/-- **The total is a property of the ledger**, not of the supporting set. -/
lemma total_of_supports (hS : Supports S f) (hT : Supports T f) : total μ f S = total μ f T := by
  have hSU : S ⊆ S ∪ T := subset_union_left
  have hTU : T ⊆ S ∪ T := subset_union_right
  rw [← total_mono hS hSU, ← total_mono hT hTU]

/-- Two ledgers with the same holdings have the same total. -/
lemma total_congr (hS : Supports S f) (hT : Supports T g) (h : ∀ k, g k = f k) :
    total μ g T = total μ f S := by
  have hfg : g = f := funext h
  subst hfg
  exact total_of_supports hT hS

/-- **One account changes.**  If `g` agrees with `f` away from `k`, the totals differ by what `k`
    holds in each.  Every accounting argument about a sequence of updates is an iteration of this
    one fact. -/
lemma total_change (hS : Supports S f) (hT : Supports T g) (h : ∀ j, j ≠ k → g j = f j) :
    total μ g T + held μ f k = total μ f S + held μ g k := by
  set U := insert k (S ∪ T) with hU
  have hkU : k ∈ U := mem_insert_self _ _
  have hfU : total μ f S = total μ f U :=
    (total_mono hS (fun j hj => mem_insert_of_mem (mem_union_left _ hj))).symm
  have hgU : total μ g T = total μ g U :=
    (total_mono hT (fun j hj => mem_insert_of_mem (mem_union_right _ hj))).symm
  have hrest : ∑ j ∈ U.erase k, held μ g j = ∑ j ∈ U.erase k, held μ f j := by
    refine sum_congr rfl ?_
    intro j hj
    rw [held, held, h j (ne_of_mem_erase hj)]
  rw [hfU, hgU, total, total, ← add_sum_erase _ _ hkU, ← add_sum_erase _ _ hkU, hrest]
  abel

end

end Ledger
