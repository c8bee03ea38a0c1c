import Mathlib.Algebra.BigOperators.Intervals
import Mathlib.Algebra.Order.BigOperators.Group.Finset

/-! # Tallies

The weight of a family that changes one member at a time: how many cells
of a heap hold a given kind of block, how many processes are in a given
state, how often an address occurs in the lists of all processes. Each
equation moves the old weight to the other side, so that the arithmetic
is left to `omega`.
-/

open Function

namespace Framework

variable {ι α : Type} {s : Finset ι} {i : ι} {w : α → ℕ} {f : ι → α}

/-- The weights of the members of `f` with index in `s`, added up. -/
def tally (s : Finset ι) (w : α → ℕ) (f : ι → α) : ℕ :=
  ∑ i ∈ s, w (f i)

/-- **One member changes.** -/
theorem tally_update [DecidableEq ι] (w : α → ℕ) (f : ι → α) (hi : i ∈ s) (x : α) :
    tally s w (update f i x) + w (f i) = tally s w f + w x := by
  have hrest : ∑ j ∈ s.erase i, w (update f i x j) = ∑ j ∈ s.erase i, w (f j) := by
    refine Finset.sum_congr rfl fun j hj => ?_
    rw [update_of_ne (Finset.ne_of_mem_erase hj)]
  have hnew : tally s w (update f i x) =
      w x + ∑ j ∈ s.erase i, w (update f i x j) := by
    rw [tally, ← Finset.add_sum_erase s _ hi, update_self]
  have hold : tally s w f = w (f i) + ∑ j ∈ s.erase i, w (f j) := by
    rw [tally, ← Finset.add_sum_erase s _ hi]
  rw [hnew, hold, hrest]
  omega

theorem tally_update_of_eq [DecidableEq ι] {x : α} (hx : w x = w (f i)) :
    tally s w (update f i x) = tally s w f := by
  refine Finset.sum_congr rfl fun j _ => ?_
  by_cases hj : j = i
  · rw [hj, update_self, hx]
  · rw [update_of_ne hj]

theorem tally_range_succ (w : α → ℕ) (f : ℕ → α) (n : ℕ) (x : α) :
    tally (Finset.range (n + 1)) w (update f n x) = tally (Finset.range n) w f + w x := by
  rw [tally, Finset.sum_range_succ, update_self]
  congr 1
  refine Finset.sum_congr rfl fun j hj => ?_
  rw [update_of_ne (Finset.mem_range.mp hj).ne]

theorem le_tally (w : α → ℕ) (f : ι → α) (hi : i ∈ s) : w (f i) ≤ tally s w f :=
  Finset.single_le_sum (f := fun j => w (f j)) (fun _ _ => Nat.zero_le _) hi

theorem tally_eq_zero (h : ∀ i ∈ s, w (f i) = 0) : tally s w f = 0 :=
  Finset.sum_eq_zero h

theorem exists_of_tally_ne_zero (h : tally s w f ≠ 0) : ∃ i ∈ s, w (f i) ≠ 0 := by
  by_contra hnone
  refine h (tally_eq_zero fun i hi => ?_)
  by_contra hw
  exact hnone ⟨i, hi, hw⟩

theorem tally_eq_card {p : ι → Prop} [DecidablePred p] (h : ∀ i, w (f i) = if p i then 1 else 0) :
    tally s w f = (s.filter p).card := by
  rw [Finset.card_filter]
  exact Finset.sum_congr rfl fun i _ => h i

end Framework
