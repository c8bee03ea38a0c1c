import Mathlib.Algebra.Order.Ring.Abs
import Mathlib.Tactic.Linarith

/-! # Rounding Division

The division of whole numbers that rounds to a nearest one, and what a
nearest one is. Quotients are compared through the products with the
divisor. -/

namespace Framework

/-- `n / r`, rounded. -/
def roundDiv (n r : Nat) : Nat := (n + r / 2) / r

/-- No whole number is nearer to `n / r` than `d` is. -/
def Nearest (d : Int) (n r : Nat) : Prop := ∀ e : Int, |d * r - n| ≤ |e * r - n|

section
variable {n r : Nat} {d : Int}

theorem roundDiv_mul (hr : 0 < r) :
    2 * n ≤ 2 * (roundDiv n r * r) + r ∧ 2 * (roundDiv n r * r) ≤ 2 * n + r := by
  have hle : roundDiv n r * r ≤ n + r / 2 := Nat.div_mul_le_self _ _
  have hlt : n + r / 2 < roundDiv n r * r + r := Nat.lt_div_mul_add hr
  omega

theorem nearest_of_le (h : 2 * |d * r - n| ≤ r) : Nearest d n r := by
  intro e
  by_cases hed : e = d
  · rw [hed]
  · -- another number is a whole divisor away from it
    have hone : 1 ≤ |e - d| := Int.one_le_abs (sub_ne_zero.mpr hed)
    have hfar : (r : Int) ≤ |e * r - d * r| := by
      rw [← sub_mul, abs_mul, Nat.abs_cast]
      nlinarith
    have htriangle : |e * r - d * r| ≤ |e * r - n| + |d * r - n| := by
      have hsub := abs_sub (e * r - n) (d * r - n)
      rwa [sub_sub_sub_cancel_right] at hsub
    linarith

theorem nearest_roundDiv (hr : 0 < r) : Nearest (roundDiv n r) n r := by
  obtain ⟨hlow, hhigh⟩ := roundDiv_mul (n := n) hr
  refine nearest_of_le ?_
  rw [← Nat.cast_mul]
  rcases abs_cases (((roundDiv n r * r : Nat) : Int) - n) with ⟨habs, -⟩ | ⟨habs, -⟩
  · rw [habs]
    omega
  · rw [habs]
    omega

theorem Nearest.le (hr : 0 < r) (h : Nearest d n r) : 2 * |d * r - n| ≤ r := by
  obtain ⟨hlow, hhigh⟩ := roundDiv_mul (n := n) hr
  have hq := h (roundDiv n r)
  rw [← Nat.cast_mul] at hq
  rcases abs_cases (((roundDiv n r * r : Nat) : Int) - n) with ⟨habs, -⟩ | ⟨habs, -⟩
  · rw [habs] at hq
    omega
  · rw [habs] at hq
    omega

theorem Nearest.le_two_mul (hr : 0 < r) (hd : 1 ≤ d) (h : Nearest d n r) : r ≤ 2 * n := by
  have habs := (abs_le.mp (show |d * r - n| ≤ |d * r - n| from le_rfl)).2
  have hhalf := h.le hr
  have hmul : (r : Int) ≤ d * r := by nlinarith
  have : (r : Int) ≤ 2 * n := by linarith
  exact_mod_cast this

theorem one_le_roundDiv (hr : 0 < r) (h : r ≤ 2 * n) : 1 ≤ roundDiv n r :=
  (Nat.one_le_div_iff hr).mpr (by omega)

end

end Framework
