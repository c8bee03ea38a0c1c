import Mathlib.Tactic.Common

/-! # Sectors

A range of addresses that begins at 0 and is cut into consecutive
sectors, given by the list of their sizes. A sector is changed as a
whole: what is asked for at one address happens to every cell of the
sector that holds it.

* `sectorStart sizes k`: where sector `k` begins.
* `sectorAt sizes a`: the number of the sector that holds `a`.
* `refill sizes a g m`: the sector that holds `a` becomes `g`.
-/

namespace Framework

/-- Where sector `k` begins, and for the number of sectors where the last one
ends. -/
def sectorStart : List Nat → Nat → Nat
  | _, 0 => 0
  | [], _ + 1 => 0
  | s :: ss, k + 1 => s + sectorStart ss k

/-- The number of the sector that holds an address. -/
def sectorAt : List Nat → Nat → Option Nat
  | [], _ => none
  | s :: ss, a => if a < s then some 0 else (sectorAt ss (a - s)).map (· + 1)

/-- The cells after the sector that holds `a` has been replaced by `g`. -/
def refill {β : Type} (sizes : List Nat) (a : Nat) (g m : Nat → β) (x : Nat) : β :=
  if (sectorAt sizes a).isSome ∧ sectorAt sizes x = sectorAt sizes a then g x else m x

section
variable {sizes : List Nat} {a k : Nat}

@[simp] theorem sectorStart_zero : sectorStart sizes 0 = 0 := by
  cases sizes <;> rfl

theorem sectorStart_succ (h : k < sizes.length) :
    sectorStart sizes (k + 1) = sectorStart sizes k + sizes[k] := by
  induction sizes generalizing k with
  | nil => simp at h
  | cons s ss ih =>
    cases k with
    | zero => simp [sectorStart]
    | succ k =>
      have hk : k < ss.length := Nat.lt_of_succ_lt_succ h
      show s + sectorStart ss (k + 1) = s + sectorStart ss k + ss[k]
      rw [ih hk, Nat.add_assoc]

theorem sectorAt_eq_some_iff :
    sectorAt sizes a = some k ↔
      k < sizes.length ∧ sectorStart sizes k ≤ a ∧ a < sectorStart sizes (k + 1) := by
  induction sizes generalizing a k with
  | nil => simp [sectorAt]
  | cons s ss ih =>
    cases k with
    | zero =>
      by_cases ha : a < s
      · simp [sectorAt, sectorStart, ha]
      · simp [sectorAt, sectorStart, ha]
    | succ k =>
      show (if a < s then some 0 else (sectorAt ss (a - s)).map (· + 1)) = some (k + 1) ↔
        k + 1 < ss.length + 1 ∧ s + sectorStart ss k ≤ a ∧ a < s + sectorStart ss (k + 1)
      by_cases ha : a < s
      · simp only [ha, if_true, Option.some.injEq]
        constructor
        · intro h
          omega
        · rintro ⟨_, hle, _⟩
          omega
      · have hmap : (sectorAt ss (a - s)).map (· + 1) = some (k + 1) ↔
            sectorAt ss (a - s) = some k := by
          cases sectorAt ss (a - s) <;> simp
        simp only [ha, if_false]
        rw [hmap, ih]
        constructor
        all_goals
          rintro ⟨hk, hle, hlt⟩
          omega

theorem sectorAt_sectorStart (h : k < sizes.length) (hpos : 0 < sizes[k]) :
    sectorAt sizes (sectorStart sizes k) = some k := by
  rw [sectorAt_eq_some_iff, sectorStart_succ h]
  omega

theorem refill_of_mem {β : Type} {g m : Nat → β} {x : Nat} (ha : sectorAt sizes a = some k)
    (hx : sectorAt sizes x = some k) : refill sizes a g m x = g x := by
  simp [refill, ha, hx]

end

end Framework
