import Mathlib.Data.List.Basic

/-! # Checksums

The 16-bit ones' complement checksum: words are added and the carries
added back, and the complement of the sum is stored with the words. A
sum is given by the natural number to which the words, of 16 or of 32
bits, add up; adding the carries back leaves it as it is modulo 65535.

* `add_checksum`: words with the checksum over them have checksum 0.
* `checksum_replace`: a word may be replaced if the checksum is changed
  by the difference.

Next to it, `overwrite`: some elements of a list are replaced by others,
and the length stays. -/

namespace Framework

/-- A sum with the carries added back. -/
def endAround (n : Nat) : Nat := if n = 0 then 0 else (n - 1) % 65535 + 1

/-- The checksum over words that add up to `n`. -/
def checksum (n : Nat) : Nat := 65535 - endAround n

theorem checksum_le (n : Nat) : checksum n ≤ 65535 := Nat.sub_le ..

theorem checksum_eq_zero_iff {n : Nat} : checksum n = 0 ↔ 0 < n ∧ 65535 ∣ n := by
  unfold checksum endAround
  split <;> omega

theorem dvd_add_checksum (n : Nat) : 65535 ∣ n + checksum n := by
  unfold checksum endAround
  split <;> omega

/-- **Fill in**: words with the checksum over them. -/
theorem add_checksum {n : Nat} (hn : 0 < n) : checksum (n + checksum n) = 0 :=
  checksum_eq_zero_iff.mpr ⟨by omega, dvd_add_checksum n⟩

/-- **Replace** a word: the checksum over the complement of the old word, the
new one and the complement of the old checksum is right for the words
with the new one if the old checksum was right. -/
theorem checksum_replace {rest old inverse new check : Nat} (hrest : 0 < rest)
    (hinverse : 65535 ∣ inverse + old) (hcheck : check ≤ 65535) :
    checksum (rest + new + checksum (inverse + new + (65535 - check))) = 0 ↔
      checksum (rest + old + check) = 0 := by
  have hdvd := dvd_add_checksum (inverse + new + (65535 - check))
  rw [checksum_eq_zero_iff, checksum_eq_zero_iff]
  omega

/-- What bytes add, in words whose first byte is the lower one. -/
def wordSum : List UInt8 → Nat
  | [] => 0
  | [b] => b.toNat
  | b :: b' :: l => b.toNat + 256 * b'.toNat + wordSum l

/-! ## Overwriting -/

section

variable {α : Type} {l bs bs' : List α} {off n : Nat}

/-- The elements of `l` from `off` on are replaced by those of `bs`. -/
def overwrite : List α → Nat → List α → List α
  | [], _, _ => []
  | x :: l, 0, [] => x :: l
  | _ :: l, 0, b :: bs => b :: overwrite l 0 bs
  | x :: l, off + 1, bs => x :: overwrite l off bs

@[simp] theorem length_overwrite (l : List α) (off : Nat) (bs : List α) :
    (overwrite l off bs).length = l.length := by
  fun_induction overwrite l off bs <;> simp_all

theorem take_overwrite (h : n ≤ off) : (overwrite l off bs).take n = l.take n := by
  fun_induction overwrite l off bs generalizing n with
  | case1 => rfl
  | case2 => rfl
  | case3 =>
    rw [Nat.le_zero.mp h]
    rfl
  | case4 x l off bs ih =>
    cases n with
    | zero => rfl
    | succ n => simp [ih (Nat.le_of_succ_le_succ h)]

theorem slice_overwrite (h : off + bs.length ≤ l.length) :
    ((overwrite l off bs).drop off).take bs.length = bs := by
  fun_induction overwrite l off bs with
  | case1 off bs => simp_all
  | case2 => rfl
  | case3 x l b bs ih => simpa using ih (by simpa using h)
  | case4 x l off bs ih => simpa using ih (by simp at h; omega)

theorem overwrite_slice (l : List α) (off n : Nat) : overwrite l off ((l.drop off).take n) = l := by
  induction l generalizing off n with
  | nil => rfl
  | cons x l ih =>
    cases off with
    | zero =>
      cases n with
      | zero => rfl
      | succ n => simpa [overwrite] using ih 0 n
    | succ off => simpa [overwrite] using ih off n

theorem overwrite_overwrite (h : bs.length = bs'.length) :
    overwrite (overwrite l off bs) off bs' = overwrite l off bs' := by
  fun_induction overwrite l off bs generalizing bs' with
  | case1 => rfl
  | case2 => rfl
  | case3 x l b bs ih =>
    cases bs' with
    | nil => cases h
    | cons b' bs' => simpa [overwrite] using ih (by simpa using h)
  | case4 x l off bs ih => simpa [overwrite] using ih h

theorem overwrite_inj (h : off + bs.length ≤ l.length) (hlength : bs.length = bs'.length) :
    overwrite l off bs = overwrite l off bs' ↔ bs = bs' := by
  refine ⟨fun heq => ?_, fun heq => heq ▸ rfl⟩
  rw [← slice_overwrite h, heq, hlength]
  exact slice_overwrite (hlength ▸ h)

end

end Framework
