import Mathlib.Tactic.Common

/-! # Fields of a word

A word of any width whose bits are divided into fields by masks. A field
is read with `w &&& m`, its bits are set with `w ||| v` and cleared with
`w &&& ~~~v`. A write to one field is seen by no other.
-/

namespace Framework

section
variable {n : Nat} {w w' w'' m m' v : BitVec n}

theorem set_read (w m : BitVec n) : (w ||| m) &&& m = m := by
  ext i hi
  cases hm : m[i] <;> simp [hm]

theorem clear_read (w m : BitVec n) : w &&& ~~~m &&& m = 0#n := by
  ext i hi
  simp

theorem mask_within (v m : BitVec n) : v &&& m &&& ~~~m = 0#n := by
  ext i hi
  cases hm : m[i] <;> simp [hm]

theorem write_read (w v m : BitVec n) : (w &&& ~~~m ||| v) &&& m = v &&& m := by
  ext i hi
  cases hm : m[i] <;> simp [hm]

/-- Only the bits under the mask differ. -/
def SameBut (m w w' : BitVec n) : Prop := w' &&& ~~~m = w &&& ~~~m

theorem SameBut.refl (m w : BitVec n) : SameBut m w w := rfl

theorem SameBut.trans (h : SameBut m w w') (h' : SameBut m w' w'') : SameBut m w w'' :=
  Eq.trans h' h

theorem sameBut_set (w : BitVec n) (hv : v &&& ~~~m = 0#n) : SameBut m w (w ||| v) := by
  unfold SameBut
  rw [BitVec.and_or_distrib_right, hv, BitVec.or_zero]

theorem sameBut_clear (w : BitVec n) (hv : ~~~v &&& ~~~m = ~~~m) : SameBut m w (w &&& ~~~v) := by
  unfold SameBut
  rw [BitVec.and_assoc, hv]

/-- **A write to one field is not seen in another.** -/
theorem SameBut.read (h : SameBut m w w') (hm : ~~~m &&& m' = m') : w' &&& m' = w &&& m' :=
  calc w' &&& m' = w' &&& ~~~m &&& m' := by rw [BitVec.and_assoc, hm]
    _ = w &&& ~~~m &&& m' := by rw [h]
    _ = w &&& m' := by rw [BitVec.and_assoc, hm]

theorem read_of_read (h : w' &&& m = w &&& m) (hm : m &&& m' = m') : w' &&& m' = w &&& m' :=
  calc w' &&& m' = w' &&& m &&& m' := by rw [BitVec.and_assoc, hm]
    _ = w &&& m &&& m' := by rw [h]
    _ = w &&& m' := by rw [BitVec.and_assoc, hm]

end

end Framework
