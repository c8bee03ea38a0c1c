import Mathlib.Tactic.Common

/-! # Words

Registers of 32 bits that are read, masked and written back. A field is
a word under a mask, `x &&& m`; the lemmas say what setting and clearing
bits does to a field.
-/

namespace Framework

variable {x y m : UInt32}

/-! ### Fields -/

theorem or_field (x y m : UInt32) : (x ||| y) &&& m = x &&& m ||| y &&& m := by
  rw [← UInt32.toBitVec_inj]
  exact BitVec.and_or_distrib_right

theorem or_eq_zero_iff : x ||| y = 0 ↔ x = 0 ∧ y = 0 := by
  rw [← UInt32.toBitVec_inj, ← UInt32.toBitVec_inj, ← UInt32.toBitVec_inj]
  exact BitVec.or_eq_zero_iff

theorem or_field_ne_zero_left (h : x &&& m ≠ 0) : (x ||| y) &&& m ≠ 0 := by
  rw [or_field]
  exact fun hzero => h (or_eq_zero_iff.mp hzero).1

theorem or_field_ne_zero_right (h : y &&& m ≠ 0) : (x ||| y) &&& m ≠ 0 := by
  rw [or_field]
  exact fun hzero => h (or_eq_zero_iff.mp hzero).2

/-- The bits of `x` are among those of `y`. -/
def Within (x y : UInt32) : Prop := x ||| y = y

instance (x y : UInt32) : Decidable (Within x y) := inferInstanceAs (Decidable (x ||| y = y))

theorem or_within_iff {z : UInt32} : Within (x ||| y) z ↔ Within x z ∧ Within y z := by
  unfold Within
  constructor
  · intro h
    have hx : x ||| z = z := by
      rw [← h, ← UInt32.or_assoc, ← UInt32.or_assoc, UInt32.or_self]
    have hy : y ||| z = z := by
      rw [← h, UInt32.or_comm x y, ← UInt32.or_assoc, ← UInt32.or_assoc, UInt32.or_self]
    exact ⟨hx, hy⟩
  · rintro ⟨hx, hy⟩
    rw [UInt32.or_assoc, hy, hx]

theorem within_iff : Within x y ↔ ∀ i, x.toBitVec.getLsbD i → y.toBitVec.getLsbD i := by
  unfold Within
  rw [← UInt32.toBitVec_inj, UInt32.toBitVec_or]
  constructor
  · intro h i hi
    rw [← h, BitVec.getLsbD_or, hi, Bool.true_or]
  · intro h
    apply BitVec.eq_of_getLsbD_eq
    intro i _
    rw [BitVec.getLsbD_or, Bool.or_eq_right_iff_imp]
    exact h i

theorem Within.or (h : Within m x) (y : UInt32) : Within m (x ||| y) := by
  rw [within_iff] at h ⊢
  intro i hi
  rw [UInt32.toBitVec_or, BitVec.getLsbD_or, h i hi, Bool.true_or]

theorem within_or_right (m x : UInt32) : Within m (x ||| m) := by
  unfold Within
  rw [UInt32.or_comm, UInt32.or_assoc, UInt32.or_self]

theorem Within.and_not (h : Within m x) (hm : y &&& m = 0) : Within m (x &&& ~~~y) := by
  rw [within_iff] at h ⊢
  intro i hi
  have hlt : i < 32 := BitVec.lt_of_getLsbD hi
  have hclear : (y &&& m).toBitVec.getLsbD i = false := by
    rw [hm]
    exact BitVec.getLsbD_zero
  rw [UInt32.toBitVec_and, BitVec.getLsbD_and, hi, Bool.and_true] at hclear
  rw [UInt32.toBitVec_and, UInt32.toBitVec_not, BitVec.getLsbD_and, BitVec.getLsbD_not, h i hi,
    hclear]
  simp [hlt]

theorem not_within_and_not (hy : Within y m) (hne : y ≠ 0) : ¬ Within m (x &&& ~~~y) := by
  rw [within_iff] at hy ⊢
  intro h
  apply hne
  rw [← UInt32.toBitVec_inj]
  apply BitVec.eq_of_getLsbD_eq
  intro i _
  rw [UInt32.toBitVec_zero, BitVec.getLsbD_zero]
  cases hi : y.toBitVec.getLsbD i with
  | false => rfl
  | true =>
    have hclear := h i (hy i hi)
    rw [UInt32.toBitVec_and, UInt32.toBitVec_not, BitVec.getLsbD_and, BitVec.getLsbD_not, hi]
      at hclear
    simp at hclear

/-- The bits of all the words. -/
def union (xs : List UInt32) : UInt32 := xs.foldr (· ||| ·) 0

@[simp] theorem union_nil : union [] = 0 := rfl

@[simp] theorem union_cons (x : UInt32) (xs : List UInt32) :
    union (x :: xs) = x ||| union xs := rfl

theorem union_within_iff (xs : List UInt32) : Within (union xs) y ↔ ∀ x ∈ xs, Within x y := by
  induction xs with
  | nil => simp [Within]
  | cons x xs ih => rw [union_cons, or_within_iff, ih, List.forall_mem_cons]

theorem within_union {xs : List UInt32} (h : x ∈ xs) : Within x (union xs) :=
  (union_within_iff xs).mp (UInt32.or_self) x h

theorem union_eq_iff {xs : List UInt32} (h : y ∈ xs) : union xs = y ↔ ∀ x ∈ xs, Within x y := by
  rw [← union_within_iff]
  constructor
  · rintro rfl
    exact UInt32.or_self
  · intro hall
    calc union xs = y ||| union xs := (within_union h).symm
      _ = union xs ||| y := UInt32.or_comm _ _
      _ = y := hall

theorem union_map_ite {α : Type} (p : α → Bool) (b : UInt32) (as : List α) :
    union (as.map fun a => if p a then b else 0) = if as.any p then b else 0 := by
  induction as with
  | nil => rfl
  | cons a as ih =>
    rw [List.map_cons, union_cons, ih, List.any_cons]
    cases p a <;> cases as.any p <;> simp

/-! ### Fields over a run of writes -/

section

variable {α : Type} {write : UInt32 → α → UInt32} {bits : α → UInt32} {clears : α → Bool}

/-- The writes since the last one that cleared the field, the last first. -/
def since (clears : α → Bool) (as : List α) : List α := as.reverse.takeWhile fun a => !clears a

theorem since_concat (as : List α) (a : α) :
    since clears (as ++ [a]) = if clears a then [] else a :: since clears as := by
  unfold since
  rw [List.reverse_concat, List.takeWhile_cons]
  cases clears a <;> rfl

/-- A field that each write either clears or adds bits to has what was added
since it was last cleared. -/
theorem foldl_field (hwrite : ∀ x a, write x a &&& m = if clears a then 0 else x &&& m ||| bits a)
    (hx : x &&& m = 0) (as : List α) :
    as.foldl write x &&& m = union ((since clears as).map bits) := by
  rw [List.foldl_eq_foldr_reverse]
  unfold since
  -- On the writes with the last first: what is before a clearing one is of no effect.
  induction as.reverse with
  | nil => exact hx
  | cons a as ih =>
    rw [List.foldr_cons, hwrite, List.takeWhile_cons]
    cases hclears : clears a with
    | true => simp
    | false => simp only [Bool.not_false, Bool.false_eq_true, if_true, if_false, List.map_cons,
        union_cons, ih, UInt32.or_comm]

theorem foldl_field_eq (hwrite : ∀ x a, write x a &&& m = x &&& m ||| bits a) (as : List α)
    (x : UInt32) : as.foldl write x &&& m = x &&& m ||| union (as.map bits) := by
  induction as generalizing x with
  | nil => exact UInt32.or_zero.symm
  | cons a as ih =>
    rw [List.foldl_cons, ih, hwrite, List.map_cons, union_cons, UInt32.or_assoc]

theorem foldl_field_eq_iff (hwrite : ∀ x a, write x a &&& m = x &&& m ||| bits a)
    (hx : x &&& m = 0) {as : List α} {a : α} (ha : a ∈ as) :
    as.foldl write x &&& m = bits a ↔ ∀ b ∈ as, Within (bits b) (bits a) := by
  rw [foldl_field_eq hwrite, hx, UInt32.zero_or, union_eq_iff (List.mem_map_of_mem ha),
    List.forall_mem_map]

end

/-! ### The upper half of a word -/

/-- The mask of the upper half. -/
def HIGH : UInt32 := 0xffff0000

theorem testBit_high (i : Nat) : HIGH.toNat.testBit i = (decide (16 ≤ i) && decide (i < 32)) := by
  have hmask : HIGH.toNat = (2 ^ 16 - 1) <<< 16 := by decide
  rw [hmask, Nat.testBit_shiftLeft, Nat.testBit_two_pow_sub_one]
  by_cases hi : 16 ≤ i
  · simp only [hi, decide_true, Bool.true_and, decide_eq_decide]
    omega
  · simp [hi]

theorem and_high_of_lt (h : x.toNat < 0x10000) : x &&& HIGH = 0 := by
  rw [← UInt32.toNat_inj, UInt32.toNat_and]
  apply Nat.eq_of_testBit_eq
  intro i
  rw [Nat.testBit_and, testBit_high]
  by_cases hi : 16 ≤ i
  · have hle : 2 ^ 16 ≤ 2 ^ i := Nat.pow_le_pow_right (by decide) hi
    rw [Nat.testBit_lt_two_pow (Nat.lt_of_lt_of_le h hle)]
    simp
  · simp [hi]

theorem shiftLeft_and_high (x : UInt32) {k : UInt32} (hk : 16 ≤ k.toNat) (hk' : k.toNat < 32) :
    x <<< k &&& HIGH = x <<< k := by
  rw [← UInt32.toNat_inj, UInt32.toNat_and]
  apply Nat.eq_of_testBit_eq
  intro i
  rw [Nat.testBit_and, testBit_high, UInt32.toNat_shiftLeft, Nat.testBit_mod_two_pow,
    Nat.testBit_shiftLeft, Nat.mod_eq_of_lt hk']
  by_cases hi : 16 ≤ i
  · by_cases hj : i < 32 <;> simp [hi, hj]
  · have hik : ¬ k.toNat ≤ i := by omega
    simp [hi, hik]

theorem low_and_high (x : UInt32) : (x &&& 0x0000ffff) &&& HIGH = 0 := by
  rw [UInt32.and_assoc]
  exact UInt32.and_zero

theorem high_and_high (x : UInt32) : (HIGH &&& x) &&& HIGH = x &&& HIGH := by
  rw [UInt32.and_comm HIGH x, UInt32.and_assoc]
  rfl

theorem byte_and_high (a : UInt8) : a.toUInt32 &&& HIGH = 0 := by
  apply and_high_of_lt
  have ha := a.toNat_lt
  rw [UInt8.toNat_toUInt32]
  omega

theorem byte_shiftLeft_and_high (a : UInt8) : a.toUInt32 <<< 8 &&& HIGH = 0 := by
  apply and_high_of_lt
  have ha := a.toNat_lt
  have h8 : (8 : UInt32).toNat % 32 = 8 := by decide
  rw [UInt32.toNat_shiftLeft, UInt8.toNat_toUInt32, h8, Nat.shiftLeft_eq]
  omega

/-! ### The bytes of a word -/

/-- Byte `k` of a word, the highest byte first. -/
def byteAt (x : UInt32) (k : Nat) : UInt8 := UInt8.ofNat (x.toNat >>> (24 - 8 * k))

theorem testBit_byteAt (x : UInt32) (k i : Nat) :
    (byteAt x k).toNat.testBit i = (decide (i < 8) && x.toNat.testBit (24 - 8 * k + i)) := by
  unfold byteAt
  rw [UInt8.toNat_ofNat', Nat.testBit_mod_two_pow, Nat.testBit_shiftRight]

theorem byteAt_or (x y : UInt32) (k : Nat) : byteAt (x ||| y) k = byteAt x k ||| byteAt y k := by
  rw [← UInt8.toNat_inj, UInt8.toNat_or]
  apply Nat.eq_of_testBit_eq
  intro i
  rw [Nat.testBit_or, testBit_byteAt, testBit_byteAt, testBit_byteAt, UInt32.toNat_or,
    Nat.testBit_or, Bool.and_or_distrib_left]

theorem byteAt_and (x y : UInt32) (k : Nat) : byteAt (x &&& y) k = byteAt x k &&& byteAt y k := by
  rw [← UInt8.toNat_inj, UInt8.toNat_and]
  apply Nat.eq_of_testBit_eq
  intro i
  rw [Nat.testBit_and, testBit_byteAt, testBit_byteAt, testBit_byteAt, UInt32.toNat_and,
    Nat.testBit_and]
  cases decide (i < 8) <;> simp

theorem byteAt_shiftLeft (a : UInt8) {n : UInt32} {j k : Nat} (hj : j < 4) (hk : k < 4)
    (hn : n.toNat = 24 - 8 * j) : byteAt (a.toUInt32 <<< n) k = if k = j then a else 0 := by
  have hhigh : ∀ i, 8 ≤ i → a.toNat.testBit i = false := by
    intro i hi
    exact Nat.testBit_lt_two_pow
      (Nat.lt_of_lt_of_le a.toNat_lt (Nat.pow_le_pow_right (by decide) hi))
  rw [← UInt8.toNat_inj]
  apply Nat.eq_of_testBit_eq
  intro i
  rw [testBit_byteAt, UInt32.toNat_shiftLeft, Nat.testBit_mod_two_pow, Nat.testBit_shiftLeft,
    UInt8.toNat_toUInt32, hn, Nat.mod_eq_of_lt (by omega)]
  by_cases hkj : k = j
  · subst hkj
    rw [if_pos rfl, Nat.add_sub_cancel_left]
    by_cases hi : i < 8
    · have hlt : 24 - 8 * k + i < 32 := by omega
      simp [hi, hlt]
    · simp [hi, hhigh i (Nat.le_of_not_lt hi)]
  · -- the bits of another place are not those of the byte
    rw [if_neg hkj, UInt8.toNat_zero, Nat.zero_testBit]
    by_cases hi : i < 8
    · by_cases hle : 24 - 8 * j ≤ 24 - 8 * k + i
      · rw [hhigh _ (by omega)]
        simp
      · simp [hle]
    · simp [hi]

end Framework
