import Mathlib.Data.Nat.Digits.Lemmas
import Mathlib.Tactic.Common

/-! # Decimal Numerals

Numbers in ASCII: `numeral` writes one, `readDigits` reads one up to the
first byte that is not a digit, and `readDigits_numeral` is the round
trip.
-/

namespace Framework

/-- The byte of a digit. -/
def digitByte (d : Nat) : UInt8 := 48 + UInt8.ofNat d

def IsDigit (b : UInt8) : Prop := 48 ≤ b ∧ b ≤ 57

instance (b : UInt8) : Decidable (IsDigit b) := by
  unfold IsDigit
  infer_instance

/-- A number in decimal, most significant digit first. -/
def numeral (n : Nat) : List UInt8 :=
  if n = 0 then [digitByte 0] else (Nat.digits 10 n).reverse.map digitByte

/-- The number at the front of a list of bytes, after the digits of `acc`. -/
def readDigits (acc : Nat) : List UInt8 → Nat
  | [] => acc
  | b :: l => if IsDigit b then readDigits (b.toNat - 48 + 10 * acc) l else acc

theorem isDigit_digitByte {d : Nat} (h : d < 10) : IsDigit (digitByte d) := by
  interval_cases d <;> decide

theorem digitByte_toNat {d : Nat} (h : d < 10) : (digitByte d).toNat - 48 = d := by
  interval_cases d <;> decide

theorem readDigits_map {ds : List Nat} (hds : ∀ d ∈ ds, d < 10) {rest : List UInt8}
    (hrest : ∀ b ∈ rest.head?, ¬ IsDigit b) (acc : Nat) :
    readDigits acc (ds.map digitByte ++ rest) = ds.foldl (fun a d => d + 10 * a) acc := by
  induction ds generalizing acc with
  | nil =>
    match rest with
    | [] => rfl
    | b :: rest =>
      have hb : ¬ IsDigit b := hrest b (by simp)
      exact if_neg hb
  | cons d ds ih =>
    have hd : d < 10 := hds d (by simp)
    rw [List.map_cons, List.cons_append, readDigits, if_pos (isDigit_digitByte hd),
      digitByte_toNat hd, List.foldl_cons]
    exact ih (fun e he => hds e (by simp [he])) _

/-- **A numeral is read back**, whatever follows it that is not a digit. -/
theorem readDigits_numeral (n : Nat) {rest : List UInt8} (hrest : ∀ b ∈ rest.head?, ¬ IsDigit b) :
    readDigits 0 (numeral n ++ rest) = n := by
  unfold numeral
  split
  · next h =>
    rw [h]
    exact readDigits_map (by simp : ∀ d ∈ [0], d < 10) hrest 0
  · have hds : ∀ d ∈ (Nat.digits 10 n).reverse, d < 10 := fun d hd =>
      Nat.digits_lt_base (by omega) (List.mem_reverse.mp hd)
    rw [readDigits_map hds hrest, List.foldl_reverse]
    have hfold := Nat.ofDigits_eq_foldr 10 (Nat.digits 10 n)
    rw [Nat.ofDigits_digits] at hfold
    exact hfold.symm

theorem numeral_length_le {n k : Nat} (hk : 1 ≤ k) (h : n < 10 ^ k) : (numeral n).length ≤ k := by
  unfold numeral
  split
  · exact hk
  · rw [List.length_map, List.length_reverse]
    exact (Nat.digits_length_le_iff (by omega) n).mpr h

theorem numeral_isDigit {n : Nat} {b : UInt8} (h : b ∈ numeral n) : IsDigit b := by
  unfold numeral at h
  split at h
  · cases List.mem_singleton.mp h
    exact isDigit_digitByte (by omega)
  · obtain ⟨d, hd, rfl⟩ := List.mem_map.mp h
    exact isDigit_digitByte (Nat.digits_lt_base (by omega) (List.mem_reverse.mp hd))

end Framework
