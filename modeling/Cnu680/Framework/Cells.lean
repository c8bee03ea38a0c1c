import Mathlib.Logic.Function.Basic
import Mathlib.Tactic.Common

/-! # Cells

A memory of cells, a function from addresses, with lists lying in it,
and the two searches that programs make in such a memory.

* `Lies m i l`: the list `l` lies in the cells from `i` on,
  `segment m i n`: what lies there, and `overlay m i l`: the list is
  written there.
* `firstFrom p n i`: the first of the `n` cells from `i` on with `p`, and
  `lastBelow p j`: the last cell below `j` with `p`.
* `pack z es`: lists laid out one after the other, each followed by the
  terminator `z`, and `Packed z m es`: the memory begins with such a
  layout and an empty list, which ends it. -/

open Function List

namespace Framework

variable {α : Type} {m m' : Nat → α} {i j : Nat} {l l' : List α} {a : α} {x : Nat} {n : Nat}
  {p : Nat → Bool}

/-! ## Lists in memory -/

/-- The list lies in the cells from `i` on. -/
def Lies (m : Nat → α) (i : Nat) (l : List α) : Prop :=
  ∀ k < l.length, l[k]? = some (m (i + k))

theorem lies_nil : Lies m i [] := by
  intro k hk
  cases hk

theorem lies_cons_iff : Lies m i (a :: l) ↔ m i = a ∧ Lies m (i + 1) l := by
  constructor
  · intro h
    refine ⟨?_, fun k hk => ?_⟩
    · have h0 := h 0 (Nat.zero_lt_succ _)
      exact (Option.some.inj h0).symm
    · have hk' := h (k + 1) (Nat.succ_lt_succ hk)
      rwa [List.getElem?_cons_succ, Nat.add_comm k 1, ← Nat.add_assoc] at hk'
  · rintro ⟨rfl, h⟩ k hk
    cases k with
    | zero => rfl
    | succ k =>
      rw [List.getElem?_cons_succ, Nat.add_comm k 1, ← Nat.add_assoc]
      exact h k (Nat.lt_of_succ_lt_succ hk)

theorem lies_append_iff : Lies m i (l ++ l') ↔ Lies m i l ∧ Lies m (i + l.length) l' := by
  induction l generalizing i with
  | nil =>
    constructor
    · intro h
      exact ⟨lies_nil, h⟩
    · intro h
      exact h.2
  | cons b l ih =>
    rw [cons_append, lies_cons_iff, lies_cons_iff, ih, and_assoc, length_cons,
      Nat.add_comm l.length 1, ← Nat.add_assoc]

theorem Lies.get (h : Lies m i l) {k : Nat} (hk : k < l.length) : m (i + k) = l[k] := by
  have hget := h k hk
  rw [List.getElem?_eq_getElem hk] at hget
  exact (Option.some.inj hget).symm

theorem Lies.mem (h : Lies m i l) (hle : i ≤ x) (hlt : x < i + l.length) : m x ∈ l := by
  have hget := h.get (k := x - i) (by omega)
  rw [Nat.add_sub_cancel' hle] at hget
  rw [hget]
  exact getElem_mem _

/-- What lies in the `n` cells from `i` on. -/
def segment (m : Nat → α) (i n : Nat) : List α := (List.range n).map fun k => m (i + k)

@[simp] theorem length_segment {n : Nat} : (segment m i n).length = n := by
  rw [segment, length_map, length_range]

theorem getElem_segment {n k : Nat} (h : k < (segment m i n).length) :
    (segment m i n)[k] = m (i + k) := by
  simp [segment]

theorem lies_segment : Lies m i (segment m i n) := by
  intro k hk
  rw [length_segment] at hk
  rw [segment, List.getElem?_map, List.getElem?_range hk]
  rfl

theorem Lies.congr (h : Lies m i l) (hm : ∀ x, i ≤ x → x < i + l.length → m' x = m x) :
    Lies m' i l := by
  intro k hk
  rw [hm (i + k) (by omega) (by omega)]
  exact h k hk

theorem Lies.update (h : Lies m i l) (hj : j < i ∨ i + l.length ≤ j) (b : α) :
    Lies (update m j b) i l := by
  apply h.congr
  intro x hle hlt
  exact update_of_ne (by omega) _ _

/-! ## Writing a list -/

/-- The memory with the list written into the cells from `i` on. -/
def overlay (m : Nat → α) (i : Nat) : List α → Nat → α
  | [] => m
  | a :: l => overlay (update m i a) (i + 1) l

theorem overlay_cons : overlay m i (a :: l) = overlay (update m i a) (i + 1) l := rfl

theorem overlay_append : overlay m i (l ++ l') = overlay (overlay m i l) (i + l.length) l' := by
  induction l generalizing m i with
  | nil => rfl
  | cons a l ih =>
    rw [cons_append, overlay_cons, ih, overlay_cons, length_cons, Nat.add_right_comm]
    rfl

theorem overlay_outside (hx : x < i ∨ i + l.length ≤ x) : overlay m i l x = m x := by
  induction l generalizing m i with
  | nil => rfl
  | cons a l ih =>
    rw [length_cons] at hx
    rw [overlay_cons, ih (by omega)]
    exact update_of_ne (by omega) _ _

theorem lies_overlay : Lies (overlay m i l) i l := by
  induction l generalizing m i with
  | nil => exact lies_nil
  | cons a l ih =>
    rw [overlay_cons, lies_cons_iff]
    refine ⟨?_, ih⟩
    rw [overlay_outside (.inl (Nat.lt_succ_self i))]
    exact update_self _ _ _

theorem Lies.overlay (h : Lies m i l) (hj : j + l'.length ≤ i ∨ i + l.length ≤ j) :
    Lies (overlay m j l') i l := by
  apply h.congr
  intro x hle hlt
  exact overlay_outside (by omega)

theorem overlay_congr (h : m x = m' x) : overlay m i l x = overlay m' i l x := by
  induction l generalizing m m' i with
  | nil => exact h
  | cons a l ih =>
    apply ih
    by_cases hx : x = i
    · rw [hx, update_self, update_self]
    · rw [update_of_ne hx, update_of_ne hx, h]

theorem overlay_segment {x n : Nat} : overlay m i (segment m' j n) x =
    if i ≤ x ∧ x < i + n then m' (j + (x - i)) else m x := by
  split_ifs with hx
  · have hget := (lies_overlay (m := m) (i := i) (l := segment m' j n)).get (k := x - i)
      (by rw [length_segment]; omega)
    rw [Nat.add_sub_cancel' hx.1] at hget
    rw [hget, getElem_segment]
  · exact overlay_outside (by rw [length_segment]; omega)

theorem overlay_update_self {b : α} : overlay (update m i b) i (a :: l) =
    overlay m i (a :: l) := by
  rw [overlay_cons, overlay_cons, update_idem]

/-! ## Searches -/

/-- The first of the `n` cells from `i` on with `p`. -/
def firstFrom (p : Nat → Bool) : Nat → Nat → Option Nat
  | 0, _ => none
  | n + 1, i => if p i then some i else firstFrom p n (i + 1)

theorem firstFrom_eq_find : firstFrom p n i = (List.range' i n).find? p := by
  induction n generalizing i with
  | zero => rfl
  | succ n ih =>
    rw [firstFrom, ih, range'_succ, List.find?_cons]
    cases p i <;> rfl

theorem firstFrom_eq_some_iff :
    firstFrom p n i = some j ↔
      i ≤ j ∧ j < i + n ∧ p j = true ∧ ∀ k, i ≤ k → k < j → p k = false := by
  rw [firstFrom_eq_find, List.find?_range'_eq_some]
  simp only [mem_range'_1, Bool.not_eq_true']
  tauto

theorem firstFrom_eq_none_iff : firstFrom p n i = none ↔ ∀ k, i ≤ k → k < i + n → p k = false := by
  rw [firstFrom_eq_find, List.find?_range'_eq_none]
  simp only [Bool.not_eq_true']

/-- The last cell below `j` with `p`. -/
def lastBelow (p : Nat → Bool) : Nat → Option Nat
  | 0 => none
  | j + 1 => if p j then some j else lastBelow p j

theorem lastBelow_eq_some_iff :
    lastBelow p j = some i ↔ i < j ∧ p i = true ∧ ∀ k, i < k → k < j → p k = false := by
  induction j with
  | zero => simp [lastBelow]
  | succ j ih =>
    rw [lastBelow]
    by_cases hp : p j = true
    · rw [if_pos hp]
      constructor
      · intro h
        obtain rfl : j = i := Option.some.inj h
        exact ⟨by omega, hp, fun k hle hlt => by omega⟩
      · rintro ⟨hlt, -, hall⟩
        by_contra hne
        have hij : i < j := by
          have : j ≠ i := fun heq => hne (congrArg some heq)
          omega
        have := hall j hij (by omega)
        rw [hp] at this
        cases this
    · rw [if_neg hp, ih]
      constructor
      · rintro ⟨hlt, hi, hall⟩
        refine ⟨by omega, hi, fun k hik hkj => ?_⟩
        by_cases hk : k = j
        · rw [hk]
          exact Bool.eq_false_iff.mpr hp
        · exact hall k hik (by omega)
      · rintro ⟨hlt, hi, hall⟩
        have hne : i ≠ j := fun heq => hp (heq ▸ hi)
        exact ⟨by omega, hi, fun k hik hkj => hall k hik (by omega)⟩

theorem lastBelow_eq_find : lastBelow p j = (List.range j).reverse.find? p := by
  induction j with
  | zero => rfl
  | succ j ih =>
    rw [lastBelow, ih, range_succ, reverse_concat, List.find?_cons]
    cases p j <;> rfl

theorem lastBelow_eq_none_iff : lastBelow p j = none ↔ ∀ k < j, p k = false := by
  simp [lastBelow_eq_find]

/-! ## Packed lists -/

/-- Lists one after the other, each with the terminator behind it. -/
def pack (z : α) : List (List α) → List α
  | [] => []
  | e :: es => e ++ z :: pack z es

variable {z : α} {es es' : List (List α)} {e : List α}

theorem pack_cons : pack z (e :: es) = e ++ z :: pack z es := rfl

theorem pack_append : pack z (es ++ es') = pack z es ++ pack z es' := by
  induction es with
  | nil => rfl
  | cons e es ih => rw [cons_append, pack_cons, pack_cons, ih, append_assoc,
      cons_append]

theorem length_pack_cons : (pack z (e :: es)).length = e.length + 1 + (pack z es).length := by
  rw [pack_cons, length_append, length_cons]
  omega

theorem lies_pack_cons_iff : Lies m i (pack z (e :: es)) ↔
    Lies m i (e ++ [z]) ∧ Lies m (i + e.length + 1) (pack z es) := by
  rw [pack_cons, ← singleton_append, ← append_assoc, lies_append_iff,
    length_append, length_singleton, Nat.add_assoc]

theorem length_le_length_pack (z : α) (es : List (List α)) : es.length ≤ (pack z es).length := by
  induction es with
  | nil => exact Nat.le_refl _
  | cons e es ih =>
    rw [length_pack_cons, length_cons]
    omega

/-- A list that can be packed: not empty, and without the terminator. -/
def Packable (z : α) (e : List α) : Prop := e ≠ [] ∧ z ∉ e

/-- The memory begins with packed lists, and an empty one ends them. -/
structure Packed (z : α) (m : Nat → α) (es : List (List α)) : Prop where
  lies : Lies m 0 (pack z es ++ [z])
  packable : ∀ e ∈ es, Packable z e

theorem Lies.first_ne (h : Lies m i (pack z (e :: es))) (he : Packable z e) : m i ≠ z := by
  have hpos : 0 < e.length := length_pos_iff.mpr he.1
  rw [pack_cons, lies_append_iff] at h
  exact fun hz => he.2 (hz ▸ h.1.mem (Nat.le_refl i) (by omega))

/-- Between two packed lists, and inside them, no two terminators follow each
other. -/
theorem not_double (hpack : ∀ e ∈ es, Packable z e) (h : Lies m i (pack z es)) {k : Nat}
    (hle : i ≤ k) (hlt : k + 1 < i + (pack z es).length) : ¬ (m k = z ∧ m (k + 1) = z) := by
  induction es generalizing i with
  | nil =>
    simp only [pack, length_nil] at hlt
    omega
  | cons e es ih =>
    rw [length_pack_cons] at hlt
    rw [pack_cons, lies_append_iff, lies_cons_iff] at h
    obtain ⟨hentry, hterm, hrest⟩ := h
    obtain ⟨hne, hz⟩ := hpack e mem_cons_self
    rcases Nat.lt_trichotomy k (i + e.length) with hin | heq | hbeyond
    · rintro ⟨hk, -⟩
      exact hz (hk ▸ hentry.mem hle hin)
    · rintro ⟨-, hk⟩
      rw [heq] at hk
      cases es with
      | nil =>
        simp only [pack, length_nil] at hlt
        omega
      | cons e' es =>
        exact hrest.first_ne (hpack e' (mem_cons_of_mem _ mem_cons_self)) hk
    · exact ih (fun e' he' => hpack e' (mem_cons_of_mem _ he')) hrest (by omega) (by omega)

/-- Any cells up to a bound are packed lists, with an empty one behind them or
with no terminator in what is left. -/
theorem exists_pack [DecidableEq α] (m : Nat → α) (z : α) {i n : Nat} (hi : i ≤ n) :
    ∃ es, (∀ e ∈ es, Packable z e) ∧ Lies m i (pack z es) ∧ i + (pack z es).length ≤ n ∧
      ((i + (pack z es).length < n ∧ m (i + (pack z es).length) = z) ∨
        ∀ j, i + (pack z es).length ≤ j → j < n → m j ≠ z) := by
  -- Induction on the number of cells: the first list goes up to the first terminator.
  induction hleft : n - i using Nat.strongRecOn generalizing i with
  | ind left ih =>
    have hnil : (∀ e ∈ ([] : List (List α)), Packable z e) ∧ Lies m i (pack z []) ∧
        i + (pack z ([] : List (List α))).length ≤ n :=
      ⟨fun e he => absurd he not_mem_nil, lies_nil, hi⟩
    cases hfirst : firstFrom (fun j => m j = z) (n - i) i with
    | none =>
      refine ⟨[], hnil.1, hnil.2.1, hnil.2.2, .inr fun j hle hlt => ?_⟩
      have := firstFrom_eq_none_iff.mp hfirst j hle (by omega)
      exact of_decide_eq_false this
    | some k =>
      obtain ⟨hle, hlt, hk, hbefore⟩ := firstFrom_eq_some_iff.mp hfirst
      have hterm : m k = z := of_decide_eq_true hk
      by_cases hempty : k = i
      · refine ⟨[], hnil.1, hnil.2.1, hnil.2.2, .inl ⟨?_, ?_⟩⟩
        · show i + 0 < n
          omega
        · show m (i + 0) = z
          rw [Nat.add_zero, ← hempty, hterm]
      · obtain ⟨es, hpack, hlies, hfits, hend⟩ :=
          ih (n - (k + 1)) (by omega) (i := k + 1) (by omega) rfl
        have hlen : (segment m i (k - i)).length = k - i := length_segment
        have hnext : i + (segment m i (k - i)).length + 1 = k + 1 := by
          rw [hlen]
          omega
        refine ⟨segment m i (k - i) :: es, fun e he => ?_, ?_, ?_⟩
        · rcases mem_cons.mp he with rfl | hmem
          · refine ⟨fun h => ?_, fun hz => ?_⟩
            · rw [h, length_nil] at hlen
              omega
            · obtain ⟨x, hx, hmx⟩ := mem_map.mp hz
              have := hbefore (i + x) (by omega) (by have := mem_range.mp hx; omega)
              exact of_decide_eq_false this hmx
          · exact hpack e hmem
        · rw [lies_pack_cons_iff, hnext]
          refine ⟨lies_append_iff.mpr ⟨lies_segment, ?_⟩, hlies⟩
          rw [hlen, Nat.add_sub_cancel' hle]
          exact lies_cons_iff.mpr ⟨hterm, lies_nil⟩
        · rw [length_pack_cons, ← Nat.add_assoc, ← Nat.add_assoc, hnext]
          exact ⟨hfits, hend⟩

end Framework
