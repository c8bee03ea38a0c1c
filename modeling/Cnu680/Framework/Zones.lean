import Mathlib.Data.Fintype.Card
import Cnu680.Framework.Slots

/-! # Zones of a Ring

A ring of slots that a producer fills and a consumer empties, where the
empty slots go back to the producer later, in groups. The slots are then
in three neighbouring zones: spare, ready and busy. Only the sizes of
the zones tell a ring without spare slots from one of spare slots, since
their ends meet in both.

* `Zones P a x y`: `x` slots from `a` on are spare, the next `y` ready.
* `produce`, `consume`, `release`: a slot moves to the next zone.
-/

namespace Framework

universe u

variable {n : Nat} {α : Type u}

/-- Who has a slot: nobody, the consumer or the producer. -/
inductive Zone where
  | spare
  | ready
  | busy
  deriving DecidableEq, Repr

/-- The zone `k` places after the first slot, where `x` slots are spare and
the `y` slots after them are ready. -/
def zoneAt (x y k : Nat) : Zone :=
  if k < x then .spare else if k < x + y then .ready else .busy

/-- From `a` on, `x` slots are spare, the next `y` are ready and the others
are busy. What a slot of a zone is like is up to `P`. -/
structure Zones (P : Zone → Fin n → Prop) (a : Fin n) (x y : Nat) : Prop where
  le : x + y ≤ n
  slot : ∀ k < n, P (zoneAt x y k) (place a k)

namespace Zones

variable {P Q : Zone → Fin n → Prop} {a : Fin n} {x y : Nat}

section
variable (h : Zones P a x y)
include h

theorem spare {k : Nat} (hk : k < x) : P .spare (place a k) := by
  have hslot := h.slot k (by have := h.le; omega)
  rwa [zoneAt, if_pos hk] at hslot

theorem ready {k : Nat} (hk : k < y) : P .ready (place a (x + k)) := by
  have hslot := h.slot (x + k) (by have := h.le; omega)
  rwa [zoneAt, if_neg (by omega), if_pos (by omega)] at hslot

theorem busy (hlt : x + y < n) : P .busy (place a (x + y)) := by
  have hslot := h.slot (x + y) hlt
  rwa [zoneAt, if_neg (by omega), if_neg (Nat.lt_irrefl _)] at hslot

theorem move {x' y' j : Nat} (hle : x' + y' ≤ n) (hj : j < n)
    (hnew : Q (zoneAt x' y' j) (place a j)) (hzone : ∀ k, k ≠ j → zoneAt x' y' k = zoneAt x y k)
    (hothers : ∀ z i, i ≠ place a j → P z i → Q z i) : Zones Q a x' y' := by
  refine ⟨hle, fun k hk => ?_⟩
  by_cases hkj : k = j
  · rw [hkj]
    exact hnew
  · rw [hzone k hkj]
    exact hothers _ _ (fun heq => hkj (place_inj hk hj heq)) (h.slot k hk)

theorem produce (hlt : x + y < n) (hnew : Q .ready (place a (x + y)))
    (hothers : ∀ z i, i ≠ place a (x + y) → P z i → Q z i) : Zones Q a x (y + 1) := by
  refine h.move (by omega) hlt ?_ (fun k hk => ?_) hothers
  · rwa [zoneAt, if_neg (by omega), if_pos (by omega)]
  · unfold zoneAt
    split
    · rfl
    · exact if_congr (by omega) rfl rfl

end

theorem consume (h : Zones P a x (y + 1)) (hnew : Q .spare (place a x))
    (hothers : ∀ z i, i ≠ place a x → P z i → Q z i) : Zones Q a (x + 1) y := by
  have hle := h.le
  refine h.move (by omega) (by omega) ?_ (fun k hk => ?_) hothers
  · rwa [zoneAt, if_pos (Nat.lt_succ_self x)]
  · unfold zoneAt
    rw [show x + 1 + y = x + (y + 1) by omega]
    exact if_congr (by omega) rfl rfl

theorem release (h : Zones P a (x + 1) y) (hnew : Q .busy a)
    (hothers : ∀ z i, i ≠ a → P z i → Q z i) : Zones Q (place a 1) x y := by
  have hle := h.le
  refine ⟨by omega, fun k hk => ?_⟩
  rw [place_place, Nat.add_comm]
  by_cases hlast : k + 1 = n
  · -- the slot given back is the last one
    rwa [hlast, place_self, zoneAt, if_neg (by omega), if_neg (by omega)]
  · have hne : place a (k + 1) ≠ a := fun heq =>
      absurd (place_inj (by omega) (by omega) (heq.trans (place_zero a).symm)) (by omega)
    have hzone : zoneAt x y k = zoneAt (x + 1) y (k + 1) := by
      unfold zoneAt
      exact if_congr (by omega) rfl (if_congr (by omega) rfl rfl)
    rw [hzone]
    exact hothers _ _ hne (h.slot (k + 1) (by omega))

theorem card_spare (h : Zones P a x y) {p : Fin n → Prop} [DecidablePred p]
    (hp : ∀ z i, P z i → (p i ↔ z = .spare)) : (Finset.univ.filter p).card ≤ x := by
  have hsub : Finset.univ.filter p ⊆ (Finset.range x).image (place a) := by
    intro i hi
    obtain ⟨k, hk, rfl⟩ := exists_place a i
    have hspare : zoneAt x y k = .spare :=
      (hp _ _ (h.slot k hk)).mp (Finset.mem_filter.mp hi).2
    rw [Finset.mem_image]
    refine ⟨k, Finset.mem_range.mpr ?_, rfl⟩
    by_contra hge
    rw [zoneAt, if_neg hge] at hspare
    split at hspare <;> cases hspare
  calc (Finset.univ.filter p).card
      ≤ ((Finset.range x).image (place a)).card := Finset.card_le_card hsub
    _ ≤ (Finset.range x).card := Finset.card_image_le
    _ = x := Finset.card_range x

end Zones

end Framework
