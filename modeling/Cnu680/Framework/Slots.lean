import Mathlib.Data.List.Rotate
import Mathlib.Tactic.Common

/-! # Slot Rings

A ring of `n` slots that are taken and given back in cyclic order, where
a slot that is not taken is empty. Unlike in `Ring`, all `n` slots can be
taken at once: a full ring and an empty one have the same positions, and
only the slots tell them apart.

* `place a k` is the slot `k` places after slot `a`.
* `Laid v a q`: the slots from `a` on hold the queue `q`, and the others
  nothing.
-/

namespace Framework

universe u

variable {n : Nat} {α : Type u}

/-! ### Places -/

/-- The slot `k` places after slot `a`. -/
def place (a : Fin n) (k : Nat) : Fin n :=
  ⟨(a.val + k) % n, Nat.mod_lt _ (Nat.lt_of_le_of_lt (Nat.zero_le _) a.isLt)⟩

variable {v : Vector (Option α) n}

theorem place_zero (a : Fin n) : place a 0 = a :=
  Fin.ext (Nat.mod_eq_of_lt a.isLt)

theorem place_place (a : Fin n) (j k : Nat) : place (place a j) k = place a (j + k) := by
  apply Fin.ext
  simp only [place, Nat.mod_add_mod, Nat.add_assoc]

theorem place_self (a : Fin n) : place a n = a := by
  apply Fin.ext
  simp only [place, Nat.add_mod_right]
  exact Nat.mod_eq_of_lt a.isLt

theorem place_inj {a : Fin n} {j k : Nat} (hj : j < n) (hk : k < n)
    (h : place a j = place a k) : j = k := by
  have ha := a.isLt
  have hval : (a.val + j) % n = (a.val + k) % n := congrArg Fin.val h
  -- each of the two sums wraps at most once
  rw [Nat.mod_eq, Nat.mod_eq (a.val + k)] at hval
  by_cases hjn : a.val + j < n <;> by_cases hkn : a.val + k < n
  · rw [if_neg (by omega), if_neg (by omega)] at hval
    omega
  · rw [if_neg (by omega), if_pos (by omega), Nat.mod_eq_of_lt (by omega)] at hval
    omega
  · rw [if_pos (by omega), if_neg (by omega), Nat.mod_eq_of_lt (by omega)] at hval
    omega
  · rw [if_pos (by omega), if_pos (by omega), Nat.mod_eq_of_lt (by omega),
      Nat.mod_eq_of_lt (by omega)] at hval
    omega

theorem exists_place (a i : Fin n) : ∃ k, k < n ∧ place a k = i := by
  have ha := a.isLt
  have hi := i.isLt
  by_cases hle : a.val ≤ i.val
  · refine ⟨i.val - a.val, by omega, Fin.ext ?_⟩
    simp only [place]
    rw [show a.val + (i.val - a.val) = i.val from by omega]
    exact Nat.mod_eq_of_lt hi
  · refine ⟨i.val + n - a.val, by omega, Fin.ext ?_⟩
    simp only [place]
    rw [show a.val + (i.val + n - a.val) = i.val + n from by omega, Nat.add_mod_right]
    exact Nat.mod_eq_of_lt hi

/-- Slot `i` set to `x`. -/
def put (v : Vector α n) (i : Fin n) (x : α) : Vector α n := v.set i x

theorem get_put_self (v : Vector α n) (i : Fin n) (x : α) : (put v i x).get i = x :=
  Vector.getElem_set_self _

theorem get_put_ne (v : Vector α n) {i j : Fin n} (h : i ≠ j) (x : α) :
    (put v i x).get j = v.get j :=
  Vector.getElem_set_ne _ _ fun hval => h (Fin.ext hval)

theorem get_put_place (v : Vector α n) (a : Fin n) {j k : Nat} (hj : j < n) (hk : k < n) (x : α) :
    (put v (place a j) x).get (place a k) = if j = k then x else v.get (place a k) := by
  by_cases hjk : j = k
  · rw [if_pos hjk, hjk, get_put_self]
  · rw [if_neg hjk]
    exact get_put_ne v (fun h => hjk (place_inj hj hk h)) x

theorem contents_put_some {i : Fin n} (h : v.get i = none) (x : α) :
    ((put v i (some x)).toList.filterMap id).Perm (x :: v.toList.filterMap id) := by
  have hi : i.val < v.toList.length := by simp
  have hold : v.toList = v.toList.take i ++ none :: v.toList.drop (i + 1) := by
    have hget : v.toList[i.val] = none := h
    rw [← hget, List.getElem_cons_drop, List.take_append_drop]
  have hnew : (put v i (some x)).toList = v.toList.take i ++ some x :: v.toList.drop (i + 1) := by
    rw [put, Vector.toList_set, List.set_eq_take_append_cons_drop, if_pos hi]
  have hcontents : v.toList.filterMap id =
      (v.toList.take i).filterMap id ++ (v.toList.drop (i + 1)).filterMap id := by
    conv_lhs => rw [hold]
    rw [List.filterMap_append]
    rfl
  rw [hnew, List.filterMap_append, hcontents]
  exact List.perm_middle

theorem contents_put_none {i : Fin n} {x : α} (h : v.get i = some x) :
    (v.toList.filterMap id).Perm (x :: (put v i none).toList.filterMap id) := by
  have hback : put (put v i none) i (some x) = v := by
    rw [put, put, Vector.set_set]
    rw [← h]
    exact Vector.set_getElem_self i.isLt
  have hperm := contents_put_some (get_put_self v i none) x
  rwa [hback] at hperm

/-! ### Emptying the slots -/

/-- Take the element in slot `i` out, if there is one. -/
def takeOut (s : Vector (Option α) n × List α) (i : Fin n) : Vector (Option α) n × List α :=
  match s.1.get i with
  | some x => (put s.1 i none, s.2 ++ [x])
  | none => s

/-- Go through the slots and take all elements out. -/
def sweep (v : Vector (Option α) n) : Vector (Option α) n × List α :=
  (List.finRange n).foldl takeOut (v, [])

theorem takeOut_perm (s : Vector (Option α) n × List α) (i : Fin n) :
    ((takeOut s i).2 ++ (takeOut s i).1.toList.filterMap id).Perm
      (s.2 ++ s.1.toList.filterMap id) := by
  unfold takeOut
  split
  · next x h =>
    rw [List.append_assoc]
    exact (contents_put_none h).symm.append_left s.2
  · exact List.Perm.refl _

theorem get_takeOut (s : Vector (Option α) n × List α) (i j : Fin n) :
    (takeOut s i).1.get j = if i = j then none else s.1.get j := by
  unfold takeOut
  by_cases hij : i = j
  · subst hij
    rw [if_pos rfl]
    split
    · exact get_put_self _ _ _
    · next h => exact h
  · rw [if_neg hij]
    split
    · exact get_put_ne _ hij _
    · rfl

theorem foldl_takeOut (is : List (Fin n)) (s : Vector (Option α) n × List α) :
    ((is.foldl takeOut s).2 ++ (is.foldl takeOut s).1.toList.filterMap id).Perm
        (s.2 ++ s.1.toList.filterMap id) ∧
      ∀ j, (j ∈ is ∨ s.1.get j = none) → (is.foldl takeOut s).1.get j = none := by
  induction is generalizing s with
  | nil => exact ⟨List.Perm.refl _, fun j hj => hj.resolve_left List.not_mem_nil⟩
  | cons i is ih =>
    obtain ⟨hperm, hget⟩ := ih (takeOut s i)
    refine ⟨hperm.trans (takeOut_perm s i), fun j hj => hget j ?_⟩
    rw [get_takeOut]
    by_cases hij : i = j
    · exact .inr (if_pos hij)
    · rw [if_neg hij]
      exact hj.imp (fun hmem => (List.mem_cons.mp hmem).resolve_left (Ne.symm hij)) id

theorem get_sweep (v : Vector (Option α) n) (j : Fin n) : (sweep v).1.get j = none :=
  (foldl_takeOut (List.finRange n) (v, ([] : List α))).2 j (.inl (List.mem_finRange j))

theorem contents_of_empty (h : ∀ j, v.get j = none) : v.toList.filterMap id = [] := by
  rw [List.filterMap_eq_nil_iff]
  intro x hx
  obtain ⟨j, hj, rfl⟩ := List.getElem_of_mem hx
  exact h ⟨j, by simpa using hj⟩

theorem sweep_perm (v : Vector (Option α) n) : (sweep v).2.Perm (v.toList.filterMap id) := by
  have h := (foldl_takeOut (List.finRange n) (v, ([] : List α))).1
  have hempty : (sweep v).1.toList.filterMap id = [] := contents_of_empty (get_sweep v)
  unfold sweep at hempty
  rw [hempty, List.append_nil, List.nil_append] at h
  exact h

/-! ### Queues in the slots -/

/-- The slots from `a` on hold the queue `q`, and the others nothing. -/
structure Laid (v : Vector (Option α) n) (a : Fin n) (q : List α) : Prop where
  length_le : q.length ≤ n
  slot : ∀ k < n, v.get (place a k) = q[k]?

namespace Laid

variable {v : Vector (Option α) n} {a : Fin n} {q : List α}

theorem empty (a : Fin n) : Laid (Vector.replicate n (none : Option α)) a [] := by
  refine ⟨Nat.zero_le n, fun k _ => ?_⟩
  rw [List.getElem?_nil]
  exact Vector.getElem_replicate _

theorem isSome_iff (h : Laid v a q) (i : Fin n) :
    (v.get i).isSome ↔ ∃ k < q.length, i = place a k := by
  have hlen := h.length_le
  obtain ⟨k, hk, rfl⟩ := exists_place a i
  rw [h.slot k hk]
  constructor
  · intro hsome
    refine ⟨k, ?_, rfl⟩
    by_contra hge
    rw [List.getElem?_eq_none (by omega)] at hsome
    cases hsome
  · rintro ⟨j, hj, heq⟩
    cases place_inj hk (by omega) heq
    rw [List.getElem?_eq_getElem hj]
    rfl

/-- The slot after the queue is empty unless the ring is full. -/
theorem next_eq_none_iff (h : Laid v a q) : v.get (place a q.length) = none ↔ q.length < n := by
  have hlen := h.length_le
  constructor
  · intro hnone
    by_contra hge
    -- in a full ring it is the first slot, which is taken
    have hfull : q.length = n := by omega
    have hpos : 0 < n := Nat.lt_of_le_of_lt (Nat.zero_le _) a.isLt
    have hfirst := h.slot 0 hpos
    rw [place_zero, List.getElem?_eq_getElem (by omega)] at hfirst
    rw [hfull, place_self, hfirst] at hnone
    cases hnone
  · intro hlt
    rw [h.slot _ hlt]
    exact List.getElem?_eq_none (Nat.le_refl _)

/-- All slots are taken exactly when the slot after the queue is. -/
theorem full_iff (h : Laid v a q) : (∀ i : Fin n, (v.get i).isSome) ↔ q.length = n := by
  have hlen := h.length_le
  constructor
  · intro hall
    by_contra hne
    have hnone := h.next_eq_none_iff.mpr (by omega)
    have hsome := hall (place a q.length)
    rw [hnone] at hsome
    cases hsome
  · intro hfull i
    obtain ⟨k, hk, rfl⟩ := exists_place a i
    exact (h.isSome_iff _).mpr ⟨k, by omega, rfl⟩

theorem push (h : Laid v a q) (hlt : q.length < n) (x : α) :
    Laid (put v (place a q.length) (some x)) a (q ++ [x]) := by
  refine ⟨by simp; omega, fun k hk => ?_⟩
  rw [get_put_place v a hlt hk]
  split
  · next heq =>
    rw [← heq, List.getElem?_concat_length]
  · next hne =>
    rw [h.slot k hk]
    by_cases hkl : k < q.length
    · rw [List.getElem?_append_left hkl]
    · rw [List.getElem?_eq_none (by omega), List.getElem?_eq_none (by simp; omega)]

theorem first {x : α} (h : Laid v a (x :: q)) : v.get a = some x := by
  have hslot := h.slot 0 (Nat.lt_of_le_of_lt (Nat.zero_le _) a.isLt)
  rw [place_zero] at hslot
  exact hslot

theorem pop {x : α} (h : Laid v a (x :: q)) : Laid (put v a none) (place a 1) q := by
  have hlen := h.length_le
  rw [List.length_cons] at hlen
  have hpos : 0 < n := Nat.lt_of_le_of_lt (Nat.zero_le _) a.isLt
  refine ⟨by omega, fun k hk => ?_⟩
  rw [place_place, Nat.add_comm]
  by_cases hlast : k + 1 = n
  · -- the slot just given back is the last one
    have hget : (put v a none).get (place a n) = none := by
      rw [place_self, get_put_self]
    rw [hlast, hget, List.getElem?_eq_none (by omega)]
  · have hk1 : k + 1 < n := by omega
    have hget := get_put_place v a hpos hk1 none
    rw [place_zero, if_neg (by omega)] at hget
    rw [hget, h.slot _ hk1, List.getElem?_cons_succ]

theorem contents_perm (h : Laid v a q) : (v.toList.filterMap id).Perm q := by
  have hlen := h.length_le
  -- turned to begin at `a`, the slots are the queue and then nothing
  have hrotate : v.toList.rotate a.val = q.map some ++ List.replicate (n - q.length) none := by
    apply List.ext_getElem
    · simp; omega
    · intro k hk₁ hk₂
      have hk : k < n := by simpa using hk₁
      have hplace : (v.toList.rotate a.val)[k] = v.get (place a k) := by
        rw [List.getElem_rotate]
        simp [Vector.get, place, Nat.add_comm]
      rw [hplace, h.slot k hk]
      by_cases hkl : k < q.length
      · rw [List.getElem?_eq_getElem hkl, List.getElem_append_left (by simpa using hkl)]
        simp
      · rw [List.getElem?_eq_none (by omega), List.getElem_append_right (by simp; omega)]
        simp
  have hperm : v.toList.Perm (q.map some ++ List.replicate (n - q.length) none) :=
    hrotate ▸ (List.rotate_perm v.toList a.val).symm
  have hq : (q.map some ++ List.replicate (n - q.length) none).filterMap id = q := by
    rw [List.filterMap_append, List.filterMap_map]
    simp
  exact hq ▸ hperm.filterMap id

end Laid

end Framework
