import Mathlib.Tactic.Common

/-! # Ring Buffers

A ring of `n` cells with a read position and a write position, seen as
the FIFO queue of the cells from the read position up to the write
position.

One cell is always left free: equal positions mean *empty*, so a ring
of `n` cells queues at most `n - 1` elements. The positions carry their
bounds, so an out-of-range ring cannot be built.

* `Ring.view` is the queue;
* `Ring.push` and `Ring.drop` are the two ways to move a position;
* `Ring.run` is the length of the part of the queue that lies in
  consecutive cells, before the end of the array.
-/

namespace Framework

/-- A ring of `n` cells. -/
structure Ring (α : Type u) (n : Nat) where
  cells : Vector α n
  /-- The next cell to read. -/
  rd : Nat
  /-- The next cell to write. -/
  wr : Nat
  rd_lt : rd < n
  wr_lt : wr < n

namespace Ring

variable {α : Type u} {n : Nat} {k : Nat}

theorem pos (r : Ring α n) : 0 < n := Nat.lt_of_le_of_lt (Nat.zero_le _) r.rd_lt

/-! ### The queue -/

/-- The cell `k` places after the read position. -/
def cell (r : Ring α n) (k : Nat) : α :=
  have h := Nat.mod_lt (r.rd + k) r.pos
  r.cells[(r.rd + k) % n]

/-- The number of queued elements. -/
def length (r : Ring α n) : Nat := (r.wr + n - r.rd) % n

/-- The queued elements, oldest first. -/
def view (r : Ring α n) : List α := (List.range r.length).map r.cell

/-- The number of queued elements before the end of the array. -/
def run (r : Ring α n) : Nat :=
  if r.rd ≤ r.wr then r.wr - r.rd else n - r.rd

section
variable (r : Ring α n)

@[simp] theorem view_length : r.view.length = r.length := by
  simp [view]

theorem length_lt : r.length < n := Nat.mod_lt _ r.pos

theorem length_eq : r.length = if r.rd ≤ r.wr then r.wr - r.rd else r.wr + n - r.rd := by
  have hr := r.rd_lt
  have hw := r.wr_lt
  unfold length
  split
  · next hle =>
    rw [show r.wr + n - r.rd = r.wr - r.rd + n from by omega, Nat.add_mod_right]
    exact Nat.mod_eq_of_lt (by omega)
  · exact Nat.mod_eq_of_lt (by omega)

theorem run_le_length : r.run ≤ r.length := by
  rw [length_eq]
  unfold run
  split <;> omega

theorem run_pos (h : 0 < r.length) : 0 < r.run := by
  have hr := r.rd_lt
  rw [length_eq] at h
  unfold run
  split at h <;> split <;> omega

theorem rd_add_run_le : r.rd + r.run ≤ n := by
  have hr := r.rd_lt
  have hw := r.wr_lt
  unfold run
  split <;> omega

/-- The first `k ≤ run` queued elements are the `k` cells from the read
position on. -/
theorem take_view_eq (hk : k ≤ r.run) : r.view.take k = (r.cells.toList.drop r.rd).take k := by
  have hlen := r.run_le_length
  have hend := r.rd_add_run_le
  apply List.ext_getElem
  · simp; omega
  · intro i h₁ h₂
    have hi : i < k := by simp at h₁; omega
    have hmod : (r.rd + i) % n = r.rd + i := Nat.mod_eq_of_lt (by omega)
    simp [view, cell, hmod]

end

/-! ### Writing -/

/-- Write `c` to the next cell. -/
def push (r : Ring α n) (c : α) : Ring α n :=
  { r with
    cells := r.cells.set r.wr c r.wr_lt
    wr := (r.wr + 1) % n
    wr_lt := Nat.mod_lt _ r.pos }

section
variable (r : Ring α n)

@[simp] theorem push_rd (c : α) : (r.push c).rd = r.rd := rfl

@[simp] theorem push_wr (c : α) : (r.push c).wr = (r.wr + 1) % n := rfl

theorem wr_eq : (r.rd + r.length) % n = r.wr := by
  have hr := r.rd_lt
  have hw := r.wr_lt
  rw [length_eq]
  split
  · rw [show r.rd + (r.wr - r.rd) = r.wr from by omega]
    exact Nat.mod_eq_of_lt hw
  · rw [show r.rd + (r.wr + n - r.rd) = r.wr + n from by omega, Nat.add_mod_right]
    exact Nat.mod_eq_of_lt hw

theorem length_push (c : α) (h : r.length + 1 < n) : (r.push c).length = r.length + 1 := by
  have hr := r.rd_lt
  have hw := r.wr_lt
  have hl := r.length_eq
  rw [length_eq, push_rd, push_wr]
  by_cases hwrap : r.wr + 1 = n
  · rw [hwrap, Nat.mod_self]
    split at hl <;> split <;> omega
  · rw [Nat.mod_eq_of_lt (by omega : r.wr + 1 < n)]
    split at hl <;> split <;> omega

theorem cell_push (c : α) (hk : k < r.length) : (r.push c).cell k = r.cell k := by
  have hr := r.rd_lt
  have hw := r.wr_lt
  have hl := r.length_eq
  have hne : r.wr ≠ (r.rd + k) % n := by
    by_cases hlt : r.rd + k < n
    · rw [Nat.mod_eq_of_lt hlt]
      split at hl <;> omega
    · rw [Nat.mod_eq_sub_mod (by omega), Nat.mod_eq_of_lt (by split at hl <;> omega)]
      split at hl <;> omega
  simp [cell, push, hne]

theorem cell_push_last (c : α) : (r.push c).cell r.length = c := by
  have hw := r.wr_eq
  simp [cell, push, hw]

theorem view_push (c : α) (h : r.length + 1 < n) : (r.push c).view = r.view ++ [c] := by
  unfold view
  rw [length_push r c h, List.range_succ, List.map_append]
  congr 1
  · apply List.map_congr_left
    intro k hk
    exact cell_push r c (List.mem_range.mp hk)
  · simp [cell_push_last]

end

/-- Write the elements one after the other. -/
def append (r : Ring α n) (cs : List α) : Ring α n := cs.foldl push r

theorem append_cons (r : Ring α n) (c : α) (cs : List α) :
    r.append (c :: cs) = (r.push c).append cs := rfl

theorem view_append (r : Ring α n) {cs : List α} (h : r.length + cs.length < n) :
    (r.append cs).view = r.view ++ cs := by
  induction cs generalizing r with
  | nil => exact (List.append_nil _).symm
  | cons c cs ih =>
    rw [List.length_cons] at h
    have hpush : (r.push c).length = r.length + 1 := length_push r c (by omega)
    rw [append_cons, ih (r.push c) (by omega), view_push r c (by omega), List.append_assoc]
    rfl

theorem length_append (r : Ring α n) {cs : List α} (h : r.length + cs.length < n) :
    (r.append cs).length = r.length + cs.length := by
  rw [← view_length, view_append r h, List.length_append, view_length]

/-! ### Reading -/

/-- Move the read position `k` cells on. -/
def drop (r : Ring α n) (k : Nat) : Ring α n :=
  { r with rd := (r.rd + k) % n, rd_lt := Nat.mod_lt _ r.pos }

@[simp] theorem drop_rd (r : Ring α n) (k : Nat) : (r.drop k).rd = (r.rd + k) % n := rfl

@[simp] theorem drop_wr (r : Ring α n) (k : Nat) : (r.drop k).wr = r.wr := rfl

theorem length_drop (r : Ring α n) (hk : k ≤ r.length) : (r.drop k).length = r.length - k := by
  have hr := r.rd_lt
  have hw := r.wr_lt
  have hl := r.length_eq
  have hlt := r.length_lt
  rw [length_eq, drop_rd, drop_wr]
  by_cases hwrap : r.rd + k < n
  · rw [Nat.mod_eq_of_lt hwrap]
    split at hl <;> split <;> omega
  · rw [Nat.mod_eq_sub_mod (by omega), Nat.mod_eq_of_lt (by omega)]
    split at hl <;> split <;> omega

theorem view_eq_cons (r : Ring α n) (h : 0 < r.length) : r.view = r.cell 0 :: (r.view.drop 1) := by
  obtain ⟨k, hk⟩ : ∃ k, r.length = k + 1 := ⟨r.length - 1, by omega⟩
  unfold view
  rw [hk, List.range_succ_eq_map, List.map_cons, List.drop_one, List.tail_cons]

theorem view_drop (r : Ring α n) (hk : k ≤ r.length) : (r.drop k).view = r.view.drop k := by
  apply List.ext_getElem
  · simp [length_drop r hk]
  · intro i h₁ h₂
    have hmod : ((r.rd + k) % n + i) % n = (r.rd + (k + i)) % n := by
      rw [Nat.mod_add_mod, Nat.add_assoc]
    simp [view, cell, drop, hmod]

/-- Move both positions to the first cell. -/
def clear (r : Ring α n) : Ring α n :=
  { r with rd := 0, wr := 0, rd_lt := r.pos, wr_lt := r.pos }

theorem length_clear (r : Ring α n) : r.clear.length = 0 := by
  rw [length_eq]
  rfl

theorem view_clear (r : Ring α n) : r.clear.view = [] := by
  rw [← List.length_eq_zero_iff, view_length, length_clear]

end Ring

end Framework
