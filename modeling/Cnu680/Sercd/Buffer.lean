import Cnu680.Framework.Exec
import Cnu680.Framework.Ring
import Cnu680.Sercd.Protocol

/-! # sercd: the byte buffers

`BufferType` and its operations, as `sercd.c` computes them: a ring of
2048 bytes with 32-bit unsigned read and write positions, and lengths
taken by wrapping subtraction.

The buffer is connected to the general ring of `Framework.Ring`
(`BufferType.ring`), whose view is the queue of bytes the buffer holds
(`BufferType.contents`). Every function of `sercd` that writes to a
buffer goes through `addToBuffer`, so `addBytes_ok` and `addBytes_full`
are all that the rest of the development needs to know of a write.
-/

open Framework

namespace Sercd

/-! ### The operations of `sercd.c` -/

abbrev bufferSize : Nat := 2048

/-- Buffer structure. -/
structure BufferType where
  buffer : Vector UInt8 bufferSize
  rdPos : UInt32
  wrPos : UInt32

/-- A buffer of zeros. -/
instance : Inhabited BufferType := ⟨⟨Vector.replicate bufferSize 0, 0, 0⟩⟩

/-- Initialize a buffer for operation. -/
def initBuffer (B : BufferType) : BufferType := { B with rdPos := 0, wrPos := 0 }

/-- Return the length of the data in the buffer. -/
def bufferLength (B : BufferType) : UInt32 := (B.wrPos - B.rdPos + 2048) % 2048

/-- Return how much room is left; -1 is for the full/empty distinction. -/
def bufferRoomLeft (B : BufferType) : UInt32 := 2048 - 1 - bufferLength B

/-- Check if there's room for a number of additional bytes. -/
def bufferHasRoomFor (B : BufferType) (x : UInt32) : Bool := bufferRoomLeft B ≥ x

/-- Check if the buffer is empty. -/
def isBufferEmpty (B : BufferType) : Bool := bufferLength B == 0

/-- Add a byte to a buffer. -/
def addToBuffer (B : BufferType) (C : UInt8) : Except Fault BufferType :=
  if !bufferHasRoomFor B 1 then .error .assertFailed
  else if h : B.wrPos.toNat < bufferSize then
    .ok { B with buffer := B.buffer.set B.wrPos.toNat C h, wrPos := (B.wrPos + 1) % 2048 }
  else .error .outOfBounds

/-- Get a byte from a buffer. -/
def getFromBuffer (B : BufferType) : Except Fault (UInt8 × BufferType) :=
  if h : B.rdPos.toNat < bufferSize then
    .ok (B.buffer[B.rdPos.toNat], { B with rdPos := (B.rdPos + 1) % 2048 })
  else .error .outOfBounds

/-- Get string from buffer, without removing it: the position in the array
that the returned pointer points to, and the length of the string. -/
def getBufferString (B : BufferType) : UInt32 × UInt32 :=
  (B.rdPos, if B.rdPos ≤ B.wrPos then B.wrPos - B.rdPos else 2048 - B.rdPos)

/-- The bytes in memory at the pointer and length `getBufferString` returns. -/
def BufferType.string (B : BufferType) : List UInt8 :=
  (B.buffer.toList.drop (getBufferString B).1.toNat).take (getBufferString B).2.toNat

/-- Remove the number of read bytes specified. -/
def bufferPopBytes (B : BufferType) (len : UInt32) : BufferType :=
  { B with rdPos := (B.rdPos + len) % 2048 }

/-- A program that writes to the buffer it is handed a pointer to. -/
abbrev BufM := StateT BufferType (Except Fault)

/-- `addToBuffer` on that buffer. -/
def put (C : UInt8) : BufM Unit := fun B => addToBuffer B C >>= fun B' => .ok ((), B')

/-! ### The buffer as a ring -/

/-- Both positions are inside the array. -/
structure BufferType.Valid (B : BufferType) : Prop where
  rd_lt : B.rdPos.toNat < bufferSize
  wr_lt : B.wrPos.toNat < bufferSize

/-- The ring that a buffer stands for. -/
def BufferType.ring (B : BufferType) : Ring UInt8 bufferSize where
  cells := B.buffer
  rd := B.rdPos.toNat % bufferSize
  wr := B.wrPos.toNat % bufferSize
  rd_lt := Nat.mod_lt _ (by decide)
  wr_lt := Nat.mod_lt _ (by decide)

/-- The bytes in the buffer, in the order they were added. -/
def BufferType.contents (B : BufferType) : List UInt8 := B.ring.view

/-- The room left in a buffer, as a number. -/
def BufferType.room (B : BufferType) : Nat := (bufferRoomLeft B).toNat

section
variable {B : BufferType}

theorem bufferLength_toNat (B : BufferType) : (bufferLength B).toNat = B.contents.length := by
  simp only [BufferType.contents, Ring.view_length, Ring.length, BufferType.ring, bufferLength,
    UInt32.toNat_mod, UInt32.toNat_add, UInt32.toNat_sub]
  have hr := B.rdPos.toNat_lt
  have hw := B.wrPos.toNat_lt
  simp only [UInt32.reduceToNat, bufferSize]
  omega

theorem contents_length_le (B : BufferType) : B.contents.length ≤ 2047 := by
  have h := B.ring.length_lt
  simp only [BufferType.contents, Ring.view_length]
  simp only [bufferSize] at h
  omega

theorem room_eq (B : BufferType) : B.room = 2047 - B.contents.length := by
  have hle := contents_length_le B
  have hlen := bufferLength_toNat B
  simp only [BufferType.room, bufferRoomLeft, UInt32.toNat_sub]
  simp only [UInt32.reduceToNat]
  omega

theorem room_add_length (B : BufferType) : B.room + B.contents.length = 2047 := by
  have hle := contents_length_le B
  rw [room_eq]
  omega

theorem bufferHasRoomFor_iff (B : BufferType) (x : UInt32) :
    bufferHasRoomFor B x = true ↔ x.toNat ≤ B.room := by
  simp [bufferHasRoomFor, BufferType.room, UInt32.le_iff_toNat_le]

theorem isBufferEmpty_iff (B : BufferType) : isBufferEmpty B = true ↔ B.contents = [] := by
  rw [isBufferEmpty, beq_iff_eq, ← List.length_eq_zero_iff, ← bufferLength_toNat]
  exact ⟨fun h => by rw [h]; rfl, fun h => UInt32.toNat_inj.mp (by simpa using h)⟩

theorem valid_initBuffer (B : BufferType) : (initBuffer B).Valid :=
  ⟨by simp [initBuffer], by simp [initBuffer]⟩

@[simp] theorem contents_initBuffer (B : BufferType) : (initBuffer B).contents = [] := by
  apply List.eq_nil_of_length_eq_zero
  rw [← bufferLength_toNat]
  simp [bufferLength, initBuffer]

theorem room_initBuffer (B : BufferType) : (initBuffer B).room = 2047 := by
  rw [room_eq, contents_initBuffer]
  rfl

end

/-! ### Writing -/

section
variable {B B' : BufferType} {out : List UInt8}

theorem addToBuffer_ok (hB : B.Valid) (C : UInt8) (hroom : 1 ≤ B.room) :
    ∃ B', addToBuffer B C = .ok B' ∧ B'.Valid ∧ B'.rdPos = B.rdPos ∧
      B'.contents = B.contents ++ [C] := by
  have hlen := room_add_length B
  have hhas : bufferHasRoomFor B 1 = true := (bufferHasRoomFor_iff B 1).mpr hroom
  have hw := hB.wr_lt
  have hwr : ((B.wrPos + 1) % 2048).toNat = (B.wrPos.toNat + 1) % bufferSize := by
    simp only [bufferSize] at hw
    simp only [UInt32.toNat_mod, UInt32.toNat_add, UInt32.reduceToNat, bufferSize]
    omega
  refine ⟨⟨B.buffer.set B.wrPos.toNat C hw, B.rdPos, (B.wrPos + 1) % 2048⟩,
    ?_, ⟨hB.rd_lt, ?_⟩, rfl, ?_⟩
  · simp [addToBuffer, hhas, hw]
  · show ((B.wrPos + 1) % 2048).toNat < bufferSize
    rw [hwr]
    exact Nat.mod_lt _ (by decide)
  · -- the new buffer stands for the ring with `C` pushed
    have hring : BufferType.ring ⟨B.buffer.set B.wrPos.toNat C hw, B.rdPos,
        (B.wrPos + 1) % 2048⟩ = B.ring.push C := by
      simp only [BufferType.ring, Ring.push, hwr, Nat.mod_eq_of_lt hw, Nat.mod_mod]
    unfold BufferType.contents
    rw [hring]
    apply Ring.view_push
    have hview : B.ring.length = B.contents.length := (Ring.view_length B.ring).symm
    rw [hview]
    show B.contents.length + 1 < 2048
    omega

theorem addToBuffer_full (C : UInt8) (hroom : B.room = 0) :
    addToBuffer B C = .error .assertFailed := by
  have hhas : bufferHasRoomFor B 1 = false := by
    rw [← Bool.not_eq_true, bufferHasRoomFor_iff, hroom]
    decide
  simp [addToBuffer, hhas]

/-- Adding a sequence of bytes. -/
abbrev addBytes : BufferType → List UInt8 → Except Fault BufferType := run addToBuffer

theorem addBytes_ok (hB : B.Valid) (hroom : out.length ≤ B.room) :
    ∃ B', addBytes B out = .ok B' ∧ B'.Valid ∧ B'.rdPos = B.rdPos ∧
      B'.contents = B.contents ++ out := by
  induction out generalizing B with
  | nil => exact ⟨B, rfl, hB, rfl, by simp⟩
  | cons C out ih =>
    have hlen := room_add_length B
    simp only [List.length_cons] at hroom
    obtain ⟨B₁, h₁, hv₁, hr₁, hc₁⟩ := addToBuffer_ok hB C (by omega)
    have hlen₁ := room_add_length B₁
    rw [hc₁, List.length_append, List.length_singleton] at hlen₁
    obtain ⟨B₂, h₂, hv₂, hr₂, hc₂⟩ := ih hv₁ (by omega)
    refine ⟨B₂, ?_, hv₂, hr₂.trans hr₁, ?_⟩
    · rw [addBytes, run_cons, h₁, ok_bind]
      exact h₂
    · rw [hc₂, hc₁, List.append_assoc, List.singleton_append]

theorem addBytes_full (hB : B.Valid) (hroom : B.room < out.length) :
    addBytes B out = .error .assertFailed := by
  induction out generalizing B with
  | nil => simp at hroom
  | cons C out ih =>
    simp only [List.length_cons] at hroom
    rw [addBytes, run_cons]
    by_cases h0 : B.room = 0
    · rw [addToBuffer_full C h0]
      rfl
    · have hlen := room_add_length B
      obtain ⟨B₁, h₁, hv₁, -, hc₁⟩ := addToBuffer_ok hB C (by omega)
      have hlen₁ := room_add_length B₁
      rw [hc₁, List.length_append, List.length_singleton] at hlen₁
      rw [h₁, ok_bind]
      exact ih hv₁ (by omega)

theorem put_emits (C : UInt8) : Emits addToBuffer (put C) () [C] := by
  intro B
  simp only [put, run_cons, run_nil, bind_assoc, ok_bind]

theorem emits_ok {α : Type} {m : BufM α} {x : α} (h : Emits addToBuffer m x out) (hB : B.Valid)
    (hroom : out.length ≤ B.room) :
    ∃ B', m B = .ok (x, B') ∧ B'.Valid ∧ B'.contents = B.contents ++ out := by
  obtain ⟨B', hadd, hv, -, hc⟩ := addBytes_ok hB hroom
  refine ⟨B', ?_, hv, hc⟩
  rw [h B, show run addToBuffer B out = .ok B' from hadd, ok_bind]

end

/-! ### Reading -/

section
variable {B : BufferType}

section
variable (hB : B.Valid)
include hB

theorem getBufferString_len : (getBufferString B).2.toNat = B.ring.run := by
  have hr := hB.rd_lt
  have hw := hB.wr_lt
  simp only [getBufferString, Ring.run, BufferType.ring, Nat.mod_eq_of_lt hr, Nat.mod_eq_of_lt hw,
    UInt32.le_iff_toNat_le]
  simp only [bufferSize] at hr hw
  split
  · simp only [UInt32.toNat_sub]
    omega
  · simp only [UInt32.toNat_sub, UInt32.reduceToNat, bufferSize]
    omega

theorem getBufferString_len_le : (getBufferString B).2.toNat ≤ B.contents.length := by
  rw [getBufferString_len hB, BufferType.contents, Ring.view_length]
  exact Ring.run_le_length _

theorem string_eq_take : B.string = B.contents.take (getBufferString B).2.toNat := by
  rw [BufferType.contents, Ring.take_view_eq _ (Nat.le_of_eq (getBufferString_len hB)),
    BufferType.string]
  simp only [BufferType.ring, getBufferString, Nat.mod_eq_of_lt hB.rd_lt]

theorem string_length : B.string.length = (getBufferString B).2.toNat := by
  rw [string_eq_take hB, List.length_take]
  exact Nat.min_eq_left (getBufferString_len_le hB)

theorem getBufferString_len_pos (h : B.contents ≠ []) : 0 < (getBufferString B).2.toNat := by
  rw [getBufferString_len hB]
  apply Ring.run_pos
  rw [← Ring.view_length]
  exact List.length_pos_iff.mpr h

theorem valid_bufferPopBytes (n : UInt32) : (bufferPopBytes B n).Valid := by
  refine ⟨?_, hB.wr_lt⟩
  simp only [bufferPopBytes, UInt32.toNat_mod, UInt32.reduceToNat]
  exact Nat.mod_lt _ (by decide)

theorem contents_bufferPopBytes {n : UInt32} (hn : n.toNat ≤ B.contents.length) :
    (bufferPopBytes B n).contents = B.contents.drop n.toNat := by
  have hr := hB.rd_lt
  have hle := contents_length_le B
  have hring : (bufferPopBytes B n).ring = B.ring.drop n.toNat := by
    have hpos : ((B.rdPos + n) % 2048).toNat = (B.rdPos.toNat + n.toNat) % bufferSize := by
      simp only [bufferSize] at hr
      simp only [UInt32.toNat_mod, UInt32.toNat_add, UInt32.reduceToNat, bufferSize]
      omega
    simp only [BufferType.ring, Ring.drop, bufferPopBytes, hpos, Nat.mod_eq_of_lt hr, Nat.mod_mod]
  unfold BufferType.contents
  rw [hring]
  apply Ring.view_drop
  rw [← Ring.view_length]
  exact hn

theorem getFromBuffer_ok (h : B.contents ≠ []) :
    getFromBuffer B = .ok (B.contents.head h, bufferPopBytes B 1) := by
  have hr := hB.rd_lt
  have hlen : 0 < B.ring.length := by
    rw [← Ring.view_length]
    exact List.length_pos_iff.mpr h
  have hhead : B.contents.head h = B.buffer[B.rdPos.toNat] := by
    rw [← List.getElem_zero_eq_head (List.length_pos_iff.mpr h)]
    simp [BufferType.contents, Ring.view, Ring.cell, BufferType.ring, Nat.mod_eq_of_lt hr]
  rw [hhead]
  simp [getFromBuffer, hr, bufferPopBytes]

end

end

end Sercd
