import Cnu680.Sercd.Buffer

/-! # sercd: a buffer is a bounded FIFO queue

Over any sequence of operations, a `BufferType` behaves as the queue of
the bytes added to it and not yet taken out of it. The queue is defined
by what went in and what came out since the last `initBuffer`
(`History.queue`), with no reference to positions or to the array.
-/

open Framework

namespace Sercd

/-- The operations on a buffer. `pop n` is `getBufferString` followed by
`bufferPopBytes` of `n` bytes. -/
inductive BufferOp where
  | init
  | add (C : UInt8)
  | get
  | pop (n : UInt32)

/-- A buffer with what was added to it and what was taken out of it since
it was last initialised. -/
structure History where
  B : BufferType
  added : List UInt8
  popped : List UInt8

/-- The bytes that went in and did not come out. -/
def History.queue (h : History) : List UInt8 := h.added.drop h.popped.length

/-- Perform an operation if its guard holds: there is room for a byte to
add, there is a byte to get, no more is popped than is offered. -/
def BufferOp.perform (h : History) : BufferOp → Except Fault History
  | .init => .ok ⟨initBuffer h.B, [], []⟩
  | .add C =>
    if bufferHasRoomFor h.B 1 then do
      let B ← addToBuffer h.B C
      .ok { h with B := B, added := h.added ++ [C] }
    else .ok h
  | .get =>
    if isBufferEmpty h.B then .ok h
    else do
      let (C, B) ← getFromBuffer h.B
      .ok { h with B := B, popped := h.popped ++ [C] }
  | .pop n =>
    if n ≤ (getBufferString h.B).2 then
      .ok { h with B := bufferPopBytes h.B n, popped := h.popped ++ h.B.string.take n.toNat }
    else .ok h

/-- The positions are in range, and what went in is what came out followed
by what the ring holds. -/
def FifoInv (h : History) : Prop :=
  h.B.Valid ∧ h.popped ++ h.B.contents = h.added

variable {h : History}

theorem FifoInv.queue_eq (hi : FifoInv h) : h.queue = h.B.contents := by
  rw [History.queue, ← hi.2, List.drop_left]

theorem fifoInv_init (h : History) : FifoInv ⟨initBuffer h.B, [], []⟩ :=
  ⟨valid_initBuffer _, by simp⟩

theorem fifoInv_pop (hi : FifoInv h) {n : UInt32} (hn : n.toNat ≤ h.B.contents.length) :
    FifoInv { h with B := bufferPopBytes h.B n,
                     popped := h.popped ++ h.B.contents.take n.toNat } := by
  refine ⟨valid_bufferPopBytes hi.1 n, ?_⟩
  simp only [contents_bufferPopBytes hi.1 hn, List.append_assoc, List.take_append_drop]
  exact hi.2

theorem fifoInv_perform (hi : FifoInv h) (op : BufferOp) :
    ∃ h', op.perform h = .ok h' ∧ FifoInv h' := by
  match op with
  | .init => exact ⟨_, rfl, fifoInv_init h⟩
  | .add C =>
    -- without room the operation is not called, and nothing changes
    by_cases hroom : bufferHasRoomFor h.B 1 = true
    · obtain ⟨B, hadd, hv, -, hc⟩ := addToBuffer_ok hi.1 C ((bufferHasRoomFor_iff _ _).mp hroom)
      refine ⟨{ h with B := B, added := h.added ++ [C] }, ?_, hv, ?_⟩
      · simp [BufferOp.perform, hroom, hadd]
      · simp only [hc, ← List.append_assoc, hi.2]
    · exact ⟨h, by simp [BufferOp.perform, hroom], hi⟩
  | .get =>
    by_cases hempty : isBufferEmpty h.B = true
    · exact ⟨h, by simp [BufferOp.perform, hempty], hi⟩
    · have hne : h.B.contents ≠ [] := fun hnil => hempty ((isBufferEmpty_iff _).mpr hnil)
      have htake : [h.B.contents.head hne] = h.B.contents.take (1 : UInt32).toNat := by
        simp [List.take_one, List.head?_eq_some_head hne]
      refine ⟨{ h with B := bufferPopBytes h.B 1, popped := h.popped ++ [h.B.contents.head hne] },
        ?_, ?_⟩
      · simp [BufferOp.perform, hempty, getFromBuffer_ok hi.1 hne]
      · rw [htake]
        exact fifoInv_pop hi (List.length_pos_iff.mpr hne)
  | .pop n =>
    by_cases hn : n ≤ (getBufferString h.B).2
    · have hlen := UInt32.le_iff_toNat_le.mp hn
      have htake : h.B.string.take n.toNat = h.B.contents.take n.toNat := by
        rw [string_eq_take hi.1, List.take_take, Nat.min_eq_left hlen]
      refine ⟨{ h with B := bufferPopBytes h.B n, popped := h.popped ++ h.B.string.take n.toNat },
        by simp [BufferOp.perform, hn], ?_⟩
      rw [htake]
      exact fifoInv_pop hi (Nat.le_trans hlen (getBufferString_len_le hi.1))
    · exact ⟨h, by simp [BufferOp.perform, hn], hi⟩

theorem fifoInv_run (hi : FifoInv h) (ops : List BufferOp) :
    ∃ h', run BufferOp.perform h ops = .ok h' ∧ FifoInv h' := by
  induction ops generalizing h with
  | nil => exact ⟨h, rfl, hi⟩
  | cons op ops ih =>
    obtain ⟨h₁, h₁eq, hi₁⟩ := fifoInv_perform hi op
    obtain ⟨h₂, h₂eq, hi₂⟩ := ih hi₁
    exact ⟨h₂, by rw [run_cons, h₁eq, ok_bind, h₂eq], hi₂⟩

/-- **A buffer refines a bounded FIFO queue**: whatever is done to it, and
whatever it held before it was initialised, the positions stay in range,
every observer answers for the queue of at most 2047 bytes, the string
offered is the beginning of that queue, and what was popped is the
beginning of what was added. -/
theorem buffer_refines_fifo (B₀ : BufferType) (ops : List BufferOp) :
    ∃ h, run BufferOp.perform ⟨initBuffer B₀, [], []⟩ ops = .ok h ∧
      h.B.rdPos < 2048 ∧ h.B.wrPos < 2048 ∧
      h.popped <+: h.added ∧
      h.queue.length ≤ 2047 ∧
      (bufferLength h.B).toNat = h.queue.length ∧
      (bufferRoomLeft h.B).toNat = 2047 - h.queue.length ∧
      (isBufferEmpty h.B = true ↔ h.queue = []) ∧
      h.B.string <+: h.queue ∧
      (getBufferString h.B).2.toNat = h.B.string.length ∧
      (h.queue ≠ [] → h.B.string ≠ []) := by
  obtain ⟨h, heq, hi⟩ := fifoInv_run (fifoInv_init ⟨B₀, [], []⟩) ops
  -- what was added and not popped is what the ring holds
  have hq := hi.queue_eq
  refine ⟨h, heq, UInt32.lt_iff_toNat_lt.mpr hi.1.rd_lt, UInt32.lt_iff_toNat_lt.mpr hi.1.wr_lt,
    ⟨h.B.contents, hi.2⟩, ?_⟩
  rw [hq]
  refine ⟨contents_length_le _, bufferLength_toNat _, room_eq _, isBufferEmpty_iff _,
    ?_, (string_length hi.1).symm, ?_⟩
  · rw [string_eq_take hi.1]
    exact List.take_prefix _ _
  · intro hne hnil
    have hpos := getBufferString_len_pos hi.1 hne
    rw [← string_length hi.1, hnil] at hpos
    exact absurd hpos (by simp)

end Sercd
