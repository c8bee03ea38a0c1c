import Cnu680.Net.RxRing

/-! # The Buffers of the Device

`s3c2510_open` allocates the two blocks of frame descriptors and an skb
for every receive descriptor. When an allocation fails, what has been
allocated is freed again: by `SetupRxFDs` for its own skbs, and by
`release_buffers` for everything. -/

open Framework

namespace S3c2510

def ENOMEM : Int := 12
def S3C2510_SUCCESS : Int := 0

/-- The memory of the device. Blocks are numbered as they are allocated. -/
structure Buffers where
  rxFd : Option Nat
  txFd : Option Nat
  txFrCtl : Vector (Option Nat) TX_NUM_FD
  rxFrCtl : Vector (Option Nat) RX_NUM_FD
  /-- The number of blocks allocated so far. -/
  allocated : Nat
  /-- The blocks freed so far. -/
  freed : List Nat
  /-- The hardware and its interrupts are started. -/
  hwStarted : Bool
  queueStarted : Bool

/-- What the allocator answers to a call of `s3c2510_open`. -/
structure Answers where
  rxFd : Bool
  skb : Fin RX_NUM_FD → Bool
  txFd : Bool

/-- One of the allocations fails. -/
def Answers.Fails (a : Answers) : Prop :=
  a.rxFd = false ∨ (∃ i, a.skb i = false) ∨ a.txFd = false

inductive BufferFault where
  /-- An access outside of `rxFrCtl`. -/
  | outside
  deriving DecidableEq, Repr

namespace Buffers

/-! ### The code -/

def allocSkb (b : Buffers) (i : Fin RX_NUM_FD) : Buffers :=
  { b with
    rxFrCtl := put b.rxFrCtl i (some b.allocated)
    allocated := b.allocated + 1 }

/-- The loop of `SetupRxFDs`, with the descriptor at which it fails. -/
def fillRx (skb : Fin RX_NUM_FD → Bool) :
    List (Fin RX_NUM_FD) → Buffers → Buffers × Option (Fin RX_NUM_FD)
  | [], b => (b, none)
  | i :: is, b => if skb i then fillRx skb is (b.allocSkb i) else (b, some i)

def freeSkb (b : Buffers) (i : Fin RX_NUM_FD) : Buffers :=
  { b with
    rxFrCtl := put b.rxFrCtl i none
    freed := b.freed ++ (b.rxFrCtl.get i).toList }

/-- `for(; --i >= 0;)`. The index has no sign: after 0 comes the largest
number there is. -/
def unwind : Nat → Buffers → Except BufferFault Buffers
  | 0, _ => .error .outside
  | i + 1, b => if h : i < RX_NUM_FD then unwind i (b.freeSkb ⟨i, h⟩) else .error .outside

/-- Whether it succeeds comes with the memory. -/
def setupRxFDs (b : Buffers) (a : Answers) : Except BufferFault (Buffers × Bool) :=
  match b.fillRx a.skb (List.finRange RX_NUM_FD) with
  | (b, none) => .ok (b, true)
  | (b, some i) => (unwind i b).map fun b => (b, false)

def setupTxFDs (b : Buffers) : Buffers := { b with txFrCtl := Vector.replicate TX_NUM_FD none }

def removeSkbInHW (b : Buffers) : Buffers :=
  { b with
    txFrCtl := (sweep b.txFrCtl).1
    rxFrCtl := (sweep b.rxFrCtl).1
    freed := b.freed ++ (sweep b.txFrCtl).2 ++ (sweep b.rxFrCtl).2 }

def releaseBuffers (b : Buffers) : Buffers :=
  { b.removeSkbInHW with
    rxFd := none
    txFd := none
    freed := b.removeSkbInHW.freed ++ b.rxFd.toList ++ b.txFd.toList }

def allocRxFd (b : Buffers) : Buffers :=
  { b with rxFd := some b.allocated, allocated := b.allocated + 1 }

def allocTxFd (b : Buffers) : Buffers :=
  { b with txFd := some b.allocated, allocated := b.allocated + 1 }

def allocateBuffers (b : Buffers) (a : Answers) : Except BufferFault (Buffers × Int) :=
  if a.rxFd then do
    let (b, success) ← b.allocRxFd.setupRxFDs a
    if success then
      if a.txFd then .ok (b.allocTxFd.setupTxFDs, 0)
      else .ok (releaseBuffers { b with txFd := none }, -ENOMEM)
    else .ok (b.releaseBuffers, -ENOMEM)
  else .ok (releaseBuffers { b with rxFd := none }, -ENOMEM)

/-- `hw_start` to `netif_start_queue`. -/
def start (b : Buffers) : Buffers := { b with hwStarted := true, queueStarted := true }

/-- The memory and the result of `s3c2510_open`, which does not look at the
result of `allocate_buffers`. -/
def s3c2510Open (b : Buffers) (a : Answers) : Except BufferFault (Buffers × Int) := do
  let (b, _) ← b.allocateBuffers a
  .ok (b.start, S3C2510_SUCCESS)

/-! ### Accounts -/

/-- The blocks that the device holds. -/
def held (b : Buffers) : List Nat :=
  b.rxFd.toList ++ b.txFd.toList ++ b.txFrCtl.toList.filterMap id ++ b.rxFrCtl.toList.filterMap id

/-- Before the device is opened it holds nothing. -/
structure Closed (b : Buffers) : Prop where
  rxFd : b.rxFd = none
  txFd : b.txFd = none
  txFrCtl : ∀ i, b.txFrCtl.get i = none
  rxFrCtl : ∀ i, b.rxFrCtl.get i = none

/-- The blocks that have been allocated from `b₀` to `b`. -/
def since (b₀ b : Buffers) : List Nat := List.range' b₀.allocated (b.allocated - b₀.allocated)

/-- Every block that has been allocated since `b₀` is either held or has been
freed, once. -/
structure Accounts (b₀ b : Buffers) : Prop where
  le : b₀.allocated ≤ b.allocated
  perm : (b.freed ++ b.held).Perm (b₀.freed ++ since b₀ b)

section
variable {b₀ b b' : Buffers} {skb : Fin RX_NUM_FD → Bool}

theorem held_closed (h : b.Closed) : b.held = [] := by
  unfold held
  rw [h.rxFd, h.txFd, contents_of_empty h.txFrCtl, contents_of_empty h.rxFrCtl]
  rfl

theorem Accounts.refl (h : b.Closed) : Accounts b b := by
  refine ⟨Nat.le_refl _, ?_⟩
  rw [held_closed h, since, Nat.sub_self]
  exact List.Perm.refl _

theorem Accounts.alloc (h : Accounts b₀ b) (hnext : b'.allocated = b.allocated + 1)
    (hfreed : b'.freed = b.freed) (hheld : b'.held.Perm (b.allocated :: b.held)) :
    Accounts b₀ b' := by
  have hle := h.le
  have hsince : since b₀ b' = since b₀ b ++ [b.allocated] := by
    unfold since
    rw [hnext, Nat.succ_sub hle, List.range'_concat]
    congr 2
    omega
  refine ⟨by omega, ?_⟩
  rw [hfreed, hsince, ← List.append_assoc]
  calc (b.freed ++ b'.held).Perm (b.freed ++ b.allocated :: b.held) := hheld.append_left _
    List.Perm _ (b.allocated :: (b.freed ++ b.held)) := List.perm_middle
    List.Perm _ (b.allocated :: (b₀.freed ++ since b₀ b)) := h.perm.cons _
    List.Perm _ _ := (List.perm_append_singleton _ _).symm

theorem Accounts.allocRxFd (h : Accounts b₀ b) (hnone : b.rxFd = none) :
    Accounts b₀ b.allocRxFd := by
  refine h.alloc rfl rfl ?_
  simp [held, Buffers.allocRxFd, hnone]

theorem Accounts.allocSkb (h : Accounts b₀ b) {i : Fin RX_NUM_FD}
    (hnone : b.rxFrCtl.get i = none) : Accounts b₀ (b.allocSkb i) := by
  refine h.alloc rfl rfl ?_
  have hput := contents_put_some hnone b.allocated
  exact (hput.append_left _).trans List.perm_middle

theorem Accounts.fillRx {is : List (Fin RX_NUM_FD)} (h : Accounts b₀ b)
    (hnone : ∀ i ∈ is, b.rxFrCtl.get i = none) (hnodup : is.Nodup) :
    Accounts b₀ (b.fillRx skb is).1 := by
  induction is generalizing b with
  | nil => exact h
  | cons i is ih =>
    obtain ⟨hi, hnodup⟩ := List.nodup_cons.mp hnodup
    unfold Buffers.fillRx
    split
    · apply ih (h.allocSkb (hnone i List.mem_cons_self)) _ hnodup
      intro j hj
      have hij : i ≠ j := fun hij => hi (hij ▸ hj)
      exact (get_put_ne _ hij _).trans (hnone j (List.mem_cons_of_mem i hj))
    · exact h

theorem txFd_fillRx (is : List (Fin RX_NUM_FD)) : (b.fillRx skb is).1.txFd = b.txFd := by
  induction is generalizing b with
  | nil => rfl
  | cons i is ih =>
    unfold Buffers.fillRx
    split
    · exact ih
    · rfl

/-- `release_buffers` frees all that is held. -/
theorem freed_releaseBuffers (b : Buffers) : b.releaseBuffers.freed.Perm (b.freed ++ b.held) := by
  have htx := sweep_perm b.txFrCtl
  have hrx := sweep_perm b.rxFrCtl
  rw [List.perm_iff_count]
  intro id
  have hcounttx := htx.count_eq id
  have hcountrx := hrx.count_eq id
  simp only [releaseBuffers, removeSkbInHW, held, List.count_append]
  omega

theorem closed_releaseBuffers (b : Buffers) : b.releaseBuffers.Closed := by
  unfold releaseBuffers removeSkbInHW
  constructor
  · dsimp only
  · dsimp only
  · dsimp only
    exact fun i => get_sweep b.txFrCtl i
  · dsimp only
    exact fun i => get_sweep b.rxFrCtl i

theorem Accounts.release (h : Accounts b₀ b) :
    b.releaseBuffers.freed.Perm (b₀.freed ++ since b₀ b.releaseBuffers) := by
  have hallocated : b.releaseBuffers.allocated = b.allocated := by
    unfold releaseBuffers removeSkbInHW
    dsimp only
  have hperm := (freed_releaseBuffers b).trans h.perm
  rwa [since, ← hallocated] at hperm

end

/-! ### A failed allocation -/

section
variable {b : Buffers} {a : Answers} {alloc : Fin RX_NUM_FD → Option UInt32}
  {skb : Fin RX_NUM_FD → Bool} {is : List (Fin RX_NUM_FD)}

theorem fillRx_complete (h : ∀ i ∈ is, skb i = true) : (b.fillRx skb is).2 = none := by
  induction is generalizing b with
  | nil => rfl
  | cons i is ih =>
    unfold fillRx
    rw [if_pos (h i List.mem_cons_self)]
    exact ih fun j hj => h j (List.mem_cons_of_mem i hj)

theorem fillRx_fails (h : ∃ i ∈ is, skb i = false) : ∃ j, (b.fillRx skb is).2 = some j := by
  induction is generalizing b with
  | nil =>
    obtain ⟨i, hi, -⟩ := h
    exact absurd hi List.not_mem_nil
  | cons i is ih =>
    unfold fillRx
    split
    · next hi =>
      apply ih
      obtain ⟨j, hj, hfalse⟩ := h
      rcases List.mem_cons.mp hj with rfl | hmem
      · exact absurd (hi.symm.trans hfalse) (by decide)
      · exact ⟨j, hmem, hfalse⟩
    · exact ⟨i, rfl⟩

/-- The loop that frees the skbs of `SetupRxFDs` does not end with the first
of them. -/
theorem unwind_outside (i : Nat) (b : Buffers) : unwind i b = .error .outside := by
  induction i generalizing b with
  | zero => rfl
  | succ i ih =>
    unfold unwind
    split
    · exact ih _
    · rfl

theorem setupRxFDs_complete (h : ∀ i, a.skb i = true) :
    b.setupRxFDs a = .ok ((b.fillRx a.skb (List.finRange RX_NUM_FD)).1, true) := by
  have hfill : (b.fillRx a.skb (List.finRange RX_NUM_FD)).2 = none :=
    fillRx_complete fun i _ => h i
  unfold setupRxFDs
  split
  · next b' heq => rw [heq]
  · next b' i heq =>
    rw [heq] at hfill
    cases hfill

theorem setupRxFDs_fails (h : ∃ i, a.skb i = false) : b.setupRxFDs a = .error .outside := by
  obtain ⟨i, hi⟩ := h
  obtain ⟨j, hfill⟩ : ∃ j, (b.fillRx a.skb (List.finRange RX_NUM_FD)).2 = some j :=
    fillRx_fails ⟨i, List.mem_finRange i, hi⟩
  unfold setupRxFDs
  split
  · next b' heq =>
    rw [heq] at hfill
    cases hfill
  · next b' k heq =>
    rw [unwind_outside]
    rfl

theorem run_setupFD_eq_error (s : RxMac) (is : List (Fin RX_NUM_FD)) :
    run (RxMac.setupFD alloc) s is = .error .wildFree ↔ ∃ i ∈ is, alloc i = none := by
  induction is generalizing s with
  | nil => simp
  | cons i is ih =>
    rw [run_cons, List.exists_mem_cons_iff]
    cases hi : alloc i with
    | none => simp [RxMac.setupFD, hi, bind_eq_error]
    | some data => simpa [RxMac.setupFD, hi] using ih _

/-- The receive ring of `RxMac` is not set up in exactly the cases in which
the cleanup leaves the array here. -/
theorem setupRxFDs_outside_iff (hskb : ∀ i, a.skb i = (alloc i).isSome) :
    b.setupRxFDs a = .error .outside ↔ S3c2510.setupRxFDs alloc = .error .wildFree := by
  have hring : S3c2510.setupRxFDs alloc = .error .wildFree ↔ ∃ i, a.skb i = false := by
    rw [S3c2510.setupRxFDs, run_setupFD_eq_error]
    simp [hskb]
  rw [hring]
  constructor
  · intro h
    by_contra hnot
    have hall : ∀ i, a.skb i = true := fun i =>
      Bool.eq_true_of_not_eq_false fun hi => hnot ⟨i, hi⟩
    rw [setupRxFDs_complete hall] at h
    cases h
  · exact setupRxFDs_fails

/-- After a failure of `SetupRxFDs` nothing is returned. -/
theorem open_of_skb_failure (hrx : a.rxFd = true) (h : ∃ i, a.skb i = false) :
    b.s3c2510Open a = .error .outside := by
  unfold s3c2510Open allocateBuffers
  rw [if_pos hrx, setupRxFDs_fails h]
  rfl

theorem allocateBuffers_of_fd_failure (hclosed : b.Closed)
    (h : a.rxFd = false ∨ (∀ i, a.skb i = true) ∧ a.txFd = false) :
    ∃ b', b.allocateBuffers a = .ok (b', -ENOMEM) ∧ b'.Closed ∧
      b'.freed.Perm (b.freed ++ since b b') := by
  unfold allocateBuffers
  have hreflexive := Accounts.refl hclosed
  split
  · next hrx =>
    rcases h with hrx' | ⟨hskb, htx⟩
    · exact absurd (hrx.symm.trans hrx') (by decide)
    · have hfilled : Accounts b (b.allocRxFd.fillRx a.skb (List.finRange RX_NUM_FD)).1 :=
        (hreflexive.allocRxFd hclosed.rxFd).fillRx (fun i _ => hclosed.rxFrCtl i)
          (List.nodup_finRange RX_NUM_FD)
      have htxFd : (b.allocRxFd.fillRx a.skb (List.finRange RX_NUM_FD)).1.txFd = none :=
        (txFd_fillRx _).trans hclosed.txFd
      rw [setupRxFDs_complete hskb, ok_bind]
      dsimp only
      rw [if_pos rfl, htx, if_neg Bool.false_ne_true, ← htxFd]
      exact ⟨_, rfl, closed_releaseBuffers _, hfilled.release⟩
  · rw [← hclosed.rxFd]
    exact ⟨_, rfl, closed_releaseBuffers _, hreflexive.release⟩

theorem open_eq_start {b' : Buffers} {ret : Int} (h : b.allocateBuffers a = .ok (b', ret)) :
    b.s3c2510Open a = .ok (b'.start, S3C2510_SUCCESS) := by
  unfold s3c2510Open
  rw [h]
  rfl

end

/-- The device is not opened, and the memory that the call allocated is freed
once. -/
def FailsCleanly (b : Buffers) (a : Answers) : Prop :=
  ∃ b' ret, b.s3c2510Open a = .ok (b', ret) ∧ ret ≠ S3C2510_SUCCESS ∧
    b'.hwStarted = b.hwStarted ∧ b'.queueStarted = b.queueStarted ∧
    b'.freed.Perm (b.freed ++ since b b')

/-- When an allocation fails, `s3c2510_open` never fails cleanly. If it is an
skb, the cleanup leaves the array. If it is a block of descriptors, the
cleanup frees every block once, and then the device is started without
any memory. -/
theorem open_never_fails_cleanly (b : Buffers) (a : Answers) (hclosed : b.Closed)
    (hfails : a.Fails) :
    ¬ b.FailsCleanly a ∧
      ((a.rxFd = true ∧ ∃ i, a.skb i = false) ∧ b.s3c2510Open a = .error .outside ∨
        ∃ b', b.allocateBuffers a = .ok (b', -ENOMEM) ∧ b'.Closed ∧
          b'.freed.Perm (b.freed ++ since b b') ∧
          b.s3c2510Open a = .ok (b'.start, S3C2510_SUCCESS)) := by
  by_cases hskb : a.rxFd = true ∧ ∃ i, a.skb i = false
  · have hopen : b.s3c2510Open a = .error .outside := open_of_skb_failure hskb.1 hskb.2
    refine ⟨?_, .inl ⟨hskb, hopen⟩⟩
    rintro ⟨b', ret, hok, -⟩
    rw [hopen] at hok
    cases hok
  · have hfd : a.rxFd = false ∨ (∀ i, a.skb i = true) ∧ a.txFd = false := by
      cases hrx : a.rxFd with
      | false => exact .inl rfl
      | true =>
        have hall : ∀ i, a.skb i = true := fun i =>
          Bool.eq_true_of_not_eq_false fun hi => hskb ⟨hrx, i, hi⟩
        rcases hfails with h | ⟨i, hi⟩ | h
        · exact absurd (hrx.symm.trans h) (by decide)
        · exact absurd ((hall i).symm.trans hi) (by decide)
        · exact .inr ⟨hall, h⟩
    obtain ⟨b', halloc, hclosed', hperm⟩ := allocateBuffers_of_fd_failure hclosed hfd
    have hopen := open_eq_start halloc
    refine ⟨?_, .inr ⟨b', halloc, hclosed', hperm, hopen⟩⟩
    rintro ⟨b'', ret, hok, hret, -⟩
    rw [hopen] at hok
    cases hok
    exact hret rfl

/-- A device that has not been opened yet. -/
def initial : Buffers where
  rxFd := none
  txFd := none
  txFrCtl := Vector.replicate TX_NUM_FD none
  rxFrCtl := Vector.replicate RX_NUM_FD none
  allocated := 0
  freed := []
  hwStarted := false
  queueStarted := false

theorem closed_initial : initial.Closed :=
  ⟨rfl, rfl, fun i => Vector.getElem_replicate i.isLt, fun i => Vector.getElem_replicate i.isLt⟩

theorem open_never_fails_cleanly_fourth :
    initial.Closed ∧ ¬ initial.FailsCleanly ⟨true, fun i => i ≠ 3, true⟩ :=
  ⟨closed_initial, (open_never_fails_cleanly initial ⟨true, fun i => i ≠ 3, true⟩ closed_initial
    (.inr (.inl ⟨3, rfl⟩))).1⟩

/-- The fourth skb cannot be allocated, and the cleanup leaves the array. The
transmit descriptors cannot be allocated, and the device is started
without descriptors. -/
theorem open_ignores_failure :
    initial.s3c2510Open ⟨true, fun i => i ≠ 3, true⟩ = .error .outside ∧
      ∃ b, initial.s3c2510Open ⟨true, fun _ => true, false⟩ = .ok (b, S3C2510_SUCCESS) ∧
        b.hwStarted = true ∧ b.queueStarted = true ∧ b.rxFd = none ∧ b.txFd = none :=
  ⟨rfl, _, rfl, rfl, rfl, rfl, rfl⟩

end Buffers

end S3c2510
