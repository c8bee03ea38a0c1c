import Mathlib.Data.List.Forall2
import Mathlib.Logic.Function.Basic
import Cnu680.Framework.Exec
import Cnu680.Serial.Uart

/-! # The Flip Buffer

The receive interrupt puts the characters that it reads into one half of
the flip buffer of the terminal. A task that it queues passes them to the
line discipline later, and turns to the other half. -/

open Framework Function List

namespace Serial

/-! ### Status register -/

def U_RDV : UInt32 := 0x00000001
def U_BSD : UInt32 := 0x00000002
def U_FER : UInt32 := 0x00000004
def U_PER : UInt32 := 0x00000008
def U_OER : UInt32 := 0x00000010
def U_CCD : UInt32 := 0x00000020
def U_RFEMT : UInt32 := 0x00000100
def U_RFFUL : UInt32 := 0x00000200
def U_RFOV : UInt32 := 0x00000400
def U_E_RxTO : UInt32 := 0x00001000
def U_TFFUL : UInt32 := 0x00100000

/-- In the control register: send a break. -/
def U_SBR : UInt32 := 0x00000010

/-- What the UART shows to one turn of the loop: its status, and the register
that holds the next character. -/
structure Sample where
  csr : UInt32
  rhr : UInt32
  deriving DecidableEq, Repr

def Sample.byte (x : Sample) : UInt8 := (x.rhr &&& 0xff).toUInt8

/-- The receive FIFO is empty. -/
def Sample.Empty (x : Sample) : Prop := x.csr &&& U_RFEMT ≠ 0

/-- The UART says that the character is valid. -/
def Sample.Valid (x : Sample) : Prop := x.csr &&& U_RDV ≠ 0

instance (x : Sample) : Decidable x.Empty := inferInstanceAs (Decidable (_ ≠ _))

instance (x : Sample) : Decidable x.Valid := inferInstanceAs (Decidable (_ ≠ _))

/-! ### The buffer -/

def TTY_NORMAL : UInt8 := 0
def TTY_BREAK : UInt8 := 1
def TTY_FRAME : UInt8 := 2
def TTY_PARITY : UInt8 := 3
def TTY_OVERRUN : UInt8 := 4

abbrev TTY_FLIPBUF_SIZE : Nat := 512

/-- Where `flag_buf` starts, counted from `char_buf`. -/
abbrev flagBuf : Nat := 2 * TTY_FLIPBUF_SIZE

/-- `struct tty_flip_buffer`. Its memory is counted from `char_buf`; `flag_buf`
comes after it, and then what else there is in memory. Where characters and
flags have been stored since the halves were switched is kept for the
proofs. -/
structure Flip where
  mem : Nat → UInt8
  charBufPtr : Nat
  flagBufPtr : Nat
  count : Nat
  bufNum : Bool
  chars : List Nat
  flags : List Nat

namespace Flip

/-- Where the current half starts in each of the two buffers. -/
def half (f : Flip) : Nat := if f.bufNum then TTY_FLIPBUF_SIZE else 0

def putChar (f : Flip) (b : UInt8) : Flip :=
  { f with
    mem := update f.mem f.charBufPtr b
    chars := f.chars ++ [f.charBufPtr] }

def putFlag (f : Flip) (b : UInt8) : Flip :=
  { f with
    mem := update f.mem f.flagBufPtr b
    flags := f.flags ++ [f.flagBufPtr] }

def advance (f : Flip) : Flip :=
  { f with
    charBufPtr := f.charBufPtr + 1
    flagBufPtr := f.flagBufPtr + 1
    count := f.count + 1 }

/-- The characters of the current half, each with its flag. -/
def contents (f : Flip) : List (UInt8 × UInt8) :=
  (List.range f.count).map fun k => (f.mem (f.half + k), f.mem (flagBuf + f.half + k))

/-- Turn to the other half. -/
def switch (f : Flip) : Flip :=
  if f.bufNum then
    { f with
      bufNum := false, charBufPtr := 0, flagBufPtr := flagBuf, count := 0, chars := [],
      flags := [] }
  else
    { f with
      bufNum := true
      charBufPtr := TTY_FLIPBUF_SIZE
      flagBufPtr := flagBuf + TTY_FLIPBUF_SIZE
      count := 0
      chars := []
      flags := [] }

end Flip

/-! ### The receive interrupt -/

/-- What the receive interrupt works on. -/
structure Receiver where
  usart : Usart
  /-- The UART has FIFOs. -/
  fifo : Bool
  /-- There is a terminal, and `S_INITIALIZED` is set. -/
  ready : Bool
  flip : Flip
  /-- `flush_to_ldisc` is queued. -/
  queued : Bool
  /-- The status bits that have been written back, call by call. -/
  acked : List UInt32
  /-- What has been read from the UART. -/
  read : List Sample
  /-- What the line discipline has received. -/
  received : List (UInt8 × UInt8)

namespace Receiver

def rxFifoSize (r : Receiver) : Nat := if r.fifo then 32 else 1

def handleStatus (r : Receiver) (status : UInt32) : Receiver :=
  let r := { r with acked := r.acked ++ [status] }
  if status &&& U_TFFUL ≠ 0 then r
  else if status &&& U_RFFUL ≠ 0 then
    { r with usart := { r.usart with cr := r.usart.cr ||| U_SBR } }
  else r

/-- One of the bits that `rs_interrupt_Rx` looks for where a character is not
valid. -/
def report (status bit : UInt32) (flag : UInt8) (r : Receiver) : Receiver :=
  if status &&& bit ≠ 0 then handleStatus { r with flip := r.flip.putFlag flag } bit else r

def reportAll (r : Receiver) (status : UInt32) : Receiver :=
  r |> report status U_RFFUL TTY_NORMAL |> report status U_OER TTY_OVERRUN
    |> report status U_BSD TTY_BREAK |> report status U_PER TTY_PARITY
    |> report status U_FER TTY_FRAME |> report status U_CCD TTY_NORMAL

/-- Read a character and store it. -/
def store (r : Receiver) (x : Sample) : Receiver :=
  { r with flip := r.flip.putChar x.byte, read := r.read ++ [x] }

/-- The rest of a turn for a valid character. -/
def keep (r : Receiver) : Receiver := { r with flip := (r.flip.putFlag TTY_NORMAL).advance }

/-- The loop of `rs_interrupt_Rx`, with the status that it read last. -/
def rxLoop : Nat → UInt32 → List Sample → Receiver → Receiver × UInt32
  | 0, status, _, r => (r, status)
  | _ + 1, _, [], r => (r, U_RFEMT)
  | count + 1, _, x :: samples, r =>
    if x.Empty then (r, x.csr)
    else
      let r := r.store x
      if x.Valid then rxLoop count x.csr samples r.keep
      else
        -- the loop is left before the pointers move on
        (r.reportAll x.csr, x.csr)

/-- What `rs_interrupt_Rx` does with the last status. -/
def afterLoop (r : Receiver) (status : UInt32) : Receiver :=
  if r.usart.isCons then
    if status &&& U_OER ≠ 0 then { r with acked := r.acked ++ [U_OER] } else r
  else if status &&& (U_RFOV ||| U_E_RxTO) ≠ 0 then r.handleStatus (U_RFOV ||| U_E_RxTO)
  else r

def queueTask (r : Receiver) : Receiver := { r with queued := true }

/-- What `rs_interrupt_Rx` does before its loop, which it enters all the same. -/
def beforeLoop (r : Receiver) : Receiver :=
  if r.flip.count + r.rxFifoSize ≥ TTY_FLIPBUF_SIZE then r.queueTask else r

/-- The receive interrupt, with what the UART shows it. -/
def rsInterruptRx (r : Receiver) (samples : List Sample) : Receiver :=
  if r.ready then
    let (s, status) := rxLoop r.rxFifoSize 0 samples r.beforeLoop
    (s.afterLoop status).queueTask
  else r

/-- Pass the current half to the line discipline, unless `TTY_DONT_FLIP` is
set. -/
def flushToLdisc (r : Receiver) (dontFlip : Bool) : Receiver :=
  if dontFlip then r.queueTask
  else { r with flip := r.flip.switch, received := r.received ++ r.flip.contents }

inductive Event where
  | interrupt (samples : List Sample)
  /-- The task queue is run. -/
  | timer (dontFlip : Bool)
  deriving DecidableEq, Repr

def step (r : Receiver) : Event → Except Empty Receiver
  | .interrupt samples => .ok (r.rsInterruptRx samples)
  | .timer dontFlip =>
    .ok (if r.queued then flushToLdisc { r with queued := false } dontFlip else r)

/-- A port just opened, whatever its memory holds. -/
def opened (usart : Usart) (fifo : Bool) (mem : Nat → UInt8) : Receiver where
  usart := usart
  fifo := fifo
  ready := true
  flip := ⟨mem, 0, flagBuf, 0, false, [], []⟩
  queued := false
  acked := []
  read := []
  received := []

end Receiver

/-! ### What an interrupt reads -/

/-- What an interrupt reads: until the FIFO is empty, or a character is not
valid. -/
def taken : Nat → List Sample → List Sample
  | 0, _ => []
  | _ + 1, [] => []
  | count + 1, x :: samples =>
    if x.Empty then [] else if x.Valid then x :: taken count samples else [x]

/-- How many of the characters it reads stay in the buffer. -/
def kept (count : Nat) (samples : List Sample) : Nat :=
  (taken count samples).countP fun x => x.Valid

theorem taken_of_empty {x : Sample} (h : x.Empty) (count : Nat) (samples : List Sample) :
    taken (count + 1) (x :: samples) = [] := by
  simp [taken, h]

theorem taken_of_valid {x : Sample} (hne : ¬ x.Empty) (h : x.Valid) (count : Nat)
    (samples : List Sample) : taken (count + 1) (x :: samples) = x :: taken count samples := by
  simp [taken, hne, h]

theorem taken_of_invalid {x : Sample} (hne : ¬ x.Empty) (h : ¬ x.Valid) (count : Nat)
    (samples : List Sample) : taken (count + 1) (x :: samples) = [x] := by
  simp [taken, hne, h]

/-- The pointers are at the end of what the current half holds. -/
structure Flip.Aligned (f : Flip) : Prop where
  charBufPtr : f.charBufPtr = f.half + f.count
  flagBufPtr : f.flagBufPtr = flagBuf + f.half + f.count

/-- Every character and every flag has been stored in the current half. -/
def Flip.StoredInside (f : Flip) : Prop :=
  (∀ p ∈ f.chars, f.half ≤ p ∧ p < f.half + TTY_FLIPBUF_SIZE) ∧
    ∀ p ∈ f.flags, flagBuf + f.half ≤ p ∧ p < flagBuf + f.half + TTY_FLIPBUF_SIZE

theorem Flip.storedInside_putChar {f : Flip} (h : f.Aligned) (b : UInt8) :
    (f.putChar b).StoredInside ↔ f.StoredInside ∧ f.count < TTY_FLIPBUF_SIZE := by
  have hptr := h.charBufPtr
  constructor
  · rintro ⟨hchars, hflags⟩
    obtain ⟨hold, hnew⟩ := forall_mem_append.mp hchars
    have hlast := (hnew f.charBufPtr (mem_singleton_self _)).2
    change f.charBufPtr < f.half + TTY_FLIPBUF_SIZE at hlast
    exact ⟨⟨hold, hflags⟩, by omega⟩
  · rintro ⟨hstored, hroom⟩
    refine ⟨forall_mem_append.mpr ⟨hstored.1, fun p hp => ?_⟩, hstored.2⟩
    rw [mem_singleton.mp hp]
    show f.half ≤ f.charBufPtr ∧ f.charBufPtr < f.half + TTY_FLIPBUF_SIZE
    omega

theorem Flip.StoredInside.of_putFlag {f : Flip} {b : UInt8} (h : (f.putFlag b).StoredInside) :
    f.StoredInside := ⟨h.1, (forall_mem_append.mp h.2).1⟩

theorem Flip.StoredInside.putFlag {f : Flip} (h : f.StoredInside) (haligned : f.Aligned)
    (hroom : f.count < TTY_FLIPBUF_SIZE) (b : UInt8) : (f.putFlag b).StoredInside := by
  have hptr := haligned.flagBufPtr
  refine ⟨h.1, forall_mem_append.mpr ⟨h.2, fun p hp => ?_⟩⟩
  rw [mem_singleton.mp hp]
  show flagBuf + f.half ≤ f.flagBufPtr ∧ f.flagBufPtr < flagBuf + f.half + TTY_FLIPBUF_SIZE
  omega

namespace Receiver

/-! ### How far an interrupt gets -/

/-- From `r` to `r'` the characters `xs` have been read, and `n` of them stay
in the buffer. -/
structure Advanced (r r' : Receiver) (xs : List Sample) (n : Nat) : Prop where
  fifo : r'.fifo = r.fifo
  ready : r'.ready = r.ready
  charBufPtr : r'.flip.charBufPtr = r.flip.charBufPtr + n
  flagBufPtr : r'.flip.flagBufPtr = r.flip.flagBufPtr + n
  count : r'.flip.count = r.flip.count + n
  bufNum : r'.flip.bufNum = r.flip.bufNum
  read : r'.read = r.read ++ xs
  received : r'.received = r.received
  stored : r'.flip.StoredInside → r.flip.StoredInside

section
variable {r r' r'' : Receiver} {xs ys : List Sample} {n m : Nat}

theorem Advanced.refl (r : Receiver) : Advanced r r [] 0 :=
  ⟨rfl, rfl, rfl, rfl, rfl, rfl, (append_nil _).symm, rfl, fun h => h⟩

theorem Advanced.trans (h : Advanced r r' xs n) (h' : Advanced r' r'' ys m) :
    Advanced r r'' (xs ++ ys) (n + m) where
  fifo := h'.fifo.trans h.fifo
  ready := h'.ready.trans h.ready
  charBufPtr := by rw [h'.charBufPtr, h.charBufPtr, Nat.add_assoc]
  flagBufPtr := by rw [h'.flagBufPtr, h.flagBufPtr, Nat.add_assoc]
  count := by rw [h'.count, h.count, Nat.add_assoc]
  bufNum := h'.bufNum.trans h.bufNum
  read := by rw [h'.read, h.read, append_assoc]
  received := h'.received.trans h.received
  stored := fun hs => h.stored (h'.stored hs)

theorem store_advanced (r : Receiver) (x : Sample) : Advanced r (r.store x) [x] 0 :=
  ⟨rfl, rfl, rfl, rfl, rfl, rfl, rfl, rfl,
    fun h => ⟨(forall_mem_append.mp h.1).1, h.2⟩⟩

theorem keep_advanced (r : Receiver) : Advanced r r.keep [] 1 :=
  ⟨rfl, rfl, rfl, rfl, rfl, rfl, (append_nil _).symm, rfl,
    Flip.StoredInside.of_putFlag (f := r.flip) (b := TTY_NORMAL)⟩

theorem queueTask_advanced (r : Receiver) : Advanced r r.queueTask [] 0 :=
  ⟨rfl, rfl, rfl, rfl, rfl, rfl, (append_nil _).symm, rfl, fun h => h⟩

theorem handleStatus_advanced (r : Receiver) (status : UInt32) :
    Advanced r (r.handleStatus status) [] 0 := by
  unfold handleStatus
  dsimp only
  split
  · exact ⟨rfl, rfl, rfl, rfl, rfl, rfl, (append_nil _).symm, rfl, fun h => h⟩
  split <;> exact ⟨rfl, rfl, rfl, rfl, rfl, rfl, (append_nil _).symm, rfl, fun h => h⟩

theorem report_advanced (status bit : UInt32) (flag : UInt8) (r : Receiver) :
    Advanced r (report status bit flag r) [] 0 := by
  unfold report
  split
  · have hput : Advanced r { r with flip := r.flip.putFlag flag } [] 0 :=
      ⟨rfl, rfl, rfl, rfl, rfl, rfl, (append_nil _).symm, rfl, Flip.StoredInside.of_putFlag⟩
    exact hput.trans (handleStatus_advanced _ bit)
  · exact Advanced.refl r

theorem reportAll_advanced (r : Receiver) (status : UInt32) :
    Advanced r (r.reportAll status) [] 0 := by
  have hfull := report_advanced status U_RFFUL TTY_NORMAL r
  have hoverrun := hfull.trans (report_advanced status U_OER TTY_OVERRUN _)
  have hbreak := hoverrun.trans (report_advanced status U_BSD TTY_BREAK _)
  have hparity := hbreak.trans (report_advanced status U_PER TTY_PARITY _)
  have hframe := hparity.trans (report_advanced status U_FER TTY_FRAME _)
  exact hframe.trans (report_advanced status U_CCD TTY_NORMAL _)

theorem afterLoop_advanced (r : Receiver) (status : UInt32) :
    Advanced r (r.afterLoop status) [] 0 := by
  unfold afterLoop
  split
  · split
    · exact ⟨rfl, rfl, rfl, rfl, rfl, rfl, (append_nil _).symm, rfl, fun h => h⟩
    · exact Advanced.refl r
  · split
    · exact handleStatus_advanced r _
    · exact Advanced.refl r

end

theorem rxLoop_advanced (count : Nat) (status : UInt32) (samples : List Sample) (r : Receiver) :
    Advanced r (rxLoop count status samples r).1 (taken count samples) (kept count samples) := by
  fun_induction rxLoop count status samples r with
  | case1 | case2 => exact Advanced.refl _
  | case3 count _ x samples r hempty =>
    rw [kept, taken_of_empty hempty]
    exact Advanced.refl r
  | case4 count _ x samples r hne s hvalid ih =>
    have hkept : kept (count + 1) (x :: samples) = 1 + kept count samples := by
      rw [kept, taken_of_valid hne hvalid, countP_cons_of_pos (by simpa using hvalid), Nat.add_comm]
      rfl
    rw [hkept, taken_of_valid hne hvalid]
    exact ((store_advanced r x).trans (keep_advanced s)).trans ih
  | case5 count _ x samples r hne s hinvalid =>
    have hkept : kept (count + 1) (x :: samples) = 0 := by
      rw [kept, taken_of_invalid hne hinvalid]
      simp [hinvalid]
    rw [hkept, taken_of_invalid hne hinvalid]
    exact (store_advanced r x).trans (reportAll_advanced s x.csr)

theorem beforeLoop_advanced (r : Receiver) : Advanced r r.beforeLoop [] 0 := by
  unfold beforeLoop
  split
  · exact queueTask_advanced r
  · exact Advanced.refl r

/-- **Advance**: the buffer grows by the characters that an interrupt keeps,
however full it was. -/
theorem rsInterruptRx_advanced {r : Receiver} (hready : r.ready = true) (samples : List Sample) :
    Advanced r (r.rsInterruptRx samples) (taken r.rxFifoSize samples)
      (kept r.rxFifoSize samples) := by
  unfold rsInterruptRx
  rw [if_pos hready]
  have hloop := (beforeLoop_advanced r).trans (rxLoop_advanced r.rxFifoSize 0 samples r.beforeLoop)
  have hafter := hloop.trans (afterLoop_advanced _ (rxLoop r.rxFifoSize 0 samples r.beforeLoop).2)
  have hqueue := hafter.trans (queueTask_advanced _)
  simpa only [nil_append, append_nil, Nat.zero_add, Nat.add_zero] using hqueue

end Receiver

/-! ### The bound -/

/-- The buffer holds no more than it has room for, both pointers are in the
current half, or at its end, and all that was stored is in it. -/
structure Flip.Inside (f : Flip) : Prop where
  stored : f.StoredInside
  count : f.count ≤ TTY_FLIPBUF_SIZE
  charBufPtr : f.half ≤ f.charBufPtr ∧ f.charBufPtr ≤ f.half + TTY_FLIPBUF_SIZE
  flagBufPtr : flagBuf + f.half ≤ f.flagBufPtr ∧
    f.flagBufPtr ≤ flagBuf + f.half + TTY_FLIPBUF_SIZE

theorem Flip.Aligned.switch (f : Flip) : f.switch.Aligned := by
  unfold Flip.switch
  split <;> exact ⟨rfl, rfl⟩

theorem Flip.count_switch (f : Flip) : f.switch.count = 0 := by
  unfold Flip.switch
  split <;> rfl

theorem Flip.StoredInside.switch (f : Flip) : f.switch.StoredInside := by
  unfold Flip.switch
  split <;> exact ⟨fun p hp => (not_mem_nil hp).elim, fun p hp => (not_mem_nil hp).elim⟩

theorem Flip.Aligned.inside {f : Flip} (h : f.Aligned) (hstored : f.StoredInside)
    (hcount : f.count ≤ TTY_FLIPBUF_SIZE) : f.Inside where
  stored := hstored
  count := hcount
  charBufPtr := by
    rw [h.charBufPtr]
    exact ⟨Nat.le_add_right _ _, Nat.add_le_add_left hcount _⟩
  flagBufPtr := by
    rw [h.flagBufPtr]
    exact ⟨Nat.le_add_right _ _, Nat.add_le_add_left hcount _⟩

namespace Receiver

/-- There is room for every character that the interrupt reads. -/
def HasRoom (r : Receiver) : Event → Prop
  | .interrupt samples =>
    r.flip.count + (taken r.rxFifoSize samples).length ≤ TTY_FLIPBUF_SIZE
  | .timer _ => True

instance (r : Receiver) (e : Event) : Decidable (r.HasRoom e) :=
  match e with
  | .interrupt _ => inferInstanceAs (Decidable (_ ≤ _))
  | .timer _ => .isTrue trivial

/-- The state of a receiver that is in use. -/
structure Running (r : Receiver) : Prop where
  ready : r.ready = true
  aligned : r.flip.Aligned

theorem flip_handleStatus (r : Receiver) (status : UInt32) :
    (r.handleStatus status).flip = r.flip := by
  unfold handleStatus
  dsimp only
  split
  · rfl
  split <;> rfl

theorem flip_afterLoop (r : Receiver) (status : UInt32) : (r.afterLoop status).flip = r.flip := by
  unfold afterLoop
  split
  · split <;> rfl
  · split
    · exact flip_handleStatus r _
    · rfl

theorem flip_beforeLoop (r : Receiver) : r.beforeLoop.flip = r.flip := by
  unfold beforeLoop
  split <;> rfl

section
variable {r r' : Receiver} {e : Event}

theorem Running.advanced {xs : List Sample} {n : Nat} (h : r.Running)
    (hadv : Advanced r r' xs n) : r'.Running := by
  have hhalf : r'.flip.half = r.flip.half := by
    unfold Flip.half
    rw [hadv.bufNum]
  refine ⟨hadv.ready.trans h.ready, ?_, ?_⟩
  · rw [hadv.charBufPtr, hadv.count, hhalf, h.aligned.charBufPtr, Nat.add_assoc]
  · rw [hadv.flagBufPtr, hadv.count, hhalf, h.aligned.flagBufPtr, Nat.add_assoc]

/-- When the task queue is run, either nothing changes in the buffer or its
contents go to the line discipline. -/
theorem timer_cases (r : Receiver) (dontFlip : Bool) :
    ∃ r', r.step (.timer dontFlip) = .ok r' ∧ r'.ready = r.ready ∧ r'.fifo = r.fifo ∧
      r'.read = r.read ∧
      (r'.flip = r.flip ∧ r'.received = r.received ∨
        r'.flip = r.flip.switch ∧ r'.received = r.received ++ r.flip.contents) := by
  refine ⟨_, rfl, ?_⟩
  split
  · unfold flushToLdisc
    split
    · exact ⟨rfl, rfl, rfl, .inl ⟨rfl, rfl⟩⟩
    · exact ⟨rfl, rfl, rfl, .inr ⟨rfl, rfl⟩⟩
  · exact ⟨rfl, rfl, rfl, .inl ⟨rfl, rfl⟩⟩

theorem Running.step (h : r.Running) (hstep : r.step e = .ok r') : r'.Running := by
  cases e with
  | interrupt samples =>
    cases hstep
    exact h.advanced (rsInterruptRx_advanced h.ready samples)
  | timer dontFlip =>
    obtain ⟨t, ht, hready, -, -, ⟨hflip, -⟩ | ⟨hflip, -⟩⟩ := timer_cases r dontFlip
    · cases ht.symm.trans hstep
      exact ⟨hready.trans h.ready, hflip ▸ h.aligned⟩
    · cases ht.symm.trans hstep
      exact ⟨hready.trans h.ready, hflip ▸ Flip.Aligned.switch r.flip⟩

theorem report_storedInside (status bit : UInt32) (flag : UInt8)
    (h : r.Running ∧ r.flip.count < TTY_FLIPBUF_SIZE ∧ r.flip.StoredInside) :
    (report status bit flag r).Running ∧
      (report status bit flag r).flip.count < TTY_FLIPBUF_SIZE ∧
      (report status bit flag r).flip.StoredInside := by
  have hadv := report_advanced status bit flag r
  refine ⟨h.1.advanced hadv, by rw [hadv.count]; exact h.2.1, ?_⟩
  unfold report
  split
  · rw [flip_handleStatus]
    exact h.2.2.putFlag h.1.aligned h.2.1 flag
  · exact h.2.2

theorem reportAll_storedInside (status : UInt32)
    (h : r.Running ∧ r.flip.count < TTY_FLIPBUF_SIZE ∧ r.flip.StoredInside) :
    (r.reportAll status).flip.StoredInside := by
  have hfull := report_storedInside status U_RFFUL TTY_NORMAL h
  have hoverrun := report_storedInside status U_OER TTY_OVERRUN hfull
  have hbreak := report_storedInside status U_BSD TTY_BREAK hoverrun
  have hparity := report_storedInside status U_PER TTY_PARITY hbreak
  have hframe := report_storedInside status U_FER TTY_FRAME hparity
  exact (report_storedInside status U_CCD TTY_NORMAL hframe).2.2

/-- The loop stores a character, whether it is valid or not, where the last
one ended. -/
theorem storedInside_rxLoop (count : Nat) (status : UInt32) (samples : List Sample)
    (h : r.Running) :
    (rxLoop count status samples r).1.flip.StoredInside ↔
      r.flip.StoredInside ∧ (taken count samples ≠ [] →
        r.flip.count + (taken count samples).length ≤ TTY_FLIPBUF_SIZE) := by
  fun_induction rxLoop count status samples r with
  | case1 | case2 => simp [taken]
  | case3 count _ x samples r hempty => simp [taken_of_empty hempty]
  | case4 count _ x samples r hne s hvalid ih =>
    have hkeep : Advanced r s.keep [x] 1 := (store_advanced r x).trans (keep_advanced s)
    have hcount : s.keep.flip.count = r.flip.count + 1 := rfl
    have hstored : s.keep.flip.StoredInside ↔
        r.flip.StoredInside ∧ r.flip.count < TTY_FLIPBUF_SIZE := by
      rw [← Flip.storedInside_putChar h.aligned x.byte]
      refine ⟨(keep_advanced s).stored, fun hs => ?_⟩
      have hroom := ((Flip.storedInside_putChar h.aligned _).mp hs).2
      exact hs.putFlag ⟨h.aligned.charBufPtr, h.aligned.flagBufPtr⟩ hroom TTY_NORMAL
    rw [ih (h.advanced hkeep), hstored, hcount, taken_of_valid hne hvalid, length_cons, and_assoc]
    refine and_congr_right fun _ => ?_
    rw [forall_prop_of_true (cons_ne_nil x _)]
    cases taken count samples with
    | nil => exact and_iff_left fun hnil => absurd rfl hnil
    | cons y ys =>
      rw [forall_prop_of_true (cons_ne_nil y ys), length_cons]
      omega
  | case5 count _ x samples r hne s hinvalid =>
    rw [taken_of_invalid hne hinvalid, forall_prop_of_true (cons_ne_nil x [])]
    refine Iff.trans ⟨(reportAll_advanced s x.csr).stored, fun hs => ?_⟩ <|
      Flip.storedInside_putChar h.aligned x.byte
    have hroom := ((Flip.storedInside_putChar h.aligned _).mp hs).2
    exact reportAll_storedInside x.csr ⟨h.advanced (store_advanced r x), hroom, hs⟩

/-- What an interrupt stores is inside the half exactly if there is room for
all that it reads. -/
theorem storedInside_rsInterruptRx (samples : List Sample) (h : r.Running) :
    (r.rsInterruptRx samples).flip.StoredInside ↔
      r.flip.StoredInside ∧ (taken r.rxFifoSize samples ≠ [] →
        r.flip.count + (taken r.rxFifoSize samples).length ≤ TTY_FLIPBUF_SIZE) := by
  unfold rsInterruptRx
  rw [if_pos h.ready]
  show (afterLoop _ _).flip.StoredInside ↔ _
  rw [flip_afterLoop, storedInside_rxLoop _ _ _ (h.advanced (beforeLoop_advanced r)),
    flip_beforeLoop]

/-- The buffer of a receiver that is in use, as long as all of it was stored in
place. -/
structure Bounded (r : Receiver) : Prop extends Running r where
  stored : r.flip.StoredInside
  count : r.flip.count ≤ TTY_FLIPBUF_SIZE

theorem Bounded.step (h : r.Bounded) (hroom : r.HasRoom e)
    (hstep : r.step e = .ok r') : r'.Bounded := by
  have hrunning := h.toRunning.step hstep
  cases e with
  | interrupt samples =>
    cases hstep
    have hstored := storedInside_rsInterruptRx samples h.toRunning
    refine ⟨hrunning, hstored.mpr ⟨h.stored, fun _ => hroom⟩, ?_⟩
    rw [(rsInterruptRx_advanced h.ready samples).count]
    exact Nat.le_trans (Nat.add_le_add_left countP_le_length _) hroom
  | timer dontFlip =>
    obtain ⟨t, ht, -, -, -, ⟨hflip, -⟩ | ⟨hflip, -⟩⟩ := timer_cases r dontFlip
    · cases ht.symm.trans hstep
      exact ⟨hrunning, hflip ▸ h.stored, hflip ▸ h.count⟩
    · cases ht.symm.trans hstep
      refine ⟨hrunning, hflip ▸ Flip.StoredInside.switch r.flip, ?_⟩
      rw [hflip, Flip.count_switch]
      exact Nat.zero_le _

/-- An interrupt whose characters do not fit stores them all the same. -/
theorem overflows_of_not_hasRoom (h : r.Bounded) (hroom : ¬ r.HasRoom e) :
    ∃ r', r.step e = .ok r' ∧ ¬ r'.flip.Inside := by
  cases e with
  | interrupt samples =>
    refine ⟨_, rfl, fun hinside => hroom ?_⟩
    have hstored := ((storedInside_rsInterruptRx samples h.toRunning).mp hinside.stored).2
    by_cases hnil : taken r.rxFifoSize samples = []
    · show r.flip.count + (taken r.rxFifoSize samples).length ≤ TTY_FLIPBUF_SIZE
      rw [hnil]
      exact h.count
    · exact hstored hnil
  | timer dontFlip => exact absurd trivial hroom

end

theorem opened_running (usart : Usart) (fifo : Bool) (mem : Nat → UInt8) :
    (opened usart fifo mem).Running := ⟨rfl, rfl, rfl⟩

/-- Over every run of receive interrupts and of the task queue, the flip
buffer holds no more than `TTY_FLIPBUF_SIZE` characters, its pointers stay
in the current half and nothing is stored outside of it iff every
interrupt finds room for the characters that it reads. -/
theorem flip_inside_iff (usart : Usart) (fifo : Bool) (mem : Nat → UInt8) (es : List Event) :
    Always step (fun r => r.flip.Inside) (opened usart fifo mem) es ↔
      Along step HasRoom (opened usart fifo mem) es := by
  refine always_iff_along (J := Bounded) (fun _ _ _ h hroom hstep => h.step hroom hstep)
    (fun _ h => h.aligned.inside h.stored h.count)
    (fun _ _ h hroom => overflows_of_not_hasRoom h hroom) ⟨opened_running usart fifo mem, ?_, ?_⟩
  · exact ⟨fun p hp => (List.not_mem_nil hp).elim, fun p hp => (List.not_mem_nil hp).elim⟩
  · exact Nat.zero_le _

/-- A receive FIFO of 32 valid characters. -/
def fullFifo : List Sample := List.replicate 32 ⟨U_RDV, 0x41⟩

/-- When the task queue is not run for 17 interrupts with a full FIFO, the
buffer holds 544 characters. -/
theorem flip_overflows :
    ∃ r, run step (opened ⟨0, 0, 0, 0, false, true⟩ true fun _ => 0)
        (List.replicate 17 (.interrupt fullFifo)) = .ok r ∧
      r.flip.count = 544 ∧ TTY_FLIPBUF_SIZE < 544 :=
  ⟨_, rfl, by decide +kernel, by decide⟩

end Receiver

/-! ### The characters -/

/-- The status of a character that was not received as it was sent. -/
def U_ERRORS : UInt32 := U_OER ||| U_BSD ||| U_PER ||| U_FER

/-- The character `c.1` with the flag `c.2` is what the line discipline should
get for the sample. -/
def Sample.Matches (x : Sample) (c : UInt8 × UInt8) : Prop :=
  c.1 = x.byte ∧
    (c.2 = TTY_NORMAL ∧ x.csr &&& U_ERRORS = 0 ∨ c.2 = TTY_OVERRUN ∧ x.csr &&& U_OER ≠ 0 ∨
      c.2 = TTY_BREAK ∧ x.csr &&& U_BSD ≠ 0 ∨ c.2 = TTY_PARITY ∧ x.csr &&& U_PER ≠ 0 ∨
      c.2 = TTY_FRAME ∧ x.csr &&& U_FER ≠ 0)

theorem Sample.matches_normal_iff (x : Sample) :
    x.Matches (x.byte, TTY_NORMAL) ↔ x.csr &&& U_ERRORS = 0 := by
  constructor
  · rintro ⟨-, ⟨-, h⟩ | ⟨h, -⟩ | ⟨h, -⟩ | ⟨h, -⟩ | ⟨h, -⟩⟩
    · exact h
    -- the other flags are not `TTY_NORMAL`
    all_goals exact absurd (show TTY_NORMAL = _ from h) (by decide)
  · intro h
    exact ⟨rfl, .inl ⟨rfl, h⟩⟩

namespace Flip
variable {f : Flip}

theorem length_contents (f : Flip) : f.contents.length = f.count := by
  simp [contents]

theorem contents_switch (f : Flip) : f.switch.contents = [] :=
  eq_nil_of_length_eq_zero ((length_contents _).trans f.count_switch)

theorem half_le (f : Flip) : f.half ≤ TTY_FLIPBUF_SIZE := by
  unfold half
  split
  · exact Nat.le_refl _
  · exact Nat.zero_le _

/-- A character and its flag, stored where there is room, come after the
others. -/
theorem contents_append (h : f.Aligned) (hroom : f.count < TTY_FLIPBUF_SIZE) (b flag : UInt8) :
    ((f.putChar b).putFlag flag).advance.contents = f.contents ++ [(b, flag)] := by
  have hsize : TTY_FLIPBUF_SIZE = 512 ∧ flagBuf = 1024 := ⟨rfl, rfl⟩
  have hhalf := f.half_le
  have hchar := h.charBufPtr
  have hflag := h.flagBufPtr
  -- none of the cells in use is one of the two that are written
  have hold : ∀ k < f.count, ((f.putChar b).putFlag flag).mem (f.half + k) = f.mem (f.half + k) ∧
      ((f.putChar b).putFlag flag).mem (flagBuf + f.half + k) = f.mem (flagBuf + f.half + k) := by
    intro k hk
    constructor
    · refine (update_of_ne ?_ _ _).trans (update_of_ne ?_ _ _)
      · show f.half + k ≠ f.flagBufPtr
        omega
      · omega
    · refine (update_of_ne ?_ _ _).trans (update_of_ne ?_ _ _)
      · show flagBuf + f.half + k ≠ f.flagBufPtr
        omega
      · omega
  have hnew : ((f.putChar b).putFlag flag).mem (f.half + f.count) = b ∧
      ((f.putChar b).putFlag flag).mem (flagBuf + f.half + f.count) = flag := by
    rw [← hchar, ← hflag]
    constructor
    · refine (update_of_ne ?_ _ _).trans (update_self _ _ _)
      show f.charBufPtr ≠ f.flagBufPtr
      omega
    · exact update_self _ _ _
  show (List.range (f.count + 1)).map (fun k =>
    (((f.putChar b).putFlag flag).mem (f.half + k),
      ((f.putChar b).putFlag flag).mem (flagBuf + f.half + k))) = _
  rw [range_succ, map_append, map_singleton, hnew.1, hnew.2]
  congr 1
  refine map_congr_left fun k hk => ?_
  rw [(hold k (mem_range.mp hk)).1, (hold k (mem_range.mp hk)).2]

end Flip

namespace Receiver

/-- All that the interrupt reads is valid and without an error. -/
def Clean (r : Receiver) : Event → Prop
  | .interrupt samples =>
    ∀ x ∈ taken r.rxFifoSize samples, x.Valid ∧ x.csr &&& U_ERRORS = 0
  | .timer _ => True

instance (r : Receiver) (e : Event) : Decidable (r.Clean e) :=
  match e with
  | .interrupt samples =>
    inferInstanceAs (Decidable (∀ x ∈ taken r.rxFifoSize samples, x.Valid ∧ x.csr &&& U_ERRORS = 0))
  | .timer _ => .isTrue trivial

/-- What has been read, in order, is what the line discipline has got
together with what the buffer holds. -/
def Delivered (r : Receiver) : Prop :=
  List.Forall₂ Sample.Matches r.read (r.received ++ r.flip.contents)

section
variable {r r' : Receiver} {samples : List Sample}

/-- Valid characters all end up in the buffer, as if without an error. -/
theorem contents_rxLoop {count : Nat} (status : UInt32) (h : r.Running)
    (hroom : r.flip.count + (taken count samples).length ≤ TTY_FLIPBUF_SIZE)
    (hvalid : ∀ x ∈ taken count samples, x.Valid) :
    (rxLoop count status samples r).1.flip.contents =
      r.flip.contents ++ (taken count samples).map fun x => (x.byte, TTY_NORMAL) := by
  fun_induction rxLoop count status samples r with
  | case1 | case2 => exact (append_nil _).symm
  | case3 count _ x samples r hempty =>
    rw [taken_of_empty hempty]
    exact (append_nil _).symm
  | case4 count _ x samples r hne s hx ih =>
    rw [taken_of_valid hne hx] at hroom hvalid ⊢
    have hkeep : Advanced r s.keep [x] 1 := (store_advanced r x).trans (keep_advanced s)
    have hcount : s.keep.flip.count = r.flip.count + 1 := rfl
    rw [length_cons] at hroom
    have hcontents : s.keep.flip.contents = r.flip.contents ++ [(x.byte, TTY_NORMAL)] :=
      Flip.contents_append h.aligned (by omega) _ _
    rw [ih (h.advanced hkeep) (by omega) fun y hy => hvalid y (mem_cons_of_mem x hy),
      hcontents, append_assoc]
    rfl
  | case5 count _ x samples r hne s hinvalid =>
    rw [taken_of_invalid hne hinvalid] at hvalid
    exact absurd (hvalid x (mem_singleton_self x)) hinvalid

theorem contents_rsInterruptRx (h : r.Running) (hroom : r.HasRoom (.interrupt samples))
    (hvalid : ∀ x ∈ taken r.rxFifoSize samples, x.Valid) :
    (r.rsInterruptRx samples).flip.contents =
      r.flip.contents ++ (taken r.rxFifoSize samples).map fun x => (x.byte, TTY_NORMAL) := by
  have hbefore : r.beforeLoop.Running := h.advanced (beforeLoop_advanced r)
  have hflip := flip_beforeLoop r
  unfold rsInterruptRx
  rw [if_pos h.ready]
  show (afterLoop _ _).flip.contents = _
  rw [flip_afterLoop, contents_rxLoop 0 hbefore (by rw [hflip]; exact hroom) hvalid, hflip]

theorem forall₂_map_normal {xs : List Sample} :
    List.Forall₂ Sample.Matches xs (xs.map fun x => (x.byte, TTY_NORMAL)) ↔
      ∀ x ∈ xs, x.csr &&& U_ERRORS = 0 := by
  rw [forall₂_map_right_iff, forall₂_same]
  exact forall₂_congr fun x _ => x.matches_normal_iff

theorem Delivered.step {e : Event} (h : r.Running) (hdel : r.Delivered) (hroom : r.HasRoom e)
    (hclean : r.Clean e) (hstep : r.step e = .ok r') : r'.Delivered := by
  cases e with
  | interrupt samples =>
    cases hstep
    have hadv := rsInterruptRx_advanced h.ready samples
    unfold Delivered
    rw [hadv.read, hadv.received,
      contents_rsInterruptRx h hroom fun x hx => (hclean x hx).1, ← append_assoc]
    exact rel_append hdel (forall₂_map_normal.mpr fun x hx => (hclean x hx).2)
  | timer dontFlip =>
    obtain ⟨t, ht, -, -, hread, ⟨hflip, hrec⟩ | ⟨hflip, hrec⟩⟩ := timer_cases r dontFlip
    · cases ht.symm.trans hstep
      unfold Delivered
      rw [hread, hflip, hrec]
      exact hdel
    · cases ht.symm.trans hstep
      unfold Delivered
      rw [hread, hflip, hrec, Flip.contents_switch, append_nil]
      exact hdel

theorem Delivered.length (h : r.Delivered) : r.read.length = r.received.length + r.flip.count := by
  have hlength := List.Forall₂.length_eq h
  rwa [length_append, Flip.length_contents] at hlength

/-- An interrupt that reads a character with an error, or one that is not
valid, loses it or hides the error. -/
theorem not_delivered_of_not_clean {e : Event} (h : r.Running) (hdel : r.Delivered)
    (hroom : r.HasRoom e) (hclean : ¬ r.Clean e) : ∃ r', r.step e = .ok r' ∧ ¬ r'.Delivered := by
  cases e with
  | timer dontFlip => exact absurd trivial hclean
  | interrupt samples =>
    refine ⟨_, rfl, fun hdel' => hclean ?_⟩
    have hadv := rsInterruptRx_advanced h.ready samples
    -- as many characters are kept as are read
    have hvalid : ∀ x ∈ taken r.rxFifoSize samples, x.Valid := by
      have hlen := hdel'.length
      rw [hadv.read, hadv.received, hadv.count, length_append, hdel.length] at hlen
      have hkept : kept r.rxFifoSize samples = (taken r.rxFifoSize samples).length := by omega
      intro x hx
      exact of_decide_eq_true (countP_eq_length.mp hkept x hx)
    have hall : List.Forall₂ Sample.Matches (taken r.rxFifoSize samples)
        ((taken r.rxFifoSize samples).map fun x => (x.byte, TTY_NORMAL)) := by
      unfold Delivered at hdel'
      rw [hadv.read, hadv.received, contents_rsInterruptRx h hroom hvalid, ← append_assoc] at hdel'
      have hdrop := forall₂_drop r.read.length hdel'
      rwa [drop_left, List.Forall₂.length_eq hdel, drop_left] at hdrop
    exact fun x hx => ⟨hvalid x hx, forall₂_map_normal.mp hall x hx⟩

end

/-- Over every run of receive interrupts that find room in the flip buffer,
and of the task queue, every character that is read gets to the line
discipline once, in order and with its flag, iff every character comes
with `U_RDV` and without an error. -/
theorem delivered_iff (usart : Usart) (fifo : Bool) (mem : Nat → UInt8) (es : List Event)
    (hroom : Along step HasRoom (opened usart fifo mem) es) :
    Always step Delivered (opened usart fifo mem) es ↔
      Along step Clean (opened usart fifo mem) es :=
  always_iff_along_where (J := fun r => r.Running ∧ r.Delivered) (P := Delivered)
    (fun _ _ _ hJ hroom hclean hstep =>
      ⟨hJ.1.step hstep, Delivered.step hJ.1 hJ.2 hroom hclean hstep⟩)
    (fun _ hJ => hJ.2)
    (fun _ _ hJ hroom hclean => not_delivered_of_not_clean hJ.1 hJ.2 hroom hclean)
    ⟨opened_running usart fifo mem, List.Forall₂.nil⟩ hroom

theorem delivered_two :
    Along step HasRoom (opened ⟨0, 0, 0, 0, false, true⟩ true fun _ => 0)
        [.interrupt [⟨U_RDV, 0x41⟩, ⟨U_RDV, 0x42⟩], .timer false] ∧
      Always step Delivered (opened ⟨0, 0, 0, 0, false, true⟩ true fun _ => 0)
        [.interrupt [⟨U_RDV, 0x41⟩, ⟨U_RDV, 0x42⟩], .timer false] := by
  refine ⟨by decide, (delivered_iff _ _ _ _ (by decide)).mpr (by decide)⟩

/-- A character with a parity error is read and stored, and the next one is
stored in its place. -/
theorem parity_error_lost :
    ∃ r, run step (opened ⟨0, 0, 0, 0, false, true⟩ true fun _ => 0)
        [.interrupt [⟨U_PER, 0x41⟩], .interrupt [⟨U_RDV, 0x42⟩], .timer false] = .ok r ∧
      r.read = [⟨U_PER, 0x41⟩, ⟨U_RDV, 0x42⟩] ∧ r.received = [(0x42, TTY_NORMAL)] :=
  ⟨_, rfl, by decide, by decide⟩

end Receiver

end Serial
