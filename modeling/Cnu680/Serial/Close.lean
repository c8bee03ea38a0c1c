import Cnu680.Serial.FlowControl

/-! # Closing a Port

`rs_close` waits until the transmit ring is empty, and then throws away
what is left in it. Before it waits it masks the interrupts of the port,
so that the ring does not get any emptier. -/

open Framework

namespace Serial

def S_CLOSING_WAIT_INF : UInt16 := 0
def S_CLOSING_WAIT_NONE : UInt16 := 65535

/-- Why `tty_wait_until_sent` returns. -/
inductive Outcome where
  | drained
  | timedOut
  | interrupted
  deriving DecidableEq, Repr

/-- Where `rs_close` is. -/
inductive ClosePc where
  | entry
  /-- `tty_wait_until_sent`, at the top of its loop. -/
  | check
  /-- `tty_wait_until_sent`, in `schedule_timeout`. -/
  | asleep
  /-- After the wait, if there was one. -/
  | waited (outcome : Option Outcome)
  /-- The port is shut down and its buffer flushed. -/
  | flushed
  /-- There was nothing to close, or another file is still open. -/
  | left
  deriving DecidableEq, Repr

/-- A port that is being closed. -/
structure Closing where
  port : Port
  /-- The interrupt controller masks the two interrupts of the port. -/
  masked : Bool
  /-- `info->count` and `tty->count`. -/
  count : Int
  ttyCount : Int
  hungUp : Bool
  closingWait : UInt16
  /-- The time that is left to wait, if there is a limit. -/
  timeout : Option Nat
  pc : ClosePc

namespace Closing

def setIntsMode (l : Closing) (yes : Bool) : Closing :=
  { l with
    port := { l.port with usart := { l.port.usart with useInts := yes } }
    masked := !yes }

/-- What is left of `info->count`. -/
def remaining (l : Closing) : Int :=
  let count := if l.ttyCount = 1 ∧ l.count ≠ 1 then 1 else l.count
  if count - 1 < 0 then 0 else count - 1

/-- `rs_close` up to the loop of `tty_wait_until_sent`. -/
def enter (l : Closing) : Closing :=
  if l.hungUp then { l with pc := .left }
  else
    let l := { l with count := l.remaining }
    if l.count ≠ 0 then { l with pc := .left }
    else
      let l := l.setIntsMode false
      if l.closingWait = S_CLOSING_WAIT_NONE then { l with pc := .waited none }
      else
        { l with
          timeout := if l.closingWait = S_CLOSING_WAIT_INF then none
            else some l.closingWait.toNat
          pc := .check }

/-- `shutdown` and `rs_flush_buffer`. -/
def flush (l : Closing) : Closing :=
  { l with
    port := Port.rsFlushBuffer { l.port with usart := l.port.usart.txStop.rxStop }
    pc := .flushed }

inductive Event where
  /-- `rs_close` goes on. Whether a signal is pending matters to the wait. -/
  | proceed (signal : Bool)
  /-- `schedule_timeout` returns the time that is left. -/
  | wake (left : Nat)
  /-- The transmitter is empty. -/
  | interrupt (csr : List Bool)
  deriving DecidableEq, Repr

/-- An interrupt can come before `rs_close` disables interrupts, and while it
sleeps. -/
def Interruptible (l : Closing) : Prop := l.pc = .entry ∧ l.port.irq = true ∨ l.pc = .asleep

instance (l : Closing) : Decidable l.Interruptible := inferInstanceAs (Decidable (_ ∨ _))

instance (u : Usart) : Decidable u.Transmits := inferInstanceAs (Decidable (Within _ _))

def proceed (l : Closing) (signal : Bool) : Closing :=
  match l.pc with
  | .entry => l.enter
  | .check =>
    if signal then { l with pc := .waited (some .interrupted) }
    else if l.port.xmitCnt = 0 then { l with pc := .waited (some .drained) }
    else { l with pc := .asleep }
  | .waited _ => l.flush
  | .asleep | .flushed | .left => l

def wake (l : Closing) (left : Nat) : Closing :=
  if l.pc = .asleep then
    match l.timeout with
    | none => { l with pc := .check }
    | some _ =>
      if left = 0 then { l with pc := .waited (some .timedOut) }
      else { l with timeout := some left, pc := .check }
  else l

def interrupt (l : Closing) (csr : List Bool) : Closing :=
  if l.Interruptible ∧ l.masked = false ∧ l.port.usart.Transmits then
    { l with port := l.port.rsInterruptTx csr }
  else l

def step (l : Closing) : Event → Except Empty Closing
  | .proceed signal => .ok (l.proceed signal)
  | .wake left => .ok (l.wake left)
  | .interrupt csr => .ok (l.interrupt csr)

/-- Until the wait is over, the transmit interrupt is enabled as long as the
ring holds anything. -/
def Serving (l : Closing) : Prop :=
  l.pc = .entry ∨ l.pc = .check ∨ l.pc = .asleep → 0 < l.port.xmitCnt →
    l.masked = false ∧ l.port.usart.Transmits

/-- This is the last file that is closed. -/
structure Last (l : Closing) : Prop where
  hungUp : l.hungUp = false
  remaining : l.remaining = 0

/-! ### An empty ring -/

section
variable {l l' : Closing}

theorem xmitCnt_enter (l : Closing) : l.enter.port.xmitCnt = l.port.xmitCnt := by
  unfold enter
  split
  · rfl
  dsimp only
  split
  · rfl
  split <;> rfl

theorem xmitCnt_rsInterruptTx {p : Port} (h : p.xmitCnt ≤ 0) (csr : List Bool) :
    (p.rsInterruptTx csr).xmitCnt = p.xmitCnt := by
  unfold Port.rsInterruptTx
  split
  · rfl
  · rw [if_pos (.inl h)]

theorem xmitCnt_step {e : Event} (h : l.port.xmitCnt ≤ 0) (hstep : l.step e = .ok l') :
    l'.port.xmitCnt ≤ 0 := by
  cases e with
  | proceed signal =>
    cases hstep
    unfold proceed
    cases l.pc with
    | entry =>
      rw [xmitCnt_enter]
      exact h
    | check =>
      dsimp only
      split
      · exact h
      split <;> exact h
    | waited outcome => exact Int.le_refl 0
    | asleep => exact h
    | flushed => exact h
    | left => exact h
  | wake left =>
    cases hstep
    unfold wake
    split
    · split
      · exact h
      · split <;> exact h
    · exact h
  | interrupt csr =>
    cases hstep
    unfold interrupt
    split
    · show (l.port.rsInterruptTx csr).xmitCnt ≤ 0
      rw [xmitCnt_rsInterruptTx h]
      exact h
    · exact h

/-! ### The wait -/

theorem enter_waits (hlast : l.Last) (hwait : l.closingWait ≠ S_CLOSING_WAIT_NONE) :
    l.enter.pc = .check ∧ l.enter.masked = true ∧ l.enter.port.xmitCnt = l.port.xmitCnt ∧
      l.enter.port.log = l.port.log := by
  have hnothung : ¬ l.hungUp = true := Bool.eq_false_iff.mp hlast.hungUp
  have hne : (setIntsMode { l with count := l.remaining } false).closingWait ≠
    S_CLOSING_WAIT_NONE := hwait
  unfold enter
  rw [if_neg hnothung]
  dsimp only
  rw [if_neg (fun h => h hlast.remaining), if_neg hne]
  exact ⟨rfl, rfl, rfl, rfl⟩

/-- With the interrupts masked and `n` bytes in the ring, `rs_close` waits,
or has given up waiting, or has thrown the bytes away. -/
inductive Stuck (n : Int) (log : List Entry) (l : Closing) : Prop where
  | waiting (hmasked : l.masked = true) (hcnt : l.port.xmitCnt = n) (hlog : l.port.log = log)
      (hpc : l.pc = .check ∨ l.pc = .asleep)
  | givenUp (hmasked : l.masked = true) (hcnt : l.port.xmitCnt = n) (hlog : l.port.log = log)
      (hpc : l.pc = .waited (some .timedOut) ∨ l.pc = .waited (some .interrupted))
  | thrownAway (hmasked : l.masked = true) (hlog : l.port.log = log ++ [.discarded])
      (hpc : l.pc = .flushed)

variable {n : Int} {log : List Entry}

theorem Stuck.masked (h : Stuck n log l) : l.masked = true := by
  cases h with
  | waiting hmasked | givenUp hmasked | thrownAway hmasked => exact hmasked

theorem Stuck.proceed (hn : n ≠ 0) (h : Stuck n log l) (signal : Bool) :
    Stuck n log (l.proceed signal) := by
  unfold Closing.proceed
  cases h with
  | waiting hmasked hcnt hlog hpc =>
    rcases hpc with hpc | hpc
    · rw [hpc]
      dsimp only
      split
      · exact .givenUp hmasked hcnt hlog (.inr rfl)
      · rw [if_neg (hcnt ▸ hn)]
        exact .waiting hmasked hcnt hlog (.inr rfl)
    · rw [hpc]
      exact .waiting hmasked hcnt hlog (.inr hpc)
  | givenUp hmasked hcnt hlog hpc =>
    have hflush : Stuck n log l.flush := by
      refine .thrownAway hmasked ?_ rfl
      show l.port.log ++ [.discarded] = _
      rw [hlog]
    rcases hpc with hpc | hpc
    · rw [hpc]
      exact hflush
    · rw [hpc]
      exact hflush
  | thrownAway hmasked hlog hpc =>
    rw [hpc]
    exact .thrownAway hmasked hlog hpc

theorem Stuck.wake (h : Stuck n log l) (left : Nat) : Stuck n log (l.wake left) := by
  unfold Closing.wake
  split
  · next hasleep =>
    cases h with
    | waiting hmasked hcnt hlog hpc =>
      split
      · exact .waiting hmasked hcnt hlog (.inl rfl)
      · split
        · exact .givenUp hmasked hcnt hlog (.inl rfl)
        · exact .waiting hmasked hcnt hlog (.inl rfl)
    | givenUp hmasked hcnt hlog hpc =>
      rcases hpc with hpc | hpc
      · exact absurd (hpc.symm.trans hasleep) (by decide)
      · exact absurd (hpc.symm.trans hasleep) (by decide)
    | thrownAway hmasked hlog hpc => exact absurd (hpc.symm.trans hasleep) (by decide)
  · exact h

theorem Stuck.step {e : Event} (hn : n ≠ 0) (h : Stuck n log l) (hstep : l.step e = .ok l') :
    Stuck n log l' := by
  cases e with
  | proceed signal =>
    cases hstep
    exact h.proceed hn signal
  | wake left =>
    cases hstep
    exact h.wake left
  | interrupt csr =>
    cases hstep
    have hmasked := h.masked
    unfold Closing.interrupt
    rw [if_neg fun hc => Bool.false_ne_true (hc.2.1.symm.trans hmasked)]
    exact h

end

/-- From the entry of the last `rs_close` until the end of its wait, however
it goes on, the transmit interrupt stays enabled while the ring holds
anything iff the ring is empty at the entry. -/
theorem close_serves_iff (l : Closing) (hentry : l.pc = .entry) (hlast : l.Last)
    (hwait : l.closingWait ≠ S_CLOSING_WAIT_NONE) :
    (∀ es, Always step Serving l es) ↔ l.port.xmitCnt ≤ 0 := by
  constructor
  · intro h
    by_contra hne
    have hproceed : l.step (.proceed false) = .ok l.enter := by
      show Except.ok (l.proceed false) = _
      unfold proceed
      rw [hentry]
    obtain ⟨hpc, hmasked, hcnt, -⟩ := enter_waits hlast hwait
    have hserving : l.enter.Serving := (h [.proceed false]).2 _ hproceed
    have hopen := (hserving (.inr (.inl hpc)) (by omega)).1
    exact Bool.false_ne_true (hopen.symm.trans hmasked)
  · intro h es
    refine (always_iff_along (J := fun l => l.port.xmitCnt ≤ 0) (C := fun _ _ => True)
      (fun _ _ _ hJ _ hstep => xmitCnt_step hJ hstep) (fun _ hJ _ hpos => ?_)
      (fun _ _ _ hn => absurd trivial hn) h).mpr (along_true l es)
    exact absurd hpos (Int.not_lt.mpr hJ)

/-- A port with nothing in its ring, about to be closed. -/
def idleLine : Closing where
  port := Port.opened highSpeed
  masked := false
  count := 1
  ttyCount := 1
  hungUp := false
  closingWait := 3000
  timeout := none
  pc := .entry

theorem close_serves_idle :
    idleLine.Last ∧ idleLine.closingWait ≠ S_CLOSING_WAIT_NONE ∧
      ∀ es, Always step Serving idleLine es :=
  ⟨⟨rfl, rfl⟩, by decide,
    (close_serves_iff idleLine rfl ⟨rfl, rfl⟩ (by decide)).mpr (by decide)⟩

/-- A byte that is in the ring at `rs_close` is still there when the wait has
timed out, with the transmitter empty all the time, and is thrown away. -/
theorem close_loses_byte :
    ∃ p, run Port.step (Port.opened highSpeed)
        [.call (.write false [0x41]), .proceed, .proceed, .proceed, .proceed, .proceed] = .ok p ∧
      p.pc = .idle ∧ p.xmitCnt = 1 ∧ p.usart.Transmits ∧
      ∃ l, run step { idleLine with port := p }
          [.proceed false, .proceed false, .interrupt [], .wake 0, .proceed false] = .ok l ∧
        l.pc = .flushed ∧
        l.port.log = [.accepted [0x41], .reported [0x41], .discarded] :=
  ⟨_, rfl, by decide, by decide, by decide, _, rfl, by decide, by decide⟩

/-- After the last `rs_close` has masked the interrupts, no byte of the ring
is sent: the wait never ends because the ring is empty, and the bytes are
thrown away after it. -/
theorem close_throws_away {l t : Closing} (hlast : l.Last)
    (hwait : l.closingWait ≠ S_CLOSING_WAIT_NONE) (hne : 0 < l.port.xmitCnt) {es : List Event}
    (hrun : run step l.enter es = .ok t) : Stuck l.port.xmitCnt l.port.log t := by
  obtain ⟨hpc, hmasked, hcnt, hlog⟩ := enter_waits hlast hwait
  have hn : l.port.xmitCnt ≠ 0 := by omega
  exact run_invariant (fun _ _ _ h hstep => h.step hn hstep)
    (.waiting hmasked hcnt hlog (.inl hpc)) hrun

theorem close_throws_away_byte :
    ∃ p t, run Port.step (Port.opened highSpeed)
        [.call (.write false [0x41]), .proceed, .proceed, .proceed, .proceed, .proceed] = .ok p ∧
      run step (enter { idleLine with port := p })
        [.proceed false, .interrupt [], .wake 0, .proceed false] = .ok t ∧
      t.pc = .flushed ∧ Stuck 1 [.accepted [0x41], .reported [0x41]] t := by
  obtain ⟨p, t, hp, ht, hpc, hcnt, hlog⟩ : ∃ p t, run Port.step (Port.opened highSpeed)
        [.call (.write false [0x41]), .proceed, .proceed, .proceed, .proceed, .proceed] = .ok p ∧
      run step (enter { idleLine with port := p })
        [.proceed false, .interrupt [], .wake 0, .proceed false] = .ok t ∧
      t.pc = .flushed ∧ p.xmitCnt = 1 ∧ p.log = [.accepted [0x41], .reported [0x41]] :=
    ⟨_, _, rfl, rfl, by decide, by decide, by decide⟩
  refine ⟨p, t, hp, ht, hpc, ?_⟩
  rw [← hcnt, ← hlog]
  exact close_throws_away (l := { idleLine with port := p }) ⟨rfl, rfl⟩
    (show idleLine.closingWait ≠ _ by decide) (show 0 < p.xmitCnt by omega) ht

end Closing

end Serial
