import Cnu680.Serial.Reception

/-! # Flow Control

With `IXOFF`, a terminal whose input buffer is full asks the other end to
stop: `rs_throttle` puts the STOP character into `x_char`, and the
transmit interrupt sends it before anything else. `rs_unthrottle` does
the same with the START character. The interrupt has to be enabled for
that, but it is the data path that enables and disables it. -/

open Framework

namespace Serial

/-! ### The transmit enable -/

/-- The transmit interrupt is enabled. -/
def Usart.Transmits (u : Usart) : Prop := Within U_THEIE u.ier

section
variable {u : Usart}

theorem transmits_txStart (h : u.useInts = true) : u.txStart.Transmits := by
  unfold Usart.txStart
  rw [if_pos h]
  exact within_or_right U_THEIE u.ier

theorem Usart.Transmits.rxStart (h : u.Transmits) : u.rxStart.Transmits := by
  unfold Usart.rxStart
  split
  · exact Within.or (Within.or h _) _
  · exact h

theorem not_transmits_txStop (u : Usart) : ¬ u.txStop.Transmits :=
  not_within_and_not (within_or_right U_THEIE 0) (by decide)

theorem not_transmits_rxStop (h : ¬ u.Transmits) : ¬ u.rxStop.Transmits := by
  intro hstop
  refine h (within_iff.mpr fun i hi => ?_)
  have hbit := within_iff.mp hstop i hi
  simp only [Usart.rxStop, UInt32.toBitVec_and, BitVec.getLsbD_and, Bool.and_eq_true] at hbit
  exact hbit.1

theorem transmits_changeSpeed (h : u.useInts = true) (t : Termios) :
    (u.changeSpeed t).Transmits := by
  unfold Usart.changeSpeed
  apply Usart.Transmits.rxStart
  apply transmits_txStart
  simpa using h

end

/-! ### Calls and interrupts -/

/-- A control character that waits to be sent is going to be sent: the
transmit interrupt is enabled, and it sends the character whatever the
ring holds and whether or not output is stopped. -/
def Port.Served (p : Port) : Prop :=
  p.xChar ≠ 0 →
    p.usart.Transmits ∧ ∀ csr, (p.rsInterruptTx csr).log = p.log ++ [.xChar p.xChar]

/-- The step leaves no control character behind. -/
def Port.KeepsServed (p : Port) : Event → Prop
  | .call .throttle =>
    p.pc = .idle → p.ixoff = true → p.termios.stopChar ≠ 0 → p.usart.Transmits
  | .call .unthrottle =>
    p.pc = .idle → p.ixoff = true → p.xChar = 0 → p.termios.startChar ≠ 0 → p.usart.Transmits
  | .call .stop => p.pc = .idle → p.xChar = 0
  | _ => True

/-- In interrupt mode, with the transmit interrupt enabled if a control
character waits. -/
structure Port.Serves (p : Port) : Prop where
  useInts : p.usart.useInts = true
  transmits : p.xChar ≠ 0 → p.usart.Transmits

section
variable {p q : Port}

theorem log_rsInterruptTx (h : p.xChar ≠ 0) (csr : List Bool) :
    (p.rsInterruptTx csr).log = p.log ++ [.xChar p.xChar] := by
  unfold Port.rsInterruptTx
  rw [if_pos h]

theorem Port.Serves.served (h : p.Serves) : p.Served :=
  fun hx => ⟨h.transmits hx, log_rsInterruptTx hx⟩

theorem Port.Serves.of_usart (h : p.Serves) (husart : q.usart = p.usart)
    (hx : q.xChar = p.xChar) : q.Serves := by
  constructor
  · rw [husart]
    exact h.useInts
  · rw [husart, hx]
    exact h.transmits

theorem Port.Serves.of_transmits (hints : p.usart.useInts = true) (h : p.usart.Transmits) :
    p.Serves := ⟨hints, fun _ => h⟩

theorem Port.Serves.of_xChar (hints : p.usart.useInts = true) (h : p.xChar = 0) : p.Serves :=
  ⟨hints, fun hx => absurd h hx⟩

theorem Port.Serves.txStart (h : p.Serves) (husart : q.usart = p.usart.txStart) : q.Serves := by
  apply Port.Serves.of_transmits
  · rw [husart, useInts_txStart]
    exact h.useInts
  · rw [husart]
    exact transmits_txStart h.useInts

theorem xChar_txLoop (n : Nat) (csr : List Bool) : (p.txLoop n csr).xChar = p.xChar :=
  Port.txLoop_kept (f := Port.xChar) (fun _ => rfl) n csr p

theorem xChar_rsInterruptTx (csr : List Bool) : (p.rsInterruptTx csr).xChar = 0 := by
  unfold Port.rsInterruptTx
  split
  · rfl
  · next hx =>
    have hzero : p.xChar = 0 := Classical.not_not.mp hx
    split
    · exact hzero
    · have hloop : (p.txLoop p.xmitFifoSize csr).xChar = 0 := (xChar_txLoop _ csr).trans hzero
      dsimp only
      split <;> exact hloop

theorem useInts_rsInterruptTx (csr : List Bool) :
    (p.rsInterruptTx csr).usart.useInts = p.usart.useInts := by
  have hloop : (p.txLoop p.xmitFifoSize csr).usart = p.usart := usart_txLoop _ csr
  unfold Port.rsInterruptTx
  split
  · rfl
  · split
    · rfl
    · dsimp only
      split
      · rw [hloop]
        rfl
      · rw [hloop]

theorem Port.Serves.proceed (h : p.Serves) : p.proceed.Serves := by
  unfold Port.proceed
  cases p.pc with
  | idle => exact h
  | userCopy data total c flags => exact h.of_usart rfl rfl
  | startTx data total flags => exact h.txStart rfl
  | userLoop data total flags | kernelLoop data total flags | poll data total flags | flushTest =>
    dsimp only
    split <;> exact h.of_usart rfl rfl
  | finish data total flags =>
    dsimp only
    split
    · split <;> exact h.of_usart rfl rfl
    · exact h.of_usart rfl rfl
  | flushSend =>
    dsimp only
    split <;> exact h.txStart rfl

theorem setControl_spec (p : Port) (cr : UInt32) :
    (p.setControl cr).usart.useInts = p.usart.useInts ∧
      (p.setControl cr).usart.ier = p.usart.ier ∧ (p.setControl cr).xChar = p.xChar := by
  unfold Port.setControl
  split <;> exact ⟨rfl, rfl, rfl⟩

theorem setControl_transmits_iff (p : Port) (cr : UInt32) :
    (p.setControl cr).usart.Transmits ↔ p.usart.Transmits := by
  unfold Usart.Transmits
  rw [(setControl_spec p cr).2.1]

theorem Port.Serves.request {x : UInt8} {cr : UInt32} (h : p.Serves)
    (hx : x ≠ 0 → p.usart.Transmits) : (Port.setControl { p with xChar := x } cr).Serves := by
  obtain ⟨hints, -, hchar⟩ := setControl_spec { p with xChar := x } cr
  refine ⟨hints.trans h.useInts, fun hne => (setControl_transmits_iff _ _).mpr (hx ?_)⟩
  rwa [hchar] at hne

theorem Port.Serves.rsSetTermios (h : p.Serves) (t : Termios) : (p.rsSetTermios t).Serves := by
  have hints : (p.usart.changeSpeed t).useInts = true := by simpa using h.useInts
  unfold Port.rsSetTermios
  dsimp only
  split
  · exact h.of_usart rfl rfl
  · split
    · refine .of_transmits ?_ ?_
      · simpa [Port.rsStart] using hints
      · exact transmits_txStart (by simpa using hints)
    · exact .of_transmits hints (transmits_changeSpeed h.useInts t)

theorem Port.Serves.call (h : p.Serves) (hidle : p.pc = .idle) {c : Call}
    (hkeeps : p.KeepsServed (.call c)) : (p.call c).Serves := by
  cases c with
  | write fromUser data =>
    show (p.rsWrite fromUser data).Serves
    unfold Port.rsWrite
    split <;> exact h.of_usart rfl rfl
  | flushChars | flushBuffer => exact h.of_usart rfl rfl
  | stop => exact .of_xChar h.useInts (hkeeps hidle)
  | start =>
    refine .of_transmits ?_ (transmits_txStart ?_)
    · simpa [Port.call, Port.rsStart] using h.useInts
    · simpa using h.useInts
  | throttle =>
    refine h.request fun hx => ?_
    split at hx
    · next hixoff => exact hkeeps hidle hixoff hx
    · exact h.transmits hx
  | unthrottle =>
    refine h.request fun hx => ?_
    split at hx
    · next hixoff =>
      split at hx
      · exact absurd rfl hx
      · next hzero => exact hkeeps hidle hixoff (Classical.not_not.mp hzero) hx
    · exact h.transmits hx
  | setTermios t => exact h.rsSetTermios t

theorem Port.Serves.step {e : Event} (h : p.Serves) (hkeeps : p.KeepsServed e)
    (hstep : p.step e = .ok q) : q.Serves := by
  unfold Port.step at hstep
  cases e with
  | call c =>
    cases hstep
    split
    · next hidle => exact h.call hidle hkeeps
    · exact h
  | proceed =>
    cases hstep
    exact h.proceed
  | interrupt csr =>
    cases hstep
    split
    · exact .of_xChar ((useInts_rsInterruptTx csr).trans h.useInts) (xChar_rsInterruptTx csr)
    · exact h
  | tty stopped hwStopped =>
    cases hstep
    exact h.of_usart rfl rfl

/-- A call that fails the condition leaves a control character that nobody is
going to send. -/
theorem stranded_of_not_keepsServed {e : Event} (hkeeps : ¬ p.KeepsServed e) :
    ∃ q, p.step e = .ok q ∧ ¬ q.Served := by
  have hcall : ∀ {c}, p.pc = .idle → p.step (.call c) = .ok (p.call c) := by
    intro c hidle
    show Except.ok (if p.pc = .idle then p.call c else p) = _
    rw [if_pos hidle]
  unfold Port.KeepsServed at hkeeps
  split at hkeeps
  · -- `rs_throttle`
    push Not at hkeeps
    obtain ⟨hidle, hixoff, hstop, htx⟩ := hkeeps
    refine ⟨_, hcall hidle, fun hserved => htx ?_⟩
    have hx : p.rsThrottle.xChar = p.termios.stopChar := by
      refine (setControl_spec _ _).2.2.trans ?_
      exact if_pos hixoff
    have henabled : (Port.setControl _ _).usart.Transmits := (hserved (hx ▸ hstop)).1
    rw [setControl_transmits_iff] at henabled
    exact henabled
  · -- `rs_unthrottle`
    push Not at hkeeps
    obtain ⟨hidle, hixoff, hzero, hstart, htx⟩ := hkeeps
    refine ⟨_, hcall hidle, fun hserved => htx ?_⟩
    have hx : p.rsUnthrottle.xChar = p.termios.startChar := by
      refine (setControl_spec _ _).2.2.trans ?_
      refine (if_pos hixoff).trans (if_neg ?_)
      exact fun hne => hne hzero
    have henabled : (Port.setControl _ _).usart.Transmits := (hserved (hx ▸ hstart)).1
    rw [setControl_transmits_iff] at henabled
    exact henabled
  · -- `rs_stop`
    push Not at hkeeps
    obtain ⟨hidle, hx⟩ := hkeeps
    refine ⟨_, hcall hidle, fun hserved => ?_⟩
    exact not_transmits_rxStop (not_transmits_txStop p.usart) (hserved hx).1
  · exact absurd trivial hkeeps

theorem opened_serves (i : Unopened) : (Port.opened i).Serves := by
  refine .of_transmits ?_ (transmits_changeSpeed rfl _)
  simp [Port.opened, Usart.startup]

end

/-- Over every run of calls and interrupts on a port that has been opened, a
control character that waits is served in every state iff `rs_throttle`
and `rs_unthrottle` put one into `x_char` only while the transmit
interrupt is enabled, and `rs_stop` is not called while one waits. -/
theorem xChar_served_iff (i : Unopened) (es : List Event) :
    Always Port.step Port.Served (Port.opened i) es ↔
      Along Port.step Port.KeepsServed (Port.opened i) es :=
  always_iff_along (fun _ _ _ h hkeeps hstep => h.step hkeeps hstep) (fun _ h => h.served)
    (fun _ _ _ hkeeps => stranded_of_not_keepsServed hkeeps) (opened_serves i)

/-- A high-speed UART with `IXOFF` set. -/
def throttling : Unopened := { highSpeed with termios := ⟨IXOFF, CS8 ||| 0xd, 0x11, 0x13⟩ }

/-- On a port that has nothing to send, the first transmit interrupt disables
itself, and the STOP character of a later `rs_throttle` is not sent. -/
theorem xChar_stranded :
    ∃ p, run Port.step (Port.opened throttling) [.interrupt [], .call .throttle] = .ok p ∧
      p.ixoff = true ∧ p.usart.useInts = true ∧ p.xChar = 0x13 ∧
      p.usart.ier &&& U_THEIE = 0 :=
  ⟨_, rfl, by decide, by decide, by decide, by decide⟩

end Serial
