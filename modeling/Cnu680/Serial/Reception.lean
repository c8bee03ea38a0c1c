import Cnu680.Framework.Words
import Cnu680.Serial.Port

/-! # Reception

The receive interrupts are enabled by `rx_start` and disabled by
`rx_stop`, which many functions of the driver call. All of them enable
the interrupts again, apart from `rs_stop`: a terminal that stops its
output stops its input with it. -/

open Framework

namespace Serial

/-! ### The receive enables -/

/-- What `rx_start` enables. -/
def Usart.rxEnables (u : Usart) : UInt32 :=
  u.rxData ||| (U_BSDIE ||| U_FERIE ||| U_PERIE ||| U_OERIE)

/-- The receive interrupts are enabled. -/
def Usart.Receives (u : Usart) : Prop := Within u.rxEnables u.ier

instance (u : Usart) : Decidable u.Receives := inferInstanceAs (Decidable (Within _ _))

def Port.Receives (p : Port) : Prop := p.usart.Receives

section
variable {u v : Usart}

theorem theie_and_rxEnables (u : Usart) : U_THEIE &&& u.rxEnables = 0 := by
  unfold Usart.rxEnables Usart.rxData
  cases u.isCons <;> decide

theorem rxEnables_congr (h : v.isCons = u.isCons) : v.rxEnables = u.rxEnables := by
  unfold Usart.rxEnables Usart.rxData
  rw [h]

theorem Usart.Receives.congr (h : u.Receives) (hcons : v.isCons = u.isCons)
    (hier : v.ier = u.ier) : v.Receives := by
  unfold Usart.Receives at h ⊢
  rw [rxEnables_congr hcons, hier]
  exact h

theorem isCons_txStart : u.txStart.isCons = u.isCons := by
  unfold Usart.txStart
  split <;> rfl

theorem Usart.Receives.txStart (h : u.Receives) : u.txStart.Receives := by
  have henables : u.txStart.rxEnables = u.rxEnables := rxEnables_congr isCons_txStart
  unfold Usart.Receives at h ⊢
  rw [henables]
  unfold Usart.txStart
  split
  · exact h.or U_THEIE
  · exact h

theorem Usart.Receives.txStop (h : u.Receives) : u.txStop.Receives :=
  Within.and_not h (theie_and_rxEnables u)

theorem receives_rxStart (h : u.useInts = true) : u.rxStart.Receives := by
  unfold Usart.rxStart
  rw [if_pos h]
  show Within u.rxEnables (u.ier ||| u.rxData ||| (U_BSDIE ||| U_FERIE ||| U_PERIE ||| U_OERIE))
  rw [UInt32.or_assoc]
  exact within_or_right u.rxEnables u.ier

theorem receives_changeSpeed (h : u.useInts = true) (t : Termios) : (u.changeSpeed t).Receives := by
  unfold Usart.changeSpeed
  apply receives_rxStart
  simpa using h

theorem not_receives_rxStop (u : Usart) : ¬ u.rxStop.Receives := by
  have hdata : u.rxData ≠ 0 := by
    unfold Usart.rxData
    cases u.isCons <;> decide
  have hwithin : Within u.rxData u.rxEnables := by
    unfold Usart.rxEnables Usart.rxData
    cases u.isCons <;> decide
  exact not_within_and_not hwithin hdata

end

/-! ### Calls and interrupts -/

/-- The step is not a call of `rs_stop`. -/
def Port.KeepsReceiver (p : Port) (e : Event) : Prop := ¬ (e = .call .stop ∧ p.pc = .idle)

/-- In interrupt mode, with the receive interrupts enabled. -/
structure Port.Listens (p : Port) : Prop where
  useInts : p.usart.useInts = true
  receives : p.Receives

section
variable {p q : Port}

theorem Port.Listens.of_usart (h : p.Listens) (husart : q.usart = p.usart) : q.Listens := by
  constructor
  · rw [husart]
    exact h.useInts
  · unfold Port.Receives
    rw [husart]
    exact h.receives

theorem Port.Listens.txStart (h : p.Listens) (husart : q.usart = p.usart.txStart) : q.Listens := by
  constructor
  · rw [husart, useInts_txStart]
    exact h.useInts
  · unfold Port.Receives
    rw [husart]
    exact h.receives.txStart

theorem Port.Listens.txStop (h : p.Listens) (husart : q.usart = p.usart.txStop) : q.Listens := by
  constructor
  · rw [husart]
    exact h.useInts
  · unfold Port.Receives
    rw [husart]
    exact h.receives.txStop

theorem usart_txLoop (n : Nat) (csr : List Bool) : (p.txLoop n csr).usart = p.usart :=
  Port.txLoop_kept (f := Port.usart) (fun _ => rfl) n csr p

theorem Port.Listens.rsInterruptTx (h : p.Listens) (csr : List Bool) :
    (p.rsInterruptTx csr).Listens := by
  unfold Port.rsInterruptTx
  split
  · exact h.of_usart rfl
  · split
    · exact h.txStop rfl
    · have hloop := h.of_usart (usart_txLoop p.xmitFifoSize csr)
      dsimp only
      split
      · exact hloop.txStop rfl
      · exact hloop

theorem Port.Listens.proceed (h : p.Listens) : p.proceed.Listens := by
  unfold Port.proceed
  match p.pc with
  | .idle => exact h
  | .userCopy data total c flags => exact h.of_usart rfl
  | .startTx data total flags => exact h.txStart rfl
  | .userLoop _ _ _ | .kernelLoop _ _ _ | .poll _ _ _ | .flushTest =>
    dsimp only
    split <;> exact h.of_usart rfl
  | .finish data total flags =>
    dsimp only
    split
    · split <;> exact h.of_usart rfl
    · exact h.of_usart rfl
  | .flushSend =>
    dsimp only
    split <;> exact h.txStart rfl

theorem Port.Listens.setControl (h : p.Listens) (cr : UInt32) : (p.setControl cr).Listens := by
  unfold Port.setControl
  split
  · exact ⟨h.useInts, h.receives.congr rfl rfl⟩
  · exact h

theorem Port.Listens.rsStart (h : p.usart.useInts = true) : p.rsStart.Listens := by
  constructor
  · simpa [Port.rsStart] using h
  · exact (receives_rxStart h).txStart

theorem Port.Listens.rsSetTermios (h : p.Listens) (t : Termios) : (p.rsSetTermios t).Listens := by
  have hints : (p.usart.changeSpeed t).useInts = true := by simpa using h.useInts
  unfold Port.rsSetTermios
  dsimp only
  split
  · exact h.of_usart rfl
  · split
    · exact .rsStart hints
    · exact ⟨hints, receives_changeSpeed h.useInts t⟩

theorem Port.Listens.call (h : p.Listens) {c : Call} (hc : c ≠ .stop) : (p.call c).Listens := by
  match c with
  | .write fromUser data =>
    show (p.rsWrite fromUser data).Listens
    unfold Port.rsWrite
    split <;> exact h.of_usart rfl
  | .flushChars | .flushBuffer => exact h.of_usart rfl
  | .stop => exact absurd rfl hc
  | .start => exact .rsStart h.useInts
  | .throttle | .unthrottle =>
    show (Port.setControl _ _).Listens
    apply Port.Listens.setControl
    exact h.of_usart rfl
  | .setTermios t => exact h.rsSetTermios t

theorem Port.Listens.step {e : Event} (h : p.Listens) (hkeeps : p.KeepsReceiver e)
    (hstep : p.step e = .ok q) : q.Listens := by
  unfold Port.step at hstep
  match e with
  | .call c =>
    cases hstep
    split
    · next hidle =>
      apply h.call
      rintro rfl
      exact hkeeps ⟨rfl, hidle⟩
    · exact h
  | .proceed =>
    cases hstep
    exact h.proceed
  | .interrupt csr =>
    cases hstep
    split
    · exact h.rsInterruptTx csr
    · exact h
  | .tty stopped hwStopped =>
    cases hstep
    exact h.of_usart rfl

theorem stop_ends_reception {e : Event} (hstop : ¬ p.KeepsReceiver e) :
    ∃ q, p.step e = .ok q ∧ ¬ q.Receives := by
  obtain ⟨rfl, hidle⟩ := Classical.not_not.mp hstop
  refine ⟨p.rsStop, ?_, not_receives_rxStop _⟩
  show Except.ok (if p.pc = .idle then p.call .stop else p) = _
  rw [if_pos hidle]
  rfl

theorem opened_listens (i : Unopened) : (Port.opened i).Listens := by
  constructor
  · simp [Port.opened, Usart.startup]
  · exact receives_changeSpeed rfl _

end

/-- Over every run of calls and interrupts on a port that has been opened, the
receive interrupts are enabled in every state iff `rs_stop` is not called. -/
theorem reception_enabled_iff (i : Unopened) (es : List Event) :
    Always Port.step Port.Receives (Port.opened i) es ↔
      Along Port.step Port.KeepsReceiver (Port.opened i) es :=
  always_iff_along (fun _ _ _ h hkeeps hstep => h.step hkeeps hstep) (fun _ h => h.receives)
    (fun _ _ _ hstop => stop_ends_reception hstop) (opened_listens i)

/-- After one `rs_stop`, a UART that was opened with its two receive interrupts
enabled has neither of them. -/
theorem reception_stopped :
    (Port.opened highSpeed).usart.ier &&& (U_RFREA ||| U_E_RxTOIE) = U_RFREA ||| U_E_RxTOIE ∧
    ∃ p, run Port.step (Port.opened highSpeed) [.tty true false, .call .stop] = .ok p ∧
      p.usart.ier &&& (U_RFREA ||| U_E_RxTOIE) = 0 := by
  constructor
  · decide
  · exact ⟨_, rfl, by decide⟩

end Serial
