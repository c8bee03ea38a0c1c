import Cnu680.Net.TxRing

/-! # Waking the Transmit Queue

`send_packet` stops the queue when its slot is taken, and leaves it to
the interrupt handler `s3c2510_Tx` to wake it. The handler acknowledges
all of `BMTXSTAT` and then wakes the queue if the `TxComp` it has read
finds the queue stopped. The poll routine frees skbs and wakes nothing.

A wakeup is lost if the queue is stopped when nothing is left that would
raise `TxComp`: the BDMA owns no descriptor, and the last completion has
been acknowledged while the queue was still running. -/

open Framework

namespace S3c2510

/-! ### The interrupt -/

/-- The bits of `BMTXSTAT` that the driver looks at. -/
structure BmTxStat where
  txComp : Bool
  btxEmpty : Bool
  deriving DecidableEq, Repr

/-- `writel(status, BMTXSTAT)` clears the bits written. -/
def BmTxStat.write (stat status : BmTxStat) : BmTxStat :=
  ⟨stat.txComp && !status.txComp, stat.btxEmpty && !status.btxEmpty⟩

/-- The next statement of `s3c2510_Tx`. -/
inductive TxHandler where
  | idle
  /-- `writel(status, BMTXSTAT)` -/
  | ack (status : BmTxStat)
  /-- `if ((status & TxComp) && netif_queue_stopped(dev))` -/
  | test (status : BmTxStat)
  /-- `tx_done_check(dev, txFd, txFrCtl)` -/
  | reap
  /-- `writel(temp & ~TxCompIE, BMTXINTEN)` -/
  | disable
  /-- `netif_wake_queue(dev)` -/
  | wake
  deriving DecidableEq, Repr

/-- The transmit side with its interrupt. While the interface is up,
`BTxEmptyIE` is enabled in `BMTXINTEN`, and `TxCompIE` if `txCompIE`. -/
structure Nic where
  mac : Mac
  bmTxStat : BmTxStat
  handler : TxHandler

/-- A pending bit is enabled. -/
def Nic.irq (s : Nic) : Bool :=
  s.bmTxStat.txComp && s.mac.txCompIE || s.bmTxStat.btxEmpty

/-- A step of the part of the driver that `Mac` models. -/
def Nic.macStep (s : Nic) (e : Event) : Except Fault Nic :=
  (s.mac.step e).map fun mac => { s with mac := mac }

/-- A statement of `s3c2510_Tx`. The iterations of its `tx_done_check` are
statements of their own. -/
def Nic.handlerStep (s : Nic) : Except Fault Nic :=
  match s.handler with
  | .idle => .ok s
  | .ack status => .ok { s with bmTxStat := s.bmTxStat.write status, handler := .test status }
  | .test status =>
    .ok (if status.txComp ∧ s.mac.stopped then
      { s with mac := { s.mac with check := some s.mac.txDone }, handler := .reap }
      else { s with handler := .idle })
  | .reap =>
    match s.mac.check with
    | none => .ok { s with handler := .disable }
    | some _ => s.macStep .checkStep
  | .disable => .ok { s with mac := { s.mac with txCompIE := false }, handler := .wake }
  | .wake => .ok { s with mac := { s.mac with stopped := false }, handler := .idle }

inductive NicEvent where
  /-- The network layer fills in an skb. -/
  | fill (skb : Nat) (v : Skb)
  | sendPacket (skb : Nat)
  | sendStep
  /-- The BDMA completes a descriptor. -/
  | complete (status : UInt32)
  /-- The BDMA finds that it does not own its next descriptor. -/
  | empty
  | interrupt
  | handlerStep
  /-- The poll routine calls `tx_done_check`. -/
  | poll
  | pollStep

/-- One step. The handler is not interrupted by the driver, and the poll
routine, which runs with interrupts disabled, not by the handler; both
interrupt `send_packet` between any two of its statements. What cannot
happen in a state does nothing. -/
def Nic.step (s : Nic) : NicEvent → Except Fault Nic
  | .fill skb v => s.macStep (.fill skb v)
  | .sendPacket skb => if s.handler = .idle then s.macStep (.sendPacket skb) else .ok s
  | .sendStep => if s.handler = .idle then s.macStep .sendStep else .ok s
  | .complete status =>
    if (s.mac.txFd.get s.mac.btxbdcnt).owned then
      (s.macStep (.complete status)).map fun t =>
        { t with bmTxStat := { t.bmTxStat with txComp := true } }
    else .ok s
  | .empty =>
    .ok (if (s.mac.txFd.get s.mac.btxbdcnt).owned then s
      else { s with bmTxStat := { s.bmTxStat with btxEmpty := true } })
  | .interrupt =>
    .ok (if s.irq ∧ s.handler = .idle ∧ s.mac.check = none then
      { s with handler := .ack s.bmTxStat } else s)
  | .handlerStep => s.handlerStep
  | .poll => if s.handler = .idle then s.macStep .txDoneCheck else .ok s
  | .pollStep => if s.handler = .idle then s.macStep .checkStep else .ok s

/-- The interface as it is opened for the first time. -/
def Nic.opened (mem : Nat → Skb) : Nic := ⟨.opened mem, ⟨false, false⟩, .idle⟩

/-! ### What is said of the queue -/

/-- The BDMA owns a descriptor. -/
def Mac.Busy (s : Mac) : Prop := ∃ i, (s.txFd.get i).owned = true

instance (s : Mac) : Decidable s.Busy :=
  inferInstanceAs (Decidable (∃ i, (s.txFd.get i).owned = true))

/-- While the interface is up and the queue stopped, outside any handler,
something is left that wakes it. -/
def Nic.Wakes (s : Nic) : Prop :=
  s.mac.up = true → s.mac.stopped = true → s.handler = .idle → s.mac.check = none →
    s.mac.Busy ∨ s.bmTxStat.txComp = true ∧ s.mac.txCompIE = true

/-- The step does not stop the queue, or there is a completion to come or to
be acknowledged. -/
def Nic.StopsInTime (s : Nic) (e : NicEvent) : Prop :=
  ∀ skb, e = .sendStep → s.handler = .idle → s.mac.check = none → s.mac.send = .refuse skb →
    s.mac.Busy ∨ s.bmTxStat.txComp = true

/-! ### What the driver does to the descriptors of the BDMA -/

section
variable {s : Mac} {index : Fin TX_NUM_FD}

theorem busy_put_of_owned {i : Fin TX_NUM_FD} {fd : TxFD} (h : s.Busy)
    (hfd : (s.txFd.get i).owned = true → fd.owned = true) :
    Mac.Busy { s with txFd := put s.txFd i fd } := by
  obtain ⟨j, hj⟩ := h
  refine ⟨j, ?_⟩
  show ((put s.txFd i fd).get j).owned = true
  by_cases hij : i = j
  · rw [hij, get_put_self]
    exact hfd (hij ▸ hj)
  · rw [get_put_ne _ hij]
    exact hj

theorem Mac.Busy.sendStep (h : s.Busy) : s.sendStep.Busy := by
  unfold Mac.sendStep
  match s.send with
  | .idle | .index _ | .test _ _ | .store _ _ | .advance _ | .start | .refuse _ => exact h
  | .dataPtr skb index => exact busy_put_of_owned h id
  | .statLen skb index => exact busy_put_of_owned h fun _ => hand_owned _ _

theorem Mac.Busy.checkStep {t : Mac} (h : s.Busy) {q : List Nat} {c : Nat} (hholds : s.Holds q c)
    (ht : s.checkStep index = .ok t) : t.Busy := by
  unfold Mac.checkStep at ht
  split at ht
  · cases ht
    exact h
  · next hcomplete =>
    split at ht
    · cases ht
    · cases ht
      refine busy_put_of_owned h fun howned => ?_
      -- a completed descriptor is not one of the BDMA's
      obtain ⟨k, hk, rfl⟩ := exists_place s.first index
      rw [hholds.descs.owned k hk, decide_eq_true_iff] at howned
      rw [hholds.descs.complete k hk, decide_eq_false_iff_not, not_not] at hcomplete
      omega

theorem checkStep_flags {t : Mac} (ht : s.checkStep index = .ok t) :
    t.stopped = s.stopped ∧ t.txCompIE = s.txCompIE ∧ t.up = s.up := by
  unfold Mac.checkStep at ht
  split at ht
  · cases ht
    exact ⟨rfl, rfl, rfl⟩
  · split at ht
    · cases ht
    · cases ht
      exact ⟨rfl, rfl, rfl⟩

theorem sendStep_flags (h : ∀ skb, s.send ≠ .refuse skb) :
    s.sendStep.stopped = s.stopped ∧ s.sendStep.txCompIE = s.txCompIE := by
  unfold Mac.sendStep
  match hsend : s.send with
  | .idle | .index _ | .test _ _ | .dataPtr _ _ | .store _ _ | .statLen _ _ | .advance _ | .start =>
    exact ⟨rfl, rfl⟩
  | .refuse skb => exact absurd hsend (h skb)

end

/-! ### The invariant -/

/-- What is left to wake a stopped queue, at each statement of the
handler. -/
def Nic.Pledge (s : Nic) : Prop :=
  match s.handler with
  | .idle | .ack _ => (s.mac.Busy ∨ s.bmTxStat.txComp = true) ∧ s.mac.txCompIE = true
  | .test status =>
    (status.txComp = true ∨ s.mac.Busy ∨ s.bmTxStat.txComp = true) ∧ s.mac.txCompIE = true
  | .reap | .disable | .wake => True

/-- The handler has no `tx_done_check` in progress. -/
def TxHandler.Alone : TxHandler → Prop
  | .idle | .reap => False
  | _ => True

structure Nic.Sound (s : Nic) : Prop where
  ring : ∃ q c, s.mac.Holds q c
  up : s.mac.up = true
  alone : s.handler.Alone → s.mac.check = none
  pledge : s.mac.stopped = true → s.Pledge

theorem Nic.Sound.inv {s : Nic} (h : s.Sound) : s.mac.Inv := by
  obtain ⟨q, c, hholds⟩ := h.ring
  exact .up h.up q c hholds

theorem holds_of_inv {m : Mac} (h : m.Inv) (hup : m.up = true) : ∃ q c, m.Holds q c := by
  cases h with
  | up _ q c h => exact ⟨q, c, h⟩
  | down hdown _ =>
    rw [hup] at hdown
    cases hdown

section
variable {s t : Nic}

theorem macStep_eq_ok {e : Event} : s.macStep e = .ok t ↔
    ∃ m, s.mac.step e = .ok m ∧ { s with mac := m } = t :=
  map_eq_ok

section
variable (h : s.Sound)
include h

theorem Nic.Sound.macStep {e : Event} {m : Mac} (hm : s.mac.step e = .ok m)
    (hup : m.up = s.mac.up) (hcheck : s.handler.Alone → m.check = s.mac.check)
    (hstopped : m.stopped = s.mac.stopped) (hIE : m.txCompIE = s.mac.txCompIE)
    (hbusy : s.mac.Busy → m.Busy) : Nic.Sound { s with mac := m } := by
  obtain ⟨m', hm', hinv⟩ := Mac.step_inv h.inv e
  obtain rfl : m = m' := Except.ok.inj (hm.symm.trans hm')
  have hupm : m.up = true := hup.trans h.up
  refine ⟨holds_of_inv hinv hupm, hupm, fun ha => (hcheck ha).trans (h.alone ha), fun hst => ?_⟩
  have hpledge := h.pledge (hstopped ▸ hst)
  unfold Nic.Pledge at hpledge ⊢
  match hh : s.handler with
  | .idle | .ack _ =>
    rw [hh] at hpledge
    exact ⟨hpledge.1.imp_left hbusy, hIE.trans hpledge.2⟩
  | .test status =>
    rw [hh] at hpledge
    exact ⟨hpledge.1.imp_right (Or.imp_left hbusy), hIE.trans hpledge.2⟩
  | .reap | .disable | .wake => trivial

theorem Nic.Sound.txDoneCheck (halone : ¬ s.handler.Alone)
    (ht : s.macStep .txDoneCheck = .ok t) : t.Sound := by
  obtain ⟨m, hm, rfl⟩ := macStep_eq_ok.mp ht
  have hm' : (if s.mac.up ∧ s.mac.check = none then { s.mac with check := some s.mac.txDone }
    else s.mac) = m := Except.ok.inj hm
  split at hm'
  · subst hm'
    exact h.macStep hm rfl (fun ha => absurd ha halone) rfl rfl id
  · subst hm'
    exact h

theorem Nic.Sound.checkStep (halone : ¬ s.handler.Alone)
    (ht : s.macStep .checkStep = .ok t) : t.Sound := by
  obtain ⟨m, hm, rfl⟩ := macStep_eq_ok.mp ht
  obtain ⟨q, c, hholds⟩ := h.ring
  have hm' := hm
  unfold Mac.step at hm'
  dsimp only at hm'
  split at hm'
  · cases hm'
    exact h
  · next index _ =>
    obtain ⟨hstopped, hIE, hup⟩ := checkStep_flags hm'
    exact h.macStep hm hup (fun ha => absurd ha halone) hstopped hIE fun hbusy =>
      hbusy.checkStep hholds hm'

theorem Nic.Sound.sendPacket {skb : Nat} (ht : s.macStep (.sendPacket skb) = .ok t) : t.Sound := by
  obtain ⟨m, hm, rfl⟩ := macStep_eq_ok.mp ht
  have hm' : (if s.mac.up ∧ s.mac.Quiet then { s.mac with send := .index skb } else s.mac) = m :=
    Except.ok.inj hm
  split at hm'
  · subst hm'
    exact h.macStep hm rfl (fun _ => rfl) rfl rfl id
  · subst hm'
    exact h

theorem Nic.Sound.refuse (hidle : s.handler = .idle) (hcheck : s.mac.check = none) {skb : Nat}
    (hskb : s.mac.send = .refuse skb) (hleft : s.mac.Busy ∨ s.bmTxStat.txComp = true) :
    Nic.Sound { s with mac := s.mac.sendStep } := by
  obtain ⟨q, c, hholds⟩ := h.ring
  obtain ⟨q', hholds'⟩ := hholds.sendStep
  have hsame : s.mac.sendStep.check = s.mac.check ∧ s.mac.sendStep.txCompIE = true := by
    rw [Mac.sendStep, hskb]
    exact ⟨rfl, rfl⟩
  refine ⟨⟨q', c, hholds'⟩, (sendStep_up s.mac).trans h.up, fun _ => hsame.1.trans hcheck,
    fun _ => ?_⟩
  unfold Nic.Pledge
  rw [hidle]
  exact ⟨hleft.imp_left fun hbusy => hbusy.sendStep, hsame.2⟩

theorem Nic.Sound.sendStep (hidle : s.handler = .idle)
    (hC : s.StopsInTime .sendStep) (ht : s.macStep .sendStep = .ok t) : t.Sound := by
  obtain ⟨m, hm, rfl⟩ := macStep_eq_ok.mp ht
  have hm' : (if s.mac.check = none then s.mac.sendStep else s.mac) = m := Except.ok.inj hm
  split at hm'
  · next hcheck =>
    subst hm'
    by_cases hrefuse : ∃ skb, s.mac.send = .refuse skb
    · obtain ⟨skb, hskb⟩ := hrefuse
      exact h.refuse hidle hcheck hskb (hC skb rfl hidle hcheck hskb)
    · obtain ⟨hstopped, hIE⟩ := sendStep_flags fun skb hskb => hrefuse ⟨skb, hskb⟩
      have hcheck' : s.mac.sendStep.check = s.mac.check := by
        unfold Mac.sendStep
        split <;> rfl
      exact h.macStep hm (sendStep_up s.mac) (fun _ => hcheck') hstopped hIE fun hbusy =>
        hbusy.sendStep
  · subst hm'
    exact h

/-- **The statements of the handler keep the pledge.** -/
theorem Nic.Sound.handlerStep (ht : s.handlerStep = .ok t) : t.Sound := by
  have hpledge := h.pledge
  have halone := h.alone
  unfold Nic.Pledge at hpledge
  unfold Nic.handlerStep at ht
  match hh : s.handler with
  | .idle =>
    rw [hh] at ht
    cases ht
    exact h
  | .ack status =>
    rw [hh] at ht hpledge halone
    cases ht
    refine ⟨h.ring, h.up, halone, fun hstopped => ?_⟩
    obtain ⟨hleft, hIE⟩ := hpledge hstopped
    refine ⟨?_, hIE⟩
    -- what is acknowledged is what the handler has read
    rcases hleft with hbusy | hcomp
    · exact .inr (.inl hbusy)
    · match hs : status.txComp with
      | true => exact .inl rfl
      | false =>
        refine .inr (.inr ?_)
        show (s.bmTxStat.txComp && !status.txComp) = true
        rw [hs, hcomp]
        rfl
  | .test status =>
    rw [hh] at ht hpledge halone
    cases ht
    obtain ⟨q, c, hholds⟩ := h.ring
    split
    · exact ⟨⟨q, c, hholds.txDoneCheck (halone trivial)⟩, h.up, fun hf => hf.elim,
        fun _ => trivial⟩
    · next hnot =>
      refine ⟨⟨q, c, hholds⟩, h.up, fun hf => hf.elim, fun hstopped => ?_⟩
      obtain ⟨hleft, hIE⟩ := hpledge hstopped
      exact ⟨hleft.resolve_left fun hcomp => hnot ⟨hcomp, hstopped⟩, hIE⟩
  | .reap =>
    rw [hh] at ht
    dsimp only at ht
    split at ht
    · next hnone =>
      cases ht
      exact ⟨h.ring, h.up, fun _ => hnone, fun _ => trivial⟩
    · exact h.checkStep (by rw [hh]; exact id) ht
  | .disable =>
    rw [hh] at ht halone
    cases ht
    obtain ⟨q, c, hholds⟩ := h.ring
    exact ⟨⟨q, c, { hholds with }⟩, h.up, halone, fun _ => trivial⟩
  | .wake =>
    rw [hh] at ht
    cases ht
    obtain ⟨q, c, hholds⟩ := h.ring
    exact ⟨⟨q, c, { hholds with }⟩, h.up, fun hf => hf.elim,
      fun hstopped => absurd hstopped (by simp)⟩

theorem Nic.Sound.complete (status : UInt32)
    (ht : (s.macStep (.complete status)).map
      (fun t => { t with bmTxStat := { t.bmTxStat with txComp := true } }) = .ok t) : t.Sound := by
  obtain ⟨u, hu, rfl⟩ := map_eq_ok.mp ht
  obtain ⟨m, hm, rfl⟩ := macStep_eq_ok.mp hu
  obtain ⟨m', hm', hinv⟩ := Mac.step_inv h.inv (.complete status)
  obtain rfl : m = m' := Except.ok.inj (hm.symm.trans hm')
  have hm : (if s.mac.up then s.mac.complete status else s.mac) = m := Except.ok.inj hm
  rw [if_pos h.up] at hm
  subst hm
  have hup : (s.mac.complete status).up = true := (complete_up s.mac status).trans h.up
  have hsame : (s.mac.complete status).check = s.mac.check ∧
      (s.mac.complete status).stopped = s.mac.stopped ∧
      (s.mac.complete status).txCompIE = s.mac.txCompIE := by
    unfold Mac.complete
    split <;> exact ⟨rfl, rfl, rfl⟩
  obtain ⟨hcheck, hstop, hIE⟩ := hsame
  refine ⟨holds_of_inv hinv hup, hup, fun ha => hcheck.trans (h.alone ha), fun hstopped => ?_⟩
  have hpledge := h.pledge (hstop ▸ hstopped)
  unfold Nic.Pledge at hpledge ⊢
  match hh : s.handler with
  | .idle | .ack _ =>
    rw [hh] at hpledge
    exact ⟨.inr rfl, hIE.trans hpledge.2⟩
  | .test status =>
    rw [hh] at hpledge
    exact ⟨.inr (.inr rfl), hIE.trans hpledge.2⟩
  | .reap | .disable | .wake => trivial

/-- **Every step that stops the queue in time keeps the pledge.** -/
theorem Nic.step_sound {e : NicEvent} (hC : s.StopsInTime e) (ht : s.step e = .ok t) : t.Sound := by
  unfold Nic.step at ht
  cases e with
  | fill skb v =>
    obtain ⟨m, hm, rfl⟩ := macStep_eq_ok.mp ht
    refine h.macStep hm ?_ ?_ ?_ ?_ ?_ <;> cases hm
    · rfl
    · exact fun _ => rfl
    · rfl
    · rfl
    · exact id
  | sendPacket skb => exact of_guarded h (fun _ => h.sendPacket) ht
  | sendStep => exact of_guarded h (fun hidle => h.sendStep hidle hC) ht
  | complete status => exact of_guarded h (fun _ => h.complete status) ht
  | empty =>
    cases ht
    split
    · exact h
    · exact { h with }
  | interrupt =>
    cases ht
    split
    · next hready =>
      refine ⟨h.ring, h.up, fun _ => hready.2.2, fun hstopped => ?_⟩
      have hpledge := h.pledge hstopped
      unfold Nic.Pledge at hpledge
      rw [hready.2.1] at hpledge
      exact hpledge
    · exact h
  | handlerStep => exact h.handlerStep ht
  | poll =>
    refine of_guarded h (fun hidle => h.txDoneCheck ?_) ht
    rw [hidle]
    exact id
  | pollStep =>
    refine of_guarded h (fun hidle => h.checkStep ?_) ht
    rw [hidle]
    exact id

theorem Nic.Sound.wakes : s.Wakes := by
  intro _ hstopped hidle _
  have hpledge := h.pledge hstopped
  unfold Nic.Pledge at hpledge
  rw [hidle] at hpledge
  exact hpledge.1.imp_right fun hcomp => ⟨hcomp, hpledge.2⟩

theorem Nic.Sound.stops_late {e : NicEvent} (hC : ¬ s.StopsInTime e) :
    ∃ t, s.step e = .ok t ∧ ¬ t.Wakes := by
  unfold Nic.StopsInTime at hC
  push Not at hC
  obtain ⟨skb, rfl, hidle, hcheck, hskb, hbusy, hcomp⟩ := hC
  refine ⟨{ s with mac := s.mac.sendStep }, ?_, fun hwakes => ?_⟩
  · show (if s.handler = .idle then s.macStep .sendStep else .ok s) = _
    rw [if_pos hidle]
    refine macStep_eq_ok.mpr ⟨_, ?_, rfl⟩
    show Except.ok (if s.mac.check = none then s.mac.sendStep else s.mac) = _
    rw [if_pos hcheck]
  · -- the refusal leaves the descriptors and the status alone
    have hafter : s.mac.sendStep.stopped = true ∧ s.mac.sendStep.check = s.mac.check ∧
        s.mac.sendStep.txFd = s.mac.txFd := by
      rw [Mac.sendStep, hskb]
      exact ⟨rfl, rfl, rfl⟩
    obtain ⟨hstopped, hcheck', htxFd⟩ := hafter
    rcases hwakes ((sendStep_up s.mac).trans h.up) hstopped hidle (hcheck'.trans hcheck) with
      hbusy' | hcomp'
    · obtain ⟨i, hi⟩ := hbusy'
      exact hbusy ⟨i, by rw [← htxFd]; exact hi⟩
    · exact hcomp hcomp'.1

end

end

theorem opened_sound (mem : Nat → Skb) : (Nic.opened mem).Sound := by
  refine ⟨holds_of_inv (opened_inv mem) rfl, rfl, fun hf => hf.elim, fun hstopped => ?_⟩
  cases hstopped

/-- **Lost wakeups**: a queue that is stopped outside any handler always has
something left that wakes it exactly when every refusal of `send_packet`
comes while the BDMA owns a descriptor or `TxComp` is pending. -/
theorem no_lost_wakeup_iff (mem : Nat → Skb) (es : List NicEvent) :
    Always Nic.step Nic.Wakes (Nic.opened mem) es ↔
      Along Nic.step Nic.StopsInTime (Nic.opened mem) es :=
  always_iff_along (fun _ _ _ hs hC ht => Nic.step_sound hs hC ht) (fun _ hs => hs.wakes)
    (fun _ _ hs hC => hs.stops_late hC) (opened_sound mem)

/-- The statements of a call of `send_packet`. -/
def nicSending (skb : Nat) : List NicEvent := .sendPacket skb :: List.replicate 7 .sendStep

/-- 64 skbs are sent and completed. The BDMA then reports that it has no
more, the handler acknowledges both, and one more skb is refused. -/
def lateRefusal : List NicEvent :=
  (List.range 64).flatMap nicSending ++ List.replicate 64 (.complete 0) ++
    [.empty, .interrupt, .handlerStep, .handlerStep] ++ .sendPacket 64 :: List.replicate 3 .sendStep

/-- The queue is stopped for good: the BDMA owns no descriptor, and `TxComp`
is not pending. -/
theorem wakeup_lost :
    ∃ s, run Nic.step (Nic.opened frames) lateRefusal = .ok s ∧ s.mac.up = true ∧
      s.mac.stopped = true ∧ s.handler = .idle ∧ s.mac.check = none ∧ ¬ s.mac.Busy ∧
      s.bmTxStat = ⟨false, false⟩ := by
  decide +kernel

end S3c2510
