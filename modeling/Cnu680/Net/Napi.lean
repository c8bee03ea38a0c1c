import Cnu680.Net.RxRing

/-! # Polling the Receive Ring

With `CONFIG_S3C2510_NAPI` the interrupt handler `s3c2510_Rx` only disables
the receive interrupts and schedules `s3c2510_poll`, which acknowledges
them, receives what there is and, unless it has used up its limit, enables
them again. The handler leaves `BRxDone` pending for the poll routine.

The poll routine reads `BMRXSTAT` before it takes the lock and writes it
back after. What the BDMA completes in between is received by this call.
What it completes after the ring has been found empty is pending when the
interrupts are enabled, since `BRxDone` is not acknowledged again. -/

open Framework

namespace S3c2510

/-! ### The registers -/

/-- The bits of `BMRXSTAT` that are enabled in `BMRXINTEN` while the interface
is up. -/
structure BmRxStat where
  brxDone : Bool
  brxFull : Bool
  brxNO : Bool
  missRoll : Bool
  deriving DecidableEq, Repr

/-- `writel(status, BMRXSTAT)` clears the bits written. -/
def BmRxStat.write (stat status : BmRxStat) : BmRxStat where
  brxDone := stat.brxDone && !status.brxDone
  brxFull := stat.brxFull && !status.brxFull
  brxNO := stat.brxNO && !status.brxNO
  missRoll := stat.missRoll && !status.missRoll

/-- The hardware sets bits. -/
def BmRxStat.raise (stat bits : BmRxStat) : BmRxStat where
  brxDone := stat.brxDone || bits.brxDone
  brxFull := stat.brxFull || bits.brxFull
  brxNO := stat.brxNO || bits.brxNO
  missRoll := stat.missRoll || bits.missRoll

/-- `BMRXINTEN`. `BRxNOIE` and `MissRollIE` stay enabled. -/
structure BmRxIntEn where
  brxDoneIE : Bool
  brxFullIE : Bool
  deriving DecidableEq, Repr

/-- A pending bit is enabled. -/
def irqLine (stat : BmRxStat) (intEn : BmRxIntEn) : Bool :=
  stat.brxDone && intEn.brxDoneIE || stat.brxFull && intEn.brxFullIE || stat.brxNO || stat.missRoll

/-! ### The driver -/

/-- The next statement of `s3c2510_Rx`. -/
inductive RxHandler where
  | idle
  /-- `writel(RxStat & ~(BRxDone | BRxFull), BMRXSTAT)` -/
  | ack (RxStat : BmRxStat)
  /-- `if (RxStat & (BRxDone|BRxFull))`, and `netif_rx_schedule_prep` -/
  | test (RxStat : BmRxStat)
  /-- `disable_rx_and_rxnobuf_ints(dev)`, in either branch -/
  | disable (prep : Bool)
  /-- `__netif_rx_schedule(dev)` -/
  | schedule
  deriving DecidableEq, Repr

/-- The next statement of `s3c2510_poll`. Its `tx_done_check` does nothing to
the receive side. -/
inductive PollCall where
  | idle
  /-- `spin_lock_irq(&np->lock)` -/
  | lock (RxStat : BmRxStat)
  /-- `writel(RxStat, BMRXSTAT)` -/
  | ack (RxStat : BmRxStat)
  /-- The work limit, and the call of `rx_done_check`. -/
  | limit
  /-- In `rx_done_check`. -/
  | receive
  /-- `quota` and `budget`, and `if (received >= np->curr_work_limit)` -/
  | account
  /-- `netif_rx_complete(dev)` -/
  | complete
  /-- `enable_rx_and_rxnobuf_ints(dev)` -/
  | enable
  /-- `spin_unlock_irq(&np->lock)`, and the return -/
  | unlock (done : Bool)
  deriving DecidableEq, Repr

/-- The lock is held, with interrupts disabled. -/
def PollCall.locked : PollCall → Bool
  | .idle | .lock _ => false
  | _ => true

/-- The receive side with its interrupt, while the interface is up. -/
structure Napi where
  mac : RxMac
  bmRxStat : BmRxStat
  bmRxIntEn : BmRxIntEn
  /-- `__LINK_STATE_RX_SCHED` -/
  rxSched : Bool
  /-- The device is on the list of `net_rx_action`. -/
  pollList : Bool
  handler : RxHandler
  poll : PollCall
  budget : Int
  quota : Int
  /-- What the last call of `s3c2510_poll` has returned. -/
  returned : Nat

/-- A statement of `s3c2510_Rx`, without its statistics. -/
def Napi.handlerStep (s : Napi) : Napi :=
  match s.handler with
  | .idle => s
  | .ack RxStat =>
    { s with
      bmRxStat := s.bmRxStat.write { RxStat with brxDone := false, brxFull := false }
      handler := .test RxStat }
  | .test RxStat =>
    if RxStat.brxDone ∨ RxStat.brxFull then
      { s with rxSched := true, handler := .disable (!s.rxSched) }
    else { s with handler := .idle }
  | .disable prep =>
    { s with
      bmRxIntEn := { brxDoneIE := false, brxFullIE := false }
      handler := if prep then .schedule else .idle }
  | .schedule => { s with pollList := true, handler := .idle }

/-- `np->curr_work_limit = *budget`, at most `dev->quota`. -/
def workLimit (budget quota : Int) : Int := if budget > quota then quota else budget

/-- A statement of `s3c2510_poll`, with the answer of `dev_alloc_skb`. The
iterations of its `rx_done_check` are statements of their own. -/
def Napi.pollStep (s : Napi) (alloc : Option UInt32) : Except RxFault Napi :=
  match s.poll with
  | .idle => .ok s
  | .lock RxStat => .ok { s with poll := .ack RxStat }
  | .ack RxStat => .ok { s with bmRxStat := s.bmRxStat.write RxStat, poll := .limit }
  | .limit =>
    (s.mac.step (.rxDoneCheck (workLimit s.budget s.quota))).map fun mac =>
      { s with mac := mac, poll := .receive }
  | .receive =>
    if s.mac.call = .idle then .ok { s with poll := .account }
    else (s.mac.step (.callStep alloc)).map fun mac => { s with mac := mac }
  | .account =>
    .ok { s with
      quota := s.quota - s.mac.received
      budget := s.budget - s.mac.received
      -- the limit has been counted down by the frames received
      poll := if (s.mac.received : Int) ≥ s.mac.currWorkLimit then .unlock false else .complete }
  | .complete => .ok { s with rxSched := false, pollList := false, poll := .enable }
  | .enable =>
    .ok { s with bmRxIntEn := { brxDoneIE := true, brxFullIE := true }, poll := .unlock true }
  | .unlock done => .ok { s with poll := .idle, returned := if done then 0 else 1 }

inductive NapiEvent where
  /-- The BDMA completes a descriptor. -/
  | complete (c : Completion)
  /-- The hardware sets bits of `BMRXSTAT`. -/
  | raise (bits : BmRxStat)
  | interrupt
  | handlerStep
  /-- `net_rx_action` calls `s3c2510_poll`, which reads `BMRXSTAT`. -/
  | poll (budget quota : Int)
  | pollStep (alloc : Option UInt32)

/-- One step. The handler runs to its end before the poll routine goes on, and
does not interrupt it while it holds the lock; `netif_receive_skb` does not
enable interrupts. What cannot happen in a state does nothing. -/
def Napi.step (s : Napi) : NapiEvent → Except RxFault Napi
  | .complete c =>
    if (s.mac.rxFd.get s.mac.brxbdcnt).owned then
      (s.mac.step (.complete c)).map fun mac =>
        { s with mac := mac, bmRxStat := { s.bmRxStat with brxDone := true } }
    else .ok s
  | .raise bits => .ok { s with bmRxStat := s.bmRxStat.raise bits }
  | .interrupt =>
    .ok (if irqLine s.bmRxStat s.bmRxIntEn ∧ s.handler = .idle ∧ s.poll.locked = false then
      { s with handler := .ack s.bmRxStat } else s)
  | .handlerStep => .ok s.handlerStep
  | .poll budget quota =>
    .ok (if s.pollList ∧ s.poll = .idle ∧ s.handler = .idle then
      { s with poll := .lock s.bmRxStat, budget := budget, quota := quota } else s)
  | .pollStep alloc => if s.handler = .idle then s.pollStep alloc else .ok s

/-- The interface as it is opened, with its ring. -/
def Napi.opened (mac : RxMac) : Napi where
  mac := mac
  bmRxStat := ⟨false, false, false, false⟩
  bmRxIntEn := ⟨true, true⟩
  rxSched := false
  pollList := false
  handler := .idle
  poll := .idle
  budget := 0
  quota := 0
  returned := 0

/-! ### What is said of a frame -/

/-- While no poll is scheduled or running and no handler is in progress, a
frame that waits at `rx_done` has its interrupt pending and enabled. -/
def Napi.LosesNoFrame (s : Napi) : Prop :=
  s.pollList = false → s.poll = .idle → s.handler = .idle →
    (s.mac.rxFd.get s.mac.rxDone).completed = true →
      s.bmRxStat.brxDone = true ∧ s.bmRxIntEn.brxDoneIE = true

/-! ### The receive ring during a call -/

/-- A frame waits at `rx_done`. -/
def RxMac.Waiting (m : RxMac) : Prop := (m.rxFd.get m.rxDone).status ≠ 0

/-- `rx_done_check` is past its loop, or not called. -/
def RxMac.PastLoop (m : RxMac) : Prop := ∀ index, m.call ≠ .check index

theorem RxMac.status_of_completed {m : RxMac} (h : (m.rxFd.get m.rxDone).completed = true) :
    m.Waiting := by
  unfold RxFD.completed at h
  rw [Bool.and_eq_true, decide_eq_true_iff] at h
  exact h.2

section
variable {m m' : RxMac} {index : Fin RX_NUM_FD}

theorem rxDoneCheck_start (h : m.call = .idle) (limit : Int) :
    m.step (.rxDoneCheck limit) = .ok { m with
      currWorkLimit := limit, call := .check m.rxDone, received := 0, failed := false } := by
  unfold RxMac.step
  dsimp only
  rw [if_pos h]

theorem checkStep_past (h : m.checkStep index = .ok m')
    (hpast : m'.PastLoop) : m'.currWorkLimit ≤ 0 ∨ ¬ m'.Waiting := by
  rcases RxMac.checkStep_cases h with ⟨hstatus | hlimit, rfl⟩ | ⟨-, ⟨-, skb, -, rfl⟩ | ⟨-, rfl⟩⟩
  · exact .inr fun hwaiting => hwaiting hstatus
  · exact .inl hlimit
  · exact absurd rfl (hpast _)
  · exact absurd rfl (hpast _)

theorem refillStep_waiting {alloc : Option UInt32}
    (h : (m.refillStep index alloc).Waiting) : m.Waiting := by
  unfold RxMac.refillStep at h
  dsimp only at h
  have hput : ∀ data, RxFD.status ((put m.rxFd index ⟨data, RX_OWNED⟩).get m.rxDone) ≠ 0 →
      m.Waiting := by
    intro data hstatus
    by_cases hindex : index = m.rxDone
    · rw [hindex, get_put_self] at hstatus
      exact absurd status_rxOwned hstatus
    · rwa [get_put_ne _ hindex] at hstatus
  split at h
  · exact h
  · split at h
    · exact hput _ h
    · exact h
    · exact hput _ h

theorem refillStep_limit (index : Fin RX_NUM_FD) (alloc : Option UInt32) :
    (m.refillStep index alloc).currWorkLimit = m.currWorkLimit := by
  unfold RxMac.refillStep
  dsimp only
  split
  · rfl
  · split <;> rfl

end

/-! ### The invariant -/

/-- A frame that waits has its interrupt pending. -/
def Napi.Signalled (s : Napi) : Prop := s.mac.Waiting → s.bmRxStat.brxDone = true

/-- The call has used up its limit, or a frame that waits is signalled. -/
def Napi.Drained (s : Napi) : Prop := s.mac.currWorkLimit ≤ 0 ∨ s.Signalled

/-- What is left to have a waiting frame received, at each statement of the
poll routine. -/
def Napi.Pledge (s : Napi) : Prop :=
  match s.poll with
  | .idle => s.rxSched = true ∨ s.bmRxIntEn.brxDoneIE = true ∧ s.Signalled
  | .lock _ | .ack _ | .limit | .unlock false => s.rxSched = true
  | .receive => s.rxSched = true ∧ (s.mac.PastLoop → s.Drained)
  | .account => s.rxSched = true ∧ s.Drained
  | .complete | .enable => s.Signalled
  | .unlock true => s.bmRxIntEn.brxDoneIE = true ∧ s.Signalled

/-- The list of `net_rx_action`, at each statement of the handler. -/
def Napi.Listed (s : Napi) : Prop :=
  match s.handler with
  | .idle | .ack _ | .test _ => s.pollList = s.rxSched
  | .disable prep => s.rxSched = true ∧ s.pollList = !prep
  | .schedule => s.rxSched = true

structure Napi.Sound (s : Napi) : Prop where
  ring : s.mac.Inv
  quiet : s.poll ≠ .receive → s.mac.call = .idle
  masked : s.poll.locked = true → s.handler = .idle
  listed : s.Listed
  pledge : s.Pledge

/-- **In a sound state no frame is lost.** -/
theorem Napi.Sound.losesNoFrame {s : Napi} (h : s.Sound) : s.LosesNoFrame := by
  intro hlist hpoll hhandler hcompleted
  have hlisted := h.listed
  have hpledge := h.pledge
  unfold Napi.Listed at hlisted
  unfold Napi.Pledge at hpledge
  rw [hhandler] at hlisted
  rw [hpoll] at hpledge
  rcases hpledge with hsched | ⟨harmed, hsignalled⟩
  · rw [hlisted, hsched] at hlist
    cases hlist
  · exact ⟨hsignalled (RxMac.status_of_completed hcompleted), harmed⟩

section
variable {s t : Napi}

theorem Napi.Pledge.of_hardware (h : s.Pledge) (hpoll : t.poll = s.poll)
    (hsched : t.rxSched = s.rxSched) (hintEn : t.bmRxIntEn = s.bmRxIntEn)
    (hlimit : t.mac.currWorkLimit = s.mac.currWorkLimit) (hcall : t.mac.call = s.mac.call)
    (hsignalled : s.Signalled → t.Signalled) : t.Pledge := by
  have hdrained : s.Drained → t.Drained := by
    intro hd
    rcases hd with hle | hsig
    · exact .inl (hlimit ▸ hle)
    · exact .inr (hsignalled hsig)
  unfold Napi.Pledge at h ⊢
  rw [hpoll, hsched, hintEn]
  cases hp : s.poll with
  | idle =>
    rw [hp] at h
    exact h.imp_right fun ha => ⟨ha.1, hsignalled ha.2⟩
  | lock RxStat | ack RxStat | limit =>
    rw [hp] at h
    exact h
  | receive =>
    rw [hp] at h
    refine ⟨h.1, fun hpast => hdrained (h.2 fun index => ?_)⟩
    rw [← hcall]
    exact hpast index
  | account =>
    rw [hp] at h
    exact ⟨h.1, hdrained h.2⟩
  | complete | enable =>
    rw [hp] at h
    exact hsignalled h
  | unlock done =>
    rw [hp] at h
    cases done with
    | false => exact h
    | true => exact ⟨h.1, hsignalled h.2⟩

theorem Napi.Sound.complete (h : s.Sound) (c : Completion) :
    ∃ t, s.step (.complete c) = .ok t ∧ t.Sound := by
  unfold Napi.step
  dsimp only
  split
  · have hsame : (s.mac.complete c).call = s.mac.call ∧
        (s.mac.complete c).currWorkLimit = s.mac.currWorkLimit := by
      unfold RxMac.complete
      split <;> exact ⟨rfl, rfl⟩
    refine ⟨_, rfl, h.ring.complete c, fun hpoll => ?_, h.masked, h.listed, ?_⟩
    · exact hsame.1.trans (h.quiet hpoll)
    · exact h.pledge.of_hardware rfl rfl rfl hsame.2 hsame.1 fun _ _ => rfl
  · exact ⟨s, rfl, h⟩

theorem Napi.Sound.raise (h : s.Sound) (bits : BmRxStat) :
    Napi.Sound { s with bmRxStat := s.bmRxStat.raise bits } := by
  refine ⟨h.ring, h.quiet, h.masked, h.listed, ?_⟩
  refine h.pledge.of_hardware rfl rfl rfl rfl rfl fun hsignalled hwaiting => ?_
  show (s.bmRxStat.brxDone || bits.brxDone) = true
  rw [hsignalled hwaiting, Bool.true_or]

theorem Napi.Sound.interrupt (h : s.Sound) (hidle : s.handler = .idle)
    (hlocked : s.poll.locked = false) : Napi.Sound { s with handler := .ack s.bmRxStat } := by
  have hlisted := h.listed
  unfold Napi.Listed at hlisted
  rw [hidle] at hlisted
  refine ⟨h.ring, h.quiet, fun hl => ?_, hlisted, h.pledge⟩
  rw [hlocked] at hl
  cases hl

/-- The handler is in progress only where the poll routine is not past its
first statement. -/
theorem Napi.Sound.unlocked (h : s.Sound) (hhandler : s.handler ≠ .idle) :
    s.poll = .idle ∨ ∃ RxStat, s.poll = .lock RxStat := by
  have hmasked := fun hlocked => hhandler (h.masked hlocked)
  cases hp : s.poll with
  | idle => exact .inl rfl
  | lock RxStat => exact .inr ⟨RxStat, rfl⟩
  | ack RxStat | limit | receive | account | complete | enable | unlock done =>
    exact absurd (congrArg PollCall.locked hp) hmasked

theorem Napi.Pledge.of_sched (hunlocked : t.poll = .idle ∨ ∃ RxStat, t.poll = .lock RxStat)
    (hsched : t.rxSched = true) : t.Pledge := by
  unfold Napi.Pledge
  rcases hunlocked with hidle | ⟨RxStat, hlock⟩
  · rw [hidle]
    exact .inl hsched
  · rw [hlock]
    exact hsched

/-- **The handler.** -/
theorem Napi.Sound.handlerStep (h : s.Sound) : s.handlerStep.Sound := by
  have hlisted := h.listed
  unfold Napi.Listed at hlisted
  unfold Napi.handlerStep
  cases hh : s.handler with
  | idle => exact h
  | ack RxStat =>
    rw [hh] at hlisted
    have hnot : s.handler ≠ .idle := by simp [hh]
    refine ⟨h.ring, h.quiet, fun hl => absurd (h.masked hl) hnot, hlisted, ?_⟩
    -- `BRxDone` is left pending
    refine h.pledge.of_hardware rfl rfl rfl rfl rfl fun hsignalled hwaiting => ?_
    show (s.bmRxStat.brxDone && !false) = true
    rw [hsignalled hwaiting]
    rfl
  | test RxStat =>
    rw [hh] at hlisted
    have hnot : s.handler ≠ .idle := by simp [hh]
    dsimp only
    split
    · refine ⟨h.ring, h.quiet, fun hl => absurd (h.masked hl) hnot, ⟨rfl, ?_⟩, ?_⟩
      · rw [Bool.not_not]
        exact hlisted
      · exact .of_sched (h.unlocked hnot) rfl
    · exact ⟨h.ring, h.quiet, fun _ => rfl, hlisted, h.pledge⟩
  | disable prep =>
    rw [hh] at hlisted
    have hnot : s.handler ≠ .idle := by simp [hh]
    obtain ⟨hsched, hlist⟩ := hlisted
    refine ⟨h.ring, h.quiet, fun hl => absurd (h.masked hl) hnot, ?_,
      .of_sched (h.unlocked hnot) hsched⟩
    cases prep with
    | true => exact hsched
    | false => exact hlist.trans hsched.symm
  | schedule =>
    rw [hh] at hlisted
    have hnot : s.handler ≠ .idle := by simp [hh]
    exact ⟨h.ring, h.quiet, fun _ => rfl, hlisted.symm, .of_sched (h.unlocked hnot) hlisted⟩

theorem Napi.Sound.callStep (h : s.Sound) (hpoll : s.poll = .receive)
    (hcall : s.mac.call ≠ .idle) (alloc : Option UInt32) :
    ∃ m, s.mac.step (.callStep alloc) = .ok m ∧ Napi.Sound { s with mac := m } := by
  obtain ⟨m, hm, hring⟩ := s.mac.step_inv h.ring (.callStep alloc)
  have hpledge := h.pledge
  unfold Napi.Pledge at hpledge
  rw [hpoll] at hpledge
  refine ⟨m, hm, hring, fun hnot => absurd hpoll hnot, h.masked, h.listed, ?_⟩
  rw [hpoll]
  refine ⟨hpledge.1, fun hpast => ?_⟩
  unfold RxMac.step at hm
  cases hc : s.mac.call with
  | idle => exact absurd hc hcall
  | check index =>
    rw [hc] at hm
    rcases checkStep_past hm hpast with hlimit | hempty
    · exact .inl hlimit
    · exact .inr fun hwaiting => absurd hwaiting hempty
  | refill index =>
    rw [hc] at hm
    cases hm
    have hdrained := hpledge.2 fun index' => by rw [hc]; simp
    rcases hdrained with hlimit | hsignalled
    · refine .inl ?_
      rw [refillStep_limit]
      exact hlimit
    · exact .inr fun hwaiting => hsignalled (refillStep_waiting hwaiting)

/-- **The poll routine.** -/
theorem Napi.Sound.pollStep (h : s.Sound) (hidle : s.handler = .idle) (alloc : Option UInt32) :
    ∃ t, s.pollStep alloc = .ok t ∧ t.Sound := by
  have hpledge := h.pledge
  have hlisted := h.listed
  unfold Napi.Pledge at hpledge
  unfold Napi.Listed at hlisted
  rw [hidle] at hlisted
  have hlist : ∀ t : Napi, t.handler = s.handler → t.pollList = t.rxSched → t.Listed := by
    intro t hhandler hsame
    unfold Napi.Listed
    rw [hhandler, hidle]
    exact hsame
  have hquiet : ∀ {p : PollCall}, s.poll = p → p ≠ .receive → s.mac.call = .idle :=
    fun hp hne => h.quiet (hp ▸ hne)
  unfold Napi.pollStep
  cases hp : s.poll with
  | idle => exact ⟨s, rfl, h⟩
  | lock RxStat | ack RxStat =>
    rw [hp] at hpledge
    exact ⟨_, rfl, h.ring, fun _ => hquiet hp nofun, fun _ => hidle, hlist _ rfl hlisted, hpledge⟩
  | limit =>
    rw [hp] at hpledge
    obtain ⟨m, hm, hring⟩ :=
      s.mac.step_inv h.ring (.rxDoneCheck (workLimit s.budget s.quota))
    refine ⟨{ s with mac := m, poll := .receive }, ?_, hring, fun hnot => absurd rfl hnot,
      fun _ => hidle, hlist _ rfl hlisted, hpledge, fun hpast => ?_⟩
    · exact map_eq_ok.mpr ⟨m, hm, rfl⟩
    · -- the loop has just begun
      rw [rxDoneCheck_start (hquiet hp nofun)] at hm
      cases hm
      exact absurd rfl (hpast _)
  | receive =>
    rw [hp] at hpledge
    dsimp only
    split
    · next hcall =>
      refine ⟨_, rfl, h.ring, fun _ => hcall, fun _ => hidle, hlist _ rfl hlisted, hpledge.1,
        hpledge.2 fun index => ?_⟩
      rw [hcall]
      simp
    · next hcall =>
      obtain ⟨m, hm, hsound⟩ := h.callStep hp hcall alloc
      rw [hp] at hsound
      exact ⟨_, map_eq_ok.mpr ⟨m, hm, rfl⟩, hsound⟩
  | account =>
    rw [hp] at hpledge
    dsimp only
    split
    · exact ⟨_, rfl, h.ring, fun _ => hquiet hp nofun, fun _ => hidle, hlist _ rfl hlisted,
        hpledge.1⟩
    · next hless =>
      -- a call that has used up its limit does not come here
      have hsignalled : s.Signalled := hpledge.2.resolve_left (by omega)
      exact ⟨_, rfl, h.ring, fun _ => hquiet hp nofun, fun _ => hidle, hlist _ rfl hlisted,
        hsignalled⟩
  | complete =>
    rw [hp] at hpledge
    exact ⟨_, rfl, h.ring, fun _ => hquiet hp nofun, fun _ => hidle, hlist _ rfl rfl, hpledge⟩
  | enable =>
    rw [hp] at hpledge
    exact ⟨_, rfl, h.ring, fun _ => hquiet hp nofun, fun _ => hidle, hlist _ rfl hlisted, rfl,
      hpledge⟩
  | unlock done =>
    rw [hp] at hpledge
    refine ⟨_, rfl, h.ring, fun _ => hquiet hp nofun, fun _ => hidle, hlist _ rfl hlisted, ?_⟩
    cases done with
    | false => exact .inl hpledge
    | true => exact .inr hpledge

/-- **Every step keeps the invariant.** -/
theorem Napi.Sound.step (h : s.Sound) (e : NapiEvent) : ∃ t, s.step e = .ok t ∧ t.Sound := by
  cases e with
  | complete c => exact h.complete c
  | raise bits => exact ⟨_, rfl, h.raise bits⟩
  | interrupt =>
    refine ⟨_, rfl, ?_⟩
    split
    · next hstart => exact h.interrupt hstart.2.1 hstart.2.2
    · exact h
  | handlerStep => exact ⟨_, rfl, h.handlerStep⟩
  | poll budget quota =>
    refine ⟨_, rfl, ?_⟩
    split
    · next hstart =>
      obtain ⟨hlist, hpoll, hidle⟩ := hstart
      have hlisted := h.listed
      unfold Napi.Listed at hlisted
      rw [hidle] at hlisted
      have hquiet : s.mac.call = .idle := h.quiet (by simp [hpoll])
      exact ⟨h.ring, fun _ => hquiet, fun _ => hidle, h.listed, hlisted.symm.trans hlist⟩
    · exact h
  | pollStep alloc =>
    unfold Napi.step
    dsimp only
    split
    · next hidle => exact h.pollStep hidle alloc
    · exact ⟨s, rfl, h⟩

end

theorem sound_opened {alloc : Fin RX_NUM_FD → Option UInt32} {mac : RxMac}
    (h : setupRxFDs alloc = .ok mac) : (Napi.opened mac).Sound := by
  have hset := setupRxFDs_setting h
  refine ⟨setupRxFDs_inv h, fun _ => hset.start.1, fun _ => rfl, rfl, .inr ⟨rfl, ?_⟩⟩
  -- the BDMA owns all descriptors
  intro hwaiting
  have howned : (mac.rxFd.get mac.rxDone).FDStatLen = RX_OWNED := (hset.set _ (by simp)).1
  refine absurd ?_ hwaiting
  show statusOf (mac.rxFd.get mac.rxDone).FDStatLen = 0
  rw [howned]
  exact status_rxOwned

theorem run_sound {alloc : Fin RX_NUM_FD → Option UInt32} {mac : RxMac}
    (h : setupRxFDs alloc = .ok mac) (es : List NapiEvent) :
    ∃ s, run Napi.step (Napi.opened mac) es = .ok s ∧ s.Sound :=
  run_total (fun _ e hs => hs.step e) es (sound_opened h)

/-- **No frame is lost.** From an interface that has been opened, for every
sequence of completions, interrupts, statements of the handler and of the
poll routine, with any budget and quota for each call and any answers of
the allocator. -/
theorem napi_loses_no_frame {alloc : Fin RX_NUM_FD → Option UInt32} {mac : RxMac}
    (h : setupRxFDs alloc = .ok mac) (es : List NapiEvent) :
    ∃ s, run Napi.step (Napi.opened mac) es = .ok s ∧ s.LosesNoFrame := by
  obtain ⟨s, hs, hsound⟩ := run_sound h es
  exact ⟨s, hs, hsound.losesNoFrame⟩

/-- A frame, its interrupt and the handler. -/
def arrival : List NapiEvent :=
  .complete goodFrame :: .interrupt :: List.replicate 4 .handlerStep

/-- Another frame comes just before the poll routine gives up the lock. -/
def lateFrame : List NapiEvent :=
  arrival ++ .poll 300 64 :: List.replicate 9 (.pollStep none) ++
    [.complete goodFrame, .pollStep none]

/-- The second frame waits for its interrupt. -/
theorem napi_loses_no_frame_late :
    ∃ mac s, setupRxFDs (fun _ => some 0x00200002) = .ok mac ∧
      run Napi.step (Napi.opened mac) lateFrame = .ok s ∧ s.LosesNoFrame ∧
      s.pollList = false ∧ s.poll = .idle ∧ s.handler = .idle ∧ s.mac.delivered.length = 1 ∧
      (s.mac.rxFd.get s.mac.rxDone).completed = true ∧
      s.bmRxStat.brxDone = true ∧ s.bmRxIntEn.brxDoneIE = true := by
  obtain ⟨mac, s, hmac, hrest, hlist, hpoll, hhandler, hlength, hcompleted⟩ : ∃ mac s,
      setupRxFDs (fun _ => some 0x00200002) = .ok mac ∧
      run Napi.step (Napi.opened mac) lateFrame = .ok s ∧ s.pollList = false ∧
      s.poll = .idle ∧ s.handler = .idle ∧ s.mac.delivered.length = 1 ∧
      (s.mac.rxFd.get s.mac.rxDone).completed = true := by
    decide +kernel
  obtain ⟨t, ht, hlossless⟩ := napi_loses_no_frame hmac lateFrame
  obtain rfl : s = t := Except.ok.inj (hrest.symm.trans ht)

  exact ⟨mac, s, hmac, hrest, hlossless, hlist, hpoll, hhandler, hlength, hcompleted,
    hlossless hlist hpoll hhandler hcompleted⟩

end S3c2510
