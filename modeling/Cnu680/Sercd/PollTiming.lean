import Cnu680.Sercd.MainLoop

/-! # sercd: the poll interval

`SercdSelect` with its clock. Besides the descriptors that `select` finds
ready it reports, once the poll interval is over, that the modem lines
are to be looked at, and remembers when it last did so in `LastPoll`.

The interval is in milliseconds. For the timeout of `select` it is
converted to seconds and microseconds; for the comparison with
`LastPoll` its remainder is subtracted from the microseconds as it is,
without a borrow, and the result is compared field by field. `PollExact`
says for which times this comes out right.

The loop of `MainLoop` takes the result of `SercdSelect` as an input:
`timed_run` leads the runs with a clock back to it.
-/

open Framework

namespace Sercd

/-! ### Times -/

/-- `struct timeval`. -/
structure Timeval where
  sec : Int
  usec : Int
  deriving DecidableEq, Repr

/-- A time as `gettimeofday` returns it. -/
structure Time extends Timeval where
  usec_nonneg : 0 ≤ usec
  usec_lt : usec < 1000000

/-- `timercmp(t, u, <)`. -/
def timerLt (t u : Timeval) : Prop := t.sec < u.sec ∨ t.sec = u.sec ∧ t.usec < u.usec

instance (t u : Timeval) : Decidable (timerLt t u) := inferInstanceAs (Decidable (_ ∨ _))

theorem zero_lt_million : (0 : Int) < 1000000 := by decide

/-- `timerclear`. -/
def timerclear : Time := ⟨⟨0, 0⟩, Int.le_refl 0, zero_lt_million⟩

/-- The time in microseconds. -/
def Timeval.micros (t : Timeval) : Int := t.sec * 1000000 + t.usec

/-- On times as the clock returns them, `timercmp` compares the times. -/
theorem timerLt_iff (t u : Time) : timerLt t.toTimeval u.toTimeval ↔ t.micros < u.micros := by
  have ht := t.usec_nonneg
  have ht' := t.usec_lt
  have hu := u.usec_nonneg
  have hu' := u.usec_lt
  unfold timerLt Timeval.micros
  omega

/-! ### `SercdSelect` -/

/-- What the system answers to the calls of `SercdSelect`. -/
structure SelectAnswers where
  /-- What `select` finds ready for the given timeout, if it does not
      fail. -/
  select : Timeval → Option Events
  /-- The time when `select` has returned. -/
  newpoll : Time
  /-- The time a moment later. -/
  lastPoll : Time

/-- `BTimeout`. -/
def bTimeout (PollInterval : Nat) : Timeval where
  sec := PollInterval / 1000
  usec := PollInterval % 1000 * 1000

/-- `newpoll`, less the poll interval. -/
def beforeInterval (newpoll : Timeval) (PollInterval : Nat) : Timeval where
  sec := newpoll.sec - PollInterval / 1000
  usec := newpoll.usec - PollInterval % 1000

/-- `LastPoll`, or nothing of it if time moved backwards. -/
def knownPoll (LastPoll newpoll : Time) : Time :=
  if timerLt newpoll.toTimeval LastPoll.toTimeval then timerclear else LastPoll

/-- `SercdSelect` for the events that are asked for: the flags it returns,
none if `select` fails, and `LastPoll`. -/
def sercdSelect (asked : Events) (PollInterval : Nat) (LastPoll : Time) (a : SelectAnswers) :
    Option Events × Time :=
  match a.select (bTimeout PollInterval) with
  | none => (none, LastPoll)
  | some ready =>
    let ret := { asked.inter ready with modemstate := false }
    if asked.modemstate then
      let LastPoll := knownPoll LastPoll a.newpoll
      if timerLt LastPoll.toTimeval (beforeInterval a.newpoll.toTimeval PollInterval) then
        (some { ret with modemstate := true }, a.lastPoll)
      else (some ret, LastPoll)
    else (some ret, LastPoll)

/-- `SERCD_EV_MODEMSTATE` is raised. -/
def Raised (x : Option Events × Time) : Prop := ∃ ret, x.1 = some ret ∧ ret.modemstate = true

/-- What `SercdSelect` can do. -/
theorem sercdSelect_cases (asked : Events) (PollInterval : Nat) (LastPoll : Time)
    (a : SelectAnswers) :
    (a.select (bTimeout PollInterval) = none ∧
        sercdSelect asked PollInterval LastPoll a = (none, LastPoll)) ∨
      ∃ ready, a.select (bTimeout PollInterval) = some ready ∧
        (asked.modemstate = true ∧
            timerLt (knownPoll LastPoll a.newpoll).toTimeval
              (beforeInterval a.newpoll.toTimeval PollInterval) ∧
            sercdSelect asked PollInterval LastPoll a =
              (some { asked.inter ready with modemstate := true }, a.lastPoll) ∨
          ¬ (asked.modemstate = true ∧
              timerLt (knownPoll LastPoll a.newpoll).toTimeval
                (beforeInterval a.newpoll.toTimeval PollInterval)) ∧
            ∃ t, sercdSelect asked PollInterval LastPoll a =
              (some { asked.inter ready with modemstate := false }, t)) := by
  unfold sercdSelect
  cases a.select (bTimeout PollInterval) with
  | none => exact .inl ⟨rfl, rfl⟩
  | some ready =>
    refine .inr ⟨ready, rfl, ?_⟩
    dsimp only
    by_cases hasked : asked.modemstate = true
    · rw [if_pos hasked]
      split
      · next hlt => exact .inl ⟨hasked, hlt, rfl⟩
      · next hnot => exact .inr ⟨fun h => hnot h.2, _, rfl⟩
    · rw [if_neg hasked]
      exact .inr ⟨fun h => hasked h.1, _, rfl⟩

/-! ### When the lines are polled -/

/-- The lines are to be polled: polling is not disabled, and more than the
interval has passed. -/
def Due (PollInterval : Nat) (LastPoll now : Time) : Prop :=
  0 < PollInterval ∧ LastPoll.micros + PollInterval * 1000 < now.micros

instance (PollInterval : Nat) (LastPoll now : Time) : Decidable (Due PollInterval LastPoll now) :=
  inferInstanceAs (Decidable (_ ∧ _))

/-- What is asked of `SercdSelect`: it raises the event when the lines are to
be polled, and then `LastPoll` is the time. -/
structure PollsRight (asked : Events) (PollInterval : Nat) (LastPoll : Time) (a : SelectAnswers) :
    Prop where
  raises : Raised (sercdSelect asked PollInterval LastPoll a) ↔ Due PollInterval LastPoll a.newpoll
  updates : Raised (sercdSelect asked PollInterval LastPoll a) →
    (sercdSelect asked PollInterval LastPoll a).2 = a.lastPoll

/-- The seconds and the microseconds between two times, each on its own. -/
def secs (LastPoll now : Time) : Int := now.sec - LastPoll.sec

def usecs (LastPoll now : Time) : Int := now.usec - LastPoll.usec

/-- The times for which the comparison comes out right. An interval of 0 is
over as soon as the clock has moved. Otherwise the remainder of the
interval counts for a thousandth of what it is, if no second but those of
the interval lies in between, and for nothing, if there is one more. -/
structure PollExact (PollInterval : Nat) (LastPoll now : Time) : Prop where
  disabled : PollInterval = 0 → now.micros = LastPoll.micros
  early : 0 < PollInterval → secs LastPoll now = PollInterval / 1000 →
    ¬ (PollInterval % 1000 < usecs LastPoll now ∧
      usecs LastPoll now ≤ PollInterval % 1000 * 1000)
  borrow : 0 < PollInterval → secs LastPoll now = PollInterval / 1000 + 1 →
    PollInterval % 1000 * 1000 < usecs LastPoll now + 1000000

section
variable {asked : Events} {PollInterval : Nat} {LastPoll : Time} {a : SelectAnswers}

/-- The test on `newpoll` decides. -/
theorem raised_iff :
    Raised (sercdSelect asked PollInterval LastPoll a) ↔
      a.select (bTimeout PollInterval) ≠ none ∧ asked.modemstate = true ∧
        timerLt (knownPoll LastPoll a.newpoll).toTimeval
          (beforeInterval a.newpoll.toTimeval PollInterval) := by
  rcases sercdSelect_cases asked PollInterval LastPoll a with
    ⟨hsel, hx⟩ | ⟨ready, hsel, ⟨hasked, hlt, hx⟩ | ⟨hnot, t, hx⟩⟩
  · refine iff_of_false ?_ fun h => h.1 hsel
    rw [hx]
    rintro ⟨ret, hret, -⟩
    cases hret
  · refine iff_of_true ?_ ⟨by simp [hsel], hasked, hlt⟩
    rw [hx]
    exact ⟨_, rfl, rfl⟩
  · refine iff_of_false ?_ fun h => hnot h.2
    rw [hx]
    rintro ⟨ret, hret, hraised⟩
    cases hret
    cases hraised

theorem updates_lastPoll (h : Raised (sercdSelect asked PollInterval LastPoll a)) :
    (sercdSelect asked PollInterval LastPoll a).2 = a.lastPoll := by
  have hdue := raised_iff.mp h
  rcases sercdSelect_cases asked PollInterval LastPoll a with
    ⟨hsel, -⟩ | ⟨ready, -, ⟨-, -, hx⟩ | ⟨hnot, -⟩⟩
  · exact absurd hsel hdue.1
  · rw [hx]
  · exact absurd hdue.2 hnot

theorem knownPoll_of_le {now : Time} (h : LastPoll.micros ≤ now.micros) :
    knownPoll LastPoll now = LastPoll := by
  unfold knownPoll
  rw [if_neg]
  rw [timerLt_iff]
  omega

theorem timerLt_beforeInterval_iff (now : Time) :
    timerLt LastPoll.toTimeval (beforeInterval now.toTimeval PollInterval) ↔
      PollInterval / 1000 < secs LastPoll now ∨
        secs LastPoll now = PollInterval / 1000 ∧ PollInterval % 1000 < usecs LastPoll now := by
  unfold timerLt beforeInterval secs usecs
  dsimp only
  omega

theorem due_iff (now : Time) :
    Due PollInterval LastPoll now ↔ 0 < PollInterval ∧
      PollInterval / 1000 * 1000000 + PollInterval % 1000 * 1000 <
        secs LastPoll now * 1000000 + usecs LastPoll now := by
  unfold Due secs usecs Timeval.micros
  omega

theorem pollExact_iff (now : Time) (hnow : LastPoll.micros ≤ now.micros) :
    (timerLt LastPoll.toTimeval (beforeInterval now.toTimeval PollInterval) ↔
      Due PollInterval LastPoll now) ↔ PollExact PollInterval LastPoll now := by
  have hlast := LastPoll.usec_nonneg
  have hlast' := LastPoll.usec_lt
  have hnonneg := now.usec_nonneg
  have hlt := now.usec_lt
  have hsecs : now.micros - LastPoll.micros =
      secs LastPoll now * 1000000 + usecs LastPoll now := by
    unfold secs usecs Timeval.micros
    omega
  have husecs : usecs LastPoll now < 1000000 := by
    unfold usecs
    omega
  have husecs' : -1000000 < usecs LastPoll now := by
    unfold usecs
    omega
  rw [timerLt_beforeInterval_iff, due_iff]
  constructor
  · intro h
    constructor <;> omega
  · rintro ⟨hdisabled, hearly, hborrow⟩
    by_cases hzero : PollInterval = 0
    · have hsame := hdisabled hzero
      omega
    · have hpos : 0 < PollInterval := Nat.pos_of_ne_zero hzero
      have hearly := hearly hpos
      have hborrow := hborrow hpos
      omega

end

/-- `SercdSelect`, asked for the modem state at a time that is not before
`LastPoll`, polls as it should iff `select` does not fail when the lines
are to be polled, and the comparison comes out right if it does not. -/
theorem poll_timing_iff (asked : Events) (hasked : asked.modemstate = true) (PollInterval : Nat)
    (LastPoll : Time) (a : SelectAnswers) (hnow : LastPoll.micros ≤ a.newpoll.micros) :
    PollsRight asked PollInterval LastPoll a ↔
      if a.select (bTimeout PollInterval) = none then ¬ Due PollInterval LastPoll a.newpoll
      else PollExact PollInterval LastPoll a.newpoll := by
  have hright : PollsRight asked PollInterval LastPoll a ↔
      (Raised (sercdSelect asked PollInterval LastPoll a) ↔
        Due PollInterval LastPoll a.newpoll) :=
    ⟨PollsRight.raises, fun h => ⟨h, updates_lastPoll⟩⟩
  rw [hright, raised_iff, knownPoll_of_le hnow]
  by_cases hsel : a.select (bTimeout PollInterval) = none
  · rw [if_pos hsel]
    constructor
    · intro h hdue
      exact (h.mpr hdue).1 hsel
    · intro hnot
      exact iff_of_false (fun h => h.1 hsel) hnot
  · rw [if_neg hsel, ← pollExact_iff a.newpoll hnow]
    simp only [ne_eq, hsel, not_false_eq_true, hasked, true_and]

theorem mod_million_lt (usec : Nat) : ((usec % 1000000 : Nat) : Int) < 1000000 := by omega

/-- A time within the first second. -/
def micro (usec : Nat) : Time :=
  ⟨⟨0, (usec % 1000000 : Nat)⟩, Int.natCast_nonneg _, mod_million_lt usec⟩

/-- Nothing is ready, at the given time. -/
def idleAt (now : Time) : SelectAnswers := ⟨fun _ => some {}, now, now⟩

/-- Half a second of an interval of one second. -/
theorem poll_timing_second :
    (PollsRight { modemstate := true } 1000 timerclear (idleAt (micro 500000)) ↔
      if (idleAt (micro 500000)).select (bTimeout 1000) = none then
        ¬ Due 1000 timerclear (micro 500000)
      else PollExact 1000 timerclear (micro 500000)) :=
  poll_timing_iff _ rfl 1000 timerclear (idleAt (micro 500000)) (by decide)

/-- With an interval of 100 ms the lines are polled after 200 microseconds; with
an interval of 0, which should disable polling, after one. -/
theorem polled_too_early :
    (Raised (sercdSelect { modemstate := true } 100 timerclear (idleAt (micro 200))) ∧
        ¬ Due 100 timerclear (micro 200)) ∧
      Raised (sercdSelect { modemstate := true } 0 timerclear (idleAt (micro 1))) ∧
        ¬ Due 0 timerclear (micro 1) :=
  ⟨⟨⟨_, rfl, rfl⟩, by decide⟩, ⟨_, rfl, rfl⟩, by decide⟩

theorem pollExact_of_seconds {PollInterval : Nat} (hpos : 0 < PollInterval)
    (hsec : PollInterval % 1000 = 0) (LastPoll now : Time) :
    PollExact PollInterval LastPoll now := by
  have hlast := LastPoll.usec_lt
  have hnow := now.usec_nonneg
  constructor
  · omega
  · omega
  · unfold usecs
    omega

/-! ### The loop with its clock -/

/-- The process, with `LastPoll`. -/
structure Timed where
  main : Main
  lastPoll : Time

structure TimedInputs where
  /-- The answers to the calls that the handlers make. -/
  io : Inputs
  /-- The answers to the calls of `SercdSelect`. -/
  sel : SelectAnswers

/-- What `SercdSelect` returns in an iteration. -/
def Timed.selects (PollInterval : Nat) (s : Timed) (i : TimedInputs) : Option Events × Time :=
  sercdSelect (armed s.main) PollInterval s.lastPoll i.sel

/-- The inputs of the iteration, as `MainLoop` has them. -/
def Timed.inputs (PollInterval : Nat) (s : Timed) (i : TimedInputs) : Inputs :=
  { i.io with
    selectFails := (s.selects PollInterval i).1.isNone
    ready := (s.selects PollInterval i).1.getD {} }

/-- One iteration. -/
def Timed.iteration (PollInterval : Nat) (s : Timed) (i : TimedInputs) : Except Halt Timed :=
  (Sercd.iteration s.main (s.inputs PollInterval i)).map fun m =>
    ⟨m, (s.selects PollInterval i).2⟩

section
variable {PollInterval : Nat} {s t : Timed}

/-- **A run with a clock is a run of the loop.** -/
theorem timed_run {is : List TimedInputs} (h : run (Timed.iteration PollInterval) s is = .ok t) :
    ∃ js : List Inputs, js.length = is.length ∧ run iteration s.main js = .ok t.main := by
  induction is generalizing s with
  | nil =>
    cases h
    exact ⟨[], rfl, rfl⟩
  | cons i is ih =>
    obtain ⟨u, hu, hrest⟩ := bind_eq_ok.mp h
    obtain ⟨m, hm, rfl⟩ := map_eq_ok.mp hu
    obtain ⟨js, hlen, hjs⟩ := ih hrest
    refine ⟨s.inputs PollInterval i :: js, by simp [hlen], ?_⟩
    exact bind_eq_ok.mpr ⟨m, hm, hjs⟩

/-- The clock does not go back, and `select` does not fail. -/
def ClockRuns (PollInterval : Nat) : Time → List TimedInputs → Prop
  | _, [] => True
  | t, i :: is =>
    t.micros ≤ i.sel.newpoll.micros ∧ i.sel.newpoll.micros ≤ i.sel.lastPoll.micros ∧
      i.sel.select (bTimeout PollInterval) ≠ none ∧ ClockRuns PollInterval i.sel.lastPoll is

/-- In the iteration, the lines are polled when they are to be. -/
def Timed.Polls (PollInterval : Nat) (s : Timed) (i : TimedInputs) : Prop :=
  (armed s.main).modemstate = true → PollsRight (armed s.main) PollInterval s.lastPoll i.sel

/-- `LastPoll` is what it was, or the present time. -/
theorem lastPoll_selects {i : TimedInputs} (h : s.lastPoll.micros ≤ i.sel.newpoll.micros) :
    (s.selects PollInterval i).2 = s.lastPoll ∨
      (s.selects PollInterval i).2 = i.sel.lastPoll := by
  unfold Timed.selects sercdSelect
  rw [knownPoll_of_le h]
  split
  · exact .inl rfl
  · dsimp only
    split
    · split
      · exact .inr rfl
      · exact .inl rfl
    · exact .inl rfl

/-- **An interval of whole seconds**: over every run the lines are polled when
they are to be, as long as the clock runs. -/
theorem polls_of_seconds (hpos : 0 < PollInterval) (hsec : PollInterval % 1000 = 0) {now : Time}
    (hlast : s.lastPoll.micros ≤ now.micros) {is : List TimedInputs}
    (hclock : ClockRuns PollInterval now is) :
    Along (Timed.iteration PollInterval) (Timed.Polls PollInterval) s is := by
  induction is generalizing s now with
  | nil => trivial
  | cons i is ih =>
    obtain ⟨hnew, hlater, hsel, hclock⟩ := hclock
    have hnow : s.lastPoll.micros ≤ i.sel.newpoll.micros := Int.le_trans hlast hnew
    constructor
    · intro harmed
      refine ⟨?_, updates_lastPoll⟩
      have hexact := pollExact_of_seconds hpos hsec s.lastPoll i.sel.newpoll
      rw [raised_iff, knownPoll_of_le hnow, ← (pollExact_iff i.sel.newpoll hnow).mpr hexact]
      simp only [ne_eq, hsel, not_false_eq_true, harmed, true_and]
    · intro t ht
      obtain ⟨m, _, rfl⟩ := map_eq_ok.mp ht
      refine ih ?_ hclock
      dsimp only
      have hselects : (s.selects PollInterval i).2 = s.lastPoll ∨
          (s.selects PollInterval i).2 = i.sel.lastPoll := lastPoll_selects hnow
      rcases hselects with hkeep | hupdate
      · rw [hkeep]
        exact Int.le_trans hnow hlater
      · exact Int.le_of_eq (by rw [hupdate])

/-- The initial options are sent and the port is opened. -/
def opening : TimedInputs :=
  ⟨{ ready := {}, netWrite := .room 18, openFd := some 3 },
    ⟨fun _ => some { socketOut := true }, micro 0, micro 0⟩⟩

/-- Two seconds later. -/
def twoSeconds : TimedInputs :=
  ⟨{ ready := {} }, idleAt ⟨⟨2, 0⟩, Int.le_refl 0, zero_lt_million⟩⟩

/-- The port is open, and its lines are polled. -/
theorem polls_of_seconds_open :
    ∃ m t, start default default .inetd = .ok m ∧
      Timed.iteration 1000 ⟨m, timerclear⟩ opening = .ok t ∧ Raised (t.selects 1000 twoSeconds) ∧
      Along (Timed.iteration 1000) (Timed.Polls 1000) ⟨m, timerclear⟩ [opening, twoSeconds] := by
  obtain ⟨m, t, hm, hstep, hsel⟩ : ∃ m t, start default default .inetd = .ok m ∧
      Timed.iteration 1000 ⟨m, timerclear⟩ opening = .ok t ∧
      (t.selects 1000 twoSeconds).1 = some { modemstate := true } := by
    decide +kernel
  refine ⟨m, t, hm, hstep, ⟨_, hsel, rfl⟩,
    polls_of_seconds (by decide) rfl (Int.le_refl timerclear.micros) ?_⟩
  exact ⟨by decide, by decide, nofun, by decide, by decide, nofun, trivial⟩

end

end Sercd
