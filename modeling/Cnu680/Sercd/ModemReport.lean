import Mathlib.Data.Nat.Bitwise
import Cnu680.Sercd.Relay

/-! # sercd: reporting the modem lines

A session in which the modem lines are polled and the client sends Com
Port Control commands, among them those that set `ModemStateMask`. A
notification tells the client the levels of the lines in the mask.

`ModemState` is compared with the next sample, and is written, for all
lines, when a notification is sent. A line that was out of the mask at
that moment has its level recorded without being told, and if it comes
back into the mask its level is not a change any more. `Recalled` says of
a sample, by the masks and samples before it, that this has not happened.
-/

open Framework

namespace Sercd

/-! ### The lines -/

inductive ModemLine where
  | DCD | RI | DSR | CTS
  deriving DecidableEq, Repr

/-- The bit of a line in a modem state or in a mask. -/
def ModemLine.bit : ModemLine → UInt8
  | .DCD => TNCOM_MODMASK_RLSD
  | .RI => TNCOM_MODMASK_RING
  | .DSR => TNCOM_MODMASK_DSR
  | .CTS => TNCOM_MODMASK_CTS

/-- The bit of a line in what `TIOCMGET` finds. -/
def ModemLine.tiocm : ModemLine → BitVec 32
  | .DCD => TIOCM_CAR
  | .RI => TIOCM_RNG
  | .DSR => TIOCM_DSR
  | .CTS => TIOCM_CTS

/-- The line is in a mask, or up in a modem state. -/
def ModemLine.In (b : UInt8) (k : ModemLine) : Prop := b &&& k.bit ≠ 0

/-- The line is up. -/
def ModemLine.Up (MLines : BitVec 32) (k : ModemLine) : Prop := MLines &&& k.tiocm ≠ 0

instance (b : UInt8) (k : ModemLine) : Decidable (k.In b) := by
  unfold ModemLine.In
  infer_instance

instance (MLines : BitVec 32) (k : ModemLine) : Decidable (k.Up MLines) := by
  unfold ModemLine.Up
  infer_instance

/-- The position of the bit of a line. -/
def ModemLine.index : ModemLine → Nat
  | .DCD => 7
  | .RI => 6
  | .DSR => 5
  | .CTS => 4

theorem ModemLine.in_iff {b : UInt8} {k : ModemLine} : k.In b ↔ b.toNat.testBit k.index := by
  have hbit : k.bit.toNat = 2 ^ k.index := by cases k <;> rfl
  have hpos : 0 < 2 ^ k.index := Nat.two_pow_pos k.index
  unfold ModemLine.In
  rw [ne_eq, ← UInt8.toNat_inj, UInt8.toNat_and, hbit, Nat.and_two_pow]
  cases b.toNat.testBit k.index <;> simp

theorem ModemLine.in_and {a b : UInt8} {k : ModemLine} : k.In (a &&& b) ↔ k.In a ∧ k.In b := by
  rw [in_iff, in_iff, in_iff, UInt8.toNat_and, Nat.testBit_and, Bool.and_eq_true]

theorem ModemLine.in_nodelta (k : ModemLine) : k.In TNCOM_MODMASK_NODELTA := by
  cases k <;> decide

/-- Without the delta bits, a modem state is the levels of the lines. -/
theorem nodelta_eq_iff {a b : UInt8} :
    a &&& TNCOM_MODMASK_NODELTA = b &&& TNCOM_MODMASK_NODELTA ↔
      ∀ k : ModemLine, k.In a ↔ k.In b := by
  have hbits : ∀ j, TNCOM_MODMASK_NODELTA.toNat.testBit j → ∃ k : ModemLine, k.index = j := by
    intro j hj
    have hlt : j < 8 := by
      by_contra hge
      have hpow : 2 ^ 8 ≤ 2 ^ j := Nat.pow_le_pow_right (by omega) (by omega)
      rw [Nat.testBit_lt_two_pow (Nat.lt_of_lt_of_le TNCOM_MODMASK_NODELTA.toNat_lt hpow)] at hj
      cases hj
    match j, hlt with
    | 4, _ => exact ⟨.CTS, rfl⟩
    | 5, _ => exact ⟨.DSR, rfl⟩
    | 6, _ => exact ⟨.RI, rfl⟩
    | 7, _ => exact ⟨.DCD, rfl⟩
    | 0, _ | 1, _ | 2, _ | 3, _ => exact absurd hj (by decide)
  constructor
  · intro h k
    have hin : ∀ c : UInt8, k.In (c &&& TNCOM_MODMASK_NODELTA) ↔ k.In c := fun c => by
      rw [ModemLine.in_and]
      exact and_iff_left k.in_nodelta
    rw [← hin, h, hin]
  · intro h
    rw [← UInt8.toNat_inj, UInt8.toNat_and, UInt8.toNat_and]
    refine Nat.eq_of_testBit_eq fun j => ?_
    rw [Nat.testBit_and, Nat.testBit_and]
    cases hj : TNCOM_MODMASK_NODELTA.toNat.testBit j with
    | false => rw [Bool.and_false, Bool.and_false]
    | true =>
      obtain ⟨k, rfl⟩ := hbits j hj
      rw [Bool.and_true, Bool.and_true, Bool.eq_iff_iff, ← ModemLine.in_iff, ← ModemLine.in_iff]
      exact h k

/-- An addition of `GetModemState`, under its test. -/
def addIf (test : Bool) (d MState : UInt8) : UInt8 := if test then MState + d else MState

theorem ite_add (P : Prop) [Decidable P] (MState d : UInt8) :
    (if P then MState + d else MState) = addIf (decide P) d MState := by
  unfold addIf
  simp only [decide_eq_true_eq]

theorem in_addIf (car rng dsr cts dcar drng ddsr dcts : Bool) :
    let MState := addIf dcts TNCOM_MODMASK_CTS_DELTA (addIf ddsr TNCOM_MODMASK_DSR_DELTA
      (addIf drng TNCOM_MODMASK_RING_TRAIL (addIf dcar TNCOM_MODMASK_RLSD_DELTA
        (addIf cts TNCOM_MODMASK_CTS (addIf dsr TNCOM_MODMASK_DSR (addIf rng TNCOM_MODMASK_RING
          (addIf car TNCOM_MODMASK_RLSD 0)))))))
    (ModemLine.DCD.In MState ↔ car) ∧ (ModemLine.RI.In MState ↔ rng) ∧
      (ModemLine.DSR.In MState ↔ dsr) ∧ (ModemLine.CTS.In MState ↔ cts) := by
  revert car rng dsr cts dcar drng ddsr dcts
  decide +kernel

/-- **`GetModemState` finds a line up exactly if it is**, whatever the
previous state. -/
theorem in_modemStateOf (MLines : BitVec 32) (PMState : UInt8) (k : ModemLine) :
    k.In (modemStateOf MLines PMState) ↔ k.Up MLines := by
  unfold modemStateOf
  simp only [ite_add]
  match k with
  | .DCD => exact (in_addIf _ _ _ _ _ _ _ _).1.trans decide_eq_true_iff
  | .RI => exact (in_addIf _ _ _ _ _ _ _ _).2.1.trans decide_eq_true_iff
  | .DSR => exact (in_addIf _ _ _ _ _ _ _ _).2.2.1.trans decide_eq_true_iff
  | .CTS => exact (in_addIf _ _ _ _ _ _ _ _).2.2.2.trans decide_eq_true_iff

/-! ### The session -/

/-- A notification, with the mask under which it was sent. -/
structure Notice where
  mask : UInt8
  value : UInt8
  deriving DecidableEq, Repr

/-- A sample of the lines, with the mask at that moment. -/
structure Sample where
  mask : UInt8
  MLines : BitVec 32
  deriving DecidableEq, Repr

/-- A session: the state of `main`, what the client was told, and the samples
taken, the latest first. -/
structure Report where
  main : Main
  notices : List Notice
  samples : List Sample

/-- The level of a line that the client was last told: that in the latest
notification with the line in its mask. Before any, it takes the line to
be low. -/
def told (notices : List Notice) (k : ModemLine) : Bool :=
  match notices.find? fun n => k.In n.mask with
  | none => false
  | some n => k.In n.value

/-- What happens in the session. Between two of these, the buffer to the
network is written out and filled as it may be. -/
inductive Poll where
  /-- The event `SERCD_EV_MODEMSTATE`, with the lines as `TIOCMGET` finds
      them. -/
  | sample (MLines : BitVec 32) (toNetBuf : { B : BufferType // B.Valid })
  /-- A Com Port Control command, such as `SET-MODEMSTATE-MASK`. -/
  | command (cmd : Command) (CSize : Nat) (toNetBuf : BufferType)

/-- The state of `main` when the modem lines are looked at. -/
def Report.polled (r : Report) (MLines : BitVec 32) (toNetBuf : BufferType) : Main :=
  { r.main with
    g := { r.main.g with port := { r.main.g.port with lines := fun _ => MLines } }
    toNetBuf := toNetBuf }

/-- The value of the notification that the bytes for the client begin with:
the byte before IAC SE. A NUL that `EscWriteChar` puts before it, after a
CR, is not part of it. -/
def noticeIn (out : List UInt8) : Option UInt8 :=
  if out.take 4 = [TNIAC, TNSB, TNCOM_PORT_OPTION, TNASC_NOTIFY_MODEMSTATE] then
    out[out.length - 3]?
  else none

def Report.step (r : Report) : Poll → Except Halt Report
  | .sample MLines toNetBuf => do
    let s := r.polled MLines toNetBuf
    let f ← modemState s
    -- the client is told what is queued for it
    let out := f.state.toNetBuf.contents.drop s.toNetBuf.contents.length
    return ⟨f.state, (noticeIn out).toList.map (⟨s.g.modemStateMask, ·⟩) ++ r.notices,
      ⟨s.g.modemStateMask, MLines⟩ :: r.samples⟩
  | .command cmd CSize toNetBuf => do
    let (g, SockB) ← stopOn (handleCPCCommand r.main.g cmd CSize toNetBuf)
    return { r with main := { r.main with g := g, toNetBuf := SockB } }

/-- After a sample, the client has been told the level of every line in the
mask. -/
def Report.InSync (r : Report) : Poll → Prop
  | .sample MLines toNetBuf => ∀ r', r.step (.sample MLines toNetBuf) = .ok r' →
    ∀ k : ModemLine, k.In r'.main.g.modemStateMask → (told r'.notices k = true ↔ k.Up MLines)
  | .command _ _ _ => True

/-! ### The masks and the samples -/

/-- A line in the mask of the sample has another level than before. -/
def Sample.changes (x : Sample) (before : ModemLine → Bool) : Bool :=
  [ModemLine.DCD, .RI, .DSR, .CTS].any fun k => k.In x.mask && (before k != k.Up x.MLines)

/-- The level of a line at the latest sample with a change, from a session
that begins with `ModemState = MState`. -/
def recorded (MState : UInt8) : List Sample → ModemLine → Bool
  | [], k => k.In MState
  | x :: xs, k => if x.changes (recorded MState xs) then k.Up x.MLines else recorded MState xs k

/-- The level of a line at the latest sample with the line in the mask. -/
def shown : List Sample → ModemLine → Bool
  | [], _ => false
  | x :: xs, k => if k.In x.mask then k.Up x.MLines else shown xs k

/-- **The condition on a sample** of an open port. If no line in the mask has
changed since the latest sample with a change, each of them was then at the
level it had when it was last in the mask. -/
def Report.Recalled (MState : UInt8) (r : Report) : Poll → Prop
  | .sample MLines _ => r.main.deviceFd.isSome →
    Sample.changes ⟨r.main.g.modemStateMask, MLines⟩ (recorded MState r.samples) = false →
      ∀ k : ModemLine, k.In r.main.g.modemStateMask →
        recorded MState r.samples k = shown r.samples k
  | .command _ _ _ => True

/-! ### What a sample does -/

section
variable {s : Main} {f : Flow Main} {r r' : Report} {MLines : BitVec 32}
  {toNetBuf : { B : BufferType // B.Valid }} {k : ModemLine}

/-- What a sample of an open port does: the globals it leaves, and the bytes
it queues for the client, which are those of the notification if one is
due. -/
theorem modemState_report (h : modemState s = .ok f) :
    s.deviceFd.isSome ∧ f.state.g = (if s.g.Notifies then s.g.notified else s.g.looked) ∧
      (s.toNetBuf.Valid → f.state.toNetBuf.contents =
        s.toNetBuf.contents ++ if s.g.Notifies then s.g.notification else []) := by
  unfold modemState at h
  dsimp only [Main.record] at h
  split at h
  · cases h
  next hdev =>
  refine ⟨isSome_of_not_isNone hdev, ?_⟩
  split at h
  · next hnotify =>
    rw [if_pos (show s.g.Notifies from hnotify), if_pos (show s.g.Notifies from hnotify)]
    obtain ⟨⟨g, B⟩, hsend, hf⟩ := bind_eq_ok.mp h
    cases hf
    rw [stopOn_eq_ok, sendCPCByteCommand_emits] at hsend
    obtain ⟨B', hadd, hB'⟩ := bind_eq_ok.mp hsend
    cases hB'
    refine ⟨rfl, fun hvalid => ?_⟩
    have hadd : addBytes s.toNetBuf s.g.notification = .ok B := hadd
    by_cases hroom : s.g.notification.length ≤ s.toNetBuf.room
    · obtain ⟨B', hB', -, -, hcontents⟩ := addBytes_ok hvalid hroom
      rw [hB'] at hadd
      cases hadd
      exact hcontents
    · rw [addBytes_full hvalid (Nat.lt_of_not_le hroom)] at hadd
      cases hadd
  · next hsilent =>
    rw [if_neg (show ¬ s.g.Notifies from hsilent), if_neg (show ¬ s.g.Notifies from hsilent)]
    cases h
    exact ⟨rfl, fun _ => (List.append_nil _).symm⟩

theorem told_cons (n : Notice) (ns : List Notice) (k : ModemLine) :
    told (n :: ns) k = if k.In n.mask then decide (k.In n.value) else told ns k := by
  unfold told
  rw [List.find?_cons]
  by_cases hk : k.In n.mask
  · simp [hk]
  · simp [hk]

theorem noticeIn_notification (g : Globals) :
    noticeIn g.notification = some (g.newModemState &&& g.modemStateMask) := by
  unfold Globals.notification cpcFrame escape escapeChar
  split
  · rfl
  · split <;> rfl

/-- What a sample leaves: it is notified or not, by `ModemState` before. -/
theorem sample_ok (h : r.step (.sample MLines toNetBuf) = .ok r') :
    r.main.deviceFd.isSome ∧ r'.main.g.modemStateMask = r.main.g.modemStateMask ∧
    r'.samples = ⟨r.main.g.modemStateMask, MLines⟩ :: r.samples ∧
    if (r.polled MLines toNetBuf).g.Notifies then
      r'.main.g.modemState = modemStateOf MLines r.main.g.modemState ∧
        r'.notices = ⟨r.main.g.modemStateMask,
          modemStateOf MLines r.main.g.modemState &&& r.main.g.modemStateMask⟩ :: r.notices
    else r'.main.g.modemState = r.main.g.modemState ∧ r'.notices = r.notices := by
  obtain ⟨f, hf, hret⟩ := bind_eq_ok.mp h
  cases hret
  obtain ⟨hdev, hg, hbytes⟩ := modemState_report hf
  have hout := hbytes toNetBuf.property
  refine ⟨hdev, ?_⟩
  dsimp only
  rw [hg, hout, List.drop_left]
  split
  · rw [noticeIn_notification]
    exact ⟨rfl, rfl, rfl, rfl⟩
  · exact ⟨rfl, rfl, rfl, rfl⟩

theorem silent_ok (hdev : r.main.deviceFd.isSome)
    (hsilent : ¬ (r.polled MLines toNetBuf).g.Notifies) :
    ∃ r', r.step (.sample MLines toNetBuf) = .ok r' := by
  have hstep : ∃ f, modemState (r.polled MLines toNetBuf) = .ok f := by
    unfold modemState
    rw [if_neg (by simp [Report.polled, Option.isNone_eq_false_iff.mpr hdev])]
    exact ⟨_, if_neg hsilent⟩
  obtain ⟨f, hf⟩ := hstep
  exact ⟨_, bind_eq_ok.mpr ⟨f, hf, rfl⟩⟩

theorem sample_changes_iff {x : Sample} {before : ModemLine → Bool} :
    x.changes before = false ↔
      ∀ k : ModemLine, k.In x.mask → (before k = true ↔ k.Up x.MLines) := by
  have hmem : ∀ k : ModemLine, k ∈ [ModemLine.DCD, .RI, .DSR, .CTS] := by
    intro k
    cases k <;> simp
  simp only [Sample.changes, List.any_eq_false, hmem, true_implies]
  refine forall_congr' fun k => ?_
  cases before k <;> simp

/-- **A sample is notified exactly if a line in the mask has changed** since
`ModemState` was written. -/
theorem notifies_iff (r : Report) (MLines : BitVec 32) (toNetBuf : BufferType) :
    (r.polled MLines toNetBuf).g.Notifies ↔
    Sample.changes ⟨r.main.g.modemStateMask, MLines⟩ (fun k => k.In r.main.g.modemState) =
      true := by
  rw [← Bool.not_eq_false, sample_changes_iff]
  refine not_congr (nodelta_eq_iff.trans (forall_congr' fun k => ?_))
  rw [ModemLine.in_and, ModemLine.in_and, and_congr_left_iff, decide_eq_true_iff]
  exact imp_congr_right fun _ => (iff_congr (in_modemStateOf _ _ _) Iff.rfl).trans iff_comm

end

/-! ### Whole sessions -/

/-- The masks and the samples give what stands in `ModemState` and what the
client was told. -/
structure Report.Recorded (MState : UInt8) (r : Report) : Prop where
  state : (fun k : ModemLine => decide (k.In r.main.g.modemState)) = recorded MState r.samples
  told : told r.notices = shown r.samples

section
variable {r r' : Report} {MState : UInt8}

theorem command_kept {cmd : Command} {CSize : Nat} {toNetBuf : BufferType}
    (h : r.step (.command cmd CSize toNetBuf) = .ok r') :
    r'.main.g.modemState = r.main.g.modemState ∧ r'.notices = r.notices ∧
      r'.samples = r.samples := by
  obtain ⟨⟨g, SockB⟩, hsend, hret⟩ := bind_eq_ok.mp h
  cases hret
  rw [stopOn_eq_ok, handleCPCCommand, Reply.send_emits] at hsend
  obtain ⟨B', -, hB'⟩ := bind_eq_ok.mp hsend
  cases hB'
  exact ⟨(cpcBranch_kept r.main.g cmd CSize).modemState, rfl, rfl⟩

theorem Report.Recorded.step (h : r.Recorded MState) {e : Poll} (hrec : r.Recalled MState e)
    (hstep : r.step e = .ok r') : r'.Recorded MState := by
  match e with
  | .command cmd CSize toNetBuf =>
    obtain ⟨hstate, hnotices, hsamples⟩ := command_kept hstep
    refine ⟨?_, ?_⟩
    · rw [hstate, hsamples]
      exact h.state
    · rw [hnotices, hsamples]
      exact h.told
  | .sample MLines toNetBuf =>
    obtain ⟨hdev, -, hsamples, hres⟩ := sample_ok hstep
    have hiff := notifies_iff r MLines toNetBuf
    rw [h.state] at hiff
    split at hres
    · next hnotify =>
      refine ⟨funext fun k => ?_, funext fun k => ?_⟩
      · rw [hsamples, recorded, if_pos (hiff.mp hnotify), hres.1, Bool.eq_iff_iff,
          decide_eq_true_iff, decide_eq_true_iff]
        exact in_modemStateOf _ _ _
      · rw [hsamples, shown, hres.2, told_cons, h.told]
        split
        · next hk =>
          rw [Bool.eq_iff_iff, decide_eq_true_iff, decide_eq_true_iff, ModemLine.in_and,
            in_modemStateOf]
          exact and_iff_left hk
        · rfl
    · next hsilent =>
      have hsame := Bool.eq_false_iff.mpr (hiff.not.mp hsilent)
      refine ⟨?_, funext fun k => ?_⟩
      · rw [hsamples, hres.1, h.state]
        exact funext fun k => (if_neg (by rw [hsame]; decide)).symm
      · rw [hsamples, hres.2, h.told, shown]
        split
        · next hk =>
          -- the line is as recorded, and it is recorded as it was last shown
          rw [← hrec hdev hsame k hk, Bool.eq_iff_iff, decide_eq_true_iff]
          exact sample_changes_iff.mp hsame k hk
        · rfl

/-- After a sample that is notified the client knows the lines in the mask;
after one that is not, exactly if it knew what stands in
`ModemState`. -/
theorem inSync_iff (h : r.Recorded MState) (e : Poll) : r.InSync e ↔ r.Recalled MState e := by
  match e with
  | .command cmd CSize toNetBuf => exact Iff.rfl
  | .sample MLines toNetBuf =>
    have hiff := notifies_iff r MLines toNetBuf
    rw [h.state] at hiff
    by_cases hnotify : (r.polled MLines toNetBuf).g.Notifies
    · refine iff_of_true (fun r' hstep k hk => ?_) fun _ hsame => ?_
      · obtain ⟨-, hmask, -, hres⟩ := sample_ok hstep
        rw [if_pos hnotify] at hres
        rw [hmask] at hk
        rw [hres.2, told_cons, if_pos hk, decide_eq_true_iff, ModemLine.in_and, in_modemStateOf]
        exact and_iff_left hk
      · rw [hiff.mp hnotify] at hsame
        cases hsame
    · have hsame := Bool.eq_false_iff.mpr (hiff.not.mp hnotify)
      have hup := sample_changes_iff.mp hsame
      constructor
      · intro hsync hdev _ k hk
        obtain ⟨r', hstep⟩ := silent_ok hdev hnotify
        obtain ⟨-, hmask, -, hres⟩ := sample_ok hstep
        rw [if_neg hnotify] at hres
        have htold := hsync r' hstep k (hmask ▸ hk)
        rw [hres.2, h.told] at htold
        exact Bool.eq_iff_iff.mpr ((hup k hk).trans htold.symm)
      · intro hrec r' hstep k hk
        obtain ⟨hdev, hmask, -, hres⟩ := sample_ok hstep
        rw [if_neg hnotify] at hres
        rw [hmask] at hk
        rw [hres.2, h.told, ← hrec hdev hsame k hk]
        exact hup k hk

/-- **The reports of the modem lines.** In every session of samples and
commands, from any state of `main` and with no notification before, the
client has been told the level of every line in the mask after each
sample exactly as long as the samples are recalled. -/
theorem modem_report_iff (s : Main) (es : List Poll) :
    Along Report.step Report.InSync ⟨s, [], []⟩ es ↔
      Along Report.step (Report.Recalled s.g.modemState) ⟨s, [], []⟩ es := by
  apply along_iff_along_where (J := Report.Recorded s.g.modemState)
  · exact fun r e r' h hrec hstep => h.step hrec hstep
  · exact fun r e h => inSync_iff h e
  · exact ⟨rfl, rfl⟩

/-- `SET-MODEMSTATE-MASK`. -/
def setMask (mask : UInt8) : Poll :=
  .command (Vector.ofFn fun i =>
      if i.val = 3 then TNCAS_SET_MODEMSTATE_MASK else if i.val = 4 then mask else 0) 7
    (initBuffer default)

/-- The lines DSR and CTS are found up. -/
def bothUp (B : BufferType) : Poll :=
  .sample (TIOCM_DSR ||| TIOCM_CTS) ⟨initBuffer B, valid_initBuffer B⟩

/-- **A line that is not told.** A client whose port is open asks for DSR
alone. DSR and CTS come up, and the client is told of DSR. It then asks
for CTS as well: CTS is up, and the client is not told. -/
theorem cts_not_told :
    ∃ s r r', mainLoop default default (.standalone 3)
        [{ ready := { socketConnect := true }, csock := some 4, openFd := some 5 }] = .ok s ∧
      run Report.step ⟨s, [], []⟩ [setMask TNCOM_MODMASK_DSR, bothUp default,
        setMask (TNCOM_MODMASK_DSR ||| TNCOM_MODMASK_CTS)] = .ok r ∧
      r.step (bothUp default) = .ok r' ∧ ModemLine.CTS.In r'.main.g.modemStateMask ∧
      told r'.notices .CTS = false ∧ ModemLine.CTS.Up (TIOCM_DSR ||| TIOCM_CTS) := by
  decide +kernel

end

end Sercd
