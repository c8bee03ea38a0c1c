import Cnu680.Framework.Monitor
import Cnu680.Sercd.Blocking
import Cnu680.Sercd.Capacity

/-! # sercd: suspended flow

A client suspends the flow with FLOWCONTROL-SUSPEND and takes it up again
with FLOWCONTROL-RESUME. `InputFlow` is tested when the events are armed,
at the top of an iteration, and changed by the commands that `socketIn`
handles in the middle of it.

* `marks` is the log of an iteration: what was appended to `ToNetBuf` and
  by which handler, the flow commands in the order in which they were
  handled, and the end of the session.
* `HeldSilent` is the property of a log; `watch` is its monitor.
* The device is read before the commands are handled. The modem state is
  looked at after them, by a handler that was armed before.
-/

open Framework

namespace Sercd

/-! ### The log of an iteration -/

inductive Mark where
  /-- The handler appended to `ToNetBuf`. -/
  | appended (k : Stage)
  | suspended
  | resumed
  /-- The client was dropped. -/
  | ended
  deriving DecidableEq, Repr

/-- The value that a command gives to `InputFlow`, if it comes to the
branches of `HandleCPCCommand` that set it. -/
def Globals.flowCommand (g : Globals) (cmd : Command) : Option Bool :=
  if cmd.verb = TNSB ∧ ((g.tnstate cmd.option).is_will ∨ (g.tnstate cmd.option).is_do) ∧
      cmd.option = TNCOM_PORT_OPTION then
    if cmd.parm = TNCAS_FLOWCONTROL_SUSPEND then some false
    else if cmd.parm = TNCAS_FLOWCONTROL_RESUME then some true
    else none
  else none

/-- The mark of a flow command. -/
def flowMark : Option Bool → List Mark
  | some false => [.suspended]
  | some true => [.resumed]
  | none => []

/-- What an action of `EscRedirectChar` logs: the flow command, and the
reply if there is one. -/
def Action.marks (g : Globals) : Action → List Mark
  | .handle cmd CSize =>
    flowMark (g.flowCommand cmd) ++
      if (Action.handle cmd CSize).toNet g = [] then [] else [.appended .socketIn]
  | _ => []

/-- What a byte from the network logs. -/
def byteMarks (g : Globals) (C : UInt8) : List Mark :=
  match parse g.isDo g.parser C with
  | .ok (p, a) => a.marks { g with parser := p }
  | .error _ => []

/-- The loop of `escRedirectLoop`, logged. -/
def redirectMarks (readbuf : Vector UInt8 512) (g : Globals) (SockB DevB : BufferType)
    (iobytes : UInt32) : List Mark :=
  runLog (fun (x : Globals × BufferType × BufferType) i => do
      let C ← readAt readbuf i
      escRedirectChar x.1 x.2.1 x.2.2 C)
    (fun x i =>
      match readAt readbuf i with
      | .ok C => byteMarks x.1 C
      | .error _ => [])
    (g, SockB, DevB) (List.range iobytes.toNat)

/-- What a handler logs that was run. `AddToBuffer` moves `WrPos`; what
`socketIn` appends is logged byte by byte, in order with the flow
commands. A handler that ends the iteration has dropped the client. -/
def Stage.marks (i : Inputs) (k : Stage) (s : Main) : Flow Main → List Mark
  | .continue _ => [.ended]
  | .next t =>
    if k = .socketIn then
      redirectMarks (fill s.readbuf (i.netRead.data (netTrybytes s))) s.g s.toNetBuf s.toDevBuf
        (UInt32.ofInt (i.netRead.value (netTrybytes s)))
    else if t.toNetBuf.wrPos = s.toNetBuf.wrPos then [] else [.appended k]

/-- What a handler logs, under its test. -/
def execMarks (selret : Events) (i : Inputs) (k : Stage) (s : Main) (f : Flow Main) : List Mark :=
  if selret.reports k then k.marks i s f else []

/-- What an iteration logs. -/
def iterationMarks (s : Main) (i : Inputs) : List Mark :=
  match select s i with
  | .ok selret =>
    if selret = {} then []
    else pipelineLog (Stage.exec selret i) (execMarks selret i) stages (s.observe i)
  | .error _ => []

/-- What a run of the main loop logs. -/
def marks (s : Main) (is : List Inputs) : List Mark := runLog iteration iterationMarks s is

/-! ### The property and its monitor -/

/-- **From a suspension to the next resumption or the end of the session,
only the handler of the client's commands appends to `ToNetBuf`.** -/
def HeldSilent (l : List Mark) : Prop :=
  ∀ pre mid post k, l = pre ++ .suspended :: mid ++ .appended k :: post →
    .resumed ∉ mid → .ended ∉ mid → k = .socketIn

/-- Reads a log and keeps whether the flow is suspended; stops at what
should not have been appended. -/
def watch (suspended : Bool) : Mark → Except Stage Bool
  | .appended k => if suspended = true ∧ k ≠ .socketIn then .error k else .ok suspended
  | .suspended => .ok true
  | .resumed | .ended => .ok false

theorem watch_appended {b b' : Bool} {k : Stage} (h : watch b (.appended k) = .ok b') :
    b' = b ∧ (b = true → k = .socketIn) := by
  have hif : (if b = true ∧ k ≠ .socketIn then Except.error k else .ok b) = .ok b' := h
  split at hif
  · cases hif
  · next hnot =>
    cases hif
    exact ⟨rfl, fun hb => Classical.not_not.mp fun hne => hnot ⟨hb, hne⟩⟩

theorem watch_suspended {l : List Mark} {b : Bool} (hres : .resumed ∉ l) (hend : .ended ∉ l)
    (h : run watch true l = .ok b) : b = true := by
  induction l with
  | nil =>
    cases h
    rfl
  | cons m l ih =>
    simp only [List.mem_cons, not_or] at hres hend
    obtain ⟨b', hb', hrest⟩ := bind_eq_ok.mp h
    have hkeep : b' = true := by
      match m with
      | .suspended =>
        cases hb'
        rfl
      | .resumed => exact absurd rfl hres.1
      | .ended => exact absurd rfl hend.1
      | .appended k => exact (watch_appended hb').1
    subst hkeep
    exact ih hres.2 hend.2 hrest

/-- **A log that the monitor accepts is silent.** -/
theorem heldSilent_of_watch {l : List Mark} {b b' : Bool} (h : run watch b l = .ok b') :
    HeldSilent l := by
  rintro pre mid post k rfl hres hend
  rw [List.append_assoc, run_append] at h
  obtain ⟨b₁, -, h⟩ := bind_eq_ok.mp h
  obtain ⟨b₂, hsus, h⟩ := bind_eq_ok.mp h
  cases hsus
  change run watch true (mid ++ .appended k :: post) = .ok b' at h
  rw [run_append] at h
  obtain ⟨b₃, hmid, h⟩ := bind_eq_ok.mp h
  cases watch_suspended hres hend hmid
  obtain ⟨b₄, happ, -⟩ := bind_eq_ok.mp h
  exact (watch_appended happ).2 rfl

/-! ### The flow through the commands -/

theorem inputFlow_ite {c : Prop} [Decidable c] {x y : Globals × Reply} {b : Bool}
    (hx : x.1.inputFlow = b) (hy : y.1.inputFlow = b) : (if c then x else y).1.inputFlow = b :=
  branch_ite (P := (·.inputFlow = b)) hx hy

theorem cpcBranch_inputFlow (g : Globals) (cmd : Command) (CSize : Nat) :
    (cpcBranch g cmd CSize).1.inputFlow =
      if cmd[3] = TNCAS_FLOWCONTROL_SUSPEND then false
      else if cmd[3] = TNCAS_FLOWCONTROL_RESUME then true
      else g.inputFlow := by
  by_cases hsus : cmd[3] = TNCAS_FLOWCONTROL_SUSPEND
  · rw [if_pos hsus]
    unfold cpcBranch
    simp only [hsus]
    rfl
  rw [if_neg hsus]
  by_cases hres : cmd[3] = TNCAS_FLOWCONTROL_RESUME
  · rw [if_pos hres]
    unfold cpcBranch
    simp only [hres]
    rfl
  rw [if_neg hres]
  -- no other branch changes it
  have hcontrol : (controlBranch g cmd[4]).1.inputFlow = g.inputFlow := by
    iterate 5 refine inputFlow_ite rfl ?_
    rfl
  unfold cpcBranch
  rw [if_neg hsus, if_neg hres]
  refine inputFlow_ite (inputFlow_ite rfl rfl) ?_
  iterate 4 refine inputFlow_ite rfl ?_
  refine inputFlow_ite hcontrol ?_
  iterate 3 refine inputFlow_ite rfl ?_
  rfl

theorem iacBranch_inputFlow (g : Globals) (cmd : Command) (CSize : Nat) :
    (iacBranch g cmd CSize).1.inputFlow = (g.flowCommand cmd).getD g.inputFlow := by
  have henable : ∀ o : UInt8, (if o = TNCOM_PORT_OPTION then { g with portControlEnable := true }
      else g).inputFlow = g.inputFlow := by
    intro o
    split <;> rfl
  unfold Globals.flowCommand
  -- only a com port command of an agreed option can reach `InputFlow`
  by_cases hsb : cmd[1] = TNSB
  · by_cases hagreed : (g.tnstate cmd[2]).is_will ∨ (g.tnstate cmd[2]).is_do
    · by_cases hport : cmd[2] = TNCOM_PORT_OPTION
      · rw [if_pos ⟨hsb, hagreed, hport⟩]
        unfold iacBranch
        rw [if_pos hsb, if_neg (not_not_intro hagreed), if_pos hport, cpcBranch_inputFlow]
        split
        · rfl
        · split <;> rfl
      · rw [if_neg (fun h => hport h.2.2)]
        unfold iacBranch
        rw [if_pos hsb, if_neg (not_not_intro hagreed), if_neg hport]
        rfl
    · rw [if_neg (fun h => hagreed h.2.1)]
      unfold iacBranch
      rw [if_pos hsb, if_pos hagreed]
      rfl
  · rw [if_neg (fun h => hsb h.1)]
    unfold iacBranch
    rw [if_neg hsb]
    -- a negotiation may enable port control, which the flow does not depend on
    refine inputFlow_ite ?will (inputFlow_ite ?doOpt (inputFlow_ite rfl (inputFlow_ite rfl rfl)))
    case will | doOpt => exact inputFlow_ite (henable _) rfl

/-- The monitor accepts what a byte logs, and goes on with what the byte
leaves in `InputFlow`. -/
theorem byteMarks_accepts {b : Bool} {x : Globals × BufferType × BufferType} (C : UInt8)
    (hb : b = true → x.1.inputFlow = false) :
    Accepts watch b (byteMarks x.1 C) fun b' =>
      ∀ y, escRedirectChar x.1 x.2.1 x.2.2 C = .ok y → b' = true → y.1.inputFlow = false := by
  rw [escRedirectChar_eq]
  unfold byteMarks
  match parse x.1.isDo x.1.parser C with
  | .error e =>
    apply accepts_nil
    intro y hy
    cases hy
  | .ok (p, a) =>
    -- the globals that the byte leaves do not depend on the buffers
    suffices haccepts : Accepts watch b (a.marks { x.1 with parser := p }) fun b' =>
        b' = true → (a.after { x.1 with parser := p }).inputFlow = false by
      apply haccepts.mono
      intro b' hb' y hy
      rw [ok_bind] at hy
      obtain ⟨S, -, hy⟩ := bind_eq_ok.mp hy
      obtain ⟨D, -, hy⟩ := bind_eq_ok.mp hy
      cases hy
      exact hb'
    match a with
    | .nothing => exact accepts_nil hb
    | .toDevice C => exact accepts_nil hb
    | .handle cmd CSize =>
      have hflow : ((Action.handle cmd CSize).after { x.1 with parser := p }).inputFlow =
          (Globals.flowCommand { x.1 with parser := p } cmd).getD x.1.inputFlow :=
        iacBranch_inputFlow { x.1 with parser := p } cmd CSize
      unfold Action.marks
      rw [hflow]
      apply Accepts.append (Q := fun b' => b' = true →
        (Globals.flowCommand { x.1 with parser := p } cmd).getD x.1.inputFlow = false)
      · match Globals.flowCommand { x.1 with parser := p } cmd with
        | none => exact accepts_nil hb
        | some true => exact ⟨false, rfl, nofun⟩
        | some false => exact ⟨true, rfl, fun _ => rfl⟩
      · -- a reply is always accepted
        intro b' hb'
        split
        · exact accepts_nil hb'
        · exact ⟨b', by simp [run, watch], hb'⟩

theorem redirectMarks_accepts {readbuf : Vector UInt8 512} {g : Globals} {S D : BufferType}
    {iobytes : UInt32} {b : Bool} (hb : b = true → g.inputFlow = false) :
    Accepts watch b (redirectMarks readbuf g S D iobytes) fun b' =>
      ∀ y, escRedirectLoop readbuf g S D iobytes = .ok y → b' = true → y.1.inputFlow = false := by
  apply runLog_accepts (R := fun b (x : Globals × BufferType × BufferType) =>
    b = true → x.1.inputFlow = false) _ hb
  intro b x i hb
  match readAt readbuf i with
  | .error e =>
    apply accepts_nil
    intro y hy
    cases hy
  | .ok C => exact byteMarks_accepts C hb

/-! ### The monitor beside the loop -/

/-- What the monitor knows: while it takes the flow to be suspended, it is,
and there is a client. -/
structure Watched (b : Bool) (s : Main) : Prop where
  connected : s.Connected
  flow : b = true → s.g.inputFlow = false
  client : b = true → s.inSocketFd.isSome

section
variable {selret : Events} {i : Inputs} {s : Main} {f : Flow Main} {b : Bool} {k : Stage} {t : Main}
  {readbuf : Vector UInt8 512}

theorem watched_of_connected (h : s.Connected) : Watched false s :=
  ⟨h, fun hb => absurd hb (by decide), fun hb => absurd hb (by decide)⟩

theorem Moved.client (h : Moved s (.next t)) (hs : s.inSocketFd.isSome) : t.inSocketFd.isSome := by
  cases h with
  | keep h =>
    rw [h.inSocket]
    exact hs
  | accept csock hfree hdev hin hout hl =>
    rw [hin]
    rfl
  | opened fd hin hout hdev hin' hout' hl =>
    rw [hin']
    exact hin

/-- A handler that appends nothing and leaves `InputFlow` while the flow is
suspended is accepted. -/
theorem execMarks_accepts_of_quiet (hin : k ≠ .socketIn) (hR : Watched b s)
    (h : k.exec selret i s = .ok f)
    (hquiet : b = true → ∀ t, f = .next t →
      t.toNetBuf.wrPos = s.toNetBuf.wrPos ∧ t.g.inputFlow = s.g.inputFlow) :
    Accepts watch b (execMarks selret i k s f) fun b' => Watched b' f.state := by
  have hmoved := exec_moved h
  have hconn := hmoved.connected hR.connected
  unfold execMarks
  split
  · match f with
    | .continue t => exact ⟨false, rfl, watched_of_connected hconn⟩
    | .next t =>
      have hkeep : Watched b t := by
        refine ⟨hconn, fun hb => ?_, fun hb => hmoved.client (hR.client hb)⟩
        rw [(hquiet hb t rfl).2]
        exact hR.flow hb
      simp only [Stage.marks, if_neg hin]
      split
      · exact accepts_nil hkeep
      · next hne =>
        -- something was appended, so the flow is not suspended
        have hb : b = false := by
          cases b with
          | false => rfl
          | true => exact absurd (hquiet rfl t rfl).1 hne
        subst hb
        exact ⟨false, rfl, hkeep⟩
  · next hno =>
    rw [Stage.exec, if_neg hno] at h
    cases h
    exact accepts_nil hR

theorem deviceIn_accepts (hR : Watched b s) (hsel : b = true → selret.deviceIn = false)
    (h : Stage.deviceIn.exec selret i s = .ok f) :
    Accepts watch b (execMarks selret i .deviceIn s f) fun b' => Watched b' f.state := by
  apply execMarks_accepts_of_quiet (by decide) hR h
  rintro hb t rfl
  have hno : ¬ selret.reports .deviceIn = true := by
    rw [Events.reports, hsel hb]
    decide
  rw [Stage.exec, if_neg hno] at h
  cases h
  exact ⟨rfl, rfl⟩

section
variable (hk : k = .deviceOut ∨ k = .socketOut ∨ k = .socketConnect ∨ k = .openDevice)
include hk

/-- The handlers that write and connect leave what is appended to a client
and `InputFlow` alone, and with an open port all the globals. -/
theorem handle_quiet (hin : s.inSocketFd.isSome) (hout : s.outSocketFd.isSome)
    (h : k.handle i s = .ok (.next t)) :
    t.toNetBuf.wrPos = s.toNetBuf.wrPos ∧ t.g.inputFlow = s.g.inputFlow ∧
      (s.deviceFd.isSome → t.g = s.g) := by
  have hrefl : s.toNetBuf.wrPos = s.toNetBuf.wrPos ∧ s.g.inputFlow = s.g.inputFlow ∧
      (s.deviceFd.isSome → s.g = s.g) := ⟨rfl, rfl, fun _ => rfl⟩
  rcases hk with rfl | rfl | rfl | rfl
  · unfold Stage.handle deviceOut at h
    dsimp only [Main.record] at h
    split at h
    · cases h
    split at h
    · cases h
    · cases h
      exact hrefl
  · unfold Stage.handle socketOut at h
    dsimp only [Main.record] at h
    split at h
    · cases h
    split at h
    · cases h
    · cases h
      exact hrefl
  · unfold Stage.handle socketConnect at h
    dsimp only at h
    split at h
    · cases h
    split at h
    · cases h
      exact hrefl
    · -- with a client there is no second one to greet
      rw [if_pos ⟨hin, hout⟩] at h
      cases h
      exact hrefl
  · unfold Stage.handle openDevice at h
    dsimp only [Main.record] at h
    split at h
    · next hclosed =>
      split at h
      · cases h
      · cases h
        refine ⟨rfl, rfl, fun hopen => ?_⟩
        exact absurd hclosed.2.2 (by simp [Option.isNone_eq_false_iff.mpr hopen])
    · cases h
      exact hrefl

theorem exec_quiet (hs : s.Connected) (hin : s.inSocketFd.isSome)
    (h : k.exec selret i s = .ok (.next t)) :
    t.toNetBuf.wrPos = s.toNetBuf.wrPos ∧ t.g.inputFlow = s.g.inputFlow ∧
      (s.deviceFd.isSome → t.g = s.g) := by
  unfold Stage.exec at h
  split at h
  · exact handle_quiet hk hin (hs.sockets ▸ hin) h
  · cases h
    exact ⟨rfl, rfl, fun _ => rfl⟩

theorem exec_accepts (hR : Watched b s) (h : k.exec selret i s = .ok f) :
    Accepts watch b (execMarks selret i k s f) fun b' => Watched b' f.state := by
  have hin : k ≠ .socketIn := by rcases hk with rfl | rfl | rfl | rfl <;> decide
  apply execMarks_accepts_of_quiet hin hR h
  rintro hb t rfl
  obtain ⟨hpos, hflow, -⟩ := exec_quiet hk hR.connected (hR.client hb) h
  exact ⟨hpos, hflow⟩

end

theorem socketIn_accepts (hR : Watched b s) (h : Stage.socketIn.exec selret i s = .ok f) :
    Accepts watch b (execMarks selret i .socketIn s f) fun b' => Watched b' f.state := by
  have hconn := (exec_moved h).connected hR.connected
  unfold execMarks
  split
  · next hrep =>
    rw [Stage.exec, if_pos hrep] at h
    unfold Stage.handle socketIn at h
    dsimp only [Main.record] at h
    split at h
    · cases h
    next hclient =>
    split at h
    · cases h
      -- the connection is dropped: the suspension is over
      exact ⟨false, rfl, watched_of_connected hconn⟩
    split at h
    · cases h
    obtain ⟨⟨g, S, D⟩, hloop, hf⟩ := bind_eq_ok.mp h
    cases hf
    apply (redirectMarks_accepts hR.flow).mono
    intro b' hb'
    exact ⟨hconn, hb' _ (stopOn_eq_ok.mp hloop), fun _ => isSome_of_not_isNone hclient⟩
  · next hno =>
    rw [Stage.exec, if_neg hno] at h
    cases h
    exact accepts_nil hR

/-- The modem state is not notified if nothing is to be notified while the
flow is suspended. -/
theorem modemState_accepts (hR : Watched b s)
    (hheld : selret.modemstate = true → s.g.Notifies → s.g.inputFlow = true)
    (h : Stage.modemState.exec selret i s = .ok f) :
    Accepts watch b (execMarks selret i .modemState s f) fun b' => Watched b' f.state := by
  apply execMarks_accepts_of_quiet (by decide) hR h
  rintro hb t rfl
  unfold Stage.exec at h
  split at h
  · next hrep =>
    -- while suspended there is nothing to notify, by the condition
    have hno : ¬ s.g.Notifies := by
      intro hnotify
      have hflow := hheld hrep hnotify
      rw [hR.flow hb] at hflow
      cases hflow
    unfold Stage.handle modemState at h
    dsimp only [Main.record] at h
    split at h
    · cases h
    split at h
    · next hnotify => exact absurd hnotify hno
    · cases h
      exact ⟨rfl, rfl⟩
  · cases h
    exact ⟨rfl, rfl⟩

theorem select_armed {selret : Events} (h : select s i = .ok selret) :
    selret = (armed s).inter i.ready := by
  rw [select_view] at h
  rw [armed_view]
  exact Relay.select_armed h

/-! The globals with which the modem state is looked at. -/

theorem escRedirectLoop_answer {d l : List UInt8} {g : Globals} {S D : BufferType}
    {y : Globals × BufferType × BufferType} (hd : d.length ≤ 512)
    (h : escRedirectLoop (fill readbuf d) g S D (UInt32.ofInt d.length) = .ok y) :
    ∃ out, run Relay.answer (g, l) d = .ok (y.1, out) := by
  rw [escRedirectLoop_fill readbuf hd] at h
  clear hd
  induction d generalizing g S D l with
  | nil =>
    cases h
    exact ⟨l, rfl⟩
  | cons C d ih =>
    obtain ⟨x, hx, hrest⟩ := bind_eq_ok.mp h
    dsimp only at hx
    rw [escRedirectChar_eq] at hx
    obtain ⟨⟨p, act⟩, hparse, hx⟩ := bind_eq_ok.mp hx
    obtain ⟨S', -, hx⟩ := bind_eq_ok.mp hx
    obtain ⟨D', -, hx⟩ := bind_eq_ok.mp hx
    cases hx
    have hanswer : Relay.answer (g, l) C = .ok (act.after { g with parser := p },
        l ++ act.toNet { g with parser := p }) := by
      rw [Relay.answer, hparse]
      rfl
    rw [run_cons, hanswer]
    exact ih hrest

theorem escWriteLoop_g {g : Globals} {B : BufferType} {iobytes : UInt32} {y : Globals × BufferType}
    (h : escWriteLoop readbuf g B iobytes = .ok y) : ∃ last, y.1 = { g with escLast := last } := by
  apply run_invariant
    (I := fun x : Globals × BufferType => ∃ last, x.1 = { g with escLast := last }) _ ⟨_, rfl⟩ h
  rintro ⟨_, B⟩ i x' ⟨last, rfl⟩ hstep
  obtain ⟨C, -, hstep⟩ := bind_eq_ok.mp hstep
  rw [escWriteChar_emits] at hstep
  obtain ⟨B', -, hB'⟩ := bind_eq_ok.mp hstep
  cases hB'
  exact ⟨C, rfl⟩

theorem exec_deviceIn_g (h : Stage.deviceIn.exec selret i s = .ok (.next t)) :
    ∃ last, t.g = { s.g with escLast := last } := by
  unfold Stage.exec at h
  split at h
  · unfold Stage.handle deviceIn at h
    dsimp only [Main.record] at h
    split at h
    · cases h
    split at h
    · cases h
    · obtain ⟨x, hx, hf⟩ := bind_eq_ok.mp h
      cases hf
      exact escWriteLoop_g (stopOn_eq_ok.mp hx)
  · cases h
    exact ⟨_, rfl⟩

theorem exec_quiet_g (hk : k = .deviceOut ∨ k = .socketOut ∨ k = .socketConnect ∨ k = .openDevice)
    (hs : s.Connected ∧ s.deviceFd.isSome) (h : k.exec selret i s = .ok (.next t)) : t.g = s.g :=
  (exec_quiet hk hs.1 (hs.1.device hs.2) h).2.2 hs.2

theorem exec_socketIn_g (hread : selret.reports .socketIn = true)
    (h : Stage.socketIn.exec selret i s = .ok (.next t)) :
    ∃ n out, run Relay.answer (s.g, []) (i.netRead.data n) = .ok (t.g, out) := by
  rw [Stage.exec, if_pos hread] at h
  -- a read that would block stops the process
  have hblock : i.netRead ≠ .fail EWOULDBLOCK := by
    intro hblock
    obtain ⟨e, he⟩ := socketIn_block s i
    rw [← hblock] at he
    cases h.symm.trans he
  unfold Stage.handle socketIn at h
  dsimp only [Main.record] at h
  split at h
  · cases h
  split at h
  · cases h
  next hdata =>
  rw [ioResultError_read hblock] at hdata
  split at h
  · cases h
  obtain ⟨x, hx, hf⟩ := bind_eq_ok.mp h
  cases hf
  have hlen := read_data_length i.netRead (netTrybytes s)
  have hcount := netCount_toNat s.view
  rw [read_value hdata] at hx
  rw [netCount_eq] at hlen
  exact ⟨_, escRedirectLoop_answer (by rw [netCount_eq]; omega) (stopOn_eq_ok.mp hx)⟩

theorem exec_open (hs : s.Connected ∧ s.deviceFd.isSome)
    (h : k.exec selret i s = .ok (.next t)) : t.Connected ∧ t.deviceFd.isSome := by
  have hmoved := exec_moved h
  refine ⟨hmoved.connected hs.1, ?_⟩
  cases hmoved with
  | keep h => exact h.device ▸ hs.2
  | accept csock hfree hdev => exact hdev ▸ hs.2
  | opened fd hin hout hdev => exact hdev ▸ rfl

/-- **The condition on an iteration**: if the bytes of the client and the
modem lines are reported together, then whatever part of the bytes is
read, its commands do not both suspend the flow and leave a change of the
lines to notify. -/
def FlowHeld (s : Main) (i : Inputs) : Prop :=
  ((armed s).inter i.ready).socketIn = true → ((armed s).inter i.ready).modemstate = true →
    ∀ n last g out, run Relay.answer ({ (s.observe i).g with escLast := last }, [])
      (i.netRead.data n) = .ok (g, out) → g.inputFlow = false → ¬ g.Notifies

/-- **With the condition, the modem state is notified with the flow on.** -/
theorem FlowHeld.inputFlow (hheld : FlowHeld s i) (hs : s.Connected)
    (hsel : select s i = .ok selret) (hmodem : selret.modemstate = true)
    (h : pipeline (Stage.exec selret i) earlier (s.observe i) = .ok (.next t))
    (hnotify : t.g.Notifies) : t.g.inputFlow = true := by
  have harmed := hmodem
  rw [select_armed hsel] at harmed
  simp only [Events.inter, armed, Bool.and_eq_true] at harmed
  have hopen : (s.observe i).Connected ∧ (s.observe i).deviceFd.isSome :=
    ⟨⟨hs.sockets, hs.device⟩, harmed.1.1.1.1⟩
  obtain ⟨u₁, h₁, h⟩ := pipeline_cons_eq_next.mp h
  obtain ⟨u₂, h₂, h⟩ := pipeline_cons_eq_next.mp h
  obtain ⟨u₃, h₃, h⟩ := pipeline_cons_eq_next.mp h
  obtain ⟨u₄, h₄, h⟩ := pipeline_cons_eq_next.mp h
  obtain ⟨u₅, h₅, h⟩ := pipeline_cons_eq_next.mp h
  obtain ⟨u₆, h₆, h⟩ := pipeline_cons_eq_next.mp h
  cases h
  have ho₁ := exec_open hopen h₁
  have ho₂ := exec_open ho₁ h₂
  have ho₄ := exec_open (exec_open ho₂ h₃) h₄
  have ho₅ := exec_open ho₄ h₅
  -- what is escaped before the client is read does not change how it is answered
  obtain ⟨last, hlast⟩ := exec_deviceIn_g h₁
  have hg₃ : u₃.g = { (s.observe i).g with escLast := last } := by
    rw [exec_quiet_g (by simp) ho₂ h₃, exec_quiet_g (by simp) ho₁ h₂, hlast]
  rw [exec_quiet_g (by simp) ho₅ h₆, exec_quiet_g (by simp) ho₄ h₅] at hnotify ⊢
  by_cases hread : selret.reports .socketIn = true
  · obtain ⟨n, out, hanswer⟩ := exec_socketIn_g hread h₄
    rw [hg₃] at hanswer
    by_contra hflow
    rw [select_armed hsel] at hread hmodem
    exact hheld hread hmodem n last _ out hanswer (Bool.eq_false_iff.mpr hflow) hnotify
  · -- the poll was armed with the flow on, and nothing has changed it since
    rw [Stage.exec, if_neg hread] at h₄
    cases h₄
    rw [hg₃]
    exact harmed.1.1.2

theorem earlier_accepts (hR : Watched b s) (hsel : select s i = .ok selret) :
    RoundAccepts watch (Stage.exec selret i) (execMarks selret i) Watched b earlier
      (s.observe i) := by
  have hobs : Watched b (s.observe i) :=
    ⟨⟨hR.connected.sockets, hR.connected.device⟩, hR.flow, hR.client⟩
  -- reading the device was not armed if the flow was suspended
  have hunarmed : b = true → selret.deviceIn = false := by
    intro hb
    rw [select_armed hsel]
    simp only [Events.inter, armed, hR.flow hb, Bool.and_false, Bool.false_and]
  have hfirst : RoundAccepts watch (Stage.exec selret i) (execMarks selret i) Watched b
      [.deviceIn] (s.observe i) :=
    roundAccepts_single fun f hf => deviceIn_accepts hobs hunarmed hf
  have hsplit : earlier =
      [.deviceIn] ++ [.deviceOut, .socketOut, .socketIn, .socketConnect, .openDevice] := rfl
  rw [hsplit]
  refine hfirst.append fun b' t _ hR' => roundAccepts_of_handlers ?_ hR'
  intro k hk b s f hR h
  simp only [List.mem_cons, List.not_mem_nil, or_false] at hk
  rcases hk with rfl | rfl | rfl | rfl | rfl
  · exact exec_accepts (by simp) hR h
  · exact exec_accepts (by simp) hR h
  · exact socketIn_accepts hR h
  · exact exec_accepts (by simp) hR h
  · exact exec_accepts (by simp) hR h

/-- **The monitor accepts every iteration that meets the condition.** -/
theorem iteration_accepts (hR : Watched b s) (hheld : FlowHeld s i) :
    Accepts watch b (iterationMarks s i)
      fun b' => ∀ s', iteration s i = .ok s' → Watched b' s' := by
  unfold iterationMarks iteration
  match hsel : select s i with
  | .error e =>
    apply accepts_nil
    intro s' hs'
    cases hs'
  | .ok selret =>
    rw [ok_bind]
    dsimp only
    split
    · apply accepts_nil
      intro s' hs'
      cases hs'
      exact hR
    have hround : RoundAccepts watch (Stage.exec selret i) (execMarks selret i) Watched b stages
        (s.observe i) := by
      rw [stages_eq]
      refine (earlier_accepts hR hsel).append fun b' t ht hR' => ?_
      exact roundAccepts_single fun f hf => modemState_accepts hR'
        (fun hmodem => hheld.inputFlow hR.connected hsel hmodem ht) hf
    apply Accepts.mono hround
    intro b' hb' s' hs'
    obtain ⟨f, hf, hret⟩ := bind_eq_ok.mp hs'
    cases hret
    exact hb' f hf

theorem flowHeld_of_apart (h : i.ready.socketIn = false ∨ i.ready.modemstate = false) :
    FlowHeld s i := by
  intro hread hmodem
  rcases h with h | h
  · simp [Events.inter, h] at hread
  · simp [Events.inter, h] at hmodem

end

/-- A session in which the client agrees to port control and begins a
command. -/
def agreeing : List Inputs :=
  [{ ready := { socketOut := true }, netWrite := .room 18, openFd := some 3 },
   { ready := { socketIn := true }, netRead := .bytes [TNIAC, TNWILL, TNCOM_PORT_OPTION] },
   { ready := { socketIn := true }, netRead := .bytes [TNIAC, TNSB, TNCOM_PORT_OPTION] }]

/-- The command suspends the flow. The device then has a byte and CTS
changes, and the client asks for an option. -/
def suspending : List Inputs :=
  agreeing ++
  [{ ready := { socketIn := true }, netRead := .bytes [TNCAS_FLOWCONTROL_SUSPEND, TNIAC, TNSE] },
   { ready := { deviceIn := true, modemstate := true }, devRead := .bytes [97],
     lines := fun _ => TIOCM_CTS },
   { ready := { socketIn := true }, netRead := .bytes [TNIAC, TNDO, TNCOM_PORT_OPTION] }]

/-- The same command, with the change of CTS in the iteration that handles
it. -/
def suspendingLate : List Inputs :=
  agreeing ++
  [{ ready := { socketIn := true, modemstate := true },
     netRead := .bytes [TNCAS_FLOWCONTROL_SUSPEND, TNIAC, TNSE], lines := fun _ => TIOCM_CTS }]

/-- **Suspended flow is silent**: in every run of the main loop whose
iterations meet the condition, whatever the system answers, nothing but
replies to the client's commands is appended to `ToNetBuf` from a
suspension to the next resumption or the end of the session. -/
theorem suspension_silent {cfg : Config} {mem : Memory} {mode : Mode} {s : Main}
    (is : List Inputs) (hs : start cfg mem mode = .ok s) (hheld : Along iteration FlowHeld s is) :
    HeldSilent (marks s is) := by
  have hR : Watched false s := watched_of_connected (start_connected hs).1
  obtain ⟨b, hb, -⟩ :=
    runLog_accepts_along (fun b s i hR hC => iteration_accepts hR hC) hR hheld
  exact heldSilent_of_watch hb

theorem suspension_silent_reply :
    ∃ s, start default default .inetd = .ok s ∧
      marks s suspending = [.suspended, .appended .socketIn] ∧ HeldSilent (marks s suspending) := by
  have hsep : ∀ i ∈ suspending, i.ready.socketIn = false ∨ i.ready.modemstate = false := by decide
  obtain ⟨s, hs, hmarks⟩ : ∃ s, start default default .inetd = .ok s ∧
      marks s suspending = [.suspended, .appended .socketIn] := by
    decide +kernel
  have hheld : Along iteration FlowHeld s suspending := by
    exact along_of_forall fun i hi s => flowHeld_of_apart (hsep i hi)
  exact ⟨s, hs, hmarks, suspension_silent suspending hs hheld⟩

/-- When the command and the change of CTS come in one iteration, the
notification follows the suspension. -/
theorem notified_while_suspended :
    ∃ s, start default default .inetd = .ok s ∧
      marks s suspendingLate = [.suspended, .appended .modemState] ∧
      ¬ HeldSilent (marks s suspendingLate) := by
  obtain ⟨s, hs, hmarks⟩ : ∃ s, start default default .inetd = .ok s ∧
      marks s suspendingLate = [.suspended, .appended .modemState] := by
    decide +kernel
  refine ⟨s, hs, hmarks, fun hsilent => ?_⟩
  have hk := hsilent [] [] [] .modemState hmarks (by simp) (by simp)
  cases hk

end Sercd
