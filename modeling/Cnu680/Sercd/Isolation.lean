import Cnu680.Sercd.Residue

/-! # sercd: one client after another

A standalone process serves one client after another, and accepting a
client initialises the telnet state and the queue to the network only.
The rest of the protocol state is what the client before has left.

* `Relay.Alike` relates two states that serve every client to come in
  the same way, and is kept by every iteration;
* `Relay.Served` is what is true of every state of a standalone process;
* `Globals.Clean` is what a client has to leave behind, so that the next
  one is served as by a process that was just started.
-/

open Framework

namespace Sercd

/-! ### The relation -/

/-- The two states serve every client to come in the same way. The first
has made the calls in `T` before. A queue counts while its descriptor is
there. -/
structure Relay.Alike (T : List Event) (sampled : Bool) (a b : Relay) : Prop where
  trace : a.trace = T ++ b.trace
  deviceFd : a.deviceFd = b.deviceFd
  inSocketFd : a.inSocketFd = b.inSocketFd
  outSocketFd : a.outSocketFd = b.outSocketFd
  lSocketFd : a.lSocketFd = b.lSocketFd
  toNet : b.outSocketFd.isSome = true → a.toNet = b.toNet
  toDev : b.deviceFd.isSome = true → a.toDev = b.toDev
  device : b.deviceFd.isSome = true → b.outSocketFd.isSome = true
  g : a.g.Alike b.outSocketFd.isSome b.deviceFd.isSome sampled b.g

section
variable {T : List Event} {a b : Relay} {i : Inputs} {x y : Relay.Streams}

theorem Relay.Alike.serves (h : a.Alike T true b) (hopen : b.deviceFd.isSome = true) :
    a.g.Serves b.g := by
  have hg := h.g
  rwa [h.device hopen, hopen] at hg

theorem Relay.Alike.record (h : a.Alike T true b) (e : Event) :
    (a.record e).Alike T true (b.record e) := by
  have htrace : a.trace ++ [e] = T ++ (b.trace ++ [e]) := by rw [h.trace, List.append_assoc]
  exact { h with trace := htrace }

theorem closePort_lines (P : Port) : (closePort P).lines = P.lines := by
  unfold closePort
  split <;> rfl

theorem closePort_gets (P : Port) : (closePort P).gets = P.gets := by
  unfold closePort
  split <;> rfl

theorem Relay.Alike.drop (h : a.Alike T true b) : a.drop.Alike T true b.drop := by
  have htrace : a.trace ++ [.dropped] = T ++ (b.trace ++ [.dropped]) := by
    rw [h.trace, List.append_assoc]
  have hg : a.drop.g.Alike false false true b.drop.g := by
    unfold Relay.drop
    rw [h.deviceFd]
    by_cases hopen : b.deviceFd.isSome = true
    · -- the settings that were found when the port was opened come back
      have hserves := h.serves hopen
      simp only [if_pos hopen]
      exact { hserves with
        settings := closePort_alike hserves
        tnstate := nofun
        initial := nofun
        lines := fun _ => by rw [closePort_lines, closePort_lines, hserves.lines rfl]
        gets := fun _ => by rw [closePort_gets, closePort_gets, hserves.gets rfl] }
    · simp only [if_neg hopen]
      exact { h.g with tnstate := nofun, initial := nofun }
  exact ⟨htrace, rfl, rfl, rfl, h.lSocketFd, nofun, nofun, nofun, hg⟩

theorem deviceIn_alike (h : a.Alike T true b) :
    Agree (Flow.Rel (Relay.Alike T true)) (a.deviceIn i) (b.deviceIn i) := by
  unfold Relay.deviceIn
  dsimp only
  apply Agree.ite (by rw [h.deviceFd])
  · intro _
    exact .error _
  intro hdev
  have hopen := isSome_of_not_isNone hdev
  have hnet := h.toNet (h.device hopen)
  have hserves := h.serves hopen
  -- the same room, so the same count and the same bytes read
  have hcount : a.devCount = b.devCount := by
    unfold Relay.devCount
    rw [hnet]
  rw [hcount]
  apply Agree.ite Iff.rfl
  · intro _
    exact .ok (.continue (h.record _).drop)
  intro _
  rw [hnet, escape_alike hserves.escLast, hserves.isWill]
  apply (Agree.refl _).bind
  intro q q' hq
  refine .ok (.next { h.record _ with toNet := fun _ => hq, g := ?_ })
  exact { h.g with escLast := getLastD_alike h.g.escLast _ }

theorem deviceOut_alike (h : a.Alike T true b) :
    Agree (Flow.Rel (Relay.Alike T true)) (a.deviceOut i) (b.deviceOut i) := by
  unfold Relay.deviceOut
  dsimp only
  apply Agree.ite (by rw [h.deviceFd])
  · intro _
    exact .error _
  intro hdev
  rw [h.toDev (isSome_of_not_isNone hdev)]
  apply Agree.ite Iff.rfl
  · intro _
    exact .ok (.continue (h.record _).drop)
  intro _
  exact .ok (.next { h.record _ with toDev := fun _ => rfl })

theorem socketOut_alike (h : a.Alike T true b) :
    Agree (Flow.Rel (Relay.Alike T true)) (a.socketOut i) (b.socketOut i) := by
  unfold Relay.socketOut
  dsimp only
  apply Agree.ite (by rw [h.outSocketFd])
  · intro _
    exact .error _
  intro hout
  rw [h.toNet (isSome_of_not_isNone hout)]
  apply Agree.ite Iff.rfl
  · intro _
    exact .ok (.continue (h.record _).drop)
  intro _
  exact .ok (.next { h.record _ with toNet := fun _ => rfl })

theorem redirect_alike (hg : x.1.Serves y.1) (hq : x.2 = y.2) (C : UInt8) :
    Agree (fun x y : Relay.Streams => x.1.Serves y.1 ∧ x.2 = y.2) (Relay.redirect x C)
      (Relay.redirect y C) := by
  obtain ⟨g, toNet, toDev⟩ := x
  obtain ⟨g', toNet', toDev'⟩ := y
  obtain ⟨rfl, rfl⟩ := Prod.mk.injEq .. ▸ hq
  unfold Relay.redirect
  rw [hg.isDo]
  -- the parsers want the same done, and that queues the same bytes
  refine (parse_alike hg.parser g'.isDo C).bind ?_
  rintro ⟨p, act⟩ ⟨p', act'⟩ ⟨hp, hact⟩
  have hserves : ({ g with parser := p } : Globals).Serves { g' with parser := p' } :=
    { hg with parser := hp }
  obtain ⟨hdev, hnet, hafter⟩ := Action.alike_serves hserves hact
  dsimp only
  rw [hdev, hnet]
  apply (Agree.refl _).bind
  intro q q' hqq
  apply (Agree.refl _).bind
  intro r r' hrr
  exact .ok ⟨hafter, by rw [hqq, hrr]⟩

theorem run_redirect_alike (hg : x.1.Serves y.1) (hq : x.2 = y.2) (d : List UInt8) :
    Agree (fun x y : Relay.Streams => x.1.Serves y.1 ∧ x.2 = y.2) (run Relay.redirect x d)
      (run Relay.redirect y d) :=
  run_agree (P := fun _ => True) (fun _ _ C _ h => redirect_alike h.1 h.2 C)
    (fun _ _ => trivial) ⟨hg, hq⟩

/-- A read from the network, which is made while the port is open: only
then are both queues known to be the same. -/
theorem socketIn_alike (h : a.Alike T true b)
    (hsession : b.inSocketFd.isSome = true → b.deviceFd.isSome = true) :
    Agree (Flow.Rel (Relay.Alike T true)) (a.socketIn i) (b.socketIn i) := by
  unfold Relay.socketIn
  dsimp only
  apply Agree.ite (by rw [h.inSocketFd])
  · intro _
    exact .error _
  intro hin
  have hopen := hsession (isSome_of_not_isNone hin)
  have hnet := h.toNet (h.device hopen)
  have hdev := h.toDev hopen
  have hcount : a.netCount = b.netCount := by
    unfold Relay.netCount
    rw [hnet, hdev]
  rw [hcount]
  apply Agree.ite Iff.rfl
  · intro _
    exact .ok (.continue (h.record _).drop)
  intro _
  apply Agree.ite (by rw [h.deviceFd])
  · intro _
    exact .error _
  intro _
  have hqueues : (a.toNet, a.toDev) = (b.toNet, b.toDev) := by rw [hnet, hdev]
  have hrun := run_redirect_alike (x := (a.g, a.toNet, a.toDev)) (y := (b.g, b.toNet, b.toDev))
    (h.serves hopen) hqueues (i.netRead.data b.netCount)
  apply (hrun.mapError Halt.fault).bind
  intro x y hxy
  obtain ⟨hserves, hq⟩ := hxy
  exact .ok (.next { h.record (.readFromNet b.netCount i.netRead) with
    toNet := fun _ => congrArg Prod.fst hq
    toDev := fun _ => congrArg Prod.snd hq
    g := hserves.alike })

theorem socketConnect_alike (h : a.Alike T true b) :
    Agree (Flow.Rel (Relay.Alike T true)) (a.socketConnect i) (b.socketConnect i) := by
  unfold Relay.socketConnect
  apply Agree.ite (by rw [h.lSocketFd])
  · intro _
    exact .error _
  intro _
  match i.csock with
  | none => exact .ok (.next h)
  | some csock =>
    dsimp only
    apply Agree.ite (by rw [h.inSocketFd, h.outSocketFd])
    · intro _
      exact .ok (.next h)
    intro _
    exact .ok (.next ⟨(h.record (.accepted csock)).trace, h.deviceFd, rfl, rfl, h.lSocketFd,
      fun _ => rfl, h.toDev, fun _ => rfl, negotiating_alike h.g⟩)

theorem openDevice_alike (h : a.Alike T true b) :
    Agree (Flow.Rel (Relay.Alike T true)) (a.openDevice i) (b.openDevice i) := by
  unfold Relay.openDevice
  refine Agree.ite (by rw [h.inSocketFd, h.outSocketFd, h.deviceFd]) (fun hopen => ?_)
    fun _ => .ok (.next h)
  match i.openFd with
  | none => exact .ok (.continue h.drop)
  | some fd =>
    -- raw mode is set over the same settings, and those are remembered
    refine .ok (.next { h.record (.portOpened fd) with
      deviceFd := rfl, toDev := fun _ => rfl, device := fun _ => hopen.2.1, g := ?_ })
    have hsettings : (openPort a.g.port).settings = (openPort b.g.port).settings := by
      unfold openPort
      rw [h.g.settings]
    exact { h.g with settings := hsettings, initial := fun _ => congrArg some h.g.settings }

theorem modemState_alike (h : a.Alike T true b) :
    Agree (Flow.Rel (Relay.Alike T true)) a.modemState b.modemState := by
  unfold Relay.modemState
  dsimp only
  apply Agree.ite (by rw [h.deviceFd])
  · intro _
    exact .error _
  intro hdev
  have hopen := isSome_of_not_isNone hdev
  have hserves := h.serves hopen
  apply Agree.ite (notifies_alike hserves)
  · intro _
    rw [h.toNet (h.device hopen), notification_alike hserves]
    apply (Agree.refl _).bind
    intro q q' hq
    exact .ok (.next { h.record .getModemState with
      toNet := fun _ => hq, g := (notified_alike hserves).alike })
  · intro _
    exact .ok (.next { h.record .getModemState with g := (looked_alike hserves).alike })

end

/-! ### The iteration -/

/-- If a read from the network is due, the port is open, as long as there is
a connection. -/
def Relay.InSession (selret : Events) (b : Relay) : Prop :=
  selret.socketIn = true → b.inSocketFd.isSome = true → b.deviceFd.isSome = true

/-- The handlers up to the read from the network. -/
abbrev reading : List Stage := [.deviceIn, .deviceOut, .socketOut, .socketIn]

section
variable {T : List Event} {a b : Relay} {i : Inputs} {selret : Events} {sampled : Bool}

theorem inSession_drop (a : Relay) : a.drop.InSession selret := nofun

theorem handle_inSession {k : Stage} (hk : k ∈ reading) {f : Flow Relay}
    (h : b.InSession selret) (hf : b.handle i k = .ok f) : f.state.InSession selret := by
  match k with
  | .deviceIn =>
    obtain ⟨-, ⟨-, rfl⟩ | ⟨-, q, -, rfl⟩⟩ := Relay.deviceIn_ok hf
    · exact inSession_drop _
    · exact h
  | .deviceOut =>
    obtain ⟨-, ⟨-, rfl⟩ | ⟨-, rfl⟩⟩ := Relay.deviceOut_ok hf
    · exact inSession_drop _
    · exact h
  | .socketOut =>
    obtain ⟨-, ⟨-, rfl⟩ | ⟨-, rfl⟩⟩ := Relay.socketOut_ok hf
    · exact inSession_drop _
    · exact h
  | .socketIn =>
    obtain ⟨-, ⟨-, rfl⟩ | ⟨-, -, x, -, rfl⟩⟩ := Relay.socketIn_ok hf
    · exact inSession_drop _
    · exact h
  -- the other handlers come later
  | .socketConnect | .openDevice | .modemState => simp [reading] at hk

theorem exec_inSession {k : Stage} (hk : k ∈ reading) {f : Flow Relay} (h : b.InSession selret)
    (hf : Relay.exec selret i k b = .ok f) : f.state.InSession selret := by
  rcases Relay.exec_ok hf with ⟨-, hf⟩ | ⟨-, rfl⟩
  · exact handle_inSession hk h hf
  · exact h

theorem exec_alike (k : Stage) (h : a.Alike T true b)
    (hsession : k = .socketIn → b.InSession selret) :
    Agree (Flow.Rel (Relay.Alike T true)) (Relay.exec selret i k a) (Relay.exec selret i k b) := by
  refine Agree.ite Iff.rfl (fun hk => ?_) fun _ => .ok (.next h)
  match k with
  | .deviceIn => exact deviceIn_alike h
  | .deviceOut => exact deviceOut_alike h
  | .socketOut => exact socketOut_alike h
  | .socketIn => exact socketIn_alike h (hsession rfl hk)
  | .socketConnect => exact socketConnect_alike h
  | .openDevice => exact openDevice_alike h
  | .modemState => exact modemState_alike h

theorem handlers_alike (h : a.Alike T true b) (hsession : b.InSession selret) :
    Agree (Flow.Rel (Relay.Alike T true)) (pipeline (Relay.exec selret i) stages a)
      (pipeline (Relay.exec selret i) stages b) := by
  show Agree _ (pipeline _ (reading ++ [.socketConnect, .openDevice, .modemState]) a)
    (pipeline _ (reading ++ [.socketConnect, .openDevice, .modemState]) b)
  refine pipeline_agree_append ?_ fun s t hst => ?_
  · exact pipeline_agree_of_inv (fun k _ s t hst hI => exec_alike k hst fun _ => hI)
      (fun k hk t f hI hf => exec_inSession hk hI hf) h hsession
  · -- nothing is read from the network any more
    refine pipeline_agree_of_inv (I := fun _ => True) (fun k hk s t hst _ => ?_)
      (fun _ _ _ _ _ _ => trivial) hst trivial
    apply exec_alike k hst
    intro hin
    subst hin
    simp at hk

theorem armed_alike (h : a.Alike T sampled b) : a.armed = b.armed := by
  unfold Relay.armed
  rw [h.deviceFd, h.inSocketFd, h.outSocketFd, h.lSocketFd, h.g.inputFlow, h.g.portControlEnable]
  by_cases hout : b.outSocketFd.isSome = true
  · rw [h.toNet hout]
    by_cases hopen : b.deviceFd.isSome = true
    · rw [h.toDev hopen]
    · simp only [Bool.not_eq_true] at hopen
      simp only [hopen, Bool.false_and]
  · have hopen : b.deviceFd.isSome = false :=
      Bool.not_eq_true _ ▸ fun hopen => hout (h.device hopen)
    simp only [Bool.not_eq_true] at hout
    simp only [hopen, hout, Bool.false_and]

theorem select_alike (h : a.Alike T sampled b) (i : Inputs) : a.select i = b.select i := by
  unfold Relay.select Relay.Idle
  simp only [armed_alike h, h.lSocketFd]

theorem observe_alike (h : a.Alike T sampled b) (i : Inputs) :
    (a.observe i).Alike T true (b.observe i) := by
  have htrace : a.trace ++ [.select i.lines] = T ++ (b.trace ++ [.select i.lines]) := by
    rw [h.trace, List.append_assoc]
  exact { h with
    trace := htrace
    g := { h.g with lines := fun _ => rfl, gets := fun _ => rfl } }

theorem select_inSession (h : b.select i = .ok selret) : (b.observe i).InSession selret := by
  intro hread _
  rw [Relay.select_armed h] at hread
  simp only [Events.inter, Relay.armed, Bool.and_eq_true] at hread
  exact hread.1.1.1.1

theorem iteration_alike (h : a.Alike T false b) :
    Agree (Relay.Alike T false) (a.iteration i) (b.iteration i) := by
  unfold Relay.iteration
  rw [select_alike h]
  match hsel : b.select i with
  | .error e => exact .error e
  | .ok selret =>
    apply Agree.ite Iff.rfl
    · intro _
      exact .ok h
    intro _
    have hround := handlers_alike (i := i) (observe_alike h i) (select_inSession hsel)
    apply hround.bind
    intro f f' hf
    -- between two iterations the lines are not looked at
    exact .ok { hf.state with g := { hf.state.g with lines := nofun, gets := nofun } }

/-- **A run keeps the relation.** -/
theorem run_alike (is : List Inputs) (h : a.Alike T false b) :
    Agree (Relay.Alike T false) (run Relay.iteration a is) (run Relay.iteration b is) :=
  run_agree (P := fun _ => True) (fun _ _ i _ h => iteration_alike (i := i) h)
    (fun _ _ => trivial) h

end

/-! ### Every state of a standalone process -/

/-- The command line is what it was, and port control is enabled. -/
structure Globals.Configured (cfg : Config) (g : Globals) : Prop where
  ciscoIOSCompatible : g.ciscoIOSCompatible = cfg.ciscoIOSCompatible
  deviceName : g.deviceName = cfg.deviceName
  portControlEnable : g.portControlEnable = true

/-- A standalone process has its listening socket, the device has its
settings back when it is closed, and there is no open port without a
client. -/
structure Relay.Served (cfg : Config) (lsocket : Nat) (a : Relay) : Prop where
  configured : a.g.Configured cfg
  lSocketFd : a.lSocketFd = some lsocket
  closed : a.deviceFd = none → a.g.port.settings = cfg.settings
  opened : a.deviceFd.isSome = true → a.g.port.initial = some cfg.settings
  idle : a.inSocketFd = none → a.outSocketFd = none ∧ a.deviceFd = none

section
variable {cfg : Config} {lsocket : Nat} {a : Relay} {i : Inputs} {f : Flow Relay}

theorem start_served (cfg : Config) (mem : Memory) (lsocket : Nat) :
    (Relay.start cfg mem (.standalone lsocket)).Served cfg lsocket :=
  ⟨⟨rfl, rfl, rfl⟩, rfl, fun _ => rfl, nofun, fun _ => ⟨rfl, rfl⟩⟩

theorem drop_served (h : a.Served cfg lsocket) : a.drop.Served cfg lsocket := by
  have hconf := h.configured
  have hg : a.drop.g.Configured cfg ∧ a.drop.g.port.settings = cfg.settings := by
    unfold Relay.drop
    by_cases hopen : a.deviceFd.isSome = true
    · simp only [if_pos hopen, closePort, h.opened hopen]
      exact ⟨⟨hconf.1, hconf.2, hconf.3⟩, trivial⟩
    · simp only [if_neg hopen]
      exact ⟨hconf, h.closed (Option.not_isSome_iff_eq_none.mp hopen)⟩
  exact ⟨hg.1, h.lSocketFd, fun _ => hg.2, nofun, fun _ => ⟨rfl, rfl⟩⟩

/-- A byte from the network changes neither the command line nor what
`closePort` will restore. -/
theorem redirect_configured {x y : Relay.Streams} {C : UInt8} {ti : Option Termios}
    (hx : x.1.Configured cfg ∧ x.1.port.initial = ti) (h : Relay.redirect x C = .ok y) :
    y.1.Configured cfg ∧ y.1.port.initial = ti := by
  obtain ⟨p, act, -, -, -, hy⟩ := Relay.redirect_ok h
  obtain ⟨hconf, hti⟩ := hx
  have hset : ({ x.1 with parser := p } : Globals).Configured cfg := { hconf with }
  rw [hy]
  match act with
  | .nothing | .toDevice C => exact ⟨hset, hti⟩
  | .handle cmd CSize =>
    have hkept := iacBranch_kept { x.1 with parser := p } cmd CSize
    refine ⟨⟨?_, ?_, ?_⟩, ?_⟩
    · exact hkept.ciscoIOSCompatible.trans hset.ciscoIOSCompatible
    · exact hkept.deviceName.trans hset.deviceName
    · exact hkept.portControlEnable hset.portControlEnable
    · exact hkept.initial.trans hti

theorem negotiating_eq (g : Globals) :
    g.negotiating = { g with tnstate := g.negotiating.tnstate } := by
  simp only [Globals.negotiating, Globals.setTn, initTelnetStateMachine]

theorem handle_served {k : Stage} (h : a.Served cfg lsocket) (hf : a.handle i k = .ok f) :
    f.state.Served cfg lsocket := by
  have hconf := h.configured
  have hrecord : ∀ e, (a.record e).Served cfg lsocket := fun e => { h with }
  match k with
  | .deviceIn =>
    obtain ⟨-, ⟨-, rfl⟩ | ⟨-, q, -, rfl⟩⟩ := Relay.deviceIn_ok hf
    · exact drop_served (hrecord _)
    · exact { h with configured := { hconf with } }
  | .deviceOut =>
    obtain ⟨-, ⟨-, rfl⟩ | ⟨-, rfl⟩⟩ := Relay.deviceOut_ok hf
    · exact drop_served (hrecord _)
    · exact { h with }
  | .socketOut =>
    obtain ⟨-, ⟨-, rfl⟩ | ⟨-, rfl⟩⟩ := Relay.socketOut_ok hf
    · exact drop_served (hrecord _)
    · exact { h with }
  | .socketIn =>
    obtain ⟨-, ⟨-, rfl⟩ | ⟨-, hopen, x, hx, rfl⟩⟩ := Relay.socketIn_ok hf
    · exact drop_served (hrecord _)
    · -- settings may have changed, but the port is open: what counts is what
      -- `closePort` will restore
      have hend := run_invariant (I := fun x : Relay.Streams =>
          x.1.Configured cfg ∧ x.1.port.initial = some cfg.settings)
        (fun _ _ _ hs hstep => redirect_configured hs hstep) ⟨hconf, h.opened hopen⟩ hx
      refine { h with configured := hend.1, closed := ?_, opened := fun _ => hend.2 }
      intro hnone
      exact absurd hopen (Option.not_isSome_iff_eq_none.mpr hnone)
  | .socketConnect =>
    obtain ⟨-, rfl | ⟨-, csock, rfl⟩⟩ := Relay.socketConnect_ok hf
    · exact h
    · -- only the telnet state is initialised
      rw [negotiating_eq]
      generalize a.g.negotiating.tnstate = tnstate
      dsimp only [Flow.state, Relay.record]
      exact ⟨⟨hconf.1, hconf.2, hconf.3⟩, h.lSocketFd, h.closed, h.opened, nofun⟩
  | .openDevice =>
    obtain rfl | ⟨⟨hin, -, hnone⟩, rfl | ⟨fd, rfl⟩⟩ := Relay.openDevice_ok hf
    · exact h
    · exact drop_served h
    · refine ⟨⟨hconf.1, hconf.2, hconf.3⟩, h.lSocketFd, nofun, fun _ => ?_, fun hidle => ?_⟩
      · exact congrArg some (h.closed (Option.isNone_iff_eq_none.mp hnone))
      · exact absurd hin (Option.not_isSome_iff_eq_none.mpr hidle)
  | .modemState =>
    obtain ⟨-, ⟨-, q, -, rfl⟩ | ⟨-, rfl⟩⟩ := Relay.modemState_ok hf
    · exact { h with configured := { hconf with } }
    · exact { h with configured := { hconf with } }

theorem iteration_served {b : Relay} (h : a.Served cfg lsocket) (hb : a.iteration i = .ok b) :
    b.Served cfg lsocket := by
  obtain ⟨selret, -, hb⟩ := bind_eq_ok.mp hb
  split at hb
  · cases hb
    exact h
  obtain ⟨f, hf, hret⟩ := bind_eq_ok.mp hb
  cases hret
  have hobserve : (a.observe i).Served cfg lsocket :=
    { h with configured := { h.configured with } }
  refine pipeline_invariant (fun k _ s f hs hk => ?_) hobserve hf
  rcases Relay.exec_ok hk with ⟨-, hk⟩ | ⟨-, rfl⟩
  · exact handle_served hs hk
  · exact hs

theorem run_served {mem : Memory} {is : List Inputs} {b : Relay}
    (h : run Relay.iteration (Relay.start cfg mem (.standalone lsocket)) is = .ok b) :
    b.Served cfg lsocket :=
  run_invariant (fun _ _ _ hs hstep => iteration_served hs hstep) (start_served cfg mem lsocket) h

end

/-! ### Isolation -/

/-- A client has left nothing behind that the next one could see. -/
structure Globals.Clean (g : Globals) : Prop where
  iacEscape : g.parser.iacEscape = .IACNormal
  last : g.parser.last ≠ 0x0D
  escLast : g.escLast ≠ 0x0D
  inputFlow : g.inputFlow = true
  modemStateMask : g.modemStateMask = 255
  modemState : g.modemState &&& TNCOM_MODMASK_NODELTA = 0
  breakSignaled : g.breakSignaled = false

instance (g : Globals) : Decidable g.Clean :=
  decidable_of_iff (g.parser.iacEscape = .IACNormal ∧ g.parser.last ≠ 0x0D ∧ g.escLast ≠ 0x0D ∧
      g.inputFlow = true ∧ g.modemStateMask = 255 ∧
      g.modemState &&& TNCOM_MODMASK_NODELTA = 0 ∧ g.breakSignaled = false)
    ⟨fun ⟨h₁, h₂, h₃, h₄, h₅, h₆, h₇⟩ => ⟨h₁, h₂, h₃, h₄, h₅, h₆, h₇⟩,
      fun ⟨h₁, h₂, h₃, h₄, h₅, h₆, h₇⟩ => ⟨h₁, h₂, h₃, h₄, h₅, h₆, h₇⟩⟩

/-- The process has done the same for its clients since it had made the
calls in `T`, and is about to do the same: it has made the same calls,
and the same bytes are queued on the connections there are. -/
structure SameService (T : List Event) (s t : Main) : Prop where
  trace : s.trace = T ++ t.trace
  deviceFd : s.deviceFd = t.deviceFd
  inSocketFd : s.inSocketFd = t.inSocketFd
  outSocketFd : s.outSocketFd = t.outSocketFd
  toNetBuf : t.outSocketFd.isSome = true → s.toNetBuf.contents = t.toNetBuf.contents
  toDevBuf : t.deviceFd.isSome = true → s.toDevBuf.contents = t.toDevBuf.contents

/-- A process without a client, of which nothing is left to be seen, is like
one that was just started. -/
theorem clean_alike {cfg : Config} {lsocket : Nat} {a : Relay} (h : a.Served cfg lsocket)
    (hidle : a.inSocketFd = none) (hclean : a.g.Clean) (mem : Memory) :
    a.Alike a.trace false (Relay.start cfg mem (.standalone lsocket)) := by
  obtain ⟨hout, hdev⟩ := h.idle hidle
  have hconf := h.configured
  -- outside a command the rest of the parser is not looked at
  have hnul : (0 : UInt8) ≠ 0x0D := by decide
  have hmodem : a.g.modemState &&& TNCOM_MODMASK_NODELTA = 0 &&& TNCOM_MODMASK_NODELTA :=
    hclean.modemState.trans (by decide)
  have hparser : a.g.parser.Alike initialParser := by
    refine ⟨Parser.inStep_of_ne hclean.iacEscape ?_, ?_⟩
    · rw [hclean.iacEscape]
      exact nofun
    · exact ⟨fun hcr => absurd hcr hclean.last, fun hcr => absurd hcr hnul⟩
  refine ⟨(List.append_nil _).symm, hdev, hidle, hout, h.lSocketFd, nofun, nofun, nofun, ?_⟩
  exact {
    ciscoIOSCompatible := hconf.ciscoIOSCompatible
    deviceName := hconf.deviceName
    portControlEnable := hconf.portControlEnable
    modemStateMask := hclean.modemStateMask
    breakSignaled := hclean.breakSignaled
    inputFlow := hclean.inputFlow
    settings := h.closed hdev
    modemState := hmodem
    escLast := ⟨fun hcr => absurd hcr hclean.escLast, fun hcr => absurd hcr hnul⟩
    parser := hparser
    tnstate := nofun
    initial := nofun
    lines := nofun
    gets := nofun }

theorem Relay.Alike.sameService {T : List Event} {s t : Main} {a b : Relay}
    (h : a.Alike T false b) (hs : Refines s a) (ht : Refines t b) : SameService T s t := by
  obtain ⟨-, rfl⟩ := hs
  obtain ⟨-, rfl⟩ := ht
  exact ⟨h.trace, h.deviceFd, h.inSocketFd, h.outSocketFd,
    fun hout => congrArg Queue.bytes (h.toNet hout),
    fun hdev => congrArg Queue.bytes (h.toDev hdev)⟩

/-- **Session isolation**: after a client that has left nothing behind, the
process serves every client to come as one that was just started. -/
theorem session_isolated (cfg : Config) (mem mem' : Memory) (lsocket : Nat) (is js : List Inputs)
    (s f : Main) (his : ∀ i ∈ is, i.NoBlock) (hjs : ∀ j ∈ js, j.NoBlock)
    (hs : mainLoop cfg mem (.standalone lsocket) is = .ok s) (hidle : s.inSocketFd = none)
    (hclean : s.g.Clean) (hf : start cfg mem' (.standalone lsocket) = .ok f) :
    Agree (SameService s.trace) (run iteration s js) (run iteration f js) := by
  obtain ⟨a, ha, hsa⟩ := (mainLoop_refines cfg mem (.standalone lsocket) his).ok_left hs
  obtain ⟨b, hb, hfb⟩ := (start_refines cfg mem' (.standalone lsocket)).ok_left hf
  cases hb
  have hserved := run_served ha
  rw [← hsa.view] at hserved
  have halike := clean_alike hserved hidle hclean mem'
  -- the two processes, each through its relay
  have hleft := run_refines (a := s.view) hjs ⟨hsa.inv, rfl⟩
  have hright := run_refines hjs hfb
  have hrelays := run_alike js halike
  refine ((hleft.trans hrelays).trans hright.symm).mono ?_
  rintro t u ⟨b, ⟨a, hta, hab⟩, hub⟩
  exact hab.sameService hta hub

/-- A client connects, the port is opened, and the client sends; it closes
the connection with an empty read. -/
def visit (reads : List (List UInt8)) : List Inputs :=
  { ready := { socketConnect := true }, csock := some 5, openFd := some 6 } ::
    reads.map fun l => { ready := { socketIn := true }, netRead := .bytes l }

/-- After a client that sent one byte of data and closed, the next one is
served as by a new process. -/
theorem session_isolated_after_data :
    ∃ s f, mainLoop default default (.standalone 4) (visit [[97], []]) = .ok s ∧
      start default default (.standalone 4) = .ok f ∧ s.inSocketFd = none ∧ s.g.Clean ∧
      Agree (SameService s.trace) (run iteration s (visit [[98]]))
        (run iteration f (visit [[98]])) := by
  have hfirst : ∀ i ∈ visit [[97], []], i.NoBlock := by decide
  have hnext : ∀ i ∈ visit [[98]], i.NoBlock := by decide
  obtain ⟨f, s, hf, hs, hidle, hclean⟩ := run_of_relay (.standalone 4)
    (fun b => b.inSocketFd = none ∧ b.g.Clean) hfirst (by decide +kernel)
  have hmain : mainLoop default default (.standalone 4) (visit [[97], []]) = .ok s :=
    bind_eq_ok.mpr ⟨f, hf, hs⟩
  exact ⟨s, f, hmain, hf, hidle, hclean,
    session_isolated default default default 4 _ _ s f hfirst hnext hmain hidle hclean hf⟩

/-- After a client that closed in the middle of an IAC command, the first
byte of the next one is taken for the rest of the command: it does not
reach the device. -/
theorem session_leaks_command :
    (mainLoop default default (.standalone 4) (visit [[]] ++ visit [[97]])).map
        (fun s => s.toDevBuf.contents) = .ok [97] ∧
    (mainLoop default default (.standalone 4) (visit [[255], []] ++ visit [[97]])).map
        (fun s => s.toDevBuf.contents) = .ok [] := by
  -- what `main` queues to the device is what the relay queues to it
  have hqueued : ∀ is : List Inputs, (∀ i ∈ is, i.NoBlock) →
      (mainLoop default default (.standalone 4) is).map (fun s => s.toDevBuf.contents) =
        (run Relay.iteration (Relay.start default default (.standalone 4)) is).map
          fun b => b.toDev.bytes := by
    intro is his
    refine (mainLoop_refines default default (.standalone 4) his).map_eq ?_
    intro s b hr
    rw [← hr.view]
    rfl
  rw [hqueued _ (by decide), hqueued _ (by decide)]
  decide +kernel

end Sercd
