import Cnu680.Sercd.Relay

/-! # sercd: the states of the connection

The three states that `main` documents: no client and no open port, a
client whose port is not yet open, a client with its port open.

`Moved` says once what a handler can do to the descriptors, whatever the
system answers, EWOULDBLOCK included. The rest follows from it: the
three states are kept, and with an open port there is always something
to wait for.
-/

open Framework

namespace Sercd

/-! ### What a handler does to the descriptors -/

/-- The descriptors stay. -/
structure Main.SameFds (s t : Main) : Prop where
  device : t.deviceFd = s.deviceFd
  inSocket : t.inSocketFd = s.inSocketFd
  outSocket : t.outSocketFd = s.outSocketFd
  lSocket : t.lSocketFd = s.lSocketFd

theorem Main.SameFds.refl (s : Main) : s.SameFds s := ⟨rfl, rfl, rfl, rfl⟩

/-- The client is gone. -/
structure Main.Dropped (s t : Main) : Prop where
  device : t.deviceFd = none
  inSocket : t.inSocketFd = none
  outSocket : t.outSocketFd = none
  lSocket : t.lSocketFd = s.lSocketFd

/-- What a handler can do to the descriptors. -/
inductive Moved (s : Main) : Flow Main → Prop
  | keep {t : Main} (h : s.SameFds t) : Moved s (.next t)
  | drop {t : Main} (h : s.Dropped t) : Moved s (.continue t)
  | accept {t : Main} (csock : Nat) (hfree : ¬ (s.inSocketFd.isSome ∧ s.outSocketFd.isSome))
    (hdev : t.deviceFd = s.deviceFd) (hin : t.inSocketFd = some csock)
    (hout : t.outSocketFd = some csock) (hl : t.lSocketFd = s.lSocketFd) : Moved s (.next t)
  | opened {t : Main} (fd : Nat) (hin : s.inSocketFd.isSome) (hout : s.outSocketFd.isSome)
    (hdev : t.deviceFd = some fd) (hin' : t.inSocketFd = s.inSocketFd)
    (hout' : t.outSocketFd = s.outSocketFd) (hl : t.lSocketFd = s.lSocketFd) : Moved s (.next t)

/-- What a handler can do that neither accepts a client nor opens the
port. -/
inductive Stayed (s : Main) : Flow Main → Prop
  | keep {t : Main} (h : s.SameFds t) : Stayed s (.next t)
  | drop {t : Main} (h : s.Dropped t) : Stayed s (.continue t)

section
variable {i : Inputs} {s : Main} {f : Flow Main}

theorem Stayed.moved (h : Stayed s f) : Moved s f := by
  cases h with
  | keep h => exact .keep h
  | drop h => exact .drop h

theorem dropped_dropConnection {s t : Main} (h : s.SameFds t) : s.Dropped (dropConnection t) :=
  ⟨rfl, rfl, rfl, h.lSocket⟩

theorem deviceIn_stayed (h : deviceIn i s = .ok f) : Stayed s f := by
  unfold deviceIn at h
  dsimp only [Main.record] at h
  split at h
  · cases h
  split at h
  · -- the read has failed
    cases h
    exact .drop (dropped_dropConnection ⟨rfl, rfl, rfl, rfl⟩)
  · obtain ⟨x, -, hf⟩ := bind_eq_ok.mp h
    cases hf
    exact .keep ⟨rfl, rfl, rfl, rfl⟩

theorem deviceOut_stayed (h : deviceOut i s = .ok f) : Stayed s f := by
  unfold deviceOut at h
  dsimp only [Main.record] at h
  split at h
  · cases h
  split at h
  · cases h
    exact .drop (dropped_dropConnection ⟨rfl, rfl, rfl, rfl⟩)
  · cases h
    exact .keep ⟨rfl, rfl, rfl, rfl⟩

theorem socketOut_stayed (h : socketOut i s = .ok f) : Stayed s f := by
  unfold socketOut at h
  dsimp only [Main.record] at h
  split at h
  · cases h
  split at h
  · cases h
    exact .drop (dropped_dropConnection ⟨rfl, rfl, rfl, rfl⟩)
  · cases h
    exact .keep ⟨rfl, rfl, rfl, rfl⟩

theorem socketIn_stayed (h : socketIn i s = .ok f) : Stayed s f := by
  unfold socketIn at h
  dsimp only [Main.record] at h
  split at h
  · cases h
  split at h
  · cases h
    exact .drop (dropped_dropConnection ⟨rfl, rfl, rfl, rfl⟩)
  split at h
  · cases h
  · obtain ⟨x, -, hf⟩ := bind_eq_ok.mp h
    cases hf
    exact .keep ⟨rfl, rfl, rfl, rfl⟩

theorem socketConnect_moved (h : socketConnect i s = .ok f) : Moved s f := by
  unfold socketConnect at h
  dsimp only [Main.record] at h
  split at h
  · cases h
  split at h
  · cases h
    exact .keep (.refl s)
  · next csock hc =>
    split at h
    · -- a second client is turned away
      cases h
      exact .keep (.refl s)
    · next hfree =>
      obtain ⟨B', hB', -⟩ := sendTelnetInitialOptions_ok s.g s.toNetBuf
      rw [hB'] at h
      cases h
      exact .accept csock hfree rfl rfl rfl rfl

theorem openDevice_moved (h : openDevice i s = .ok f) : Moved s f := by
  unfold openDevice at h
  dsimp only [Main.record] at h
  split at h
  · next hopen =>
    split at h
    · -- the port cannot be opened
      cases h
      exact .drop (dropped_dropConnection (.refl s))
    · next fd hfd =>
      cases h
      exact .opened fd hopen.1 hopen.2.1 rfl rfl rfl rfl
  · cases h
    exact .keep (.refl s)

theorem modemState_sameFds (h : modemState s = .ok f) : ∃ t, f = .next t ∧ s.SameFds t := by
  unfold modemState at h
  dsimp only [Main.record] at h
  split at h
  · cases h
  split at h
  · obtain ⟨x, -, hf⟩ := bind_eq_ok.mp h
    cases hf
    exact ⟨_, rfl, rfl, rfl, rfl, rfl⟩
  · cases h
    exact ⟨_, rfl, rfl, rfl, rfl, rfl⟩

theorem modemState_moved (h : modemState s = .ok f) : Moved s f := by
  obtain ⟨t, rfl, hsame⟩ := modemState_sameFds h
  exact .keep hsame

/-- **Every handler moves the descriptors in one of four ways.** -/
theorem exec_moved {selret : Events} {k : Stage} (h : k.exec selret i s = .ok f) : Moved s f := by
  unfold Stage.exec at h
  split at h
  · match k with
    | .deviceIn => exact (deviceIn_stayed h).moved
    | .deviceOut => exact (deviceOut_stayed h).moved
    | .socketOut => exact (socketOut_stayed h).moved
    | .socketIn => exact (socketIn_stayed h).moved
    | .socketConnect => exact socketConnect_moved h
    | .openDevice => exact openDevice_moved h
    | .modemState => exact modemState_moved h
  · cases h
    exact .keep (.refl s)

end

/-! ### The three states -/

/-- The three states: both sockets or none, and an open port only with
them. -/
structure Main.Connected (s : Main) : Prop where
  sockets : s.inSocketFd.isSome = s.outSocketFd.isSome
  device : s.deviceFd.isSome → s.inSocketFd.isSome

/-- A client is served: its port is open, or there is no client. -/
def Main.ServedPort (s : Main) : Prop := s.inSocketFd.isSome → s.deviceFd.isSome

section
variable {i : Inputs} {s : Main} {f : Flow Main}

theorem Moved.connected (h : Moved s f) (hs : s.Connected) : f.state.Connected := by
  cases h with
  | keep h =>
    refine ⟨?_, ?_⟩
    · rw [Flow.state, h.inSocket, h.outSocket]
      exact hs.sockets
    · rw [Flow.state, h.device, h.inSocket]
      exact hs.device
  | drop h =>
    refine ⟨?_, ?_⟩
    · rw [Flow.state, h.inSocket, h.outSocket]
    · intro hdev
      rw [Flow.state, h.device] at hdev
      cases hdev
  | accept csock hfree hdev hin hout hl =>
    refine ⟨?_, fun _ => ?_⟩
    · rw [Flow.state, hin, hout]
    · rw [Flow.state, hin]
      rfl
  | opened fd hin hout hdev hin' hout' hl =>
    refine ⟨?_, fun _ => ?_⟩
    · rw [Flow.state, hin', hout']
      exact hs.sockets
    · rw [Flow.state, hin']
      exact hin

theorem Moved.servedPort_continue {t : Main} (h : Moved s (.continue t)) : t.ServedPort := by
  cases h with
  | drop h =>
    intro hin
    rw [h.inSocket] at hin
    cases hin

/-- After its test for an unopened port, an iteration has no client without
a port. -/
theorem openDevice_servedPort {t : Main} (hs : s.Connected)
    (h : openDevice i s = .ok (.next t)) : t.ServedPort := by
  unfold openDevice at h
  split at h
  · next hopen =>
    split at h
    · cases h
    · cases h
      exact fun _ => rfl
  · next hnot =>
    cases h
    intro hin
    -- a client without a port would have passed the test
    have hout : s.outSocketFd.isSome := hs.sockets ▸ hin
    cases hdev : s.deviceFd with
    | none => exact absurd ⟨hin, hout, by rw [hdev]; rfl⟩ hnot
    | some fd => rfl

theorem modemState_servedPort {selret : Events} (hs : s.ServedPort)
    (h : Stage.modemState.exec selret i s = .ok f) : f.state.ServedPort := by
  unfold Stage.exec at h
  split at h
  · obtain ⟨t, rfl, hsame⟩ := modemState_sameFds h
    intro hin
    rw [Flow.state, hsame.inSocket] at hin
    rw [Flow.state, hsame.device]
    exact hs hin
  · cases h
    exact hs

theorem pipeline_servedPort {selret : Events} (hs : s.Connected)
    (h : pipeline (Stage.exec selret i) stages s = .ok f) : f.state.ServedPort := by
  -- the test for an unopened port is the last handler but one
  have hsplit : stages = [.deviceIn, .deviceOut, .socketOut, .socketIn, .socketConnect] ++
      [.openDevice, .modemState] := rfl
  rw [hsplit, pipeline_append] at h
  obtain ⟨f₁, h₁, h⟩ := bind_eq_ok.mp h
  match f₁ with
  | .continue t =>
    cases h
    exact pipeline_continue (Q := Main.ServedPort)
      (fun k _ s t hk => (exec_moved hk).servedPort_continue) h₁
  | .next u =>
    have hu : u.Connected :=
      pipeline_invariant (fun k _ s f hs hk => (exec_moved hk).connected hs) hs h₁
    obtain ⟨f₂, h₂, h⟩ := bind_eq_ok.mp h
    match f₂ with
    | .continue t =>
      cases h
      exact (exec_moved h₂).servedPort_continue
    | .next v =>
      have hv : v.ServedPort := openDevice_servedPort hu h₂
      have hmodem : ∀ k ∈ [Stage.modemState], ∀ s f, Main.ServedPort s →
          Stage.exec selret i k s = .ok f → f.state.ServedPort := by
        intro k hk s f hs hf
        cases List.mem_singleton.mp hk
        exact modemState_servedPort hs hf
      exact pipeline_invariant hmodem hv h

/-- **Iterations keep the three states.** -/
theorem iteration_connected {s' : Main} (hs : s.Connected) (h : iteration s i = .ok s') :
    s'.Connected := by
  obtain ⟨selret, -, h⟩ := bind_eq_ok.mp h
  split at h
  · cases h
    exact hs
  · obtain ⟨f, hf, hret⟩ := bind_eq_ok.mp h
    cases hret
    exact pipeline_invariant (fun k _ s f hs hk => (exec_moved hk).connected hs)
      (⟨hs.sockets, hs.device⟩ : (s.observe i).Connected) hf

theorem iteration_servedPort {s' : Main} (hs : s.Connected) (h : iteration s i = .ok s') :
    s' = s ∨ s'.ServedPort := by
  obtain ⟨selret, -, h⟩ := bind_eq_ok.mp h
  split at h
  · cases h
    exact .inl rfl
  · obtain ⟨f, hf, hret⟩ := bind_eq_ok.mp h
    cases hret
    exact .inr (pipeline_servedPort (⟨hs.sockets, hs.device⟩ : (s.observe i).Connected) hf)

end

/-! ### Something to wait for -/

variable {s : Main} {i : Inputs}

/-- With an open port, one of three events is armed: a buffer that is not
empty can be written out, and with both empty there is room to read from
the network. -/
theorem armed_of_open (hdev : s.deviceFd.isSome) (hin : s.inSocketFd.isSome)
    (hout : s.outSocketFd.isSome) :
    (armed s).deviceOut = true ∨ (armed s).socketOut = true ∨ (armed s).socketIn = true := by
  cases hd : isBufferEmpty s.toDevBuf with
  | false =>
    refine .inl ?_
    simp only [armed, hdev, hd]
    rfl
  | true =>
    cases hn : isBufferEmpty s.toNetBuf with
    | false =>
      refine .inr (.inl ?_)
      simp only [armed, hout, hn]
      rfl
    | true =>
      -- both buffers have all their room
      have hdroom : bufferHasRoomFor s.toDevBuf escRedirectChar_bytes_DevB = true := by
        rw [bufferHasRoomFor_iff, room_eq, (isBufferEmpty_iff _).mp hd]
        decide
      have hnroom : bufferHasRoomFor s.toNetBuf escRedirectChar_bytes_SockB = true := by
        rw [bufferHasRoomFor_iff, room_eq, (isBufferEmpty_iff _).mp hn]
        decide
      refine .inr (.inr ?_)
      simp only [armed, hdev, hin, hdroom, hnroom]
      rfl

theorem select_exit (h : select s i = .error (.exit NoError)) :
    (armed s).deviceIn = false ∧ (armed s).deviceOut = false ∧ (armed s).socketOut = false ∧
      (armed s).socketIn = false ∧ s.lSocketFd.isSome = false := by
  unfold select at h
  dsimp only at h
  split at h
  · next hidle =>
    simp only [Bool.and_eq_true, Bool.not_eq_true'] at hidle
    exact ⟨hidle.1.1.1.1, hidle.1.1.1.2, hidle.1.1.2, hidle.1.2, hidle.2⟩
  · split at h <;> cases h

/-! ### Runs -/

/-- A client of `inetd` has its port open, or the initial options are still
to be sent. -/
def Main.InetdServed (s : Main) : Prop :=
  s.ServedPort ∨ isBufferEmpty s.toNetBuf = false

theorem start_connected {cfg : Config} {mem : Memory} {mode : Mode}
    (h : start cfg mem mode = .ok s) : s.Connected ∧ (mode = .inetd → s.InetdServed) := by
  obtain ⟨a, ha, hr⟩ := (start_refines cfg mem mode).ok_left h
  cases ha
  -- the descriptors and the queue to the network are those of the relay
  have hview := hr.view
  have hin : s.inSocketFd = (Relay.start cfg mem mode).inSocketFd := by rw [← hview]; rfl
  have hout : s.outSocketFd = (Relay.start cfg mem mode).outSocketFd := by rw [← hview]; rfl
  have hdev : s.deviceFd = (Relay.start cfg mem mode).deviceFd := by rw [← hview]; rfl
  have hnet : s.toNetBuf.queue = (Relay.start cfg mem mode).toNet := by rw [← hview]; rfl
  refine ⟨⟨?_, ?_⟩, ?_⟩
  · rw [hin, hout]
    cases mode <;> rfl
  · intro hsome
    rw [hdev] at hsome
    cases mode <;> cases hsome
  · rintro rfl
    refine .inr ?_
    rw [isBufferEmpty_queue, hnet]
    rfl

theorem Main.Connected.client (h : s.Connected) (hdev : s.deviceFd.isSome) :
    s.inSocketFd.isSome ∧ s.outSocketFd.isSome :=
  ⟨h.device hdev, h.sockets ▸ h.device hdev⟩

theorem run_inetdServed {is : List Inputs} {s s' : Main} (hs : s.Connected ∧ s.InetdServed)
    (h : run iteration s is = .ok s') : s'.Connected ∧ s'.InetdServed := by
  refine run_invariant (I := fun s => s.Connected ∧ s.InetdServed) ?_ hs h
  rintro t i t' ⟨hconn, hserved⟩ hstep
  refine ⟨iteration_connected hconn hstep, ?_⟩
  rcases iteration_servedPort hconn hstep with rfl | hport
  · exact hserved
  · exact .inl hport

/-- With nothing to wait for there is no open port: it would be waited for. -/
theorem Main.Connected.device_of_exit (h : s.Connected)
    (hexit : select s i = .error (.exit NoError)) : s.deviceFd = none := by
  obtain ⟨-, hdout, hsout, hsin, -⟩ := select_exit hexit
  cases hfd : s.deviceFd with
  | none => rfl
  | some fd =>
    have hsome : s.deviceFd.isSome := by rw [hfd]; rfl
    obtain ⟨hin, hout⟩ := h.client hsome
    rcases armed_of_open hsome hin hout with ha | ha | ha
    · rw [hdout] at ha
      cases ha
    · rw [hsout] at ha
      cases ha
    · rw [hsin] at ha
      cases ha

/-- And, from `inetd`, no client: it would have a port or something to read. -/
theorem Main.Connected.inSocket_of_exit (h : s.Connected) (hserved : s.InetdServed)
    (hexit : select s i = .error (.exit NoError)) : s.inSocketFd = none := by
  have hdev := h.device_of_exit hexit
  obtain ⟨-, -, hsout, -, -⟩ := select_exit hexit
  cases hfd : s.inSocketFd with
  | none => rfl
  | some fd =>
    have hsome : s.inSocketFd.isSome := by rw [hfd]; rfl
    rcases hserved with hport | hqueued
    · have hopen := hport hsome
      rw [hdev] at hopen
      cases hopen
    · -- the initial options would be waited for
      have hout : s.outSocketFd.isSome := h.sockets ▸ hsome
      simp only [armed, hout, hqueued] at hsout
      cases hsout

/-- **The state machine of `main`**, whatever the system answers: at the top
of the loop the connection is in one of the three states; with an open
port there is something to wait for, whatever the buffers hold and
whether or not the flow is suspended; and a process started by `inetd`
gives up only when it has no client. -/
theorem connection_states {cfg : Config} {mem : Memory} {mode : Mode} {is : List Inputs} {s : Main}
    (h : mainLoop cfg mem mode is = .ok s) :
    s.inSocketFd.isSome = s.outSocketFd.isSome ∧
    (s.deviceFd.isSome → s.inSocketFd.isSome ∧ s.outSocketFd.isSome) ∧
    (s.deviceFd.isSome → ∀ (toDevBuf toNetBuf : BufferType) (inputFlow : Bool),
      let a := armed { s with
        toDevBuf := toDevBuf, toNetBuf := toNetBuf, g := { s.g with inputFlow := inputFlow } }
      a.deviceOut = true ∨ a.socketOut = true ∨ a.socketIn = true) ∧
    (mode = .inetd → ∀ i, select s i = .error (.exit NoError) →
      s.inSocketFd = none ∧ s.outSocketFd = none ∧ s.deviceFd = none) := by
  obtain ⟨s₀, hstart, hrun⟩ := bind_eq_ok.mp h
  obtain ⟨hconn₀, hinetd₀⟩ := start_connected hstart
  have hconn : s.Connected :=
    run_invariant (fun _ _ _ hs hstep => iteration_connected hs hstep) hconn₀ hrun
  refine ⟨hconn.sockets, hconn.client, ?_, ?_⟩
  · intro hdev toDevBuf toNetBuf inputFlow
    obtain ⟨hin, hout⟩ := hconn.client hdev
    exact armed_of_open (s := { s with
      toDevBuf := toDevBuf, toNetBuf := toNetBuf, g := { s.g with inputFlow := inputFlow } })
      hdev hin hout
  · intro hmode i hexit
    obtain ⟨-, hserved⟩ := run_inetdServed ⟨hconn₀, hinetd₀ hmode⟩ hrun
    have hin := hconn.inSocket_of_exit hserved hexit
    refine ⟨hin, ?_, hconn.device_of_exit hexit⟩
    -- the two sockets are open or closed together
    have hnone := hconn.sockets
    rw [hin] at hnone
    cases hfd : s.outSocketFd with
    | none => rfl
    | some fd =>
      rw [hfd] at hnone
      cases hnone

/-- A session of `inetd` whose port is open. -/
theorem connection_states_open :
    ∃ s, mainLoop default default .inetd
        [{ ready := { socketOut := true }, netWrite := .room 18, openFd := some 3 }] = .ok s ∧
      s.deviceFd = some 3 ∧ s.inSocketFd.isSome ∧ s.outSocketFd.isSome := by
  obtain ⟨s, hs, hdev⟩ : ∃ s, mainLoop default default .inetd
      [{ ready := { socketOut := true }, netWrite := .room 18, openFd := some 3 }] = .ok s ∧
        s.deviceFd = some 3 := by
    decide +kernel
  have hopen := (connection_states hs).2.1 (by rw [hdev]; rfl)
  exact ⟨s, hs, hdev, hopen⟩

end Sercd
