import Cnu680.Sercd.Capacity

/-! # sercd: what goes in comes out

The two streams of a session, computed from the calls of the loop alone:
what was read from either side is handed to the functions of `sercd.c`
with an empty buffer each time, and what they write is collected without
a bound.

The loop does the same through two rings that it drains in parts, and
starts over at different moments: the stream to the network with every
connection, the stream to the device with every opening of the port.
`session_passes_through` says that nothing is lost, doubled or moved on
the way: what was written out and what still waits make up the stream.
-/

open Framework List

namespace Sercd

/-! ### The streams -/

/-- The streams of a session, and how much of them was written out. -/
structure Session where
  /-- The state that the functions have come to. -/
  g : Globals
  portOpen : Bool
  /-- What was delivered to the device since the port was opened. -/
  toDev : List UInt8
  /-- What was sent to the network since the connection was accepted. -/
  toNet : List UInt8
  /-- What `WriteToDev` has accepted since the port was opened. -/
  devWritten : List UInt8
  /-- What `WriteToNet` has accepted since the connection was accepted. -/
  netWritten : List UInt8

namespace Session

/-- The bytes that a function writes to the network are appended to the
stream. -/
def send (S : Session) (m : BufM Globals) : Session :=
  match m (initBuffer default) with
  | .ok (g, B) => { S with g := g, toNet := S.toNet ++ B.contents }
  | .error _ => S

/-- A byte from the device is encoded. -/
def deviceByte (S : Session) (C : UInt8) : Session := S.send (escWriteChar S.g C)

/-- A byte from the network is redirected: it may reach the device, and it
may be answered. -/
def networkByte (S : Session) (C : UInt8) : Session :=
  match escRedirectChar S.g (initBuffer default) (initBuffer default) C with
  | .ok (g, SockB, DevB) =>
    { S with g := g, toNet := S.toNet ++ SockB.contents, toDev := S.toDev ++ DevB.contents }
  | .error _ => S

/-- The modem state is looked at, and a change of it notified. -/
def lookAtModem (S : Session) : Session :=
  let (newstate, port) := getModemState S.g.port S.g.modemState
  if newstate &&& S.g.modemStateMask &&& TNCOM_MODMASK_NODELTA ≠
      S.g.modemState &&& S.g.modemStateMask &&& TNCOM_MODMASK_NODELTA then
    S.send (sendCPCByteCommand { S.g with port := port, modemState := newstate }
      TNASC_NOTIFY_MODEMSTATE (newstate &&& S.g.modemStateMask))
  else { S with g := { S.g with port := port } }

/-- The part of the streams that a call of the loop adds. -/
def event (S : Session) : Event → Session
  | .select lines =>
    { S with g := { S.g with port := { S.g.port with lines := lines, gets := 0 } } }
  | .readFromDev count got => (got.data count).foldl deviceByte S
  | .readFromNet count got => (got.data count).foldl networkByte S
  | .writeToDev string got =>
    { S with devWritten := S.devWritten ++ string.take (got.accepted string.length) }
  | .writeToNet string got =>
    { S with netWritten := S.netWritten ++ string.take (got.accepted string.length) }
  | .accepted _ =>
    { S with toNet := [], netWritten := [] }.send
      (sendTelnetInitialOptions (initTelnetStateMachine S.g))
  | .portOpened _ =>
    { S with
      g := { S.g with port := openPort S.g.port }, portOpen := true, toDev := [], devWritten := [] }
  | .getModemState => S.lookAtModem
  | .dropped =>
    { S with
      g := if S.portOpen then { S.g with port := closePort S.g.port } else S.g, portOpen := false }

/-- The session as the process starts: `inetd` has accepted the connection. -/
def start (cfg : Config) : Mode → Session
  | .inetd => (⟨initialGlobals cfg, false, [], [], [], []⟩ : Session).event (.accepted 0)
  | .standalone _ => ⟨initialGlobals cfg, false, [], [], [], []⟩

/-- The session after the calls of a trace. -/
def replay (cfg : Config) (mode : Mode) (trace : List Event) : Session :=
  trace.foldl event (start cfg mode)

/-! ### The streams in closed form -/

section
variable (S : Session) {y : Relay.Streams}

theorem send_eq {m : BufM Globals} {g : Globals} {out : List UInt8} (h : Emits addToBuffer m g out)
    (hlen : out.length ≤ 2047) : S.send m = { S with g := g, toNet := S.toNet ++ out } := by
  have hroom : out.length ≤ (initBuffer default).room := by
    rw [room_initBuffer]
    exact hlen
  obtain ⟨B, hm, -, hc⟩ := emits_ok h (valid_initBuffer default) hroom
  unfold send
  rw [hm]
  dsimp only
  rw [hc, contents_initBuffer, nil_append]

theorem deviceByte_eq (C : UInt8) :
    S.deviceByte C = { S with
      g := { S.g with escLast := C }
      toNet := S.toNet ++ escapeChar S.g.isWill S.g.escLast C } := by
  have hlen := (escapeChar_length S.g.isWill S.g.escLast C).2
  exact S.send_eq (escWriteChar_emits S.g C) (by omega)

theorem foldl_deviceByte (d : List UInt8) :
    d.foldl deviceByte S = { S with
      g := { S.g with escLast := d.getLastD S.g.escLast }
      toNet := S.toNet ++ escape S.g.isWill S.g.escLast d } := by
  induction d generalizing S with
  | nil => simp [escape]
  | cons C d ih =>
    rw [foldl_cons, ih, deviceByte_eq, getLastD_cons]
    simp only [escape, append_assoc]
    rfl

/-- A byte from the network adds to the streams what the relay adds to its
queues. -/
theorem networkByte_eq {q r : Queue} {C : UInt8} (h : Relay.redirect (S.g, q, r) C = .ok y) :
    ∃ net dev, y.2.1.bytes = q.bytes ++ net ∧ y.2.2.bytes = r.bytes ++ dev ∧
      S.networkByte C =
        { S with g := y.1, toNet := S.toNet ++ net, toDev := S.toDev ++ dev } := by
  obtain ⟨p, act, hparse, hq, hr, hg⟩ := Relay.redirect_ok h
  obtain ⟨-, hq⟩ := Queue.put_eq_ok hq
  obtain ⟨-, hr⟩ := Queue.put_eq_ok hr
  refine ⟨act.toNet { S.g with parser := p }, act.toDev, by rw [hq], by rw [hr], ?_⟩
  -- an empty buffer has room for the longest reply
  have hnet : (act.toNet { S.g with parser := p }).length ≤ (initBuffer default).room := by
    rw [room_initBuffer]
    exact Nat.le_trans (act.toNet_length _) (by decide)
  have hdev : act.toDev.length ≤ (initBuffer default).room := by
    rw [room_initBuffer]
    exact Nat.le_trans act.toDev_length (by decide)
  obtain ⟨SockB, hsock, -, -, hsc⟩ := addBytes_ok (valid_initBuffer default) hnet
  obtain ⟨DevB, hdevB, -, -, hdc⟩ := addBytes_ok (valid_initBuffer default) hdev
  have hchar : escRedirectChar S.g (initBuffer default) (initBuffer default) C =
      .ok (act.after { S.g with parser := p }, SockB, DevB) := by
    rw [escRedirectChar_eq, hparse, ok_bind]
    dsimp only
    rw [hsock, ok_bind, hdevB, ok_bind]
  unfold networkByte
  rw [hchar, hg]
  dsimp only
  rw [hsc, hdc, contents_initBuffer, nil_append, nil_append]

theorem foldl_networkByte {q r : Queue} {d : List UInt8}
    (h : run Relay.redirect (S.g, q, r) d = .ok y) :
    ∃ net dev, y.2.1.bytes = q.bytes ++ net ∧ y.2.2.bytes = r.bytes ++ dev ∧
      d.foldl networkByte S =
        { S with g := y.1, toNet := S.toNet ++ net, toDev := S.toDev ++ dev } := by
  induction d generalizing S q r with
  | nil =>
    cases h
    exact ⟨[], [], by simp, by simp, by simp⟩
  | cons C d ih =>
    obtain ⟨⟨g', q', r'⟩, hC, hrest⟩ := bind_eq_ok.mp h
    -- the first byte, then the rest from the state it leads to
    obtain ⟨net₁, dev₁, hq₁, hr₁, hbyte⟩ := S.networkByte_eq hC
    dsimp only at hq₁ hr₁ hbyte
    have hg : (S.networkByte C).g = g' := by rw [hbyte]
    rw [← hg] at hrest
    obtain ⟨net₂, dev₂, hq₂, hr₂, hfold⟩ := ih (S.networkByte C) hrest
    refine ⟨net₁ ++ net₂, dev₁ ++ dev₂, ?_, ?_, ?_⟩
    · rw [hq₂, hq₁, append_assoc]
    · rw [hr₂, hr₁, append_assoc]
    · rw [foldl_cons, hfold, hbyte]
      simp only [append_assoc]

theorem lookAtModem_eq :
    S.lookAtModem =
      if S.g.Notifies then { S with g := S.g.notified, toNet := S.toNet ++ S.g.notification }
      else { S with g := S.g.looked } := by
  have hlen : S.g.notification.length ≤ 2047 := by
    have h := cpcFrame_length S.g.isWill S.g.escLast TNASC_NOTIFY_MODEMSTATE
      [S.g.newModemState &&& S.g.modemStateMask]
    simp only [length_singleton] at h
    exact Nat.le_trans h (by decide)
  have hsend := S.send_eq (sendCPCByteCommand_emits
    { S.g.looked with modemState := S.g.newModemState } TNASC_NOTIFY_MODEMSTATE
    (S.g.newModemState &&& S.g.modemStateMask)) hlen
  -- the test of the source is `Notifies`, and the frame fits an empty buffer
  show (if S.g.Notifies then S.send _ else _) = _
  congr 1

theorem accepted_eq (csock : Nat) :
    S.event (.accepted csock) =
      { S with g := S.g.negotiating, toNet := initialOptions, netWritten := [] } := by
  exact send_eq { S with toNet := [], netWritten := [] } (sendTelnetInitialOptions_emits S.g)
    (by decide)

end

end Session

/-! ### The relay keeps the streams -/

/-- The session and the relay are in the same state, and what was written
out and what waits in a queue make up its stream. -/
structure Conserves (S : Session) (a : Relay) : Prop where
  g : S.g = a.g
  portOpen : S.portOpen = a.deviceFd.isSome
  toDev : a.deviceFd.isSome → S.devWritten ++ a.toDev.bytes = S.toDev
  toNet : a.outSocketFd.isSome → S.netWritten ++ a.toNet.bytes = S.toNet

theorem Queue.accepted_append_pop (q : Queue) (w : WriteResult) :
    q.offered.take (w.accepted q.offered.length) ++
      (q.pop (w.accepted q.offered.length)).bytes = q.bytes := by
  have hle := write_accepted_le w q.offered.length
  have htake : q.offered.take (w.accepted q.offered.length) =
      q.bytes.take (w.accepted q.offered.length) := by
    unfold Queue.offered at hle ⊢
    rw [take_take, Nat.min_eq_left]
    rw [length_take] at hle ⊢
    omega
  rw [htake]
  exact take_append_drop _ _

section
variable {S : Session} {a : Relay} {i : Inputs} {f : Flow Relay}

theorem Conserves.drop (h : Conserves S a) : Conserves (S.event .dropped) a.drop := by
  refine ⟨?_, rfl, nofun, nofun⟩
  show (if S.portOpen then { S.g with port := closePort S.g.port } else S.g) = _
  rw [h.g, h.portOpen]
  rfl

theorem Conserves.observe (h : Conserves S a) (i : Inputs) :
    Conserves (S.event (.select i.lines)) (a.observe i) := by
  refine ⟨?_, h.portOpen, h.toDev, h.toNet⟩
  simp only [Session.event, Relay.observe, h.g]

/-- The calls between two states keep the streams. -/
def Advances (S : Session) (a b : Relay) : Prop :=
  ∃ es, b.trace = a.trace ++ es ∧ Conserves (es.foldl Session.event S) b

theorem advances_same (h : Conserves S a) : Advances S a a := ⟨[], by simp, h⟩

theorem advances_dropped {e : Event} (he : S.event e = S) (h : Conserves S a) :
    Advances S a (a.record e).drop := by
  refine ⟨[e, .dropped], by simp [Relay.drop, Relay.record], ?_⟩
  have hrec : Conserves S (a.record e) := { h with }
  show Conserves ((S.event e).event .dropped) _
  rw [he]
  exact hrec.drop

section
variable (h : Conserves S a)
include h

theorem deviceIn_advances (hf : a.deviceIn i = .ok f) : Advances S a f.state := by
  have hread : S.event (.readFromDev a.devCount i.devRead) = _ :=
    S.foldl_deviceByte (i.devRead.data a.devCount)
  obtain ⟨-, ⟨hd, rfl⟩ | ⟨-, q, hq, rfl⟩⟩ := Relay.deviceIn_ok hf
  · refine advances_dropped ?_ h
    show (i.devRead.data a.devCount).foldl Session.deviceByte S = S
    rw [hd]
    rfl
  · obtain ⟨-, rfl⟩ := Queue.put_eq_ok hq
    refine ⟨[.readFromDev a.devCount i.devRead], rfl, ?_⟩
    show Conserves (S.event (.readFromDev a.devCount i.devRead)) _
    rw [hread]
    refine ⟨?_, h.portOpen, h.toDev, fun hout => ?_⟩
    · dsimp only
      rw [h.g]
      rfl
    · dsimp only [Flow.state]
      rw [← append_assoc, h.toNet hout, h.g]

theorem deviceOut_advances (hf : a.deviceOut i = .ok f) : Advances S a f.state := by
  obtain ⟨-, ⟨hn, rfl⟩ | ⟨-, rfl⟩⟩ := Relay.deviceOut_ok hf
  · refine advances_dropped ?_ h
    simp [Session.event, hn]
  · refine ⟨[.writeToDev a.toDev.offered i.devWrite], rfl, h.g, h.portOpen, fun hdev => ?_, h.toNet⟩
    show (S.devWritten ++ _) ++ _ = S.toDev
    rw [append_assoc]
    dsimp only [Flow.state]
    rw [Queue.accepted_append_pop]
    exact h.toDev hdev

theorem socketOut_advances (hf : a.socketOut i = .ok f) : Advances S a f.state := by
  obtain ⟨-, ⟨hn, rfl⟩ | ⟨-, rfl⟩⟩ := Relay.socketOut_ok hf
  · refine advances_dropped ?_ h
    simp [Session.event, hn]
  · refine ⟨[.writeToNet a.toNet.offered i.netWrite], rfl, h.g, h.portOpen, h.toDev, fun hout => ?_⟩
    show (S.netWritten ++ _) ++ _ = S.toNet
    rw [append_assoc]
    dsimp only [Flow.state]
    rw [Queue.accepted_append_pop]
    exact h.toNet hout

theorem socketIn_advances (hf : a.socketIn i = .ok f) : Advances S a f.state := by
  obtain ⟨-, ⟨hd, rfl⟩ | ⟨-, -, x, hx, rfl⟩⟩ := Relay.socketIn_ok hf
  · refine advances_dropped ?_ h
    show (i.netRead.data a.netCount).foldl Session.networkByte S = S
    rw [hd]
    rfl
  · rw [← h.g] at hx
    -- what the relay queues is what the stream grows by
    obtain ⟨net, dev, hnet, hdev, hread⟩ := S.foldl_networkByte hx
    refine ⟨[.readFromNet a.netCount i.netRead], rfl, ?_⟩
    show Conserves ((i.netRead.data a.netCount).foldl Session.networkByte S) _
    rw [hread]
    refine ⟨rfl, h.portOpen, fun hopen => ?_, fun hout => ?_⟩
    · dsimp only [Flow.state]
      rw [hdev, ← append_assoc, h.toDev hopen]
    · dsimp only [Flow.state]
      rw [hnet, ← append_assoc, h.toNet hout]

theorem socketConnect_advances (hf : a.socketConnect i = .ok f) : Advances S a f.state := by
  obtain ⟨-, rfl | ⟨-, csock, rfl⟩⟩ := Relay.socketConnect_ok hf
  · exact advances_same h
  · refine ⟨[.accepted csock], rfl, ?_⟩
    show Conserves (S.event (.accepted csock)) _
    rw [S.accepted_eq]
    -- the stream to the network starts over, the one to the device goes on
    constructor
    · exact congrArg Globals.negotiating h.g
    · dsimp only [Flow.state, Relay.record]
      exact h.portOpen
    · dsimp only [Flow.state, Relay.record]
      exact h.toDev
    · intro _
      rfl

theorem openDevice_advances (hf : a.openDevice i = .ok f) : Advances S a f.state := by
  obtain rfl | ⟨-, rfl | ⟨fd, rfl⟩⟩ := Relay.openDevice_ok hf
  · exact advances_same h
  · exact ⟨[.dropped], rfl, h.drop⟩
  · refine ⟨[.portOpened fd], rfl, ?_, rfl, fun _ => rfl, h.toNet⟩
    show ({ S.g with port := openPort S.g.port } : Globals) = { a.g with port := openPort a.g.port }
    rw [h.g]

theorem modemState_advances (hf : a.modemState = .ok f) : Advances S a f.state := by
  have hlook := S.lookAtModem_eq
  rw [h.g] at hlook
  obtain ⟨-, ⟨hnotify, q, hq, rfl⟩ | ⟨hnotify, rfl⟩⟩ := Relay.modemState_ok hf
  · obtain ⟨-, rfl⟩ := Queue.put_eq_ok hq
    refine ⟨[.getModemState], rfl, ?_⟩
    show Conserves S.lookAtModem _
    rw [hlook, if_pos hnotify]
    refine ⟨rfl, h.portOpen, h.toDev, fun hout => ?_⟩
    dsimp only [Flow.state]
    rw [← append_assoc, h.toNet hout]
  · refine ⟨[.getModemState], rfl, ?_⟩
    show Conserves S.lookAtModem _
    rw [hlook, if_neg hnotify]
    exact ⟨rfl, h.portOpen, h.toDev, h.toNet⟩

theorem exec_advances {selret : Events} {k : Stage} (hf : Relay.exec selret i k a = .ok f) :
    Advances S a f.state := by
  rcases Relay.exec_ok hf with ⟨-, hf⟩ | ⟨-, rfl⟩
  · match k with
    | .deviceIn => exact deviceIn_advances h hf
    | .deviceOut => exact deviceOut_advances h hf
    | .socketOut => exact socketOut_advances h hf
    | .socketIn => exact socketIn_advances h hf
    | .socketConnect => exact socketConnect_advances h hf
    | .openDevice => exact openDevice_advances h hf
    | .modemState => exact modemState_advances h hf
  · exact advances_same h

end

end

/-! ### The loop keeps the streams -/

/-- The streams computed from the trace of a state are those it keeps. -/
def Replays (cfg : Config) (mode : Mode) (a : Relay) : Prop :=
  Conserves (Session.replay cfg mode a.trace) a

theorem replays_of_advances {cfg : Config} {mode : Mode} {a b : Relay}
    (h : Advances (Session.replay cfg mode a.trace) a b) : Replays cfg mode b := by
  obtain ⟨es, htrace, hb⟩ := h
  unfold Replays Session.replay
  rw [htrace, foldl_append]
  exact hb

theorem replays_start (cfg : Config) (mem : Memory) (mode : Mode) :
    Replays cfg mode (Relay.start cfg mem mode) := by
  unfold Replays Session.replay
  rw [start_trace]
  match mode with
  | .inetd =>
    show Conserves (Session.event _ (.accepted 0)) _
    rw [Session.accepted_eq]
    exact ⟨rfl, rfl, nofun, fun _ => rfl⟩
  | .standalone lsocket => exact ⟨rfl, rfl, nofun, nofun⟩

/-- **What goes in comes out**: in every state that a run passes through,
the bytes `WriteToDev` has accepted and the bytes in `ToDevBuf` are what
`EscRedirectChar` delivered since the port was opened, and the bytes
`WriteToNet` has accepted and the bytes in `ToNetBuf` are the initial
options, the encoded bytes of the device, the replies and the
notifications, in the order in which they came up. -/
theorem session_passes_through (cfg : Config) (mem : Memory) (mode : Mode) (is : List Inputs)
    (s t : Main) (his : ∀ i ∈ is, i.NoBlock) (hs : start cfg mem mode = .ok s)
    (ht : Visits s is t) :
    (t.deviceFd.isSome → (Session.replay cfg mode t.trace).devWritten ++ t.toDevBuf.contents =
      (Session.replay cfg mode t.trace).toDev) ∧
    (t.outSocketFd.isSome → (Session.replay cfg mode t.trace).netWritten ++ t.toNetBuf.contents =
      (Session.replay cfg mode t.trace).toNet) := by
  obtain ⟨a, ha, hr⟩ := (start_refines cfg mem mode).ok_left hs
  cases ha
  have hstart : Replays cfg mode s.view := hr.view ▸ replays_start cfg mem mode
  have hend : Replays cfg mode t.view := by
    refine visits_invariant (C := fun _ _ => True) ?_ his hr.inv hstart (along_true s is) ht
    intro s i selret b hs _ _ hb
    -- the lines are sampled at the top of the iteration, then the handlers run
    have hobs : Replays cfg mode (s.view.observe i) :=
      replays_of_advances ⟨[.select i.lines], rfl, hs.observe i⟩
    exact passes_invariant (fun k _ a f ha hf => replays_of_advances (exec_advances ha hf)) hobs hb
  exact ⟨hend.toDev, hend.toNet⟩

theorem session_passes_through_one_byte :
    ∃ s t, start default default .inetd = .ok s ∧ run iteration s oneByte = .ok t ∧
      t.toDevBuf.contents = [97] ∧
      (Session.replay default .inetd t.trace).devWritten ++ t.toDevBuf.contents =
        (Session.replay default .inetd t.trace).toDev ∧
      (Session.replay default .inetd t.trace).netWritten ++ t.toNetBuf.contents =
        (Session.replay default .inetd t.trace).toNet := by
  have hone : ∀ i ∈ oneByte, i.NoBlock := by decide
  obtain ⟨s, t, hs, ht, hbytes, hdev, hout⟩ := run_of_relay .inetd
    (fun a => a.toDev.bytes = [97] ∧ a.deviceFd.isSome ∧ a.outSocketFd.isSome) hone
    (by decide +kernel)
  have hpass := session_passes_through default default .inetd oneByte s t hone hs (visits_of_run ht)
  exact ⟨s, t, hs, ht, hbytes, hpass.1 hdev, hpass.2 hout⟩

end Sercd
