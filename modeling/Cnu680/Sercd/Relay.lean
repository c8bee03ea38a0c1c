import Cnu680.Sercd.MainLoop

/-! # sercd: the loop over queues

`Relay` is what the main loop is for, without its arrays: bytes from the
device are encoded into one bounded queue, bytes from the network go
through the parser into the other, and replies into the first.

Of the ring buffers nothing is left but the bytes they hold and the
place of the first one, on which it depends how many of them a write is
offered. Of the loops over `readbuf` nothing is left but the bytes read.

* `Refines s a` relates a state of `main` to a state of the relay;
* `iteration_refines`: as long as no call returns EWOULDBLOCK, an
  iteration of `main` and one of the relay keep the relation, and stop
  for the same reason.

A call that returns EWOULDBLOCK has no counterpart here: `main` then
takes -1 for a number of bytes.
-/

open Framework

namespace Sercd

/-! ### Queues -/

/-- A queue of at most 2047 bytes. -/
structure Queue where
  bytes : List UInt8
  /-- The place of the first byte in the array. -/
  pos : Nat

namespace Queue

def empty : Queue := ⟨[], 0⟩

def room (q : Queue) : Nat := 2047 - q.bytes.length

/-- The bytes a write is offered: those before the end of the array. -/
def offered (q : Queue) : List UInt8 := q.bytes.take (2048 - q.pos)

/-- Add bytes, if there is room for all of them. -/
def put (q : Queue) (out : List UInt8) : Except Fault Queue :=
  if out.length ≤ q.room then .ok { q with bytes := q.bytes ++ out } else .error .assertFailed

def pop (q : Queue) (n : Nat) : Queue := ⟨q.bytes.drop n, (q.pos + n) % 2048⟩

end Queue

/-- The queue that a buffer stands for. -/
def BufferType.queue (B : BufferType) : Queue := ⟨B.contents, B.rdPos.toNat⟩

/-- The buffer holds the queue, with its positions inside the array. -/
structure BufferType.Holds (B : BufferType) (q : Queue) : Prop where
  valid : B.Valid
  queue : B.queue = q

section
variable {B : BufferType}

@[simp] theorem room_queue (B : BufferType) : B.queue.room = B.room := (room_eq B).symm

theorem holds_initBuffer (B : BufferType) : (initBuffer B).Holds .empty := by
  refine ⟨valid_initBuffer B, ?_⟩
  unfold BufferType.queue
  rw [contents_initBuffer]
  rfl

theorem string_eq_offered (hB : B.Valid) : B.string = B.queue.offered := by
  rw [string_eq_take hB, getBufferString_len hB]
  show B.ring.view.take _ = B.ring.view.take (2048 - B.rdPos.toNat)
  have hrd : B.ring.rd = B.rdPos.toNat := Nat.mod_eq_of_lt hB.rd_lt
  have hlt := hB.rd_lt
  have hlen := B.ring.length_eq
  simp only [bufferSize] at hlt hlen
  -- either the queue ends before the end of the array, or the string does
  by_cases hle : B.ring.rd ≤ B.ring.wr
  · rw [if_pos hle] at hlen
    have hwr := B.ring.wr_lt
    simp only [bufferSize] at hwr
    rw [List.take_of_length_le, List.take_of_length_le]
    · rw [Ring.view_length]
      omega
    · rw [Ring.view_length, Ring.run, if_pos hle]
      omega
  · rw [Ring.run, if_neg hle, hrd]

theorem offered_length (hB : B.Valid) : B.queue.offered.length = (getBufferString B).2.toNat := by
  rw [← string_eq_offered hB, string_length hB]

theorem holds_pop (hB : B.Valid) {n : UInt32} (hn : n.toNat ≤ B.contents.length) :
    (bufferPopBytes B n).Holds (B.queue.pop n.toNat) := by
  refine ⟨valid_bufferPopBytes hB n, ?_⟩
  have hpos : ((B.rdPos + n) % 2048).toNat = (B.rdPos.toNat + n.toNat) % 2048 := by
    have hr := hB.rd_lt
    have hle := contents_length_le B
    simp only [bufferSize] at hr
    simp only [UInt32.toNat_mod, UInt32.toNat_add, UInt32.reduceToNat]
    omega
  unfold BufferType.queue Queue.pop
  rw [contents_bufferPopBytes hB hn]
  exact congrArg (Queue.mk _) hpos

theorem addBytes_agree (hB : B.Valid) (out : List UInt8) :
    Agree BufferType.Holds (addBytes B out) (B.queue.put out) := by
  unfold Queue.put
  rw [room_queue]
  by_cases hroom : out.length ≤ B.room
  · obtain ⟨B', hadd, hv, hrd, hc⟩ := addBytes_ok hB hroom
    rw [hadd, if_pos hroom]
    refine .ok ⟨hv, ?_⟩
    unfold BufferType.queue
    rw [hc, hrd]
  · rw [addBytes_full hB (by omega), if_neg hroom]
    exact .error _

theorem emits_agree {α : Type} {m : BufM α} {x : α} {out : List UInt8}
    (h : Emits addToBuffer m x out) (hB : B.Valid) :
    Agree (fun r q => r.1 = x ∧ r.2.Holds q) (m B) (B.queue.put out) := by
  have hadd : Agree _ (run addToBuffer B out) (B.queue.put out) := addBytes_agree hB out
  rw [h B]
  match run addToBuffer B out, B.queue.put out, hadd with
  | _, _, .ok hq => exact .ok ⟨rfl, hq⟩
  | _, _, .error e => exact .error e

end

/-! ### The relay -/

/-- The state of the loop, over queues. -/
structure Relay where
  g : Globals
  toDev : Queue
  toNet : Queue
  deviceFd : Option Nat
  inSocketFd : Option Nat
  outSocketFd : Option Nat
  lSocketFd : Option Nat
  trace : List Event

/-- The number of bytes that a write accepts of `len` bytes offered. -/
def WriteResult.accepted (len : Nat) : WriteResult → Nat
  | .room n => min n len
  | .fail _ => 0

/-- The bytes that are sent first on a new connection. -/
def initialOptions : List UInt8 :=
  [TNIAC, TNWILL, TN_TRANSMIT_BINARY, TNIAC, TNDO, TN_TRANSMIT_BINARY, TNIAC, TNWILL, TN_ECHO,
    TNIAC, TNWILL, TN_SUPPRESS_GO_AHEAD, TNIAC, TNDO, TN_SUPPRESS_GO_AHEAD,
    TNIAC, TNDO, TNCOM_PORT_OPTION]

/-- The telnet state after them. -/
def Globals.negotiating (g : Globals) : Globals :=
  ((((((initTelnetStateMachine g).setTn TN_TRANSMIT_BINARY fun t => { t with sent_will := true
    }).setTn TN_TRANSMIT_BINARY fun t => { t with sent_do := true
    }).setTn TN_ECHO fun t => { t with sent_will := true
    }).setTn TN_SUPPRESS_GO_AHEAD fun t => { t with sent_will := true
    }).setTn TN_SUPPRESS_GO_AHEAD fun t => { t with sent_do := true
    }).setTn TNCOM_PORT_OPTION fun t => { t with sent_do := true }

/-- The state that `GetModemState` finds, and the notification that is due:
none if only delta bits have changed. -/
def Globals.newModemState (g : Globals) : UInt8 := (getModemState g.port g.modemState).1

def Globals.Notifies (g : Globals) : Prop :=
  g.newModemState &&& g.modemStateMask &&& TNCOM_MODMASK_NODELTA ≠
    g.modemState &&& g.modemStateMask &&& TNCOM_MODMASK_NODELTA

instance (g : Globals) : Decidable g.Notifies := by
  unfold Globals.Notifies
  infer_instance

def Globals.notification (g : Globals) : List UInt8 :=
  cpcFrame g.isWill g.escLast TNASC_NOTIFY_MODEMSTATE [g.newModemState &&& g.modemStateMask]

/-- The state after the modem lines were looked at. -/
def Globals.looked (g : Globals) : Globals :=
  { g with port := (getModemState g.port g.modemState).2 }

/-- The state after the notification. -/
def Globals.notified (g : Globals) : Globals :=
  { g.looked with
    modemState := g.newModemState, escLast := g.newModemState &&& g.modemStateMask }

namespace Relay

def record (a : Relay) (e : Event) : Relay := { a with trace := a.trace ++ [e] }

def drop (a : Relay) : Relay :=
  { a with
    g := if a.deviceFd.isSome then { a.g with port := closePort a.g.port } else a.g
    deviceFd := none
    inSocketFd := none
    outSocketFd := none
    trace := a.trace ++ [.dropped] }

/-- The number of bytes asked of the device. -/
def devCount (a : Relay) : UInt32 := .ofNat (min 512 (a.toNet.room / 2))

/-- The number of bytes asked of the network. -/
def netCount (a : Relay) : UInt32 := .ofNat (min (min 512 (a.toNet.room / 516)) a.toDev.room)

def deviceIn (i : Inputs) (a : Relay) : Except Halt (Flow Relay) :=
  let d := i.devRead.data a.devCount
  let a' := a.record (.readFromDev a.devCount i.devRead)
  if a.deviceFd.isNone then .error (.fault .nullPointer)
  else if d = [] then .ok (.continue a'.drop)
  else stopOn (a.toNet.put (escape a.g.isWill a.g.escLast d)) >>= fun q =>
    .ok (.next { a' with g := { a.g with escLast := d.getLastD a.g.escLast }, toNet := q })

def deviceOut (i : Inputs) (a : Relay) : Except Halt (Flow Relay) :=
  let n := i.devWrite.accepted a.toDev.offered.length
  let a' := a.record (.writeToDev a.toDev.offered i.devWrite)
  if a.deviceFd.isNone then .error (.fault .nullPointer)
  else if n = 0 then .ok (.continue a'.drop)
  else .ok (.next { a' with toDev := a.toDev.pop n })

def socketOut (i : Inputs) (a : Relay) : Except Halt (Flow Relay) :=
  let n := i.netWrite.accepted a.toNet.offered.length
  let a' := a.record (.writeToNet a.toNet.offered i.netWrite)
  if a.outSocketFd.isNone then .error (.fault .nullPointer)
  else if n = 0 then .ok (.continue a'.drop)
  else .ok (.next { a' with toNet := a.toNet.pop n })

/-- The state, the queue to the network and the queue to the device. -/
abbrev Streams := Globals × Queue × Queue

/-- A byte from the network. -/
def redirect (x : Streams) (C : UInt8) : Except Fault Streams :=
  parse x.1.isDo x.1.parser C >>= fun (p, act) =>
    x.2.1.put (act.toNet { x.1 with parser := p }) >>= fun toNet =>
      x.2.2.put act.toDev >>= fun toDev => .ok (act.after { x.1 with parser := p }, toNet, toDev)

def socketIn (i : Inputs) (a : Relay) : Except Halt (Flow Relay) :=
  let d := i.netRead.data a.netCount
  let a' := a.record (.readFromNet a.netCount i.netRead)
  if a.inSocketFd.isNone then .error (.fault .nullPointer)
  else if d = [] then .ok (.continue a'.drop)
  else if a.deviceFd.isNone then .error (.fault .nullPointer)
  else stopOn (run redirect (a.g, a.toNet, a.toDev) d) >>= fun x =>
    .ok (.next { a' with g := x.1, toNet := x.2.1, toDev := x.2.2 })

def socketConnect (i : Inputs) (a : Relay) : Except Halt (Flow Relay) :=
  if a.lSocketFd.isNone then .error (.fault .nullPointer)
  else match i.csock with
  | none => .ok (.next a)
  | some csock =>
    if a.inSocketFd.isSome ∧ a.outSocketFd.isSome then .ok (.next a)
    else .ok (.next { a.record (.accepted csock) with
      inSocketFd := some csock, outSocketFd := some csock
      g := a.g.negotiating, toNet := ⟨initialOptions, 0⟩ })

def openDevice (i : Inputs) (a : Relay) : Except Halt (Flow Relay) :=
  if a.inSocketFd.isSome ∧ a.outSocketFd.isSome ∧ a.deviceFd.isNone then
    match i.openFd with
    | none => .ok (.continue a.drop)
    | some fd => .ok (.next { a.record (.portOpened fd) with
      deviceFd := some fd, g := { a.g with port := openPort a.g.port }, toDev := .empty })
  else .ok (.next a)

def modemState (a : Relay) : Except Halt (Flow Relay) :=
  let a' := a.record .getModemState
  if a.deviceFd.isNone then .error (.fault .nullPointer)
  else if a.g.Notifies then
    stopOn (a.toNet.put a.g.notification) >>= fun q =>
      .ok (.next { a' with g := a.g.notified, toNet := q })
  else .ok (.next { a' with g := a.g.looked })

def handle (i : Inputs) (a : Relay) : Stage → Except Halt (Flow Relay)
  | .deviceIn => a.deviceIn i
  | .deviceOut => a.deviceOut i
  | .socketOut => a.socketOut i
  | .socketIn => a.socketIn i
  | .socketConnect => a.socketConnect i
  | .openDevice => a.openDevice i
  | .modemState => a.modemState

def exec (selret : Events) (i : Inputs) (k : Stage) (a : Relay) : Except Halt (Flow Relay) :=
  if selret.reports k then a.handle i k else .ok (.next a)

def armed (a : Relay) : Events where
  deviceIn := a.deviceFd.isSome && decide (2 ≤ a.toNet.room) && a.g.inputFlow
  deviceOut := a.deviceFd.isSome && !a.toDev.bytes.isEmpty
  modemstate :=
    a.deviceFd.isSome && a.g.portControlEnable && a.g.inputFlow && decide (8 ≤ a.toNet.room)
  socketOut := a.outSocketFd.isSome && !a.toNet.bytes.isEmpty
  socketIn :=
    a.deviceFd.isSome && decide (1 ≤ a.toDev.room) && a.inSocketFd.isSome &&
      decide (516 ≤ a.toNet.room)
  socketConnect := a.lSocketFd.isSome

def observe (a : Relay) (i : Inputs) : Relay :=
  { a with
    g := { a.g with port := { a.g.port with lines := i.lines, gets := 0 } }
    trace := a.trace ++ [.select i.lines] }

/-- Nothing to wait for. -/
def Idle (a : Relay) : Prop :=
  (!a.armed.deviceIn && !a.armed.deviceOut && !a.armed.socketOut && !a.armed.socketIn &&
    !a.lSocketFd.isSome) = true

instance (a : Relay) : Decidable a.Idle := by
  unfold Idle
  infer_instance

def select (a : Relay) (i : Inputs) : Except Halt Events :=
  if a.Idle then .error (.exit NoError)
  else if i.selectFails then .error (.exit Error)
  else .ok (a.armed.inter i.ready)

def iteration (a : Relay) (i : Inputs) : Except Halt Relay :=
  a.select i >>= fun selret =>
    if selret = {} then .ok a
    else pipeline (exec selret i) stages (a.observe i) >>= fun f => .ok f.state

def start (cfg : Config) (mem : Memory) : Mode → Relay
  | .inetd => ⟨(initialGlobals cfg).negotiating, mem.toDevBuf.queue, ⟨initialOptions, 0⟩, none,
      some 0, some 1, none, []⟩
  | .standalone lsocket => ⟨initialGlobals cfg, mem.toDevBuf.queue, mem.toNetBuf.queue, none, none,
      none, some lsocket, []⟩

end Relay

/-! ### What a handler does

One lemma for each handler that goes on: what it found, and the state it
leaves. -/

section
variable {i : Inputs} {a : Relay} {f : Flow Relay} {α : Type} {x : Except Fault α}

theorem isSome_of_not_isNone {o : Option α} (h : ¬ o.isNone) : o.isSome := by
  cases o with
  | none => exact absurd rfl h
  | some x => rfl

theorem stopOn_eq_ok {y : α} : stopOn x = .ok y ↔ x = .ok y := by
  unfold stopOn
  cases x <;> simp [Except.mapError]

theorem stopOn_eq_error {f : Fault} : stopOn x = .error (.fault f) ↔ x = .error f := by
  unfold stopOn
  cases x <;> simp [Except.mapError]

theorem guard_eq_ok {o : Option Nat} {e : Halt} {x : Except Halt α} {y : α}
    (h : (if o.isNone then .error e else x) = .ok y) : o.isSome ∧ x = .ok y := by
  by_cases hnone : o.isNone
  · rw [if_pos hnone] at h
    cases h
  · rw [if_neg hnone] at h
    exact ⟨isSome_of_not_isNone hnone, h⟩

/-- A test for an error of the call: the connection is dropped, or the
handler goes on. -/
theorem result_eq_ok {c : Prop} [Decidable c] {b : Relay} {x : Except Halt (Flow Relay)}
    (h : (if c then .ok (.continue b) else x) = .ok f) : c ∧ f = .continue b ∨ ¬ c ∧ x = .ok f := by
  by_cases hc : c
  · rw [if_pos hc] at h
    cases h
    exact .inl ⟨hc, rfl⟩
  · rw [if_neg hc] at h
    exact .inr ⟨hc, h⟩

theorem Relay.deviceIn_ok (h : a.deviceIn i = .ok f) :
    a.deviceFd.isSome ∧
      (i.devRead.data a.devCount = [] ∧
        f = .continue (a.record (.readFromDev a.devCount i.devRead)).drop ∨
      i.devRead.data a.devCount ≠ [] ∧
        ∃ q, a.toNet.put (escape a.g.isWill a.g.escLast (i.devRead.data a.devCount)) = .ok q ∧
        f = .next { a.record (.readFromDev a.devCount i.devRead) with
          g := { a.g with escLast := (i.devRead.data a.devCount).getLastD a.g.escLast }
          toNet := q }) := by
  obtain ⟨hdev, h⟩ := guard_eq_ok h
  refine ⟨hdev, ?_⟩
  rcases result_eq_ok h with hdrop | ⟨hd, h⟩
  · exact .inl hdrop
  · obtain ⟨q, hq, hf⟩ := bind_eq_ok.mp h
    cases hf
    exact .inr ⟨hd, q, stopOn_eq_ok.mp hq, rfl⟩

theorem Relay.deviceOut_ok (h : a.deviceOut i = .ok f) :
    a.deviceFd.isSome ∧
      (i.devWrite.accepted a.toDev.offered.length = 0 ∧
        f = .continue (a.record (.writeToDev a.toDev.offered i.devWrite)).drop ∨
      i.devWrite.accepted a.toDev.offered.length ≠ 0 ∧
        f = .next { a.record (.writeToDev a.toDev.offered i.devWrite) with
          toDev := a.toDev.pop (i.devWrite.accepted a.toDev.offered.length) }) := by
  obtain ⟨hdev, h⟩ := guard_eq_ok h
  refine ⟨hdev, ?_⟩
  rcases result_eq_ok h with hdrop | ⟨hn, h⟩
  · exact .inl hdrop
  · cases h
    exact .inr ⟨hn, rfl⟩

theorem Relay.socketOut_ok (h : a.socketOut i = .ok f) :
    a.outSocketFd.isSome ∧
      (i.netWrite.accepted a.toNet.offered.length = 0 ∧
        f = .continue (a.record (.writeToNet a.toNet.offered i.netWrite)).drop ∨
      i.netWrite.accepted a.toNet.offered.length ≠ 0 ∧
        f = .next { a.record (.writeToNet a.toNet.offered i.netWrite) with
          toNet := a.toNet.pop (i.netWrite.accepted a.toNet.offered.length) }) := by
  obtain ⟨hout, h⟩ := guard_eq_ok h
  refine ⟨hout, ?_⟩
  rcases result_eq_ok h with hdrop | ⟨hn, h⟩
  · exact .inl hdrop
  · cases h
    exact .inr ⟨hn, rfl⟩

theorem Relay.redirect_ok {x y : Relay.Streams} {C : UInt8} (h : Relay.redirect x C = .ok y) :
    ∃ p act, parse x.1.isDo x.1.parser C = .ok (p, act) ∧
      x.2.1.put (act.toNet { x.1 with parser := p }) = .ok y.2.1 ∧
      x.2.2.put act.toDev = .ok y.2.2 ∧ y.1 = act.after { x.1 with parser := p } := by
  obtain ⟨⟨p, act⟩, hparse, h⟩ := bind_eq_ok.mp h
  obtain ⟨toNet, hnet, h⟩ := bind_eq_ok.mp h
  obtain ⟨toDev, hdev, h⟩ := bind_eq_ok.mp h
  cases h
  exact ⟨p, act, hparse, hnet, hdev, rfl⟩

theorem Relay.socketIn_ok (h : a.socketIn i = .ok f) :
    a.inSocketFd.isSome ∧
      (i.netRead.data a.netCount = [] ∧
        f = .continue (a.record (.readFromNet a.netCount i.netRead)).drop ∨
      i.netRead.data a.netCount ≠ [] ∧ a.deviceFd.isSome ∧
        ∃ x, run Relay.redirect (a.g, a.toNet, a.toDev) (i.netRead.data a.netCount) = .ok x ∧
        f = .next { a.record (.readFromNet a.netCount i.netRead) with
          g := x.1, toNet := x.2.1, toDev := x.2.2 }) := by
  obtain ⟨hin, h⟩ := guard_eq_ok h
  refine ⟨hin, ?_⟩
  rcases result_eq_ok h with hdrop | ⟨hd, h⟩
  · exact .inl hdrop
  · obtain ⟨hdev, h⟩ := guard_eq_ok h
    obtain ⟨x, hx, hf⟩ := bind_eq_ok.mp h
    cases hf
    exact .inr ⟨hd, hdev, x, stopOn_eq_ok.mp hx, rfl⟩

theorem Relay.socketConnect_ok (h : a.socketConnect i = .ok f) :
    a.lSocketFd.isSome ∧
      (f = .next a ∨
      ¬ (a.inSocketFd.isSome ∧ a.outSocketFd.isSome) ∧
        ∃ csock, f = .next { a.record (.accepted csock) with
          inSocketFd := some csock, outSocketFd := some csock
          g := a.g.negotiating, toNet := ⟨initialOptions, 0⟩ }) := by
  obtain ⟨hlisten, h⟩ := guard_eq_ok h
  refine ⟨hlisten, ?_⟩
  match hc : i.csock with
  | none =>
    rw [hc] at h
    cases h
    exact .inl rfl
  | some csock =>
    rw [hc] at h
    dsimp only at h
    by_cases hconn : a.inSocketFd.isSome ∧ a.outSocketFd.isSome
    · rw [if_pos hconn] at h
      cases h
      exact .inl rfl
    · rw [if_neg hconn] at h
      cases h
      exact .inr ⟨hconn, csock, rfl⟩

theorem Relay.openDevice_ok (h : a.openDevice i = .ok f) :
    f = .next a ∨
      (a.inSocketFd.isSome ∧ a.outSocketFd.isSome ∧ a.deviceFd.isNone) ∧
        (f = .continue a.drop ∨
        ∃ fd, f = .next { a.record (.portOpened fd) with
          deviceFd := some fd, g := { a.g with port := openPort a.g.port }, toDev := .empty }) := by
  unfold Relay.openDevice at h
  -- nothing is done unless there is a client without a port
  by_cases hopen : a.inSocketFd.isSome ∧ a.outSocketFd.isSome ∧ a.deviceFd.isNone
  · rw [if_pos hopen] at h
    refine .inr ⟨hopen, ?_⟩
    match hfd : i.openFd with
    | none =>
      rw [hfd] at h
      cases h
      exact .inl rfl
    | some fd =>
      rw [hfd] at h
      cases h
      exact .inr ⟨fd, rfl⟩
  · rw [if_neg hopen] at h
    cases h
    exact .inl rfl

theorem Relay.modemState_ok (h : a.modemState = .ok f) :
    a.deviceFd.isSome ∧
      (a.g.Notifies ∧ (∃ q, a.toNet.put a.g.notification = .ok q ∧
        f = .next { a.record .getModemState with g := a.g.notified, toNet := q }) ∨
      ¬ a.g.Notifies ∧ f = .next { a.record .getModemState with g := a.g.looked }) := by
  obtain ⟨hdev, h⟩ := guard_eq_ok h
  refine ⟨hdev, ?_⟩
  by_cases hnotify : a.g.Notifies
  · rw [if_pos hnotify] at h
    obtain ⟨q, hq, hf⟩ := bind_eq_ok.mp h
    cases hf
    exact .inl ⟨hnotify, q, stopOn_eq_ok.mp hq, rfl⟩
  · rw [if_neg hnotify] at h
    cases h
    exact .inr ⟨hnotify, rfl⟩

theorem Relay.exec_ok {selret : Events} {k : Stage} (h : Relay.exec selret i k a = .ok f) :
    selret.reports k = true ∧ a.handle i k = .ok f ∨ selret.reports k = false ∧ f = .next a := by
  unfold Relay.exec at h
  by_cases hk : selret.reports k = true
  · rw [if_pos hk] at h
    exact .inl ⟨hk, h⟩
  · rw [if_neg hk] at h
    cases h
    exact .inr ⟨Bool.not_eq_true _ ▸ hk, rfl⟩

theorem Relay.select_armed {selret : Events} (h : a.select i = .ok selret) :
    selret = a.armed.inter i.ready := by
  unfold Relay.select at h
  split at h
  · cases h
  · split at h
    · cases h
    · cases h
      rfl

end

/-! ### The relation -/

/-- No call returns EWOULDBLOCK. -/
structure Inputs.NoBlock (i : Inputs) : Prop where
  devRead : i.devRead ≠ .fail EWOULDBLOCK
  devWrite : i.devWrite ≠ .fail EWOULDBLOCK
  netWrite : i.netWrite ≠ .fail EWOULDBLOCK
  netRead : i.netRead ≠ .fail EWOULDBLOCK

instance (i : Inputs) : Decidable i.NoBlock :=
  decidable_of_iff (i.devRead ≠ .fail EWOULDBLOCK ∧ i.devWrite ≠ .fail EWOULDBLOCK ∧
      i.netWrite ≠ .fail EWOULDBLOCK ∧ i.netRead ≠ .fail EWOULDBLOCK)
    ⟨fun ⟨h₁, h₂, h₃, h₄⟩ => ⟨h₁, h₂, h₃, h₄⟩, fun ⟨h₁, h₂, h₃, h₄⟩ => ⟨h₁, h₂, h₃, h₄⟩⟩

def Main.view (s : Main) : Relay :=
  ⟨s.g, s.toDevBuf.queue, s.toNetBuf.queue, s.deviceFd, s.inSocketFd, s.outSocketFd, s.lSocketFd,
    s.trace⟩

/-- A buffer is in use while its descriptor is there. -/
structure Main.Inv (s : Main) : Prop where
  net : s.outSocketFd.isSome → s.toNetBuf.Valid
  dev : s.deviceFd.isSome → s.toDevBuf.Valid
  device : s.deviceFd.isSome → s.outSocketFd.isSome

structure Refines (s : Main) (a : Relay) : Prop where
  inv : s.Inv
  view : s.view = a

/-! ### Counts and results -/

variable {r : ReadResult} {w : WriteResult} {count : UInt32} {d : List UInt8}

theorem toNat_min (a b : UInt32) : (min a b).toNat = min a.toNat b.toNat := by
  rw [UInt32.min_def]
  simp only [UInt32.le_iff_toNat_le]
  split <;> omega

theorem ofNat_toNat_eq {a : UInt32} {n : Nat} (h : a.toNat = n) : a = .ofNat n := by
  rw [← h, UInt32.ofNat_toNat]

theorem devCount_eq (s : Main) :
    min 512 (bufferRoomLeft s.toNetBuf / escWriteChar_bytes) = s.view.devCount := by
  apply ofNat_toNat_eq
  rw [toNat_min, UInt32.toNat_div]
  show min 512 (s.toNetBuf.room / 2) = min 512 (s.toNetBuf.queue.room / 2)
  rw [room_queue]

theorem devCount_le (a : Relay) : a.devCount.toNat ≤ 512 := by
  simp only [Relay.devCount, UInt32.toNat_ofNat']
  omega

theorem netCount_le (a : Relay) : a.netCount.toNat ≤ 512 := by
  simp only [Relay.netCount, UInt32.toNat_ofNat']
  omega

theorem netCount_eq (s : Main) : netTrybytes s = s.view.netCount := by
  apply ofNat_toNat_eq
  unfold netTrybytes
  rw [toNat_min, toNat_min, UInt32.toNat_div, UInt32.toNat_div]
  show min (min 512 (s.toNetBuf.room / 516)) (s.toDevBuf.room / 1) =
    min (min 512 (s.toNetBuf.queue.room / 516)) s.toDevBuf.queue.room
  rw [room_queue, room_queue, Nat.div_one]

theorem ioResultError_natCast (n errno : Nat) : ioResultError n errno = true ↔ n = 0 := by
  have hne : (n : Int) ≠ -1 := by omega
  unfold ioResultError
  rw [if_neg hne, beq_iff_eq]
  omega

/-- A read that does not block is an error or the end of the file exactly
when it gets no byte. -/
theorem ioResultError_read (h : r ≠ .fail EWOULDBLOCK) (count : UInt32) :
    ioResultError (r.value count) r.errno = true ↔ r.data count = [] := by
  match r with
  | .bytes l =>
    show ioResultError ((l.take count.toNat).length : Nat) 0 = true ↔ l.take count.toNat = []
    rw [ioResultError_natCast, List.length_eq_zero_iff]
  | .fail e =>
    have he : e ≠ EWOULDBLOCK := fun he => h (congrArg _ he)
    simpa [ReadResult.value, ReadResult.data, ReadResult.errno, ioResultError] using he

theorem read_value (h : r.data count ≠ []) : r.value count = (r.data count).length := by
  match r with
  | .bytes l => rfl
  | .fail e => exact absurd rfl h

theorem read_data_length (r : ReadResult) (count : UInt32) :
    (r.data count).length ≤ count.toNat := by
  match r with
  | .bytes l => exact List.length_take_le _ _
  | .fail e => exact Nat.zero_le _

/-- A write that does not block is an error exactly when nothing of it is
accepted. -/
theorem ioResultError_write (h : w ≠ .fail EWOULDBLOCK) (count : UInt32) :
    ioResultError (w.value count) w.errno = true ↔ w.accepted count.toNat = 0 := by
  match w with
  | .room n =>
    have hmin : WriteResult.value count (.room n) = ((min n count.toNat : Nat) : Int) := by
      simp only [WriteResult.value]
      omega
    rw [hmin]
    exact ioResultError_natCast _ _
  | .fail e =>
    have he : e ≠ EWOULDBLOCK := fun he => h (congrArg _ he)
    simpa [WriteResult.value, WriteResult.accepted, WriteResult.errno, ioResultError] using he

theorem write_accepted_le (w : WriteResult) (len : Nat) : w.accepted len ≤ len := by
  match w with
  | .room n => exact Nat.min_le_right _ _
  | .fail e => exact Nat.zero_le _

theorem write_value (h : w.accepted count.toNat ≠ 0) :
    w.value count = (w.accepted count.toNat : Nat) := by
  match w with
  | .room n =>
    simp only [WriteResult.value, WriteResult.accepted]
    omega
  | .fail e => exact absurd rfl h

theorem toNat_ofInt {n : Nat} (h : n < 4294967296) : (UInt32.ofInt n).toNat = n := by
  unfold UInt32.ofInt
  simp only [UInt32.toNat_ofNat']
  omega

/-! ### The loops -/

theorem run_readbuf {σ : Type} (step : σ → UInt8 → Except Fault σ) (readbuf : Vector UInt8 512)
    (hd : d.length ≤ 512) (s : σ) :
    run (fun x i => readAt (fill readbuf d) i >>= fun C => step x C) s
      (List.range (UInt32.ofInt d.length).toNat) = run step s d := by
  rw [toNat_ofInt (by omega), ← run_range d]
  -- below the number of bytes read, `readbuf` holds the bytes read
  apply run_congr
  intro i hi x
  have hlt : i < d.length := List.mem_range.mp hi
  have hread : readAt (fill readbuf d) i = .ok (d.getD i default) := by
    unfold readAt
    rw [dif_pos (by omega : i < 512)]
    simp [fill, hlt]
  rw [hread, ok_bind]

theorem run_escWriteChar (g : Globals) (B : BufferType) (d : List UInt8) :
    run (fun (x : Globals × BufferType) C => escWriteChar x.1 C x.2) (g, B) d =
      escWriteChars g d B := by
  induction d generalizing g B with
  | nil => rfl
  | cons C d ih =>
    rw [run_cons]
    show _ = escWriteChar g C B >>= fun x => escWriteChars x.1 d x.2
    congr 1
    funext x
    exact ih x.1 x.2

theorem escWriteLoop_eq (readbuf : Vector UInt8 512) (g : Globals) (B : BufferType)
    (hd : d.length ≤ 512) :
    escWriteLoop (fill readbuf d) g B (UInt32.ofInt d.length) = escWriteChars g d B := by
  unfold escWriteLoop
  rw [← run_escWriteChar]
  exact run_readbuf (fun (x : Globals × BufferType) C => escWriteChar x.1 C x.2) readbuf hd _

/-- The state after a byte from the network, with buffers and with
queues. -/
def Holding (x : Globals × BufferType × BufferType) (y : Relay.Streams) : Prop :=
  x.1 = y.1 ∧ x.2.1.Holds y.2.1 ∧ x.2.2.Holds y.2.2

theorem escRedirectChar_agree {x : Globals × BufferType × BufferType} {y : Relay.Streams}
    (C : UInt8) (h : Holding x y) :
    Agree Holding (escRedirectChar x.1 x.2.1 x.2.2 C) (Relay.redirect y C) := by
  obtain ⟨g, S, D⟩ := x
  obtain ⟨g', q, r⟩ := y
  obtain ⟨rfl, hS, hD⟩ := h
  dsimp only at hS hD
  rw [escRedirectChar_eq]
  unfold Relay.redirect
  dsimp only
  match parse g.isDo g.parser C with
  | .error e => exact .error e
  | .ok (p, a) =>
    simp only [ok_bind]
    -- both sides add the same bytes, first to the network, then to the device
    have hnet := addBytes_agree hS.valid (a.toNet { g with parser := p })
    have hdev := addBytes_agree hD.valid a.toDev
    rw [hS.queue] at hnet
    rw [hD.queue] at hdev
    exact hnet.bind fun S' q' hS' => hdev.bind fun D' r' hD' => .ok ⟨rfl, hS', hD'⟩

theorem escRedirectLoop_fill (readbuf : Vector UInt8 512) (hd : d.length ≤ 512)
    (g : Globals) (S D : BufferType) :
    escRedirectLoop (fill readbuf d) g S D (UInt32.ofInt d.length) =
      run (fun (x : Globals × BufferType × BufferType) C => escRedirectChar x.1 x.2.1 x.2.2 C)
        (g, S, D) d :=
  run_readbuf (fun (x : Globals × BufferType × BufferType) C =>
    escRedirectChar x.1 x.2.1 x.2.2 C) readbuf hd _

theorem escRedirectLoop_agree (readbuf : Vector UInt8 512) (hd : d.length ≤ 512)
    {g : Globals} {S D : BufferType} {y : Relay.Streams} (h : Holding (g, S, D) y) :
    Agree Holding (escRedirectLoop (fill readbuf d) g S D (UInt32.ofInt d.length))
      (run Relay.redirect y d) := by
  rw [escRedirectLoop_fill readbuf hd]
  exact run_agree (P := fun _ => True) (fun x y C _ hxy => escRedirectChar_agree C hxy)
    (fun _ _ => trivial) h

/-! ### The handlers -/

section
variable {i : Inputs} {s : Main} {a : Relay}

theorem drop_refines (s : Main) :
    Agree (Flow.Rel Refines) (.ok (.continue (dropConnection s)) : Except Halt _)
      (.ok (.continue s.view.drop)) :=
  .ok (.continue ⟨⟨nofun, nofun, nofun⟩, rfl⟩)

theorem deviceIn_refines (hi : i.NoBlock) (h : Refines s a) :
    Agree (Flow.Rel Refines) (deviceIn i s) (a.deviceIn i) := by
  obtain ⟨hinv, rfl⟩ := h
  unfold deviceIn Relay.deviceIn
  rw [devCount_eq]
  dsimp only [Main.record]
  apply Agree.ite Iff.rfl
  · intro _
    exact .error _
  intro hdev
  apply Agree.ite (ioResultError_read hi.devRead _)
  · intro _
    exact drop_refines _
  intro hd
  -- something was read: the loop over `readbuf` is a loop over the bytes read
  have hout := hinv.device (isSome_of_not_isNone hdev)
  have hlen := Nat.le_trans (read_data_length i.devRead _) (devCount_le s.view)
  rw [read_value hd, escWriteLoop_eq _ _ _ hlen]
  refine ((emits_agree (escWriteChars_emits s.g _) (hinv.net hout)).mapError Halt.fault).bind ?_
  rintro ⟨g, B⟩ q ⟨rfl, hB⟩
  refine .ok (.next ⟨⟨fun _ => hB.valid, hinv.dev, hinv.device⟩, ?_⟩)
  rw [← hB.queue]
  rfl

theorem holds_pop_accepted {B : BufferType} (hB : B.Valid)
    (hw : w.accepted (getBufferString B).2.toNat ≠ 0) :
    (bufferPopBytes B (UInt32.ofInt (w.value (getBufferString B).2))).Holds
      (B.queue.pop (w.accepted B.queue.offered.length)) := by
  have hle := write_accepted_le w (getBufferString B).2.toNat
  have hstr := getBufferString_len_le hB
  have hmax := contents_length_le B
  -- the count is far from where it would wrap
  have hn : (UInt32.ofInt (w.value (getBufferString B).2)).toNat =
      w.accepted (getBufferString B).2.toNat := by
    rw [write_value hw]
    exact toNat_ofInt (by omega)
  have hpop := holds_pop hB (n := UInt32.ofInt (w.value (getBufferString B).2)) (by omega)
  rw [hn] at hpop
  rw [offered_length hB]
  exact hpop

theorem deviceOut_refines (hi : i.NoBlock) (h : Refines s a) :
    Agree (Flow.Rel Refines) (deviceOut i s) (a.deviceOut i) := by
  obtain ⟨hinv, rfl⟩ := h
  unfold deviceOut Relay.deviceOut
  dsimp only [Main.record]
  apply Agree.ite Iff.rfl
  · intro _
    exact .error _
  intro hdev
  have hB := hinv.dev (isSome_of_not_isNone hdev)
  have hstr : s.toDevBuf.string = s.view.toDev.offered := string_eq_offered hB
  have hlen : s.view.toDev.offered.length = (getBufferString s.toDevBuf).2.toNat :=
    offered_length hB
  rw [hstr, hlen]
  apply Agree.ite (ioResultError_write hi.devWrite _)
  · intro _
    exact drop_refines _
  intro hn
  have hpop := holds_pop_accepted hB hn
  refine .ok (.next ⟨⟨hinv.net, fun _ => hpop.valid, hinv.device⟩, ?_⟩)
  rw [← hlen]
  unfold Main.view
  dsimp only
  rw [hpop.queue]
  rfl

theorem socketOut_refines (hi : i.NoBlock) (h : Refines s a) :
    Agree (Flow.Rel Refines) (socketOut i s) (a.socketOut i) := by
  obtain ⟨hinv, rfl⟩ := h
  unfold socketOut Relay.socketOut
  dsimp only [Main.record]
  apply Agree.ite Iff.rfl
  · intro _
    exact .error _
  intro hout
  have hB := hinv.net (isSome_of_not_isNone hout)
  have hstr : s.toNetBuf.string = s.view.toNet.offered := string_eq_offered hB
  have hlen : s.view.toNet.offered.length = (getBufferString s.toNetBuf).2.toNat :=
    offered_length hB
  rw [hstr, hlen]
  apply Agree.ite (ioResultError_write hi.netWrite _)
  · intro _
    exact drop_refines _
  intro hn
  have hpop := holds_pop_accepted hB hn
  refine .ok (.next ⟨⟨fun _ => hpop.valid, hinv.dev, hinv.device⟩, ?_⟩)
  rw [← hlen]
  unfold Main.view
  dsimp only
  rw [hpop.queue]
  rfl

theorem socketIn_refines (hi : i.NoBlock) (h : Refines s a) :
    Agree (Flow.Rel Refines) (socketIn i s) (a.socketIn i) := by
  obtain ⟨hinv, rfl⟩ := h
  unfold socketIn Relay.socketIn
  rw [netCount_eq]
  dsimp only [Main.record]
  apply Agree.ite Iff.rfl
  · intro _
    exact .error _
  intro hin
  apply Agree.ite (ioResultError_read hi.netRead _)
  · intro _
    exact drop_refines _
  intro hd
  apply Agree.ite Iff.rfl
  · intro _
    exact .error _
  intro hdev
  -- the port is open, so both buffers are in use
  have hdev' := isSome_of_not_isNone hdev
  have hlen := Nat.le_trans (read_data_length i.netRead _) (netCount_le s.view)
  have hnet := hinv.net (hinv.device hdev')
  have hdevB := hinv.dev hdev'
  rw [read_value hd]
  have hloop := escRedirectLoop_agree s.readbuf hlen
    (y := (s.view.g, s.view.toNet, s.view.toDev)) ⟨rfl, ⟨hnet, rfl⟩, ⟨hdevB, rfl⟩⟩
  refine (hloop.mapError Halt.fault).bind ?_
  rintro ⟨g, S, D⟩ ⟨g', q, r⟩ ⟨rfl, hS, hD⟩
  refine .ok (.next ⟨⟨fun _ => hS.valid, fun _ => hD.valid, hinv.device⟩, ?_⟩)
  rw [← hS.queue, ← hD.queue]
  rfl

theorem sendTelnetInitialOptions_emits (g : Globals) :
    Emits addToBuffer (sendTelnetInitialOptions (initTelnetStateMachine g)) g.negotiating
      initialOptions :=
  (sendTelnetOption_emits _ _).bind ((sendTelnetOption_emits _ _).bind
    ((sendTelnetOption_emits _ _).bind ((sendTelnetOption_emits _ _).bind
      ((sendTelnetOption_emits _ _).bind ((sendTelnetOption_emits _ _).bind (Emits.pure _))))))

theorem sendTelnetInitialOptions_ok (g : Globals) (B : BufferType) :
    ∃ B', sendTelnetInitialOptions (initTelnetStateMachine g) (initBuffer B) =
      .ok (g.negotiating, B') ∧ B'.Holds ⟨initialOptions, 0⟩ := by
  have hB := holds_initBuffer B
  have hput : (initBuffer B).queue.put initialOptions = .ok ⟨initialOptions, 0⟩ := by
    rw [hB.queue]
    rfl
  have h := emits_agree (sendTelnetInitialOptions_emits g) hB.valid
  rw [hput] at h
  match sendTelnetInitialOptions (initTelnetStateMachine g) (initBuffer B), h with
  | .ok (_, B'), .ok ⟨rfl, hB'⟩ => exact ⟨B', rfl, hB'⟩

theorem socketConnect_refines (h : Refines s a) :
    Agree (Flow.Rel Refines) (socketConnect i s) (a.socketConnect i) := by
  obtain ⟨hinv, rfl⟩ := h
  unfold socketConnect Relay.socketConnect
  apply Agree.ite Iff.rfl
  · intro _
    exact .error _
  intro _
  match i.csock with
  | none => exact .ok (.next ⟨hinv, rfl⟩)
  | some csock =>
    apply Agree.ite Iff.rfl
    · intro _
      exact .ok (.next ⟨hinv, rfl⟩)
    intro _
    -- whatever the buffer held, it now holds the initial options
    obtain ⟨B', hsend, hB'⟩ := sendTelnetInitialOptions_ok s.g s.toNetBuf
    dsimp only [Main.record]
    rw [hsend]
    refine .ok (.next ⟨⟨fun _ => hB'.valid, hinv.dev, fun _ => rfl⟩, ?_⟩)
    unfold Main.view
    dsimp only
    rw [hB'.queue]
    rfl

theorem openDevice_refines (h : Refines s a) :
    Agree (Flow.Rel Refines) (openDevice i s) (a.openDevice i) := by
  obtain ⟨hinv, rfl⟩ := h
  unfold openDevice Relay.openDevice
  refine Agree.ite Iff.rfl (fun hopen => ?_) fun _ => .ok (.next ⟨hinv, rfl⟩)
  match i.openFd with
  | none => exact drop_refines _
  | some fd =>
    have hB := holds_initBuffer s.toDevBuf
    refine .ok (.next ⟨⟨hinv.net, fun _ => hB.valid, fun _ => hopen.2.1⟩, ?_⟩)
    unfold Main.view
    dsimp only [Main.record]
    rw [hB.queue]
    rfl

theorem modemState_refines (h : Refines s a) :
    Agree (Flow.Rel Refines) (modemState s) a.modemState := by
  obtain ⟨hinv, rfl⟩ := h
  unfold modemState Relay.modemState
  dsimp only [Main.record]
  apply Agree.ite Iff.rfl
  · intro _
    exact .error _
  intro hdev
  refine Agree.ite Iff.rfl (fun _ => ?_) fun _ => ?_
  case refine_2 => exact .ok (.next ⟨{ hinv with }, rfl⟩)
  have hnet := hinv.net (hinv.device (isSome_of_not_isNone hdev))
  have hsend := emits_agree (sendCPCByteCommand_emits
    { s.g.looked with modemState := s.g.newModemState } TNASC_NOTIFY_MODEMSTATE
    (s.g.newModemState &&& s.g.modemStateMask)) hnet
  refine (hsend.mapError Halt.fault).bind ?_
  rintro ⟨g, B⟩ q ⟨rfl, hB⟩
  refine .ok (.next ⟨⟨fun _ => hB.valid, hinv.dev, hinv.device⟩, ?_⟩)
  rw [← hB.queue]
  rfl

end

/-! ### The iteration -/

section
variable {i : Inputs} {s : Main} {a : Relay} {is : List Inputs}

theorem handle_refines (hi : i.NoBlock) (k : Stage) (h : Refines s a) :
    Agree (Flow.Rel Refines) (k.handle i s) (a.handle i k) := by
  match k with
  | .deviceIn => exact deviceIn_refines hi h
  | .deviceOut => exact deviceOut_refines hi h
  | .socketOut => exact socketOut_refines hi h
  | .socketIn => exact socketIn_refines hi h
  | .socketConnect => exact socketConnect_refines h
  | .openDevice => exact openDevice_refines h
  | .modemState => exact modemState_refines h

theorem exec_refines (hi : i.NoBlock) (selret : Events) (k : Stage) (h : Refines s a) :
    Agree (Flow.Rel Refines) (k.exec selret i s) (Relay.exec selret i k a) :=
  Agree.ite Iff.rfl (fun _ => handle_refines hi k h) fun _ => .ok (.next h)

theorem isBufferEmpty_queue (B : BufferType) : isBufferEmpty B = B.queue.bytes.isEmpty := by
  rw [Bool.eq_iff_iff, isBufferEmpty_iff, List.isEmpty_iff]
  rfl

theorem bufferHasRoomFor_queue (B : BufferType) (x : UInt32) :
    bufferHasRoomFor B x = decide (x.toNat ≤ B.queue.room) := by
  rw [Bool.eq_iff_iff, bufferHasRoomFor_iff, room_queue, decide_eq_true_iff]

theorem armed_view (s : Main) : armed s = s.view.armed := by
  unfold armed
  simp only [bufferHasRoomFor_queue, isBufferEmpty_queue]
  rfl

theorem select_view (s : Main) (i : Inputs) : select s i = s.view.select i := by
  unfold select
  rw [armed_view]
  rfl

theorem observe_refines (h : Refines s a) (i : Inputs) : Refines (s.observe i) (a.observe i) := by
  obtain ⟨hinv, rfl⟩ := h
  exact ⟨{ hinv with }, rfl⟩

theorem handlers_refine (hi : i.NoBlock) (selret : Events) (ks : List Stage) (h : Refines s a) :
    Agree (Flow.Rel Refines) (pipeline (Stage.exec selret i) ks (s.observe i))
      (pipeline (Relay.exec selret i) ks (a.observe i)) :=
  pipeline_agree (fun k _ _ h => exec_refines hi selret k h) ks (observe_refines h i)

/-- **An iteration of `main` refines one of the relay.** -/
theorem iteration_refines (hi : i.NoBlock) (h : Refines s a) :
    Agree Refines (iteration s i) (a.iteration i) := by
  obtain ⟨hinv, rfl⟩ := h
  unfold iteration Relay.iteration
  rw [select_view]
  match s.view.select i with
  | .error e => exact .error e
  | .ok selret =>
    apply Agree.ite Iff.rfl
    · intro _
      exact .ok ⟨hinv, rfl⟩
    intro _
    apply (handlers_refine hi selret stages ⟨hinv, rfl⟩).bind
    intro f f' hf
    exact .ok hf.state

/-- **So does a run.** -/
theorem run_refines (his : ∀ i ∈ is, i.NoBlock) (h : Refines s a) :
    Agree Refines (run iteration s is) (run Relay.iteration a is) := by
  have hstep : ∀ s a i, Inputs.NoBlock i → Refines s a →
      Agree Refines (iteration s i) (Relay.iteration a i) :=
    fun s a i hi h => iteration_refines hi h
  exact run_agree hstep his h

theorem iteration_passes {s' : Main} (h : iteration s i = .ok s') :
    ∃ selret, select s i = .ok selret ∧
      (s' = s ∨ selret ≠ {} ∧ Passes (Stage.exec selret i) stages (s.observe i) s') := by
  obtain ⟨selret, hsel, h⟩ := bind_eq_ok.mp h
  refine ⟨selret, hsel, ?_⟩
  by_cases hnone : selret = {}
  · rw [if_pos hnone] at h
    cases h
    exact .inl rfl
  · rw [if_neg hnone] at h
    obtain ⟨f, hf, hret⟩ := bind_eq_ok.mp h
    cases hret
    exact .inr ⟨hnone, passes_of_pipeline hf⟩

/-- **Invariant rule for the loop**: what the handlers of the relay keep
true in every state they pass through, under a condition on the
iteration, holds in every state of every run whose iterations meet the
condition. -/
theorem visits_invariant {P : Relay → Prop} {C : Main → Inputs → Prop} {t : Main}
    (hpass : ∀ s i selret b, P s.view → C s i → s.view.select i = .ok selret →
      Passes (Relay.exec selret i) stages (s.view.observe i) b → P b)
    (his : ∀ i ∈ is, i.NoBlock) (hinv : s.Inv) (hP : P s.view) (hC : Along iteration C s is)
    (ht : Visits s is t) : P t.view := by
  -- the states of one iteration
  have hround : ∀ {s i selret t}, s.Inv → P s.view → C s i → i.NoBlock →
      select s i = .ok selret → Passes (Stage.exec selret i) stages (s.observe i) t →
      t.Inv ∧ P t.view := by
    intro s i selret t hinv hP hC hi hsel ht
    have hsel' : s.view.select i = .ok selret := by rw [← select_view, hsel]
    obtain ⟨b, hb, hr⟩ := passes_agree (fun k s a h => exec_refines hi selret k h)
      (observe_refines ⟨hinv, rfl⟩ i) ht
    exact ⟨hr.inv, hr.view ▸ hpass s i selret b hP hC hsel' hb⟩
  induction ht with
  | top s is => exact hP
  | handler is hsel hne hpass =>
    exact (hround hinv hP hC.1 (his _ (by simp)) hsel hpass).2
  | @later s i is s' t hstep hrest ih =>
    have hs' : s'.Inv ∧ P s'.view := by
      obtain ⟨selret, hsel, rfl | ⟨-, hp⟩⟩ := iteration_passes hstep
      · exact ⟨hinv, hP⟩
      · exact hround hinv hP hC.1 (his i (by simp)) hsel hp
    exact ih (fun j hj => his j (by simp [hj])) hs'.1 hs'.2 (hC.2 s' hstep)

theorem start_trace (cfg : Config) (mem : Memory) (mode : Mode) :
    (Relay.start cfg mem mode).trace = [] := by
  cases mode <;> rfl

theorem start_refines (cfg : Config) (mem : Memory) (mode : Mode) :
    Agree Refines (start cfg mem mode) (.ok (Relay.start cfg mem mode)) := by
  match mode with
  | .inetd =>
    obtain ⟨B', hsend, hB'⟩ := sendTelnetInitialOptions_ok (initialGlobals cfg) mem.toNetBuf
    dsimp only [start]
    rw [hsend]
    refine .ok ⟨⟨fun _ => hB'.valid, nofun, nofun⟩, ?_⟩
    unfold Main.view
    dsimp only
    rw [hB'.queue]
    rfl
  | .standalone lsocket => exact .ok ⟨⟨nofun, nofun, nofun⟩, rfl⟩

/-- **`main` refines the relay**: it comes to the same states, and stops
for the same reason. -/
theorem mainLoop_refines (cfg : Config) (mem : Memory) (mode : Mode) (his : ∀ i ∈ is, i.NoBlock) :
    Agree Refines (mainLoop cfg mem mode is)
      (run Relay.iteration (Relay.start cfg mem mode) is) :=
  (start_refines cfg mem mode).bind fun _ _ h => run_refines his h

theorem run_of_relay (mode : Mode) (Q : Relay → Prop) (his : ∀ i ∈ is, i.NoBlock)
    (h : ∃ b, run Relay.iteration (Relay.start default default mode) is = .ok b ∧ Q b) :
    ∃ s t, start default default mode = .ok s ∧ run iteration s is = .ok t ∧ Q t.view := by
  obtain ⟨b, hb, hq⟩ := h
  obtain ⟨t, ht, hr⟩ := (mainLoop_refines default default mode his).ok_right hb
  obtain ⟨s, hs, ht⟩ := bind_eq_ok.mp ht
  exact ⟨s, t, hs, ht, hr.view ▸ hq⟩

end

end Sercd
