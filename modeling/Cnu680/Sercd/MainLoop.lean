import Cnu680.Sercd.Parser

/-! # sercd: the main loop

The event loop of `main` as a step function: one iteration takes the
state of the process and what the system answers during the iteration,
and either goes on to a new state or stops the process.

An iteration arms the events it waits for, calls `SercdSelect`, and runs
its handlers in the order of the source:
`deviceIn`, `deviceOut`, `socketOut`, `socketIn`, `socketConnect`,
`openDevice`, `modemState`. A handler either falls through to the next
one or, like `continue`, ends the iteration.

The calls that the loop makes to the system are recorded in a trace,
with the answers it got.
-/

open Framework

namespace Sercd

/-! ### The system around the loop -/

abbrev EWOULDBLOCK : Nat := 11

/-- What `read` finds: the bytes that are there, none at the end of the
file, or an error. -/
inductive ReadResult where
  | bytes (l : List UInt8)
  | fail (errno : Nat)
  deriving DecidableEq, Repr

/-- What `write` finds: the number of bytes there is room for, or an
error. -/
inductive WriteResult where
  | room (n : Nat)
  | fail (errno : Nat)
  deriving DecidableEq, Repr

/-- The flags of `SercdSelect`. -/
structure Events where
  deviceIn : Bool := false
  deviceOut : Bool := false
  socketOut : Bool := false
  socketIn : Bool := false
  socketConnect : Bool := false
  modemstate : Bool := false
  deriving DecidableEq, Repr

/-- The events that are waited for and have come. -/
def Events.inter (a b : Events) : Events where
  deviceIn := a.deviceIn && b.deviceIn
  deviceOut := a.deviceOut && b.deviceOut
  socketOut := a.socketOut && b.socketOut
  socketIn := a.socketIn && b.socketIn
  socketConnect := a.socketConnect && b.socketConnect
  modemstate := a.modemstate && b.modemstate

/-- What the system answers during one iteration. -/
structure Inputs where
  /-- `select` returns an error. -/
  selectFails : Bool := false
  /-- What `select` finds ready, with the elapsed poll interval for the
      modem state. -/
  ready : Events
  devRead : ReadResult := .bytes []
  devWrite : WriteResult := .room 0
  netWrite : WriteResult := .room 0
  netRead : ReadResult := .bytes []
  /-- The socket that `accept` returns. -/
  csock : Option Nat := none
  /-- The device that `OpenPort` opens. -/
  openFd : Option Nat := none
  /-- The modem lines that `TIOCMGET` finds. -/
  lines : Nat → BitVec 32 := fun _ => 0

/-- A call the loop makes, with its answer. -/
inductive Event where
  | select (lines : Nat → BitVec 32)
  | readFromDev (count : UInt32) (got : ReadResult)
  | writeToDev (string : List UInt8) (got : WriteResult)
  | writeToNet (string : List UInt8) (got : WriteResult)
  | readFromNet (count : UInt32) (got : ReadResult)
  | accepted (csock : Nat)
  | portOpened (fd : Nat)
  | getModemState
  | dropped

/-- The ways in which the process stops. -/
inductive Halt where
  | fault (f : Fault)
  | exit (code : Nat)
  deriving DecidableEq, Repr

/-- Program exit codes. -/
abbrev NoError : Nat := 0
abbrev Error : Nat := 1

/-! ### The state of `main` -/

/-- The variables of `main`, with those of the functions it calls. The file
descriptors are pointers, null when `none`. -/
structure Main where
  g : Globals
  toDevBuf : BufferType
  toNetBuf : BufferType
  readbuf : Vector UInt8 512
  deviceFd : Option Nat
  inSocketFd : Option Nat
  outSocketFd : Option Nat
  lSocketFd : Option Nat
  trace : List Event

def Main.record (s : Main) (e : Event) : Main := { s with trace := s.trace ++ [e] }

/-- A fault in a function stops the process. -/
def stopOn {α : Type} (x : Except Fault α) : Except Halt α := x.mapError Halt.fault

/-! ### I/O -/

/-- Check and act upon read/write result. Returns true on error. -/
def ioResultError (iobytes : Int) (errno : Nat) : Bool :=
  if iobytes = -1 then errno != EWOULDBLOCK
  else iobytes == 0

/-- The value of `read(.., count)`. -/
def ReadResult.value (count : UInt32) : ReadResult → Int
  | .bytes l => (l.take count.toNat).length
  | .fail _ => -1

/-- The bytes `read(.., count)` puts into `readbuf`. -/
def ReadResult.data (count : UInt32) : ReadResult → List UInt8
  | .bytes l => l.take count.toNat
  | .fail _ => []

def ReadResult.errno : ReadResult → Nat
  | .bytes _ => 0
  | .fail errno => errno

/-- The value of `write(.., count)`. -/
def WriteResult.value (count : UInt32) : WriteResult → Int
  | .room n => min n count.toNat
  | .fail _ => -1

def WriteResult.errno : WriteResult → Nat
  | .room _ => 0
  | .fail errno => errno

/-- `readbuf` with `l` read into it. -/
def fill (readbuf : Vector UInt8 512) (l : List UInt8) : Vector UInt8 512 :=
  Vector.ofFn fun i => l.getD i readbuf[i]

/-- `readbuf[i]`. -/
def readAt (readbuf : Vector UInt8 512) (i : Nat) : Except Fault UInt8 :=
  if h : i < 512 then .ok readbuf[i] else .error .outOfBounds

/-- Drop client connection and close serial port; `main` then clears its
pointers. -/
def dropConnection (s : Main) : Main :=
  { s with
    g := if s.deviceFd.isSome then { s.g with port := closePort s.g.port } else s.g
    deviceFd := none
    inSocketFd := none
    outSocketFd := none
    trace := s.trace ++ [.dropped] }

/-! ### The handlers -/

/-- `for (i = 0; i < iobytes; i++) EscWriteChar(&ToNetBuf, readbuf[i])`, with
`i` and the converted `iobytes` unsigned. -/
def escWriteLoop (readbuf : Vector UInt8 512) (g : Globals) (B : BufferType) (iobytes : UInt32) :
    Except Fault (Globals × BufferType) :=
  run (fun (x : Globals × BufferType) i => do
      let C ← readAt readbuf i
      escWriteChar x.1 C x.2)
    (g, B) (List.range iobytes.toNat)

/-- Read from serial port. Each serial port byte might produce
`escWriteChar_bytes` of network data. -/
def deviceIn (i : Inputs) (s : Main) : Except Halt (Flow Main) := do
  let trybytes := min 512 (bufferRoomLeft s.toNetBuf / escWriteChar_bytes)
  if s.deviceFd.isNone then throw (.fault .nullPointer)
  let iobytes := i.devRead.value trybytes
  let s := { s with readbuf := fill s.readbuf (i.devRead.data trybytes) }
  let s := s.record (.readFromDev trybytes i.devRead)
  if ioResultError iobytes i.devRead.errno then
    return .continue (dropConnection s)
  let (g, B) ← stopOn (escWriteLoop s.readbuf s.g s.toNetBuf (UInt32.ofInt iobytes))
  return .next { s with g := g, toNetBuf := B }

/-- Write to serial port. -/
def deviceOut (i : Inputs) (s : Main) : Except Halt (Flow Main) := do
  let trybytes := (getBufferString s.toDevBuf).2
  if s.deviceFd.isNone then throw (.fault .nullPointer)
  let iobytes := i.devWrite.value trybytes
  let s := s.record (.writeToDev s.toDevBuf.string i.devWrite)
  if ioResultError iobytes i.devWrite.errno then
    return .continue (dropConnection s)
  return .next { s with toDevBuf := bufferPopBytes s.toDevBuf (UInt32.ofInt iobytes) }

/-- Write to network. -/
def socketOut (i : Inputs) (s : Main) : Except Halt (Flow Main) := do
  let trybytes := (getBufferString s.toNetBuf).2
  if s.outSocketFd.isNone then throw (.fault .nullPointer)
  let iobytes := i.netWrite.value trybytes
  let s := s.record (.writeToNet s.toNetBuf.string i.netWrite)
  if ioResultError iobytes i.netWrite.errno then
    return .continue (dropConnection s)
  return .next { s with toNetBuf := bufferPopBytes s.toNetBuf (UInt32.ofInt iobytes) }

/-- `for (i = 0; i < iobytes; i++) EscRedirectChar(&ToNetBuf, &ToDevBuf,
*DeviceFd, readbuf[i])`. -/
def escRedirectLoop (readbuf : Vector UInt8 512) (g : Globals) (SockB DevB : BufferType)
    (iobytes : UInt32) : Except Fault (Globals × BufferType × BufferType) :=
  run (fun (x : Globals × BufferType × BufferType) i => do
      let C ← readAt readbuf i
      escRedirectChar x.1 x.2.1 x.2.2 C)
    (g, SockB, DevB) (List.range iobytes.toNat)

/-- The number of bytes asked of the network. -/
def netTrybytes (s : Main) : UInt32 :=
  let trybytes := 512
  let trybytes := min trybytes (bufferRoomLeft s.toNetBuf / escRedirectChar_bytes_SockB)
  min trybytes (bufferRoomLeft s.toDevBuf / escRedirectChar_bytes_DevB)

/-- Read from network. Each network byte might produce
`escRedirectChar_bytes_DevB` or up to `escRedirectChar_bytes_SockB`
network data. -/
def socketIn (i : Inputs) (s : Main) : Except Halt (Flow Main) := do
  let trybytes := netTrybytes s
  if s.inSocketFd.isNone then throw (.fault .nullPointer)
  let iobytes := i.netRead.value trybytes
  let s := { s with readbuf := fill s.readbuf (i.netRead.data trybytes) }
  let s := s.record (.readFromNet trybytes i.netRead)
  if ioResultError iobytes i.netRead.errno then
    return .continue (dropConnection s)
  -- `*DeviceFd` is read for every byte
  if s.deviceFd.isNone then throw (.fault .nullPointer)
  let (g, SockB, DevB) ← stopOn
    (escRedirectLoop s.readbuf s.g s.toNetBuf s.toDevBuf (UInt32.ofInt iobytes))
  return .next { s with g := g, toNetBuf := SockB, toDevBuf := DevB }

/-- Accept new connections. We can only handle one connection at a time. -/
def socketConnect (i : Inputs) (s : Main) : Except Halt (Flow Main) := do
  if s.lSocketFd.isNone then throw (.fault .nullPointer)
  match i.csock with
  | none => return .next s
  | some csock =>
    if s.inSocketFd.isSome ∧ s.outSocketFd.isSome then return .next s
    -- Set up networking
    let s := { s with inSocketFd := some csock, outSocketFd := some csock }
    let s := s.record (.accepted csock)
    let g := initTelnetStateMachine s.g
    let (g, B) ← stopOn (sendTelnetInitialOptions g (initBuffer s.toNetBuf))
    return .next { s with g := g, toNetBuf := B }

/-- Open serial port if not yet open. -/
def openDevice (i : Inputs) (s : Main) : Except Halt (Flow Main) :=
  if s.inSocketFd.isSome ∧ s.outSocketFd.isSome ∧ s.deviceFd.isNone then
    match i.openFd with
    | none => .ok (.continue (dropConnection s))
    | some fd =>
      let s := { s with deviceFd := some fd, g := { s.g with port := openPort s.g.port } }
      let s := s.record (.portOpened fd)
      .ok (.next { s with toDevBuf := initBuffer s.toDevBuf })
  else .ok (.next s)

/-- Check the port state and notify the client if it's changed. Don't send
update if only delta changes. -/
def modemState (s : Main) : Except Halt (Flow Main) := do
  if s.deviceFd.isNone then throw (.fault .nullPointer)
  let (newstate, port) := getModemState s.g.port s.g.modemState
  let s := { s with g := { s.g with port := port } }
  let s := s.record .getModemState
  if newstate &&& s.g.modemStateMask &&& TNCOM_MODMASK_NODELTA ≠
      s.g.modemState &&& s.g.modemStateMask &&& TNCOM_MODMASK_NODELTA then
    let g := { s.g with modemState := newstate }
    let (g, B) ← stopOn
      (sendCPCByteCommand g TNASC_NOTIFY_MODEMSTATE (newstate &&& g.modemStateMask) s.toNetBuf)
    return .next { s with g := g, toNetBuf := B }
  return .next s

/-! ### The iteration -/

/-- The handlers, in the order of the source. -/
inductive Stage where
  | deviceIn | deviceOut | socketOut | socketIn | socketConnect | openDevice | modemState
  deriving DecidableEq, Repr

def stages : List Stage :=
  [.deviceIn, .deviceOut, .socketOut, .socketIn, .socketConnect, .openDevice, .modemState]

/-- The test of `selret` in front of a handler. The port is opened without
one. -/
def Events.reports (selret : Events) : Stage → Bool
  | .deviceIn => selret.deviceIn
  | .deviceOut => selret.deviceOut
  | .socketOut => selret.socketOut
  | .socketIn => selret.socketIn
  | .socketConnect => selret.socketConnect
  | .openDevice => true
  | .modemState => selret.modemstate

def Stage.handle (i : Inputs) : Stage → Main → Except Halt (Flow Main)
  | .deviceIn => Sercd.deviceIn i
  | .deviceOut => Sercd.deviceOut i
  | .socketOut => Sercd.socketOut i
  | .socketIn => Sercd.socketIn i
  | .socketConnect => Sercd.socketConnect i
  | .openDevice => Sercd.openDevice i
  | .modemState => Sercd.modemState

/-- One handler, under its test. -/
def Stage.exec (selret : Events) (i : Inputs) (k : Stage) (s : Main) : Except Halt (Flow Main) :=
  if selret.reports k then k.handle i s else .ok (.next s)

/-- The events that the loop waits for. -/
def armed (s : Main) : Events where
  deviceIn :=
    s.deviceFd.isSome && bufferHasRoomFor s.toNetBuf escWriteChar_bytes && s.g.inputFlow
  deviceOut := s.deviceFd.isSome && !isBufferEmpty s.toDevBuf
  modemstate :=
    s.deviceFd.isSome && s.g.portControlEnable && s.g.inputFlow &&
      bufferHasRoomFor s.toNetBuf sendCPCByteCommand_bytes
  socketOut := s.outSocketFd.isSome && !isBufferEmpty s.toNetBuf
  socketIn :=
    s.deviceFd.isSome && bufferHasRoomFor s.toDevBuf escRedirectChar_bytes_DevB &&
      s.inSocketFd.isSome && bufferHasRoomFor s.toNetBuf escRedirectChar_bytes_SockB
  socketConnect := s.lSocketFd.isSome

/-- The state at the top of an iteration, with the modem lines as they will
be found during it. -/
def Main.observe (s : Main) (i : Inputs) : Main :=
  { s with
    g := { s.g with port := { s.g.port with lines := i.lines, gets := 0 } }
    trace := s.trace ++ [.select i.lines] }

/-- The top of an iteration, up to the events in `selret`. -/
def select (s : Main) (i : Inputs) : Except Halt Events := do
  let a := armed s
  if !a.deviceIn && !a.deviceOut && !a.socketOut && !a.socketIn && !s.lSocketFd.isSome then
    -- Nothing more to do
    throw (.exit NoError)
  if i.selectFails then throw (.exit Error)
  return a.inter i.ready

/-- One iteration of the main loop. -/
def iteration (s : Main) (i : Inputs) : Except Halt Main := do
  let selret ← select s i
  if selret = {} then return s
  let f ← pipeline (Stage.exec selret i) stages (s.observe i)
  return f.state

/-- The states that the loop passes through: at the top of an iteration and
after each of its handlers. -/
inductive Visits : Main → List Inputs → Main → Prop
  | top (s : Main) (is : List Inputs) : Visits s is s
  | handler {s : Main} {i : Inputs} (is : List Inputs) {selret : Events} {t : Main}
    (hselect : select s i = .ok selret) (hne : selret ≠ {})
    (h : Passes (Stage.exec selret i) stages (s.observe i) t) : Visits s (i :: is) t
  | later {s : Main} {i : Inputs} {is : List Inputs} {s' t : Main}
    (h : iteration s i = .ok s') (hrest : Visits s' is t) : Visits s (i :: is) t

theorem visits_of_run {s t : Main} {is : List Inputs} (h : run iteration s is = .ok t) :
    Visits s is t := by
  induction is generalizing s with
  | nil =>
    cases h
    exact .top _ []
  | cons i is ih =>
    obtain ⟨s', hs', hrest⟩ := bind_eq_ok.mp h
    exact .later hs' (ih hrest)

/-! ### Starting -/

/-- How the process is started: from `inetd`, with the client on the
standard streams, or standalone, with a listening socket. -/
inductive Mode where
  | inetd
  | standalone (lsocket : Nat)
  deriving DecidableEq, Repr

/-- The contents of memory that the process does not initialise: the
buffers of `main`. -/
structure Memory where
  toDevBuf : BufferType
  toNetBuf : BufferType
  readbuf : Vector UInt8 512

instance : Inhabited Memory := ⟨⟨default, default, Vector.replicate 512 0⟩⟩

/-- The state in which the loop is entered. -/
def start (cfg : Config) (mem : Memory) : Mode → Except Halt Main
  | .inetd => do
    let g := initTelnetStateMachine (initialGlobals cfg)
    let (g, B) ← stopOn (sendTelnetInitialOptions g (initBuffer mem.toNetBuf))
    return ⟨g, mem.toDevBuf, B, mem.readbuf, none, some 0, some 1, none, []⟩
  | .standalone lsocket =>
    return ⟨initialGlobals cfg, mem.toDevBuf, mem.toNetBuf, mem.readbuf, none, none, none,
      some lsocket, []⟩

/-- The state after a number of iterations. -/
def mainLoop (cfg : Config) (mem : Memory) (mode : Mode) (is : List Inputs) : Except Halt Main :=
  start cfg mem mode >>= fun s => run iteration s is

end Sercd
