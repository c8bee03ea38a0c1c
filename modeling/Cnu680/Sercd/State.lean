import Cnu680.Sercd.Port

/-! # sercd: the protocol state

The global variables of `sercd.c` and the static variables of its
functions, with the values they have when the process starts.
-/

namespace Sercd

/-- Status enumeration for IAC escaping and interpretation. -/
inductive IACState where
  | IACNormal
  | IACReceived
  | IACComReceiving
  deriving DecidableEq, Repr

/-- Telnet state of one option. -/
structure TnState where
  sent_will : Bool := false
  sent_do : Bool := false
  sent_wont : Bool := false
  sent_dont : Bool := false
  is_will : Bool := false
  is_do : Bool := false
  deriving DecidableEq, Repr

/-- The variables of `EscRedirectChar`. -/
structure Parser where
  /-- Effective status for IAC escaping and interpretation. -/
  iacEscape : IACState
  /-- Same as above during signature reception. -/
  iacSigEscape : IACState
  /-- Current IAC command being received. -/
  iacCommand : Vector UInt8 TmpStrLen
  /-- Position of insertion into `iacCommand`. -/
  iacPos : Nat
  /-- Last received byte (static in `EscRedirectChar`). -/
  last : UInt8

/-- The global variables. -/
structure Globals where
  ciscoIOSCompatible : Bool
  deviceName : CString
  /-- Com Port Control enabled flag. -/
  portControlEnable : Bool
  parser : Parser
  /-- Modem and line state masks set by the client. -/
  modemStateMask : UInt8
  lineStateMask : UInt8
  /-- Current status of the modem control lines. -/
  modemState : UInt8
  breakSignaled : Bool
  /-- Input flow control flag. -/
  inputFlow : Bool
  /-- Telnet state machine. -/
  tnstate : UInt8 → TnState
  /-- Last byte written (static in `EscWriteChar`). -/
  escLast : UInt8
  port : Port

/-- We transmit in binary mode. -/
def Globals.isWill (g : Globals) : Bool := (g.tnstate TN_TRANSMIT_BINARY).is_will

/-- We receive in binary mode. -/
def Globals.isDo (g : Globals) : Bool := (g.tnstate TN_TRANSMIT_BINARY).is_do

/-- Set the telnet state of option `o`. -/
def Globals.setTn (g : Globals) (o : UInt8) (f : TnState → TnState) : Globals :=
  { g with tnstate := fun o' => if o' = o then f (g.tnstate o) else g.tnstate o' }

/-- Initialize Telnet State Machine. -/
def initTelnetStateMachine (g : Globals) : Globals := { g with tnstate := fun _ => {} }

/-- The parser as the process starts with it. -/
def initialParser : Parser where
  iacEscape := .IACNormal
  iacSigEscape := .IACNormal
  iacCommand := Vector.replicate TmpStrLen 0
  iacPos := 0
  last := 0

/-- The command line and the device the process is started with. -/
structure Config where
  ciscoIOSCompatible : Bool
  deviceName : CString
  /-- The settings of the device. -/
  settings : Termios

instance : Inhabited Config := ⟨⟨false, ⟨[], List.not_mem_nil⟩, ⟨0, 0, 0, 0⟩⟩⟩

/-- The global variables as the process starts with them. -/
def initialGlobals (cfg : Config) : Globals where
  ciscoIOSCompatible := cfg.ciscoIOSCompatible
  deviceName := cfg.deviceName
  portControlEnable := true
  parser := initialParser
  modemStateMask := 255
  lineStateMask := 0
  modemState := 0
  breakSignaled := false
  inputFlow := true
  tnstate := fun _ => {}
  escLast := 0
  port := ⟨cfg.settings, none, fun _ => 0, 0, []⟩

end Sercd
