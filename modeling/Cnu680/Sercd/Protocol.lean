import Mathlib.Tactic.Common

/-! # sercd: protocol constants and run-time faults

The telnet and RFC 2217 constants of `sercd.h`, C strings, and the ways
in which a C function of `sercd` can stop the process.
-/

namespace Sercd

/-! ### Base telnet protocol (STD 8, STD 27, STD 28, STD 29) -/

abbrev TNSE : UInt8 := 240
abbrev TNNOP : UInt8 := 241
abbrev TNSB : UInt8 := 250
abbrev TNWILL : UInt8 := 251
abbrev TNWONT : UInt8 := 252
abbrev TNDO : UInt8 := 253
abbrev TNDONT : UInt8 := 254
abbrev TNIAC : UInt8 := 255

abbrev TN_TRANSMIT_BINARY : UInt8 := 0
abbrev TN_ECHO : UInt8 := 1
abbrev TN_SUPPRESS_GO_AHEAD : UInt8 := 3

/-- The Com Port Control option (RFC 2217). -/
abbrev TNCOM_PORT_OPTION : UInt8 := 44

/-- The option negotiations. -/
inductive Verb where
  | will | wont | do | dont
  deriving DecidableEq, Repr

def Verb.code : Verb → UInt8
  | .will => TNWILL
  | .wont => TNWONT
  | .do => TNDO
  | .dont => TNDONT

theorem Verb.code_ne (v : Verb) : v.code ≠ TNIAC ∧ v.code ≠ TNSB := by
  cases v <;> decide

/-! ### Com Port Control, client to access server -/

abbrev TNCAS_SIGNATURE : UInt8 := 0
abbrev TNCAS_SET_BAUDRATE : UInt8 := 1
abbrev TNCAS_SET_DATASIZE : UInt8 := 2
abbrev TNCAS_SET_PARITY : UInt8 := 3
abbrev TNCAS_SET_STOPSIZE : UInt8 := 4
abbrev TNCAS_SET_CONTROL : UInt8 := 5
abbrev TNCAS_NOTIFY_LINESTATE : UInt8 := 6
abbrev TNCAS_NOTIFY_MODEMSTATE : UInt8 := 7
abbrev TNCAS_FLOWCONTROL_SUSPEND : UInt8 := 8
abbrev TNCAS_FLOWCONTROL_RESUME : UInt8 := 9
abbrev TNCAS_SET_LINESTATE_MASK : UInt8 := 10
abbrev TNCAS_SET_MODEMSTATE_MASK : UInt8 := 11
abbrev TNCAS_PURGE_DATA : UInt8 := 12

/-! ### Com Port Control, access server to client -/

abbrev TNASC_SIGNATURE : UInt8 := 100
abbrev TNASC_SET_BAUDRATE : UInt8 := 101
abbrev TNASC_SET_DATASIZE : UInt8 := 102
abbrev TNASC_SET_PARITY : UInt8 := 103
abbrev TNASC_SET_STOPSIZE : UInt8 := 104
abbrev TNASC_SET_CONTROL : UInt8 := 105
abbrev TNASC_NOTIFY_MODEMSTATE : UInt8 := 107
abbrev TNASC_SET_LINESTATE_MASK : UInt8 := 110
abbrev TNASC_SET_MODEMSTATE_MASK : UInt8 := 111
abbrev TNASC_PURGE_DATA : UInt8 := 112

/-! ### Port settings on the wire -/

abbrev TNCOM_NOPARITY : UInt8 := 1
abbrev TNCOM_ODDPARITY : UInt8 := 2
abbrev TNCOM_EVENPARITY : UInt8 := 3

abbrev TNCOM_ONESTOPBIT : UInt8 := 1
abbrev TNCOM_TWOSTOPBITS : UInt8 := 2

abbrev TNCOM_CMD_FLOW_REQ : UInt8 := 0
abbrev TNCOM_CMD_FLOW_NONE : UInt8 := 1
abbrev TNCOM_CMD_FLOW_XONXOFF : UInt8 := 2
abbrev TNCOM_CMD_FLOW_HARDWARE : UInt8 := 3
abbrev TNCOM_CMD_BREAK_REQ : UInt8 := 4
abbrev TNCOM_CMD_BREAK_ON : UInt8 := 5
abbrev TNCOM_CMD_BREAK_OFF : UInt8 := 6
abbrev TNCOM_CMD_DTR_REQ : UInt8 := 7
abbrev TNCOM_CMD_DTR_ON : UInt8 := 8
abbrev TNCOM_CMD_DTR_OFF : UInt8 := 9
abbrev TNCOM_CMD_RTS_REQ : UInt8 := 10
abbrev TNCOM_CMD_RTS_ON : UInt8 := 11
abbrev TNCOM_CMD_RTS_OFF : UInt8 := 12
abbrev TNCOM_CMD_INFLOW_REQ : UInt8 := 13
abbrev TNCOM_CMD_INFLOW_NONE : UInt8 := 14
abbrev TNCOM_CMD_INFLOW_XONXOFF : UInt8 := 15
abbrev TNCOM_CMD_INFLOW_HARDWARE : UInt8 := 16

/-- Modem state bits: carrier, ring, data set ready, clear to send. -/
abbrev TNCOM_MODMASK_RLSD : UInt8 := 128
abbrev TNCOM_MODMASK_RING : UInt8 := 64
abbrev TNCOM_MODMASK_DSR : UInt8 := 32
abbrev TNCOM_MODMASK_CTS : UInt8 := 16
abbrev TNCOM_MODMASK_NODELTA : UInt8 :=
  TNCOM_MODMASK_RLSD ||| TNCOM_MODMASK_RING ||| TNCOM_MODMASK_DSR ||| TNCOM_MODMASK_CTS
abbrev TNCOM_MODMASK_RLSD_DELTA : UInt8 := 8
abbrev TNCOM_MODMASK_RING_TRAIL : UInt8 := 4
abbrev TNCOM_MODMASK_DSR_DELTA : UInt8 := 2
abbrev TNCOM_MODMASK_CTS_DELTA : UInt8 := 1

abbrev TNCOM_PURGE_RX : UInt8 := 1
abbrev TNCOM_PURGE_TX : UInt8 := 2
abbrev TNCOM_PURGE_BOTH : UInt8 := 3

/-- Size of the temporary strings and of `IACCommand[]`. -/
abbrev TmpStrLen : Nat := 255

theorem zero_lt_tmpStrLen : 0 < TmpStrLen := by decide

theorem one_lt_tmpStrLen : 1 < TmpStrLen := by decide

theorem three_lt_tmpStrLen : 3 < TmpStrLen := by decide

/-! ### Strings and faults -/

/-- A C string: its bytes up to, and without, the terminating NUL. -/
structure CString where
  bytes : List UInt8
  no_nul : 0 ∉ bytes

/-- `strlen`. -/
def CString.strlen (s : CString) : Nat := s.bytes.length

/-- The ways in which `sercd` stops before its time. -/
inductive Fault where
  /-- An `assert` failed. -/
  | assertFailed
  /-- An access outside an array, which C leaves undefined. -/
  | outOfBounds
  /-- A read through a null pointer. -/
  | nullPointer
  deriving DecidableEq, Repr

end Sercd
