import Cnu680.Sercd.Protocol

/-! # sercd: the serial port

The port functions of `unix.c` over a model of the terminal device: its
`termios` settings, which `tcsetattr` stores and `tcgetattr` returns,
and its modem lines, which change on their own.

The flag words are the 32-bit words of the ARM kernel headers. Log
messages are left out.
-/

namespace Sercd

/-! ### termios -/

abbrev tcflag_t := BitVec 32

/-- The mode flags of `struct termios`. -/
structure Termios where
  c_iflag : tcflag_t
  c_oflag : tcflag_t
  c_cflag : tcflag_t
  c_lflag : tcflag_t
  deriving DecidableEq, Repr

-- c_iflag
abbrev IGNBRK : tcflag_t := 0x1
abbrev BRKINT : tcflag_t := 0x2
abbrev PARMRK : tcflag_t := 0x8
abbrev ISTRIP : tcflag_t := 0x20
abbrev INLCR : tcflag_t := 0x40
abbrev IGNCR : tcflag_t := 0x80
abbrev ICRNL : tcflag_t := 0x100
abbrev IXON : tcflag_t := 0x400
abbrev IXOFF : tcflag_t := 0x1000
abbrev IBAUD0 : tcflag_t := 0x80000000
-- c_oflag
abbrev OPOST : tcflag_t := 0x1
-- c_cflag
abbrev CBAUD : tcflag_t := 0x100f
abbrev CBAUDEX : tcflag_t := 0x1000
abbrev CSIZE : tcflag_t := 0x30
abbrev CS5 : tcflag_t := 0x0
abbrev CS6 : tcflag_t := 0x10
abbrev CS7 : tcflag_t := 0x20
abbrev CS8 : tcflag_t := 0x30
abbrev CSTOPB : tcflag_t := 0x40
abbrev PARENB : tcflag_t := 0x100
abbrev PARODD : tcflag_t := 0x200
abbrev HUPCL : tcflag_t := 0x400
abbrev CLOCAL : tcflag_t := 0x800
abbrev CRTSCTS : tcflag_t := 0x80000000
-- c_lflag
abbrev ISIG : tcflag_t := 0x1
abbrev ICANON : tcflag_t := 0x2
abbrev ECHO : tcflag_t := 0x8
abbrev ECHONL : tcflag_t := 0x40
abbrev IEXTEN : tcflag_t := 0x8000

/-- The speeds that both directions of the translation know, with their
codes `B50` to `B460800`. -/
def speeds : List (tcflag_t × UInt32) :=
  [(0x1, 50), (0x2, 75), (0x3, 110), (0x4, 134), (0x5, 150), (0x6, 200), (0x7, 300),
   (0x8, 600), (0x9, 1200), (0xa, 1800), (0xb, 2400), (0xc, 4800), (0xd, 9600),
   (0xe, 19200), (0xf, 38400), (0x1001, 57600), (0x1002, 115200), (0x1003, 230400),
   (0x1004, 460800)]

abbrev B9600 : tcflag_t := 0xd

def cfgetospeed (ti : Termios) : tcflag_t := ti.c_cflag &&& (CBAUD ||| CBAUDEX)

def cfsetospeed (ti : Termios) (speed : tcflag_t) : Termios :=
  { ti with c_cflag := (ti.c_cflag &&& ~~~(CBAUD ||| CBAUDEX)) ||| speed }

def cfsetispeed (ti : Termios) (speed : tcflag_t) : Termios :=
  if speed = 0 then { ti with c_iflag := ti.c_iflag ||| IBAUD0 }
  else
    { ti with
      c_iflag := ti.c_iflag &&& ~~~IBAUD0
      c_cflag := (ti.c_cflag &&& ~~~(CBAUD ||| CBAUDEX)) ||| speed }

def cfmakeraw (ti : Termios) : Termios where
  c_iflag := ti.c_iflag &&&
    ~~~(IGNBRK ||| BRKINT ||| PARMRK ||| ISTRIP ||| INLCR ||| IGNCR ||| ICRNL ||| IXON)
  c_oflag := ti.c_oflag &&& ~~~OPOST
  c_lflag := ti.c_lflag &&& ~~~(ECHO ||| ECHONL ||| ICANON ||| ISIG ||| IEXTEN)
  c_cflag := (ti.c_cflag &&& ~~~(CSIZE ||| PARENB)) ||| CS8

/-! ### The device -/

abbrev TIOCM_DTR : BitVec 32 := 0x2
abbrev TIOCM_RTS : BitVec 32 := 0x4
abbrev TIOCM_CTS : BitVec 32 := 0x20
abbrev TIOCM_CAR : BitVec 32 := 0x40
abbrev TIOCM_RNG : BitVec 32 := 0x80
abbrev TIOCM_DSR : BitVec 32 := 0x100

/-- Calls that act on the device and return nothing. -/
inductive PortCall where
  | tiocmset (lines : BitVec 32)
  | tcsendbreak
  | tcflush (selector : UInt8)
  deriving DecidableEq, Repr

/-- The terminal device, with `InitialPortSettings`. -/
structure Port where
  /-- The settings of the device. -/
  settings : Termios
  /-- `InitialPortSettings`, null before the first `openPort`. -/
  initial : Option Termios
  /-- The modem lines: what the `k`-th `TIOCMGET` finds. -/
  lines : Nat → BitVec 32
  /-- The number of `TIOCMGET`s made. -/
  gets : Nat
  calls : List PortCall

/-- `ioctl(PortFd, TIOCMGET, ..)`. -/
def Port.tiocmget (P : Port) : BitVec 32 × Port := (P.lines P.gets, { P with gets := P.gets + 1 })

def Port.call (P : Port) (c : PortCall) : Port := { P with calls := P.calls ++ [c] }

/-! ### From termios to the wire -/

def termios2TncomSpeed (ti : Termios) : UInt32 :=
  match speeds.find? fun e => e.1 = cfgetospeed ti with
  | some e => e.2
  | none => 0

def termios2TncomDataSize (ti : Termios) : UInt8 :=
  let DataSize := ti.c_cflag &&& CSIZE
  if DataSize = CS5 then 5
  else if DataSize = CS6 then 6
  else if DataSize = CS7 then 7
  else if DataSize = CS8 then 8
  else 0

def termios2TncomParity (ti : Termios) : UInt8 :=
  if ti.c_cflag &&& PARENB = 0 then TNCOM_NOPARITY
  else if ti.c_cflag &&& PARENB ≠ 0 ∧ ti.c_cflag &&& PARODD ≠ 0 then TNCOM_ODDPARITY
  else TNCOM_EVENPARITY

def termios2TncomStopSize (ti : Termios) : UInt8 :=
  if ti.c_cflag &&& CSTOPB = 0 then TNCOM_ONESTOPBIT else TNCOM_TWOSTOPBITS

def termios2TncomOutFlow (ti : Termios) : UInt8 :=
  if ti.c_iflag &&& IXON ≠ 0 then TNCOM_CMD_FLOW_XONXOFF
  else if ti.c_cflag &&& CRTSCTS ≠ 0 then TNCOM_CMD_FLOW_HARDWARE
  else TNCOM_CMD_FLOW_NONE

def termios2TncomInFlow (ti : Termios) : UInt8 :=
  if ti.c_iflag &&& IXOFF ≠ 0 then TNCOM_CMD_INFLOW_XONXOFF
  else if ti.c_cflag &&& CRTSCTS ≠ 0 then TNCOM_CMD_INFLOW_HARDWARE
  else TNCOM_CMD_INFLOW_NONE

/-! ### Retrieving -/

def getPortSpeed (P : Port) : UInt32 := termios2TncomSpeed P.settings

def getPortDataSize (P : Port) : UInt8 := termios2TncomDataSize P.settings

def getPortParity (P : Port) : UInt8 := termios2TncomParity P.settings

def getPortStopSize (P : Port) : UInt8 := termios2TncomStopSize P.settings

/-- The flow control status, including DTR and RTS status. RFC 2217 asks for
RTS and DTR; the input lines CTS and DSR are returned instead. -/
def getPortFlowControl (P : Port) (Which : UInt8) : UInt8 × Port :=
  let (MLines, P) := P.tiocmget
  let r :=
    if Which = TNCOM_CMD_DTR_REQ then
      if MLines &&& TIOCM_DSR ≠ 0 then TNCOM_CMD_DTR_ON else TNCOM_CMD_DTR_OFF
    else if Which = TNCOM_CMD_RTS_REQ then
      if MLines &&& TIOCM_CTS ≠ 0 then TNCOM_CMD_RTS_ON else TNCOM_CMD_RTS_OFF
    else if Which = TNCOM_CMD_INFLOW_REQ then termios2TncomInFlow P.settings
    else termios2TncomOutFlow P.settings
  (r, P)

/-- A modem state bit for each line that is up, and a delta bit for each
line that differs from the previous state `PMState`. -/
def modemStateOf (MLines : BitVec 32) (PMState : UInt8) : UInt8 :=
  let MState : UInt8 := 0
  let MState := if MLines &&& TIOCM_CAR ≠ 0 then MState + TNCOM_MODMASK_RLSD else MState
  let MState := if MLines &&& TIOCM_RNG ≠ 0 then MState + TNCOM_MODMASK_RING else MState
  let MState := if MLines &&& TIOCM_DSR ≠ 0 then MState + TNCOM_MODMASK_DSR else MState
  let MState := if MLines &&& TIOCM_CTS ≠ 0 then MState + TNCOM_MODMASK_CTS else MState
  let MState :=
    if MState &&& TNCOM_MODMASK_RLSD ≠ PMState &&& TNCOM_MODMASK_RLSD then
      MState + TNCOM_MODMASK_RLSD_DELTA else MState
  let MState :=
    if MState &&& TNCOM_MODMASK_RING ≠ PMState &&& TNCOM_MODMASK_RING then
      MState + TNCOM_MODMASK_RING_TRAIL else MState
  let MState :=
    if MState &&& TNCOM_MODMASK_DSR ≠ PMState &&& TNCOM_MODMASK_DSR then
      MState + TNCOM_MODMASK_DSR_DELTA else MState
  if MState &&& TNCOM_MODMASK_CTS ≠ PMState &&& TNCOM_MODMASK_CTS then
    MState + TNCOM_MODMASK_CTS_DELTA else MState

/-- Return the status of the modem control lines (DCD, CTS, DSR, RNG). -/
def getModemState (P : Port) (PMState : UInt8) : UInt8 × Port :=
  let (MLines, P) := P.tiocmget
  (modemStateOf MLines PMState, P)

/-! ### Setting -/

def setPortDataSize (P : Port) (DataSize : UInt8) : Port :=
  let PDataSize :=
    if DataSize = 5 then CS5
    else if DataSize = 6 then CS6
    else if DataSize = 7 then CS7
    else CS8
  let ti := P.settings
  { P with settings := { ti with
      c_cflag := (ti.c_cflag &&& ~~~CSIZE) ||| (PDataSize &&& CSIZE) } }

/-- There's no support for MARK and SPACE parity, so they set no parity. -/
def setPortParity (P : Port) (Parity : UInt8) : Port :=
  let ti := P.settings
  let c_cflag :=
    if Parity = TNCOM_ODDPARITY then ti.c_cflag ||| PARENB ||| PARODD
    else if Parity = TNCOM_EVENPARITY then (ti.c_cflag ||| PARENB) &&& ~~~PARODD
    else ti.c_cflag &&& ~~~PARENB
  { P with settings := { ti with c_cflag := c_cflag } }

/-- 1.5 stop bits are set to 1 stop bit. -/
def setPortStopSize (P : Port) (StopSize : UInt8) : Port :=
  let ti := P.settings
  let c_cflag :=
    if StopSize = TNCOM_TWOSTOPBITS then ti.c_cflag ||| CSTOPB else ti.c_cflag &&& ~~~CSTOPB
  { P with settings := { ti with c_cflag := c_cflag } }

/-- Set the port flow control and DTR and RTS status. Inbound, DCD, DTR and
DSR flow control are ignored; settings and lines are written back all
the same. -/
def setPortFlowControl (P : Port) (How : UInt8) : Port :=
  let ti := P.settings
  let (MLines, P) := P.tiocmget
  let ti' :=
    if How = TNCOM_CMD_FLOW_NONE then
      { ti with c_iflag := ti.c_iflag &&& ~~~IXON &&& ~~~IXOFF
                c_cflag := ti.c_cflag &&& ~~~CRTSCTS }
    else if How = TNCOM_CMD_FLOW_XONXOFF then
      { ti with c_iflag := ti.c_iflag ||| IXON ||| IXOFF
                c_cflag := ti.c_cflag &&& ~~~CRTSCTS }
    else if How = TNCOM_CMD_FLOW_HARDWARE then
      { ti with c_iflag := ti.c_iflag &&& ~~~IXON &&& ~~~IXOFF
                c_cflag := ti.c_cflag ||| CRTSCTS }
    else ti
  let MLines' :=
    if How = TNCOM_CMD_DTR_ON then MLines ||| TIOCM_DTR
    else if How = TNCOM_CMD_DTR_OFF then MLines &&& ~~~TIOCM_DTR
    else if How = TNCOM_CMD_RTS_ON then MLines ||| TIOCM_RTS
    else if How = TNCOM_CMD_RTS_OFF then MLines &&& ~~~TIOCM_RTS
    else MLines
  { P with settings := ti' }.call (.tiocmset MLines')

/-- Unknown baud rates are set to 9600. -/
def setPortSpeed (P : Port) (BaudRate : UInt32) : Port :=
  let Speed :=
    match speeds.find? fun e => e.2 = BaudRate with
    | some e => e.1
    | none => B9600
  { P with settings := cfsetispeed (cfsetospeed P.settings Speed) Speed }

def setBreak (P : Port) (on : Bool) : Port := if on then P.call .tcsendbreak else P

def setFlush (P : Port) (selector : UInt8) : Port :=
  if selector = TNCOM_PURGE_RX ∨ selector = TNCOM_PURGE_TX ∨ selector = TNCOM_PURGE_BOTH then
    P.call (.tcflush selector)
  else P

/-! ### Opening and closing -/

/-- The part of `OpenPort` after the device is locked and open: remember the
settings and set the port to raw mode. -/
def openPort (P : Port) : Port :=
  let raw := cfmakeraw P.settings
  { P with
    initial := some P.settings
    settings := { raw with
      c_cflag := raw.c_cflag ||| HUPCL ||| CLOCAL
      c_iflag := (raw.c_iflag &&& ~~~IGNBRK) ||| BRKINT } }

/-- Restore the settings that `openPort` found. -/
def closePort (P : Port) : Port :=
  match P.initial with
  | some ti => { P with settings := ti }
  | none => P

end Sercd
