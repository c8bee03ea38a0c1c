import Mathlib.Tactic.Common

/-! # The UART

The registers of a UART and the functions of the serial driver that
write its control register and its interrupt enables. -/

namespace Serial

/-! ### Terminal settings -/

def IXON : UInt32 := 0x0400
def IXOFF : UInt32 := 0x1000

def CBAUD : UInt32 := 0x100f
def CSIZE : UInt32 := 0x0030
def CS5 : UInt32 := 0x0000
def CS6 : UInt32 := 0x0010
def CS7 : UInt32 := 0x0020
def CS8 : UInt32 := 0x0030
def CSTOPB : UInt32 := 0x0040
def PARENB : UInt32 := 0x0100
def PARODD : UInt32 := 0x0200
def CRTSCTS : UInt32 := 0x80000000

/-- The parts of `struct termios` that the driver reads. -/
structure Termios where
  iflag : UInt32
  cflag : UInt32
  startChar : UInt8
  stopChar : UInt8
  deriving DecidableEq, Repr

/-! ### Control register -/

def U_IRQ_TMODE : UInt32 := 0x00000001
def U_TMODE : UInt32 := 0x00000003
def U_IRQ_RMODE : UInt32 := 0x00000004
def U_RMODE : UInt32 := 0x0000000c

def U_ODD_PMD : UInt32 := 0x00000400
def U_EVEN_PMD : UInt32 := 0x00000500
def U_PMD : UInt32 := 0x00000700

def U_STB : UInt32 := 0x00000800

/-- A mask, unlike the other lengths. -/
def U_WL5 : UInt32 := 0xffffcfff
def U_WL6 : UInt32 := 0x00001000
def U_WL7 : UInt32 := 0x00002000
def U_WL8 : UInt32 := 0x00003000
def U_WL : UInt32 := 0x00003000

def U_TFEN : UInt32 := 0x00010000
def U_RFEN : UInt32 := 0x00020000
def U_TFTL16 : UInt32 := 0x00200000
def U_RFTL18 : UInt32 := 0x00800000

def U_DTR : UInt32 := 0x01000000
def U_RTS : UInt32 := 0x02000000
def U_HFEN : UInt32 := 0x10000000
def U_SFEN : UInt32 := 0x20000000

/-! ### Interrupt enable register -/

def U_RDVIE : UInt32 := 0x00000001
def U_BSDIE : UInt32 := 0x00000002
def U_FERIE : UInt32 := 0x00000004
def U_PERIE : UInt32 := 0x00000008
def U_OERIE : UInt32 := 0x00000010
def U_RFREA : UInt32 := 0x00000080
def U_E_RxTOIE : UInt32 := 0x00001000
def U_THEIE : UInt32 := 0x00040000

/-- The registers of a UART, with the fields of its `s3c2510_serial` that
decide how they are written. -/
structure Usart where
  cr : UInt32
  ier : UInt32
  ucc1 : UInt32
  ucc2 : UInt32
  isCons : Bool
  useInts : Bool
  deriving DecidableEq, Repr

/-! ### Interrupt enables -/

def Usart.txStart (u : Usart) : Usart :=
  if u.useInts then { u with ier := u.ier ||| U_THEIE } else u

def Usart.txStop (u : Usart) : Usart := { u with ier := u.ier &&& ~~~U_THEIE }

/-- The enables for received data: the console has no FIFO. -/
def Usart.rxData (u : Usart) : UInt32 := if u.isCons then U_RDVIE else U_RFREA ||| U_E_RxTOIE

def Usart.rxStart (u : Usart) : Usart :=
  if u.useInts then
    { u with ier := (u.ier ||| u.rxData) ||| (U_BSDIE ||| U_FERIE ||| U_PERIE ||| U_OERIE) }
  else u

def Usart.rxStop (u : Usart) : Usart := { u with ier := u.ier &&& ~~~u.rxData }

section
variable (u : Usart)

@[simp] theorem useInts_txStart : u.txStart.useInts = u.useInts := by
  unfold Usart.txStart
  split <;> rfl

@[simp] theorem useInts_txStop : u.txStop.useInts = u.useInts := rfl

@[simp] theorem useInts_rxStart : u.rxStart.useInts = u.useInts := by
  unfold Usart.rxStart
  split <;> rfl

@[simp] theorem useInts_rxStop : u.rxStop.useInts = u.useInts := rfl

end

/-! ### `change_speed` -/

inductive CharSize where
  | cs5 | cs6 | cs7 | cs8
  deriving DecidableEq, Repr

/-- `cflag & CSIZE`, which has no other values. -/
def Termios.size (t : Termios) : CharSize :=
  if t.cflag &&& CSIZE = CS5 then .cs5
  else if t.cflag &&& CSIZE = CS6 then .cs6
  else if t.cflag &&& CSIZE = CS7 then .cs7
  else .cs8

def setSize (t : Termios) (cr : UInt32) : UInt32 :=
  match t.size with
  | .cs5 => cr &&& U_WL5
  | .cs6 => cr ||| U_WL6
  | .cs7 => cr ||| U_WL7
  | .cs8 => cr ||| U_WL8

def setStop (t : Termios) (cr : UInt32) : UInt32 :=
  if t.cflag &&& CSTOPB ≠ 0 then cr ||| U_STB else cr

def setParity (t : Termios) (cr : UInt32) : UInt32 :=
  if t.cflag &&& PARENB ≠ 0 then
    if t.cflag &&& PARODD = 0 then cr ||| U_EVEN_PMD else cr ||| U_ODD_PMD
  else cr

def setHardwareFlow (t : Termios) (cr : UInt32) : UInt32 :=
  if t.cflag &&& CRTSCTS ≠ 0 then cr ||| (U_HFEN ||| U_DTR ||| U_RTS) else cr

/-- `cflag & (IXON | IXOFF)`: the flags of `c_iflag` are looked for in
`c_cflag`. -/
def Termios.softwareFlow (t : Termios) : Bool := t.cflag &&& (IXON ||| IXOFF) ≠ 0

def setSoftwareFlow (t : Termios) (cr : UInt32) : UInt32 :=
  if t.softwareFlow then cr ||| U_SFEN else cr

/-- What `change_speed` makes of the control register. -/
def controlOf (t : Termios) (cr : UInt32) : UInt32 :=
  setSoftwareFlow t (setHardwareFlow t (setParity t (setStop t (setSize t cr))))

/-- The control characters, each in two places. -/
def controlChars (t : Termios) : UInt32 :=
  (t.startChar.toUInt32 <<< 24) ||| (t.startChar.toUInt32 <<< 16) |||
    (t.stopChar.toUInt32 <<< 8) ||| t.stopChar.toUInt32

/-- Set the line up for the current settings. -/
def Usart.changeSpeed (u : Usart) (t : Termios) : Usart :=
  let u := u.txStop.rxStop
  let chars := controlChars t
  let u := { u with
    cr := controlOf t u.cr
    ucc1 := if t.softwareFlow then chars else u.ucc1
    ucc2 := if t.softwareFlow then chars else u.ucc2 }
  u.txStart.rxStart

@[simp] theorem useInts_changeSpeed (u : Usart) (t : Termios) :
    (u.changeSpeed t).useInts = u.useInts := by
  simp [Usart.changeSpeed]

/-- The control register that `startup` sets, before it calls
`change_speed`. Only the high-speed UARTs have FIFOs. -/
def startupControl (fifo : Bool) (t : Termios) : UInt32 :=
  if t.cflag &&& CBAUD ≠ 0 then
    let cr := U_IRQ_TMODE ||| U_IRQ_RMODE ||| U_DTR ||| U_RTS
    if fifo then cr ||| (U_TFEN ||| U_RFEN) ||| U_RFTL18 ||| U_TFTL16 else cr
  else 0

/-- Initialise the UART, and set its speed. -/
def Usart.startup (u : Usart) (fifo : Bool) (t : Termios) : Usart :=
  Usart.changeSpeed { u with cr := startupControl fifo t, ier := 0 } t

end Serial
