import Cnu680.Framework.Exec
import Cnu680.Framework.Ring
import Cnu680.Serial.Uart

/-! # A Serial Port

An open port of the serial driver: its transmit ring, the functions that
the terminal layer calls, and the transmit interrupt. A call runs
statement by statement wherever an interrupt could come in between; what
it does with interrupts disabled is one step. -/

open Framework

namespace Serial

abbrev SERIAL_XMIT_SIZE : Nat := 4096

/-- Where a call is. The data of `rs_write` comes with the number of bytes it
has taken, `total`, and the interrupt flags it has saved. -/
inductive Pc where
  | idle
  /-- `rs_write` from user space, at the top of its loop. -/
  | userLoop (data : List UInt8) (total : Nat) (flags : Bool)
  /-- It has `c` bytes in `tmp_buf` and is about to disable interrupts. -/
  | userCopy (data : List UInt8) (total c : Nat) (flags : Bool)
  /-- `rs_write` from the kernel, at the top of its loop, interrupts disabled. -/
  | kernelLoop (data : List UInt8) (total : Nat) (flags : Bool)
  /-- `rs_write` after its loop. -/
  | finish (data : List UInt8) (total : Nat) (flags : Bool)
  /-- `rs_write` about to enable the transmit interrupt. -/
  | startTx (data : List UInt8) (total : Nat) (flags : Bool)
  /-- `rs_write` in polled mode, sending by itself. -/
  | poll (data : List UInt8) (total : Nat) (flags : Bool)
  /-- `rs_flush_chars` before its test. -/
  | flushTest
  /-- `rs_flush_chars` after its test, about to disable interrupts. -/
  | flushSend
  deriving DecidableEq, Repr

/-- What happens to the bytes of the ring, and what `rs_write` says of them. -/
inductive Entry where
  /-- Bytes are copied into the ring. -/
  | accepted (bs : List UInt8)
  /-- A byte of the ring is written to `THR`. -/
  | thr (b : UInt8)
  /-- `x_char` is written to `THR`. -/
  | xChar (b : UInt8)
  /-- `rs_flush_buffer` empties the ring. -/
  | discarded
  /-- `rs_write` returns the number of these bytes. -/
  | reported (bs : List UInt8)
  deriving DecidableEq, Repr

/-- A port, with what the driver reads of its terminal. The masks keep
`xmit_tail` and `xmit_head` in the buffer; they are the read and the write
position of the ring. -/
structure Port where
  usart : Usart
  xmit : Ring UInt8 SERIAL_XMIT_SIZE
  xmitCnt : Int
  /-- The XON or XOFF character to send, or 0. -/
  xChar : UInt8
  /-- The UART has FIFOs. -/
  fifo : Bool
  termios : Termios
  stopped : Bool
  hwStopped : Bool
  /-- The processor takes interrupts. -/
  irq : Bool
  pc : Pc
  log : List Entry

def Port.xmitFifoSize (p : Port) : Nat := if p.fifo then 32 else 1

/-! ### The ring -/

/-- `MIN(SERIAL_XMIT_SIZE - xmit_cnt - 1, SERIAL_XMIT_SIZE - xmit_head)`, which
is computed without sign. -/
def Port.room (p : Port) : Nat :=
  min ((SERIAL_XMIT_SIZE - p.xmitCnt - 1) % 0x100000000).toNat (SERIAL_XMIT_SIZE - p.xmit.wr)

/-- Copy the bytes to the ring. There are never more of them than cells up to
the end of the buffer. -/
def Port.store (p : Port) (bs : List UInt8) : Port :=
  { p with
    xmit := p.xmit.append bs
    xmitCnt := p.xmitCnt + bs.length
    log := p.log ++ [.accepted bs] }

/-- Write the next byte of the ring to `THR`. -/
def Port.send (p : Port) : Port :=
  { p with
    xmit := p.xmit.drop 1
    xmitCnt := p.xmitCnt - 1
    log := p.log ++ [.thr (p.xmit.cell 0)] }

/-! ### The transmit interrupt -/

/-- The loop of `rs_interrupt_Tx`, with the `U_TFFUL` bits that it reads. -/
def Port.txLoop : Nat → List Bool → Port → Port
  | 0, _, p => p
  | count + 1, csr, p =>
    let p := p.send
    if p.xmitCnt ≤ 0 then p
    else if csr.headD false then p
    else Port.txLoop count csr.tail p

theorem Port.txLoop_kept {α : Type} {f : Port → α} (hsend : ∀ p, f p.send = f p) (n : Nat)
    (csr : List Bool) (p : Port) : f (p.txLoop n csr) = f p := by
  induction n generalizing p csr with
  | zero => rfl
  | succ n ih =>
    unfold Port.txLoop
    dsimp only
    split
    · exact hsend p
    · split
      · exact hsend p
      · exact (ih csr.tail p.send).trans (hsend p)

def Port.rsInterruptTx (p : Port) (csr : List Bool) : Port :=
  if p.xChar ≠ 0 then { p with xChar := 0, log := p.log ++ [.xChar p.xChar] }
  else if p.xmitCnt ≤ 0 ∨ p.stopped ∨ p.hwStopped then { p with usart := p.usart.txStop }
  else
    let p := p.txLoop p.xmitFifoSize csr
    if p.xmitCnt ≤ 0 then { p with usart := p.usart.txStop } else p

/-! ### Calls -/

/-- `rs_write` returns. -/
def Port.ret (p : Port) (data : List UInt8) (total : Nat) (flags : Bool) : Port :=
  { p with irq := flags, pc := .idle, log := p.log ++ [.reported (data.take total)] }

/-- One step of the call that is going on. -/
def Port.proceed (p : Port) : Port :=
  match p.pc with
  | .idle => p
  | .userLoop data total flags =>
    let c := min (data.length - total) p.room
    if c = 0 then { p with pc := .finish data total flags }
    else { p with pc := .userCopy data total c flags }
  | .userCopy data total c flags =>
    -- the room is looked at again with interrupts disabled
    let c := min c p.room
    { p.store ((data.drop total).take c) with irq := flags, pc := .userLoop data (total + c) flags }
  | .kernelLoop data total flags =>
    let c := min (data.length - total) p.room
    if c = 0 then { p with irq := flags, pc := .finish data total flags }
    else { p.store ((data.drop total).take c) with pc := .kernelLoop data (total + c) flags }
  | .finish data total flags =>
    if p.xmitCnt ≠ 0 ∧ ¬ p.stopped ∧ ¬ p.hwStopped then
      if p.usart.useInts then { p with pc := .startTx data total flags }
      else { p with pc := .poll data total flags }
    else p.ret data total flags
  | .startTx data total flags => Port.ret { p with usart := p.usart.txStart } data total flags
  | .poll data total flags => if p.xmitCnt ≠ 0 then p.send else p.ret data total flags
  | .flushTest =>
    if p.xmitCnt ≤ 0 ∨ p.stopped ∨ p.hwStopped then { p with pc := .idle }
    else { p with pc := .flushSend }
  | .flushSend =>
    let q := { p.send with usart := p.usart.txStart }
    -- in polled mode the interrupt flags are not restored
    if p.usart.useInts then { q with pc := .idle } else { q with irq := false, pc := .flushTest }

/-- What the terminal layer calls. -/
inductive Call where
  | write (fromUser : Bool) (data : List UInt8)
  | flushChars
  | flushBuffer
  | stop
  | start
  | throttle
  | unthrottle
  /-- The new settings are in place when `rs_set_termios` is called. -/
  | setTermios (t : Termios)
  deriving DecidableEq, Repr

def Port.rsWrite (p : Port) (fromUser : Bool) (data : List UInt8) : Port :=
  if fromUser then { p with pc := .userLoop data 0 p.irq }
  else { p with irq := false, pc := .kernelLoop data 0 p.irq }

def Port.rsFlushBuffer (p : Port) : Port :=
  { p with
    xmit := p.xmit.clear
    xmitCnt := 0
    log := p.log ++ [.discarded] }

def Port.rsStop (p : Port) : Port := { p with usart := p.usart.txStop.rxStop }

def Port.rsStart (p : Port) : Port := { p with usart := p.usart.rxStart.txStart }

/-- `I_IXOFF(tty)`. -/
def Port.ixoff (p : Port) : Bool := p.termios.iflag &&& IXOFF ≠ 0

def Port.crtscts (t : Termios) : Bool := t.cflag &&& CRTSCTS ≠ 0

/-- Write the control register, if the RTS line is used for flow control. -/
def Port.setControl (p : Port) (cr : UInt32) : Port :=
  if Port.crtscts p.termios then { p with usart := { p.usart with cr := cr } } else p

def Port.rsThrottle (p : Port) : Port :=
  let x := if p.ixoff then p.termios.stopChar else p.xChar
  Port.setControl { p with xChar := x } (p.usart.cr &&& ~~~U_RTS)

def Port.rsUnthrottle (p : Port) : Port :=
  let x := if p.ixoff then (if p.xChar ≠ 0 then 0 else p.termios.startChar) else p.xChar
  Port.setControl { p with xChar := x } (p.usart.cr ||| U_RTS)

def Port.rsSetTermios (p : Port) (t : Termios) : Port :=
  let old := p.termios
  let p := { p with termios := t }
  if t.cflag = old.cflag then p
  else
    let p := { p with usart := p.usart.changeSpeed t }
    if Port.crtscts old ∧ ¬ Port.crtscts t then Port.rsStart { p with hwStopped := false } else p

def Port.call (p : Port) : Call → Port
  | .write fromUser data => p.rsWrite fromUser data
  | .flushChars => { p with pc := .flushTest }
  | .flushBuffer => p.rsFlushBuffer
  | .stop => p.rsStop
  | .start => p.rsStart
  | .throttle => p.rsThrottle
  | .unthrottle => p.rsUnthrottle
  | .setTermios t => p.rsSetTermios t

/-! ### Runs -/

inductive Event where
  | call (c : Call)
  /-- The call that is going on takes a step. -/
  | proceed
  /-- The transmitter interrupts. -/
  | interrupt (csr : List Bool)
  /-- The terminal layer sets `tty->stopped` and `tty->hw_stopped`. -/
  | tty (stopped hwStopped : Bool)
  deriving DecidableEq, Repr

/-- One step. A call is made when no other is going on, and an interrupt is
taken when interrupts are enabled. What cannot happen in a state does
nothing. -/
def Port.step (p : Port) : Event → Except Empty Port
  | .call c => .ok (if p.pc = .idle then p.call c else p)
  | .proceed => .ok p.proceed
  | .interrupt csr => .ok (if p.irq then p.rsInterruptTx csr else p)
  | .tty stopped hwStopped => .ok { p with stopped := stopped, hwStopped := hwStopped }

/-- What `rs_open` finds: the UART, the page for `xmit_buf` and what else it
leaves as it is. -/
structure Unopened where
  usart : Usart
  page : Vector UInt8 SERIAL_XMIT_SIZE
  xChar : UInt8
  fifo : Bool
  termios : Termios
  stopped : Bool
  hwStopped : Bool
  irq : Bool

/-- A high-speed UART with nothing in its page, set to eight bits and `IXON`. -/
def highSpeed : Unopened where
  usart := ⟨0, 0, 0, 0, false, false⟩
  page := Vector.replicate SERIAL_XMIT_SIZE 0
  xChar := 0
  fifo := true
  termios := ⟨IXON, CS8 ||| 0xd, 0x11, 0x13⟩
  stopped := false
  hwStopped := false
  irq := true

/-- `rs_open`: interrupt mode, and `startup`. -/
def Port.opened (i : Unopened) : Port where
  usart := Usart.startup { i.usart with useInts := true } i.fifo i.termios
  xmit := ⟨i.page, 0, 0, by decide, by decide⟩
  xmitCnt := 0
  xChar := i.xChar
  fifo := i.fifo
  termios := i.termios
  stopped := i.stopped
  hwStopped := i.hwStopped
  irq := i.irq
  pc := .idle
  log := []

end Serial
