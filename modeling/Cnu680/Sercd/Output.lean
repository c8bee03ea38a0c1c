import Cnu680.Sercd.Buffer
import Cnu680.Sercd.State

/-! # sercd: writing to the network

`EscWriteChar` and the `Send..` functions of `sercd.c`. Each of them
only ever adds bytes to the buffer it is handed (`Framework.Emits`):
the lemmas `.._emits` give the bytes, the `.._length` lemmas compare
their number with the `.._bytes` macros.
-/

open Framework

namespace Sercd

/-! ### The functions of `sercd.c` -/

abbrev escWriteChar_bytes : UInt32 := 2

/-- Write a char to socket performing IAC escaping. -/
def escWriteChar (g : Globals) (C : UInt8) : BufM Globals := do
  if C = TNIAC then
    put C
  else if C ≠ 0x0A ∧ g.isWill = false ∧ g.escLast = 0x0D then
    put 0x00
  put C
  return { g with escLast := C }

abbrev sendTelnetOption_bytes : UInt32 := 3

/-- Send the specific telnet option using `Command` as command. -/
def sendTelnetOption (Command Option : UInt8) : BufM Unit := do
  put TNIAC
  put Command
  put Option

/-- Send initial Telnet negotiations to the client. -/
def sendTelnetInitialOptions (g : Globals) : BufM Globals := do
  sendTelnetOption TNWILL TN_TRANSMIT_BINARY
  let g := g.setTn TN_TRANSMIT_BINARY fun t => { t with sent_will := true }
  sendTelnetOption TNDO TN_TRANSMIT_BINARY
  let g := g.setTn TN_TRANSMIT_BINARY fun t => { t with sent_do := true }
  sendTelnetOption TNWILL TN_ECHO
  let g := g.setTn TN_ECHO fun t => { t with sent_will := true }
  sendTelnetOption TNWILL TN_SUPPRESS_GO_AHEAD
  let g := g.setTn TN_SUPPRESS_GO_AHEAD fun t => { t with sent_will := true }
  sendTelnetOption TNDO TN_SUPPRESS_GO_AHEAD
  let g := g.setTn TN_SUPPRESS_GO_AHEAD fun t => { t with sent_do := true }
  sendTelnetOption TNDO TNCOM_PORT_OPTION
  return g.setTn TNCOM_PORT_OPTION fun t => { t with sent_do := true }

/-- The loop of `SendStr` and of `SendBaudRate`: `EscWriteChar` on each
byte. -/
def escWriteChars (g : Globals) : List UInt8 → BufM Globals
  | [] => return g
  | C :: Cs => do
    let g ← escWriteChar g C
    escWriteChars g Cs

/-- Send a string performing IAC escaping. -/
def sendStr (g : Globals) (Str : CString) : BufM Globals := escWriteChars g Str.bytes

abbrev sendSignature_bytes : UInt32 := 6 + 2 * 255

/-- Send the signature `Sig` to the client. `Sig` must not be longer than
255 characters. -/
def sendSignature (g : Globals) (Sig : CString) : BufM Globals := do
  if ¬ Sig.strlen ≤ 255 then
    throw .assertFailed
  put TNIAC
  put TNSB
  put TNCOM_PORT_OPTION
  put TNASC_SIGNATURE
  let g ← sendStr g Sig
  put TNIAC
  put TNSE
  return g

/-- The bytes of a 32-bit word in network order (`htonl`). -/
def networkOrder (x : UInt32) : List UInt8 :=
  [(x >>> 24).toUInt8, (x >>> 16).toUInt8, (x >>> 8).toUInt8, x.toUInt8]

abbrev sendBaudRate_bytes : UInt32 := 6 + 2 * 4

/-- Send the baud rate `BR`. -/
def sendBaudRate (g : Globals) (BR : UInt32) : BufM Globals := do
  put TNIAC
  put TNSB
  put TNCOM_PORT_OPTION
  put TNASC_SET_BAUDRATE
  let g ← escWriteChars g (networkOrder BR)
  put TNIAC
  put TNSE
  return g

abbrev sendCPCByteCommand_bytes : UInt32 := 8

/-- Send the CPC command `Command` using `Parm` as parameter. -/
def sendCPCByteCommand (g : Globals) (Command Parm : UInt8) : BufM Globals := do
  put TNIAC
  put TNSB
  put TNCOM_PORT_OPTION
  put Command
  let g ← escWriteChar g Parm
  put TNIAC
  put TNSE
  return g

/-! ### The bytes they write -/

/-- The bytes `EscWriteChar` writes for `C` after the byte `last`. -/
def escapeChar (binary : Bool) (last C : UInt8) : List UInt8 :=
  if C = TNIAC then [C, C]
  else if C ≠ 0x0A ∧ binary = false ∧ last = 0x0D then [0x00, C]
  else [C]

/-- The bytes written for a sequence. -/
def escape (binary : Bool) : UInt8 → List UInt8 → List UInt8
  | _, [] => []
  | last, C :: Cs => escapeChar binary last C ++ escape binary C Cs

/-- A Com Port Control subnegotiation with payload `p`, as it is written
after the byte `last`. -/
def cpcFrame (binary : Bool) (last cmd : UInt8) (p : List UInt8) : List UInt8 :=
  [TNIAC, TNSB, TNCOM_PORT_OPTION, cmd] ++ (escape binary last p ++ [TNIAC, TNSE])

theorem escapeChar_length (binary : Bool) (last C : UInt8) :
    1 ≤ (escapeChar binary last C).length ∧ (escapeChar binary last C).length ≤ 2 := by
  unfold escapeChar
  split
  · simp
  · split <;> simp

theorem escape_length (binary : Bool) (last : UInt8) (p : List UInt8) :
    (escape binary last p).length ≤ 2 * p.length := by
  induction p generalizing last with
  | nil => simp [escape]
  | cons C Cs ih =>
    have hC := (escapeChar_length binary last C).2
    have hCs := ih C
    simp only [escape, List.length_append, List.length_cons]
    omega

theorem cpcFrame_length (binary : Bool) (last cmd : UInt8) (p : List UInt8) :
    (cpcFrame binary last cmd p).length ≤ 6 + 2 * p.length := by
  have hp := escape_length binary last p
  simp only [cpcFrame, List.length_append, List.length_cons, List.length_nil]
  omega

section
variable (g : Globals)

theorem escWriteChar_emits (C : UInt8) :
    Emits addToBuffer (escWriteChar g C) { g with escLast := C }
      (escapeChar g.isWill g.escLast C) := by
  unfold escWriteChar escapeChar
  split
  · exact (put_emits C).bind ((put_emits C).bind (Emits.pure _))
  · split
    · exact (put_emits 0x00).bind ((put_emits C).bind (Emits.pure _))
    · exact (put_emits C).bind (Emits.pure _)

theorem escWriteChars_emits (Cs : List UInt8) :
    Emits addToBuffer (escWriteChars g Cs) { g with escLast := Cs.getLastD g.escLast }
      (escape g.isWill g.escLast Cs) := by
  induction Cs generalizing g with
  | nil => exact Emits.pure _
  | cons C Cs ih =>
    have hrest := ih { g with escLast := C }
    rw [List.getLastD_cons]
    exact (escWriteChar_emits g C).bind hrest

theorem sendTelnetOption_emits (Command Option : UInt8) :
    Emits addToBuffer (sendTelnetOption Command Option) () [TNIAC, Command, Option] :=
  (put_emits _).bind ((put_emits _).bind (put_emits _))

/-- A program that writes a payload between the bytes of a frame writes the
frame. -/
theorem frame_emits {m : Globals → BufM Globals} {g' : Globals} {body : List UInt8}
    (cmd : UInt8) (h : Emits addToBuffer (m g) g' body) :
    Emits addToBuffer
      (do put TNIAC; put TNSB; put TNCOM_PORT_OPTION; put cmd
          let g ← m g
          put TNIAC; put TNSE; return g)
      g' ([TNIAC, TNSB, TNCOM_PORT_OPTION, cmd] ++ (body ++ [TNIAC, TNSE])) :=
  (put_emits _).bind ((put_emits _).bind ((put_emits _).bind ((put_emits _).bind
    (h.bind ((put_emits _).bind ((put_emits _).bind (Emits.pure _)))))))

theorem sendCPCByteCommand_emits (Command Parm : UInt8) :
    Emits addToBuffer (sendCPCByteCommand g Command Parm) { g with escLast := Parm }
      (cpcFrame g.isWill g.escLast Command [Parm]) := by
  have hone : escape g.isWill g.escLast [Parm] = escapeChar g.isWill g.escLast Parm := by
    simp [escape]
  rw [cpcFrame, hone]
  exact frame_emits (m := fun g => escWriteChar g Parm) g Command (escWriteChar_emits g Parm)

theorem sendBaudRate_emits (BR : UInt32) :
    Emits addToBuffer (sendBaudRate g BR) { g with escLast := BR.toUInt8 }
      (cpcFrame g.isWill g.escLast TNASC_SET_BAUDRATE (networkOrder BR)) :=
  frame_emits (m := fun g => escWriteChars g (networkOrder BR)) g _
    (escWriteChars_emits g (networkOrder BR))

theorem sendSignature_emits (Sig : CString) (hlen : Sig.strlen ≤ 255) :
    Emits addToBuffer (sendSignature g Sig)
      { g with escLast := Sig.bytes.getLastD g.escLast }
      (cpcFrame g.isWill g.escLast TNASC_SIGNATURE Sig.bytes) := by
  have h := frame_emits (m := fun g => sendStr g Sig) g TNASC_SIGNATURE
    (escWriteChars_emits g Sig.bytes)
  intro B
  refine Eq.trans ?_ (h B)
  simp [sendSignature, hlen]

end

end Sercd
