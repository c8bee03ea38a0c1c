import Cnu680.Sercd.Feed

/-! # sercd: what the client is sent

Any sequence of device bytes, options and Com Port Control commands,
written to the network one after the other, and an RFC 854/2217 reader
of the stream.

In binary mode the reader always recovers what was sent. Outside it,
`EscWriteChar` stuffs a NUL after a CR, and the last byte that decides
about it is shared by device bytes and command parameters, while the
reader only knows the data bytes of the stream:

* a parameter after a CR is stuffed, and the reader sees a NUL too many
  in the command;
* a device byte after a parameter CR is stuffed, and the reader sees a
  NUL too many in the data;
* a device NUL after a device CR is not stuffed when a parameter came
  between them, and the reader drops it.

`Recovers` says when none of this is seen.
-/

open Framework List

namespace Sercd

/-! ### What is sent -/

/-- A call that writes to the network. -/
inductive Send where
  | data (C : UInt8)
  | option (verb : Verb) (o : UInt8)
  | byteCommand (cmd : UInt8) (h : cmd ≠ TNIAC) (Parm : UInt8)
  | baudRate (BR : UInt32)
  | signature (Sig : CString) (h : Sig.strlen ≤ 255)

def Send.perform (g : Globals) : Send → BufM Globals
  | .data C => escWriteChar g C
  | .option verb o => do
    sendTelnetOption verb.code o
    return g
  | .byteCommand cmd _ Parm => sendCPCByteCommand g cmd Parm
  | .baudRate BR => sendBaudRate g BR
  | .signature Sig _ => sendSignature g Sig

/-- The calls one after the other: the state they leave and the bytes they
add. -/
def transmit : Globals → List (Send × ReplySink) → Except Fault (Globals × List UInt8)
  | g, [] => .ok (g, [])
  | g, (op, B) :: rest => do
    let (g', B') ← op.perform g B.buf
    let (g'', out) ← transmit g' rest
    return (g'', added B.buf B' ++ out)

/-- An option or a subnegotiation. -/
inductive Message where
  | option (verb o : UInt8)
  | sub (body : List UInt8)
  deriving DecidableEq, Repr

/-- What a call is meant to tell the reader. -/
inductive Content where
  | data (C : UInt8)
  | option (verb : Verb) (o : UInt8)
  | command (cmd : UInt8) (h : cmd ≠ TNIAC) (parms : List UInt8)

def Send.content : Send → Content
  | .data C => .data C
  | .option verb o => .option verb o
  | .byteCommand cmd h Parm => .command cmd h [Parm]
  | .baudRate BR => .command TNASC_SET_BAUDRATE (by decide) (networkOrder BR)
  | .signature Sig _ => .command TNASC_SIGNATURE (by decide) Sig.bytes

/-- The data byte. -/
def Content.byte : Content → List UInt8
  | .data C => [C]
  | _ => []

/-- The option or command, as the reader is meant to see it. -/
def Content.message : Content → List Message
  | .data _ => []
  | .option verb o => [.option verb.code o]
  | .command cmd _ parms => [.sub (TNCOM_PORT_OPTION :: cmd :: parms)]

/-! ### The reader -/

/-- Where the reader is in the stream. -/
inductive Reading where
  | data
  | iac
  | option (verb : UInt8)
  | sub (body : List UInt8)
  | subIac (body : List UInt8)
  deriving DecidableEq, Repr

/-- An RFC 854/2217 reader, with what it has recovered. -/
structure Reader where
  reading : Reading := .data
  /-- The last data byte. -/
  last : UInt8 := 0
  bytes : List UInt8 := []
  messages : List Message := []
  deriving DecidableEq, Repr

/-- The reader met something that is not telnet. -/
inductive Malformed where
  | malformed
  deriving DecidableEq, Repr

/-- One byte of the stream. -/
def Reader.step (binary : Bool) (s : Reader) (b : UInt8) : Except Malformed Reader :=
  match s.reading with
  | .data =>
    if b = TNIAC then .ok { s with reading := .iac }
    else if binary = false ∧ b = 0x00 ∧ s.last = 0x0D then .ok { s with last := b }
    else .ok { s with last := b, bytes := s.bytes ++ [b] }
  | .iac =>
    if b = TNIAC then .ok { s with reading := .data, last := b, bytes := s.bytes ++ [b] }
    else if b = TNSB then .ok { s with reading := .sub [] }
    else if b = TNWILL ∨ b = TNWONT ∨ b = TNDO ∨ b = TNDONT then .ok { s with reading := .option b }
    else .ok { s with reading := .data }
  | .option verb => .ok { s with reading := .data, messages := s.messages ++ [.option verb b] }
  | .sub body =>
    if b = TNIAC then .ok { s with reading := .subIac body }
    else .ok { s with reading := .sub (body ++ [b]) }
  | .subIac body =>
    if b = TNIAC then .ok { s with reading := .sub (body ++ [b]) }
    else if b = TNSE then .ok { s with reading := .data, messages := s.messages ++ [.sub body] }
    else .error .malformed

def contents (ops : List (Send × ReplySink)) : List Content := ops.map fun op => op.1.content

/-- The reader recovers exactly the data and the messages that were sent. -/
def Recovered (g : Globals) (ops : List (Send × ReplySink)) : Prop :=
  ∃ g' out s, transmit g ops = .ok (g', out) ∧
    run (Reader.step g.isWill) {} out = .ok s ∧ s.reading = .data ∧
    s.bytes = (contents ops).flatMap Content.byte ∧
    s.messages = (contents ops).flatMap Content.message

/-! ### The bytes of a call -/

/-- The bytes that are written after the byte `last`. -/
def Content.bytes (binary : Bool) (last : UInt8) : Content → List UInt8
  | .data C => escapeChar binary last C
  | .option verb o => [TNIAC, verb.code, o]
  | .command cmd _ parms => cpcFrame binary last cmd parms

/-- The last byte written by `EscWriteChar` afterwards. -/
def Content.last (last : UInt8) : Content → UInt8
  | .data C => C
  | .option _ _ => last
  | .command _ _ parms => parms.getLastD last

theorem Send.perform_emits (g : Globals) (op : Send) :
    Emits addToBuffer (op.perform g) { g with escLast := op.content.last g.escLast }
      (op.content.bytes g.isWill g.escLast) := by
  match op with
  | .data C => exact escWriteChar_emits g C
  | .option verb o => exact (sendTelnetOption_emits verb.code o).bind (Emits.pure g)
  | .byteCommand cmd _ Parm => exact sendCPCByteCommand_emits g cmd Parm
  | .baudRate BR => exact sendBaudRate_emits g BR
  | .signature Sig h => exact sendSignature_emits g Sig h

theorem Send.bytes_length (binary : Bool) (last : UInt8) (op : Send) :
    (op.content.bytes binary last).length ≤ 516 := by
  have hcommand : ∀ (cmd : UInt8) (parms : List UInt8), parms.length ≤ 255 →
      (cpcFrame binary last cmd parms).length ≤ 516 := by
    intro cmd parms h
    have := cpcFrame_length binary last cmd parms
    omega
  match op with
  | .data C => exact Nat.le_trans (escapeChar_length binary last C).2 (by decide)
  | .option verb o => exact (by decide : 3 ≤ 516)
  | .byteCommand cmd _ Parm => exact hcommand cmd [Parm] (by simp)
  | .baudRate BR => exact hcommand _ (networkOrder BR) (by simp [networkOrder])
  | .signature Sig h => exact hcommand _ Sig.bytes h

/-- The bytes of calls one after the other. -/
def stream (binary : Bool) : UInt8 → List Content → List UInt8
  | _, [] => []
  | last, c :: cs => c.bytes binary last ++ stream binary (c.last last) cs

theorem transmit_eq (g : Globals) (ops : List (Send × ReplySink)) :
    ∃ g', transmit g ops = .ok (g', stream g.isWill g.escLast (contents ops)) := by
  induction ops generalizing g with
  | nil => exact ⟨g, rfl⟩
  | cons opB ops ih =>
    obtain ⟨op, B⟩ := opB
    have hlen : (op.content.bytes g.isWill g.escLast).length ≤ B.buf.room :=
      Nat.le_trans (op.bytes_length _ _) (Nat.le_trans (by decide) B.room)
    obtain ⟨B', hperform, -, hc⟩ := emits_ok (op.perform_emits g) B.valid hlen
    obtain ⟨g', hrest⟩ := ih { g with escLast := op.content.last g.escLast }
    refine ⟨g', ?_⟩
    simp only [transmit, hperform, ok_bind, hrest, added_of_contents hc, contents, map_cons, stream]
    rfl

/-! ### What the reader makes of it -/

/-- `EscWriteChar` stuffs a NUL before `C`. -/
def Stuffs (binary : Bool) (last C : UInt8) : Prop :=
  C ≠ TNIAC ∧ C ≠ 0x0A ∧ binary = false ∧ last = 0x0D

instance (binary : Bool) (last C : UInt8) : Decidable (Stuffs binary last C) :=
  inferInstanceAs (Decidable (_ ∧ _))

theorem escapeChar_of_stuffs {binary : Bool} {last C : UInt8} (h : Stuffs binary last C) :
    escapeChar binary last C = [0x00, C] := by
  rw [escapeChar, if_neg h.1, if_pos h.2]

theorem escapeChar_of_not_stuffs {binary : Bool} {last C : UInt8} (hC : C ≠ TNIAC)
    (h : ¬ Stuffs binary last C) : escapeChar binary last C = [C] := by
  rw [escapeChar, if_neg hC, if_neg fun h' => h ⟨hC, h'⟩]

/-- The parameters of a command as they are seen. -/
def seen (binary : Bool) : UInt8 → List UInt8 → List UInt8
  | _, [] => []
  | last, C :: Cs => (if Stuffs binary last C then [0x00, C] else [C]) ++ seen binary C Cs

/-- The data bytes seen of a device byte; `r` is the last data byte seen
before it. -/
def heardChar (binary : Bool) (last r C : UInt8) : List UInt8 :=
  if Stuffs binary last C then (if r = 0x0D then [C] else [0x00, C])
  else if binary = false ∧ C = 0x00 ∧ r = 0x0D then []
  else [C]

/-- The data bytes seen of a stream. -/
def heard (binary : Bool) : UInt8 → UInt8 → List Content → List UInt8
  | _, _, [] => []
  | last, r, .data C :: cs => heardChar binary last r C ++ heard binary C C cs
  | last, r, .option _ _ :: cs => heard binary last r cs
  | last, r, .command _ _ parms :: cs => heard binary (parms.getLastD last) r cs

/-- The messages seen of a stream. -/
def seenMessages (binary : Bool) : UInt8 → List Content → List Message
  | _, [] => []
  | _, .data C :: cs => seenMessages binary C cs
  | last, .option verb o :: cs => .option verb.code o :: seenMessages binary last cs
  | last, .command cmd _ parms :: cs =>
    .sub (TNCOM_PORT_OPTION :: cmd :: seen binary last parms) ::
      seenMessages binary (parms.getLastD last) cs

section
variable {binary : Bool} {s : Reader} {body : List UInt8}

theorem read_escapeChar_sub (hs : s.reading = .sub body) (last C : UInt8) :
    run (Reader.step binary) s (escapeChar binary last C) =
      .ok { s with
        reading := .sub (body ++ if Stuffs binary last C then [0x00, C] else [C]) } := by
  have h0 : (0x00 : UInt8) ≠ TNIAC := by decide
  by_cases hC : C = TNIAC
  · have hno : ¬ Stuffs binary last C := fun h => h.1 hC
    subst hC
    simp [escapeChar, run_cons, Reader.step, hs, hno]
  by_cases hst : Stuffs binary last C
  · rw [escapeChar_of_stuffs hst, if_pos hst]
    simp [run_cons, Reader.step, hs, hC, h0]
  · rw [escapeChar_of_not_stuffs hC hst, if_neg hst]
    simp [run_cons, Reader.step, hs, hC]

theorem read_escape_sub (hs : s.reading = .sub body) (last : UInt8) (parms : List UInt8) :
    run (Reader.step binary) s (escape binary last parms) =
      .ok { s with reading := .sub (body ++ seen binary last parms) } := by
  induction parms generalizing s body last with
  | nil =>
    simp only [escape, run_nil, seen, append_nil, ← hs]
  | cons C Cs ih =>
    rw [escape, run_append, read_escapeChar_sub hs, ok_bind, ih rfl]
    simp only [seen, append_assoc]

theorem read_escapeChar_data (hs : s.reading = .data) (last C : UInt8) :
    run (Reader.step binary) s (escapeChar binary last C) =
      .ok { s with last := C, bytes := s.bytes ++ heardChar binary last s.last C } := by
  have h0 : (0x00 : UInt8) ≠ TNIAC := by decide
  by_cases hC : C = TNIAC
  · have hno : ¬ Stuffs binary last C := fun h => h.1 hC
    subst hC
    simp [escapeChar, run_cons, Reader.step, hs, heardChar, hno, h0.symm]
  by_cases hst : Stuffs binary last C
  · rw [escapeChar_of_stuffs hst, heardChar, if_pos hst]
    by_cases hr : s.last = 0x0D
    · -- the reader drops the stuffed NUL
      simp [run_cons, Reader.step, hs, hC, h0, hr, hst.2.2.1]
    · simp [run_cons, Reader.step, hs, hC, h0, hr]
  · rw [escapeChar_of_not_stuffs hC hst, heardChar, if_neg hst]
    by_cases hdrop : binary = false ∧ C = 0x00 ∧ s.last = 0x0D
    · simp [run_cons, Reader.step, hs, h0, hdrop]
    · simp [run_cons, Reader.step, hs, hC, if_neg hdrop]

theorem read_option (hs : s.reading = .data) (verb : Verb) (o : UInt8) :
    run (Reader.step binary) s [TNIAC, verb.code, o] =
      .ok { s with messages := s.messages ++ [.option verb.code o] } := by
  have hverb : verb.code = TNWILL ∨ verb.code = TNWONT ∨ verb.code = TNDO ∨ verb.code = TNDONT := by
    cases verb <;> simp [Verb.code]
  simp [run_cons, Reader.step, hs, verb.code_ne.1, verb.code_ne.2, hverb]

theorem read_command (hs : s.reading = .data) (last cmd : UInt8) (hcmd : cmd ≠ TNIAC)
    (parms : List UInt8) :
    run (Reader.step binary) s (cpcFrame binary last cmd parms) =
      .ok { s with
        messages := s.messages ++
          [.sub (TNCOM_PORT_OPTION :: cmd :: seen binary last parms)] } := by
  have hhead : run (Reader.step binary) s [TNIAC, TNSB, TNCOM_PORT_OPTION, cmd] =
      .ok { s with reading := .sub [TNCOM_PORT_OPTION, cmd] } := by
    simp [run_cons, Reader.step, hs, hcmd, (by decide : TNSB ≠ TNIAC),
      (by decide : TNCOM_PORT_OPTION ≠ TNIAC)]
  rw [cpcFrame, run_append, hhead, ok_bind, run_append, read_escape_sub rfl, ok_bind]
  simp [run_cons, Reader.step, hs, (by decide : TNSE ≠ TNIAC)]

end

/-- **The reader on a stream.** -/
theorem read_stream (binary : Bool) {s : Reader} (hs : s.reading = .data) (last : UInt8)
    (cs : List Content) :
    ∃ r, run (Reader.step binary) s (stream binary last cs) =
      .ok ⟨.data, r, s.bytes ++ heard binary last s.last cs,
        s.messages ++ seenMessages binary last cs⟩ := by
  -- after each call the reader is between two messages again
  induction cs generalizing s last with
  | nil =>
    refine ⟨s.last, ?_⟩
    simp only [stream, run_nil, heard, seenMessages, append_nil, ← hs]
  | cons c cs ih =>
    rw [stream, run_append]
    cases c with
    | data C =>
      rw [Content.bytes, read_escapeChar_data hs, ok_bind]
      obtain ⟨r, hr⟩ := ih (s := { s with
        last := C, bytes := s.bytes ++ heardChar binary last s.last C }) hs C
      exact ⟨r, by simpa [heard, seenMessages, Content.last] using hr⟩
    | option verb o =>
      rw [Content.bytes, read_option hs, ok_bind]
      obtain ⟨r, hr⟩ := ih (s := { s with
        messages := s.messages ++ [.option verb.code o] }) hs last
      exact ⟨r, by simpa [heard, seenMessages, Content.last] using hr⟩
    | command cmd hcmd parms =>
      rw [Content.bytes, read_command hs last cmd hcmd, ok_bind]
      obtain ⟨r, hr⟩ := ih (s := { s with messages := s.messages ++
        [.sub (TNCOM_PORT_OPTION :: cmd :: seen binary last parms)] }) hs (parms.getLastD last)
      exact ⟨r, by simpa only [heard, seenMessages, Content.last, append_assoc,
        singleton_append] using hr⟩

/-- The reader recovers what was sent if and only if what it hears and sees
is what was sent. -/
theorem recovered_iff (g : Globals) (ops : List (Send × ReplySink)) :
    Recovered g ops ↔
      heard g.isWill g.escLast 0 (contents ops) = (contents ops).flatMap Content.byte ∧
        seenMessages g.isWill g.escLast (contents ops) =
          (contents ops).flatMap Content.message := by
  obtain ⟨g', htransmit⟩ := transmit_eq g ops
  -- the reader always comes to the end of the stream, so only what it got is compared
  obtain ⟨r, hread⟩ := read_stream g.isWill (s := {}) rfl g.escLast (contents ops)
  constructor
  · rintro ⟨g₁, out, s, hout, hs, -, hbytes, hmessages⟩
    rw [htransmit] at hout
    cases hout
    rw [hread] at hs
    cases hs
    exact ⟨by simpa using hbytes, by simpa using hmessages⟩
  · rintro ⟨hbytes, hmessages⟩
    exact ⟨g', _, _, htransmit, hread, rfl, by simpa using hbytes, by simpa using hmessages⟩

/-! ### When nothing is lost -/

/-- No parameter is stuffed. -/
def Unstuffed : UInt8 → List UInt8 → Prop
  | _, [] => True
  | last, C :: Cs => ¬ Stuffs false last C ∧ Unstuffed C Cs

/-- Outside binary mode: `last` is the last byte written, `r` the last device
byte, and `owed` says that a device NUL was dropped which a NUL stuffed
before a later device byte will stand for. -/
def Recovers : UInt8 → UInt8 → Bool → List Content → Prop
  | _, _, owed, [] => owed = false
  | last, r, owed, .option _ _ :: cs => Recovers last r owed cs
  | last, r, owed, .command _ _ parms :: cs =>
    Unstuffed last parms ∧ Recovers (parms.getLastD last) r owed cs
  | last, r, false, .data C :: cs =>
    if Stuffs false last C then r = 0x0D ∧ Recovers C C false cs
    else if C = 0x00 ∧ r = 0x0D then Recovers C C true cs
    else Recovers C C false cs
  | last, _, true, .data C :: cs =>
    if Stuffs false last C then Recovers C C false cs
    else C = 0x00 ∧ Recovers C C true cs

theorem seen_length (binary : Bool) (last : UInt8) (Cs : List UInt8) :
    Cs.length ≤ (seen binary last Cs).length := by
  induction Cs generalizing last with
  | nil => simp
  | cons C Cs ih =>
    have := ih C
    rw [seen, length_append, length_cons]
    split <;> simp <;> omega

theorem seen_eq_iff (last : UInt8) (Cs : List UInt8) :
    seen false last Cs = Cs ↔ Unstuffed last Cs := by
  induction Cs generalizing last with
  | nil => simp [seen, Unstuffed]
  | cons C Cs ih =>
    rw [seen, Unstuffed]
    by_cases hst : Stuffs false last C
    · rw [if_pos hst]
      refine ⟨fun h => ?_, fun h => absurd hst h.1⟩
      -- one byte too many
      have hlen := congrArg List.length h
      have := seen_length false C Cs
      simp only [length_append, length_cons, length_nil] at hlen
      omega
    · simp [hst, ih]

theorem heard_excess (last : UInt8) {r : UInt8} (hr : r ≠ 0x0D) (k : Nat) (cs : List Content) :
    List.replicate (k + 1) 0x00 ++ heard false last r cs ≠ cs.flatMap Content.byte := by
  induction cs generalizing last r k with
  | nil => simp [replicate_succ]
  | cons c cs ih =>
    cases c with
    | option verb o => exact ih last hr k
    | command cmd h parms => exact ih (parms.getLastD last) hr k
    | data C =>
      intro heq
      have hbyte : (Content.data C :: cs).flatMap Content.byte = C :: cs.flatMap Content.byte := rfl
      rw [hbyte, replicate_succ, cons_append, List.cons.injEq] at heq
      obtain ⟨rfl, heq⟩ := heq
      -- the byte is a NUL, and what was heard of it only adds to the excess
      have h0 : (0x00 : UInt8) ≠ 0x0D := by decide
      by_cases hst : Stuffs false last 0x00
      · refine ih 0x00 h0 (k + 1) (Eq.trans ?_ heq)
        rw [heard, heardChar, if_pos hst, if_neg hr, replicate_succ', replicate_succ']
        simp
      · refine ih 0x00 h0 k (Eq.trans ?_ heq)
        rw [heard, heardChar, if_neg hst, if_neg fun h => hr h.2.2, replicate_succ']
        simp

theorem recovers_data_iff {last r C : UInt8} {cs : List Content}
    (hfine : ∀ r', heard false C r' cs = cs.flatMap Content.byte ∧
      seenMessages false C cs = cs.flatMap Content.message ↔ Recovers C r' false cs)
    (howed : C ≠ 0x0D → (heard false C C cs = 0x00 :: cs.flatMap Content.byte ∧
      seenMessages false C cs = cs.flatMap Content.message ↔ Recovers C C true cs)) :
    (heardChar false last r C ++ heard false C C cs = C :: cs.flatMap Content.byte ∧
        seenMessages false C cs = cs.flatMap Content.message ↔
      Recovers last r false (.data C :: cs)) ∧
    (r ≠ 0x0D → (heardChar false last r C ++ heard false C C cs =
        0x00 :: C :: cs.flatMap Content.byte ∧
        seenMessages false C cs = cs.flatMap Content.message ↔
      Recovers last r true (.data C :: cs))) := by
  unfold Recovers heardChar
  by_cases hst : Stuffs false last C
  · simp only [if_pos hst]
    constructor
    · by_cases hr : r = 0x0D
      · simp [hr, hfine]
      · -- a NUL too many, which nothing makes up for
        simp only [hr, if_false, false_and, iff_false]
        rintro ⟨h, -⟩
        simp only [cons_append, nil_append, List.cons.injEq] at h
        obtain ⟨rfl, h⟩ := h
        exact heard_excess 0x00 (by decide) 0 cs h
    · intro hr
      simp [if_neg hr, hfine]
  · simp only [if_neg hst]
    constructor
    · by_cases hdrop : C = 0x00 ∧ r = 0x0D
      · obtain ⟨rfl, rfl⟩ := hdrop
        simp [← howed (by decide)]
      · rw [if_neg fun h => hdrop h.2, if_neg hdrop]
        simp [hfine]
    · intro hr
      rw [if_neg fun h => hr h.2.2]
      by_cases hC : C = 0x00
      · subst hC
        simp [← howed (by decide)]
      · simp [hC]

theorem recovers_iff (last r : UInt8) (cs : List Content) :
    (heard false last r cs = cs.flatMap Content.byte ∧
        seenMessages false last cs = cs.flatMap Content.message ↔ Recovers last r false cs) ∧
    (r ≠ 0x0D → (heard false last r cs = 0x00 :: cs.flatMap Content.byte ∧
        seenMessages false last cs = cs.flatMap Content.message ↔ Recovers last r true cs)) := by
  induction cs generalizing last r with
  | nil => simp [heard, seenMessages, Recovers]
  | cons c cs ih =>
    cases c with
    | data C => exact recovers_data_iff (fun r' => (ih C r').1) (ih C C).2
    | option verb o =>
      simpa [heard, seenMessages, Recovers, Content.byte, Content.message] using ih last r
    | command cmd h parms =>
      -- the parameters are seen as they are exactly if none of them is stuffed
      have hmessages : seenMessages false last (.command cmd h parms :: cs) =
          (Content.command cmd h parms :: cs).flatMap Content.message ↔
          Unstuffed last parms ∧ seenMessages false (parms.getLastD last) cs =
            cs.flatMap Content.message := by
        rw [← seen_eq_iff, seenMessages]
        simp [Content.message]
      obtain ⟨hfine, howed⟩ := ih (parms.getLastD last) r
      rw [hmessages]
      simp only [heard, Recovers, ← hfine]
      refine ⟨and_left_comm, fun hr => ?_⟩
      rw [← howed hr]
      exact and_left_comm

theorem binary_recovered (last r : UInt8) (cs : List Content) :
    heard true last r cs = cs.flatMap Content.byte ∧
      seenMessages true last cs = cs.flatMap Content.message := by
  have hno : ∀ last C, ¬ Stuffs true last C := fun last C h => absurd h.2.2.1 (by decide)
  have hseen : ∀ last parms, seen true last parms = parms := by
    intro last parms
    induction parms generalizing last with
    | nil => rfl
    | cons C Cs ih => simp [seen, hno, ih]
  induction cs generalizing last r with
  | nil => exact ⟨rfl, rfl⟩
  | cons c cs ih =>
    cases c with
    | data C =>
      simpa [heard, heardChar, hno, seenMessages, Content.byte, Content.message] using ih C C
    | option verb o =>
      simpa [heard, seenMessages, Content.byte, Content.message] using ih last r
    | command cmd h parms =>
      have := ih (parms.getLastD last) r
      simp only [heard, seenMessages, hseen, this.1, this.2]
      exact ⟨rfl, rfl⟩

/-- **Outbound framing**: an RFC 854/2217 reader recovers exactly the data and
the messages that were sent, if and only if they were sent in binary mode
or the stuffing of NULs is not seen. -/
theorem outbound_recovered_iff (g : Globals) (ops : List (Send × ReplySink)) :
    Recovered g ops ↔ g.isWill = true ∨ Recovers g.escLast 0 false (contents ops) := by
  rw [recovered_iff]
  cases hmode : g.isWill with
  | true => simpa using binary_recovered g.escLast 0 (contents ops)
  | false => simpa using (recovers_iff g.escLast 0 (contents ops)).1

/-- Outside binary mode, a CR from the device and then SET-DATASIZE 8: the
reader sees a NUL before the 8. -/
theorem outbound_parameter_after_cr :
    ¬ Recovered (initialGlobals default)
      [(.data 0x0D, default), (.byteCommand TNASC_SET_DATASIZE (by decide) 8, default)] := by
  rw [recovered_iff]
  decide

end Sercd
