import Cnu680.Sercd.Frames

/-! # sercd: Com Port Control commands of the client

RFC 2217 commands as a client encodes them, and what `EscRedirectChar`
makes of them. A command is handed over exactly once, up to the size of
`IACCommand[]`. Only the signature is read with IAC IAC as one byte; the
other commands are counted, so one with 0xFF in its payload, which the
client doubles, is cut short.
-/

open Framework List

namespace Sercd

/-! ### The commands -/

/-- The commands with a single byte parameter. -/
inductive ByteCommand where
  | setDataSize | setParity | setStopSize | setControl | notifyLineState | notifyModemState
  | setLineStateMask | setModemStateMask | purgeData
  deriving DecidableEq, Repr

def ByteCommand.code : ByteCommand → UInt8
  | .setDataSize => TNCAS_SET_DATASIZE
  | .setParity => TNCAS_SET_PARITY
  | .setStopSize => TNCAS_SET_STOPSIZE
  | .setControl => TNCAS_SET_CONTROL
  | .notifyLineState => TNCAS_NOTIFY_LINESTATE
  | .notifyModemState => TNCAS_NOTIFY_MODEMSTATE
  | .setLineStateMask => TNCAS_SET_LINESTATE_MASK
  | .setModemStateMask => TNCAS_SET_MODEMSTATE_MASK
  | .purgeData => TNCAS_PURGE_DATA

/-- A command of a client. -/
inductive ClientCommand where
  | setBaudRate (b₀ b₁ b₂ b₃ : UInt8)
  | byte (cmd : ByteCommand) (parm : UInt8)
  | flowControlSuspend
  | flowControlResume
  | signature (text : List UInt8)

namespace ClientCommand

def code : ClientCommand → UInt8
  | setBaudRate .. => TNCAS_SET_BAUDRATE
  | byte cmd _ => cmd.code
  | flowControlSuspend => TNCAS_FLOWCONTROL_SUSPEND
  | flowControlResume => TNCAS_FLOWCONTROL_RESUME
  | signature _ => TNCAS_SIGNATURE

def payload : ClientCommand → List UInt8
  | setBaudRate b₀ b₁ b₂ b₃ => [b₀, b₁, b₂, b₃]
  | byte _ parm => [parm]
  | flowControlSuspend => []
  | flowControlResume => []
  | signature text => text

/-- The command with its payload unescaped. -/
def frame (c : ClientCommand) : List UInt8 :=
  [TNIAC, TNSB, TNCOM_PORT_OPTION, c.code] ++ c.payload ++ [TNIAC, TNSE]

/-- The command as RFC 2217 encodes it: each 0xFF of the payload is
doubled. -/
def encode (c : ClientCommand) : List UInt8 :=
  [TNIAC, TNSB, TNCOM_PORT_OPTION, c.code] ++ doubled c.payload ++ [TNIAC, TNSE]

/-- The command is a signature, or nothing in it had to be doubled. -/
def Plain : ClientCommand → Prop
  | signature _ => True
  | c => TNIAC ∉ c.payload

end ClientCommand

/-! ### How they are read -/

variable {c : ClientCommand}

theorem doubled_eq_self {l : List UInt8} (h : TNIAC ∉ l) : doubled l = l := by
  induction l with
  | nil => rfl
  | cons b l ih =>
    have hb : b ≠ TNIAC := fun hb => h (by simp [hb])
    have hl : TNIAC ∉ l := fun hl => h (by simp [hl])
    simp only [doubled, if_neg hb, ih hl, cons_append, nil_append]

theorem ByteCommand.subSize_code (cmd : ByteCommand) :
    cmd.code ≠ TNCAS_SIGNATURE ∧ subSize cmd.code = 7 := by
  cases cmd <;> decide

theorem frame_length (c : ClientCommand) : c.frame.length = 6 + c.payload.length := by
  simp only [ClientCommand.frame, length_append, length_cons, length_nil]
  omega

theorem frame_take (h : c.payload.length ≤ 249) : c.frame.take TmpStrLen = c.frame := by
  apply take_of_length_le
  rw [frame_length]
  simp only [TmpStrLen]
  omega

/-- All other commands than a signature are read by their length. -/
theorem signature_or_counted (c : ClientCommand) :
    (∃ text, c = .signature text) ∨ c.code ≠ TNCAS_SIGNATURE ∧
      6 + c.payload.length = subSize c.code ∧ (c.Plain ↔ TNIAC ∉ c.payload) := by
  cases c with
  | signature text => exact .inl ⟨text, rfl⟩
  | byte cmd parm => exact .inr ⟨cmd.subSize_code.1, cmd.subSize_code.2.symm, Iff.rfl⟩
  | setBaudRate => exact .inr ⟨(by decide : TNCAS_SET_BAUDRATE ≠ _), rfl, Iff.rfl⟩
  | flowControlSuspend | flowControlResume => exact .inr ⟨by decide, rfl, Iff.rfl⟩

theorem takenAs_command {g : Globals} (hp : g.parser.iacEscape = .IACNormal) (hc : c.Plain) :
    ∃ g', TakenAs g c.encode (c.frame.take TmpStrLen) g' := by
  rcases signature_or_counted c with ⟨text, rfl⟩ | ⟨hsig, hlen, hplain⟩
  · obtain ⟨g', htaken, -⟩ := takenAs_signature hp TNCOM_PORT_OPTION text
      (y := TNSE) (by decide)
    exact ⟨g', htaken⟩
  · obtain ⟨g', htaken, -⟩ := takenAs_sub hp TNCOM_PORT_OPTION hsig
      (c.payload ++ [TNIAC, TNSE])
      (by simp only [length_append, length_cons, length_nil]; omega)
    have hbound := (subSize_bounds c.code).2
    refine ⟨g', ?_⟩
    rw [frame_take (by omega), ClientCommand.encode, doubled_eq_self (hplain.mp hc),
      ClientCommand.frame, append_assoc]
    exact htaken

/-- **Client commands are handed over once**: from the normal status, the
encoding of a signature or of a command without 0xFF in its payload
makes `EscRedirectChar` call `HandleIACCommand` exactly once, with the
unescaped command cut to the size of `IACCommand[]`; nothing is queued
to the device, and the parser is back in its normal status. -/
theorem client_command_framed (g : Globals) (hp : g.parser.iacEscape = .IACNormal)
    (c : ClientCommand) (hc : c.Plain) (wire : List (UInt8 × Sinks))
    (hwire : wire.map Prod.fst = c.encode) :
    ∃ r, feed g wire = .ok r ∧ r.commands = [c.frame.take TmpStrLen] ∧ r.toDevice = [] ∧
      r.g.parser.iacEscape = .IACNormal := by
  obtain ⟨g', hrec, hnormal⟩ := takenAs_command hp hc
  exact ⟨_, by rw [feed_eq, hwire, hrec], rfl, rfl, hnormal⟩

/-- A doubled IAC moves the end of the command back, where IAC stands in place
of SE. -/
theorem not_prefix_doubled (l : List UInt8) (n : Nat) :
    ¬ l ++ [TNIAC, TNSE] <+: List.replicate (n + 1) TNIAC ++ (doubled l ++ [TNIAC, TNSE]) := by
  induction l generalizing n with
  | nil => cases n <;> simp [replicate_succ, doubled, TNIAC, TNSE]
  | cons b l ih =>
    intro h
    rw [replicate_succ, cons_append, cons_append, cons_prefix_cons] at h
    obtain ⟨rfl, h⟩ := h
    refine ih (n + 1) ?_
    simpa [doubled, replicate_succ'] using h

theorem not_prefix_of_mem {l : List UInt8} (h : TNIAC ∈ l) :
    ¬ l ++ [TNIAC, TNSE] <+: doubled l ++ [TNIAC, TNSE] := by
  induction l with
  | nil => exact absurd h not_mem_nil
  | cons b l ih =>
    intro hprefix
    by_cases hb : b = TNIAC
    · subst hb
      exact not_prefix_doubled l 0 (cons_prefix_cons.mp hprefix).2
    · rw [doubled, if_neg hb] at hprefix
      exact ih ((mem_cons.mp h).resolve_left (Ne.symm hb)) (cons_prefix_cons.mp hprefix).2

theorem length_le_doubled (l : List UInt8) : l.length ≤ (doubled l).length := by
  induction l with
  | nil => exact Nat.le_refl 0
  | cons b l ih =>
    rw [doubled, length_append, length_cons]
    split <;> simp only [length_cons, length_nil] <;> omega

/-- Of any other command the parser counts too few bytes. -/
theorem commands_ne {g : Globals} {r : Fed} (hp : g.parser.iacEscape = .IACNormal)
    (hc : ¬ c.Plain) (h : receive g c.encode = .ok r) : r.commands ≠ [c.frame] := by
  rcases signature_or_counted c with ⟨text, rfl⟩ | ⟨hsig, hlen, hplain⟩
  · exact absurd trivial hc
  have hdoubled := length_le_doubled c.payload
  obtain ⟨g', ⟨hrec, -⟩, -⟩ := takenAs_sub hp TNCOM_PORT_OPTION hsig
    ((doubled c.payload ++ [TNIAC, TNSE]).take (c.payload.length + 2)) (by simp; omega)
  rw [ClientCommand.encode, append_assoc,
    ← take_append_drop (c.payload.length + 2) (doubled c.payload ++ [TNIAC, TNSE]),
    ← append_assoc, receive_append, hrec, ok_bind] at h
  obtain ⟨t, -, hr⟩ := bind_eq_ok.mp h
  cases hr
  intro hframe
  have hbody := (List.cons.inj hframe).1
  rw [ClientCommand.frame, append_assoc] at hbody
  refine not_prefix_of_mem (not_not.mp (mt hplain.mpr hc)) ?_
  rw [← append_cancel_left hbody]
  exact take_prefix _ _

/-- A command is handed over whole, and nothing else happens, exactly if it is
a signature or nothing in it had to be doubled, and it fits into
`IACCommand[]`. -/
theorem client_command_framed_iff (g : Globals) (hp : g.parser.iacEscape = .IACNormal)
    (c : ClientCommand) (wire : List (UInt8 × Sinks)) (hwire : wire.map Prod.fst = c.encode) :
    (∃ r, feed g wire = .ok r ∧ r.commands = [c.frame] ∧ r.toDevice = [] ∧
        r.g.parser.iacEscape = .IACNormal) ↔
      c.Plain ∧ c.payload.length ≤ 249 := by
  constructor
  · rintro ⟨r, hfeed, hcommands, -⟩
    rw [feed_eq, hwire] at hfeed
    have hplain : c.Plain := by
      by_contra hno
      exact commands_ne hp hno hfeed hcommands
    obtain ⟨g', hrec, -⟩ := takenAs_command hp hplain
    obtain rfl := Except.ok.inj (hrec.symm.trans hfeed)
    have hlen := congrArg List.length (List.cons.inj hcommands).1
    rw [List.length_take, frame_length, TmpStrLen] at hlen
    exact ⟨hplain, by omega⟩
  · rintro ⟨hplain, hlen⟩
    have h := client_command_framed g hp c hplain wire hwire
    rwa [frame_take hlen] at h

/-- A signature with 0xFF in its text. -/
theorem client_command_framed_text :
    ∃ r, feed (initialGlobals default) ((ClientCommand.signature [0x41, TNIAC, 0x42]).encode.map
        fun C => (C, default)) = .ok r ∧
      r.commands = [(ClientCommand.signature [0x41, TNIAC, 0x42]).frame] ∧
      r.toDevice = [] ∧ r.g.parser.iacEscape = .IACNormal :=
  (client_command_framed_iff (initialGlobals default) rfl (.signature [0x41, TNIAC, 0x42]) _
    (by simp [Function.comp_def])).mpr ⟨trivial, by decide⟩

/-- A parameter 0xFF desynchronises the parser: SET-MODEMSTATE-MASK 255 is
handed over with the second IAC as its third byte from the end, and SE
goes to the device. A signature text of 250 bytes is cut. -/
theorem client_command_misframed :
    (∃ r, feed (initialGlobals default) ((ClientCommand.byte .setModemStateMask 255).encode.map
        fun C => (C, default)) = .ok r ∧
      r.commands ≠ [(ClientCommand.byte .setModemStateMask 255).frame] ∧
      r.toDevice = [TNSE]) ∧
    ∃ r, feed (initialGlobals default)
        ((ClientCommand.signature (List.replicate 250 65)).encode.map fun C => (C, default)) =
          .ok r ∧
      r.commands ≠ [(ClientCommand.signature (List.replicate 250 65)).frame] := by
  have hnormal : (initialGlobals default).parser.iacEscape = .IACNormal := rfl
  constructor
  · -- the seven bytes that the parser counts, then SE as data
    obtain ⟨g', ⟨hrec, hp⟩, -⟩ := takenAs_sub hnormal TNCOM_PORT_OPTION
      (k := TNCAS_SET_MODEMSTATE_MASK) (by decide) [TNIAC, TNIAC, TNIAC] rfl
    have hse := receive_data (g := g') (C := TNSE) hp (by decide)
      (fun h => absurd h.2.1 (by decide))
    have hall := receive_append_ok hrec hse
    refine ⟨_, by rw [feed_eq, List.map_map, Function.comp_def, List.map_id']; exact hall, ?_, rfl⟩
    show [[255, 250, 44, 11, 255, 255, 255]] ≠ [[255, 250, 44, 11, 255, 255, 240]]
    decide
  · obtain ⟨g', hrec, -⟩ := takenAs_command hnormal
      (c := .signature (List.replicate 250 65)) trivial
    refine ⟨_, by rw [feed_eq, List.map_map, Function.comp_def, List.map_id', hrec], ?_⟩
    intro h
    have hlen := congrArg List.length (List.cons.inj h).1
    rw [List.length_take, frame_length] at hlen
    simp only [ClientCommand.payload, List.length_replicate, TmpStrLen] at hlen
    omega

end Sercd
