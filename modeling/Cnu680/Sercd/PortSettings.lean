import Cnu680.Framework.Fields
import Cnu680.Sercd.Command

/-! # sercd: port settings

The five attributes of the port that a client sets with Com Port Control
commands: baud rate, data size, parity, stop size and flow control. They
share the two words `c_cflag` and `c_iflag`. Each has its own bits, so a
command that sets one leaves the others as they were.

What is confirmed is what has been set, normalised: a value that is not
supported falls back to a default. Flow control by DCD, DTR or DSR does
not: the README has it disable flow control, but the request is ignored.
-/

open Framework Function

namespace Sercd

/-! ### Requests -/

abbrev TNCOM_CMD_FLOW_DCD : UInt8 := 17
abbrev TNCOM_CMD_INFLOW_DTR : UInt8 := 18
abbrev TNCOM_CMD_FLOW_DSR : UInt8 := 19

inductive Attribute where
  | baudRate | dataSize | parity | stopSize | flow
  deriving DecidableEq, Repr

/-- The value that is reported for an attribute. -/
def Attribute.value (ti : Termios) : Attribute → UInt32
  | .baudRate => termios2TncomSpeed ti
  | .dataSize => (termios2TncomDataSize ti).toUInt32
  | .parity => (termios2TncomParity ti).toUInt32
  | .stopSize => (termios2TncomStopSize ti).toUInt32
  | .flow => (termios2TncomOutFlow ti).toUInt32

/-- The outbound values of SET-CONTROL. -/
inductive OutFlow where
  | none | xonXoff | hardware | dcd | dtr | dsr
  deriving DecidableEq, Repr

def OutFlow.code : OutFlow → UInt8
  | .none => TNCOM_CMD_FLOW_NONE
  | .xonXoff => TNCOM_CMD_FLOW_XONXOFF
  | .hardware => TNCOM_CMD_FLOW_HARDWARE
  | .dcd => TNCOM_CMD_FLOW_DCD
  | .dtr => TNCOM_CMD_INFLOW_DTR
  | .dsr => TNCOM_CMD_FLOW_DSR

def OutFlow.Unsupported (f : OutFlow) : Prop := f = .dcd ∨ f = .dtr ∨ f = .dsr

inductive PortRequest where
  | baudRate (v : UInt32)
  | dataSize (b : UInt8)
  | parity (b : UInt8)
  | stopSize (b : UInt8)
  | flow (f : OutFlow)
  deriving DecidableEq, Repr

def PortRequest.attribute : PortRequest → Attribute
  | .baudRate _ => .baudRate
  | .dataSize _ => .dataSize
  | .parity _ => .parity
  | .stopSize _ => .stopSize
  | .flow _ => .flow

/-- The value that the request is to set. -/
def PortRequest.normalised : PortRequest → UInt32
  | .baudRate v => if v ∈ speeds.map Prod.snd then v else 9600
  | .dataSize b => if b = 5 ∨ b = 6 ∨ b = 7 ∨ b = 8 then b.toUInt32 else 8
  | .parity b =>
    if b = TNCOM_ODDPARITY ∨ b = TNCOM_EVENPARITY then b.toUInt32 else TNCOM_NOPARITY.toUInt32
  | .stopSize b =>
    if b = TNCOM_TWOSTOPBITS then b.toUInt32 else TNCOM_ONESTOPBIT.toUInt32
  | .flow .xonXoff => TNCOM_CMD_FLOW_XONXOFF.toUInt32
  | .flow .hardware => TNCOM_CMD_FLOW_HARDWARE.toUInt32
  | .flow _ => TNCOM_CMD_FLOW_NONE.toUInt32

/-- By the value 0 a client asks for the present value. -/
def PortRequest.AsksPresent : PortRequest → Prop
  | .baudRate v => v = 0
  | .dataSize b | .parity b | .stopSize b => b = 0
  | .flow _ => False

/-- The confirmation with the given value. -/
def PortRequest.confirmation (value : UInt32) : PortRequest → Reply
  | .baudRate _ => .baudRate value
  | .dataSize _ => .byte TNASC_SET_DATASIZE value.toUInt8
  | .parity _ => .byte TNASC_SET_PARITY value.toUInt8
  | .stopSize _ => .byte TNASC_SET_STOPSIZE value.toUInt8
  | .flow _ => .byte TNASC_SET_CONTROL value.toUInt8

/-- The request is that of the command. -/
def PortRequest.In (cmd : Command) : PortRequest → Prop
  | .baudRate v => cmd.parm = TNCAS_SET_BAUDRATE ∧ cmd.rate = v
  | .dataSize b => cmd.parm = TNCAS_SET_DATASIZE ∧ cmd.value = b
  | .parity b => cmd.parm = TNCAS_SET_PARITY ∧ cmd.value = b
  | .stopSize b => cmd.parm = TNCAS_SET_STOPSIZE ∧ cmd.value = b
  | .flow f => cmd.parm = TNCAS_SET_CONTROL ∧ cmd.value = f.code

/-- A command that sets an attribute, as it is handed to
`HandleCPCCommand`. -/
structure PortCommand where
  cmd : Command
  CSize : Nat
  request : PortRequest
  request_in : request.In cmd

/-! ### What a command does -/

/-- What a request does to the port. -/
def PortRequest.set (P : Port) : PortRequest → Port
  | .baudRate v => if v = 0 then P else setPortSpeed P v
  | .dataSize b => if b = 0 then P else setPortDataSize P b
  | .parity b => if b = 0 then P else setPortParity P b
  | .stopSize b => if b = 0 then P else setPortStopSize P b
  | .flow f => (getPortFlowControl (setPortFlowControl P f.code) TNCOM_CMD_FLOW_REQ).2

theorem toUInt8_toUInt32 (b : UInt8) : b.toUInt32.toUInt8 = b := by simp

theorem controlBranch_flow (g : Globals) (f : OutFlow) :
    controlBranch g f.code =
      ({ g with port := (PortRequest.flow f).set g.port },
        .byte TNASC_SET_CONTROL
          (termios2TncomOutFlow ((PortRequest.flow f).set g.port).settings)) := by
  have hset : f.code ≠ TNCOM_CMD_BREAK_REQ ∧ f.code ≠ TNCOM_CMD_BREAK_ON ∧
      f.code ≠ TNCOM_CMD_BREAK_OFF := by
    cases f <;> decide
  have hquery : ¬ (f.code = TNCOM_CMD_FLOW_REQ ∨ f.code = TNCOM_CMD_DTR_REQ ∨
      f.code = TNCOM_CMD_RTS_REQ ∨ f.code = TNCOM_CMD_INFLOW_REQ) := by
    cases f <;> decide
  have hin : ¬ (TNCOM_CMD_INFLOW_REQ ≤ f.code ∧ f.code ≤ TNCOM_CMD_INFLOW_HARDWARE) := by
    cases f <;> decide
  unfold controlBranch
  rw [if_neg hquery, if_neg hset.1, if_neg hset.2.1, if_neg hset.2.2]
  dsimp only
  rw [if_neg fun h => hin h.2]
  rfl

theorem cpcBranch_request (g : Globals) (c : PortCommand) :
    cpcBranch g c.cmd c.CSize =
      ({ g with port := c.request.set g.port },
        c.request.confirmation (c.request.attribute.value (c.request.set g.port).settings)) := by
  obtain ⟨cmd, CSize, request, hin⟩ := c
  unfold cpcBranch
  cases request with
  | baudRate v =>
    have hcode : cmd[3] = TNCAS_SET_BAUDRATE := hin.1
    have hv : ntohl cmd[4] cmd[5] cmd[6] cmd[7] = v := hin.2
    dsimp only
    rw [hcode, if_neg (by decide), if_pos rfl, hv]
    rfl
  | dataSize b =>
    have hcode : cmd[3] = TNCAS_SET_DATASIZE := hin.1
    have hb : cmd[4] = b := hin.2
    dsimp only
    rw [hcode, if_neg (by decide), if_neg (by decide), if_pos rfl, hb]
    simp only [PortRequest.confirmation, PortRequest.attribute, Attribute.value, toUInt8_toUInt32]
    rfl
  | parity b =>
    have hcode : cmd[3] = TNCAS_SET_PARITY := hin.1
    have hb : cmd[4] = b := hin.2
    dsimp only
    rw [hcode, if_neg (by decide), if_neg (by decide), if_neg (by decide), if_pos rfl, hb]
    simp only [PortRequest.confirmation, PortRequest.attribute, Attribute.value, toUInt8_toUInt32]
    rfl
  | stopSize b =>
    have hcode : cmd[3] = TNCAS_SET_STOPSIZE := hin.1
    have hb : cmd[4] = b := hin.2
    dsimp only
    rw [hcode, if_neg (by decide), if_neg (by decide), if_neg (by decide),
      if_neg (by decide), if_pos rfl, hb]
    simp only [PortRequest.confirmation, PortRequest.attribute, Attribute.value, toUInt8_toUInt32]
    rfl
  | flow f =>
    have hcode : cmd[3] = TNCAS_SET_CONTROL := hin.1
    have hb : cmd[4] = f.code := hin.2
    dsimp only
    rw [hcode, if_neg (by decide), if_neg (by decide), if_neg (by decide),
      if_neg (by decide), if_neg (by decide), if_pos rfl, hb, controlBranch_flow]
    simp only [PortRequest.confirmation, PortRequest.attribute, Attribute.value, toUInt8_toUInt32]

/-! ### The bits of an attribute -/

/-- The bits of an attribute in `c_cflag`. -/
def Attribute.cflag : Attribute → tcflag_t
  | .baudRate => CBAUD ||| CBAUDEX
  | .dataSize => CSIZE
  | .parity => PARENB ||| PARODD
  | .stopSize => CSTOPB
  | .flow => CRTSCTS

/-- The bits of an attribute in `c_iflag`. -/
def Attribute.iflag : Attribute → tcflag_t
  | .baudRate => IBAUD0
  | .flow => IXON ||| IXOFF
  | _ => 0

/-- Only the bits of the attribute differ. -/
structure Attribute.SetIn (A : Attribute) (ti ti' : Termios) : Prop where
  cflag : SameBut A.cflag ti.c_cflag ti'.c_cflag
  iflag : SameBut A.iflag ti.c_iflag ti'.c_iflag

theorem bits_disjoint {A B : Attribute} (h : B ≠ A) :
    ~~~A.cflag &&& B.cflag = B.cflag ∧ ~~~A.iflag &&& B.iflag = B.iflag := by
  cases A <;> cases B <;> first | exact absurd rfl h | decide

theorem value_congr {ti ti' : Termios} {B : Attribute}
    (hc : ti'.c_cflag &&& B.cflag = ti.c_cflag &&& B.cflag)
    (hi : ti'.c_iflag &&& B.iflag = ti.c_iflag &&& B.iflag) : B.value ti' = B.value ti := by
  cases B with
  | baudRate =>
    have hspeed : cfgetospeed ti' = cfgetospeed ti := hc
    simp only [Attribute.value, termios2TncomSpeed, hspeed]
  | dataSize =>
    have hsize : ti'.c_cflag &&& CSIZE = ti.c_cflag &&& CSIZE := hc
    simp only [Attribute.value, termios2TncomDataSize, hsize]
  | parity =>
    have hb : ti'.c_cflag &&& PARENB = ti.c_cflag &&& PARENB := read_of_read hc (by decide)
    have hodd : ti'.c_cflag &&& PARODD = ti.c_cflag &&& PARODD := read_of_read hc (by decide)
    simp only [Attribute.value, termios2TncomParity, hb, hodd]
  | stopSize =>
    have hstop : ti'.c_cflag &&& CSTOPB = ti.c_cflag &&& CSTOPB := hc
    simp only [Attribute.value, termios2TncomStopSize, hstop]
  | flow =>
    have hon : ti'.c_iflag &&& IXON = ti.c_iflag &&& IXON := read_of_read hi (by decide)
    have hcts : ti'.c_cflag &&& CRTSCTS = ti.c_cflag &&& CRTSCTS := hc
    simp only [Attribute.value, termios2TncomOutFlow, hon, hcts]

/-- **Setting one attribute does not change another.** -/
theorem Attribute.SetIn.value {A B : Attribute} {ti ti' : Termios} (h : A.SetIn ti ti')
    (hne : B ≠ A) : B.value ti' = B.value ti := by
  obtain ⟨hc, hi⟩ := bits_disjoint hne
  exact value_congr (h.cflag.read hc) (h.iflag.read hi)

/-! ### What the setters do -/

theorem setIn_refl (A : Attribute) (ti : Termios) : A.SetIn ti ti :=
  ⟨SameBut.refl _ _, SameBut.refl _ _⟩

section
variable (P : Port) {ti : Termios}

/-- The code of a listed speed is in the bits of the baud rate, and not 0, and
no other speed has it. -/
theorem speeds_code : ∀ e ∈ speeds, e.1 &&& (CBAUD ||| CBAUDEX) = e.1 ∧
    e.1 &&& ~~~(CBAUD ||| CBAUDEX) = 0 ∧ e.1 ≠ 0 ∧ speeds.find? (fun x => x.1 = e.1) = some e := by
  have hall : speeds.all (fun e => decide (e.1 &&& (CBAUD ||| CBAUDEX) = e.1 ∧
      e.1 &&& ~~~(CBAUD ||| CBAUDEX) = 0 ∧ e.1 ≠ 0 ∧
        speeds.find? (fun x => x.1 = e.1) = some e)) = true := by
    decide
  intro e he
  exact of_decide_eq_true (List.all_eq_true.mp hall e he)

theorem speed_of_rate (BaudRate : UInt32) :
    ∃ e ∈ speeds, e.2 = (PortRequest.baudRate BaudRate).normalised ∧
      (match speeds.find? fun e => e.2 = BaudRate with
        | some e => e.1
        | none => B9600) = e.1 := by
  cases hfind : speeds.find? (fun e => e.2 = BaudRate) with
  | none =>
    refine ⟨(B9600, 9600), by decide, ?_, rfl⟩
    have hnot : BaudRate ∉ speeds.map Prod.snd := by
      intro hmem
      obtain ⟨e, he, hrate⟩ := List.mem_map.mp hmem
      have hne := List.find?_eq_none.mp hfind e he
      simp [hrate] at hne
    exact (if_neg hnot).symm
  | some e =>
    have hmem := List.mem_of_find?_eq_some hfind
    have hrate : e.2 = BaudRate := by simpa using List.find?_some hfind
    refine ⟨e, hmem, ?_, rfl⟩
    rw [hrate]
    exact (if_pos (hrate ▸ List.mem_map_of_mem hmem)).symm

theorem setspeed_eq (ti : Termios) {speed : tcflag_t} (h : speed ≠ 0) :
    cfsetispeed (cfsetospeed ti speed) speed =
      { ti with
        c_iflag := ti.c_iflag &&& ~~~IBAUD0
        c_cflag := (((ti.c_cflag &&& ~~~(CBAUD ||| CBAUDEX)) ||| speed) &&&
          ~~~(CBAUD ||| CBAUDEX)) ||| speed } := by
  unfold cfsetispeed
  rw [if_neg h]
  rfl

theorem setPortSpeed_spec (BaudRate : UInt32) :
    Attribute.baudRate.SetIn P.settings (setPortSpeed P BaudRate).settings ∧
      Attribute.baudRate.value (setPortSpeed P BaudRate).settings =
        (PortRequest.baudRate BaudRate).normalised := by
  obtain ⟨e, he, hrate, hcode⟩ := speed_of_rate BaudRate
  obtain ⟨hread, hbits, hne, hfind⟩ := speeds_code e he
  have hset : (setPortSpeed P BaudRate).settings =
      cfsetispeed (cfsetospeed P.settings e.1) e.1 := by
    rw [← hcode]
    rfl
  rw [hset, setspeed_eq P.settings hne]
  constructor
  · have hclear : ∀ w : tcflag_t, SameBut (CBAUD ||| CBAUDEX) w (w &&& ~~~(CBAUD ||| CBAUDEX)) :=
      fun w => sameBut_clear w (by decide)
    have hwrite : ∀ w : tcflag_t, SameBut (CBAUD ||| CBAUDEX) w (w ||| e.1) :=
      fun w => sameBut_set w hbits
    exact ⟨(((hclear _).trans (hwrite _)).trans (hclear _)).trans (hwrite _),
      sameBut_clear _ (by decide)⟩
  · rw [← hrate]
    simp only [Attribute.value, termios2TncomSpeed, cfgetospeed, write_read, hread]
    rw [hfind]

theorem setPortDataSize_spec (DataSize : UInt8) :
    Attribute.dataSize.SetIn P.settings (setPortDataSize P DataSize).settings ∧
      Attribute.dataSize.value (setPortDataSize P DataSize).settings =
        (PortRequest.dataSize DataSize).normalised := by
  constructor
  · have hclear : SameBut CSIZE P.settings.c_cflag (P.settings.c_cflag &&& ~~~CSIZE) :=
      sameBut_clear _ (by decide)
    exact ⟨hclear.trans (sameBut_set _ (mask_within _ _)), SameBut.refl _ _⟩
  · simp only [Attribute.value, termios2TncomDataSize, setPortDataSize, PortRequest.normalised,
      write_read]
    by_cases h5 : DataSize = 5
    · rw [h5]
      rfl
    by_cases h6 : DataSize = 6
    · rw [h6]
      rfl
    by_cases h7 : DataSize = 7
    · rw [h7]
      rfl
    by_cases h8 : DataSize = 8
    · rw [h8]
      rfl
    simp only [h5, h6, h7, h8, if_false, or_self]
    rfl

theorem parity_odd (hb : ti.c_cflag &&& PARENB = PARENB) (hodd : ti.c_cflag &&& PARODD = PARODD) :
    termios2TncomParity ti = TNCOM_ODDPARITY := by
  unfold termios2TncomParity
  rw [hb, hodd]
  rfl

theorem parity_even (hb : ti.c_cflag &&& PARENB = PARENB) (hodd : ti.c_cflag &&& PARODD = 0) :
    termios2TncomParity ti = TNCOM_EVENPARITY := by
  unfold termios2TncomParity
  rw [hb, hodd]
  rfl

theorem setPortParity_spec (Parity : UInt8) :
    Attribute.parity.SetIn P.settings (setPortParity P Parity).settings ∧
      Attribute.parity.value (setPortParity P Parity).settings =
        (PortRequest.parity Parity).normalised := by
  have henb : ∀ w : tcflag_t, SameBut (PARENB ||| PARODD) w (w ||| PARENB) :=
    fun w => sameBut_set w (by decide)
  by_cases hodd : Parity = TNCOM_ODDPARITY
  · subst hodd
    refine ⟨⟨(henb _).trans (sameBut_set _ (by decide)), SameBut.refl _ _⟩, ?_⟩
    have hb : (P.settings.c_cflag ||| PARENB ||| PARODD) &&& PARENB = PARENB := by
      rw [(sameBut_set _ (by decide) : SameBut PARODD _ _).read (by decide), set_read]
    exact congrArg UInt8.toUInt32 (parity_odd hb (set_read _ _))
  by_cases heven : Parity = TNCOM_EVENPARITY
  · subst heven
    refine ⟨⟨(henb _).trans (sameBut_clear _ (by decide)), SameBut.refl _ _⟩, ?_⟩
    have hb : (P.settings.c_cflag ||| PARENB) &&& ~~~PARODD &&& PARENB = PARENB := by
      rw [(sameBut_clear _ (by decide) : SameBut PARODD _ _).read (by decide), set_read]
    exact congrArg UInt8.toUInt32 (parity_even hb (clear_read _ _))
  · have hset : (setPortParity P Parity).settings =
        { P.settings with c_cflag := P.settings.c_cflag &&& ~~~PARENB } := by
      simp [setPortParity, hodd, heven]
    have hnone : (PortRequest.parity Parity).normalised = TNCOM_NOPARITY.toUInt32 :=
      if_neg fun h => h.elim hodd heven
    rw [hset, hnone]
    refine ⟨⟨sameBut_clear _ (by decide), SameBut.refl _ _⟩, ?_⟩
    exact congrArg UInt8.toUInt32 (if_pos (clear_read _ _))

theorem setPortStopSize_spec (StopSize : UInt8) :
    Attribute.stopSize.SetIn P.settings (setPortStopSize P StopSize).settings ∧
      Attribute.stopSize.value (setPortStopSize P StopSize).settings =
        (PortRequest.stopSize StopSize).normalised := by
  by_cases htwo : StopSize = TNCOM_TWOSTOPBITS
  · subst htwo
    refine ⟨⟨sameBut_set _ (by decide), SameBut.refl _ _⟩, congrArg UInt8.toUInt32 (if_neg ?_)⟩
    intro h
    have hb : (P.settings.c_cflag ||| CSTOPB) &&& CSTOPB = CSTOPB := set_read _ _
    exact absurd (hb.symm.trans h) (by decide)
  · have hset : (setPortStopSize P StopSize).settings =
        { P.settings with c_cflag := P.settings.c_cflag &&& ~~~CSTOPB } := by
      simp [setPortStopSize, htwo]
    have hone : (PortRequest.stopSize StopSize).normalised = TNCOM_ONESTOPBIT.toUInt32 :=
      if_neg htwo
    rw [hset, hone]
    refine ⟨⟨sameBut_clear _ (by decide), SameBut.refl _ _⟩, ?_⟩
    exact congrArg UInt8.toUInt32 (if_pos (clear_read _ _))

/-- Flow control is disabled. -/
def FlowOff (ti : Termios) : Prop :=
  ti.c_iflag &&& (IXON ||| IXOFF) = 0 ∧ ti.c_cflag &&& CRTSCTS = 0

instance (ti : Termios) : Decidable (FlowOff ti) := inferInstanceAs (Decidable (_ ∧ _))

theorem xon_clear (w : tcflag_t) : w &&& ~~~IXON &&& ~~~IXOFF = w &&& ~~~(IXON ||| IXOFF) := by
  rw [BitVec.and_assoc]
  congr 1

theorem outFlow_off (h : FlowOff ti) : termios2TncomOutFlow ti = TNCOM_CMD_FLOW_NONE := by
  have hon : ti.c_iflag &&& IXON = 0 &&& IXON := read_of_read (h.1.trans (by decide)) (by decide)
  unfold termios2TncomOutFlow
  rw [hon, h.2]
  rfl

theorem setPortFlow_unsupported {f : OutFlow} (h : f.Unsupported) :
    ((PortRequest.flow f).set P).settings = P.settings := by
  obtain rfl | rfl | rfl := h <;> rfl

theorem setPortFlow_spec (f : OutFlow) :
    Attribute.flow.SetIn P.settings ((PortRequest.flow f).set P).settings := by
  have hset : ∀ w : tcflag_t, SameBut CRTSCTS w (w ||| CRTSCTS) :=
    fun w => sameBut_set w (by decide)
  have hclear : ∀ w : tcflag_t, SameBut CRTSCTS w (w &&& ~~~CRTSCTS) :=
    fun w => sameBut_clear w (by decide)
  have hon : ∀ w : tcflag_t, SameBut (IXON ||| IXOFF) w (w ||| IXON ||| IXOFF) := fun w =>
    (sameBut_set w (by decide)).trans (sameBut_set _ (by decide))
  have hoff : ∀ w : tcflag_t, SameBut (IXON ||| IXOFF) w (w &&& ~~~IXON &&& ~~~IXOFF) := fun w =>
    (sameBut_clear w (by decide)).trans (sameBut_clear _ (by decide))
  cases f with
  | none => exact ⟨hclear _, hoff _⟩
  | xonXoff => exact ⟨hclear _, hon _⟩
  | hardware => exact ⟨hset _, hoff _⟩
  | dcd | dtr | dsr => exact setIn_refl _ _

theorem setPortFlow_value {f : OutFlow} (h : f.Unsupported → FlowOff P.settings) :
    Attribute.flow.value ((PortRequest.flow f).set P).settings =
      (PortRequest.flow f).normalised := by
  have hoff : ∀ w : tcflag_t, w &&& ~~~IXON &&& ~~~IXOFF &&& (IXON ||| IXOFF) = 0 := by
    intro w
    rw [xon_clear]
    exact clear_read _ _
  cases f with
  | none => exact congrArg UInt8.toUInt32 (outFlow_off ⟨hoff _, clear_read _ _⟩)
  | xonXoff =>
    have hon : (P.settings.c_iflag ||| IXON ||| IXOFF) &&& IXON = IXON := by
      rw [(sameBut_set _ (by decide) : SameBut IXOFF _ _).read (by decide), set_read]
    refine congrArg UInt8.toUInt32 (if_pos fun h => ?_)
    exact absurd (hon.symm.trans h) (by decide)
  | hardware =>
    have hon : P.settings.c_iflag &&& ~~~IXON &&& ~~~IXOFF &&& IXON = 0 &&& IXON :=
      read_of_read ((hoff _).trans (by decide)) (by decide)
    have hcts : (P.settings.c_cflag ||| CRTSCTS) &&& CRTSCTS = CRTSCTS := set_read _ _
    refine congrArg UInt8.toUInt32 ((if_neg fun h => h (hon.trans (by decide))).trans ?_)
    exact if_pos fun h => absurd (hcts.symm.trans h) (by decide)
  | dcd => exact congrArg UInt8.toUInt32 (outFlow_off (h (.inl rfl)))
  | dtr => exact congrArg UInt8.toUInt32 (outFlow_off (h (.inr (.inl rfl))))
  | dsr => exact congrArg UInt8.toUInt32 (outFlow_off (h (.inr (.inr rfl))))

theorem PortRequest.set_setIn (r : PortRequest) :
    r.attribute.SetIn P.settings (r.set P).settings := by
  cases r with
  | baudRate v =>
    simp only [PortRequest.set]
    split
    · exact setIn_refl _ _
    · exact (setPortSpeed_spec P v).1
  | dataSize b =>
    simp only [PortRequest.set]
    split
    · exact setIn_refl _ _
    · exact (setPortDataSize_spec P b).1
  | parity b =>
    simp only [PortRequest.set]
    split
    · exact setIn_refl _ _
    · exact (setPortParity_spec P b).1
  | stopSize b =>
    simp only [PortRequest.set]
    split
    · exact setIn_refl _ _
    · exact (setPortStopSize_spec P b).1
  | flow f => exact setPortFlow_spec P f

theorem PortRequest.set_asksPresent {r : PortRequest} (h : r.AsksPresent) : r.set P = P := by
  cases r with
  | baudRate v | dataSize b | parity b | stopSize b => exact if_pos h
  | flow f => exact h.elim

theorem PortRequest.set_value {r : PortRequest} (hpresent : ¬ r.AsksPresent)
    (hflow : ∀ f, r = .flow f → f.Unsupported → FlowOff P.settings) :
    r.attribute.value (r.set P).settings = r.normalised := by
  cases r with
  | baudRate v =>
    rw [show (PortRequest.baudRate v).set P = setPortSpeed P v from if_neg hpresent]
    exact (setPortSpeed_spec P v).2
  | dataSize b =>
    rw [show (PortRequest.dataSize b).set P = setPortDataSize P b from if_neg hpresent]
    exact (setPortDataSize_spec P b).2
  | parity b =>
    rw [show (PortRequest.parity b).set P = setPortParity P b from if_neg hpresent]
    exact (setPortParity_spec P b).2
  | stopSize b =>
    rw [show (PortRequest.stopSize b).set P = setPortStopSize P b from if_neg hpresent]
    exact (setPortStopSize_spec P b).2
  | flow f => exact setPortFlow_value P (hflow f rfl)

end

/-! ### Sequences of commands -/

/-- The state of sercd, with the value that each attribute is to have. -/
structure Tracked where
  g : Globals
  asked : Attribute → UInt32

/-- The value that is reported for each attribute. -/
def Globals.reported (g : Globals) (A : Attribute) : UInt32 := A.value g.port.settings

def Tracked.init (g : Globals) : Tracked := ⟨g, g.reported⟩

/-- The command is handled. From then on its attribute is to have the
normalised value. -/
def Tracked.step (x : Tracked) (c : PortCommand) : Except Empty Tracked :=
  .ok ⟨(cpcBranch x.g c.cmd c.CSize).1,
    update x.asked c.request.attribute c.request.normalised⟩

/-- The command confirms its normalised value, and each attribute then has the
value that it is to have. Flow control that is not supported is
disabled. -/
structure Confirms (x : Tracked) (c : PortCommand) : Prop where
  confirmed : (cpcBranch x.g c.cmd c.CSize).2 = c.request.confirmation c.request.normalised
  reported : ∀ A, (cpcBranch x.g c.cmd c.CSize).1.reported A =
    update x.asked c.request.attribute c.request.normalised A
  disabled : ∀ f, c.request = .flow f → f.Unsupported →
    FlowOff (cpcBranch x.g c.cmd c.CSize).1.port.settings

/-- The command does not ask for a present value other than the normalised one,
and flow control that is not supported is already disabled. -/
structure Supported (x : Tracked) (c : PortCommand) : Prop where
  present : c.request.AsksPresent → x.g.reported c.request.attribute = c.request.normalised
  disabled : ∀ f, c.request = .flow f → f.Unsupported → FlowOff x.g.port.settings

section
variable {x : Tracked} {c : PortCommand}

theorem Supported.value (h : Supported x c) :
    c.request.attribute.value (c.request.set x.g.port).settings = c.request.normalised := by
  by_cases hpresent : c.request.AsksPresent
  · rw [PortRequest.set_asksPresent _ hpresent]
    exact h.present hpresent
  · exact PortRequest.set_value _ hpresent h.disabled

theorem reported_step (h : Supported x c) (hx : x.asked = x.g.reported) (A : Attribute) :
    A.value (c.request.set x.g.port).settings =
      update x.asked c.request.attribute c.request.normalised A := by
  by_cases hA : A = c.request.attribute
  · rw [hA, update_self]
    exact h.value
  · rw [update_of_ne hA, hx]
    exact (PortRequest.set_setIn x.g.port c.request).value hA

theorem confirms_iff_supported (hx : x.asked = x.g.reported) : Confirms x c ↔ Supported x c := by
  have hstep := cpcBranch_request x.g c
  constructor
  · intro h
    constructor
    · intro hpresent
      have hval := h.reported c.request.attribute
      rw [hstep, update_self] at hval
      dsimp only [Globals.reported] at hval
      rwa [PortRequest.set_asksPresent _ hpresent] at hval
    · intro f hf hunsupported
      have hoff := h.disabled f hf hunsupported
      rw [hstep, hf] at hoff
      dsimp only at hoff
      rwa [setPortFlow_unsupported _ hunsupported] at hoff
  · intro h
    constructor
    · rw [hstep, h.value]
    · intro A
      rw [hstep]
      exact reported_step h hx A
    · intro f hf hunsupported
      rw [hstep, hf]
      dsimp only
      rw [setPortFlow_unsupported _ hunsupported]
      exact h.disabled f hf hunsupported

theorem tracked_step (hx : x.asked = x.g.reported) (h : Supported x c) {x' : Tracked}
    (hstep : x.step c = .ok x') : x'.asked = x'.g.reported := by
  cases hstep
  funext A
  exact ((confirms_iff_supported hx).mpr h).reported A |>.symm

end

/-- **The settings that are confirmed.** From every state and for every
sequence of commands: each command confirms its normalised value and leaves
the other attributes at the values last set for them, exactly as long as
flow control by DCD, DTR or DSR is asked for only where flow control is
disabled, and 0, which asks for the present value, only where that is the
normalised one. -/
theorem settings_confirmed_iff (g : Globals) (cs : List PortCommand) :
    Along Tracked.step Confirms (Tracked.init g) cs ↔
      Along Tracked.step Supported (Tracked.init g) cs :=
  along_iff_along_where (fun _ _ _ hx hc hstep => tracked_step hx hc hstep)
    (fun _ _ hx => confirms_iff_supported hx) rfl

def flowBytes (f : OutFlow) : Command :=
  Vector.ofFn fun i =>
    if i.val = 3 then TNCAS_SET_CONTROL else if i.val = 4 then f.code else 0

theorem flowBytes_in (f : OutFlow) : (PortRequest.flow f).In (flowBytes f) := by
  simp [PortRequest.In, flowBytes]

/-- SET-CONTROL, as a client sends it. -/
def setControl (f : OutFlow) : PortCommand := ⟨flowBytes f, 7, .flow f, flowBytes_in f⟩

/-- XON/XOFF is set. -/
def xonSet : Globals :=
  (cpcBranch (initialGlobals default) (setControl .xonXoff).cmd (setControl .xonXoff).CSize).1

/-- XON/XOFF, and then flow control by DCD: XON/XOFF is confirmed and stays
enabled. -/
theorem dcd_confirms_xon :
    (cpcBranch xonSet (setControl .dcd).cmd (setControl .dcd).CSize).2 =
        .byte TNASC_SET_CONTROL TNCOM_CMD_FLOW_XONXOFF ∧
      ¬ FlowOff (cpcBranch xonSet (setControl .dcd).cmd (setControl .dcd).CSize).1.port.settings ∧
      ¬ Along Tracked.step Confirms (Tracked.init (initialGlobals default))
        [setControl .xonXoff, setControl .dcd] := by
  have hxon : ¬ FlowOff xonSet.port.settings := by
    unfold xonSet
    rw [cpcBranch_request]
    decide
  have hdcd : ¬ FlowOff
      (cpcBranch xonSet (setControl .dcd).cmd (setControl .dcd).CSize).1.port.settings := by
    rw [cpcBranch_request]
    have hsame := setPortFlow_unsupported xonSet.port (f := .dcd) (.inl rfl)
    exact fun h => hxon (hsame ▸ h)
  refine ⟨?_, hdcd, ?_⟩
  · unfold xonSet
    rw [cpcBranch_request, cpcBranch_request]
    rfl
  · rintro ⟨-, hrest⟩
    obtain ⟨hconfirms, -⟩ := hrest ⟨xonSet, _⟩ rfl
    have hoff := hconfirms.disabled .dcd rfl (.inl rfl)
    dsimp only at hoff
    exact hdcd hoff

end Sercd
