import Cnu680.Sercd.Output

/-! # sercd: handling commands

`HandleCPCCommand` and `HandleIACCommand` of `sercd.c`.

Every branch of the two functions changes the state and sends at most
one reply. The branches are `cpcBranch` and `iacBranch`, which return
the new state and the reply, and `Reply.send` sends it. What a branch
does to the telnet state after its reply is done before it here; no
reply that a branch then sends reads what it changed.

Log messages are left out. The text of a client signature, which is only
logged, is in `Signature`.
-/

open Framework

namespace Sercd

/-- `IACCommand[]`, the command being handled. -/
abbrev Command := Vector UInt8 TmpStrLen

/-- `Command[1]`: the verb of a command. -/
abbrev Command.verb (cmd : Command) : UInt8 := cmd[1]

/-- `Command[2]`: the option it is about. -/
abbrev Command.option (cmd : Command) : UInt8 := cmd[2]

/-- `Command[3]`: the first byte of a subnegotiation. -/
abbrev Command.parm (cmd : Command) : UInt8 := cmd[3]

/-- `Command[4]`: the value it sets. -/
abbrev Command.value (cmd : Command) : UInt8 := cmd[4]

/-! ### Replies -/

/-- A reply to the client. -/
inductive Reply where
  | nothing
  | option (Command Option : UInt8)
  | signature
  | baudRate (BR : UInt32)
  | byte (Command Parm : UInt8)
  deriving DecidableEq

/-- `"sercd 3.0.0 "`. -/
def sigHead : List UInt8 := "sercd 3.0.0 ".toList.map fun c => c.toNat.toUInt8

/-- `snprintf(SigStr, sizeof(SigStr), "sercd %s %s", VERSION, DeviceName)`. -/
def sigStr (g : Globals) : CString where
  bytes := (sigHead ++ g.deviceName.bytes).take 254
  no_nul := by
    intro h
    rcases List.mem_append.mp (List.mem_of_mem_take h) with h | h
    · exact absurd h (by decide)
    · exact g.deviceName.no_nul h

def Reply.send (g : Globals) : Reply → BufM Globals
  | .nothing => return g
  | .option Command Option => do
    sendTelnetOption Command Option
    return g
  | .signature => sendSignature g (sigStr g)
  | .baudRate BR => sendBaudRate g BR
  | .byte Command Parm => sendCPCByteCommand g Command Parm

/-- The bytes of a reply. -/
def Reply.bytes (g : Globals) : Reply → List UInt8
  | .nothing => []
  | .option Command Option => [TNIAC, Command, Option]
  | .signature => cpcFrame g.isWill g.escLast TNASC_SIGNATURE (sigStr g).bytes
  | .baudRate BR => cpcFrame g.isWill g.escLast TNASC_SET_BAUDRATE (networkOrder BR)
  | .byte Command Parm => cpcFrame g.isWill g.escLast Command [Parm]

/-- The last byte that `EscWriteChar` has written after a reply. -/
def Reply.last (g : Globals) : Reply → UInt8
  | .nothing => g.escLast
  | .option _ _ => g.escLast
  | .signature => (sigStr g).bytes.getLastD g.escLast
  | .baudRate BR => BR.toUInt8
  | .byte _ Parm => Parm

/-! ### Com Port Control commands -/

/-- A 32-bit word from four bytes in network order (`ntohl`). -/
def ntohl (b₀ b₁ b₂ b₃ : UInt8) : UInt32 :=
  b₀.toUInt32 <<< 24 ||| b₁.toUInt32 <<< 16 ||| b₂.toUInt32 <<< 8 ||| b₃.toUInt32

/-- `Command[4]` to `Command[7]`: the baud rate it sets. -/
abbrev Command.rate (cmd : Command) : UInt32 := ntohl cmd[4] cmd[5] cmd[6] cmd[7]

/-- Flow control and DTR/RTS handling. -/
def controlBranch (g : Globals) (Parm : UInt8) : Globals × Reply :=
  if Parm = TNCOM_CMD_FLOW_REQ ∨ Parm = TNCOM_CMD_DTR_REQ ∨ Parm = TNCOM_CMD_RTS_REQ ∨
      Parm = TNCOM_CMD_INFLOW_REQ then
    -- Client is asking for current flow control or DTR/RTS status
    let (FlowControl, port) := getPortFlowControl g.port Parm
    ({ g with port := port }, .byte TNASC_SET_CONTROL FlowControl)
  else if Parm = TNCOM_CMD_BREAK_REQ then
    (g, .byte TNASC_SET_CONTROL
      (if g.breakSignaled then TNCOM_CMD_BREAK_ON else TNCOM_CMD_BREAK_OFF))
  else if Parm = TNCOM_CMD_BREAK_ON then
    ({ g with port := setBreak g.port true, breakSignaled := true },
      .byte TNASC_SET_CONTROL TNCOM_CMD_BREAK_ON)
  else if Parm = TNCOM_CMD_BREAK_OFF then
    ({ g with port := setBreak g.port false, breakSignaled := false },
      .byte TNASC_SET_CONTROL TNCOM_CMD_BREAK_OFF)
  else
    let port := setPortFlowControl g.port Parm
    if g.ciscoIOSCompatible ∧ TNCOM_CMD_INFLOW_REQ ≤ Parm ∧ Parm ≤ TNCOM_CMD_INFLOW_HARDWARE then
      -- INBOUND not supported separately, following Cisco IOS 11.3
      ({ g with port := port }, .byte TNASC_SET_CONTROL 0)
    else
      let (FlowControl, port) := getPortFlowControl port TNCOM_CMD_FLOW_REQ
      ({ g with port := port }, .byte TNASC_SET_CONTROL FlowControl)

/-- The branches of `HandleCPCCommand`. -/
def cpcBranch (g : Globals) (cmd : Command) (CSize : Nat) : Globals × Reply :=
  if cmd[3] = TNCAS_SIGNATURE then
    -- A void signature asks for ours
    if CSize = 6 then (g, .signature) else (g, .nothing)
  else if cmd[3] = TNCAS_SET_BAUDRATE then
    let BaudRate := ntohl cmd[4] cmd[5] cmd[6] cmd[7]
    let port := if BaudRate = 0 then g.port else setPortSpeed g.port BaudRate
    ({ g with port := port }, .baudRate (getPortSpeed port))
  else if cmd[3] = TNCAS_SET_DATASIZE then
    let port := if cmd[4] = 0 then g.port else setPortDataSize g.port cmd[4]
    ({ g with port := port }, .byte TNASC_SET_DATASIZE (getPortDataSize port))
  else if cmd[3] = TNCAS_SET_PARITY then
    let port := if cmd[4] = 0 then g.port else setPortParity g.port cmd[4]
    ({ g with port := port }, .byte TNASC_SET_PARITY (getPortParity port))
  else if cmd[3] = TNCAS_SET_STOPSIZE then
    let port := if cmd[4] = 0 then g.port else setPortStopSize g.port cmd[4]
    ({ g with port := port }, .byte TNASC_SET_STOPSIZE (getPortStopSize port))
  else if cmd[3] = TNCAS_SET_CONTROL then
    controlBranch g cmd[4]
  else if cmd[3] = TNCAS_SET_LINESTATE_MASK then
    -- Only break notification supported
    ({ g with lineStateMask := cmd[4] &&& 16 }, .byte TNASC_SET_LINESTATE_MASK (cmd[4] &&& 16))
  else if cmd[3] = TNCAS_SET_MODEMSTATE_MASK then
    ({ g with modemStateMask := cmd[4] }, .byte TNASC_SET_MODEMSTATE_MASK cmd[4])
  else if cmd[3] = TNCAS_PURGE_DATA then
    ({ g with port := setFlush g.port cmd[4] }, .byte TNASC_PURGE_DATA cmd[4])
  else if cmd[3] = TNCAS_FLOWCONTROL_SUSPEND then
    ({ g with inputFlow := false }, .nothing)
  else if cmd[3] = TNCAS_FLOWCONTROL_RESUME then
    ({ g with inputFlow := true }, .nothing)
  else (g, .nothing)

abbrev handleCPCCommand_bytes : UInt32 :=
  max sendSignature_bytes (max sendBaudRate_bytes sendCPCByteCommand_bytes)

/-- Handling of COM Port Control specific commands. -/
def handleCPCCommand (g : Globals) (cmd : Command) (CSize : Nat) : BufM Globals :=
  (cpcBranch g cmd CSize).2.send (cpcBranch g cmd CSize).1

/-! ### Telnet commands -/

/-- The options `sercd` agrees to. -/
def Agreed (o : UInt8) : Prop :=
  o = TNCOM_PORT_OPTION ∨ o = TN_TRANSMIT_BINARY ∨ o = TN_ECHO ∨ o = TN_SUPPRESS_GO_AHEAD

instance (o : UInt8) : Decidable (Agreed o) := by
  unfold Agreed
  infer_instance

/-- WILL: a request for an option. -/
def willBranch (g : Globals) (o : UInt8) : Globals × Reply :=
  if Agreed o then
    let g := if o = TNCOM_PORT_OPTION then { g with portControlEnable := true } else g
    (g.setTn o fun t => { t with is_do := true, sent_do := false, sent_dont := false },
      if (g.tnstate o).sent_do then .nothing else .option TNDO o)
  else
    (g.setTn o fun t => { t with is_do := false, sent_do := false, sent_dont := false },
      .option TNDONT o)

/-- DO: a confirmation for an option. -/
def doBranch (g : Globals) (o : UInt8) : Globals × Reply :=
  if Agreed o then
    let g := if o = TNCOM_PORT_OPTION then { g with portControlEnable := true } else g
    (g.setTn o fun t => { t with is_will := true, sent_will := false, sent_wont := false },
      if (g.tnstate o).sent_will then .nothing else .option TNWILL o)
  else
    (g.setTn o fun t => { t with is_will := false, sent_will := false, sent_wont := false },
      .option TNWONT o)

/-- DONT: a rejection of what we would do. -/
def dontBranch (g : Globals) (o : UInt8) : Globals × Reply :=
  (g.setTn o fun t => { t with is_will := false, sent_will := false, sent_wont := false },
    if (g.tnstate o).is_will then .option TNWONT o else .nothing)

/-- WONT: a rejection of what we asked for. -/
def wontBranch (g : Globals) (o : UInt8) : Globals × Reply :=
  (g.setTn o fun t => { t with is_do := false, sent_do := false, sent_dont := false },
    if (g.tnstate o).is_do then .option TNDONT o else .nothing)

/-- The branches of `HandleIACCommand`. -/
def iacBranch (g : Globals) (cmd : Command) (CSize : Nat) : Globals × Reply :=
  if cmd[1] = TNSB then
    -- Suboptions of an option not agreed on, and unknown ones, are ignored
    if ¬ ((g.tnstate cmd[2]).is_will ∨ (g.tnstate cmd[2]).is_do) then (g, .nothing)
    else if cmd[2] = TNCOM_PORT_OPTION then cpcBranch g cmd CSize
    else (g, .nothing)
  else if cmd[1] = TNWILL then willBranch g cmd[2]
  else if cmd[1] = TNDO then doBranch g cmd[2]
  else if cmd[1] = TNDONT then dontBranch g cmd[2]
  else if cmd[1] = TNWONT then wontBranch g cmd[2]
  else (g, .nothing)

abbrev handleIACCommand_bytes : UInt32 := max handleCPCCommand_bytes sendTelnetOption_bytes

/-- Common telnet IAC commands handling. -/
def handleIACCommand (g : Globals) (cmd : Command) (CSize : Nat) : BufM Globals :=
  (iacBranch g cmd CSize).2.send (iacBranch g cmd CSize).1

/-! ### What a reply writes -/

variable {g : Globals} {c : Prop} {x y : Globals × Reply}

theorem sigStr_length (g : Globals) : (sigStr g).strlen ≤ 254 := by
  simp only [CString.strlen, sigStr, List.length_take]
  omega

theorem Reply.send_emits (g : Globals) (r : Reply) :
    Emits addToBuffer (r.send g) { g with escLast := r.last g } (r.bytes g) := by
  have hsig := sigStr_length g
  match r with
  | .nothing => exact Emits.pure g
  | .option Command Option => exact (sendTelnetOption_emits Command Option).bind (Emits.pure g)
  | .signature => exact sendSignature_emits g _ (by omega)
  | .baudRate BR => exact sendBaudRate_emits g BR
  | .byte Command Parm => exact sendCPCByteCommand_emits g Command Parm

theorem Reply.bytes_length (g : Globals) (r : Reply) : (r.bytes g).length ≤ 514 := by
  match r with
  | .nothing | .option _ _ => simp [Reply.bytes]
  | .signature =>
    have h := cpcFrame_length g.isWill g.escLast TNASC_SIGNATURE (sigStr g).bytes
    have hsig := sigStr_length g
    simp only [CString.strlen] at hsig
    simp only [Reply.bytes]
    omega
  | .baudRate BR =>
    have h := cpcFrame_length g.isWill g.escLast TNASC_SET_BAUDRATE (networkOrder BR)
    simp only [networkOrder, List.length_cons, List.length_nil] at h
    simp only [Reply.bytes, networkOrder]
    omega
  | .byte Command Parm =>
    have h := cpcFrame_length g.isWill g.escLast Command [Parm]
    simp only [List.length_cons, List.length_nil] at h
    simp only [Reply.bytes]
    omega

/-! ### What a command leaves alone -/

/-- What no command changes: the command line, the parser, the modem state,
the last byte written, and what `closePort` will restore. Port control
is never disabled. -/
structure Globals.Kept (g g' : Globals) : Prop where
  ciscoIOSCompatible : g'.ciscoIOSCompatible = g.ciscoIOSCompatible
  deviceName : g'.deviceName = g.deviceName
  parser : g'.parser = g.parser
  modemState : g'.modemState = g.modemState
  escLast : g'.escLast = g.escLast
  initial : g'.port.initial = g.port.initial
  portControlEnable : g.portControlEnable = true → g'.portControlEnable = true

/-- What no Com Port Control command changes: all that, and the telnet
state. -/
structure Globals.KeptByCPC (g g' : Globals) : Prop extends g.Kept g' where
  tnstate : g'.tnstate = g.tnstate

theorem Globals.Kept.refl (g : Globals) : g.Kept g :=
  ⟨rfl, rfl, rfl, rfl, rfl, rfl, fun h => h⟩

/-- A change to what commands may change and to the port, which keeps what
`closePort` will restore. -/
theorem keptByCPC_mk {P : Port} (modemStateMask lineStateMask : UInt8)
    (breakSignaled inputFlow : Bool) (h : P.initial = g.port.initial) :
    g.KeptByCPC { g with
      port := P, modemStateMask := modemStateMask, lineStateMask := lineStateMask,
      breakSignaled := breakSignaled, inputFlow := inputFlow } :=
  ⟨⟨rfl, rfl, rfl, rfl, rfl, h, fun h => h⟩, rfl⟩

theorem branch_ite {P : Globals → Prop} [Decidable c] (hx : P x.1)
    (hy : P y.1) : P (if c then x else y).1 :=
  iteInduction (motive := fun r : Globals × Reply => P r.1) (fun _ => hx) fun _ => hy

theorem keptByCPC_ite [Decidable c] (hx : g.KeptByCPC x.1)
    (hy : g.KeptByCPC y.1) : g.KeptByCPC (if c then x else y).1 :=
  branch_ite hx hy

theorem kept_ite [Decidable c] (hx : g.Kept x.1) (hy : g.Kept y.1) :
    g.Kept (if c then x else y).1 :=
  branch_ite hx hy

theorem setBreak_initial (P : Port) (on : Bool) : (setBreak P on).initial = P.initial := by
  unfold setBreak
  split <;> rfl

theorem setFlush_initial (P : Port) (selector : UInt8) :
    (setFlush P selector).initial = P.initial := by
  unfold setFlush
  split <;> rfl

theorem controlBranch_kept (g : Globals) (Parm : UInt8) : g.KeptByCPC (controlBranch g Parm).1 := by
  refine keptByCPC_ite ?query (keptByCPC_ite ?breakQuery (keptByCPC_ite ?breakOn
    (keptByCPC_ite ?breakOff (keptByCPC_ite ?cisco ?set))))
  case breakOn => exact keptByCPC_mk _ _ _ _ (setBreak_initial g.port true)
  case breakOff => exact keptByCPC_mk _ _ _ _ (setBreak_initial g.port false)
  case query | breakQuery | cisco | set => exact keptByCPC_mk _ _ _ _ rfl

theorem cpcBranch_kept (g : Globals) (cmd : Command) (CSize : Nat) :
    g.KeptByCPC (cpcBranch g cmd CSize).1 := by
  have hself : g.KeptByCPC g := keptByCPC_mk _ _ _ _ rfl
  refine keptByCPC_ite ?signature (keptByCPC_ite ?baudRate (keptByCPC_ite ?dataSize
    (keptByCPC_ite ?parity (keptByCPC_ite ?stopSize (keptByCPC_ite ?control
    (keptByCPC_ite ?lineMask (keptByCPC_ite ?modemMask (keptByCPC_ite ?purge
    (keptByCPC_ite ?suspend (keptByCPC_ite ?resume hself))))))))))
  case signature => exact keptByCPC_ite hself hself
  case baudRate | dataSize | parity | stopSize =>
    exact keptByCPC_mk _ _ _ _ (by split <;> rfl)
  case control => exact controlBranch_kept g _
  case lineMask | modemMask | suspend | resume => exact keptByCPC_mk _ _ _ _ rfl
  case purge => exact keptByCPC_mk _ _ _ _ (setFlush_initial g.port _)

theorem kept_enable (g : Globals) (o : UInt8) :
    g.Kept (if o = TNCOM_PORT_OPTION then { g with portControlEnable := true } else g) :=
  iteInduction (motive := g.Kept) (fun _ => ⟨rfl, rfl, rfl, rfl, rfl, rfl, fun _ => rfl⟩)
    fun _ => Globals.Kept.refl g

theorem iacBranch_kept (g : Globals) (cmd : Command) (CSize : Nat) :
    g.Kept (iacBranch g cmd CSize).1 := by
  have hself := Globals.Kept.refl g
  refine kept_ite ?sb (kept_ite ?will (kept_ite ?doOpt (kept_ite ?dont (kept_ite ?wont hself))))
  case sb => exact kept_ite hself (kept_ite (cpcBranch_kept g cmd CSize).toKept hself)
  case will | doOpt =>
    have h := kept_enable g cmd[2]
    exact kept_ite { h with } { hself with }
  case dont | wont => exact { hself with }

/-! ### What a request does to the flags -/

/-- The flags of an option after a request for it. -/
def TnState.after (t : TnState) (verb o : UInt8) : TnState :=
  if verb = TNWILL then { t with is_do := decide (Agreed o), sent_do := false, sent_dont := false }
  else if verb = TNDO then
    { t with is_will := decide (Agreed o), sent_will := false, sent_wont := false }
  else if verb = TNDONT then { t with is_will := false, sent_will := false, sent_wont := false }
  else if verb = TNWONT then { t with is_do := false, sent_do := false, sent_dont := false }
  else t

section
variable (g : Globals) (o o' : UInt8)

theorem tnstate_enable (o : UInt8) :
    (if o = TNCOM_PORT_OPTION then { g with portControlEnable := true } else g).tnstate =
      g.tnstate := by
  split <;> rfl

theorem setTn_tnstate (f : TnState → TnState) :
    (g.setTn o f).tnstate o' = if o' = o then f (g.tnstate o) else g.tnstate o' := rfl

theorem willBranch_tnstate : (willBranch g o).1.tnstate o' =
    if o' = o then (g.tnstate o).after TNWILL o else g.tnstate o' := by
  unfold willBranch
  split
  · next h =>
    dsimp only
    rw [setTn_tnstate, tnstate_enable]
    simp [TnState.after, h]
  · next h =>
    dsimp only
    rw [setTn_tnstate]
    simp [TnState.after, h]

theorem doBranch_tnstate : (doBranch g o).1.tnstate o' =
    if o' = o then (g.tnstate o).after TNDO o else g.tnstate o' := by
  have hne : TNDO ≠ TNWILL := by decide
  unfold doBranch
  split
  · next h =>
    dsimp only
    rw [setTn_tnstate, tnstate_enable]
    simp [TnState.after, hne, h]
  · next h =>
    dsimp only
    rw [setTn_tnstate]
    simp [TnState.after, hne, h]

/-- The flags after a command: only those of its option change, and only by
the four verbs. -/
theorem iacBranch_tnstate (cmd : Command) (CSize : Nat) :
    (iacBranch g cmd CSize).1.tnstate o' =
      if o' = cmd[2] then (g.tnstate cmd[2]).after cmd[1] cmd[2] else g.tnstate o' := by
  have hself : (g.tnstate o') = if o' = cmd[2] then g.tnstate cmd[2] else g.tnstate o' := by
    split
    · next h => rw [h]
    · rfl
  unfold iacBranch
  by_cases hsb : cmd[1] = TNSB
  · -- a subnegotiation is none of the four verbs
    rw [if_pos hsb, hsb]
    have hkeep : (g.tnstate cmd[2]).after TNSB cmd[2] = g.tnstate cmd[2] := rfl
    rw [hkeep, ← hself]
    refine branch_ite (P := (·.tnstate o' = g.tnstate o')) rfl
      (branch_ite (P := (·.tnstate o' = g.tnstate o')) ?_ rfl)
    rw [(cpcBranch_kept g cmd CSize).tnstate]
  rw [if_neg hsb]
  by_cases hwill : cmd[1] = TNWILL
  · rw [if_pos hwill, hwill, willBranch_tnstate]
  rw [if_neg hwill]
  by_cases hdo : cmd[1] = TNDO
  · rw [if_pos hdo, hdo, doBranch_tnstate]
  rw [if_neg hdo]
  by_cases hdont : cmd[1] = TNDONT
  · rw [if_pos hdont, hdont]
    rfl
  rw [if_neg hdont]
  by_cases hwont : cmd[1] = TNWONT
  · rw [if_pos hwont, hwont]
    rfl
  · rw [if_neg hwont]
    have hkeep : (g.tnstate cmd[2]).after cmd[1] cmd[2] = g.tnstate cmd[2] := by
      simp only [TnState.after, if_neg hwill, if_neg hdo, if_neg hdont, if_neg hwont]
    rw [hkeep, ← hself]

end

/-! ### The binary mode -/

/-- Whether we receive in binary mode after the command `c` for option
`o`. -/
def modeAfter (binary : Bool) (c o : UInt8) : Bool :=
  if c = TNWILL ∧ o = TN_TRANSMIT_BINARY then true
  else if c = TNWONT ∧ o = TN_TRANSMIT_BINARY then false
  else binary

theorem modeAfter_of_ne (binary : Bool) {c : UInt8} (hwill : c ≠ TNWILL) (hwont : c ≠ TNWONT)
    (o : UInt8) : modeAfter binary c o = binary := by
  simp only [modeAfter, hwill, hwont, false_and, if_false]

theorem iacBranch_isDo (g : Globals) (cmd : Command) (CSize : Nat) :
    (iacBranch g cmd CSize).1.isDo = modeAfter g.isDo cmd[1] cmd[2] := by
  show ((iacBranch g cmd CSize).1.tnstate TN_TRANSMIT_BINARY).is_do = _
  rw [iacBranch_tnstate]
  unfold modeAfter
  by_cases ho : cmd[2] = TN_TRANSMIT_BINARY
  · have hwont : TNWONT ≠ TNDO ∧ TNWONT ≠ TNDONT := by decide
    rw [ho, if_pos rfl]
    unfold TnState.after
    split_ifs <;> simp_all [Globals.isDo, Agreed]
  · rw [if_neg (Ne.symm ho), if_neg (fun h => ho h.2), if_neg (fun h => ho h.2)]
    rfl

end Sercd
