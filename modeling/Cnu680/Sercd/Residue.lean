import Cnu680.Sercd.Relay

/-! # sercd: what a client can see of the state

Not all of the state that a session leaves behind can be seen in the
next one. `Parser.Alike` and `Globals.Alike` relate states that treat
every byte to come in the same way:

* the bytes of `IACCommand[]` beyond the position of insertion are never
  read, and outside a command none of it is;
* of the two last bytes it only matters whether they were a CR;
* of `ModemState` only the four lines are compared;
* `LineStateMask` and the calls made to the device are never read.

The commands themselves are compared through `Globals.overlay`: replace
what they do not read, and they do the same to the rest.
-/

open Framework

namespace Sercd

/-! ### The command being received -/

/-- The first `n` bytes of two commands are the same. -/
def SameUpTo (n : Nat) (cmd cmd' : Command) : Prop :=
  ∀ k (hk : k < TmpStrLen), k < n → cmd[k] = cmd'[k]

variable {n : Nat} {cmd cmd' : Command}

theorem SameUpTo.set (h : SameUpTo n cmd cmd') (C : UInt8)
    (hn : n < TmpStrLen) : SameUpTo (n + 1) (cmd.set n C hn) (cmd'.set n C hn) := by
  intro k hk hlt
  by_cases hkn : k = n
  · subst hkn
    simp
  · rw [Vector.getElem_set_ne _ _ (by omega), Vector.getElem_set_ne _ _ (by omega)]
    exact h k hk (by omega)

/-- A command of the size that `EscRedirectChar` waits for. -/
structure Whole (cmd : Command) (n : Nat) : Prop where
  three_le : 3 ≤ n
  sub : cmd[1] = TNSB → 4 ≤ n
  counted : cmd[1] = TNSB → cmd[3] ≠ TNCAS_SIGNATURE → n = subSize cmd[3]

theorem cpcBranch_congr (g : Globals) (h : SameUpTo n cmd cmd')
    (h4 : 4 ≤ n) (hn : cmd[3] ≠ TNCAS_SIGNATURE → n = subSize cmd[3]) :
    cpcBranch g cmd n = cpcBranch g cmd' n := by
  have h3 : cmd[3] = cmd'[3] := h 3 (by decide) (by omega)
  -- the parameter of a command that has one
  have hparm : ∀ x, cmd[3] = x → x ≠ TNCAS_SIGNATURE → 7 ≤ subSize x → cmd[4] = cmd'[4] := by
    intro x hx hsig hsize
    have hn' := hn (hx ▸ hsig)
    rw [hx] at hn'
    exact h 4 (by decide) (by omega)
  unfold cpcBranch
  rw [← h3]
  refine ite_congr rfl (fun _ => rfl) fun _ => ite_congr rfl (fun hc => ?baud) fun _ =>
    ite_congr rfl (fun hc => ?size) fun _ => ite_congr rfl (fun hc => ?parity) fun _ =>
    ite_congr rfl (fun hc => ?stop) fun _ => ite_congr rfl (fun hc => ?control) fun _ =>
    ite_congr rfl (fun hc => ?line) fun _ => ite_congr rfl (fun hc => ?modem) fun _ =>
    ite_congr rfl (fun hc => ?purge) fun _ => rfl
  case baud =>
    have hn' : n = 10 := by
      rw [hn (hc ▸ by decide), hc]
      rfl
    rw [h 4 (by decide) (by omega), h 5 (by decide) (by omega), h 6 (by decide) (by omega),
      h 7 (by decide) (by omega)]
  all_goals rw [hparm _ hc (by decide) (by decide)]

theorem iacBranch_congr (g : Globals) (h : SameUpTo n cmd cmd')
    (hw : Whole cmd n) : iacBranch g cmd n = iacBranch g cmd' n := by
  have hn := hw.three_le
  have h1 : cmd[1] = cmd'[1] := h 1 (by decide) (by omega)
  have h2 : cmd[2] = cmd'[2] := h 2 (by decide) (by omega)
  unfold iacBranch
  rw [← h1, ← h2]
  refine ite_congr rfl (fun hsb => ?_) fun _ => rfl
  rw [cpcBranch_congr g h (hw.sub hsb) (hw.counted hsb)]

/-! ### The parser -/

/-- The parsers are in the same status, and have stored the same bytes of a
command. -/
structure Parser.InStep (p q : Parser) : Prop where
  iacEscape : p.iacEscape = q.iacEscape
  iacSigEscape : p.iacEscape = .IACComReceiving → p.iacSigEscape = q.iacSigEscape
  iacPos : p.iacEscape = .IACComReceiving → p.iacPos = q.iacPos
  two_le : p.iacEscape = .IACComReceiving → 2 ≤ p.iacPos
  stored : p.iacEscape = .IACComReceiving → SameUpTo p.iacPos p.iacCommand q.iacCommand

/-- The parsers treat every byte to come in the same way. -/
structure Parser.Alike (p q : Parser) : Prop extends p.InStep q where
  last : p.last = 0x0D ↔ q.last = 0x0D

/-- The same is to be done with a byte. -/
inductive Action.Alike : Action → Action → Prop
  | nothing : Action.Alike .nothing .nothing
  | toDevice (C : UInt8) : Action.Alike (.toDevice C) (.toDevice C)
  | handle {cmd cmd' : Command} {n : Nat} (h : SameUpTo n cmd cmd') (hw : Whole cmd n) :
    Action.Alike (.handle cmd n) (.handle cmd' n)

section
variable {p q : Parser}

theorem Parser.inStep_of_ne (h : p.iacEscape = q.iacEscape) (hne : p.iacEscape ≠ .IACComReceiving) :
    p.InStep q :=
  ⟨h, fun hc => absurd hc hne, fun hc => absurd hc hne, fun hc => absurd hc hne,
    fun hc => absurd hc hne⟩

theorem Parser.inStep_of_stored {e : IACState} (hp : p.iacEscape = e) (hq : q.iacEscape = e)
    (hsig : p.iacSigEscape = q.iacSigEscape) (hpos : p.iacPos = q.iacPos) (htwo : 2 ≤ p.iacPos)
    (hstored : SameUpTo p.iacPos p.iacCommand q.iacCommand) : p.InStep q :=
  ⟨hp.trans hq.symm, fun _ => hsig, fun _ => hpos, fun _ => htwo, fun _ => hstored⟩

theorem Parser.store_agree (h : p.InStep q) (hcom : p.iacEscape = .IACComReceiving) (C : UInt8) :
    Agree (fun p' q' => p'.InStep q' ∧ p'.iacEscape = .IACComReceiving ∧
        p'.iacPos = p.iacPos + 1 ∧ p'.iacCommand[1] = p.iacCommand[1] ∧
        (4 ≤ p.iacPos → p'.iacCommand[3] = p.iacCommand[3]))
      (p.store C) (q.store C) := by
  have hpos := h.iacPos hcom
  have htwo := h.two_le hcom
  unfold Parser.store
  by_cases hlt : p.iacPos < TmpStrLen
  · have hlt' : q.iacPos < TmpStrLen := hpos ▸ hlt
    rw [dif_pos hlt, dif_pos hlt']
    -- one byte more is the same, and those before it stay
    have hset := (h.stored hcom).set C hlt
    refine .ok ⟨?_, hcom, rfl, ?_, ?_⟩
    · refine Parser.inStep_of_stored hcom (h.iacEscape ▸ hcom) (h.iacSigEscape hcom) ?_ ?_ ?_
      · exact congrArg (· + 1) hpos
      · show 2 ≤ p.iacPos + 1
        omega
      · simp only [hpos] at hset ⊢
        exact hset
    · exact Vector.getElem_set_ne hlt (by decide) (by omega)
    · intro h4
      exact Vector.getElem_set_ne hlt (by decide) (by omega)
  · have hlt' : ¬ q.iacPos < TmpStrLen := hpos ▸ hlt
    rw [dif_neg hlt, dif_neg hlt']
    exact .error _

theorem Parser.storeIfRoom_inStep (h : p.InStep q) (hcom : p.iacEscape = .IACComReceiving)
    (C : UInt8) : (p.storeIfRoom C).InStep (q.storeIfRoom C) := by
  have hpos := h.iacPos hcom
  unfold Parser.storeIfRoom
  by_cases hlt : p.iacPos < TmpStrLen
  · have hlt' : q.iacPos < TmpStrLen := hpos ▸ hlt
    rw [dif_pos hlt, dif_pos hlt']
    have hset := (h.stored hcom).set C hlt
    refine Parser.inStep_of_stored hcom (h.iacEscape ▸ hcom) (h.iacSigEscape hcom) ?_ ?_ ?_
    · exact congrArg (· + 1) hpos
    · exact Nat.le_succ_of_le (h.two_le hcom)
    · simp only [hpos] at hset ⊢
      exact hset
  · have hlt' : ¬ q.iacPos < TmpStrLen := hpos ▸ hlt
    rw [dif_neg hlt, dif_neg hlt']
    exact h

theorem Parser.complete_alike (h : p.InStep q) (hcom : p.iacEscape = .IACComReceiving)
    (hw : Whole p.iacCommand p.iacPos) :
    p.complete.1.InStep q.complete.1 ∧ p.complete.2.Alike q.complete.2 := by
  refine ⟨Parser.inStep_of_ne rfl (by simp [Parser.complete]), ?_⟩
  show Action.Alike (.handle p.iacCommand p.iacPos) (.handle q.iacCommand q.iacPos)
  rw [← h.iacPos hcom]
  exact .handle (h.stored hcom) hw

/-- What is done with a byte, and the parser after it, for two parsers. -/
abbrev Parser.Outcome (x y : Parser × Action) : Prop := x.1.InStep y.1 ∧ x.2.Alike y.2

theorem parseCounted_alike (h : p.InStep q) (hcom : p.iacEscape = .IACComReceiving)
    (C : UInt8) (hw : ∀ cmd : Command, cmd[1] = p.iacCommand[1] →
      (4 ≤ p.iacPos → cmd[3] = p.iacCommand[3]) → Whole cmd n) :
    Agree Parser.Outcome (parseCounted n p C) (parseCounted n q C) := by
  apply (Parser.store_agree h hcom C).bind
  intro p' q' hstore
  obtain ⟨hstep, hcom', -, h1, h3⟩ := hstore
  rw [← hstep.iacPos hcom']
  by_cases hn : p'.iacPos = n
  · rw [if_pos hn, if_pos hn]
    exact .ok (Parser.complete_alike hstep hcom' (hn ▸ hw _ h1 h3))
  · rw [if_neg hn, if_neg hn]
    exact .ok ⟨hstep, .nothing⟩

theorem Parser.whole_signature (h4 : 4 ≤ p.iacPos) (hsig : p.iacCommand[3] = TNCAS_SIGNATURE)
    (C : UInt8) :
    Whole ((p.storeIfRoom TNIAC).storeIfRoom C).iacCommand
      ((p.storeIfRoom TNIAC).storeIfRoom C).iacPos := by
  have hgrow : ∀ (p : Parser) (C : UInt8), p.iacPos ≤ (p.storeIfRoom C).iacPos := by
    intro p C
    unfold Parser.storeIfRoom
    split
    · exact Nat.le_succ _
    · exact Nat.le_refl _
  have hpos : 4 ≤ (p.storeIfRoom TNIAC).iacPos := Nat.le_trans h4 (hgrow p TNIAC)
  have hpos' := Nat.le_trans hpos (hgrow (p.storeIfRoom TNIAC) C)
  refine ⟨by omega, fun _ => hpos', fun _ hne => absurd ?_ hne⟩
  rw [Parser.storeIfRoom_get (by decide) (by omega), Parser.storeIfRoom_get (by decide) (by omega)]
  exact hsig

theorem parseSignature_alike (h : p.InStep q) (hcom : p.iacEscape = .IACComReceiving)
    (h4 : 4 ≤ p.iacPos) (hsig : p.iacCommand[3] = TNCAS_SIGNATURE) (C : UInt8) :
    Parser.Outcome (parseSignature p C) (parseSignature q C) := by
  have hstore := Parser.storeIfRoom_inStep h hcom
  have hcom' : ∀ C, (p.storeIfRoom C).iacEscape = .IACComReceiving := by
    intro C
    rw [Parser.storeIfRoom_iacEscape, hcom]
  unfold parseSignature
  rw [← h.iacSigEscape hcom]
  match p.iacSigEscape with
  | .IACNormal =>
    dsimp only
    split
    · exact ⟨{ h with iacSigEscape := fun _ => rfl }, .nothing⟩
    · exact ⟨hstore C, .nothing⟩
  | .IACComReceiving => exact ⟨{ h with iacSigEscape := fun _ => rfl }, .nothing⟩
  | .IACReceived =>
    dsimp only
    split
    · exact ⟨{ hstore C with iacSigEscape := fun _ => rfl }, .nothing⟩
    · -- IAC and another byte: the signature is complete
      have hlast := Parser.storeIfRoom_inStep (hstore TNIAC) (hcom' TNIAC) C
      refine Parser.complete_alike hlast ?_ (Parser.whole_signature h4 hsig C)
      rw [Parser.storeIfRoom_iacEscape, hcom']

theorem parseByte_alike (h : p.Alike q) (binary : Bool) (C : UInt8) :
    Agree Parser.Outcome (parseByte binary p C) (parseByte binary q C) := by
  unfold parseByte
  rw [← h.iacEscape]
  match hesc : p.iacEscape with
  | .IACNormal =>
    have hsame : p.InStep q := h.toInStep
    apply Agree.ite Iff.rfl
    · intro _
      exact .ok ⟨Parser.inStep_of_ne rfl nofun, .nothing⟩
    intro _
    apply Agree.ite (by rw [h.last])
    · intro _
      exact .ok ⟨hsame, .nothing⟩
    · intro _
      exact .ok ⟨hsame, .toDevice C⟩
  | .IACReceived =>
    apply Agree.ite Iff.rfl
    · intro _
      exact .ok ⟨Parser.inStep_of_ne rfl nofun, .toDevice C⟩
    intro _
    -- the first two bytes of a command are stored over whatever was there
    refine .ok ⟨Parser.inStep_of_stored rfl rfl rfl rfl (Nat.le_refl 2) ?_, .nothing⟩
    have hnone : SameUpTo 0 p.iacCommand q.iacCommand := fun k _ hk => absurd hk (Nat.not_lt_zero k)
    exact (hnone.set TNIAC (by decide)).set C (by decide)
  | .IACComReceiving =>
    have hstored := h.stored hesc
    have htwo := h.two_le hesc
    have hpos := h.iacPos hesc
    have h1 : p.iacCommand[1] = q.iacCommand[1] := hstored 1 (by decide) (by omega)
    apply Agree.ite (by rw [h1])
    · intro _
      apply Agree.ite (by rw [hpos])
      · intro hlt
        apply (Parser.store_agree h.toInStep hesc C).bind
        intro p' q' hstore
        exact .ok ⟨hstore.1, .nothing⟩
      intro hge
      have h4 : 4 ≤ p.iacPos := by omega
      have h3 : p.iacCommand[3] = q.iacCommand[3] := hstored 3 (by decide) (by omega)
      apply Agree.ite (by rw [h3])
      · intro hsig
        exact .ok (parseSignature_alike h.toInStep hesc h4 (h3.trans hsig) C)
      intro hcounted
      rw [← h3]
      apply parseCounted_alike h.toInStep hesc C
      intro cmd hc1 hc3
      have hsize := subSize_bounds p.iacCommand[3]
      refine ⟨by omega, fun _ => by omega, fun _ _ => ?_⟩
      rw [hc3 h4]
    · intro hopt
      rw [← h1] at hopt
      apply parseCounted_alike h.toInStep hesc C
      intro cmd hc1 _
      refine ⟨Nat.le_refl 3, fun hsb => ?_, fun hsb => ?_⟩
      · exact absurd (hc1 ▸ hsb) hopt
      · exact absurd (hc1 ▸ hsb) hopt

/-- **Parsers that are alike do the same with every byte, and stay alike.** -/
theorem parse_alike (h : p.Alike q) (binary : Bool) (C : UInt8) :
    Agree (fun x y => x.1.Alike y.1 ∧ x.2.Alike y.2) (parse binary p C) (parse binary q C) := by
  apply (parseByte_alike h binary C).bind
  intro x y hxy
  exact .ok ⟨⟨{ hxy.1 with }, Iff.rfl⟩, hxy.2⟩

end

/-! ### What commands do not read -/

/-- `g`, with what no command reads taken from `h`. -/
def Globals.overlay (g h : Globals) : Globals :=
  { g with
    parser := h.parser
    lineStateMask := h.lineStateMask
    modemState := h.modemState
    escLast := h.escLast
    port := { g.port with calls := h.port.calls } }

/-- Two results of a command differ in nothing but what no command reads. -/
def SameCommand (x y : Globals × Reply) : Prop := x = (y.1.overlay x.1, y.2)

theorem sameCommand_ite {c : Prop} [Decidable c] {x y x' y' : Globals × Reply}
    (hx : SameCommand x x') (hy : SameCommand y y') :
    SameCommand (if c then x else y) (if c then x' else y') := by
  by_cases hc : c
  · rwa [if_pos hc, if_pos hc]
  · rwa [if_neg hc, if_neg hc]

section
variable (g h : Globals)

theorem controlBranch_overlay (Parm : UInt8) :
    SameCommand (controlBranch (g.overlay h) Parm) (controlBranch g Parm) := by
  refine sameCommand_ite ?query (sameCommand_ite ?breakQuery (sameCommand_ite ?breakOn
    (sameCommand_ite ?breakOff (sameCommand_ite ?cisco ?set))))
  case query | breakQuery | breakOn | breakOff | cisco | set => exact rfl

theorem setFlush_overlay (P : Port) (calls : List PortCall) (selector : UInt8) :
    setFlush { P with calls := calls } selector =
      { setFlush P selector with
        calls := (setFlush { P with calls := calls } selector).calls } := by
  unfold setFlush
  split <;> rfl

theorem cpcBranch_overlay (cmd : Command) (CSize : Nat) :
    SameCommand (cpcBranch (g.overlay h) cmd CSize) (cpcBranch g cmd CSize) := by
  refine sameCommand_ite ?signature (sameCommand_ite ?baudRate (sameCommand_ite ?dataSize
    (sameCommand_ite ?parity (sameCommand_ite ?stopSize (sameCommand_ite ?control
    (sameCommand_ite ?lineMask (sameCommand_ite ?modemMask (sameCommand_ite ?purge
    (sameCommand_ite ?suspend (sameCommand_ite ?resume rfl))))))))))
  case signature => exact sameCommand_ite rfl rfl
  case baudRate | dataSize | parity | stopSize =>
    dsimp only
    split <;> rfl
  case control => exact controlBranch_overlay g h _
  case lineMask | modemMask | suspend | resume => exact rfl
  case purge =>
    have hflush := setFlush_overlay g.port h.port.calls cmd[4]
    exact congrArg (fun P : Port => (({ g.overlay h with port := P } : Globals),
      Reply.byte TNASC_PURGE_DATA cmd[4])) hflush

/-- **What no command reads does not matter to any command.** -/
theorem iacBranch_overlay (cmd : Command) (CSize : Nat) :
    SameCommand (iacBranch (g.overlay h) cmd CSize) (iacBranch g cmd CSize) := by
  refine sameCommand_ite ?sb (sameCommand_ite ?will (sameCommand_ite ?doOpt
    (sameCommand_ite ?dont (sameCommand_ite ?wont rfl))))
  case sb => exact sameCommand_ite rfl (sameCommand_ite (cpcBranch_overlay g h cmd CSize) rfl)
  case will | doOpt =>
    refine sameCommand_ite ?_ rfl
    dsimp only
    split <;> rfl
  case dont | wont => exact rfl

end

/-! ### The global variables -/

/-- The global variables treat in the same way what is to come. The telnet
state matters while a client is connected, what `closePort` restores
while the port is open, and the modem lines while they are sampled. -/
structure Globals.Alike (connected isOpen sampled : Bool) (g h : Globals) : Prop where
  ciscoIOSCompatible : g.ciscoIOSCompatible = h.ciscoIOSCompatible
  deviceName : g.deviceName = h.deviceName
  portControlEnable : g.portControlEnable = h.portControlEnable
  modemStateMask : g.modemStateMask = h.modemStateMask
  breakSignaled : g.breakSignaled = h.breakSignaled
  inputFlow : g.inputFlow = h.inputFlow
  settings : g.port.settings = h.port.settings
  modemState : g.modemState &&& TNCOM_MODMASK_NODELTA = h.modemState &&& TNCOM_MODMASK_NODELTA
  escLast : g.escLast = 0x0D ↔ h.escLast = 0x0D
  parser : g.parser.Alike h.parser
  tnstate : connected = true → g.tnstate = h.tnstate
  initial : isOpen = true → g.port.initial = h.port.initial
  lines : sampled = true → g.port.lines = h.port.lines
  gets : sampled = true → g.port.gets = h.port.gets

/-- The relation while a session is being served. -/
abbrev Globals.Serves (g h : Globals) : Prop := Globals.Alike true true true g h

section
variable {g h : Globals} {connected isOpen sampled : Bool} {a b : UInt8}

theorem Globals.Serves.eq_overlay (H : g.Serves h) : h = g.overlay h := by
  obtain ⟨_, _, _, _, _, _, _, _, _, _, _, ⟨_, _, _, _, _⟩⟩ := g
  obtain ⟨_, _, _, _, _, _, _, _, _, _, _, ⟨_, _, _, _, _⟩⟩ := h
  obtain ⟨rfl, rfl, rfl, rfl, rfl, rfl, hsettings, -, -, -, htn, hinitial, hlines, hgets⟩ := H
  obtain rfl := htn rfl
  obtain rfl := hinitial rfl
  obtain rfl := hlines rfl
  obtain rfl := hgets rfl
  dsimp only at hsettings
  subst hsettings
  rfl

theorem Globals.serves_overlay (hparser : g.parser.Alike h.parser)
    (hmodem : g.modemState &&& TNCOM_MODMASK_NODELTA = h.modemState &&& TNCOM_MODMASK_NODELTA)
    (hlast : g.escLast = 0x0D ↔ h.escLast = 0x0D) : g.Serves (g.overlay h) :=
  ⟨rfl, rfl, rfl, rfl, rfl, rfl, rfl, hmodem, hlast, hparser, fun _ => rfl, fun _ => rfl,
    fun _ => rfl, fun _ => rfl⟩

/-- **A command has the same effect and the same reply.** -/
theorem iacBranch_alike (H : g.Serves h) (hc : SameUpTo n cmd cmd') (hw : Whole cmd n) :
    (iacBranch g cmd n).1.Serves (iacBranch h cmd' n).1 ∧
      (iacBranch h cmd' n).2 = (iacBranch g cmd n).2 := by
  rw [← iacBranch_congr h hc hw]
  -- `h` is `g` but for what commands do not read
  have hover := iacBranch_overlay g h cmd n
  rw [← H.eq_overlay] at hover
  obtain ⟨hstate, hreply⟩ := Prod.ext_iff.mp hover
  -- and that part of it the command leaves alone
  have hg := iacBranch_kept g cmd n
  have hh := iacBranch_kept h cmd n
  refine ⟨?_, hreply⟩
  rw [hstate]
  refine Globals.serves_overlay ?_ ?_ ?_
  · rw [hg.parser, hh.parser]
    exact H.parser
  · rw [hg.modemState, hh.modemState]
    exact H.modemState
  · rw [hg.escLast, hh.escLast]
    exact H.escLast

theorem Globals.Serves.isWill (H : g.Serves h) : g.isWill = h.isWill := by
  unfold Globals.isWill
  rw [H.tnstate rfl]

theorem Globals.Serves.isDo (H : g.Serves h) : g.isDo = h.isDo := by
  unfold Globals.isDo
  rw [H.tnstate rfl]

theorem Globals.Alike.setTn (H : g.Alike true isOpen sampled h) (o : UInt8)
    (f : TnState → TnState) : (g.setTn o f).Alike true isOpen sampled (h.setTn o f) := by
  have htn : (g.setTn o f).tnstate = (h.setTn o f).tnstate := by
    unfold Globals.setTn
    rw [H.tnstate rfl]
  exact { H with tnstate := fun _ => htn }

theorem negotiating_alike (H : g.Alike connected isOpen sampled h) :
    g.negotiating.Alike true isOpen sampled h.negotiating := by
  have hinit : (initTelnetStateMachine g).Alike true isOpen sampled (initTelnetStateMachine h) :=
    { H with tnstate := fun _ => rfl }
  exact (((((hinit.setTn _ _).setTn _ _).setTn _ _).setTn _ _).setTn _ _).setTn _ _

/-! ### Writing -/

theorem escape_alike (hab : a = 0x0D ↔ b = 0x0D) (binary : Bool) (d : List UInt8) :
    escape binary a d = escape binary b d := by
  cases d with
  | nil => rfl
  | cons C Cs =>
    simp only [escape, escapeChar, hab]

theorem getLastD_alike (hab : a = 0x0D ↔ b = 0x0D) (d : List UInt8) :
    d.getLastD a = 0x0D ↔ d.getLastD b = 0x0D := by
  cases d with
  | nil => exact hab
  | cons C Cs => exact Iff.rfl

theorem cpcFrame_alike (H : g.Serves h) (cmd : UInt8) (p : List UInt8) :
    cpcFrame g.isWill g.escLast cmd p = cpcFrame h.isWill h.escLast cmd p := by
  unfold cpcFrame
  rw [escape_alike H.escLast, H.isWill]

theorem sigStr_alike (H : g.Serves h) : (sigStr g).bytes = (sigStr h).bytes := by
  show (sigHead ++ g.deviceName.bytes).take 254 = (sigHead ++ h.deviceName.bytes).take 254
  rw [H.deviceName]

theorem Reply.bytes_alike (H : g.Serves h) (r : Reply) : r.bytes g = r.bytes h := by
  match r with
  | .nothing | .option _ _ => rfl
  | .signature =>
    unfold Reply.bytes
    rw [sigStr_alike H, cpcFrame_alike H]
  | .baudRate _ | .byte _ _ => exact cpcFrame_alike H _ _

theorem Reply.last_alike (H : g.Serves h) (r : Reply) : r.last g = 0x0D ↔ r.last h = 0x0D := by
  match r with
  | .nothing | .option _ _ => exact H.escLast
  | .signature =>
    unfold Reply.last
    rw [sigStr_alike H]
    exact getLastD_alike H.escLast _
  | .baudRate _ | .byte _ _ => exact Iff.rfl

theorem Action.alike_serves (H : g.Serves h) {a b : Action} (hab : a.Alike b) :
    a.toDev = b.toDev ∧ a.toNet g = b.toNet h ∧ (a.after g).Serves (b.after h) := by
  cases hab with
  | nothing | toDevice => exact ⟨rfl, rfl, H⟩
  | @handle cmd cmd' n hc hw =>
    obtain ⟨hserves, hreply⟩ := iacBranch_alike H hc hw
    refine ⟨rfl, ?_, ?_⟩
    · show (iacBranch g cmd n).2.bytes _ = (iacBranch h cmd' n).2.bytes _
      rw [hreply, Reply.bytes_alike hserves]
    · have hlast : (iacBranch g cmd n).2.last (iacBranch g cmd n).1 = 0x0D ↔
          (iacBranch h cmd' n).2.last (iacBranch h cmd' n).1 = 0x0D := by
        rw [hreply]
        exact Reply.last_alike hserves _
      exact { hserves with escLast := hlast }

/-! ### The modem lines -/

theorem modemStateOf_alike (hab : a &&& TNCOM_MODMASK_NODELTA = b &&& TNCOM_MODMASK_NODELTA)
    (MLines : BitVec 32) : modemStateOf MLines a = modemStateOf MLines b := by
  have hline : ∀ m : UInt8, TNCOM_MODMASK_NODELTA &&& m = m → a &&& m = b &&& m := by
    intro m hm
    rw [← hm, ← UInt8.and_assoc, hab, UInt8.and_assoc]
  unfold modemStateOf
  rw [hline TNCOM_MODMASK_RLSD rfl, hline TNCOM_MODMASK_RING rfl, hline TNCOM_MODMASK_DSR rfl,
    hline TNCOM_MODMASK_CTS rfl]

section
variable (H : g.Serves h)
include H

theorem newModemState_alike : g.newModemState = h.newModemState := by
  show modemStateOf (g.port.lines g.port.gets) _ = modemStateOf (h.port.lines h.port.gets) _
  rw [H.lines rfl, H.gets rfl]
  exact modemStateOf_alike H.modemState _

theorem notifies_alike : g.Notifies ↔ h.Notifies := by
  have hmask : ∀ m : UInt8, g.modemState &&& m &&& TNCOM_MODMASK_NODELTA =
      h.modemState &&& m &&& TNCOM_MODMASK_NODELTA := by
    intro m
    rw [UInt8.and_assoc, UInt8.and_comm m, ← UInt8.and_assoc, H.modemState, UInt8.and_assoc,
      UInt8.and_comm _ m, ← UInt8.and_assoc]
  unfold Globals.Notifies
  rw [newModemState_alike H, hmask, H.modemStateMask]

theorem notification_alike : g.notification = h.notification := by
  unfold Globals.notification
  rw [cpcFrame_alike H, newModemState_alike H, H.modemStateMask]

theorem looked_alike : g.looked.Serves h.looked := by
  have hgets : g.looked.port.gets = h.looked.port.gets := congrArg (· + 1) (H.gets rfl)
  exact { H with gets := fun _ => hgets }

theorem notified_alike : g.notified.Serves h.notified := by
  have hnew := newModemState_alike H
  refine { looked_alike H with modemState := ?_, escLast := ?_ }
  · exact congrArg (· &&& TNCOM_MODMASK_NODELTA) hnew
  · show g.newModemState &&& g.modemStateMask = 0x0D ↔ h.newModemState &&& h.modemStateMask = 0x0D
    rw [hnew, H.modemStateMask]

/-! ### The port -/

theorem Globals.Serves.alike : g.Alike connected isOpen sampled h :=
  { H with
    tnstate := fun _ => H.tnstate rfl
    initial := fun _ => H.initial rfl
    lines := fun _ => H.lines rfl
    gets := fun _ => H.gets rfl }

theorem closePort_alike : (closePort g.port).settings = (closePort h.port).settings := by
  unfold closePort
  rw [H.initial rfl]
  cases h.port.initial with
  | none => exact H.settings
  | some ti => rfl

end

end

end Sercd
