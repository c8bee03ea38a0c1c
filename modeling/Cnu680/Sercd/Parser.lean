import Cnu680.Sercd.Command

/-! # sercd: reading from the network

`EscRedirectChar` of `sercd.c`. The function is cut in two: `parse` is
its switch over the parser's variables, and returns what is to be done
with the byte (`Action`); `escRedirectChar` then does it. The parser's
variables are not read by what is done, so it does not matter that some
of them are set after it in the source.

`Parser.Inv` is what keeps every write to `IACCommand[]` inside the
array.
-/

open Framework

namespace Sercd

/-! ### The function of `sercd.c` -/

/-- What `EscRedirectChar` does with a byte. -/
inductive Action where
  | nothing
  /-- Queue the byte to the device. -/
  | toDevice (C : UInt8)
  /-- Call `HandleIACCommand`. -/
  | handle (cmd : Command) (CSize : Nat)

/-- `IACCommand[IACPos] = C; IACPos++`. -/
def Parser.store (p : Parser) (C : UInt8) : Except Fault Parser :=
  if h : p.iacPos < TmpStrLen then
    .ok { p with iacCommand := p.iacCommand.set p.iacPos C h, iacPos := p.iacPos + 1 }
  else .error .outOfBounds

/-- The same under the test `IACPos < sizeof(IACCommand)`. -/
def Parser.storeIfRoom (p : Parser) (C : UInt8) : Parser :=
  if h : p.iacPos < TmpStrLen then
    { p with iacCommand := p.iacCommand.set p.iacPos C h, iacPos := p.iacPos + 1 }
  else p

/-- Hand the command over and return to the normal status. -/
def Parser.complete (p : Parser) : Parser × Action :=
  ({ p with iacEscape := .IACNormal }, .handle p.iacCommand p.iacPos)

/-- A command that is complete at `n` bytes. -/
def parseCounted (n : Nat) (p : Parser) (C : UInt8) : Except Fault (Parser × Action) := do
  let p ← p.store C
  return if p.iacPos = n then p.complete else (p, .nothing)

/-- Signature, which needs further escaping. -/
def parseSignature (p : Parser) (C : UInt8) : Parser × Action :=
  match p.iacSigEscape with
  | .IACNormal =>
    if C = TNIAC then ({ p with iacSigEscape := .IACReceived }, .nothing)
    else (p.storeIfRoom C, .nothing)
  | .IACComReceiving => ({ p with iacSigEscape := .IACNormal }, .nothing)
  | .IACReceived =>
    if C = TNIAC then ({ p.storeIfRoom C with iacSigEscape := .IACNormal }, .nothing)
    else ((p.storeIfRoom TNIAC).storeIfRoom C).complete

/-- The number of bytes at which a suboption that is not a signature is
taken to be complete, by its fourth byte. -/
def subSize (cmd : UInt8) : Nat :=
  if cmd = TNCAS_SET_BAUDRATE then 10
  else if cmd = TNCAS_FLOWCONTROL_SUSPEND ∨ cmd = TNCAS_FLOWCONTROL_RESUME then 6
  else 7

/-- The switch of `EscRedirectChar`; `binary` is
`tnstate[TN_TRANSMIT_BINARY].is_do`. -/
def parseByte (binary : Bool) (p : Parser) (C : UInt8) : Except Fault (Parser × Action) :=
  -- the places of `IACCommand[]` that are named below
  haveI := zero_lt_tmpStrLen
  haveI := one_lt_tmpStrLen
  haveI := three_lt_tmpStrLen
  match p.iacEscape with
  | .IACNormal =>
    if C = TNIAC then .ok ({ p with iacEscape := .IACReceived }, .nothing)
    else if binary = false ∧ C = 0x00 ∧ p.last = 0x0D then
      -- Swallow the NUL after a CR if not receiving BINARY
      .ok (p, .nothing)
    else .ok (p, .toDevice C)
  | .IACReceived =>
    if C = TNIAC then .ok ({ p with iacEscape := .IACNormal }, .toDevice C)
    else
      .ok ({ p with
        iacCommand := (p.iacCommand.set 0 TNIAC).set 1 C
        iacPos := 2
        iacEscape := .IACComReceiving
        iacSigEscape := .IACNormal }, .nothing)
  | .IACComReceiving =>
    if p.iacCommand[1] = TNSB then
      -- Telnet suboption, could be only CPC
      if p.iacPos < 4 then p.store C >>= fun p => .ok (p, .nothing)
      else if p.iacCommand[3] = TNCAS_SIGNATURE then .ok (parseSignature p C)
      else parseCounted (subSize p.iacCommand[3]) p C
    else
      -- Normal 3 byte IAC option
      parseCounted 3 p C

/-- The same, and set last received byte. -/
def parse (binary : Bool) (p : Parser) (C : UInt8) : Except Fault (Parser × Action) := do
  let (p, a) ← parseByte binary p C
  return ({ p with last := C }, a)

abbrev escRedirectChar_bytes_SockB : UInt32 := handleIACCommand_bytes
abbrev escRedirectChar_bytes_DevB : UInt32 := 1

/-- Redirect char `C` to Device checking for IAC escape sequences. -/
def escRedirectChar (g : Globals) (SockB DevB : BufferType) (C : UInt8) :
    Except Fault (Globals × BufferType × BufferType) := do
  let (p, a) ← parse g.isDo g.parser C
  let g := { g with parser := p }
  match a with
  | .nothing => return (g, SockB, DevB)
  | .toDevice C =>
    let DevB ← addToBuffer DevB C
    return (g, SockB, DevB)
  | .handle cmd CSize =>
    let (g, SockB) ← handleIACCommand g cmd CSize SockB
    return (g, SockB, DevB)

/-! ### The parser stays inside `IACCommand[]` -/

/-- While a command is being received: two bytes are stored, the position
is inside the array, and a command that is counted is not complete. -/
structure Parser.Inv (p : Parser) : Prop where
  two_le : p.iacEscape = .IACComReceiving → 2 ≤ p.iacPos
  pos_le : p.iacPos ≤ TmpStrLen
  option : p.iacEscape = .IACComReceiving → p.iacCommand[1] ≠ TNSB → p.iacPos = 2
  counted : p.iacEscape = .IACComReceiving → p.iacCommand[1] = TNSB → 4 ≤ p.iacPos →
    p.iacCommand[3] ≠ TNCAS_SIGNATURE → p.iacPos < subSize p.iacCommand[3]

variable {p : Parser}

theorem initialParser_inv : initialParser.Inv := by
  constructor <;> simp [initialParser]

theorem Parser.inv_of_ne (h : p.iacEscape ≠ .IACComReceiving) (hpos : p.iacPos ≤ TmpStrLen) :
    p.Inv :=
  ⟨fun h' => absurd h' h, hpos, fun h' => absurd h' h, fun h' => absurd h' h⟩

theorem subSize_bounds (cmd : UInt8) : 6 ≤ subSize cmd ∧ subSize cmd ≤ 10 := by
  unfold subSize
  split
  · omega
  · split <;> omega

theorem Parser.store_ok (h : p.iacPos < TmpStrLen) (C : UInt8) :
    p.store C =
      .ok { p with iacCommand := p.iacCommand.set p.iacPos C h, iacPos := p.iacPos + 1 } :=
  dif_pos h

theorem Parser.storeIfRoom_pos (h : p.iacPos ≤ TmpStrLen) (C : UInt8) :
    (p.storeIfRoom C).iacPos = min (p.iacPos + 1) TmpStrLen := by
  unfold storeIfRoom
  split
  · next h' => exact (Nat.min_eq_left h').symm
  · omega

theorem Parser.storeIfRoom_iacEscape (p : Parser) (C : UInt8) :
    (p.storeIfRoom C).iacEscape = p.iacEscape := by
  unfold storeIfRoom
  split <;> rfl

theorem Parser.storeIfRoom_get {k : Nat} (hk : k < TmpStrLen) (h : k < p.iacPos) (C : UInt8) :
    (p.storeIfRoom C).iacCommand[k] = p.iacCommand[k] := by
  unfold storeIfRoom
  split
  · next h' => exact Vector.getElem_set_ne h' hk (by omega)
  · rfl

theorem parseCounted_spec (h : p.iacPos < TmpStrLen) (n : Nat) (C : UInt8) :
    parseCounted n p C =
      .ok (if p.iacPos + 1 = n then
          (⟨.IACNormal, p.iacSigEscape, p.iacCommand.set p.iacPos C h, p.iacPos + 1, p.last⟩,
            .handle (p.iacCommand.set p.iacPos C h) (p.iacPos + 1))
        else
          (⟨p.iacEscape, p.iacSigEscape, p.iacCommand.set p.iacPos C h, p.iacPos + 1, p.last⟩,
            .nothing)) := by
  unfold parseCounted
  rw [Parser.store_ok h, ok_bind]
  rfl

/-- `HandleIACCommand` is called with all bytes of the command: three of an
option, and as many of a suboption as its fourth byte says. -/
def Action.Sized : Action → Prop
  | .handle cmd CSize =>
    haveI := one_lt_tmpStrLen
    haveI := three_lt_tmpStrLen
    (cmd[1] ≠ TNSB → CSize = 3) ∧
      (cmd[1] = TNSB → if cmd[3] = TNCAS_SIGNATURE then 6 ≤ CSize ∧ CSize ≤ TmpStrLen
        else CSize = subSize cmd[3])
  | _ => True

theorem parseCounted_inv (h : p.Inv) (hcom : p.iacEscape = .IACComReceiving) {n : Nat}
    (hn : n ≤ 10) (hlt : p.iacPos < n)
    (hkind : p.iacCommand[1] ≠ TNSB ∧ n = 3 ∨ p.iacCommand[1] = TNSB ∧ 4 ≤ p.iacPos ∧
      p.iacCommand[3] ≠ TNCAS_SIGNATURE ∧ n = subSize p.iacCommand[3]) (C : UInt8) :
    ∃ p' a, parseCounted n p C = .ok (p', a) ∧ p'.Inv ∧ a.Sized := by
  have hpos : p.iacPos < TmpStrLen := by simp only [TmpStrLen]; omega
  have h2 := h.two_le hcom
  have h1 : (p.iacCommand.set p.iacPos C hpos)[1] = p.iacCommand[1] :=
    Vector.getElem_set_ne _ _ (by omega)
  rw [parseCounted_spec hpos]
  rcases hkind with ⟨hne, rfl⟩ | ⟨hsb, h4, hsig, rfl⟩
  · -- an option is complete with its third byte
    have := h.option hcom hne
    rw [if_pos (by omega)]
    refine ⟨_, _, rfl, Parser.inv_of_ne (by simp) (by dsimp only; omega), ?_, ?_⟩
    · intro _
      omega
    · intro hsb
      exact absurd (h1.symm.trans hsb) hne
  · -- the byte goes behind the two that decide about the command
    have h3 : (p.iacCommand.set p.iacPos C hpos)[3] = p.iacCommand[3] :=
      Vector.getElem_set_ne _ _ (by omega)
    split
    · next hlast =>
      refine ⟨_, _, rfl, Parser.inv_of_ne (by simp) (by dsimp only; omega), ?_, ?_⟩
      · intro hne
        exact absurd (h1.trans hsb) hne
      · intro _
        rw [h3, if_neg hsig]
        exact hlast
    · refine ⟨_, _, rfl, ⟨fun _ => by dsimp only; omega, by dsimp only; omega, ?_, ?_⟩, trivial⟩
      · intro _ hne
        exact absurd (h1.trans hsb) hne
      · intro _ _ _ _
        dsimp only
        rw [h3]
        omega

theorem parseSignature_inv (h : p.Inv) (hsb : p.iacCommand[1] = TNSB) (h4 : 4 ≤ p.iacPos)
    (hsig : p.iacCommand[3] = TNCAS_SIGNATURE) (C : UInt8) :
    (parseSignature p C).1.Inv ∧ (parseSignature p C).2.Sized := by
  -- the command goes on: nothing before place 4 changes
  have hgo : ∀ q : Parser, q.iacCommand[1] = p.iacCommand[1] → q.iacCommand[3] = p.iacCommand[3] →
      4 ≤ q.iacPos → q.iacPos ≤ 255 → q.Inv := by
    intro q h1 h3 hge hle
    refine ⟨fun _ => by omega, hle, fun _ hne => absurd (h1.trans hsb) hne, ?_⟩
    intro _ _ _ hne
    exact absurd (h3.trans hsig) hne
  have hstore : ∀ (q : Parser) (D : UInt8), 4 ≤ q.iacPos → q.iacPos ≤ 255 →
      (q.storeIfRoom D).iacCommand[1] = q.iacCommand[1] ∧
        (q.storeIfRoom D).iacCommand[3] = q.iacCommand[3] ∧
          (q.storeIfRoom D).iacPos = min (q.iacPos + 1) 255 := fun q D hge hle =>
    ⟨Parser.storeIfRoom_get (by decide) (by omega) D,
      Parser.storeIfRoom_get (by decide) (by omega) D, Parser.storeIfRoom_pos hle D⟩
  have hpos : p.iacPos ≤ 255 := h.pos_le
  obtain ⟨h1, h3, hC⟩ := hstore p C h4 hpos
  unfold parseSignature
  split
  · split
    · exact ⟨hgo _ rfl rfl h4 hpos, trivial⟩
    · exact ⟨hgo _ h1 h3 (by dsimp only; omega) (by dsimp only; omega), trivial⟩
  · exact ⟨hgo _ rfl rfl h4 hpos, trivial⟩
  · split
    · exact ⟨hgo _ h1 h3 (by dsimp only; omega) (by dsimp only; omega), trivial⟩
    · -- the IAC and the byte after it end the command
      obtain ⟨h1, h3, hI⟩ := hstore p TNIAC h4 hpos
      obtain ⟨h1', h3', hD⟩ := hstore (p.storeIfRoom TNIAC) C (by omega) (by omega)
      have hsize : 6 ≤ ((p.storeIfRoom TNIAC).storeIfRoom C).iacPos ∧
          ((p.storeIfRoom TNIAC).storeIfRoom C).iacPos ≤ 255 := by omega
      refine ⟨Parser.inv_of_ne (by simp [Parser.complete]) hsize.2, ?_, ?_⟩
      · intro hne
        exact absurd (h1'.trans (h1.trans hsb)) hne
      · intro _
        rw [if_pos (h3'.trans (h3.trans hsig))]
        exact hsize

theorem Parser.inv_last (h : p.Inv) (C : UInt8) : Parser.Inv { p with last := C } :=
  { h with }

/-- **No byte makes the parser leave the array**, and the invariant is
kept. -/
theorem parse_inv (h : p.Inv) (binary : Bool) (C : UInt8) :
    ∃ p' a, parse binary p C = .ok (p', a) ∧ p'.Inv ∧ a.Sized := by
  have hpos := h.pos_le
  -- the last byte received plays no part in the invariant
  suffices hbyte : ∃ p' a, parseByte binary p C = .ok (p', a) ∧ p'.Inv ∧ a.Sized by
    obtain ⟨p', a, heq, hinv, hsized⟩ := hbyte
    exact ⟨_, a, by rw [parse, heq]; rfl, Parser.inv_last hinv C, hsized⟩
  unfold parseByte
  match hesc : p.iacEscape with
  | .IACNormal =>
    simp only
    split
    · exact ⟨_, _, rfl, Parser.inv_of_ne (by simp) hpos, trivial⟩
    · split <;> exact ⟨_, _, rfl, h, trivial⟩
  | .IACReceived =>
    simp only
    split
    · exact ⟨_, _, rfl, Parser.inv_of_ne (by simp) hpos, trivial⟩
    · exact ⟨_, _, rfl, ⟨fun _ => Nat.le_refl 2, (by decide : 2 ≤ TmpStrLen), fun _ _ => rfl,
        fun _ _ h4 => absurd h4 (by decide : ¬ 4 ≤ 2)⟩, trivial⟩
  | .IACComReceiving =>
    have h2 := h.two_le hesc
    simp only
    split
    · next hsb =>
      split
      · next hlt =>
        -- the third or fourth byte of a suboption
        have hlt' : p.iacPos < TmpStrLen := by simp only [TmpStrLen]; omega
        have h1 : (p.iacCommand.set p.iacPos C hlt')[1] = p.iacCommand[1] :=
          Vector.getElem_set_ne _ _ (by omega)
        rw [Parser.store_ok hlt', ok_bind]
        refine ⟨_, _, rfl, ⟨fun _ => by dsimp only; omega, hlt', ?_, ?_⟩, trivial⟩
        · intro _ hne
          exact absurd (h1.trans hsb) hne
        · intro _ _ h4 _
          have hsize := (subSize_bounds (p.iacCommand.set p.iacPos C hlt')[3]).1
          dsimp only at h4 ⊢
          omega
      · next hge =>
        split
        · next hsig => exact ⟨_, _, rfl, parseSignature_inv h hsb (by omega) hsig C⟩
        · next hsig =>
          exact parseCounted_inv h hesc (subSize_bounds _).2
            (h.counted hesc hsb (by omega) hsig) (.inr ⟨hsb, by omega, hsig, rfl⟩) C
    · next hne =>
      have := h.option hesc hne
      exact parseCounted_inv h hesc (by omega) (by omega) (.inl ⟨hne, rfl⟩) C

/-- The bytes of a connection, each with the mode it is received in: the
parser after them, and what is done with each. -/
def parseAll (p : Parser) : List (Bool × UInt8) → Except Fault (Parser × List Action)
  | [] => .ok (p, [])
  | m :: ms =>
    parse m.1 p m.2 >>= fun x => (parseAll x.1 ms).map fun y => (y.1, x.2 :: y.2)

theorem parseAll_inv (h : p.Inv) (ms : List (Bool × UInt8)) :
    ∃ p' as, parseAll p ms = .ok (p', as) ∧ p'.Inv ∧ ∀ a ∈ as, a.Sized := by
  induction ms generalizing p with
  | nil => exact ⟨p, [], rfl, h, by simp⟩
  | cons m ms ih =>
    obtain ⟨q, a, hq, hinv, hsized⟩ := parse_inv h m.1 m.2
    obtain ⟨r, as, hr, hinv', hsized'⟩ := ih hinv
    refine ⟨r, a :: as, ?_, hinv', ?_⟩
    · rw [parseAll, hq, ok_bind, hr]
      rfl
    · intro b hb
      rcases List.mem_cons.mp hb with rfl | hb
      · exact hsized
      · exact hsized' b hb

/-- **The parser's variables.** Whatever bytes are received, every store is
inside `IACCommand[]`; while a command is received, its position is that
of its kind; and `HandleIACCommand` is called when it is complete. -/
theorem parser_in_bounds (ms : List (Bool × UInt8)) :
    ∃ p as, parseAll initialParser ms = .ok (p, as) ∧
      (p.iacEscape = .IACComReceiving →
        (p.iacCommand[1] ≠ TNSB → p.iacPos = 2) ∧
        (p.iacCommand[1] = TNSB → 2 ≤ p.iacPos ∧ p.iacPos ≤ 3 ∨
          4 ≤ p.iacPos ∧ if p.iacCommand[3] = TNCAS_SIGNATURE then p.iacPos ≤ 255
            else p.iacPos < subSize p.iacCommand[3])) ∧
      ∀ a ∈ as, a.Sized := by
  obtain ⟨p, as, hp, hinv, hsized⟩ := parseAll_inv initialParser_inv ms
  refine ⟨p, as, hp, fun hcom => ⟨hinv.option hcom, fun hsb => ?_⟩, hsized⟩
  have h2 := hinv.two_le hcom
  by_cases h4 : 4 ≤ p.iacPos
  · refine .inr ⟨h4, ?_⟩
    split
    · exact hinv.pos_le
    · next hsig => exact hinv.counted hcom hsb h4 hsig
  · exact .inl (by omega)

/-! ### The parser, status by status -/

theorem parse_of_byte {binary : Bool} {p p' : Parser} {C : UInt8} {a : Action}
    (h : parseByte binary p C = .ok (p', a)) :
    parse binary p C = .ok ({ p' with last := C }, a) := by
  rw [parse, h]
  rfl

theorem parse_last {binary : Bool} {p p' : Parser} {C : UInt8} {a : Action}
    (h : parse binary p C = .ok (p', a)) : p'.last = C := by
  obtain ⟨⟨q, a'⟩, -, hq⟩ := bind_eq_ok.mp h
  cases hq
  rfl

section
variable {binary : Bool} {p : Parser} {C : UInt8}

theorem parse_normal_iac (hp : p.iacEscape = .IACNormal) :
    parse binary p TNIAC =
      .ok ({ p with iacEscape := .IACReceived, last := TNIAC }, .nothing) := by
  have h : parseByte binary p TNIAC = .ok ({ p with iacEscape := .IACReceived }, .nothing) := by
    simp only [parseByte, hp, if_true]
  exact parse_of_byte h

theorem parse_normal_swallow (hp : p.iacEscape = .IACNormal) (hb : binary = false)
    (hlast : p.last = 0x0D) : parse binary p 0x00 = .ok ({ p with last := 0x00 }, .nothing) := by
  have hne : (0x00 : UInt8) ≠ TNIAC := by decide
  have h : parseByte binary p 0x00 = .ok (p, .nothing) := by
    simp only [parseByte, hp, if_neg hne, hb, hlast, and_self, if_true]
  exact parse_of_byte h

theorem parse_normal_data (hp : p.iacEscape = .IACNormal) (hC : C ≠ TNIAC)
    (hkeep : ¬ (binary = false ∧ C = 0x00 ∧ p.last = 0x0D)) :
    parse binary p C = .ok ({ p with last := C }, .toDevice C) := by
  have h : parseByte binary p C = .ok (p, .toDevice C) := by
    simp only [parseByte, hp, if_neg hC, if_neg hkeep]
  exact parse_of_byte h

theorem parse_received_iac (hp : p.iacEscape = .IACReceived) :
    parse binary p TNIAC =
      .ok ({ p with iacEscape := .IACNormal, last := TNIAC }, .toDevice TNIAC) := by
  have h : parseByte binary p TNIAC =
      .ok ({ p with iacEscape := .IACNormal }, .toDevice TNIAC) := by
    simp only [parseByte, hp, if_true]
  exact parse_of_byte h

end

/-! ### What a byte adds to the buffers -/

/-- The bytes an action queues to the device. -/
def Action.toDev : Action → List UInt8
  | .toDevice C => [C]
  | _ => []

/-- The bytes an action queues to the network. -/
def Action.toNet (g : Globals) : Action → List UInt8
  | .handle cmd CSize => (iacBranch g cmd CSize).2.bytes (iacBranch g cmd CSize).1
  | _ => []

/-- The state after an action. -/
def Action.after (g : Globals) : Action → Globals
  | .handle cmd CSize =>
    { (iacBranch g cmd CSize).1 with
      escLast := (iacBranch g cmd CSize).2.last (iacBranch g cmd CSize).1 }
  | _ => g

theorem Action.toDev_length (a : Action) : a.toDev.length ≤ 1 := by
  cases a <;> simp [Action.toDev]

theorem Action.toNet_length (g : Globals) (a : Action) : (a.toNet g).length ≤ 514 := by
  cases a with
  | handle cmd CSize => exact Reply.bytes_length _ _
  | nothing | toDevice => simp [Action.toNet]

theorem Action.parser_after (g : Globals) (a : Action) : (a.after g).parser = g.parser := by
  cases a with
  | handle cmd CSize => exact (iacBranch_kept g cmd CSize).parser
  | nothing | toDevice => rfl

/-- **`EscRedirectChar` in one line**: parse the byte, then add the bytes of
the action to the two buffers. -/
theorem escRedirectChar_eq (g : Globals) (SockB DevB : BufferType) (C : UInt8) :
    escRedirectChar g SockB DevB C =
      parse g.isDo g.parser C >>= fun (p, a) =>
        addBytes SockB (a.toNet { g with parser := p }) >>= fun SockB' =>
          addBytes DevB a.toDev >>= fun DevB' =>
            .ok (a.after { g with parser := p }, SockB', DevB') := by
  unfold escRedirectChar
  congr 1
  funext ⟨p, a⟩
  cases a with
  | nothing => rfl
  | toDevice C =>
    simp only [Action.toNet, Action.toDev, Action.after, addBytes, run_cons, run_nil, ok_bind,
      bind_assoc]
    rfl
  | handle cmd CSize =>
    have h := Reply.send_emits (iacBranch { g with parser := p } cmd CSize).1
      (iacBranch { g with parser := p } cmd CSize).2 SockB
    simp only [handleIACCommand, h, Action.toNet, Action.toDev, Action.after, addBytes, run_nil,
      ok_bind, bind_assoc]
    rfl

end Sercd
