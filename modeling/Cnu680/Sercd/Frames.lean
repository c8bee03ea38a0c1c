import Cnu680.Sercd.Feed

/-! # sercd: command frames

How `EscRedirectChar` cuts commands out of the stream. A command starts
with IAC and a byte other than IAC; where it ends depends on its first
bytes alone:

* any command but SB ends after three bytes;
* a suboption whose fourth byte is SIGNATURE ends at IAC and a byte
  other than IAC, with IAC IAC read as one byte;
* any other suboption ends after `subSize` bytes, whatever they are.

`Parser.Holds l` says that `l` has been read of a command. The frame
lemmas say what is read of a whole frame, and that less than a frame
leaves the parser inside the command.
-/

open Framework

namespace Sercd

/-! ### A command being received -/

variable {p : Parser} {l : List UInt8} {c : UInt8} {n : Nat}

theorem take_set_succ (v : Vector UInt8 n) {i : Nat} (h : i < n) (C : UInt8) :
    (v.set i C h).toList.take (i + 1) = v.toList.take i ++ [C] := by
  rw [Vector.toList_set, List.take_add_one]
  simp [h, List.take_set_of_le]

/-- The parser is receiving a command of which it has read `l`; only the
first 255 bytes are stored. -/
structure Parser.Holds (p : Parser) (l : List UInt8) : Prop where
  com : p.iacEscape = .IACComReceiving
  pos : p.iacPos = min l.length TmpStrLen
  stored : p.iacCommand.toList.take p.iacPos = l.take TmpStrLen

theorem Parser.Holds.get (h : p.Holds l) {k : Nat} {x : UInt8} (hk : k < TmpStrLen)
    (hx : l[k]? = some x) : p.iacCommand[k] = x := by
  have hl : k < l.length := (List.getElem?_eq_some_iff.mp hx).1
  have hpos : k < p.iacPos := by rw [h.pos]; omega
  have heq : (p.iacCommand.toList.take p.iacPos)[k]? = (l.take TmpStrLen)[k]? := by rw [h.stored]
  rw [List.getElem?_take_of_lt hpos, List.getElem?_take_of_lt hk, hx] at heq
  simpa [hk] using heq

theorem Parser.Holds.storeIfRoom (h : p.Holds l) (C : UInt8) :
    (p.storeIfRoom C).Holds (l ++ [C]) := by
  have hpos := h.pos
  have hstored := h.stored
  unfold Parser.storeIfRoom
  split
  · next hlt =>
    have hlen : p.iacPos = l.length := by omega
    refine ⟨h.com, ?_, ?_⟩
    · simp only [List.length_append, List.length_cons, List.length_nil]
      omega
    · dsimp only
      rw [take_set_succ, hstored, List.take_of_length_le (by omega),
        List.take_of_length_le (by simp; omega)]
  · next hge =>
    refine ⟨h.com, ?_, ?_⟩
    · simp only [List.length_append, List.length_cons, List.length_nil]
      omega
    · rw [hstored, List.take_append_of_le_length (by omega)]

theorem Parser.Holds.store (h : p.Holds l) (hl : l.length < TmpStrLen) (C : UInt8) :
    p.store C = .ok (p.storeIfRoom C) := by
  have hpos : p.iacPos < TmpStrLen := by rw [h.pos]; omega
  rw [Parser.store_ok hpos, Parser.storeIfRoom, dif_pos hpos]

theorem Parser.Holds.setLast (h : p.Holds l) (C : UInt8) : Parser.Holds { p with last := C } l :=
  { h with }

theorem Parser.storeIfRoom_iacSigEscape (p : Parser) (C : UInt8) :
    (p.storeIfRoom C).iacSigEscape = p.iacSigEscape := by
  unfold storeIfRoom
  split <;> rfl

section
variable (binary : Bool) {p : Parser} {l : List UInt8} {n : Nat}

theorem parse_received_command (hp : p.iacEscape = .IACReceived) (hc : c ≠ TNIAC) :
    ∃ p', parse binary p c = .ok (p', .nothing) ∧ p'.Holds [TNIAC, c] ∧
      p'.iacSigEscape = .IACNormal := by
  have hbyte : parseByte binary p c = .ok (⟨.IACComReceiving, .IACNormal,
      (p.iacCommand.set 0 TNIAC).set 1 c, 2, p.last⟩, .nothing) := by
    simp only [parseByte, hp, if_neg hc]
  refine ⟨_, parse_of_byte hbyte, ⟨rfl, rfl, ?_⟩, rfl⟩
  exact (take_set_succ _ (by decide) c).trans
    (congrArg (· ++ [c]) (take_set_succ p.iacCommand (i := 0) (by decide) TNIAC))

theorem parse_head (h : p.Holds l) (hsb : l[1]? = some TNSB) (hlen : l.length < 4) (C : UInt8) :
    ∃ p', parse binary p C = .ok (p', .nothing) ∧ p'.Holds (l ++ [C]) ∧
      p'.iacSigEscape = p.iacSigEscape := by
  have hpos : p.iacPos < 4 := by rw [h.pos]; omega
  have hbyte : parseByte binary p C = .ok (p.storeIfRoom C, .nothing) := by
    simp only [parseByte, h.com, h.get (by decide) hsb, if_true, if_pos hpos,
      h.store (by simp only [TmpStrLen]; omega) C, ok_bind]
  exact ⟨_, parse_of_byte hbyte, (h.storeIfRoom C).setLast C, p.storeIfRoom_iacSigEscape C⟩

/-- The command that starts with `l` is complete at `n` bytes. -/
inductive CountedAt (l : List UInt8) : Nat → Prop where
  | option (c : UInt8) : l[1]? = some c → c ≠ TNSB → CountedAt l 3
  | sub (k : UInt8) : l[1]? = some TNSB → 4 ≤ l.length → l[3]? = some k →
      k ≠ TNCAS_SIGNATURE → CountedAt l (subSize k)

theorem CountedAt.le (h : CountedAt l n) : 3 ≤ n ∧ n ≤ 10 := by
  cases h with
  | option => omega
  | sub k => have := subSize_bounds k; omega

theorem CountedAt.append (h : CountedAt l n) (bs : List UInt8) : CountedAt (l ++ bs) n := by
  have hget : ∀ {k : Nat} {x : UInt8}, l[k]? = some x → (l ++ bs)[k]? = some x := by
    intro k x hx
    rw [List.getElem?_append_left (List.getElem?_eq_some_iff.mp hx).1, hx]
  cases h with
  | option c hc hne => exact .option c (hget hc) hne
  | sub k hsb hlen hk hsig =>
    exact .sub k (hget hsb) (by rw [List.length_append]; omega) (hget hk) hsig

theorem parseByte_counted (h : p.Holds l) (hn : CountedAt l n) (C : UInt8) :
    parseByte binary p C = parseCounted n p C := by
  cases hn with
  | option c hc hne =>
    have h1 : ¬ p.iacCommand[1] = TNSB := by rw [h.get (by decide) hc]; exact hne
    simp only [parseByte, h.com, if_neg h1]
  | sub k hsb hlen hk hsig =>
    have h4 : ¬ p.iacPos < 4 := by rw [h.pos]; simp only [TmpStrLen]; omega
    have h3 : p.iacCommand[3] = k := h.get (by decide) hk
    simp only [parseByte, h.com, h.get (by decide) hsb, if_true, if_neg h4, h3, if_neg hsig]

theorem parse_counted (h : p.Holds l) (hn : CountedAt l n) (hlt : l.length < n) (C : UInt8) :
    parse binary p C = .ok
      (if l.length + 1 = n then
        ({ (p.storeIfRoom C).complete.1 with last := C }, (p.storeIfRoom C).complete.2)
      else ({ p.storeIfRoom C with last := C }, .nothing)) := by
  have hle := hn.le.2
  have hpos : (p.storeIfRoom C).iacPos = l.length + 1 := by
    rw [(h.storeIfRoom C).pos]
    simp only [List.length_append, List.length_cons, List.length_nil, TmpStrLen]
    omega
  have hbyte := parseByte_counted binary h hn C
  rw [parseCounted, h.store (by simp only [TmpStrLen]; omega) C, ok_bind, hpos] at hbyte
  split
  · next hlast =>
    rw [if_pos hlast] at hbyte
    exact parse_of_byte hbyte
  · next hmore =>
    rw [if_neg hmore] at hbyte
    exact parse_of_byte hbyte

end

/-! ### Frames -/

/-- Reading `bs` sends nothing to the device and leaves the parser inside a
command, of which `l` has been read, with `sig` the escape status inside
a signature. -/
def StaysIn (g : Globals) (bs l : List UInt8) (sig : IACState) : Prop :=
  ∃ p, receive g bs = .ok ⟨{ g with parser := p }, [], []⟩ ∧ p.Holds l ∧ p.iacSigEscape = sig

/-- Reading `bs` hands over the command `cmd` and nothing else, sends nothing
to the device, and leaves the parser in its normal status. -/
def TakenAs (g : Globals) (bs cmd : List UInt8) (g' : Globals) : Prop :=
  receive g bs = .ok ⟨g', [], [cmd]⟩ ∧ g'.parser.iacEscape = .IACNormal

section
variable {g : Globals} {bs l : List UInt8} {sig : IACState}

theorem StaysIn.snoc {l' : List UInt8} {sig' : IACState} {C : UInt8} (h : StaysIn g bs l sig)
    (hC : ∀ p : Parser, p.Holds l → p.iacSigEscape = sig →
      ∃ p', parse g.isDo p C = .ok (p', .nothing) ∧ p'.Holds l' ∧ p'.iacSigEscape = sig') :
    StaysIn g (bs ++ [C]) l' sig' := by
  obtain ⟨p, hrec, hholds, hsig⟩ := h
  obtain ⟨p', hparse, hholds', hsig'⟩ := hC p hholds hsig
  refine ⟨p', ?_, hholds', hsig'⟩
  rw [receive_append_ok hrec (receive_cons_nothing [] hparse)]
  rfl

/-- The last byte of a command: it is handed over as it was read. -/
theorem StaysIn.complete {l' : List UInt8} {C c o : UInt8} (h : StaysIn g bs l sig)
    (hC : ∀ p : Parser, p.Holds l → p.iacSigEscape = sig →
      ∃ q : Parser, q.Holds l' ∧
        parse g.isDo p C = .ok ({ q.complete.1 with last := C }, q.complete.2))
    (hc : l'[1]? = some c) (ho : l'[2]? = some o) :
    ∃ g', TakenAs g (bs ++ [C]) (l'.take TmpStrLen) g' ∧ g'.isDo = modeAfter g.isDo c o := by
  obtain ⟨p, hrec, hholds, hsig⟩ := h
  obtain ⟨q, hq, hparse⟩ := hC p hholds hsig
  let g₁ : Globals := { g with parser := { q.complete.1 with last := C } }
  have hlast : receive { g with parser := p } [C] =
      .ok ⟨q.complete.2.after g₁, [], [l'.take TmpStrLen]⟩ := by
    rw [receive_cons (g := { g with parser := p }) [] hparse]
    simp only [receive, ok_bind, Parser.complete, Action.toDev, Action.commands, hq.stored,
      List.append_nil, g₁]
  refine ⟨q.complete.2.after g₁, ⟨receive_append_ok hrec hlast, ?_⟩, ?_⟩
  · rw [Action.parser_after]
    rfl
  · rw [← hq.get (by decide) hc, ← hq.get (by decide) ho]
    exact iacBranch_isDo _ _ _

theorem staysIn_open (hp : g.parser.iacEscape = .IACNormal) (hc : c ≠ TNIAC) :
    StaysIn g [TNIAC, c] [TNIAC, c] .IACNormal := by
  obtain ⟨p, hparse, hholds, hsig⟩ := parse_received_command g.isDo
    (p := { g.parser with iacEscape := .IACReceived, last := TNIAC }) rfl hc
  refine ⟨p, ?_, hholds, hsig⟩
  rw [receive_cons_nothing _ (parse_normal_iac hp), receive_cons_nothing _ hparse]
  rfl

theorem StaysIn.head (h : StaysIn g bs l sig) (hsb : l[1]? = some TNSB) (hlen : l.length < 4)
    (C : UInt8) : StaysIn g (bs ++ [C]) (l ++ [C]) sig := by
  apply h.snoc
  intro p hholds hsig
  obtain ⟨p', hparse, hholds', hsig'⟩ := parse_head g.isDo hholds hsb hlen C
  exact ⟨p', hparse, hholds', hsig'.trans hsig⟩

theorem staysIn_sub₃ (hp : g.parser.iacEscape = .IACNormal) (o : UInt8) :
    StaysIn g [TNIAC, TNSB, o] [TNIAC, TNSB, o] .IACNormal :=
  (staysIn_open hp (by decide)).head rfl (by decide) o

theorem staysIn_sub₄ (hp : g.parser.iacEscape = .IACNormal) (o k : UInt8) :
    StaysIn g [TNIAC, TNSB, o, k] [TNIAC, TNSB, o, k] .IACNormal :=
  (staysIn_sub₃ hp o).head rfl (by simp) k

/-! ### Counted commands -/

theorem StaysIn.counted (h : StaysIn g bs l sig) (hn : CountedAt l n) (body : List UInt8)
    (hlen : l.length + body.length < n) : StaysIn g (bs ++ body) (l ++ body) sig := by
  induction body generalizing bs l with
  | nil => simpa using h
  | cons C body ih =>
    simp only [List.length_cons] at hlen
    have hstep : StaysIn g (bs ++ [C]) (l ++ [C]) sig := by
      apply h.snoc
      intro p hholds hsig
      have hparse := parse_counted g.isDo hholds hn (by omega) C
      rw [if_neg (by omega)] at hparse
      exact ⟨_, hparse, (hholds.storeIfRoom C).setLast C, (p.storeIfRoom_iacSigEscape C).trans hsig⟩
    have hrest := ih hstep (hn.append [C]) (by
      simp only [List.length_append, List.length_cons, List.length_nil]; omega)
    simpa using hrest

theorem StaysIn.takenAs_counted {c o : UInt8} (h : StaysIn g bs l sig) (hn : CountedAt l n)
    (body : List UInt8) (hlt : l.length < n) (hlen : l.length + body.length = n)
    (hc : (l ++ body)[1]? = some c) (ho : (l ++ body)[2]? = some o) :
    ∃ g', TakenAs g (bs ++ body) (l ++ body) g' ∧ g'.isDo = modeAfter g.isDo c o := by
  -- all but the last byte, then the last
  obtain ⟨init, C, rfl⟩ : ∃ init C, body = init ++ [C] := by
    refine ⟨body.dropLast, body.getLast ?_, (List.dropLast_concat_getLast _).symm⟩
    rintro rfl
    simp only [List.length_nil] at hlen
    omega
  simp only [List.length_append, List.length_cons, List.length_nil] at hlen
  have hle := hn.le.2
  have hinit := h.counted hn init (by omega)
  have htake : (l ++ (init ++ [C])).take TmpStrLen = l ++ (init ++ [C]) := by
    apply List.take_of_length_le
    simp only [List.length_append, List.length_cons, List.length_nil, TmpStrLen]
    omega
  have hlast : ∀ p : Parser, p.Holds (l ++ init) → p.iacSigEscape = sig →
      ∃ q : Parser, q.Holds (l ++ (init ++ [C])) ∧
        parse g.isDo p C = .ok ({ q.complete.1 with last := C }, q.complete.2) := by
    intro p hholds _
    have hparse := parse_counted g.isDo hholds (hn.append init)
      (by rw [List.length_append]; omega) C
    rw [if_pos (by rw [List.length_append]; omega)] at hparse
    exact ⟨_, by rw [← List.append_assoc]; exact hholds.storeIfRoom C, hparse⟩
  obtain ⟨g', htaken, hmode⟩ := hinit.complete hlast hc ho
  rw [htake, List.append_assoc] at htaken
  exact ⟨g', htaken, hmode⟩

/-- **Three-byte commands.** -/
theorem takenAs_option (hp : g.parser.iacEscape = .IACNormal) (hc : c ≠ TNIAC) (hsb : c ≠ TNSB)
    (o : UInt8) : ∃ g', TakenAs g [TNIAC, c, o] [TNIAC, c, o] g' ∧ g'.isDo = modeAfter g.isDo c o :=
  (staysIn_open hp hc).takenAs_counted (.option c rfl hsb) [o] (by simp) rfl rfl rfl

/-- **Counted suboptions.** -/
theorem takenAs_sub (hp : g.parser.iacEscape = .IACNormal) (o : UInt8) {k : UInt8}
    (hk : k ≠ TNCAS_SIGNATURE) (body : List UInt8) (hlen : 4 + body.length = subSize k) :
    ∃ g', TakenAs g ([TNIAC, TNSB, o, k] ++ body) ([TNIAC, TNSB, o, k] ++ body) g' ∧
      g'.isDo = g.isDo := by
  have hsize := (subSize_bounds k).1
  obtain ⟨g', htaken, hmode⟩ := (staysIn_sub₄ hp o k).takenAs_counted
    (.sub k rfl (by simp) rfl hk) body (by simp only [List.length_cons, List.length_nil]; omega)
    (by simpa using hlen) (c := TNSB) (o := o) rfl rfl
  exact ⟨g', htaken, by rw [hmode, modeAfter_of_ne _ (by decide) (by decide)]⟩

/-! ### Signatures -/

/-- Each IAC doubled. -/
def doubled : List UInt8 → List UInt8
  | [] => []
  | b :: bs => (if b = TNIAC then [TNIAC, TNIAC] else [b]) ++ doubled bs

/-- `l` is the beginning of a signature. -/
structure IsSignature (l : List UInt8) : Prop where
  sb : l[1]? = some TNSB
  signature : l[3]? = some TNCAS_SIGNATURE

theorem IsSignature.append (h : IsSignature l) (bs : List UInt8) : IsSignature (l ++ bs) := by
  have hlen := (List.getElem?_eq_some_iff.mp h.signature).1
  constructor
  · rw [List.getElem?_append_left (by omega), h.sb]
  · rw [List.getElem?_append_left hlen, h.signature]

theorem parseByte_signature (binary : Bool) {p : Parser} (h : p.Holds l) (hl : IsSignature l)
    (C : UInt8) : parseByte binary p C = .ok (parseSignature p C) := by
  have hlen := (List.getElem?_eq_some_iff.mp hl.signature).1
  have h4 : ¬ p.iacPos < 4 := by rw [h.pos]; simp only [TmpStrLen]; omega
  simp only [parseByte, h.com, h.get (by decide) hl.sb, if_true, if_neg h4,
    h.get (by decide) hl.signature]

section
variable (h : StaysIn g bs l .IACNormal)
include h

theorem StaysIn.signature_iac (hl : IsSignature l) : StaysIn g (bs ++ [TNIAC]) l .IACReceived := by
  apply h.snoc
  intro p hholds hsig
  have hbyte := parseByte_signature g.isDo hholds hl TNIAC
  simp only [parseSignature, hsig, if_true] at hbyte
  exact ⟨_, parse_of_byte hbyte, { hholds with }, rfl⟩

theorem StaysIn.signature_byte (hl : IsSignature l) (C : UInt8) :
    StaysIn g (bs ++ doubled [C]) (l ++ [C]) .IACNormal := by
  by_cases hC : C = TNIAC
  · subst hC
    have htwo : StaysIn g (bs ++ [TNIAC] ++ [TNIAC]) (l ++ [TNIAC]) .IACNormal := by
      apply (h.signature_iac hl).snoc
      intro p hholds hsig
      have hbyte := parseByte_signature g.isDo hholds hl TNIAC
      simp only [parseSignature, hsig, if_true] at hbyte
      have hstore := hholds.storeIfRoom TNIAC
      exact ⟨_, parse_of_byte hbyte, { hstore with }, rfl⟩
    simpa [doubled] using htwo
  · have hone : StaysIn g (bs ++ [C]) (l ++ [C]) .IACNormal := by
      apply h.snoc
      intro p hholds hsig
      have hbyte := parseByte_signature g.isDo hholds hl C
      simp only [parseSignature, hsig, if_neg hC] at hbyte
      exact ⟨_, parse_of_byte hbyte, (hholds.storeIfRoom C).setLast C,
        (p.storeIfRoom_iacSigEscape C).trans hsig⟩
    simpa [doubled, hC] using hone

theorem StaysIn.signature_text (hl : IsSignature l)
    (text : List UInt8) : StaysIn g (bs ++ doubled text) (l ++ text) .IACNormal := by
  induction text generalizing bs l with
  | nil => simpa [doubled] using h
  | cons C text ih =>
    have hrest := ih (h.signature_byte hl C) (hl.append [C])
    simpa [doubled, List.append_assoc] using hrest

theorem StaysIn.takenAs_signature (hl : IsSignature l) {y : UInt8} (hy : y ≠ TNIAC) :
    ∃ g', TakenAs g (bs ++ [TNIAC, y]) ((l ++ [TNIAC, y]).take TmpStrLen) g' ∧
      g'.isDo = g.isDo := by
  have hlen := (List.getElem?_eq_some_iff.mp hl.signature).1
  obtain ⟨o, ho⟩ : ∃ o, l[2]? = some o := ⟨_, List.getElem?_eq_getElem (by omega)⟩
  have hlast : ∀ p : Parser, p.Holds l → p.iacSigEscape = .IACReceived →
      ∃ q : Parser, q.Holds (l ++ [TNIAC, y]) ∧
        parse g.isDo p y = .ok ({ q.complete.1 with last := y }, q.complete.2) := by
    intro p hholds hsig
    have hbyte := parseByte_signature g.isDo hholds hl y
    simp only [parseSignature, hsig, if_neg hy] at hbyte
    refine ⟨(p.storeIfRoom TNIAC).storeIfRoom y, ?_, parse_of_byte hbyte⟩
    simpa using (hholds.storeIfRoom TNIAC).storeIfRoom y
  obtain ⟨g', htaken, hmode⟩ := (h.signature_iac hl).complete hlast (c := TNSB) (o := o)
    (hl.append _).sb (by rw [List.getElem?_append_left (by omega), ho])
  refine ⟨g', by simpa using htaken, ?_⟩
  rw [hmode, modeAfter_of_ne _ (by decide) (by decide)]

end

/-- **Signatures.** -/
theorem takenAs_signature (hp : g.parser.iacEscape = .IACNormal) (o : UInt8) (text : List UInt8)
    {y : UInt8} (hy : y ≠ TNIAC) :
    ∃ g', TakenAs g ([TNIAC, TNSB, o, TNCAS_SIGNATURE] ++ doubled text ++ [TNIAC, y])
        (([TNIAC, TNSB, o, TNCAS_SIGNATURE] ++ text ++ [TNIAC, y]).take TmpStrLen) g' ∧
      g'.isDo = g.isDo := by
  have hl : IsSignature [TNIAC, TNSB, o, TNCAS_SIGNATURE] := ⟨rfl, rfl⟩
  exact ((staysIn_sub₄ hp o _).signature_text hl text).takenAs_signature (hl.append text) hy

end

end Sercd
