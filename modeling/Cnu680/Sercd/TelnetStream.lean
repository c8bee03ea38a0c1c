import Cnu680.Sercd.Frames

/-! # sercd: telnet streams of the client

A telnet stream is made of data, IAC IAC, two-byte commands, option
negotiations and subnegotiations. `EscRedirectChar` knows only its own
frames (`Frames.lean`), so what it delivers to the device is the data of
the stream exactly as long as

* there is no two-byte command, which would swallow the next byte;
* the bytes of each subnegotiation happen to be a sequence of frames as
  the parser cuts them (`Silent`);
* no NUL follows a CR after the client has switched BINARY off.

`cleanStream_iff` shows that this is exact, at every item of the stream.
-/

open Framework List

namespace Sercd

/-! ### Streams -/

/-- An item of a telnet stream. -/
inductive Item where
  | data (C : UInt8) (h : C ≠ TNIAC)
  | iacIac
  | command (c : UInt8) (h : 241 ≤ c ∧ c ≤ 249)
  | option (verb : Verb) (o : UInt8)
  | sub (o : UInt8) (h : o ≠ TNCOM_PORT_OPTION) (payload : List UInt8)

/-- The bytes of an item. -/
def Item.wire : Item → List UInt8
  | .data C _ => [C]
  | .iacIac => [TNIAC, TNIAC]
  | .command c _ => [TNIAC, c]
  | .option verb o => [TNIAC, verb.code, o]
  | .sub o _ payload => [TNIAC, TNSB, o] ++ doubled payload ++ [TNIAC, TNSE]

/-- The data bytes of an item. -/
def Item.bytes : Item → List UInt8
  | .data C _ => [C]
  | .iacIac => [TNIAC]
  | _ => []

def wire (items : List Item) : List UInt8 := items.flatMap Item.wire

def dataBytes (items : List Item) : List UInt8 := items.flatMap Item.bytes

/-- `EscRedirectChar` delivers exactly the data of the stream, and is back
in its normal status at the end. -/
def DeliversData (g : Globals) (items : List Item) : Prop :=
  ∀ ws : List (UInt8 × Sinks), ws.map Prod.fst = wire items →
    ∃ r, feed g ws = .ok r ∧ r.toDevice = dataBytes items ∧ r.g.parser.iacEscape = .IACNormal

/-! ### Bytes of which nothing is delivered -/

/-- `Silent b last bs b'`: after the byte `last`, in binary mode `b`, the
bytes `bs` are a sequence of whole frames and swallowed NULs; `b'` is the
mode after them. -/
inductive Silent : Bool → UInt8 → List UInt8 → Bool → Prop where
  | nil (b : Bool) (last : UInt8) : Silent b last [] b
  | swallowed {rest : List UInt8} {b' : Bool} :
      Silent false 0x00 rest b' → Silent false 0x0D (0x00 :: rest) b'
  | option {b b' : Bool} {last c o : UInt8} {rest : List UInt8} :
      c ≠ TNIAC → c ≠ TNSB → Silent (modeAfter b c o) o rest b' →
      Silent b last ([TNIAC, c, o] ++ rest) b'
  | sub {b b' : Bool} {last o k : UInt8} {body rest : List UInt8} :
      k ≠ TNCAS_SIGNATURE → 4 + body.length = subSize k →
      Silent b (body.getLastD k) rest b' →
      Silent b last ([TNIAC, TNSB, o, k] ++ body ++ rest) b'
  | signature {b b' : Bool} {last o y : UInt8} {text rest : List UInt8} :
      y ≠ TNIAC → Silent b y rest b' →
      Silent b last ([TNIAC, TNSB, o, TNCAS_SIGNATURE] ++ doubled text ++ [TNIAC, y] ++ rest) b'

/-- Nothing is delivered of the bytes, and the parser is back in its normal
status, in mode `b'`. -/
def NothingDelivered (g : Globals) (bs : List UInt8) (b' : Bool) : Prop :=
  ∃ r, receive g bs = .ok r ∧ r.toDevice = [] ∧ r.g.parser.iacEscape = .IACNormal ∧ r.g.isDo = b'

theorem nothingDelivered_append {g g' : Globals} {bs rest cmd : List UInt8} {b' : Bool}
    (h : TakenAs g bs cmd g') (hrest : NothingDelivered g' rest b') :
    NothingDelivered g (bs ++ rest) b' := by
  obtain ⟨r, hrec, hdev, hnormal, hmode⟩ := hrest
  exact ⟨_, receive_append_ok h.1 hrec, by simpa using hdev, hnormal, hmode⟩

theorem TakenAs.last {g g' : Globals} {bs cmd : List UInt8} (h : TakenAs g bs cmd g') :
    g'.parser.last = bs.getLastD g.parser.last :=
  receive_last h.1

theorem getLastD_append_pair (l : List UInt8) (x y d : UInt8) : (l ++ [x, y]).getLastD d = y := by
  simp [getLastD_eq_getLast?]

theorem Silent.nothingDelivered {b b' : Bool} {last : UInt8} {bs : List UInt8}
    (h : Silent b last bs b') {g : Globals} (hp : g.parser.iacEscape = .IACNormal) (hb : g.isDo = b)
    (hlast : g.parser.last = last) : NothingDelivered g bs b' := by
  induction h generalizing g with
  | nil b last => exact ⟨_, rfl, rfl, hp, hb⟩
  | swallowed _ ih =>
    obtain ⟨r, hrec, hdev⟩ :=
      ih (g := { g with parser := { g.parser with last := 0x00 } }) hp hb rfl
    exact ⟨r, by rw [receive_cons_nothing _ (parse_normal_swallow hp hb hlast), hrec], hdev⟩
  | option hc hsb _ ih =>
    obtain ⟨g', htaken, hmode⟩ := takenAs_option hp hc hsb _
    exact nothingDelivered_append htaken (ih htaken.2 (by rw [hmode, hb]) htaken.last)
  | sub hk hlen _ ih =>
    obtain ⟨g', htaken, hmode⟩ := takenAs_sub hp _ hk _ hlen
    have hlast' := htaken.last
    simp only [cons_append, nil_append, getLastD_cons] at hlast'
    exact nothingDelivered_append htaken (ih htaken.2 (by rw [hmode, hb]) hlast')
  | signature hy _ ih =>
    obtain ⟨g', htaken, hmode⟩ := takenAs_signature hp _ _ hy
    have hlast' := htaken.last
    rw [getLastD_append_pair] at hlast'
    exact nothingDelivered_append htaken (ih htaken.2 (by rw [hmode, hb]) hlast')

/-- Any bytes are a text with its IACs doubled, up to an IAC and a byte other
than IAC. -/
theorem exists_doubled : ∀ bs : List UInt8,
    ∃ text, bs = doubled text ∨ bs = doubled text ++ [TNIAC] ∨
      ∃ y rest, y ≠ TNIAC ∧ bs = doubled text ++ [TNIAC, y] ++ rest
  | [] => ⟨[], .inl rfl⟩
  | [b] => by
    by_cases hb : b = TNIAC
    · exact ⟨[], .inr (.inl (by rw [hb]; rfl))⟩
    · exact ⟨[b], .inl (by simp [doubled, hb])⟩
  | b :: c :: rest => by
    by_cases hb : b = TNIAC
    · by_cases hc : c = TNIAC
      · obtain ⟨text, h⟩ := exists_doubled rest
        refine ⟨TNIAC :: text, ?_⟩
        rw [hb, hc]
        rcases h with h | h | ⟨y, rest', hy, h⟩
        · exact .inl (by rw [h]; rfl)
        · exact .inr (.inl (by rw [h]; rfl))
        · exact .inr (.inr ⟨y, rest', hy, by rw [h]; rfl⟩)
      · exact ⟨[], .inr (.inr ⟨c, rest, hc, by rw [hb]; rfl⟩)⟩
    · obtain ⟨text, h⟩ := exists_doubled (c :: rest)
      have hcons : doubled (b :: text) = b :: doubled text := by simp [doubled, hb]
      refine ⟨b :: text, ?_⟩
      rw [hcons]
      rcases h with h | h | ⟨y, rest', hy, h⟩
      · exact .inl (by rw [h])
      · exact .inr (.inl (by rw [h]; rfl))
      · exact .inr (.inr ⟨y, rest', hy, by rw [h]; rfl⟩)

theorem StaysIn.not_normal {g : Globals} {bs l : List UInt8} {sig : IACState} {r : Fed}
    (h : StaysIn g bs l sig) (hrec : receive g bs = .ok r) : r.g.parser.iacEscape ≠ .IACNormal := by
  obtain ⟨p, hp, hholds, -⟩ := h
  rw [hp] at hrec
  cases hrec
  simp [hholds.com]

/-- What becomes of the first frame of some bytes: data is delivered, the
bytes end inside the frame, or nothing is delivered of it and the rest is
read from the normal status. -/
inductive FirstFrame (g : Globals) (bs : List UInt8) : Prop where
  | delivered {g' : Globals} {C : UInt8} (fr rest : List UInt8) :
      bs = fr ++ rest → receive g fr = .ok ⟨g', [C], []⟩ → FirstFrame g bs
  | unfinished : (∀ r, receive g bs = .ok r → r.g.parser.iacEscape ≠ .IACNormal) →
      FirstFrame g bs
  | silent {g' : Globals} {cmds : List (List UInt8)} (fr rest : List UInt8) :
      bs = fr ++ rest → rest.length < bs.length → receive g fr = .ok ⟨g', [], cmds⟩ →
      g'.parser.iacEscape = .IACNormal →
      (∀ b', Silent g'.isDo g'.parser.last rest b' → Silent g.isDo g.parser.last bs b') →
      FirstFrame g bs

section
variable {g : Globals} (hp : g.parser.iacEscape = .IACNormal)
include hp

theorem firstFrame_signature (o : UInt8) (bs : List UInt8) :
    FirstFrame g ([TNIAC, TNSB, o, TNCAS_SIGNATURE] ++ bs) := by
  have hl : IsSignature [TNIAC, TNSB, o, TNCAS_SIGNATURE] := ⟨rfl, rfl⟩
  -- the text goes on to the end, or to half of an IAC, or is ended by IAC and another byte
  obtain ⟨text, rfl | rfl | ⟨y, rest, hy, rfl⟩⟩ := exists_doubled bs
  · exact .unfinished fun r hrec =>
      ((staysIn_sub₄ hp o _).signature_text hl text).not_normal hrec
  · have hhalf := ((staysIn_sub₄ hp o _).signature_text hl text).signature_iac (hl.append _)
    rw [append_assoc] at hhalf
    exact .unfinished fun r hrec => hhalf.not_normal hrec
  · obtain ⟨g', htaken, hmode⟩ := takenAs_signature hp o text hy
    refine .silent _ rest (by simp) (by simp; omega) htaken.1 htaken.2 fun b' hrest => ?_
    rw [hmode, htaken.last, getLastD_append_pair] at hrest
    have hall : Silent g.isDo g.parser.last
        ([TNIAC, TNSB, o, TNCAS_SIGNATURE] ++ doubled text ++ [TNIAC, y] ++ rest) b' :=
      .signature hy hrest
    simpa using hall

theorem firstFrame_counted (o : UInt8) {k : UInt8} (hk : k ≠ TNCAS_SIGNATURE) (bs : List UInt8) :
    FirstFrame g ([TNIAC, TNSB, o, k] ++ bs) := by
  by_cases hlen : 4 + bs.length < subSize k
  · exact .unfinished fun r hrec => ((staysIn_sub₄ hp o k).counted (.sub k rfl (by simp) rfl hk)
      bs (by simpa using hlen)).not_normal hrec
  · -- the bytes that are counted, and the rest
    obtain ⟨body, rest, rfl, hbody⟩ : ∃ body rest, bs = body ++ rest ∧
        4 + body.length = subSize k := by
      refine ⟨_, _, (take_append_drop (subSize k - 4) bs).symm, ?_⟩
      have := (subSize_bounds k).1
      rw [length_take]
      omega
    obtain ⟨g', htaken, hmode⟩ := takenAs_sub hp o hk body hbody
    refine .silent _ rest (append_assoc _ _ _).symm (by simp; omega) htaken.1 htaken.2 ?_
    intro b' hrest
    have hlast := htaken.last
    simp only [cons_append, nil_append, getLastD_cons] at hlast
    rw [hmode, hlast] at hrest
    rw [← append_assoc]
    exact .sub hk hbody hrest

theorem firstFrame_iac (bs : List UInt8) : FirstFrame g (TNIAC :: bs) := by
  rcases bs with _ | ⟨c, bs⟩
  · apply FirstFrame.unfinished
    intro r hrec
    rw [receive_cons_nothing [] (parse_normal_iac hp)] at hrec
    cases hrec
    simp
  by_cases hc : c = TNIAC
  · rw [hc]
    exact .delivered [TNIAC, TNIAC] bs rfl (receive_iac_iac hp)
  by_cases hsb : c = TNSB
  · rw [hsb] at hc ⊢
    -- the fourth byte decides how the end is found
    rcases bs with _ | ⟨o, _ | ⟨k, bs⟩⟩
    · exact .unfinished fun r hrec => (staysIn_open hp hc).not_normal hrec
    · exact .unfinished fun r hrec => (staysIn_sub₃ hp o).not_normal hrec
    by_cases hk : k = TNCAS_SIGNATURE
    · rw [hk]
      exact firstFrame_signature hp o bs
    · exact firstFrame_counted hp o hk bs
  · rcases bs with _ | ⟨o, bs⟩
    · exact .unfinished fun r hrec => (staysIn_open hp hc).not_normal hrec
    obtain ⟨g', htaken, hmode⟩ := takenAs_option hp hc hsb o
    refine .silent [TNIAC, c, o] bs rfl (by simp; omega) htaken.1 htaken.2 fun b' hrest => ?_
    rw [hmode, htaken.last] at hrest
    exact .option hc hsb hrest

theorem firstFrame (C : UInt8) (bs : List UInt8) : FirstFrame g (C :: bs) := by
  by_cases hC : C = TNIAC
  · rw [hC]
    exact firstFrame_iac hp bs
  by_cases hswallow : g.isDo = false ∧ C = 0x00 ∧ g.parser.last = 0x0D
  · obtain ⟨hb, rfl, hlast⟩ := hswallow
    refine .silent [0x00] bs rfl (by simp)
      (receive_cons_nothing [] (parse_normal_swallow hp hb hlast)) hp fun b' hrest => ?_
    have hb' : Globals.isDo { g with parser := { g.parser with last := 0x00 } } = false := hb
    rw [hb'] at hrest
    rw [hb, hlast]
    exact .swallowed hrest
  · exact .delivered [C] bs rfl (receive_data hp hC hswallow)

end

variable {g : Globals} {it : Item}

theorem NothingDelivered.silent {bs : List UInt8} {b' : Bool} (hp : g.parser.iacEscape = .IACNormal)
    (h : NothingDelivered g bs b') : Silent g.isDo g.parser.last bs b' := by
  -- by the number of bytes: the first frame is cut off
  induction hn : bs.length using Nat.strongRecOn generalizing g bs with
  | ind n ih =>
  obtain ⟨r, hrec, hdev, hnormal, hmode⟩ := h
  rcases bs with _ | ⟨C, bs⟩
  · cases hrec
    subst hmode
    exact .nil _ _
  cases firstFrame hp C bs with
  | delivered fr rest hbs hfr =>
    obtain ⟨t, -, -, happ⟩ := receive_append_eq_ok hfr (hbs ▸ hrec)
    rw [hdev] at happ
    simp at happ
  | unfinished hno => exact absurd hnormal (hno r hrec)
  | silent fr rest hbs hlt hfr hp' hsilent =>
    obtain ⟨t, ht, hg, happ⟩ := receive_append_eq_ok hfr (hbs ▸ hrec)
    rw [hdev] at happ
    have hrest : NothingDelivered _ rest b' :=
      ⟨t, ht, by simpa using happ.symm, by rw [hg]; exact hnormal, by rw [hg]; exact hmode⟩
    exact hsilent b' (ih rest.length (hn ▸ hlt) hp' hrest rfl)

/-! ### Streams that are delivered -/

/-- `it.Clean b last b'`: after the byte `last`, in binary mode `b`, the item
is read as the client meant it; `b'` is the mode after it. No two-byte
command is. -/
inductive Item.Clean : Bool → UInt8 → Item → Bool → Prop where
  | data {b : Bool} {last C : UInt8} (h : C ≠ TNIAC) :
      ¬ (b = false ∧ C = 0x00 ∧ last = 0x0D) → Item.Clean b last (.data C h) b
  | iacIac {b : Bool} {last : UInt8} : Item.Clean b last .iacIac b
  | option {b : Bool} {last : UInt8} (verb : Verb) (o : UInt8) :
      Item.Clean b last (.option verb o) (modeAfter b verb.code o)
  | sub {b b' : Bool} {last o : UInt8} (h : o ≠ TNCOM_PORT_OPTION) (payload : List UInt8) :
      Silent b last (Item.sub o h payload).wire b' →
      Item.Clean b last (.sub o h payload) b'

/-- Every item of the stream is read as the client meant it. -/
inductive CleanStream : Bool → UInt8 → List Item → Prop where
  | nil {b : Bool} {last : UInt8} : CleanStream b last []
  | cons {b b' : Bool} {last : UInt8} {it : Item} {items : List Item} :
      it.Clean b last b' → CleanStream b' (it.wire.getLastD last) items →
      CleanStream b last (it :: items)

/-- The bytes `bs` are read as the data `d`, to the normal status. -/
def ReadAs (g : Globals) (bs d : List UInt8) : Prop :=
  ∃ r, receive g bs = .ok r ∧ r.toDevice = d ∧ r.g.parser.iacEscape = .IACNormal

theorem deliversData_iff (g : Globals) (items : List Item) :
    DeliversData g items ↔ ReadAs g (wire items) (dataBytes items) := by
  constructor
  · intro h
    have h' := h ((wire items).map fun C => (C, default)) (by simp [Function.comp_def])
    simp only [feed_eq, map_map, Function.comp_def, map_id'] at h'
    exact h'
  · intro h ws hws
    rw [feed_eq, hws]
    exact h

theorem Item.Clean.read {b b' : Bool} {last : UInt8} (h : it.Clean b last b')
    (hp : g.parser.iacEscape = .IACNormal) (hb : g.isDo = b) (hlast : g.parser.last = last) :
    ∃ r, receive g it.wire = .ok r ∧ r.toDevice = it.bytes ∧
      r.g.parser.iacEscape = .IACNormal ∧ r.g.isDo = b' := by
  cases h with
  | data hC hkeep =>
    subst hb hlast
    exact ⟨_, receive_data hp hC hkeep, rfl, hp, rfl⟩
  | iacIac => exact ⟨_, receive_iac_iac hp, rfl, hp, hb⟩
  | option verb o =>
    obtain ⟨g', htaken, hmode⟩ := takenAs_option hp verb.code_ne.1 verb.code_ne.2 o
    exact ⟨_, htaken.1, rfl, htaken.2, by rw [hmode, hb]⟩
  | sub ho payload hsilent => exact hsilent.nothingDelivered hp hb hlast

theorem Item.clean_of_readAs (hp : g.parser.iacEscape = .IACNormal)
    (h : ReadAs g it.wire it.bytes) : ∃ b', it.Clean g.isDo g.parser.last b' := by
  obtain ⟨r, hrec, hdev, hnormal⟩ := h
  cases it with
  | data C hC =>
    refine ⟨_, .data hC ?_⟩
    -- a NUL that is swallowed is not delivered
    rintro ⟨hb, rfl, hlast⟩
    have hnone := receive_cons_nothing [] (parse_normal_swallow hp hb hlast)
    rw [show (Item.data 0x00 hC).wire = [0x00] from rfl, hnone] at hrec
    cases hrec
    simp [Item.bytes] at hdev
  | iacIac => exact ⟨_, .iacIac⟩
  | command c hc =>
    -- the parser waits for a third byte
    have hne : c ≠ TNIAC := by
      rintro rfl
      exact absurd hc (by decide)
    exact absurd hnormal ((staysIn_open hp hne).not_normal hrec)
  | option verb o => exact ⟨_, .option verb o⟩
  | sub o ho payload =>
    exact ⟨_, .sub ho payload (NothingDelivered.silent hp ⟨r, hrec, hdev, hnormal, rfl⟩)⟩

theorem wire_cons (it : Item) (items : List Item) : wire (it :: items) = it.wire ++ wire items :=
  rfl

theorem dataBytes_cons (it : Item) (items : List Item) :
    dataBytes (it :: items) = it.bytes ++ dataBytes items :=
  rfl

theorem readAs_cons {items : List Item} {r : Fed} (hrec : receive g it.wire = .ok r)
    (hdev : r.toDevice = it.bytes) :
    ReadAs g (wire (it :: items)) (dataBytes (it :: items)) ↔
      ReadAs r.g (wire items) (dataBytes items) := by
  rw [wire_cons, dataBytes_cons]
  constructor
  · rintro ⟨t, ht, hdata, hnormal⟩
    obtain ⟨t', ht', hg, happ⟩ := receive_append_eq_ok hrec ht
    rw [hdata, hdev] at happ
    exact ⟨t', ht', (append_cancel_left happ).symm, by rw [hg]; exact hnormal⟩
  · rintro ⟨t, ht, hdata, hnormal⟩
    exact ⟨_, receive_append_ok hrec ht, by rw [hdev, hdata], hnormal⟩

/-- From every beginning of the stream, all of its data is delivered, if and
only if the stream is clean. -/
theorem cleanStream_iff (hp : g.parser.iacEscape = .IACNormal) (items : List Item) :
    (∀ n, ReadAs g (wire (items.take n)) (dataBytes (items.take n))) ↔
      CleanStream g.isDo g.parser.last items := by
  induction items generalizing g with
  | nil =>
    refine ⟨fun _ => .nil, fun _ n => ?_⟩
    rw [take_nil]
    exact ⟨_, rfl, rfl, hp⟩
  | cons it items ih =>
    constructor
    · intro h
      -- the first item alone
      have hone : ReadAs g it.wire it.bytes := by simpa [wire, dataBytes] using h 1
      obtain ⟨b', hclean⟩ := Item.clean_of_readAs hp hone
      obtain ⟨r, hrec, hdev, hnormal, hmode⟩ := hclean.read hp rfl rfl
      have hrest : ∀ n, ReadAs r.g (wire (items.take n)) (dataBytes (items.take n)) :=
        fun n => (readAs_cons hrec hdev).mp (h (n + 1))
      have hstream := (ih hnormal).mp hrest
      rw [hmode, receive_last hrec] at hstream
      exact .cons hclean hstream
    · rintro (_ | ⟨hclean, hstream⟩) n
      obtain ⟨r, hrec, hdev, hnormal, hmode⟩ := hclean.read hp rfl rfl
      rw [← hmode, ← receive_last hrec] at hstream
      cases n with
      | zero => exact ⟨_, rfl, rfl, hp⟩
      | succ n => exact (readAs_cons hrec hdev).mpr ((ih hnormal).mpr hstream n)

/-- **What is delivered of a telnet stream**: from the normal status in
binary mode, every beginning of the stream is delivered as its data and
leaves the parser in its normal status if and only if every item of the
stream is clean. -/
theorem telnet_stream_delivered_iff (g : Globals) (hp : g.parser.iacEscape = .IACNormal)
    (hb : g.isDo = true) (items : List Item) :
    (∀ n, DeliversData g (items.take n)) ↔ CleanStream true g.parser.last items := by
  rw [← hb, ← cleanStream_iff hp items]
  exact forall_congr' fun n => deliversData_iff g (items.take n)

/-- The state of a process that receives in binary mode. -/
def binaryGlobals : Globals :=
  (initialGlobals default).setTn TN_TRANSMIT_BINARY fun t => { t with is_do := true }

/-- A stream of data around an option. -/
def dataOption : List Item :=
  [.data 97 (by decide), .iacIac, .option .do TN_ECHO, .data 0 (by decide)]

theorem telnet_stream_delivered_data_option : DeliversData binaryGlobals dataOption := by
  have hclean : CleanStream true 0 dataOption :=
    .cons (.data _ (by decide)) (.cons .iacIac (.cons (.option _ _)
      (.cons (.data _ (by decide)) .nil)))
  exact (telnet_stream_delivered_iff binaryGlobals rfl rfl dataOption).mpr hclean 4

/-- IAC NOP swallows the data byte after it. -/
theorem telnet_stream_nop_swallows :
    ¬ DeliversData binaryGlobals [.command TNNOP (by decide), .data 97 (by decide)] := by
  rw [deliversData_iff]
  rintro ⟨r, hrec, hdev, -⟩
  obtain ⟨g', ⟨htaken, -⟩, -⟩ := takenAs_option (g := binaryGlobals) rfl
    (c := TNNOP) (by decide) (by decide) 97
  rw [show wire [.command TNNOP (by decide), .data 97 (by decide)] = [TNIAC, TNNOP, 97] from rfl,
    htaken] at hrec
  cases hrec
  exact absurd hdev (show ([] : List UInt8) ≠ [97] by decide)

end Sercd
