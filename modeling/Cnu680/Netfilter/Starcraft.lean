import Cnu680.Netfilter.Expectations
import Cnu680.Netfilter.TcpNat

/-! # The StarCraft Helper

The messages of this game hold the address of their sender, which address
translation has to replace. `ip_conntrack_sc.c` looks for it in the
segments that come in sequence and records, as an expectation, where it
is. `ip_nat_sc.c` then writes another address over the data of every
segment that has the place of an expectation in it, at every hook that
the segment passes.

It does not always do what it is for. The first segment with data of
either direction is not looked at. A message whose expectation is already
there is not recorded again. And the address that is written is that of
the reply tuple in either direction, with its bytes in the wrong order. -/

open Framework

namespace Conntrack

def Dir.other : Dir → Dir
  | .original => .reply
  | .reply => .original

namespace Starcraft

open Segment

def SC_PORT : UInt16 := 6112

/-- An established connection with this helper. -/
structure Conn where
  id : Nat
  orig : Tuple
  reply : Tuple
  manips : List Manip

/-- `tuplehash[dir].tuple`. -/
def Conn.tuple (conn : Conn) : Dir → Tuple
  | .original => conn.orig
  | .reply => conn.reply

/-- What the helper says of its expectations: nothing. -/
def sc : ExpectHelper := ⟨0, false, 0⟩

/-! ### `ip_conntrack_sc.c` -/

/-- Where the pattern has the address, if the data matches. -/
def findPatternSc (data : List UInt8) (own : UInt32) : Option Nat :=
  if 23 < data.length ∧ data[0]? = some 0xff ∧ data[1]? = some 0x09 ∧ data[4]? = some 0x01 ∧
      data[5]? = some 0x00 ∧ (data.drop 20).take 4 = bytesOf own then some 20
  else if 28 < data.length ∧ data[0]? = some 0xff ∧ data[1]? = some 0x50 ∧
      (data.drop 24).take 4 = bytesOf own then some 24
  else none

/-- What is expected because of the address at `off`. -/
def expectation (conn : Conn) (dir : Dir) (p : Segment) (off : Nat) : ExpectData where
  tuple :=
    ⟨(conn.tuple dir.other).srcIp, 0, wordOf (p.payload.drop off), (htons SC_PORT).toUInt64, 6⟩
  mask := ⟨0, 0, 0xffffffff, 0xffff, 0xffff⟩
  ctTuple := ⟨0, 0, 0, 0, 0⟩
  seq := p.seq + UInt32.ofNat off
  len := 4

structure Tracker where
  exps : Expectations
  /-- `seq_aft_nl`, where it is set. -/
  seqAftNl : Dir → Option UInt32

namespace Tracker

/-- The next segment is expected behind this one, if it is the last so far. -/
def note (s : Tracker) (dir : Dir) (p : Segment) : Tracker :=
  let last := p.seq + p.datalen
  if 0 < p.datalen ∧ (s.seqAftNl dir).all (after last) then
    { s with seqAftNl := Function.update s.seqAftNl dir (some last) }
  else s

/-- Where the address is in a segment that is looked at. -/
def lookAt (s : Tracker) (conn : Conn) (dir : Dir) (p : Segment) : Option Nat :=
  if s.seqAftNl dir = some p.seq then findPatternSc p.payload (conn.tuple dir).srcIp else none

/-- `help` of the connection tracking. -/
def help (s : Tracker) (conn : Conn) (dir : Dir) (p : Segment) (a : Expectations.Answers) :
    Except Fault Tracker :=
  if p.Valid then
    match s.lookAt conn dir p with
    | none => .ok (s.note dir p)
    | some off => do
      let (_, exps) ← s.exps.expectRelated conn.id (expectation conn dir p off) a
      .ok { s.note dir p with exps := exps }
  else .ok s

/-- The call of the helper, if the connection has one. -/
def track (s : Tracker) (conn : Conn) (dir : Dir) (p : Segment) (a : Expectations.Answers) :
    Except Fault Tracker :=
  if s.exps.helper conn.id = none then .ok s else s.help conn dir p a

/-! ### `ip_nat_sc.c` -/

/-- `sc_data_fixup`. -/
def dataFixup (conn : Conn) (copy : Bool) (p : Segment) (x : ExpectData) :
    Except Verdict Segment :=
  p.mangle copy (x.seq - p.seq).toNat x.len (bytesOf (htonl conn.reply.dstIp))

/-- How many ends of the address are in the segment. -/
def score (p : Segment) (x : ExpectData) : Nat :=
  (between x.seq p.seq (p.seq + p.datalen)).toNat +
    (between (x.seq + x.len) p.seq (p.seq + p.datalen)).toNat

def fixup (conn : Conn) (copy : Bool) (p : Segment) (x : ExpectData) : Except Verdict Segment :=
  if x.len = 0 then .ok p
  else if score p x = 1 then .error .drop
  else if score p x = 2 then dataFixup conn copy p x
  else .ok p

/-- `help` of the address translation. -/
def natHelp (conn : Conn) (copy : Bool) (p : Segment) (x : ExpectData) :
    Except Verdict Segment := do
  let p ← fixup conn copy p x
  p.seqAdjust

/-- The loop over the expectations: those are left out that something has come
for, and those of other segments. -/
def helpFor (s : Tracker) (conn : Conn) (copy : Bool) (p : Segment) (id : Nat) :
    Except Verdict Segment :=
  let x := (s.exps.exp id).data
  if s.exps.unconfirmed id ∧ between x.seq p.seq (p.seq + p.datalen) then natHelp conn copy p x
  else .ok p

def doBindings (s : Tracker) (conn : Conn) (dir : Dir) (copy : Bool) (p : Segment) (hook : Hook) :
    Except Verdict Segment := do
  let p ← run (bindings copy dir hook) p conn.manips
  let p ← run (s.helpFor conn copy) p (s.exps.siblings conn.id)
  if hook = .postRouting then p.seqAdjust else .ok p

end Tracker

/-! ### The way of a segment -/

structure Answers where
  expect : Expectations.Answers
  /-- `skb_copy` finds memory. -/
  copy : Bool

inductive Event where
  /-- A segment of the connection, from the hook at which it is first seen to
      the hook at which it leaves. -/
  | segment (dir : Dir) (hook : Hook) (p : Segment) (a : Answers)
  /-- Something else happens to connections and expectations. -/
  | other (e : Expectations.Event)

namespace Tracker

def initial : Tracker := ⟨Expectations.initial, fun _ => none⟩

/-- The tracker afterwards, and what leaves. -/
def forward (s : Tracker) (conn : Conn) (dir : Dir) (hook : Hook) (p : Segment) (a : Answers) :
    Except Fault (Tracker × Except Verdict Segment) := do
  let s ← s.track conn dir p a.expect
  .ok (s, run (s.doBindings conn dir a.copy) p [hook, .postRouting])

/-- A connection that is allocated has seen nothing. -/
def renew (s : Tracker) (conn : Conn) : Expectations.Event → Tracker
  | .create id _ => if id = conn.id then { s with seqAftNl := fun _ => none } else s
  | _ => s

def step (conn : Conn) (s : Tracker) : Event → Except Fault Tracker
  | .segment dir hook p a => (s.forward conn dir hook p a).map Prod.fst
  | .other e => (s.exps.step e).map fun exps => { s.renew conn e with exps := exps }

/-! ## What the helper is for -/

/-- The connection has the helper, and the segment is in sequence, with the
address of its sender at `off`. -/
structure Sends (s : Tracker) (conn : Conn) (dir : Dir) (p : Segment) (off : Nat) : Prop where
  helper : s.exps.helper conn.id = some sc
  inSequence : ∀ next, s.seqAftNl dir = some next → p.seq = next
  pattern : findPatternSc p.payload (conn.tuple dir).srcIp = some off

/-- The segment leaves with the address under which the other end knows the
sender, and is as it should be. -/
def Rewritten (conn : Conn) (s : Tracker) : Event → Prop
  | .segment dir hook p a => ∀ off, s.Sends conn dir p off →
      ∃ t q, s.forward conn dir hook p a = .ok (t, .ok q) ∧
        q.payload = overwrite p.payload off (bytesOf (conn.tuple dir.other).dstIp) ∧ q.Valid
  | .other _ => True

/-- The place of the address is recorded. -/
structure Records (s : Tracker) (conn : Conn) (dir : Dir) (p : Segment) (a : Answers) (off : Nat) :
    Prop where
  seen : s.seqAftNl dir = some p.seq
  alloc : a.expect.alloc = true
  fresh : ∀ id ∈ s.exps.global,
    Expectations.resentExpect (expectation conn dir p off).tuple (expectation conn dir p off).mask
      (s.exps.exp id).data = false ∧
    Expectations.expectClash (expectation conn dir p off).tuple (expectation conn dir p off).mask
      (s.exps.exp id).data = false

/-- No place of an expectation of the connection lies in the segment. -/
def Clear (s : Tracker) (conn : Conn) (p : Segment) : Prop :=
  ∀ id ∈ s.exps.siblings conn.id, s.exps.unconfirmed id = true →
    between (s.exps.exp id).data.seq p.seq (p.seq + p.datalen) = false

/-- Segments with an address come with no places in them. -/
def Quiet (conn : Conn) (s : Tracker) : Event → Prop
  | .segment dir _ p _ => ∀ off, s.Sends conn dir p off → s.Clear conn p
  | .other _ => True

/-- The segment is in order, and its address is recorded and happens to be
replaced by the right one, or it is neither recorded nor to be replaced. -/
def Served (conn : Conn) (s : Tracker) : Event → Prop
  | .segment dir _ p a => ∀ off, s.Sends conn dir p off →
      p.Valid ∧ (∃ blocks, p.sackOption = .ok blocks) ∧
        (s.Records conn dir p a off ∧ (p.cloned = true → a.copy = true) ∧
            htonl conn.reply.dstIp = (conn.tuple dir.other).dstIp ∨
          ¬ s.Records conn dir p a off ∧
            (p.cloned = true → p.owned = true ∨ a.copy = true ∨ conn.manips = []) ∧
            (conn.tuple dir).srcIp = (conn.tuple dir.other).dstIp)
  | .other _ => True

/-! ## The way of one segment -/

section

variable {conn : Conn} {s t : Tracker} {dir : Dir} {hook : Hook} {p q : Segment} {off : Nat}
  {x : ExpectData}
  {copy : Bool} {a : Answers} {exps : Expectations}

theorem findPatternSc_spec {data : List UInt8} {own : UInt32}
    (h : findPatternSc data own = some off) :
    off + 4 ≤ data.length ∧ (data.drop off).take 4 = bytesOf own ∧ 0 < off ∧ off ≤ 24 := by
  unfold findPatternSc at h
  split at h
  · next hmatch =>
    cases h
    exact ⟨hmatch.1, hmatch.2.2.2.2.2, by decide, by decide⟩
  · split at h
    · next hmatch =>
      cases h
      exact ⟨Nat.le_of_lt hmatch.1, hmatch.2.2.2, by decide, by decide⟩
    · cases h

/-! ### Recording -/

theorem expectRelated_sc {ct : Nat} (hhelper : exps.helper ct = some sc) (x : ExpectData)
    (b : Expectations.Answers) :
    exps.expectRelated ct x b = .ok
      (if ∃ id ∈ exps.global, Expectations.resentExpect x.tuple x.mask (exps.exp id).data then
        (-EEXIST, exps)
      else if ∃ id ∈ exps.global, Expectations.expectClash x.tuple x.mask (exps.exp id).data then
        (-EBUSY, exps)
      else exps.allocate ct sc x b 0) := by
  have hnoLimit : ¬ (sc.maxExpected ≠ 0 ∧ sc.maxExpected ≤ exps.expecting ct) := fun h => h.1 rfl
  unfold Expectations.expectRelated Expectations.helperOf
  rw [hhelper, ok_bind]
  cases hfind : exps.global.find? fun id =>
      Expectations.resentExpect x.tuple x.mask (exps.exp id).data with
  | some old =>
    have hold := List.find?_some hfind
    have hresent : ∃ id ∈ exps.global,
        Expectations.resentExpect x.tuple x.mask (exps.exp id).data = true :=
      ⟨old, List.mem_of_find?_eq_some hfind, hold⟩
    rw [if_pos hresent]
    exact if_neg fun h => h.1 rfl
  | none =>
    have hnot : ¬ ∃ id ∈ exps.global,
        Expectations.resentExpect x.tuple x.mask (exps.exp id).data = true := by
      rintro ⟨id, hid, hresent⟩
      exact List.find?_eq_none.mp hfind id hid hresent
    dsimp only
    rw [if_neg hnot, if_neg hnoLimit]
    simp only [List.any_eq_true]
    split <;> rfl

theorem track_eq_help (hhelper : s.exps.helper conn.id = some sc) (b : Expectations.Answers) :
    s.track conn dir p b = s.help conn dir p b := by
  unfold track
  rw [hhelper]
  rfl

theorem exps_note : (s.note dir p).exps = s.exps := by
  unfold note
  dsimp only
  split <;> rfl

theorem Sends.track_eq (h : s.Sends conn dir p off) (hvalid : p.Valid)
    (hseen : s.seqAftNl dir = some p.seq) {ret : Int}
    (hrelated : s.exps.expectRelated conn.id (expectation conn dir p off) a.expect =
      .ok (ret, exps)) : s.track conn dir p a.expect = .ok { s.note dir p with exps := exps } := by
  rw [track_eq_help h.helper, help, if_pos hvalid, lookAt, if_pos hseen, h.pattern]
  dsimp only
  rw [hrelated, ok_bind]

theorem Sends.track_of_records (h : s.Sends conn dir p off) (hvalid : p.Valid)
    (hrec : s.Records conn dir p a off) :
    ∃ t, s.track conn dir p a.expect = .ok t ∧
      t.exps = s.exps.insert conn.id sc (expectation conn dir p off) := by
  have hrelated := expectRelated_sc h.helper (expectation conn dir p off) a.expect
  rw [if_neg, if_neg, Expectations.allocate, if_pos hrec.alloc] at hrelated
  · exact ⟨_, h.track_eq hvalid hrec.seen hrelated, rfl⟩
  · rintro ⟨id, hid, hclash⟩
    exact Bool.false_ne_true ((hrec.fresh id hid).2.symm.trans hclash)
  · rintro ⟨id, hid, hresent⟩
    exact Bool.false_ne_true ((hrec.fresh id hid).1.symm.trans hresent)

theorem Sends.track_of_not_records (h : s.Sends conn dir p off)
    (hnot : ¬ (p.Valid ∧ s.Records conn dir p a off)) :
    ∃ t, s.track conn dir p a.expect = .ok t ∧ t.exps = s.exps := by
  by_cases hvalid : p.Valid
  · by_cases hseen : s.seqAftNl dir = some p.seq
    · obtain ⟨ret, hrelated⟩ : ∃ ret, s.exps.expectRelated conn.id (expectation conn dir p off)
          a.expect = .ok (ret, s.exps) := by
        rw [expectRelated_sc h.helper]
        split
        · exact ⟨_, rfl⟩
        · next hresent =>
          split
          · exact ⟨_, rfl⟩
          · next hclash =>
            unfold Expectations.allocate
            refine ⟨_, congrArg _ (if_neg fun halloc => hnot ⟨hvalid, hseen, halloc, ?_⟩)⟩
            exact fun id hid => ⟨Bool.eq_false_iff.mpr fun hr => hresent ⟨id, hid, hr⟩,
              Bool.eq_false_iff.mpr fun hc => hclash ⟨id, hid, hc⟩⟩
      exact ⟨_, h.track_eq hvalid hseen hrelated, rfl⟩
    · refine ⟨s.note dir p, ?_, exps_note⟩
      rw [track_eq_help h.helper, help, if_pos hvalid, lookAt, if_neg hseen]
  · refine ⟨s, ?_, rfl⟩
    rw [track_eq_help h.helper, help, if_neg hvalid]

/-! ### Rewriting -/

theorem Clear.alike (h : s.Clear conn p) (halike : p.Alike q) : s.Clear conn q := by
  unfold Clear
  rw [halike.seq, datalen, halike.payload]
  exact h

theorem run_helpFor_quiet {ids : List Nat}
    (hquiet : ∀ id ∈ ids, s.exps.unconfirmed id = true →
      between (s.exps.exp id).data.seq p.seq (p.seq + p.datalen) = false) :
    run (s.helpFor conn copy) p ids = .ok p := by
  induction ids with
  | nil => rfl
  | cons id ids ih =>
    have hskip : s.helpFor conn copy p id = .ok p := by
      unfold helpFor
      refine if_neg fun hand => ?_
      exact Bool.false_ne_true ((hquiet id List.mem_cons_self hand.1).symm.trans hand.2)
    rw [run_cons, hskip, ok_bind]
    exact ih fun id hid => hquiet id (List.mem_cons_of_mem _ hid)

theorem toNat_datalen (p : Segment) : p.datalen.toNat = p.payload.length := by
  have hlen := p.len_le
  exact UInt32.toNat_ofNat_of_lt' (show p.payload.length < 4294967296 by omega)

theorem between_of_le {n : Nat} (hn : n ≤ p.payload.length) :
    between (p.seq + UInt32.ofNat n) p.seq (p.seq + p.datalen) = true := by
  have hlen := p.len_le
  have hcancel : ∀ x : UInt32, p.seq + x - p.seq = x := fun x => by
    rw [UInt32.add_comm, UInt32.add_sub_cancel]
  unfold between
  rw [hcancel, hcancel, decide_eq_true_eq, UInt32.le_iff_toNat_le, toNat_datalen,
    UInt32.toNat_ofNat_of_lt' (show n < 4294967296 by omega)]
  exact hn

theorem score_eq_two (hseq : x.seq = p.seq + UInt32.ofNat off) (hlen : x.len = 4)
    (hoff : off + 4 ≤ p.payload.length) : score p x = 2 := by
  have hend : x.seq + x.len = p.seq + UInt32.ofNat (off + 4) := by
    rw [hseq, hlen, UInt32.ofNat_add, UInt32.add_assoc]
    rfl
  unfold score
  rw [hend, hseq, between_of_le hoff, between_of_le (Nat.le_of_add_right_le hoff)]
  rfl

theorem fixup_eq (hseq : x.seq = p.seq + UInt32.ofNat off) (hlen : x.len = 4)
    (hoff : off + 4 ≤ p.payload.length) :
    fixup conn copy p x =
      p.mangle copy off (UInt32.ofNat (bytesOf (htonl conn.reply.dstIp)).length)
        (bytesOf (htonl conn.reply.dstIp)) := by
  have hle := p.len_le
  have htwo : score p x = 2 := score_eq_two hseq hlen hoff
  have hplace : (x.seq - p.seq).toNat = off := by
    rw [hseq, UInt32.add_comm, UInt32.add_sub_cancel]
    exact UInt32.toNat_ofNat_of_lt' (show off < 4294967296 by omega)
  unfold fixup dataFixup
  rw [htwo, hplace, hlen]
  rfl

/-- The address is written over. -/
structure Mangled (conn : Conn) (off : Nat) (p q : Segment) : Prop where
  seq : q.seq = p.seq
  options : q.options = p.options
  payload : q.payload = overwrite p.payload off (bytesOf (htonl conn.reply.dstIp))
  owned : q.owned = p.owned
  cloned : q.cloned = false
  valid : q.Valid

theorem Mangled.alike {r r' : Segment} (h : Mangled conn off r r') (hp : p.Alike r)
    (hq : r'.Alike q) (hcloned : q.cloned = r'.cloned) : Mangled conn off p q where
  seq := hq.seq.trans (h.seq.trans hp.seq)
  options := hq.options.trans (h.options.trans hp.options)
  payload := hq.payload.trans (h.payload.trans (by rw [hp.payload]))
  owned := hq.owned.trans (h.owned.trans hp.owned)
  cloned := hcloned.trans h.cloned
  valid := hq.valid.mpr h.valid

theorem Mangled.sackOption (h : Mangled conn off p q) (hpos : 0 < off) :
    q.sackOption = p.sackOption :=
  sackOption_congr h.options (by rw [h.payload, take_overwrite hpos])

theorem natHelp_eq (hseq : x.seq = p.seq + UInt32.ofNat off) (hlen : x.len = 4)
    (hoff : off + 4 ≤ p.payload.length) (hcopy : p.cloned = true → copy = true) :
    ∃ q, natHelp conn copy p x = q.seqAdjust ∧ Mangled conn off p q := by
  obtain ⟨q, hq, hseq', hopt, hpay, howned, hcloned, hvalid⟩ :=
    mangle_eq off (bytesOf (htonl conn.reply.dstIp)) hcopy
  refine ⟨q, ?_, hseq', hopt, hpay, howned, hcloned, hvalid⟩
  unfold natHelp
  rw [fixup_eq hseq hlen hoff, hq, ok_bind]

/-- The end of `do_bindings`. -/
def finish (p : Segment) (hook : Hook) : Except Verdict Segment :=
  if hook = .postRouting then p.seqAdjust else .ok p

theorem finish_eq (hsack : ∃ blocks, p.sackOption = .ok blocks) (hook : Hook) :
    ∃ q, finish p hook = .ok q ∧ p.Alike q ∧ q.cloned = p.cloned := by
  obtain ⟨blocks, hblocks⟩ := hsack
  unfold finish
  split
  · exact seqAdjust_eq hblocks
  · exact ⟨p, rfl, .refl p, rfl⟩

theorem alike_of_finish (h : finish p hook = .ok q) : p.Alike q ∧ q.cloned = p.cloned := by
  unfold finish at h
  split at h
  · obtain ⟨blocks, hblocks⟩ := sackOption_of_seqAdjust h
    obtain ⟨q', hq', halike, hcloned⟩ := seqAdjust_eq hblocks
    obtain rfl : q = q' := Except.ok.inj (h.symm.trans hq')
    exact ⟨halike, hcloned⟩
  · obtain rfl : p = q := Except.ok.inj h
    exact ⟨.refl p, rfl⟩

theorem doBindings_quiet (hclear : s.Clear conn p)
    (hcopy : p.cloned = true → p.owned = true ∨ copy = true ∨ conn.manips = []) (hook : Hook) :
    ∃ q, s.doBindings conn dir copy p hook = finish q hook ∧ p.Alike q ∧
      (q.cloned = true → p.owned = true ∨ conn.manips = []) := by
  obtain ⟨q, hq, halike, hcloned⟩ := run_bindings hcopy
  refine ⟨q, ?_, halike, fun h => (hcloned.mp h).2⟩
  have hloop : run (s.helpFor conn copy) q (s.exps.siblings conn.id) = .ok q :=
    run_helpFor_quiet (hclear.alike halike)
  unfold doBindings
  rw [hq, ok_bind, hloop, ok_bind]
  rfl

theorem doBindings_drop (hcloned : p.cloned = true) (howned : p.owned = false)
    (hmanips : conn.manips ≠ []) (hook : Hook) :
    s.doBindings conn dir false p hook = .error .drop := by
  unfold doBindings
  rw [run_bindings_drop hcloned howned hmanips]
  rfl

/-! ### A segment whose address is recorded -/

variable {x : ExpectData}

/-- The place of the address is the first of the expectations, and no other
lies in the segment. -/
structure Place (s : Tracker) (conn : Conn) (p : Segment) (x : ExpectData) (off : Nat) : Prop where
  first : ∃ id rest, s.exps.siblings conn.id = id :: rest ∧ (s.exps.exp id).data = x ∧
    s.exps.unconfirmed id = true ∧ ∀ id ∈ rest, s.exps.unconfirmed id = true →
      between (s.exps.exp id).data.seq p.seq (p.seq + p.datalen) = false
  seq : x.seq = p.seq + UInt32.ofNat off
  len : x.len = 4
  off_le : off + 4 ≤ p.payload.length
  pos : 0 < off

section
variable (h : s.Place conn p x off)
include h

theorem Place.congr (hseq : q.seq = p.seq)
    (hlength : q.payload.length = p.payload.length) : s.Place conn q x off where
  first := by
    rw [hseq, datalen, hlength]
    exact h.first
  seq := hseq ▸ h.seq
  len := h.len
  off_le := hlength ▸ h.off_le
  pos := h.pos

theorem Place.between : between x.seq p.seq (p.seq + p.datalen) = true := by
  rw [h.seq]
  exact between_of_le (Nat.le_of_add_right_le h.off_le)

theorem Place.run_helpFor (hcopy : p.cloned = true → copy = true) :
    ∃ q, run (s.helpFor conn copy) p (s.exps.siblings conn.id) = q.seqAdjust ∧
      Mangled conn off p q := by
  obtain ⟨id, rest, hsiblings, hx, hunc, hrest⟩ := h.first
  obtain ⟨q, hq, hmangled⟩ := natHelp_eq h.seq h.len h.off_le hcopy
  refine ⟨q, ?_, hmangled⟩
  have hhelp : s.helpFor conn copy p id = q.seqAdjust := by
    unfold helpFor
    rw [hx]
    exact (if_pos ⟨hunc, h.between⟩).trans hq
  rw [hsiblings, run_cons, hhelp]
  cases hsack : q.sackOption with
  | error e => rw [seqAdjust_error hsack]; rfl
  | ok blocks =>
    obtain ⟨r, hr, halike, -⟩ := seqAdjust_eq hsack
    rw [hr, ok_bind]
    apply run_helpFor_quiet
    have hseq : r.seq = p.seq := halike.seq.trans hmangled.seq
    have hlength : r.payload.length = p.payload.length := by
      rw [halike.payload, hmangled.payload, length_overwrite]
    rw [hseq, datalen, hlength]
    exact hrest

theorem Place.doBindings_eq (hcopy : p.cloned = true → copy = true) (hook : Hook) :
    ∃ q, s.doBindings conn dir copy p hook = (q.seqAdjust >>= fun q => finish q hook) ∧
      Mangled conn off p q := by
  obtain ⟨r, hr, halike, hcloned⟩ := run_bindings fun hcl => .inr (.inl (hcopy hcl))
  have hrcopy : r.cloned = true → copy = true := fun hcl => hcopy (hcloned.mp hcl).1
  obtain ⟨q, hq, hmangled⟩ := (h.congr halike.seq (by rw [halike.payload])).run_helpFor hrcopy
  refine ⟨q, ?_, hmangled.alike halike (.refl q) rfl⟩
  unfold Tracker.doBindings
  rw [hr, ok_bind, hq]
  rfl

/-- At a hook the address is written over, if the options have an end. -/
theorem Place.doBindings (hcopy : p.cloned = true → copy = true)
    (hsack : ∃ blocks, p.sackOption = .ok blocks) (hook : Hook) :
    ∃ q, s.doBindings conn dir copy p hook = .ok q ∧ Mangled conn off p q := by
  obtain ⟨u, hu, hmangled⟩ := h.doBindings_eq hcopy hook
  obtain ⟨blocks, hblocks⟩ := hsack
  have hublocks : u.sackOption = .ok blocks := (hmangled.sackOption h.pos).trans hblocks
  obtain ⟨v, hv, halike, hcloned⟩ := seqAdjust_eq hublocks
  obtain ⟨q, hq, halike', hcloned'⟩ := finish_eq ⟨blocks, halike.sackOption.trans hublocks⟩ hook
  refine ⟨q, ?_, hmangled.alike (.refl p) (halike.trans halike') (hcloned'.trans hcloned)⟩
  rw [hu, hv, ok_bind, hq]

theorem Place.copy_of_ok (hok : s.doBindings conn dir copy p hook = .ok q)
    (hcloned : p.cloned = true) : copy = true := by
  by_contra hcopy
  obtain rfl : copy = false := Bool.eq_false_iff.mpr hcopy
  by_cases hbind : p.owned = true ∨ conn.manips = []
  · -- the manips leave the clone, and then the helper needs a copy
    obtain ⟨r, hr, halike, hrcloned⟩ : ∃ r, run (bindings false dir hook) p conn.manips = .ok r ∧
        p.Alike r ∧ (r.cloned = true ↔ p.cloned = true ∧ (p.owned = true ∨ conn.manips = [])) :=
      run_bindings fun _ => hbind.imp id .inr
    have hplace := h.congr halike.seq (by rw [halike.payload])
    obtain ⟨id, rest, hsiblings, hx, hunc, -⟩ := hplace.first
    have hhelp : s.helpFor conn false r id = .error .drop := by
      unfold helpFor
      rw [hx]
      refine (if_pos ⟨hunc, hplace.between⟩).trans ?_
      rw [natHelp, fixup_eq hplace.seq hplace.len hplace.off_le,
        mangle_drop off _ (hrcloned.mpr ⟨hcloned, hbind⟩)]
      rfl
    unfold Tracker.doBindings at hok
    rw [hr, ok_bind, hsiblings, run_cons, hhelp] at hok
    cases hok
  · rw [doBindings_drop hcloned (Bool.eq_false_iff.mpr fun ho => hbind (.inl ho))
      fun hm => hbind (.inr hm)] at hok
    cases hok

theorem Place.sack_of_ok (hok : s.doBindings conn dir copy p hook = .ok q) :
    ∃ blocks, p.sackOption = .ok blocks := by
  obtain ⟨u, hu, hmangled⟩ := h.doBindings_eq (h.copy_of_ok hok) hook
  cases hsack : p.sackOption with
  | ok blocks => exact ⟨blocks, rfl⟩
  | error e =>
    rw [hu, seqAdjust_error ((hmangled.sackOption h.pos).trans hsack)] at hok
    cases hok

end

/-! ### The hooks -/

theorem run_hooks : run (s.doBindings conn dir copy) p [hook, .postRouting] =
    s.doBindings conn dir copy p hook >>= fun p => s.doBindings conn dir copy p .postRouting := by
  rw [run_cons]
  congr 1
  funext r
  rw [run_cons]
  cases s.doBindings conn dir copy r .postRouting <;> rfl

theorem Place.run_hooks (h : s.Place conn p x off) (hcopy : p.cloned = true → copy = true)
    (hsack : ∃ blocks, p.sackOption = .ok blocks) (hook : Hook) :
    ∃ q, run (s.doBindings conn dir copy) p [hook, .postRouting] = .ok q ∧
      q.payload = overwrite p.payload off (bytesOf (htonl conn.reply.dstIp)) ∧ q.Valid := by
  obtain ⟨r, hr, hpr⟩ := h.doBindings hcopy hsack hook
  have hplace : s.Place conn r x off :=
    h.congr hpr.seq (by rw [hpr.payload, length_overwrite])
  -- the first hook has left a copy
  have huncloned : r.cloned ≠ true := fun hcl => Bool.false_ne_true (hpr.cloned.symm.trans hcl)
  obtain ⟨q, hq, hrq⟩ := hplace.doBindings (fun hcl => absurd hcl huncloned)
    (hpr.sackOption h.pos ▸ hsack) .postRouting
  refine ⟨q, ?_, ?_, hrq.valid⟩
  · rw [Tracker.run_hooks, hr, ok_bind, hq]
  · rw [hrq.payload, hpr.payload, overwrite_overwrite rfl]

theorem doBindings_after (hclear : s.Clear conn p)
    (hcopy : p.cloned = true → p.owned = true ∨ copy = true ∨ conn.manips = [])
    (hok : s.doBindings conn dir copy p hook = .ok q) :
    ∃ r, s.doBindings conn dir copy q .postRouting = finish r .postRouting ∧ p.Alike r := by
  obtain ⟨u, hu, hpu, hucloned⟩ := doBindings_quiet hclear hcopy hook
  obtain ⟨huq, hqcloned⟩ := alike_of_finish (hu.symm.trans hok)
  have hpq : p.Alike q := hpu.trans huq
  have hqcopy : q.cloned = true → q.owned = true ∨ copy = true ∨ conn.manips = [] := fun hcl =>
    (hucloned (hqcloned ▸ hcl)).imp hpq.owned.trans .inr
  obtain ⟨r, hr, hqr, -⟩ := doBindings_quiet (hclear.alike hpq) hqcopy .postRouting
  exact ⟨r, hr, hpq.trans hqr⟩

theorem run_hooks_quiet (hclear : s.Clear conn p)
    (hcopy : p.cloned = true → p.owned = true ∨ copy = true ∨ conn.manips = [])
    (hsack : ∃ blocks, p.sackOption = .ok blocks) (hook : Hook) :
    ∃ q, run (s.doBindings conn dir copy) p [hook, .postRouting] = .ok q ∧ p.Alike q := by
  obtain ⟨r, hr, hpr, -⟩ := doBindings_quiet hclear hcopy hook
  obtain ⟨u, hu, -⟩ := finish_eq (hpr.sackOption ▸ hsack) hook
  obtain ⟨v, hv, hpv⟩ := doBindings_after hclear hcopy (hr.trans hu)
  obtain ⟨q, hq, hvq, -⟩ := finish_eq (hpv.sackOption ▸ hsack) .postRouting
  refine ⟨q, ?_, hpv.trans hvq⟩
  rw [run_hooks, hr, hu, ok_bind, hv, hq]

theorem quiet_of_ok (hclear : s.Clear conn p)
    (hok : run (s.doBindings conn dir copy) p [hook, .postRouting] = .ok q) :
    (p.cloned = true → p.owned = true ∨ copy = true ∨ conn.manips = []) ∧
      ∃ blocks, p.sackOption = .ok blocks := by
  rw [run_hooks] at hok
  obtain ⟨u, hu, hq⟩ := bind_eq_ok.mp hok
  have hcopy : p.cloned = true → p.owned = true ∨ copy = true ∨ conn.manips = [] := by
    intro hcloned
    by_contra hnot
    simp only [not_or, Bool.not_eq_true] at hnot
    obtain ⟨howned, rfl, hmanips⟩ := hnot
    rw [doBindings_drop hcloned howned hmanips] at hu
    cases hu
  refine ⟨hcopy, ?_⟩
  obtain ⟨v, hv, hpv⟩ := doBindings_after hclear hcopy hu
  rw [hv] at hq
  rw [← hpv.sackOption]
  exact sackOption_of_seqAdjust hq

/-! ### All together -/

theorem Sends.place (h : s.Sends conn dir p off) (hinv : s.exps.Inv) (hclear : s.Clear conn p)
    (ht : t.exps = s.exps.insert conn.id sc (expectation conn dir p off)) :
    t.Place conn p (expectation conn dir p off) off where
  first := by
    have hold : ∀ id ∈ s.exps.siblings conn.id, t.exps.exp id = s.exps.exp id := by
      intro id hid
      rw [ht]
      exact Expectations.exp_insert_ne fun e => hinv.next_not_mem conn.id (e ▸ hid)
    refine ⟨s.exps.next, s.exps.siblings conn.id, ?_, ?_, ?_, ?_⟩
    · rw [ht, Expectations.siblings_insert, if_pos rfl]
    · rw [ht, Expectations.exp_insert_self]
    · rw [ht]
      exact Expectations.unconfirmed_insert_self ..
    · intro id hid hunc
      rw [Expectations.unconfirmed_congr (hold id hid)] at hunc
      rw [hold id hid]
      exact hclear id hid hunc
  seq := rfl
  len := rfl
  off_le := (findPatternSc_spec h.pattern).1
  pos := (findPatternSc_spec h.pattern).2.2.1

theorem forward_eq (ht : s.track conn dir p a.expect = .ok t) :
    s.forward conn dir hook p a =
      .ok (t, run (t.doBindings conn dir a.copy) p [hook, .postRouting]) := by
  unfold forward
  rw [ht, ok_bind]

theorem Sends.rewritten_iff_of_records (h : s.Sends conn dir p off)
    (hplace : t.Place conn p x off) (ht : s.track conn dir p a.expect = .ok t) (ip : UInt32) :
    (∃ t q, s.forward conn dir hook p a = .ok (t, .ok q) ∧
        q.payload = overwrite p.payload off (bytesOf ip) ∧ q.Valid) ↔
      (∃ blocks, p.sackOption = .ok blocks) ∧ (p.cloned = true → a.copy = true) ∧
        htonl conn.reply.dstIp = ip := by
  have hinj : overwrite p.payload off (bytesOf (htonl conn.reply.dstIp)) =
      overwrite p.payload off (bytesOf ip) ↔ htonl conn.reply.dstIp = ip :=
    overwrite_bytesOf_inj (findPatternSc_spec h.pattern).1
  rw [forward_eq ht]
  constructor
  · rintro ⟨t', q, hok, hpayload, -⟩
    obtain ⟨rfl, hq⟩ : t = t' ∧ _ = Except.ok q := by simpa using hok
    obtain ⟨r, hr, -⟩ := bind_eq_ok.mp (Tracker.run_hooks.symm.trans hq)
    have hcopy := hplace.copy_of_ok hr
    have hsack := hplace.sack_of_ok hr
    obtain ⟨q', hq', hpayload', -⟩ := hplace.run_hooks hcopy hsack hook
    obtain rfl : q = q' := Except.ok.inj (hq.symm.trans hq')
    exact ⟨hsack, hcopy, hinj.mp (hpayload'.symm.trans hpayload)⟩
  · rintro ⟨hsack, hcopy, hip⟩
    obtain ⟨q, hq, hpayload, hvalid⟩ := hplace.run_hooks hcopy hsack hook
    exact ⟨t, q, by rw [hq], hpayload.trans (hinj.mpr hip), hvalid⟩

theorem Sends.rewritten_iff_of_quiet (h : s.Sends conn dir p off) (hclear : t.Clear conn p)
    (ht : s.track conn dir p a.expect = .ok t) (ip : UInt32) :
    (∃ t q, s.forward conn dir hook p a = .ok (t, .ok q) ∧
        q.payload = overwrite p.payload off (bytesOf ip) ∧ q.Valid) ↔
      p.Valid ∧ (∃ blocks, p.sackOption = .ok blocks) ∧
        (p.cloned = true → p.owned = true ∨ a.copy = true ∨ conn.manips = []) ∧
        (conn.tuple dir).srcIp = ip := by
  have hinj : p.payload = overwrite p.payload off (bytesOf ip) ↔ (conn.tuple dir).srcIp = ip := by
    obtain ⟨hle, hown, -⟩ := findPatternSc_spec h.pattern
    rw [← overwrite_bytesOf_inj hle, ← hown, overwrite_slice]
  rw [forward_eq ht]
  constructor
  · rintro ⟨t', q, hok, hpayload, hvalid⟩
    obtain ⟨rfl, hq⟩ : t = t' ∧ _ = Except.ok q := by simpa using hok
    obtain ⟨hcopy, hsack⟩ := quiet_of_ok hclear hq
    obtain ⟨q', hq', halike⟩ := run_hooks_quiet hclear hcopy hsack hook
    obtain rfl : q = q' := Except.ok.inj (hq.symm.trans hq')
    exact ⟨halike.valid.mp hvalid, hsack, hcopy, hinj.mp (halike.payload.symm.trans hpayload)⟩
  · rintro ⟨hvalid, hsack, hcopy, hip⟩
    obtain ⟨q, hq, halike⟩ := run_hooks_quiet hclear hcopy hsack hook
    exact ⟨t, q, by rw [hq], halike.payload.trans (hinj.mpr hip), halike.valid.mpr hvalid⟩

end

/-! ## Runs -/

section

variable {conn : Conn} {s t : Tracker} {e : Event}

/-- What becomes of one segment, if no other place lies in it. -/
theorem rewritten_iff (hinv : s.exps.Inv) (hquiet : Quiet conn s e) :
    Rewritten conn s e ↔ Served conn s e := by
  cases e with
  | other e => exact Iff.rfl
  | segment dir hook p a =>
    refine forall_congr' fun off => forall_congr' fun h => ?_
    have hclear : s.Clear conn p := hquiet off h
    by_cases hrec : p.Valid ∧ s.Records conn dir p a off
    · obtain ⟨t, ht, hexps⟩ := h.track_of_records hrec.1 hrec.2
      rw [h.rewritten_iff_of_records (h.place hinv hclear hexps) ht]
      constructor
      · rintro ⟨hsack, hcopy, hip⟩
        exact ⟨hrec.1, hsack, .inl ⟨hrec.2, hcopy, hip⟩⟩
      · rintro ⟨-, hsack, ⟨-, hcopy, hip⟩ | ⟨hnot, -⟩⟩
        · exact ⟨hsack, hcopy, hip⟩
        · exact absurd hrec.2 hnot
    · obtain ⟨t, ht, hexps⟩ := h.track_of_not_records hrec
      have hclear' : t.Clear conn p := by
        unfold Clear
        rw [hexps]
        exact hclear
      rw [h.rewritten_iff_of_quiet hclear' ht]
      constructor
      · rintro ⟨hvalid, hsack, hcopy, hip⟩
        exact ⟨hvalid, hsack, .inr ⟨fun hr => hrec ⟨hvalid, hr⟩, hcopy, hip⟩⟩
      · rintro ⟨hvalid, hsack, ⟨hr, -⟩ | ⟨-, hcopy, hip⟩⟩
        · exact absurd ⟨hvalid, hr⟩ hrec
        · exact ⟨hvalid, hsack, hcopy, hip⟩

theorem inv_track {dir : Dir} {p : Segment} {b : Expectations.Answers} (hinv : s.exps.Inv)
    (h : s.track conn dir p b = .ok t) : t.exps.Inv := by
  have hnote : (s.note dir p).exps.Inv := by
    rw [exps_note]
    exact hinv
  unfold track at h
  refine of_skipped (P := fun t => t.exps.Inv) hinv (fun _ h => ?_) h
  unfold help at h
  split at h
  · split at h
    · cases h
      exact hnote
    · obtain ⟨⟨ret, exps⟩, hrelated, heq⟩ := bind_eq_ok.mp h
      cases heq
      exact (hinv.expectRelated hrelated).1
  · cases h
    exact hinv

theorem inv_step (hinv : s.exps.Inv) (h : step conn s e = .ok t) : t.exps.Inv := by
  cases e with
  | segment dir hook p a =>
    obtain ⟨⟨u, leaves⟩, hforward, rfl⟩ := map_eq_ok.mp h
    obtain ⟨v, hv, heq⟩ := bind_eq_ok.mp hforward
    cases heq
    exact inv_track hinv hv
  | other e =>
    obtain ⟨exps, hexps, rfl⟩ := map_eq_ok.mp h
    exact (hinv.step hexps).1

/-- **Rewriting**: in a run in which no other place of an expectation lies in
a segment with an address, every such segment is rewritten if and only if
it is served. -/
theorem rewritten_along_iff {es : List Event} (hquiet : Along (step conn) (Quiet conn) initial es) :
    Along (step conn) (Rewritten conn) initial es ↔ Along (step conn) (Served conn) initial es := by
  have hboth : Along (step conn) (fun s e => Quiet conn s e ∧ Rewritten conn s e) initial es ↔
      Along (step conn) (fun s e => Quiet conn s e ∧ Served conn s e) initial es :=
    along_iff_along (J := fun s => s.exps.Inv) (fun s e t hinv h => inv_step hinv h)
      (fun s e hinv => and_congr_right fun hq => rewritten_iff hinv hq) Expectations.inv_initial
  rw [along_and, along_and] at hboth
  simpa only [hquiet, true_and] using hboth

/-- A client behind an address, and a server. -/
def snat (wan : UInt32) : Conn where
  id := 0
  orig := ⟨0x0200a8c0, 0x0104, 0x0100000a, 0xe017, 6⟩
  reply := ⟨0x0100000a, 0xe017, wan, 0x0104, 6⟩
  manips := [⟨.original, .postRouting, true, wan, 0x0104⟩,
    ⟨.reply, .preRouting, false, 0x0200a8c0, 0x0104⟩]

theorem len_sample : 20 + (20 + 0 + 24) ≤ 65535 := by decide

/-- A segment of the client, with the checksum filled in. -/
def fromClient (kind : UInt8) (seq : UInt32) : Segment :=
  Segment.replace
    { saddr := 0x0200a8c0
      daddr := 0x0100000a
      source := 0x0104
      dest := 0xe017
      seq := seq
      ack := 0
      words := [0x1050, 0, 0]
      check := 0
      options := []
      payload := [0xff, kind, 24, 0, 1, 0, 0, 0, 0, 0, 0, 0, 0, 0, 0, 0, 0, 0, 0, 0, 192, 168, 0, 2]
      ipHeader := 20
      len_le := len_sample
      cloned := false
      owned := false } 0 []

def granted : Answers := ⟨⟨true, true⟩, true⟩

/-- The connection, and a first segment of it. -/
def started : List Event :=
  [.other (.create 0 (some sc)), .segment .original .preRouting (fromClient 0 1000) granted]

/-- The address of the gateway reads the same from both ends. -/
theorem message_rewritten :
    Along (step (snat 0x01020201)) (Rewritten (snat 0x01020201)) initial
      (started ++ [.segment .original .preRouting (fromClient 9 1024) granted]) := by
  have hplain : findPatternSc (fromClient 0 1000).payload (snat 0x01020201).orig.srcIp = none := rfl
  have hquiet : Along (step (snat 0x01020201)) (Quiet (snat 0x01020201)) initial
      (started ++ [.segment .original .preRouting (fromClient 9 1024) granted]) := by
    refine .cons rfl trivial (.cons rfl ?_ (.cons rfl ?_ trivial))
    · exact fun off h => absurd (hplain.symm.trans h.pattern) (by simp)
    · exact fun off _ id hid => absurd hid List.not_mem_nil
  refine (rewritten_along_iff hquiet).mpr (.cons rfl trivial (.cons rfl ?_ (.cons rfl ?_ trivial)))
  · exact fun off h => absurd (hplain.symm.trans h.pattern) (by simp)
  · intro off _
    refine ⟨by decide, ⟨[], rfl⟩, .inl ⟨⟨rfl, rfl, ?_⟩, fun _ => rfl, rfl⟩⟩
    exact fun id hid => absurd hid List.not_mem_nil

/-- The first message leaves with an address that is not that of the gateway,
and the second one as it came. -/
theorem message_not_rewritten :
    ∃ s t u q r, run (step (snat 0x04030201)) initial started = .ok s ∧
      s.Sends (snat 0x04030201) .original (fromClient 9 1024) 20 ∧
      s.forward (snat 0x04030201) .original .preRouting (fromClient 9 1024) granted =
        .ok (t, .ok q) ∧
      (q.payload.drop 20).take 4 = [4, 3, 2, 1] ∧
      t.Sends (snat 0x04030201) .original (fromClient 9 1048) 20 ∧
      t.forward (snat 0x04030201) .original .preRouting (fromClient 9 1048) granted =
        .ok (u, .ok r) ∧
      r.payload = (fromClient 9 1048).payload ∧
      bytesOf ((snat 0x04030201).tuple .reply).dstIp = [1, 2, 3, 4] :=
  ⟨_, _, _, _, _, rfl, ⟨rfl, fun _ h => Option.some.inj h, rfl⟩, rfl, rfl,
    ⟨rfl, fun _ h => Option.some.inj h, rfl⟩, rfl, rfl, rfl⟩

end

end Tracker

end Starcraft

end Conntrack
