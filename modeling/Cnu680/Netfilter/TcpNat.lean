import Cnu680.Framework.Checksum
import Cnu680.Netfilter.Conntrack

/-! # TCP Segments and Address Translation

What address translation does to a TCP segment: the addresses and ports
are changed (`manip_pkt`), a helper may replace some of the data
(`ip_nat_mangle_tcp_packet`), and the sequence numbers are adjusted
(`ip_nat_seq_adjust`). The checksum follows each change.

Words are as they are in the memory of the processor, whose byte order is
not that of the network. The segments here keep their lengths. So no
offset is ever recorded for the connection, and the sequence numbers, and
those in the SACK option, are replaced by themselves. -/

open Framework

namespace Conntrack

/-! ### Words and bytes -/

def htonl (x : UInt32) : UInt32 :=
  (x >>> 24) ||| ((x >>> 8) &&& (0xff00 : UInt32)) ||| ((x <<< 8) &&& (0xff0000 : UInt32)) |||
    (x <<< 24)

def htons (x : UInt16) : UInt16 := (x >>> 8) ||| (x <<< 8)

/-- The bytes of a word, in memory. -/
def bytesOf (x : UInt32) : List UInt8 :=
  [x.toUInt8, (x >>> 8).toUInt8, (x >>> 16).toUInt8, (x >>> 24).toUInt8]

/-- The word at the beginning of the bytes. -/
def wordOf (bs : List UInt8) : UInt32 :=
  (bs.getD 0 0).toUInt32 ||| ((bs.getD 1 0).toUInt32 <<< 8) |||
    ((bs.getD 2 0).toUInt32 <<< 16) ||| ((bs.getD 3 0).toUInt32 <<< 24)

def after (seq1 seq2 : UInt32) : Bool := (seq2 - seq1).toInt32 < 0

def between (seq1 seq2 seq3 : UInt32) : Bool := seq1 - seq2 ≤ seq3 - seq2

/-! ### Segments -/

structure Segment where
  saddr : UInt32
  daddr : UInt32
  source : UInt16
  dest : UInt16
  /-- The numbers, after `ntohl`. -/
  seq : UInt32
  ack : UInt32
  /-- The data offset with the flags, the window and the urgent pointer. -/
  words : List UInt16
  check : UInt16
  options : List UInt8
  payload : List UInt8
  /-- `ihl * 4`. -/
  ipHeader : Nat
  len_le : ipHeader + (20 + options.length + payload.length) ≤ 65535
  /-- `skb_cloned`. -/
  cloned : Bool
  /-- There is a socket, `skb->sk`. -/
  owned : Bool

/-- Why a segment does not go on. -/
inductive Verdict where
  /-- `NF_DROP`. -/
  | drop
  /-- The loop over the options does not end. -/
  | hang
  /-- Options are looked for behind the end of the packet. -/
  | outside
  /-- The packet would change its length. -/
  | resize
  deriving DecidableEq, Repr

namespace Segment

def tcplen (p : Segment) : Nat := 20 + p.options.length + p.payload.length

def datalen (p : Segment) : UInt32 := UInt32.ofNat p.payload.length

def IPPROTO_TCP : Nat := 6

def wordsSum : List UInt16 → Nat
  | [] => 0
  | w :: ws => w.toNat + wordsSum ws

/-- What the words of the segment and of its pseudo header add up to, apart
from the checksum. -/
def sumBut (p : Segment) : Nat :=
  p.saddr.toNat + p.daddr.toNat + (htons (UInt16.ofNat p.tcplen)).toNat + IPPROTO_TCP * 256 +
    p.source.toNat + p.dest.toNat + (htonl p.seq).toNat + (htonl p.ack).toNat +
    wordsSum p.words + wordSum p.options + wordSum p.payload

/-- `tcp_v4_check` over the segment as it is, which is 0 if it is right. -/
def tcpV4Check (p : Segment) : Nat := checksum (p.sumBut + p.check.toNat)

def Valid (p : Segment) : Prop := p.tcpV4Check = 0

instance (p : Segment) : Decidable p.Valid := inferInstanceAs (Decidable (_ = _))

end Segment

def ipNatCheatCheck (oldvalinv newval : UInt32) (oldcheck : UInt16) : UInt16 :=
  UInt16.ofNat (checksum (oldvalinv.toNat + newval.toNat + (oldcheck ^^^ 0xffff).toNat))

namespace Segment

/-! ### Addresses and ports -/

inductive Hook where
  | preRouting | localOut | postRouting
  deriving DecidableEq, Repr

/-- A change of addresses, for one direction of a connection. -/
structure Manip where
  dir : Dir
  hook : Hook
  /-- `IP_NAT_MANIP_SRC`. -/
  src : Bool
  ip : UInt32
  port : UInt16
  deriving DecidableEq, Repr

def manipPkt (p : Segment) (m : Manip) : Segment :=
  if m.src then
    { p with
      check := ipNatCheatCheck (~~~p.saddr) m.ip
        (ipNatCheatCheck (p.source ^^^ 0xffff).toUInt32 m.port.toUInt32 p.check)
      source := m.port
      saddr := m.ip }
  else
    { p with
      check := ipNatCheatCheck (~~~p.daddr) m.ip
        (ipNatCheatCheck (p.dest ^^^ 0xffff).toUInt32 m.port.toUInt32 p.check)
      dest := m.port
      daddr := m.ip }

/-- A clone is copied, if there is memory. -/
def copied (p : Segment) (copy : Bool) : Except Verdict Segment :=
  if p.cloned then if copy then .ok { p with cloned := false } else .error .drop else .ok p

/-- A clone of a packet that came in is copied. -/
def undisturbed (p : Segment) (copy : Bool) : Except Verdict Segment :=
  if p.owned then .ok p else p.copied copy

/-- The loop over the manips of a connection. -/
def bindings (copy : Bool) (dir : Dir) (hook : Hook) (p : Segment) (m : Manip) :
    Except Verdict Segment := do
  let p ← p.undisturbed copy
  .ok (if m.dir = dir ∧ m.hook = hook then p.manipPkt m else p)

/-! ### Data -/

theorem len_overwrite (p : Segment) (off : Nat) (bs : List UInt8) :
    p.ipHeader + (20 + p.options.length + (overwrite p.payload off bs).length) ≤ 65535 := by
  rw [length_overwrite]
  exact p.len_le

/-- Other data, with the checksum over it. -/
def replace (p : Segment) (off : Nat) (bs : List UInt8) : Segment :=
  let p := { p with
    payload := overwrite p.payload off bs
    len_le := p.len_overwrite off bs }
  { p with check := UInt16.ofNat (checksum p.sumBut) }

/-- `ip_nat_mangle_tcp_packet`. -/
def mangle (p : Segment) (copy : Bool) (off : Nat) (matchLen : UInt32) (rep : List UInt8) :
    Except Verdict Segment :=
  let newtcplen := UInt32.ofNat p.tcplen - matchLen + UInt32.ofNat rep.length
  let newlen := UInt32.ofNat p.ipHeader + newtcplen
  if 65535 < newlen then .error .drop
  else if UInt32.ofNat (p.ipHeader + p.tcplen) ≠ newlen then .error .resize
  else do
    let p ← p.copied copy
    .ok (p.replace off rep)

/-! ### Sequence numbers -/

def TCPOPT_EOL : UInt8 := 0
def TCPOPT_NOP : UInt8 := 1
def TCPOPT_SACK : UInt8 := 5
def TCPOLEN_SACK_BASE : Nat := 2
def TCPOLEN_SACK_PERBLOCK : Nat := 8

/-- The blocks of a SACK option. -/
def sackBlocks : Nat → List UInt8 → List (UInt32 × UInt32)
  | 0, _ => []
  | n + 1, bs => (wordOf bs, wordOf (bs.drop 4)) :: sackBlocks n (bs.drop 8)

/-- The loop of `ip_nat_sack_adjust`: the blocks that it finds in the first
`length` bytes. Each round but the last takes some of them. -/
def sacks : Nat → List UInt8 → Nat → Except Verdict (List (UInt32 × UInt32))
  | 0, _, _ => .ok []
  | _ + 1, _, 0 => .ok []
  | _ + 1, [], _ + 1 => .error .outside
  | fuel + 1, opcode :: rest, length + 1 =>
    if opcode = TCPOPT_EOL then .ok []
    else if opcode = TCPOPT_NOP then sacks fuel rest length
    else
      match rest with
      | [] => .error .outside
      | size :: _ =>
        if length + 1 < size.toNat then .ok []
        else if size = 0 then .error .hang
        else do
          let more ← sacks fuel ((opcode :: rest).drop size.toNat) (length + 1 - size.toNat)
          .ok (if opcode = TCPOPT_SACK ∧ TCPOLEN_SACK_BASE + TCPOLEN_SACK_PERBLOCK ≤ size.toNat ∧
              (size.toNat - TCPOLEN_SACK_BASE) % TCPOLEN_SACK_PERBLOCK = 0 then
            sackBlocks ((size.toNat - TCPOLEN_SACK_BASE) >>> 3) (rest.drop 1) ++ more
          else more)

/-- The SACK blocks of the segment. The loop may look at one byte behind the
options. -/
def sackOption (p : Segment) : Except Verdict (List (UInt32 × UInt32)) :=
  sacks p.options.length (p.options ++ p.payload.take 1) p.options.length

/-- `sack_adjust`, for one block. -/
def sackAdjust (check : UInt16) (block : UInt32 × UInt32) : UInt16 :=
  ipNatCheatCheck (~~~block.1) block.1 (ipNatCheatCheck (~~~block.2) block.2 check)

/-- `ip_nat_seq_adjust`. -/
def seqAdjust (p : Segment) : Except Verdict Segment := do
  let check := ipNatCheatCheck (~~~htonl p.seq) (htonl p.seq)
    (ipNatCheatCheck (~~~htonl p.ack) (htonl p.ack) p.check)
  let blocks ← p.sackOption
  .ok { p with check := blocks.foldl sackAdjust check }

end Segment

theorem bytesOf_inj {x y : UInt32} : bytesOf x = bytesOf y ↔ x = y := by
  refine ⟨fun h => ?_, fun h => h ▸ rfl⟩
  obtain ⟨h0, h1, h2, h3⟩ : x.toUInt8 = y.toUInt8 ∧ (x >>> 8).toUInt8 = (y >>> 8).toUInt8 ∧
      (x >>> 16).toUInt8 = (y >>> 16).toUInt8 ∧ (x >>> 24).toUInt8 = (y >>> 24).toUInt8 := by
    simpa [bytesOf] using h
  have hbyte : ∀ k z w : UInt32, (z >>> k).toUInt8 = (w >>> k).toUInt8 →
      z.toNat / 2 ^ (k.toNat % 32) % 256 = w.toNat / 2 ^ (k.toNat % 32) % 256 := by
    intro k z w hzw
    have := congrArg UInt8.toNat hzw
    simpa [Nat.shiftRight_eq_div_pow] using this
  have e0 : x.toNat % 256 = y.toNat % 256 := by simpa using congrArg UInt8.toNat h0
  have e1 : x.toNat / 256 % 256 = y.toNat / 256 % 256 := by simpa using hbyte 8 x y h1
  have e2 : x.toNat / 65536 % 256 = y.toNat / 65536 % 256 := by simpa using hbyte 16 x y h2
  have e3 : x.toNat / 16777216 % 256 = y.toNat / 16777216 % 256 := by
    simpa using hbyte 24 x y h3
  have hx := x.toNat_lt
  have hy := y.toNat_lt
  apply UInt32.toNat_inj.mp
  omega

theorem overwrite_bytesOf_inj {l : List UInt8} {off : Nat} {x y : UInt32} (h : off + 4 ≤ l.length) :
    overwrite l off (bytesOf x) = overwrite l off (bytesOf y) ↔ x = y := by
  have hlength : (bytesOf x).length = (bytesOf y).length := rfl
  exact (overwrite_inj h hlength).trans bytesOf_inj

/-! ## Checksums -/

theorem toNat_xor_ffff (c : UInt16) : (c ^^^ 0xffff).toNat = 65535 - c.toNat := by
  have hnot : c ^^^ 0xffff = ~~~c := by
    apply UInt16.toBitVec_inj.mp
    exact BitVec.xor_allOnes
  rw [hnot, UInt16.toNat_not]
  rfl

theorem toNat_checksum (n : Nat) : (UInt16.ofNat (checksum n)).toNat = checksum n := by
  rw [UInt16.toNat_ofNat_of_lt']
  exact Nat.lt_succ_of_le (checksum_le n)

theorem toNat_ipNatCheatCheck (oldvalinv newval : UInt32) (oldcheck : UInt16) :
    (ipNatCheatCheck oldvalinv newval oldcheck).toNat =
      checksum (oldvalinv.toNat + newval.toNat + (65535 - oldcheck.toNat)) := by
  unfold ipNatCheatCheck
  rw [toNat_checksum, toNat_xor_ffff]

theorem dvd_not_add (x : UInt32) : 65535 ∣ (~~~x).toNat + x.toNat := by
  have hlt := x.toNat_lt
  rw [UInt32.toNat_not]
  have hsize : UInt32.size - 1 - x.toNat + x.toNat = 65537 * 65535 := by
    have : UInt32.size = 4294967296 := rfl
    omega
  rw [hsize]
  exact Nat.dvd_mul_left ..

theorem dvd_xor_add (x : UInt16) : 65535 ∣ (x ^^^ 0xffff).toUInt32.toNat + x.toUInt32.toNat := by
  have hlt := x.toNat_lt
  rw [UInt16.toNat_toUInt32, UInt16.toNat_toUInt32, toNat_xor_ffff]
  omega

theorem ipNatCheatCheck_self (x : UInt32) (c : UInt16) :
    (ipNatCheatCheck (~~~x) x c).toNat % 65535 = c.toNat % 65535 := by
  have hdvd := dvd_add_checksum ((~~~x).toNat + x.toNat + (65535 - c.toNat))
  have hx := dvd_not_add x
  have hc := c.toNat_lt
  rw [toNat_ipNatCheatCheck]
  omega

namespace Segment

variable {p q : Segment}

theorem sumBut_pos (p : Segment) : 0 < p.sumBut := by
  unfold sumBut IPPROTO_TCP
  omega

/-- A word of the segment is replaced, and the checksum follows. -/
theorem valid_of_cheat (rest : Nat) {inverse old new : UInt32}
    (hinverse : 65535 ∣ inverse.toNat + old.toNat) (hrest : 0 < rest)
    (hcheck : q.check = ipNatCheatCheck inverse new p.check) (hp : p.sumBut = rest + old.toNat)
    (hq : q.sumBut = rest + new.toNat) : q.Valid ↔ p.Valid := by
  have hle : p.check.toNat ≤ 65535 := Nat.le_of_lt_succ p.check.toNat_lt
  unfold Valid tcpV4Check
  rw [hp, hq, hcheck, toNat_ipNatCheatCheck]
  exact checksum_replace hrest hinverse hle

/-- What the words add up to, apart from the addresses and ports. -/
def sumRest (p : Segment) : Nat :=
  (htons (UInt16.ofNat p.tcplen)).toNat + IPPROTO_TCP * 256 + (htonl p.seq).toNat +
    (htonl p.ack).toNat + wordsSum p.words + wordSum p.options + wordSum p.payload

theorem sumBut_eq (p : Segment) :
    p.sumBut = p.sumRest + p.saddr.toNat + p.daddr.toNat + p.source.toNat + p.dest.toNat := by
  unfold sumBut sumRest
  omega

theorem sumRest_pos (p : Segment) : 0 < p.sumRest := by
  unfold sumRest IPPROTO_TCP
  omega

theorem valid_manipPkt (p : Segment) (m : Manip) : (p.manipPkt m).Valid ↔ p.Valid := by
  have hpos := p.sumRest_pos
  have hsource : p.source.toUInt32.toNat = p.source.toNat := UInt16.toNat_toUInt32 _
  have hdest : p.dest.toUInt32.toNat = p.dest.toNat := UInt16.toNat_toUInt32 _
  have hnew : m.port.toUInt32.toNat = m.port.toNat := UInt16.toNat_toUInt32 _
  unfold manipPkt
  -- the port first, then the address
  split
  · let q : Segment := { p with
      check := ipNatCheatCheck (p.source ^^^ 0xffff).toUInt32 m.port.toUInt32 p.check
      source := m.port }
    have hq : q.sumBut = p.sumRest + p.saddr.toNat + p.daddr.toNat + m.port.toNat + p.dest.toNat :=
      q.sumBut_eq
    have hport : q.Valid ↔ p.Valid :=
      valid_of_cheat (p.sumRest + p.saddr.toNat + p.daddr.toNat + p.dest.toNat)
        (dvd_xor_add p.source) (by omega) rfl (by rw [p.sumBut_eq]; omega) (by rw [hq]; omega)
    refine Iff.trans (valid_of_cheat (p := q) (p.sumRest + p.daddr.toNat + m.port.toNat +
      p.dest.toNat) (dvd_not_add p.saddr) (by omega) rfl (by rw [hq]; omega) ?_) hport
    refine (sumBut_eq _).trans ?_
    show p.sumRest + m.ip.toNat + p.daddr.toNat + m.port.toNat + p.dest.toNat = _
    omega
  · let q : Segment := { p with
      check := ipNatCheatCheck (p.dest ^^^ 0xffff).toUInt32 m.port.toUInt32 p.check
      dest := m.port }
    have hq : q.sumBut =
        p.sumRest + p.saddr.toNat + p.daddr.toNat + p.source.toNat + m.port.toNat := q.sumBut_eq
    have hport : q.Valid ↔ p.Valid :=
      valid_of_cheat (p.sumRest + p.saddr.toNat + p.daddr.toNat + p.source.toNat)
        (dvd_xor_add p.dest) (by omega) rfl (by rw [p.sumBut_eq]; omega) (by rw [hq]; omega)
    refine Iff.trans (valid_of_cheat (p := q) (p.sumRest + p.saddr.toNat + p.source.toNat +
      m.port.toNat) (dvd_not_add p.daddr) (by omega) rfl (by rw [hq]; omega) ?_) hport
    refine (sumBut_eq _).trans ?_
    show p.sumRest + p.saddr.toNat + m.ip.toNat + p.source.toNat + m.port.toNat = _
    omega

theorem valid_replace (p : Segment) (off : Nat) (bs : List UInt8) : (p.replace off bs).Valid := by
  unfold Valid tcpV4Check replace
  rw [toNat_checksum]
  exact add_checksum (sumBut_pos _)

theorem valid_congr (hsum : q.sumBut = p.sumBut)
    (hcheck : q.check.toNat % 65535 = p.check.toNat % 65535) : q.Valid ↔ p.Valid := by
  have hpos := p.sumBut_pos
  unfold Valid tcpV4Check
  rw [checksum_eq_zero_iff, checksum_eq_zero_iff, hsum]
  omega

theorem foldl_sackAdjust (blocks : List (UInt32 × UInt32)) (c : UInt16) :
    (blocks.foldl sackAdjust c).toNat % 65535 = c.toNat % 65535 := by
  induction blocks generalizing c with
  | nil => rfl
  | cons block blocks ih =>
    rw [List.foldl_cons, ih, sackAdjust, ipNatCheatCheck_self, ipNatCheatCheck_self]

/-- What address translation leaves of a segment. -/
structure Alike (p q : Segment) : Prop where
  seq : q.seq = p.seq
  options : q.options = p.options
  payload : q.payload = p.payload
  owned : q.owned = p.owned
  valid : q.Valid ↔ p.Valid

theorem Alike.refl (p : Segment) : p.Alike p := ⟨rfl, rfl, rfl, rfl, Iff.rfl⟩

theorem Alike.trans {r : Segment} (h : p.Alike q) (h' : q.Alike r) : p.Alike r :=
  ⟨h'.seq.trans h.seq, h'.options.trans h.options, h'.payload.trans h.payload,
    h'.owned.trans h.owned, h'.valid.trans h.valid⟩

/-- The sequence numbers are adjusted, if the options have an end. -/
theorem seqAdjust_eq {blocks : List (UInt32 × UInt32)} (h : p.sackOption = .ok blocks) :
    ∃ q, p.seqAdjust = .ok q ∧ p.Alike q ∧ q.cloned = p.cloned := by
  unfold seqAdjust
  rw [h]
  refine ⟨_, rfl, ⟨rfl, rfl, rfl, rfl, valid_congr rfl ?_⟩, rfl⟩
  dsimp only
  rw [foldl_sackAdjust, ipNatCheatCheck_self, ipNatCheatCheck_self]

theorem seqAdjust_error {e : Verdict} (h : p.sackOption = .error e) : p.seqAdjust = .error e := by
  unfold seqAdjust
  rw [h]
  rfl

theorem sackOption_of_seqAdjust (h : p.seqAdjust = .ok q) :
    ∃ blocks, p.sackOption = .ok blocks := by
  cases hsack : p.sackOption with
  | ok blocks => exact ⟨blocks, rfl⟩
  | error e =>
    rw [seqAdjust_error hsack] at h
    cases h

theorem sackOption_congr (hoptions : q.options = p.options)
    (hpayload : q.payload.take 1 = p.payload.take 1) : q.sackOption = p.sackOption := by
  unfold sackOption
  rw [hoptions, hpayload]

theorem Alike.sackOption (h : p.Alike q) : q.sackOption = p.sackOption :=
  sackOption_congr h.options (by rw [h.payload])

/-! ## What address translation does to a segment -/

variable {copy : Bool} {dir : Dir} {hook : Hook}

theorem alike_manipPkt (p : Segment) (m : Manip) :
    p.Alike (p.manipPkt m) ∧ (p.manipPkt m).cloned = p.cloned := by
  refine ⟨⟨?_, ?_, ?_, ?_, p.valid_manipPkt m⟩, ?_⟩ <;>
  · unfold manipPkt
    split <;> rfl

/-- A manip of the connection, for a segment that can be changed. -/
theorem bindings_eq (hcopy : p.cloned = true → p.owned = true ∨ copy = true) (m : Manip) :
    ∃ q, bindings copy dir hook p m = .ok q ∧ p.Alike q ∧
      (q.cloned = true ↔ p.cloned = true ∧ p.owned = true) := by
  -- up to the change
  obtain ⟨r, hr, halike, hcloned⟩ : ∃ r, p.undisturbed copy = .ok r ∧ p.Alike r ∧
      (r.cloned = true ↔ p.cloned = true ∧ p.owned = true) := by
    unfold undisturbed
    split
    · next howned => exact ⟨p, rfl, .refl p, (and_iff_left howned).symm⟩
    · next howned =>
      unfold copied
      split
      · next hcloned =>
        rw [if_pos ((hcopy hcloned).resolve_left howned)]
        exact ⟨_, rfl, ⟨rfl, rfl, rfl, rfl, Iff.rfl⟩,
          iff_of_false Bool.false_ne_true fun h => howned h.2⟩
      · next hcloned =>
        exact ⟨p, rfl, .refl p, iff_of_false hcloned fun h => hcloned h.1⟩
  unfold bindings
  rw [hr, ok_bind]
  split
  · obtain ⟨hmanip, hsame⟩ := alike_manipPkt r m
    exact ⟨_, rfl, halike.trans hmanip, hsame ▸ hcloned⟩
  · exact ⟨r, rfl, halike, hcloned⟩

/-- The manips of the connection. A copy is made only if there are some. -/
theorem run_bindings {ms : List Manip}
    (hcopy : p.cloned = true → p.owned = true ∨ copy = true ∨ ms = []) :
    ∃ q, run (bindings copy dir hook) p ms = .ok q ∧ p.Alike q ∧
      (q.cloned = true ↔ p.cloned = true ∧ (p.owned = true ∨ ms = [])) := by
  induction ms generalizing p with
  | nil => exact ⟨p, rfl, .refl p, (and_iff_left (.inr rfl)).symm⟩
  | cons m ms ih =>
    have hcopy' : p.cloned = true → p.owned = true ∨ copy = true := fun h =>
      (hcopy h).imp id fun h => h.resolve_right (List.cons_ne_nil m ms)
    obtain ⟨r, hr, halike, hcloned⟩ := bindings_eq hcopy' m
    obtain ⟨q, hq, halike', hcloned'⟩ := ih (p := r) fun h =>
      .inl (halike.owned.trans (hcloned.mp h).2)
    refine ⟨q, ?_, halike.trans halike', ?_⟩
    · rw [run_cons, hr, ok_bind]
      exact hq
    · rw [hcloned', hcloned, halike.owned]
      constructor
      · rintro ⟨⟨hcl, howned⟩, -⟩
        exact ⟨hcl, .inl howned⟩
      · rintro ⟨hcl, howned | hnil⟩
        · exact ⟨⟨hcl, howned⟩, .inl howned⟩
        · exact absurd hnil (List.cons_ne_nil m ms)

theorem run_bindings_drop {ms : List Manip} (hcloned : p.cloned = true) (howned : p.owned = false)
    (hms : ms ≠ []) : run (bindings false dir hook) p ms = .error .drop := by
  cases ms with
  | nil => exact absurd rfl hms
  | cons m ms =>
    rw [run_cons, bindings, undisturbed, howned, if_neg Bool.false_ne_true, copied, if_pos hcloned]
    rfl

theorem mangle_of_length_eq (copy : Bool) (off : Nat) (rep : List UInt8) :
    p.mangle copy off (UInt32.ofNat rep.length) rep =
      (p.copied copy).map fun q => q.replace off rep := by
  have hfit : ¬ 65535 < UInt32.ofNat (p.ipHeader + p.tcplen) := by
    have hle : p.ipHeader + p.tcplen ≤ 65535 := p.len_le
    rw [UInt32.lt_iff_toNat_lt, UInt32.toNat_ofNat_of_lt' (by rw [UInt32.size]; omega)]
    exact Nat.not_lt.mpr hle
  unfold mangle
  dsimp only
  rw [UInt32.sub_add_cancel, ← UInt32.ofNat_add, if_neg hfit, if_neg (not_not_intro rfl)]
  cases p.copied copy <;> rfl

theorem mangle_eq (off : Nat) (rep : List UInt8) (hcopy : p.cloned = true → copy = true) :
    ∃ q, p.mangle copy off (UInt32.ofNat rep.length) rep = .ok q ∧ q.seq = p.seq ∧
      q.options = p.options ∧ q.payload = overwrite p.payload off rep ∧ q.owned = p.owned ∧
      q.cloned = false ∧ q.Valid := by
  rw [mangle_of_length_eq]
  unfold copied
  split
  · next hcloned =>
    rw [if_pos (hcopy hcloned)]
    exact ⟨_, rfl, rfl, rfl, rfl, rfl, rfl, valid_replace ..⟩
  · next hcloned =>
    exact ⟨_, rfl, rfl, rfl, rfl, rfl, Bool.eq_false_iff.mpr hcloned, valid_replace ..⟩

theorem mangle_drop (off : Nat) (rep : List UInt8) (hcloned : p.cloned = true) :
    p.mangle false off (UInt32.ofNat rep.length) rep = .error .drop := by
  rw [mangle_of_length_eq, copied, if_pos hcloned]
  rfl

end Segment

end Conntrack
