import Cnu680.Sercd.Parser

/-! # sercd: byte streams in and out

What `EscWriteChar` and `EscRedirectChar` do with a whole stream of
bytes, one call after the other. Between two calls the main loop may
drain the buffers, so every call comes with buffers of its own, of which
only the room that the main loop makes sure of is known.

`receive` is the same stream without buffers: `feed_eq` shows that
buffers with that room make no difference.
-/

open Framework List

namespace Sercd

/-- A buffer with room for `n` bytes. -/
structure Sink (n : Nat) where
  buf : BufferType
  valid : buf.Valid
  room : n ≤ buf.room

/-- A buffer that a byte from the device can be written to. -/
abbrev ByteSink := Sink escWriteChar_bytes.toNat

/-- A buffer that any reply can be written to. -/
abbrev ReplySink := Sink escRedirectChar_bytes_SockB.toNat

/-- Buffers that a byte from the network can be handled with. -/
structure Sinks where
  sock : ReplySink
  dev : Sink escRedirectChar_bytes_DevB.toNat

/-- An empty buffer. -/
def Sink.empty (n : Nat) (h : n ≤ 2047) : Sink n :=
  ⟨initBuffer default, valid_initBuffer _, by rw [room_initBuffer]; exact h⟩

instance : Inhabited ByteSink := ⟨.empty _ (by decide)⟩

instance : Inhabited ReplySink := ⟨.empty _ (by decide)⟩

instance : Inhabited Sinks := ⟨⟨default, .empty _ (by decide)⟩⟩

/-- The bytes that were added to a buffer. -/
def added (before after : BufferType) : List UInt8 :=
  after.contents.drop before.contents.length

/-! ### Writing a stream -/

/-- `EscWriteChar` on each byte: the state it leaves and the bytes it adds. -/
def emit : Globals → List (UInt8 × ByteSink) → Except Fault (Globals × List UInt8)
  | g, [] => .ok (g, [])
  | g, (C, B) :: rest => do
    let (g', B') ← escWriteChar g C B.buf
    let (g'', out) ← emit g' rest
    return (g'', added B.buf B' ++ out)

variable {g : Globals} {C : UInt8} {xs ys : List UInt8}

theorem added_of_contents {B B' : BufferType} {out : List UInt8}
    (h : B'.contents = B.contents ++ out) : added B B' = out := by
  simp [added, h]

theorem emit_eq (g : Globals) (d : List (UInt8 × ByteSink)) :
    emit g d = .ok ({ g with escLast := (d.map Prod.fst).getLastD g.escLast },
      escape g.isWill g.escLast (d.map Prod.fst)) := by
  induction d generalizing g with
  | nil => rfl
  | cons CB rest ih =>
    obtain ⟨C, B⟩ := CB
    have hlen : (escapeChar g.isWill g.escLast C).length ≤ B.buf.room :=
      Nat.le_trans (escapeChar_length g.isWill g.escLast C).2 B.room
    obtain ⟨B', hwrite, -, hc⟩ := emits_ok (escWriteChar_emits g C) B.valid hlen
    rw [emit, hwrite, ok_bind]
    simp only [ih, ok_bind, added_of_contents hc, map_cons, getLastD_cons, escape]
    rfl

/-! ### Reading a stream -/

/-- What came of a stream of bytes from the network: the state, the bytes
queued to the device, and the commands handed to `HandleIACCommand`. -/
structure Fed where
  g : Globals
  toDevice : List UInt8
  commands : List (List UInt8)

/-- The command of an action: the first `CSize` bytes of `IACCommand[]`. -/
def Action.commands : Action → List (List UInt8)
  | .handle cmd CSize => [cmd.toList.take CSize]
  | _ => []

/-- `EscRedirectChar` on each byte. -/
def feed : Globals → List (UInt8 × Sinks) → Except Fault Fed
  | g, [] => .ok ⟨g, [], []⟩
  | g, (C, B) :: rest => do
    let (_, a) ← parse g.isDo g.parser C
    let (g', _, DevB) ← escRedirectChar g B.sock.buf B.dev.buf C
    let r ← feed g' rest
    return ⟨r.g, added B.dev.buf DevB ++ r.toDevice, a.commands ++ r.commands⟩

/-- The same without buffers. -/
def receive : Globals → List UInt8 → Except Fault Fed
  | g, [] => .ok ⟨g, [], []⟩
  | g, C :: rest => do
    let (p, a) ← parse g.isDo g.parser C
    let r ← receive (a.after { g with parser := p }) rest
    return ⟨r.g, a.toDev ++ r.toDevice, a.commands ++ r.commands⟩

theorem feed_eq (g : Globals) (l : List (UInt8 × Sinks)) :
    feed g l = receive g (l.map Prod.fst) := by
  induction l generalizing g with
  | nil => rfl
  | cons CB rest ih =>
    obtain ⟨C, B⟩ := CB
    rw [map_cons, feed, receive, escRedirectChar_eq]
    match parse g.isDo g.parser C with
    | .error e => rfl
    | .ok (p, a) =>
      have hnet : (a.toNet { g with parser := p }).length ≤ B.sock.buf.room :=
        Nat.le_trans (a.toNet_length _) (Nat.le_trans (by decide) B.sock.room)
      have hdev : a.toDev.length ≤ B.dev.buf.room := Nat.le_trans a.toDev_length B.dev.room
      obtain ⟨S, hS, -⟩ := addBytes_ok B.sock.valid hnet
      obtain ⟨D, hD, -, -, hc⟩ := addBytes_ok B.dev.valid hdev
      simp only [ok_bind, hS, hD, added_of_contents hc, ih]

theorem receive_append (g : Globals) (xs ys : List UInt8) :
    receive g (xs ++ ys) = receive g xs >>= fun r => receive r.g ys >>= fun t =>
      .ok ⟨t.g, r.toDevice ++ t.toDevice, r.commands ++ t.commands⟩ := by
  induction xs generalizing g with
  | nil =>
    simp only [nil_append, receive, ok_bind]
    cases receive g ys <;> rfl
  | cons C xs ih =>
    simp only [cons_append, receive, ih, bind_assoc]
    congr 1
    funext ⟨p, a⟩
    congr 1
    funext r
    simp only [pure, Except.pure, ok_bind, append_assoc]

theorem receive_append_ok {r t : Fed} (hx : receive g xs = .ok r) (hy : receive r.g ys = .ok t) :
    receive g (xs ++ ys) = .ok ⟨t.g, r.toDevice ++ t.toDevice, r.commands ++ t.commands⟩ := by
  rw [receive_append, hx, ok_bind, hy, ok_bind]

theorem receive_cons {p : Parser} {a : Action} (rest : List UInt8)
    (hC : parse g.isDo g.parser C = .ok (p, a)) :
    receive g (C :: rest) = receive (a.after { g with parser := p }) rest >>= fun t =>
      .ok ⟨t.g, a.toDev ++ t.toDevice, a.commands ++ t.commands⟩ := by
  simp only [receive, hC, ok_bind]
  rfl

theorem receive_cons_nothing {p : Parser} (rest : List UInt8)
    (hC : parse g.isDo g.parser C = .ok (p, .nothing)) :
    receive g (C :: rest) = receive { g with parser := p } rest := by
  rw [receive_cons rest hC]
  simp only [Action.after, Action.toDev, Action.commands, nil_append]
  cases receive { g with parser := p } rest <;> rfl

theorem receive_last {bs : List UInt8} {r : Fed} (h : receive g bs = .ok r) :
    r.g.parser.last = bs.getLastD g.parser.last := by
  induction bs generalizing g r with
  | nil =>
    cases h
    rfl
  | cons C bs ih =>
    obtain ⟨⟨p, a⟩, hparse, hrest⟩ := bind_eq_ok.mp h
    obtain ⟨t, ht, hr⟩ := bind_eq_ok.mp hrest
    cases hr
    rw [getLastD_cons, ih ht, Action.parser_after, parse_last hparse]

theorem receive_append_eq_ok {r t : Fed} (hx : receive g xs = .ok r)
    (h : receive g (xs ++ ys) = .ok t) :
    ∃ t', receive r.g ys = .ok t' ∧ t'.g = t.g ∧ t.toDevice = r.toDevice ++ t'.toDevice := by
  rw [receive_append, hx, ok_bind] at h
  obtain ⟨t', ht', heq⟩ := bind_eq_ok.mp h
  cases heq
  exact ⟨t', ht', rfl, rfl⟩

/-! ### Data in the stream -/

/-- A data byte, unless it is a NUL after a CR outside BINARY. -/
theorem receive_data (hp : g.parser.iacEscape = .IACNormal) (hC : C ≠ TNIAC)
    (hkeep : ¬ (g.isDo = false ∧ C = 0x00 ∧ g.parser.last = 0x0D)) :
    receive g [C] = .ok ⟨{ g with parser := { g.parser with last := C } }, [C], []⟩ :=
  receive_cons [] (parse_normal_data hp hC hkeep)

theorem receive_iac_iac (hp : g.parser.iacEscape = .IACNormal) :
    receive g [TNIAC, TNIAC] =
      .ok ⟨{ g with parser := { g.parser with last := TNIAC } }, [TNIAC], []⟩ := by
  rw [receive_cons_nothing _ (parse_normal_iac hp), receive_cons _ (parse_received_iac rfl)]
  simp only [Action.after, Action.toDev, Action.commands, receive, ok_bind, append_nil, ← hp]

end Sercd
