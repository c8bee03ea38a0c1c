import Cnu680.Serial.Port

/-! # The Transmit Ring

`rs_write` fills the ring, the transmit interrupt and `rs_flush_chars`
empty it, and `rs_flush_buffer` clears it. All but one of them look at
`xmit_cnt` where no interrupt can come in between: `rs_flush_chars` tests
it, and then disables interrupts and sends. The ring works exactly as long
as no interrupt sends the last byte in between. -/

open Framework List

namespace Serial

/-! ### What is said of the ring -/

/-- The queue that the bytes of the ring should form: filled by what is
accepted, emptied in order by what is sent, and cleared. -/
def fifoStep (q : List UInt8) : Entry → Except Unit (List UInt8)
  | .accepted bs => .ok (q ++ bs)
  | .thr b =>
    match q with
    | [] => .error ()
    | c :: q => if c = b then .ok q else .error ()
  | .discarded => .ok []
  | .xChar _ => .ok q
  | .reported _ => .ok q

/-- The bytes that were copied into the ring. -/
def acceptedBytes (log : List Entry) : List UInt8 :=
  log.flatMap fun
    | .accepted bs => bs
    | _ => []

/-- The bytes that `rs_write` said it took. -/
def reportedBytes (log : List Entry) : List UInt8 :=
  log.flatMap fun
    | .reported bs => bs
    | _ => []

/-- The bytes that the `rs_write` going on has taken. -/
def Pc.taken : Pc → List UInt8
  | .userLoop data total _ => data.take total
  | .userCopy data total _ _ => data.take total
  | .kernelLoop data total _ => data.take total
  | .finish data total _ => data.take total
  | .startTx data total _ => data.take total
  | .poll data total _ => data.take total
  | .idle => []
  | .flushTest => []
  | .flushSend => []

/-- The ring is in order: its indices agree with the count, the bytes went
through it as through a queue that still holds what the ring holds, and
they are those that `rs_write` reported, with those of a call that has
not returned. -/
structure Port.InOrder (p : Port) : Prop where
  count : 0 ≤ p.xmitCnt ∧ p.xmitCnt ≤ SERIAL_XMIT_SIZE - 1
  head : (p.xmit.wr : Int) = (p.xmit.rd + p.xmitCnt) % SERIAL_XMIT_SIZE
  queue : run fifoStep [] p.log = .ok p.xmit.view
  reported : acceptedBytes p.log = reportedBytes p.log ++ p.pc.taken

/-- If `rs_flush_chars` is about to send, there is a byte left. -/
def Port.FlushesInTime (p : Port) (e : Event) : Prop :=
  e = .proceed → p.pc = .flushSend → 0 < p.xmitCnt

/-! ### What the functions do to the queue -/

/-- The ring without the place of the call in it: `taken` are the bytes that
`rs_write` has taken and not reported. -/
structure Port.Holds (p : Port) (taken : List UInt8) : Prop where
  useInts : p.usart.useInts = true
  count : p.xmitCnt = p.xmit.length
  queue : run fifoStep [] p.log = .ok p.xmit.view
  reported : acceptedBytes p.log = reportedBytes p.log ++ taken

section
variable {p q : Port} {taken : List UInt8}

section
variable (h : p.Holds taken)
include h

theorem Port.Holds.of_eq (husart : q.usart.useInts = true) (hxmit : q.xmit = p.xmit)
    (hcnt : q.xmitCnt = p.xmitCnt) (hlog : q.log = p.log) : q.Holds taken := by
  constructor
  · exact husart
  · rw [hcnt, hxmit]
    exact h.count
  · rw [hlog, hxmit]
    exact h.queue
  · rw [hlog]
    exact h.reported

theorem Port.Holds.entry {taken' : List UInt8} (e : Entry)
    (husart : q.usart.useInts = true) (hlog : q.log = p.log ++ [e])
    (hcount : q.xmitCnt = q.xmit.length) (hqueue : fifoStep p.xmit.view e = .ok q.xmit.view)
    (htaken : taken ++ acceptedBytes [e] = reportedBytes [e] ++ taken') : q.Holds taken' := by
  constructor
  · exact husart
  · exact hcount
  · rw [hlog, run_append, h.queue, ok_bind, run_cons, hqueue]
    rfl
  · have haccepted : acceptedBytes q.log = acceptedBytes p.log ++ acceptedBytes [e] := by
      rw [hlog]
      exact flatMap_append
    have hreported : reportedBytes q.log = reportedBytes p.log ++ reportedBytes [e] := by
      rw [hlog]
      exact flatMap_append
    rw [haccepted, hreported, h.reported, append_assoc, htaken, append_assoc]

theorem Port.Holds.room_lt : p.xmit.length + p.room < SERIAL_XMIT_SIZE := by
  have hlength := p.xmit.length_lt
  have hroom : p.room ≤ ((SERIAL_XMIT_SIZE - p.xmitCnt - 1) % 0x100000000).toNat :=
    Nat.min_le_left _ _
  rw [h.count] at hroom
  simp only [SERIAL_XMIT_SIZE] at hlength hroom ⊢
  omega

theorem Port.Holds.store {bs : List UInt8} (hbs : bs.length ≤ p.room) :
    (p.store bs).Holds (taken ++ bs) := by
  have hroom : p.xmit.length + bs.length < SERIAL_XMIT_SIZE := by
    have := h.room_lt
    omega
  apply h.entry (.accepted bs)
  · exact h.useInts
  · rfl
  · show p.xmitCnt + bs.length = ((p.xmit.append bs).length : Int)
    rw [p.xmit.length_append hroom, h.count, Int.natCast_add]
  · show Except.ok (p.xmit.view ++ bs) = .ok (p.xmit.append bs).view
    rw [p.xmit.view_append hroom]
  · simp [acceptedBytes, reportedBytes]

theorem Port.Holds.send (hcnt : 0 < p.xmitCnt) : p.send.Holds taken := by
  have hpos : 0 < p.xmit.length := by
    have := h.count
    omega
  apply h.entry (.thr (p.xmit.cell 0))
  · exact h.useInts
  · rfl
  · show p.xmitCnt - 1 = ((p.xmit.drop 1).length : Int)
    rw [p.xmit.length_drop hpos, h.count]
    omega
  · show _ = Except.ok (p.xmit.drop 1).view
    rw [p.xmit.view_drop hpos, p.xmit.view_eq_cons hpos]
    simp [fifoStep]
  · simp [acceptedBytes, reportedBytes]

theorem Port.Holds.txLoop (hcnt : 0 < p.xmitCnt) (n : Nat) (csr : List Bool) :
    (p.txLoop n csr).Holds taken := by
  induction n generalizing p csr with
  | zero => exact h
  | succ n ih =>
    unfold Port.txLoop
    dsimp only
    split
    · exact h.send hcnt
    · next hleft =>
      split
      · exact h.send hcnt
      · exact ih (h.send hcnt) (by omega) csr.tail

theorem Port.Holds.rsInterruptTx (csr : List Bool) : (p.rsInterruptTx csr).Holds taken := by
  unfold Port.rsInterruptTx
  split
  · apply h.entry (.xChar p.xChar)
    · exact h.useInts
    · rfl
    · exact h.count
    · rfl
    · simp [acceptedBytes, reportedBytes]
  · split
    · exact h.of_eq h.useInts rfl rfl rfl
    · next hbusy =>
      have hloop := h.txLoop (by omega) p.xmitFifoSize csr
      dsimp only
      split
      · exact hloop.of_eq hloop.useInts rfl rfl rfl
      · exact hloop

end

theorem Port.Holds.ret {data : List UInt8} {total : Nat} (h : p.Holds (data.take total))
    (flags : Bool) : (p.ret data total flags).Holds [] := by
  apply h.entry (.reported (data.take total))
  · exact h.useInts
  · rfl
  · exact h.count
  · rfl
  · simp [acceptedBytes, reportedBytes]

theorem Port.Holds.rsFlushBuffer (h : p.Holds taken) : p.rsFlushBuffer.Holds taken := by
  apply h.entry .discarded
  · exact h.useInts
  · rfl
  · show (0 : Int) = (p.xmit.clear.length : Int)
    rw [p.xmit.length_clear]
    rfl
  · show Except.ok [] = Except.ok p.xmit.clear.view
    rw [p.xmit.view_clear]
  · simp [acceptedBytes, reportedBytes]

end

/-! ### Steps -/

/-- A call in interrupt mode does not send by itself. -/
def Pc.Polls : Pc → Prop
  | .poll _ _ _ => True
  | _ => False

/-- The ring is in order, and so is the call. -/
structure Port.Sound (p : Port) : Prop where
  holds : p.Holds p.pc.taken
  interrupts : ¬ p.pc.Polls

section
variable {p : Port}

theorem Port.Holds.chunk {data : List UInt8} {total : Nat} (h : p.Holds (data.take total)) {c : Nat}
    (hc : c ≤ p.room) : (p.store ((data.drop total).take c)).Holds (data.take (total + c)) := by
  rw [take_add]
  apply h.store
  exact Nat.le_trans (length_take_le _ _) hc

theorem Port.Sound.proceed (h : p.Sound) (hflush : p.pc = .flushSend → 0 < p.xmitCnt) :
    p.proceed.Sound := by
  have hholds := h.holds
  have hints := h.interrupts
  unfold Port.proceed
  match hpc : p.pc with
  | .idle => exact h
  | .userLoop _ _ _ | .flushTest =>
    rw [hpc] at hholds
    dsimp only
    split <;> exact ⟨hholds.of_eq hholds.useInts rfl rfl rfl, id⟩
  | .userCopy data total c flags =>
    rw [hpc] at hholds
    have hchunk := hholds.chunk (Nat.min_le_right c p.room)
    exact ⟨hchunk.of_eq hchunk.useInts rfl rfl rfl, id⟩
  | .kernelLoop data total flags =>
    rw [hpc] at hholds
    dsimp only
    split
    · exact ⟨hholds.of_eq hholds.useInts rfl rfl rfl, id⟩
    · have hchunk := hholds.chunk (Nat.min_le_right (data.length - total) p.room)
      exact ⟨hchunk.of_eq hchunk.useInts rfl rfl rfl, id⟩
  | .finish data total flags =>
    rw [hpc] at hholds
    dsimp only
    split
    · rw [if_pos hholds.useInts]
      exact ⟨hholds.of_eq hholds.useInts rfl rfl rfl, id⟩
    · exact ⟨hholds.ret flags, id⟩
  | .startTx data total flags =>
    rw [hpc] at hholds
    have hstart : Port.Holds { p with usart := p.usart.txStart } (data.take total) :=
      hholds.of_eq ((useInts_txStart _).trans hholds.useInts) rfl rfl rfl
    exact ⟨hstart.ret flags, id⟩
  | .poll data total flags =>
    rw [hpc] at hints
    exact absurd trivial hints
  | .flushSend =>
    rw [hpc] at hholds
    have hsend := hholds.send (hflush hpc)
    dsimp only
    rw [if_pos hholds.useInts]
    exact ⟨hsend.of_eq ((useInts_txStart _).trans hholds.useInts) rfl rfl rfl, id⟩

/-- What a function that has nothing to do with the ring leaves alone. -/
structure Port.SameRing (p q : Port) : Prop where
  useInts : q.usart.useInts = p.usart.useInts
  xmit : q.xmit = p.xmit
  xmitCnt : q.xmitCnt = p.xmitCnt
  log : q.log = p.log
  pc : q.pc = p.pc

theorem Port.Sound.sameRing {q : Port} (h : p.Sound) (hsame : p.SameRing q) : q.Sound := by
  constructor
  · rw [hsame.pc]
    exact h.holds.of_eq (hsame.useInts.trans h.holds.useInts) hsame.xmit hsame.xmitCnt hsame.log
  · rw [hsame.pc]
    exact h.interrupts

theorem sameRing_rsStop : p.SameRing p.rsStop := ⟨by simp [Port.rsStop], rfl, rfl, rfl, rfl⟩

theorem sameRing_rsStart : p.SameRing p.rsStart := ⟨by simp [Port.rsStart], rfl, rfl, rfl, rfl⟩

theorem sameRing_rsThrottle : p.SameRing p.rsThrottle := by
  unfold Port.rsThrottle Port.setControl
  dsimp only
  split <;> exact ⟨rfl, rfl, rfl, rfl, rfl⟩

theorem sameRing_rsUnthrottle : p.SameRing p.rsUnthrottle := by
  unfold Port.rsUnthrottle Port.setControl
  dsimp only
  split <;> exact ⟨rfl, rfl, rfl, rfl, rfl⟩

theorem sameRing_rsSetTermios (t : Termios) : p.SameRing (p.rsSetTermios t) := by
  unfold Port.rsSetTermios
  dsimp only
  split
  · exact ⟨rfl, rfl, rfl, rfl, rfl⟩
  · split
    · exact ⟨by simp [Port.rsStart], rfl, rfl, rfl, rfl⟩
    · exact ⟨by simp, rfl, rfl, rfl, rfl⟩

theorem Port.Sound.call (h : p.Sound) (hidle : p.pc = .idle) (c : Call) : (p.call c).Sound := by
  have hholds := h.holds
  rw [hidle] at hholds
  match c with
  | .write fromUser data =>
    show (p.rsWrite fromUser data).Sound
    unfold Port.rsWrite
    split <;> exact ⟨hholds.of_eq hholds.useInts rfl rfl rfl, id⟩
  | .flushChars => exact ⟨hholds.of_eq hholds.useInts rfl rfl rfl, id⟩
  | .flushBuffer => exact ⟨h.holds.rsFlushBuffer, h.interrupts⟩
  | .stop => exact h.sameRing sameRing_rsStop
  | .start => exact h.sameRing sameRing_rsStart
  | .throttle => exact h.sameRing sameRing_rsThrottle
  | .unthrottle => exact h.sameRing sameRing_rsUnthrottle
  | .setTermios t => exact h.sameRing (sameRing_rsSetTermios t)

theorem pc_txLoop (n : Nat) (csr : List Bool) : (p.txLoop n csr).pc = p.pc :=
  Port.txLoop_kept (f := Port.pc) (fun _ => rfl) n csr p

theorem pc_rsInterruptTx (csr : List Bool) : (p.rsInterruptTx csr).pc = p.pc := by
  unfold Port.rsInterruptTx
  split
  · rfl
  · split
    · rfl
    · dsimp only
      split <;> exact pc_txLoop _ _

theorem Port.Sound.rsInterruptTx (h : p.Sound) (csr : List Bool) : (p.rsInterruptTx csr).Sound := by
  constructor
  · rw [pc_rsInterruptTx]
    exact h.holds.rsInterruptTx csr
  · rw [pc_rsInterruptTx]
    exact h.interrupts

theorem Port.Sound.step {e : Event} {q : Port} (h : p.Sound) (hflush : p.FlushesInTime e)
    (hstep : p.step e = .ok q) : q.Sound := by
  unfold Port.step at hstep
  match e with
  | .call c =>
    cases hstep
    split
    · next hidle => exact h.call hidle c
    · exact h
  | .proceed =>
    cases hstep
    exact h.proceed (hflush rfl)
  | .interrupt csr =>
    cases hstep
    split
    · exact h.rsInterruptTx csr
    · exact h
  | .tty stopped hwStopped =>
    cases hstep
    exact h.sameRing ⟨rfl, rfl, rfl, rfl, rfl⟩

theorem Port.Sound.inOrder (h : p.Sound) : p.InOrder := by
  have hcount := h.holds.count
  have hlength := p.xmit.length_lt
  constructor
  · rw [hcount]
    simp only [SERIAL_XMIT_SIZE] at hlength ⊢
    omega
  · rw [hcount, ← Int.natCast_add, ← Int.natCast_emod, p.xmit.wr_eq]
  · exact h.holds.queue
  · exact h.holds.reported

theorem Port.Sound.flushes_late {e : Event} (h : p.Sound) (hlate : ¬ p.FlushesInTime e) :
    ∃ q, p.step e = .ok q ∧ ¬ q.InOrder := by
  unfold Port.FlushesInTime at hlate
  push Not at hlate
  obtain ⟨rfl, hpc, hcnt⟩ := hlate
  have hproceed : p.proceed.xmitCnt = p.xmitCnt - 1 := by
    unfold Port.proceed
    rw [hpc]
    dsimp only
    rw [if_pos h.holds.useInts]
    rfl
  refine ⟨p.proceed, rfl, fun horder => ?_⟩
  have := horder.count.1
  omega

theorem opened_sound (i : Unopened) : (Port.opened i).Sound := by
  constructor
  · constructor
    · simp [Port.opened, Usart.startup]
    · show (0 : Int) = ((Ring.clear ⟨i.page, 0, 0, by decide, by decide⟩).length : Int)
      rw [Ring.length_clear]
      rfl
    · show Except.ok [] = Except.ok (Ring.clear ⟨i.page, 0, 0, by decide, by decide⟩).view
      rw [Ring.view_clear]
    · rfl
  · exact id

end

variable {p : Port}

/-- Over every run of calls and interrupts on a port that has been opened, the
transmit ring is in order in every state iff `rs_flush_chars` never sends
after an interrupt has sent the last byte. -/
theorem transmit_in_order_iff (i : Unopened) (es : List Event) :
    Always Port.step Port.InOrder (Port.opened i) es ↔
      Along Port.step Port.FlushesInTime (Port.opened i) es :=
  always_iff_along (fun _ _ _ h hflush hstep => h.step hflush hstep)
    (fun _ h => h.inOrder) (fun _ _ h hlate => h.flushes_late hlate) (opened_sound i)

/-- One byte is written, and `rs_flush_chars` sees it. -/
def flushing : List Event :=
  [.call (.write true [0x41]), .proceed, .proceed, .proceed, .proceed, .proceed,
    .call .flushChars, .proceed]

/-- Before `rs_flush_chars` disables interrupts the transmitter interrupts, as
it is enabled to, and sends the byte. `rs_flush_chars` then sends a byte
that nobody wrote, and the count is -1. -/
theorem flush_sends_stale_byte :
    (∃ p, run Port.step (Port.opened highSpeed) flushing = .ok p ∧
      p.irq = true ∧ p.usart.ier &&& U_THEIE ≠ 0) ∧
    ∃ p, run Port.step (Port.opened highSpeed) (flushing ++ [.interrupt [], .proceed]) = .ok p ∧
      p.xmitCnt = -1 ∧ p.log = [.accepted [0x41], .reported [0x41], .thr 0x41, .thr 0] := by
  exact ⟨by decide +kernel, by decide +kernel⟩

/-! ### `rs_flush_chars` -/

/-- The bytes that are queued, by `xmit_cnt`. -/
def Port.queued (p : Port) : List UInt8 := (List.range p.xmitCnt.toNat).map p.xmit.cell

/-- What `rs_flush_chars` should have done when it returns: the interrupt flags
are those it was called with, and in polled mode all bytes have been sent. -/
structure Port.Flushed (p q : Port) : Prop where
  irq : q.irq = p.irq
  sent : p.usart.useInts = false → q.log = p.log ++ p.queued.map .thr
  empty : p.usart.useInts = false → q.queued = []

theorem queued_eq_nil_iff : p.queued = [] ↔ p.xmitCnt ≤ 0 := by
  rw [Port.queued, map_eq_nil_iff, range_eq_nil]
  omega

theorem queued_send (h : 0 < p.xmitCnt) : p.queued = p.xmit.cell 0 :: p.send.queued := by
  obtain ⟨n, hn⟩ : ∃ n : Nat, p.xmitCnt = n + 1 := ⟨(p.xmitCnt - 1).toNat, by omega⟩
  have hcnt : p.xmitCnt.toNat = n + 1 := by omega
  have hsend : p.send.xmitCnt.toNat = n := by
    show (p.xmitCnt - 1).toNat = n
    omega
  have hcell : ∀ k, (p.xmit.drop 1).cell k = p.xmit.cell (k + 1) := by
    intro k
    simp [Ring.cell, Ring.drop, Nat.add_assoc, Nat.add_comm k 1]
  rw [Port.queued, Port.queued, hcnt, hsend, range_succ_eq_map, map_cons, map_map]
  congr 1
  exact map_congr_left fun k _ => (hcell k).symm

theorem run_proceed (p : Port) (k : Nat) :
    run Port.step p (List.replicate (k + 1) .proceed) =
      run Port.step p.proceed (List.replicate k .proceed) := rfl

/-- The loop in polled mode: every byte is sent, with interrupts disabled from
the first one on. -/
theorem flush_polled (n : Nat) (hpc : p.pc = .flushTest) (hpoll : p.usart.useInts = false)
    (hgo : p.stopped = false ∧ p.hwStopped = false) (hcnt : p.xmitCnt = n) :
    ∃ q, run Port.step p (List.replicate (2 * n + 1) .proceed) = .ok q ∧ q.pc = .idle ∧
      q.irq = (if n = 0 then p.irq else false) ∧ q.log = p.log ++ p.queued.map .thr ∧
      q.queued = [] := by
  induction n generalizing p with
  | zero =>
    have hnil : p.queued = [] := queued_eq_nil_iff.mpr (by omega)
    have hstep : p.proceed = { p with pc := .idle } := by
      rw [Port.proceed, hpc]
      exact if_pos (.inl (by omega))
    refine ⟨{ p with pc := .idle }, ?_, rfl, rfl, ?_, hnil⟩
    · exact congrArg Except.ok hstep
    · rw [hnil]
      exact (append_nil _).symm
  | succ n ih =>
    have hpos : 0 < p.xmitCnt := by omega
    -- the test, and then the byte
    have htest : p.proceed = { p with pc := .flushSend } := by
      rw [Port.proceed, hpc]
      exact if_neg (by simp [hgo]; omega)
    have hsend : Port.proceed { p with pc := .flushSend } =
        { p.send with usart := p.usart.txStart, irq := false, pc := .flushTest } := by
      rw [Port.proceed]
      exact if_neg (by simp [hpoll])
    obtain ⟨q, hq, hidle, hirq, hlog, hempty⟩ :=
      ih (p := { p.send with usart := p.usart.txStart, irq := false, pc := .flushTest }) rfl
        ((useInts_txStart _).trans hpoll) hgo (show p.xmitCnt - 1 = n by omega)
    refine ⟨q, ?_, hidle, ?_, ?_, hempty⟩
    · rw [show 2 * (n + 1) + 1 = 2 * n + 1 + 1 + 1 by omega, run_proceed, htest, run_proceed, hsend]
      exact hq
    · rw [hirq]
      split <;> rfl
    · rw [hlog, queued_send hpos]
      exact append_assoc ..

/-- **`rs_flush_chars` returns**, with the interrupt flags it was called with
and, in polled mode, all bytes sent, exactly in interrupt mode, if there is
nothing to send, or if interrupts were disabled and the terminal is not
stopped: in polled mode it returns from inside the loop, in which it has
disabled them. -/
theorem flush_chars_restores_iff (hidle : p.pc = .idle) :
    ∃ k q, run Port.step p (.call .flushChars :: List.replicate k .proceed) = .ok q ∧
      q.pc = .idle ∧
      (p.Flushed q ↔ p.usart.useInts = true ∨ p.xmitCnt ≤ 0 ∨
        p.irq = false ∧ p.stopped = false ∧ p.hwStopped = false) := by
  have hcall : p.step (.call .flushChars) = .ok { p with pc := .flushTest } := by
    rw [Port.step, if_pos hidle]
    rfl
  by_cases hret : p.xmitCnt ≤ 0 ∨ p.stopped ∨ p.hwStopped
  · -- it returns at once
    have hstep : Port.proceed { p with pc := .flushTest } = { p with pc := .idle } := if_pos hret
    refine ⟨1, { p with pc := .idle }, ?_, rfl, ?_⟩
    · rw [run_cons, hcall, ok_bind]
      exact congrArg Except.ok hstep
    · constructor
      · intro h
        by_cases hints : p.usart.useInts = true
        · exact .inl hints
        · have hempty : p.queued = [] := h.empty (by simpa using hints)
          exact .inr (.inl (queued_eq_nil_iff.mp hempty))
      · intro h
        have hnil : p.usart.useInts = false → p.queued = [] := by
          intro hpoll
          rcases h with h | h | ⟨-, hgo⟩
          · cases h.symm.trans hpoll
          · exact queued_eq_nil_iff.mpr h
          · exact queued_eq_nil_iff.mpr (hret.resolve_right (by simp [hgo]))
        refine ⟨rfl, fun hpoll => ?_, hnil⟩
        rw [hnil hpoll]
        exact (List.append_nil _).symm
  · have hgo : p.stopped = false ∧ p.hwStopped = false := by simp_all
    cases hints : p.usart.useInts with
    | true =>
      -- one byte, and the flags are restored
      have htest : Port.proceed { p with pc := .flushTest } = { p with pc := .flushSend } :=
        if_neg hret
      have hsend : Port.proceed { p with pc := .flushSend } =
          { p.send with usart := p.usart.txStart, pc := .idle } := if_pos hints
      refine ⟨2, { p.send with usart := p.usart.txStart, pc := .idle }, ?_, rfl, ?_⟩
      · rw [run_cons, hcall, ok_bind, run_proceed, htest]
        exact congrArg Except.ok hsend
      · refine iff_of_true ⟨rfl, fun hpoll => ?_, fun hpoll => ?_⟩ (.inl rfl)
        · cases hints.symm.trans hpoll
        · cases hints.symm.trans hpoll
    | false =>
      obtain ⟨n, hn⟩ : ∃ n : Nat, p.xmitCnt = n + 1 := ⟨(p.xmitCnt - 1).toNat, by omega⟩
      obtain ⟨q, hq, hpc, hirq, hlog, hempty⟩ := flush_polled (n + 1)
        (p := { p with pc := .flushTest }) rfl hints hgo hn
      refine ⟨2 * (n + 1) + 1, q, ?_, hpc, ?_⟩
      · rw [run_cons, hcall, ok_bind]
        exact hq
      · constructor
        · intro h
          exact .inr (.inr ⟨h.irq.symm.trans hirq, hgo⟩)
        · intro h
          have hoff : p.irq = false := by
            rcases h with h | h | h
            · cases h
            · omega
            · exact h.1
          exact ⟨hirq.trans hoff.symm, fun _ => hlog, fun _ => hempty⟩

/-- A port in polled mode, with a byte that was queued while the terminal was
stopped. -/
def polledByte : Port :=
  { Port.opened highSpeed with
    usart := { (Port.opened highSpeed).usart with useInts := false }
    xmit := (Port.opened highSpeed).xmit.push 0x41
    xmitCnt := 1 }

/-- With interrupts off the byte is sent, and nothing else is changed. -/
theorem flush_chars_restores_polled :
    ∃ k q, run Port.step { polledByte with irq := false }
        (.call .flushChars :: List.replicate k .proceed) = .ok q ∧ q.pc = .idle ∧
      Port.Flushed { polledByte with irq := false } q ∧ q.log = [.thr 0x41] := by
  obtain ⟨k, q, hq, hpc, hiff⟩ :=
    flush_chars_restores_iff (p := { polledByte with irq := false }) rfl
  have hflushed := hiff.mpr (.inr (.inr ⟨rfl, rfl, rfl⟩))
  exact ⟨k, q, hq, hpc, hflushed, hflushed.sent rfl⟩

theorem flush_leaves_interrupts_off :
    polledByte.pc = .idle ∧ polledByte.irq = true ∧
      ∃ q, run Port.step polledByte (.call .flushChars :: List.replicate 3 .proceed) = .ok q ∧
        q.pc = .idle ∧ q.log = [.thr 0x41] ∧ ¬ polledByte.Flushed q := by
  obtain ⟨q, hq, hpc, hlog, hirq⟩ : ∃ q,
      run Port.step polledByte (.call .flushChars :: List.replicate 3 .proceed) = .ok q ∧
        q.pc = .idle ∧ q.log = [.thr 0x41] ∧ q.irq = false := by
    decide +kernel
  exact ⟨rfl, rfl, q, hq, hpc, hlog, fun h => by cases hirq.symm.trans h.irq⟩

end Serial
