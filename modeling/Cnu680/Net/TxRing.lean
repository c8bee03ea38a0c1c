import Cnu680.Framework.Exec
import Cnu680.Framework.Slots
import Mathlib.Data.Nat.Bitwise

/-! # s3c2510: the transmit ring

`s3c2510_send_packet`, `tx_done_check`, `s3c2510_tx_timeout` and what
they use, of `s3c2510.c`, as a system of steps: the statements of
`send_packet`, the iterations of `tx_done_check`, the completions of the
hardware, and the timeout, close and open of the interface.

Who can run when, on the one CPU:
* `send_packet` can be interrupted between any two of its statements. The
  transmit lock of the network layer keeps a second call, a timeout and a
  close away until it returns.
* `tx_done_check` interrupts `send_packet` and is not interrupted by it.
  The hardware goes on meanwhile.

Every skb that is accepted, refused, completed or freed is recorded in a
log. Statistics and the registers that start the transmitter are left
out.
-/

open Framework

namespace S3c2510

/-! ### Descriptors -/

abbrev TX_NUM_FD : Nat := 64

abbrev OWNERSHIP16 : UInt32 := 0x8000
abbrev TxS_Comp : UInt32 := 0x0100
abbrev TxWidSet16 : UInt32 := 0x0002

/-- A transmit frame descriptor. -/
structure TxFD where
  FDDataPtr : UInt32
  FDStatLen : UInt32
  deriving DecidableEq

/-- The descriptor belongs to the BDMA. -/
def TxFD.owned (fd : TxFD) : Bool := fd.FDStatLen &&& (OWNERSHIP16 <<< 16) ≠ 0

/-- The transmission has completed. -/
def TxFD.complete (fd : TxFD) : Bool := fd.FDStatLen &&& (TxS_Comp <<< 16) ≠ 0

/-- The fields of an skb that the driver reads. The length of a frame has 16
bits in a descriptor. -/
structure Skb where
  data : UInt32
  len : UInt32
  len_lt : len.toNat < 65536

/-- A descriptor that is not in use. -/
def TxFD.clear : TxFD := ⟨0, TxWidSet16 <<< 16⟩

/-- A descriptor that is handed over to the BDMA. -/
def TxFD.hand (fd : TxFD) (skb : Skb) : TxFD :=
  { fd with FDStatLen := ((TxWidSet16 + OWNERSHIP16) <<< 16) ||| skb.len }

/-- A descriptor that the BDMA gives back, with any other status. -/
def TxFD.finish (fd : TxFD) (status : UInt32) : TxFD :=
  { fd with FDStatLen := status &&& ~~~(OWNERSHIP16 <<< 16) ||| (TxS_Comp <<< 16) }

theorem and_ne_zero_iff {x m : UInt32} {k : Nat} (hm : m.toNat = 2 ^ k) :
    x &&& m ≠ 0 ↔ x.toNat.testBit k = true := by
  rw [Ne, ← UInt32.toNat_inj, UInt32.toNat_and, hm, UInt32.toNat_zero, Nat.and_two_pow]
  cases x.toNat.testBit k <;> simp

theorem owned_eq (fd : TxFD) : fd.owned = fd.FDStatLen.toNat.testBit 31 := by
  rw [Bool.eq_iff_iff, TxFD.owned, decide_eq_true_iff]
  exact and_ne_zero_iff (by decide)

theorem complete_eq (fd : TxFD) : fd.complete = fd.FDStatLen.toNat.testBit 24 := by
  rw [Bool.eq_iff_iff, TxFD.complete, decide_eq_true_iff]
  exact and_ne_zero_iff (by decide)

@[simp] theorem clear_owned : TxFD.clear.owned = false := by decide

@[simp] theorem clear_complete : TxFD.clear.complete = false := by decide

@[simp] theorem hand_owned (fd : TxFD) (skb : Skb) : (fd.hand skb).owned = true := by
  have hbit : ((TxWidSet16 + OWNERSHIP16) <<< 16).toNat.testBit 31 = true := by decide
  rw [owned_eq, TxFD.hand, UInt32.toNat_or, Nat.testBit_or, hbit, Bool.true_or]

@[simp] theorem hand_complete (fd : TxFD) (skb : Skb) : (fd.hand skb).complete = false := by
  have hbit : ((TxWidSet16 + OWNERSHIP16) <<< 16).toNat.testBit 24 = false := by decide
  rw [complete_eq, TxFD.hand, UInt32.toNat_or, Nat.testBit_or, hbit, Bool.false_or]
  exact Nat.testBit_lt_two_pow (Nat.lt_trans skb.len_lt (by decide))

@[simp] theorem finish_owned (fd : TxFD) (status : UInt32) : (fd.finish status).owned = false := by
  have hmask : (~~~(OWNERSHIP16 <<< 16)).toNat.testBit 31 = false := by decide
  have hbit : (TxS_Comp <<< 16).toNat.testBit 31 = false := by decide
  rw [owned_eq, TxFD.finish, UInt32.toNat_or, Nat.testBit_or, UInt32.toNat_and, Nat.testBit_and,
    hmask, hbit, Bool.and_false, Bool.false_or]

@[simp] theorem finish_complete (fd : TxFD) (status : UInt32) :
    (fd.finish status).complete = true := by
  have hbit : (TxS_Comp <<< 16).toNat.testBit 24 = true := by decide
  rw [complete_eq, TxFD.finish, UInt32.toNat_or, Nat.testBit_or, hbit, Bool.or_true]

/-! ### The driver -/

/-- What happens to the skbs. -/
inductive Entry where
  | accepted (skb : Nat)
  | refused (skb : Nat)
  /-- The BDMA has transmitted it. -/
  | completed (skb : Nat)
  | freed (skb : Nat)
  /-- The ring was set up anew. -/
  | reset
  deriving DecidableEq, Repr

/-- The next statement of `send_packet`. -/
inductive Send where
  | idle
  /-- `index = np->tx_ready` -/
  | index (skb : Nat)
  /-- `if (txFrCtl[index] == NULL)` -/
  | test (skb : Nat) (index : Fin TX_NUM_FD)
  /-- `txFd[index].FDDataPtr = skb->data - 2` -/
  | dataPtr (skb : Nat) (index : Fin TX_NUM_FD)
  /-- `txFrCtl[index] = skb` -/
  | store (skb : Nat) (index : Fin TX_NUM_FD)
  /-- `txFd[index].FDStatLen = ...` -/
  | statLen (skb : Nat) (index : Fin TX_NUM_FD)
  /-- `np->tx_ready = (index + 1) % TX_NUM_FD` -/
  | advance (index : Fin TX_NUM_FD)
  /-- Start the transmitter, and return 0. -/
  | start
  /-- Stop the queue, and return -1. -/
  | refuse (skb : Nat)
  deriving DecidableEq

/-- The transmit side of `S3C2510_MAC`, with the hardware and the skbs. An
skb is known by its address. -/
structure Mac where
  txFd : Vector TxFD TX_NUM_FD
  txFrCtl : Vector (Option Nat) TX_NUM_FD
  txReady : Fin TX_NUM_FD
  txDone : Fin TX_NUM_FD
  send : Send
  /-- The variable `index` of a `tx_done_check` in progress. -/
  check : Option (Fin TX_NUM_FD)
  /-- The next descriptor of the BDMA. -/
  btxbdcnt : Fin TX_NUM_FD
  up : Bool
  stopped : Bool
  txCompIE : Bool
  mem : Nat → Skb
  log : List Entry

/-- `dev_kfree_skb_irq(NULL)`. -/
inductive Fault where
  | nullSkb
  deriving DecidableEq, Repr

/-- A statement of `send_packet`. -/
def Mac.sendStep (s : Mac) : Mac :=
  match s.send with
  | .idle => s
  | .index skb => { s with send := .test skb s.txReady }
  | .test skb index =>
    { s with send := if s.txFrCtl.get index = none then .dataPtr skb index else .refuse skb }
  | .dataPtr skb index =>
    { s with
      txFd := put s.txFd index { s.txFd.get index with FDDataPtr := (s.mem skb).data - 2 }
      send := .store skb index }
  | .store skb index =>
    { s with
      txFrCtl := put s.txFrCtl index (some skb)
      send := .statLen skb index
      log := s.log ++ [.accepted skb] }
  | .statLen skb index =>
    { s with
      txFd := put s.txFd index ((s.txFd.get index).hand (s.mem skb))
      send := .advance index }
  | .advance index => { s with txReady := place index 1, send := .start }
  | .start => { s with send := .idle }
  | .refuse skb =>
    { s with stopped := true, txCompIE := true, send := .idle, log := s.log ++ [.refused skb] }

/-- An iteration of `tx_done_check`; the last one sets `tx_done`. -/
def Mac.checkStep (s : Mac) (index : Fin TX_NUM_FD) : Except Fault Mac :=
  if (s.txFd.get index).complete = false then .ok { s with txDone := index, check := none }
  else
    match s.txFrCtl.get index with
    | none => .error .nullSkb
    | some skb => .ok { s with
      txFrCtl := put s.txFrCtl index none
      txFd := put s.txFd index .clear
      check := some (place index 1)
      log := s.log ++ [.freed skb] }

/-- The BDMA completes its next descriptor, if it owns it. -/
def Mac.complete (s : Mac) (status : UInt32) : Mac :=
  if (s.txFd.get s.btxbdcnt).owned then
    { s with
      txFd := put s.txFd s.btxbdcnt ((s.txFd.get s.btxbdcnt).finish status)
      btxbdcnt := place s.btxbdcnt 1
      log := s.log ++ (s.txFrCtl.get s.btxbdcnt).toList.map .completed }
  else s

/-- Free the skbs in the hardware. -/
def Mac.removeSkbInHW (s : Mac) : Mac :=
  { s with
    txFrCtl := Vector.replicate TX_NUM_FD none
    log := s.log ++ (s.txFrCtl.toList.filterMap id).map .freed }

/-- Set the ring up, with the BDMA at its first descriptor. -/
def Mac.setupTxFDs (s : Mac) : Mac :=
  { s with
    txFrCtl := Vector.replicate TX_NUM_FD none
    txFd := Vector.replicate TX_NUM_FD .clear
    txDone := 0
    txReady := 0
    btxbdcnt := 0
    log := s.log ++ [.reset] }

inductive Event where
  /-- The network layer fills in an skb. -/
  | fill (skb : Nat) (v : Skb)
  | sendPacket (skb : Nat)
  | sendStep
  | complete (status : UInt32)
  | txDoneCheck
  | checkStep
  | txTimeout
  | close
  | open

/-- Nothing of the driver is running. -/
def Mac.Quiet (s : Mac) : Prop := s.send = .idle ∧ s.check = none

instance (s : Mac) : Decidable s.Quiet := by
  unfold Mac.Quiet
  infer_instance

/-- One step. What cannot happen in a state does nothing. -/
def Mac.step (s : Mac) : Event → Except Fault Mac
  | .fill skb v => .ok { s with mem := Function.update s.mem skb v }
  | .sendPacket skb => .ok (if s.up ∧ s.Quiet then { s with send := .index skb } else s)
  | .sendStep => .ok (if s.check = none then s.sendStep else s)
  | .complete status => .ok (if s.up then s.complete status else s)
  | .txDoneCheck => .ok (if s.up ∧ s.check = none then { s with check := some s.txDone } else s)
  | .checkStep =>
    match s.check with
    | none => .ok s
    | some index => s.checkStep index
  | .txTimeout =>
    .ok (if s.up ∧ s.Quiet then { s.removeSkbInHW.setupTxFDs with stopped := false } else s)
  | .close =>
    .ok (if s.up ∧ s.Quiet then
      { s.removeSkbInHW with up := false, stopped := true, log := s.removeSkbInHW.log ++ [.reset] }
      else s)
  | .open =>
    .ok (if s.up = false then { s.setupTxFDs with up := true, stopped := false } else s)

/-- The interface as it is opened for the first time. -/
def Mac.opened (mem : Nat → Skb) : Mac where
  txFd := Vector.replicate TX_NUM_FD .clear
  txFrCtl := Vector.replicate TX_NUM_FD none
  txReady := 0
  txDone := 0
  send := .idle
  check := none
  btxbdcnt := 0
  up := true
  stopped := false
  txCompIE := false
  mem := mem
  log := []

/-! ### What the log says -/

def accepted (l : List Entry) : List Nat :=
  l.filterMap fun
    | .accepted skb => some skb
    | _ => none

def completed (l : List Entry) : List Nat :=
  l.filterMap fun
    | .completed skb => some skb
    | _ => none

def freed (l : List Entry) : List Nat :=
  l.filterMap fun
    | .freed skb => some skb
    | _ => none

/-- The log since the ring was last set up. -/
def sinceReset (l : List Entry) : List Entry :=
  l.foldl (fun m e => if e = .reset then [] else m ++ [e]) []

/-- The first slot in use, as far as a `tx_done_check` in progress has
come. -/
def Mac.first (s : Mac) : Fin TX_NUM_FD := s.check.getD s.txDone

/-- The slot after the last one in use: `tx_ready`, and the next one while a
`send_packet` has stored its skb and not yet moved `tx_ready`. -/
def Mac.next (s : Mac) : Fin TX_NUM_FD :=
  match s.send with
  | .statLen _ _ | .advance _ => place s.txReady 1
  | _ => s.txReady

/-- The next statement of `send_packet` is one of those that are executed
for an skb that is refused. -/
def Mac.Refusing (s : Mac) (skb : Nat) : Prop :=
  s.send = .index skb ∨ (∃ index, s.send = .test skb index ∧ s.txFrCtl.get index ≠ none) ∨
    s.send = .refuse skb

/-- **What is said of the ring.** -/
structure Mac.Correct (s : Mac) : Prop where
  /-- The slots in use are the cyclic interval from `first` to `next`. -/
  occupied : s.up = true → ∃ len ≤ TX_NUM_FD, s.next = place s.first len ∧
    ∀ i, (s.txFrCtl.get i).isSome ↔ ∃ k < len, i = place s.first k
  /-- Every accepted skb has been freed once, or is in the ring. -/
  freedOnce : (accepted s.log).Perm (freed s.log ++ s.txFrCtl.toList.filterMap id)
  /-- Since the ring was set up, the skbs were freed in the order of their
      completion, and completed in the order of their acceptance. -/
  freedInOrder : freed (sinceReset s.log) <+: completed (sinceReset s.log)
  completedInOrder : completed (sinceReset s.log) <+: accepted (sinceReset s.log)
  /-- `send_packet` refuses an skb exactly when all slots are in use. -/
  refuses : ∀ skb index, s.send = .test skb index → s.check = none →
    (s.sendStep.send = .refuse skb ↔ ∀ i, (s.txFrCtl.get i).isSome)
  /-- A refused skb is neither stored, modified nor freed. -/
  refused : ∀ skb, s.Refusing skb →
    s.sendStep.txFrCtl = s.txFrCtl ∧ s.sendStep.txFd = s.txFd ∧ s.sendStep.mem = s.mem ∧
      accepted s.sendStep.log = accepted s.log ∧ freed s.sendStep.log = freed s.log

/-! ### Logs -/

section
variable {l : List Entry} {q : List Nat} {c : Nat}

theorem accepted_append (l m : List Entry) : accepted (l ++ m) = accepted l ++ accepted m :=
  List.filterMap_append

theorem completed_append (l m : List Entry) : completed (l ++ m) = completed l ++ completed m :=
  List.filterMap_append

theorem freed_append (l m : List Entry) : freed (l ++ m) = freed l ++ freed m :=
  List.filterMap_append

theorem sinceReset_snoc {e : Entry} (h : e ≠ .reset) (l : List Entry) :
    sinceReset (l ++ [e]) = sinceReset l ++ [e] := by
  rw [sinceReset, List.foldl_append, List.foldl_cons, List.foldl_nil, if_neg h]
  rfl

theorem sinceReset_reset (l : List Entry) : sinceReset (l ++ [.reset]) = [] := by
  rw [sinceReset, List.foldl_append, List.foldl_cons, List.foldl_nil, if_pos rfl]

theorem accepted_map_freed (q : List Nat) : accepted (q.map .freed) = [] := by
  induction q with
  | nil => rfl
  | cons x q ih => exact ih

theorem freed_map_freed (q : List Nat) : freed (q.map .freed) = q := by
  induction q with
  | nil => rfl
  | cons x q ih => exact congrArg (x :: ·) ih

/-- The log accounts for the skbs in the ring: `q`, oldest first, of which
the first `c` have completed. -/
structure Accounts (l : List Entry) (q : List Nat) (c : Nat) : Prop where
  accepted : accepted (sinceReset l) = freed (sinceReset l) ++ q
  completed : completed (sinceReset l) = freed (sinceReset l) ++ q.take c
  all : (S3c2510.accepted l).Perm (freed l ++ q)

/-- One more entry: what it accepts comes in at the end of the queue, and
what it frees goes out at the front. -/
theorem Accounts.snoc (h : Accounts l q c) {e : Entry} (he : e ≠ .reset) {r : List Nat} {d : Nat}
    (hq : q ++ S3c2510.accepted [e] = freed [e] ++ r)
    (hc : q.take c ++ S3c2510.completed [e] = freed [e] ++ r.take d) : Accounts (l ++ [e]) r d := by
  have hsince : sinceReset (l ++ [e]) = sinceReset l ++ [e] := sinceReset_snoc he l
  refine ⟨?_, ?_, ?_⟩
  · rw [hsince, accepted_append, freed_append, h.accepted, List.append_assoc, hq,
      List.append_assoc]
  · rw [hsince, completed_append, freed_append, h.completed, List.append_assoc, hc,
      List.append_assoc]
  · rw [accepted_append, freed_append, List.append_assoc, ← hq, ← List.append_assoc]
    exact h.all.append_right _

theorem Accounts.accept (h : Accounts l q c) (hc : c ≤ q.length) (x : Nat) :
    Accounts (l ++ [.accepted x]) (q ++ [x]) c := by
  refine h.snoc (by simp) rfl ?_
  show q.take c ++ [] = (q ++ [x]).take c
  rw [List.append_nil, List.take_append_of_le_length hc]

theorem Accounts.complete (h : Accounts l q c) (hc : c < q.length) :
    Accounts (l ++ [.completed q[c]]) q (c + 1) := by
  refine h.snoc (by simp) (List.append_nil q) ?_
  show q.take c ++ [q[c]] = q.take (c + 1)
  rw [List.take_succ_eq_append_getElem hc]

theorem Accounts.free {x : Nat} (h : Accounts l (x :: q) (c + 1)) :
    Accounts (l ++ [.freed x]) q c :=
  h.snoc (by simp) (List.append_nil (x :: q)) (List.append_nil (x :: q.take c))

theorem Accounts.refuse (h : Accounts l q c) (x : Nat) : Accounts (l ++ [.refused x]) q c :=
  h.snoc (by simp) (List.append_nil q) (List.append_nil (q.take c))

theorem Accounts.reset (h : Accounts l q c) {r : List Nat} (hr : r.Perm q) :
    Accounts (l ++ r.map .freed ++ [.reset]) [] 0 := by
  refine ⟨?_, ?_, ?_⟩
  · rw [sinceReset_reset]
    rfl
  · rw [sinceReset_reset]
    rfl
  · rw [accepted_append, accepted_append, freed_append, freed_append, accepted_map_freed,
      freed_map_freed]
    show (S3c2510.accepted l ++ [] ++ []).Perm (freed l ++ r ++ [] ++ [])
    simp only [List.append_nil]
    exact h.all.trans (hr.symm.append_left _)

end

/-! ### Descriptors in the ring -/

/-- From `a` on, `c` descriptors have completed and those up to `m` belong to
the BDMA. -/
structure Descs (v : Vector TxFD TX_NUM_FD) (a : Fin TX_NUM_FD) (c m : Nat) : Prop where
  complete : ∀ k < TX_NUM_FD, (v.get (place a k)).complete = decide (k < c)
  owned : ∀ k < TX_NUM_FD, (v.get (place a k)).owned = decide (c ≤ k ∧ k < m)

section
variable {v : Vector TxFD TX_NUM_FD} {a : Fin TX_NUM_FD} {c m : Nat}

theorem Descs.empty (a : Fin TX_NUM_FD) : Descs (Vector.replicate TX_NUM_FD .clear) a 0 0 := by
  have hget : ∀ i : Fin TX_NUM_FD, (Vector.replicate TX_NUM_FD TxFD.clear).get i = .clear :=
    fun i => Vector.getElem_replicate _
  refine ⟨fun k _ => ?_, fun k _ => ?_⟩
  · rw [hget, clear_complete]
    simp
  · rw [hget, clear_owned]
    simp

theorem Descs.write (h : Descs v a c m) {i d n : Nat} {fd : TxFD} (hi : i < TX_NUM_FD)
    (hcomplete : fd.complete = decide (i < d)) (howned : fd.owned = decide (d ≤ i ∧ i < n))
    (hothers : ∀ k, i ≠ k → ((k < c ↔ k < d) ∧ (c ≤ k ∧ k < m ↔ d ≤ k ∧ k < n))) :
    Descs (put v (place a i) fd) a d n := by
  refine ⟨fun k hk => ?_, fun k hk => ?_⟩
  · rw [get_put_place v a hi hk]
    split
    · next heq => rw [hcomplete, heq]
    · next hne =>
      rw [h.complete k hk, decide_eq_decide]
      exact (hothers k hne).1
  · rw [get_put_place v a hi hk]
    split
    · next heq => rw [howned, heq]
    · next hne =>
      rw [h.owned k hk, decide_eq_decide]
      exact (hothers k hne).2

theorem Descs.hand (h : Descs v a c m) (hc : c ≤ m) (hm : m < TX_NUM_FD) (skb : Skb) :
    Descs (put v (place a m) ((v.get (place a m)).hand skb)) a c (m + 1) := by
  refine h.write hm ?_ ?_ fun k hne => by omega
  · rw [hand_complete, eq_comm, decide_eq_false_iff_not]
    omega
  · rw [hand_owned, eq_comm, decide_eq_true_iff]
    omega

theorem Descs.finish (h : Descs v a c m) (hc : c < m) (hm : m ≤ TX_NUM_FD) (status : UInt32) :
    Descs (put v (place a c) ((v.get (place a c)).finish status)) a (c + 1) m := by
  refine h.write (Nat.lt_of_lt_of_le hc hm) ?_ ?_ fun k hne => by omega
  · rw [finish_complete, eq_comm, decide_eq_true_iff]
    omega
  · rw [finish_owned, eq_comm, decide_eq_false_iff_not]
    omega

theorem Descs.clear (h : Descs v a (c + 1) (m + 1)) (hc : c < TX_NUM_FD) (hm : m < TX_NUM_FD) :
    Descs (put v a .clear) (place a 1) c m := by
  have hpos : 0 < TX_NUM_FD := by decide
  -- the places after `a` are as they were, and `a` is now the last one
  have hget : ∀ k < TX_NUM_FD, (put v a .clear).get (place (place a 1) k) =
      if k + 1 = TX_NUM_FD then .clear else v.get (place a (k + 1)) := by
    intro k hk
    rw [place_place, Nat.add_comm]
    by_cases hlast : k + 1 = TX_NUM_FD
    · rw [if_pos hlast, hlast, place_self, get_put_self]
    · have hput := get_put_place v a hpos (by omega : k + 1 < TX_NUM_FD) .clear
      rw [place_zero, if_neg (by omega)] at hput
      rw [if_neg hlast, hput]
  refine ⟨fun k hk => ?_, fun k hk => ?_⟩
  · rw [hget k hk]
    split
    · next hlast =>
      rw [clear_complete, eq_comm, decide_eq_false_iff_not]
      omega
    · next hne =>
      rw [h.complete (k + 1) (by omega), decide_eq_decide]
      omega
  · rw [hget k hk]
    split
    · next hlast =>
      rw [clear_owned, eq_comm, decide_eq_false_iff_not]
      omega
    · next hne =>
      rw [h.owned (k + 1) (by omega), decide_eq_decide]
      omega

theorem Descs.dataPtr (h : Descs v a c m) (i : Fin TX_NUM_FD) (ptr : UInt32) :
    Descs (put v i { v.get i with FDDataPtr := ptr }) a c m := by
  have hget : ∀ j, ((put v i { v.get i with FDDataPtr := ptr }).get j).FDStatLen =
      (v.get j).FDStatLen := by
    intro j
    by_cases hij : i = j
    · rw [hij, get_put_self]
    · rw [get_put_ne v hij]
  refine ⟨fun k hk => ?_, fun k hk => ?_⟩
  · rw [TxFD.complete, hget]
    exact h.complete k hk
  · rw [TxFD.owned, hget]
    exact h.owned k hk

end

/-! ### The invariant -/

/-- The number of skbs of the ring that are handed over: all, but the one
that `send_packet` has just stored. -/
def Mac.handed (s : Mac) (q : List Nat) : Nat :=
  match s.send with
  | .statLen _ _ => q.length - 1
  | _ => q.length

/-- What holds at each of the statements of `send_packet`. -/
def Mac.SendAt (s : Mac) (q : List Nat) : Prop :=
  match s.send with
  | .idle | .index _ | .start | .refuse _ => s.txReady = place s.first q.length
  | .test _ index => index = s.txReady ∧ s.txReady = place s.first q.length
  | .dataPtr _ index | .store _ index =>
    index = s.txReady ∧ s.txReady = place s.first q.length ∧ q.length < TX_NUM_FD
  | .statLen _ index =>
    index = s.txReady ∧ 1 ≤ q.length ∧ s.txReady = place s.first (q.length - 1)
  | .advance index => index = s.txReady ∧ place s.txReady 1 = place s.first q.length

/-- The ring holds `q`, oldest first, of which the first `c` have
completed. -/
structure Mac.Holds (s : Mac) (q : List Nat) (c : Nat) : Prop where
  laid : Laid s.txFrCtl s.first q
  completed_le : c ≤ s.handed q
  hardware : s.btxbdcnt = place s.first c
  descs : Descs s.txFd s.first c (s.handed q)
  sendAt : s.SendAt q
  accounts : Accounts s.log q c

/-- The interface is down, and nothing is left in the ring. -/
structure Mac.Down (s : Mac) : Prop where
  quiet : s.Quiet
  empty : s.txFrCtl = Vector.replicate TX_NUM_FD none
  accounts : Accounts s.log [] 0

inductive Mac.Inv (s : Mac) : Prop
  | up (hup : s.up = true) (q : List Nat) (c : Nat) (h : s.Holds q c)
  | down (hup : s.up = false) (h : s.Down)

theorem handed_le (s : Mac) (q : List Nat) : s.handed q ≤ q.length := by
  unfold Mac.handed
  split <;> omega

section
variable {s : Mac} {q : List Nat} {c : Nat}

theorem Mac.Holds.handed_le_num (h : s.Holds q c) : s.handed q ≤ TX_NUM_FD :=
  Nat.le_trans (handed_le s q) h.laid.length_le

/-- **The statements of `send_packet` keep the invariant.** -/
theorem Mac.Holds.sendStep (h : s.Holds q c) : ∃ q', s.sendStep.Holds q' c := by
  have hat := h.sendAt
  have hle := h.completed_le
  have hdescs := h.descs
  unfold Mac.SendAt at hat
  unfold Mac.handed at hle hdescs
  unfold Mac.sendStep
  match hsend : s.send with
  | .idle => exact ⟨q, h⟩
  | .index skb =>
    rw [hsend] at hat hle hdescs
    exact ⟨q, h.laid, hle, h.hardware, hdescs, ⟨rfl, hat⟩, h.accounts⟩
  | .test skb index =>
    rw [hsend] at hat hle hdescs
    obtain ⟨rfl, hready⟩ := hat
    dsimp only
    split
    · next hnone =>
      have hlt : q.length < TX_NUM_FD := by
        rw [hready] at hnone
        exact h.laid.next_eq_none_iff.mp hnone
      exact ⟨q, h.laid, hle, h.hardware, hdescs, ⟨rfl, hready, hlt⟩, h.accounts⟩
    · exact ⟨q, h.laid, hle, h.hardware, hdescs, hready, h.accounts⟩
  | .dataPtr skb index =>
    rw [hsend] at hat hle hdescs
    exact ⟨q, h.laid, hle, h.hardware, hdescs.dataPtr _ _, hat, h.accounts⟩
  | .store skb index =>
    rw [hsend] at hat hle hdescs
    obtain ⟨rfl, hready, hlt⟩ := hat
    have hlen : (q ++ [skb]).length - 1 = q.length := by simp
    refine ⟨q ++ [skb], ?_, ?_, h.hardware, ?_, ?_, h.accounts.accept hle skb⟩
    · rw [hready]
      exact h.laid.push hlt skb
    · show c ≤ (q ++ [skb]).length - 1
      rw [hlen]
      exact hle
    · show Descs s.txFd s.first c ((q ++ [skb]).length - 1)
      rw [hlen]
      exact hdescs
    · refine ⟨rfl, by simp, ?_⟩
      rw [hlen]
      exact hready
  | .statLen skb index =>
    rw [hsend] at hat hle hdescs
    obtain ⟨rfl, hpos, hready⟩ := hat
    have hnum := h.laid.length_le
    have hlen : q.length - 1 + 1 = q.length := by omega
    refine ⟨q, h.laid, ?_, h.hardware, ?_, ?_, h.accounts⟩
    · show c ≤ q.length
      exact Nat.le_trans hle (Nat.sub_le _ _)
    · have hhand := Descs.hand (m := q.length - 1) hdescs hle (by omega) (s.mem skb)
      rw [hlen, ← hready] at hhand
      exact hhand
    · refine ⟨rfl, ?_⟩
      show place s.txReady 1 = place s.first q.length
      rw [hready, place_place, hlen]
  | .advance index =>
    rw [hsend] at hat hle hdescs
    obtain ⟨rfl, hready⟩ := hat
    exact ⟨q, h.laid, hle, h.hardware, hdescs, hready, h.accounts⟩
  | .start =>
    rw [hsend] at hat hle hdescs
    exact ⟨q, h.laid, hle, h.hardware, hdescs, hat, h.accounts⟩
  | .refuse skb =>
    rw [hsend] at hat hle hdescs
    exact ⟨q, h.laid, hle, h.hardware, hdescs, hat, h.accounts.refuse skb⟩

/-- **So do the completions.** -/
theorem Mac.Holds.complete (h : s.Holds q c) (status : UInt32) :
    ∃ c', (s.complete status).Holds q c' := by
  unfold Mac.complete
  split
  · next howned =>
    have hnum := h.handed_le_num
    -- the BDMA owns the first descriptor that has not completed
    have hlt : c < s.handed q := by
      by_contra hge
      have hc : c = s.handed q := Nat.le_antisymm h.completed_le (by omega)
      rw [h.hardware] at howned
      by_cases hround : c = TX_NUM_FD
      · have hfirst := h.descs.owned 0 (by decide)
        rw [place_zero] at hfirst
        rw [hround, place_self, hfirst, decide_eq_true_iff] at howned
        omega
      · rw [h.descs.owned c (by omega), decide_eq_true_iff] at howned
        omega
    have hclt : c < q.length := Nat.lt_of_lt_of_le hlt (handed_le s q)
    have hslot : s.txFrCtl.get s.btxbdcnt = some q[c] := by
      rw [h.hardware, h.laid.slot c (by omega), List.getElem?_eq_getElem hclt]
    refine ⟨c + 1, h.laid, hlt, ?_, ?_, h.sendAt, ?_⟩
    · show place s.btxbdcnt 1 = place s.first (c + 1)
      rw [h.hardware, place_place]
    · have hfinish := h.descs.finish hlt hnum status
      rw [← h.hardware] at hfinish
      exact hfinish
    · show Accounts (s.log ++ (s.txFrCtl.get s.btxbdcnt).toList.map .completed) q (c + 1)
      rw [hslot]
      exact h.accounts.complete hclt
  · exact ⟨c, h⟩

theorem handed_cons {x : Nat} (h : c + 1 ≤ s.handed (x :: q)) :
    s.handed (x :: q) = s.handed q + 1 := by
  unfold Mac.handed at h ⊢
  split
  · next hsend =>
    rw [hsend] at h
    simp only [List.length_cons] at h ⊢
    omega
  · rfl

theorem Mac.SendAt.free {t : Mac} {x : Nat} (h : s.SendAt (x :: q))
    (hc : c + 1 ≤ s.handed (x :: q)) (hsend : t.send = s.send) (hready : t.txReady = s.txReady)
    (hfirst : t.first = place s.first 1) : t.SendAt q := by
  have hplace : place t.first q.length = place s.first (x :: q).length := by
    rw [hfirst, place_place, List.length_cons, Nat.add_comm]
  unfold Mac.handed at hc
  unfold Mac.SendAt at h ⊢
  rw [hsend, hready]
  match hpc : s.send with
  | .idle | .index _ | .start | .refuse _ | .test _ _ | .advance _ =>
    rw [hpc] at h
    rw [hplace]
    exact h
  | .dataPtr _ index | .store _ index =>
    rw [hpc] at h
    rw [hplace]
    refine ⟨h.1, h.2.1, Nat.lt_trans (Nat.lt_succ_self _) h.2.2⟩
  | .statLen _ index =>
    rw [hpc] at h hc
    -- the skb that is being sent is not the one that is freed
    have hpos : 1 ≤ q.length := by
      simp only [List.length_cons] at hc
      omega
    refine ⟨h.1, hpos, ?_⟩
    rw [h.2.2, hfirst, place_place, List.length_cons]
    congr 1
    omega

/-- **And the iterations of `tx_done_check`**, which never find an empty
slot. -/
theorem Mac.Holds.checkStep {index : Fin TX_NUM_FD} (h : s.Holds q c)
    (hcheck : s.check = some index) : ∃ s' q' c', s.checkStep index = .ok s' ∧ s'.up = s.up ∧
      s'.Holds q' c' := by
  have hfirst : s.first = index := by rw [Mac.first, hcheck]; rfl
  have hdescs := h.descs
  have hnum := h.handed_le_num
  have hpos := hdescs.complete 0 (by decide)
  rw [place_zero, hfirst] at hpos
  unfold Mac.checkStep
  split
  · -- the loop ends
    refine ⟨_, q, c, rfl, rfl, ?_⟩
    have hsame : Mac.first { s with txDone := index, check := none } = s.first := hfirst.symm
    exact ⟨hsame ▸ h.laid, h.completed_le, hsame ▸ h.hardware, hsame ▸ h.descs, by
      have hat := h.sendAt
      unfold Mac.SendAt at hat ⊢
      rw [hsame]
      exact hat, h.accounts⟩
  · next hcomplete =>
    have hc : c ≠ 0 := by
      rw [hpos] at hcomplete
      simpa using hcomplete
    obtain ⟨c, rfl⟩ := Nat.exists_eq_succ_of_ne_zero hc
    -- so there is an oldest skb, and it has completed
    have hle := h.completed_le
    have hlen := handed_le s q
    match q, h with
    | [], h =>
      rw [List.length_nil] at hlen
      omega
    | x :: q, h =>
      have hlaid := h.laid
      have hhanded := handed_cons hle
      rw [hfirst] at hlaid
      rw [hlaid.first]
      refine ⟨_, q, c, rfl, rfl, hlaid.pop, ?_, ?_, ?_, ?_, h.accounts.free⟩
      · show c ≤ s.handed q
        omega
      · show s.btxbdcnt = place (place index 1) c
        rw [h.hardware, hfirst, place_place, Nat.add_comm]
      · rw [hhanded, hfirst] at hdescs
        exact hdescs.clear (by omega) (by omega)
      · exact h.sendAt.free hle rfl rfl (by rw [hfirst]; rfl)

theorem Mac.Holds.setup (hquiet : s.Quiet) {l : List Entry} (hl : Accounts l [] 0)
    (hlog : s.setupTxFDs.log = l) : s.setupTxFDs.Holds [] 0 := by
  obtain ⟨hsend, hcheck⟩ := hquiet
  have hsend' : s.setupTxFDs.send = .idle := hsend
  have hfirst : s.setupTxFDs.first = 0 := by
    show s.check.getD 0 = 0
    rw [hcheck]
    rfl
  have hhanded : s.setupTxFDs.handed [] = 0 := Nat.le_zero.mp (handed_le _ _)
  refine ⟨?_, Nat.zero_le _, ?_, ?_, ?_, hlog ▸ hl⟩
  · exact Laid.empty _
  · rw [hfirst, place_zero]
    rfl
  · rw [hhanded]
    exact Descs.empty _
  · unfold Mac.SendAt
    rw [hsend', hfirst]
    rfl

end

variable {s : Mac} {q : List Nat} {c : Nat}

theorem removeSkbInHW_accounts (h : s.Holds q c) :
    Accounts (s.removeSkbInHW.log ++ [.reset]) [] 0 :=
  h.accounts.reset h.laid.contents_perm

theorem Mac.Holds.sendPacket (h : s.Holds q c) (hquiet : s.Quiet) (skb : Nat) :
    Mac.Holds { s with send := .index skb } q c := by
  obtain ⟨hsend, -⟩ := hquiet
  have hat := h.sendAt
  have hle := h.completed_le
  have hdescs := h.descs
  unfold Mac.SendAt at hat
  unfold Mac.handed at hle hdescs
  rw [hsend] at hat hle hdescs
  exact ⟨h.laid, hle, h.hardware, hdescs, hat, h.accounts⟩

theorem Mac.Holds.txDoneCheck (h : s.Holds q c) (hnone : s.check = none) :
    Mac.Holds { s with check := some s.txDone } q c := by
  have hfirst : s.first = s.txDone := by
    rw [Mac.first, hnone]
    rfl
  have hsame : Mac.first { s with check := some s.txDone } = s.first := hfirst.symm
  refine ⟨hsame ▸ h.laid, h.completed_le, hsame ▸ h.hardware, hsame ▸ h.descs, ?_, h.accounts⟩
  have hat := h.sendAt
  unfold Mac.SendAt at hat ⊢
  rw [hsame]
  exact hat

theorem sendStep_up (s : Mac) : s.sendStep.up = s.up := by
  unfold Mac.sendStep
  split <;> rfl

theorem complete_up (s : Mac) (status : UInt32) : (s.complete status).up = s.up := by
  unfold Mac.complete
  split <;> rfl

/-- **No step of an open interface fails.** -/
theorem Mac.Holds.step (hup : s.up = true) (h : s.Holds q c) (e : Event) :
    ∃ s', s.step e = .ok s' ∧ s'.Inv := by
  -- a step that cannot happen here does nothing
  have hstay : s.Inv := .up hup q c h
  match e with
  | .fill skb v =>
    exact ⟨_, rfl, .up hup q c { h with }⟩
  | .sendPacket skb =>
    refine ⟨_, rfl, ?_⟩
    split
    · next hquiet => exact .up hup q c (h.sendPacket hquiet.2 skb)
    · exact hstay
  | .sendStep =>
    refine ⟨_, rfl, ?_⟩
    split
    · obtain ⟨q', h'⟩ := h.sendStep
      exact .up ((sendStep_up s).trans hup) q' c h'
    · exact hstay
  | .complete status =>
    refine ⟨_, rfl, ?_⟩
    rw [if_pos hup]
    obtain ⟨c', h'⟩ := h.complete status
    exact .up ((complete_up s status).trans hup) q c' h'
  | .txDoneCheck =>
    refine ⟨_, rfl, ?_⟩
    split
    · next hnone => exact .up hup q c (h.txDoneCheck hnone.2)
    · exact hstay
  | .checkStep =>
    unfold Mac.step
    match hcheck : s.check with
    | none => exact ⟨s, rfl, hstay⟩
    | some index =>
      obtain ⟨s', q', c', hs', hup', h'⟩ := h.checkStep hcheck
      exact ⟨s', hs', .up (hup'.trans hup) q' c' h'⟩
  | .txTimeout =>
    refine ⟨_, rfl, ?_⟩
    split
    · next hquiet =>
      -- the ring is emptied and set up anew
      have hsetup := Mac.Holds.setup (s := s.removeSkbInHW) hquiet.2 (removeSkbInHW_accounts h) rfl
      exact .up hup [] 0 { hsetup with }
    · exact hstay
  | .close =>
    refine ⟨_, rfl, ?_⟩
    split
    · next hquiet => exact .down rfl ⟨hquiet.2, rfl, removeSkbInHW_accounts h⟩
    · exact hstay
  | .open =>
    refine ⟨_, rfl, ?_⟩
    rw [if_neg (by simp [hup])]
    exact hstay

/-- **Nor one of a closed interface.** -/
theorem Mac.Down.step (hup : s.up = false) (h : s.Down) (e : Event) :
    ∃ s', s.step e = .ok s' ∧ s'.Inv := by
  obtain ⟨hsend, hcheck⟩ := h.quiet
  have hstay : s.Inv := .down hup h
  match e with
  | .fill skb v => exact ⟨_, rfl, .down hup { h with }⟩
  | .sendPacket _ | .txTimeout | .close | .complete _ | .txDoneCheck =>
    refine ⟨_, rfl, ?_⟩
    rw [if_neg (by simp [hup])]
    exact hstay
  | .sendStep =>
    refine ⟨_, rfl, ?_⟩
    rw [if_pos hcheck, Mac.sendStep, hsend]
    exact hstay
  | .checkStep =>
    refine ⟨s, ?_, hstay⟩
    rw [Mac.step, hcheck]
  | .open =>
    refine ⟨_, rfl, ?_⟩
    rw [if_pos hup]
    have hlog : Accounts (s.log ++ [.reset]) [] 0 := by
      have hreset := h.accounts.reset (List.Perm.refl [])
      rw [List.map_nil, List.append_nil] at hreset
      exact hreset
    have hsetup := Mac.Holds.setup h.quiet hlog rfl
    exact .up rfl [] 0 { hsetup with }

/-- **No step fails, and every step keeps the invariant.** -/
theorem Mac.step_inv (h : s.Inv) (e : Event) : ∃ s', s.step e = .ok s' ∧ s'.Inv := by
  cases h with
  | up hup q c h | down hup h => exact h.step hup e

theorem opened_inv (mem : Nat → Skb) : (Mac.opened mem).Inv :=
  .up rfl [] 0 ⟨Laid.empty _, Nat.zero_le _, rfl, Descs.empty _, rfl, rfl, rfl, List.Perm.refl _⟩

/-! ### What follows -/

section
variable {s : Mac} {q : List Nat} {c : Nat}

theorem Mac.SendAt.next (h : s.SendAt q) : s.next = place s.first q.length := by
  unfold Mac.SendAt at h
  unfold Mac.next
  match hsend : s.send with
  | .idle | .index _ | .start | .refuse _ =>
    rw [hsend] at h
    exact h
  | .test _ _ | .advance _ =>
    rw [hsend] at h
    exact h.2
  | .dataPtr _ _ | .store _ _ =>
    rw [hsend] at h
    exact h.2.1
  | .statLen _ _ =>
    rw [hsend] at h
    show place s.txReady 1 = _
    rw [h.2.2, place_place, Nat.sub_add_cancel h.2.1]

theorem Mac.Holds.refuses (h : s.Holds q c) {skb : Nat} {index : Fin TX_NUM_FD}
    (hsend : s.send = .test skb index) :
    s.sendStep.send = .refuse skb ↔ ∀ i, (s.txFrCtl.get i).isSome := by
  have hat := h.sendAt
  unfold Mac.SendAt at hat
  rw [hsend] at hat
  obtain ⟨rfl, hready⟩ := hat
  have hlen := h.laid.length_le
  have hnone := h.laid.next_eq_none_iff
  rw [← hready] at hnone
  rw [h.laid.full_iff, Mac.sendStep, hsend]
  dsimp only
  split
  · next hempty =>
    have hlt := hnone.mp hempty
    constructor
    · intro hpc
      cases hpc
    · omega
  · next hfull =>
    have hge : ¬ q.length < TX_NUM_FD := fun hlt => hfull (hnone.mpr hlt)
    simp only [true_iff]
    omega

theorem sendStep_refusing {skb : Nat} (h : s.Refusing skb) :
    s.sendStep.txFrCtl = s.txFrCtl ∧ s.sendStep.txFd = s.txFd ∧ s.sendStep.mem = s.mem ∧
      accepted s.sendStep.log = accepted s.log ∧ freed s.sendStep.log = freed s.log := by
  rcases h with hsend | ⟨index, hsend, -⟩ | hsend
  · rw [Mac.sendStep, hsend]
    exact ⟨rfl, rfl, rfl, rfl, rfl⟩
  · rw [Mac.sendStep, hsend]
    exact ⟨rfl, rfl, rfl, rfl, rfl⟩
  · rw [Mac.sendStep, hsend]
    refine ⟨rfl, rfl, rfl, ?_, ?_⟩
    · exact (accepted_append _ _).trans (List.append_nil _)
    · exact (freed_append _ _).trans (List.append_nil _)

theorem Accounts.freed_prefix {l : List Entry} (h : Accounts l q c) :
    freed (sinceReset l) <+: S3c2510.completed (sinceReset l) := by
  rw [h.completed]
  exact List.prefix_append _ _

theorem Accounts.completed_prefix {l : List Entry} (h : Accounts l q c) :
    S3c2510.completed (sinceReset l) <+: S3c2510.accepted (sinceReset l) := by
  rw [h.completed, h.accepted]
  exact (List.prefix_append_right_inj _).mpr (List.take_prefix _ _)

theorem Mac.Inv.correct (h : s.Inv) : s.Correct := by
  cases h with
  | up hup q c h =>
    exact {
      occupied := fun _ => ⟨q.length, h.laid.length_le, h.sendAt.next, h.laid.isSome_iff⟩
      freedOnce := h.accounts.all.trans (h.laid.contents_perm.symm.append_left _)
      freedInOrder := h.accounts.freed_prefix
      completedInOrder := h.accounts.completed_prefix
      refuses := fun skb index hsend _ => h.refuses hsend
      refused := fun skb hskb => sendStep_refusing hskb }
  | down hup h =>
    refine ⟨?_, ?_, h.accounts.freed_prefix, h.accounts.completed_prefix, ?_,
      fun skb hskb => sendStep_refusing hskb⟩
    · intro hup'
      rw [hup] at hup'
      cases hup'
    · have hcontents := (Laid.empty (α := Nat) (0 : Fin TX_NUM_FD)).contents_perm
      rw [h.empty]
      exact h.accounts.all.trans (hcontents.symm.append_left _)
    · intro skb index hsend
      rw [h.quiet.1] at hsend
      cases hsend

end

/-- **The transmit ring**: after any sequence of steps the driver has not
failed and the ring is correct. -/
theorem tx_ring_correct (mem : Nat → Skb) (es : List Event) :
    ∃ s, run Mac.step (Mac.opened mem) es = .ok s ∧ s.Correct := by
  obtain ⟨s, hs, hinv⟩ := run_total (fun s e hs => Mac.step_inv hs e) es (opened_inv mem)
  exact ⟨s, hs, hinv.correct⟩

/-- The statements of a call of `send_packet`. -/
def sending (skb : Nat) : List Event := .sendPacket skb :: List.replicate 7 .sendStep

/-- `send_packet` is interrupted after it has stored its skb. -/
def storing : List Event := .sendPacket 1 :: List.replicate 4 .sendStep

/-- 63 skbs are sent, completed and freed, two more are sent, and the
transmission times out. -/
def wrapping : List Event :=
  (List.range 63).flatMap sending ++ List.replicate 63 (.complete 0) ++
    .txDoneCheck :: List.replicate 64 .checkStep ++ sending 63 ++ sending 64 ++ [.txTimeout]

/-- Small frames. -/
def frames : Nat → Skb := fun _ => ⟨0x00200000, 60, by decide⟩

/-- While the skb is stored and `tx_ready` not yet moved, one slot is in use
although `tx_done` and `tx_ready` are equal. A timeout frees the skbs in
the order of their slots, not in the order in which they were
accepted. -/
theorem slot_outside_interval :
    (run Mac.step (Mac.opened frames) storing).map
        (fun s => (s.txDone, s.txReady, s.txFrCtl.get 0, s.txFrCtl.get 1)) =
      .ok (0, 0, some 1, none) ∧
    (run Mac.step (Mac.opened frames) wrapping).map
        (fun s => ((accepted s.log).drop 63, (freed s.log).drop 63)) =
      .ok ([63, 64], [64, 63]) := by
  decide +kernel

end S3c2510
