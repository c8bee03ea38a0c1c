import Cnu680.Framework.Zones
import Cnu680.Net.TxRing

/-! # The Receive Ring

`rx_done_check` hands the frames that the BDMA has received to the
network layer and leaves their descriptors empty. `rx_refill_skb` gives
the empty descriptors new skbs and returns them to the BDMA, but only
when more than a quarter of the ring is empty, and only as far as the
allocator goes along. It looks at the descriptors, not at `rx_done`, to
know where to stop.

The BDMA completes descriptors at any time, also between the iterations
of the two loops: an iteration only touches a descriptor that the BDMA
does not own. -/

open Framework

namespace S3c2510

/-! ### Frame descriptors -/

abbrev RX_NUM_FD : Nat := 64

/-- The size of each Rx buffer. -/
def PKT_BUF_SZ : UInt32 := 1536 - 16

/-- The reception process by the BDMA is done. -/
def RxS_Done : UInt32 := 0x0080

structure RxFD where
  FDDataPtr : UInt32
  FDStatLen : UInt32
  deriving DecidableEq

/-- The word belongs to a descriptor of the BDMA. -/
def ownedWord (statLen : UInt32) : Bool := statLen &&& (OWNERSHIP16 <<< 16) ≠ 0

/-- The status in a descriptor, without the ownership. -/
def statusOf (statLen : UInt32) : UInt32 := (statLen >>> 16) &&& 0x7fff

/-- A descriptor as it is given to the BDMA. -/
def RX_OWNED : UInt32 := (OWNERSHIP16 <<< 16) + PKT_BUF_SZ

def RxFD.owned (fd : RxFD) : Bool := ownedWord fd.FDStatLen

def RxFD.status (fd : RxFD) : UInt32 := statusOf fd.FDStatLen

/-- The BDMA has completed the descriptor. -/
def RxFD.completed (fd : RxFD) : Bool := !fd.owned && fd.status ≠ 0

/-- What the BDMA stores into a descriptor that it completes: any status
but zero, good or not, without the ownership. -/
structure Completion where
  statLen : UInt32
  released : ownedWord statLen = false
  status_ne : statusOf statLen ≠ 0

/-! ### The driver -/

/-- The fields of an skb that the driver reads. No two allocations return
the same one. -/
structure RxSkb where
  id : Nat
  data : UInt32
  deriving DecidableEq

/-- A call of `netif_receive_skb`, with the descriptor that held the skb. -/
structure Delivery where
  skb : RxSkb
  index : Fin RX_NUM_FD
  statLen : UInt32
  deriving DecidableEq

/-- Where `rx_done_check` is. -/
inductive RxCall where
  | idle
  /-- At the top of its loop. -/
  | check (index : Fin RX_NUM_FD)
  /-- At the top of the loop of `rx_refill_skb`. -/
  | refill (index : Fin RX_NUM_FD)
  deriving DecidableEq

/-- The receive side of `S3C2510_MAC`, with the hardware and the skbs. -/
structure RxMac where
  rxFd : Vector RxFD RX_NUM_FD
  rxFrCtl : Vector (Option RxSkb) RX_NUM_FD
  rxDone : Fin RX_NUM_FD
  rxSkbRefill : Fin RX_NUM_FD
  currWorkLimit : Int
  call : RxCall
  /-- What the call in progress, or the last one, returns. -/
  received : Nat
  /-- An allocation has failed in this call. -/
  failed : Bool
  /-- The next descriptor of the BDMA. -/
  brxbdcnt : Fin RX_NUM_FD
  /-- The number of skbs allocated so far. -/
  allocated : Nat
  delivered : List Delivery

inductive RxFault where
  /-- A frame without an skb. -/
  | nullSkb
  /-- `for(; --i >= 0;)` with an unsigned `i` frees what is below the
      array. -/
  | wildFree
  deriving DecidableEq, Repr

instance neZero_rxNumFd : NeZero RX_NUM_FD := ⟨by decide⟩

/-- Before the ring is set up, with the BDMA at its first descriptor. -/
def RxMac.initial : RxMac where
  rxFd := Vector.replicate RX_NUM_FD ⟨0, 0⟩
  rxFrCtl := Vector.replicate RX_NUM_FD none
  rxDone := 0
  rxSkbRefill := 0
  currWorkLimit := 0
  call := .idle
  received := 0
  failed := false
  brxbdcnt := 0
  allocated := 0
  delivered := []

/-- A descriptor and its first skb, with the answer of `dev_alloc_skb`. -/
def RxMac.setupFD (alloc : Fin RX_NUM_FD → Option UInt32) (s : RxMac) (i : Fin RX_NUM_FD) :
    Except RxFault RxMac :=
  match alloc i with
  | none => .error .wildFree
  | some data => .ok { s with
    rxFrCtl := put s.rxFrCtl i (some ⟨s.allocated, data⟩)
    rxFd := put s.rxFd i ⟨data, RX_OWNED⟩
    allocated := s.allocated + 1 }

/-- Prepare memory for receive buffers and frame descriptors. -/
def setupRxFDs (alloc : Fin RX_NUM_FD → Option UInt32) : Except RxFault RxMac :=
  run (RxMac.setupFD alloc) .initial (List.finRange RX_NUM_FD)

/-- `if ((len = (index - np->rx_skb_refill)) < 0) len += RX_NUM_FD`. -/
def emptyLen (index refill : Fin RX_NUM_FD) : Int :=
  let len : Int := index.val - refill.val
  if len < 0 then len + RX_NUM_FD else len

/-- The end of the loop of `rx_done_check`: refill if more than a quarter of
the ring is empty, or if `index == rx_skb_refill`. -/
def RxMac.endCheck (s : RxMac) (index : Fin RX_NUM_FD) : RxMac :=
  let len := emptyLen index s.rxSkbRefill
  { s with
    rxDone := index
    call := if len > RX_NUM_FD / 4 ∨ len = 0 then .refill s.rxSkbRefill else .idle }

/-- An iteration of the loop of `rx_done_check`. -/
def RxMac.checkStep (s : RxMac) (index : Fin RX_NUM_FD) : Except RxFault RxMac :=
  let fd := s.rxFd.get index
  if fd.status = 0 ∨ s.currWorkLimit ≤ 0 then .ok (s.endCheck index)
  else if fd.status &&& RxS_Done ≠ 0 then
    match s.rxFrCtl.get index with
    | none => .error .nullSkb
    | some skb => .ok { s with
      delivered := s.delivered ++ [⟨skb, index, fd.FDStatLen⟩]
      received := s.received + 1
      currWorkLimit := s.currWorkLimit - 1
      rxFrCtl := put s.rxFrCtl index none
      rxFd := put s.rxFd index { fd with FDStatLen := 0 }
      call := .check (place index 1) }
  else
    -- the frame has an error, and we stay with its skb
    .ok { s with
      rxFd := put s.rxFd index { fd with FDStatLen := 0 }
      call := .check (place index 1) }

/-- An iteration of `rx_refill_skb`, with the answer of `dev_alloc_skb`. -/
def RxMac.refillStep (s : RxMac) (index : Fin RX_NUM_FD) (alloc : Option UInt32) : RxMac :=
  let fd := s.rxFd.get index
  if fd.FDStatLen ≠ 0 then { s with rxSkbRefill := index, call := .idle }
  else
    match s.rxFrCtl.get index, alloc with
    | some _, _ => { s with
      rxFd := put s.rxFd index { fd with FDStatLen := RX_OWNED }
      call := .refill (place index 1) }
    | none, none => { s with rxSkbRefill := index, call := .idle, failed := true }
    | none, some data => { s with
      rxFrCtl := put s.rxFrCtl index (some ⟨s.allocated, data⟩)
      rxFd := put s.rxFd index ⟨data, RX_OWNED⟩
      allocated := s.allocated + 1
      call := .refill (place index 1) }

/-- The BDMA completes its next descriptor, if it owns it. -/
def RxMac.complete (s : RxMac) (c : Completion) : RxMac :=
  if (s.rxFd.get s.brxbdcnt).owned then
    { s with
      rxFd := put s.rxFd s.brxbdcnt { s.rxFd.get s.brxbdcnt with FDStatLen := c.statLen }
      brxbdcnt := place s.brxbdcnt 1 }
  else s

inductive RxEvent where
  | complete (c : Completion)
  | rxDoneCheck (limit : Int)
  /-- An iteration of the call in progress. -/
  | callStep (alloc : Option UInt32)

/-- One step. What cannot happen in a state does nothing. -/
def RxMac.step (s : RxMac) : RxEvent → Except RxFault RxMac
  | .complete c => .ok (s.complete c)
  | .rxDoneCheck limit =>
    .ok (if s.call = .idle then
      { s with currWorkLimit := limit, call := .check s.rxDone, received := 0, failed := false }
      else s)
  | .callStep alloc =>
    match s.call with
    | .idle => .ok s
    | .check index => s.checkStep index
    | .refill index => .ok (s.refillStep index alloc)

/-! ### What is said of the ring -/

/-- The descriptor is in the cyclic interval from `rx_skb_refill` to
`rx_done`: the whole ring, when they are equal and that slot is empty. -/
def RxMac.Unfilled (s : RxMac) (i : Fin RX_NUM_FD) : Prop :=
  (∃ j k, j < k ∧ k < RX_NUM_FD ∧ i = place s.rxSkbRefill j ∧ s.rxDone = place s.rxSkbRefill k) ∨
    (s.rxDone = s.rxSkbRefill ∧ (s.rxFd.get s.rxSkbRefill).FDStatLen = 0)

/-- The skb has been allocated, and not been delivered. -/
def RxMac.Live (s : RxMac) (skb : RxSkb) : Prop :=
  skb.id < s.allocated ∧ skb.id ∉ s.delivered.map (·.skb.id)

/-- **What is said of the ring.** -/
structure RxMac.Correct (s : RxMac) : Prop where
  /-- Between two calls, the descriptors from `rx_skb_refill` to `rx_done`
      are empty. -/
  unfilled : s.call = .idle → ∀ i, s.Unfilled i → (s.rxFd.get i).FDStatLen = 0
  /-- A descriptor that the BDMA owns or has completed holds a live skb. -/
  live : ∀ i, (s.rxFd.get i).owned ∨ (s.rxFd.get i).completed →
    ∃ skb, s.rxFrCtl.get i = some skb ∧ s.Live skb ∧ (s.rxFd.get i).FDDataPtr = skb.data
  deliveredOnce : (s.delivered.map (·.skb.id)).Nodup
  /-- No skb was delivered while the BDMA owned its descriptor. -/
  deliveredReleased : ∀ d ∈ s.delivered, ownedWord d.statLen = false
  /-- An skb leaves its slot only by its delivery, with a good status. -/
  kept : ∀ e t i skb, s.step e = .ok t → s.rxFrCtl.get i = some skb →
    t.rxFrCtl.get i = some skb ∨
      statusOf (s.rxFd.get i).FDStatLen &&& RxS_Done ≠ 0 ∧
        t.delivered = s.delivered ++ [⟨skb, i, (s.rxFd.get i).FDStatLen⟩]
  /-- After a call in which no allocation failed, at most a quarter of the
      descriptors is neither the BDMA's nor completed. -/
  filled : s.call = .idle → s.failed = false →
    (Finset.univ.filter fun i => (s.rxFd.get i).FDStatLen = 0).card ≤ 16

theorem rxNumFd_pos : 0 < RX_NUM_FD := by decide

/-! ### Words -/

theorem status_rxOwned : statusOf RX_OWNED = 0 := by decide

theorem statLen_ne_zero_of_completed {fd : RxFD} (h : fd.completed = true) : fd.FDStatLen ≠ 0 := by
  intro hzero
  have hstatus : fd.status = 0 := by
    rw [RxFD.status, hzero]
    decide
  rw [RxFD.completed, hstatus] at h
  simp at h

/-! ### What an iteration does -/

/-- An iteration of `rx_done_check`: the end of the loop, a good frame or one
with an error. -/
theorem RxMac.checkStep_cases {s t : RxMac} {index : Fin RX_NUM_FD}
    (h : s.checkStep index = .ok t) :
    ((s.rxFd.get index).status = 0 ∨ s.currWorkLimit ≤ 0) ∧ t = s.endCheck index ∨
    ((s.rxFd.get index).status ≠ 0 ∧ 0 < s.currWorkLimit) ∧
      ((s.rxFd.get index).status &&& RxS_Done ≠ 0 ∧
        (∃ skb, s.rxFrCtl.get index = some skb ∧ t = { s with
          delivered := s.delivered ++ [⟨skb, index, (s.rxFd.get index).FDStatLen⟩]
          received := s.received + 1
          currWorkLimit := s.currWorkLimit - 1
          rxFrCtl := put s.rxFrCtl index none
          rxFd := put s.rxFd index { s.rxFd.get index with FDStatLen := 0 }
          call := .check (place index 1) }) ∨
      (s.rxFd.get index).status &&& RxS_Done = 0 ∧ t = { s with
          rxFd := put s.rxFd index { s.rxFd.get index with FDStatLen := 0 }
          call := .check (place index 1) }) := by
  unfold RxMac.checkStep at h
  dsimp only at h
  split at h
  · next hend =>
    cases h
    exact .inl ⟨hend, rfl⟩
  · next hgo =>
    rw [not_or, Int.not_le] at hgo
    refine .inr ⟨hgo, ?_⟩
    split at h
    · next hdone =>
      split at h
      · cases h
      · next skb hslot =>
        cases h
        exact .inl ⟨hdone, skb, hslot, rfl⟩
    · next hdone =>
      cases h
      exact .inr ⟨not_not.mp hdone, rfl⟩

/-! ### The invariant -/

/-- What a slot of each zone is like. -/
def RxMac.At (s : RxMac) : Zone → Fin RX_NUM_FD → Prop
  | .spare, i => (s.rxFd.get i).FDStatLen = 0
  | .ready, i => (s.rxFd.get i).completed = true ∧ (s.rxFrCtl.get i).isSome
  | .busy, i => (s.rxFd.get i).FDStatLen = RX_OWNED ∧ (s.rxFrCtl.get i).isSome

/-- The first empty slot, as far as `rx_refill_skb` has come. -/
def RxMac.low (s : RxMac) : Fin RX_NUM_FD :=
  match s.call with
  | .refill index => index
  | _ => s.rxSkbRefill

/-- The slot after the last empty one, as far as `rx_done_check` has come. -/
def RxMac.high (s : RxMac) : Fin RX_NUM_FD :=
  match s.call with
  | .check index => index
  | _ => s.rxDone

/-- From `low` on, `x` slots are empty, the BDMA has completed the next `y`
and owns the others. -/
structure RxMac.Holds (s : RxMac) (x y : Nat) : Prop where
  zones : Zones s.At s.low x y
  high : s.high = place s.low x
  hardware : s.brxbdcnt = place s.low (x + y)
  filled : s.call = .idle → s.failed = false → x ≤ RX_NUM_FD / 4

/-- Where the skbs are. -/
structure RxMac.Skbs (s : RxMac) : Prop where
  pointer : ∀ i skb, s.rxFrCtl.get i = some skb → (s.rxFd.get i).FDDataPtr = skb.data
  /-- Every skb is in one slot, or has been delivered once. -/
  once : (s.delivered.map (·.skb.id) ++ (s.rxFrCtl.toList.filterMap id).map (·.id)).Perm
    (List.range s.allocated)
  released : ∀ d ∈ s.delivered, ownedWord d.statLen = false

structure RxMac.Inv (s : RxMac) : Prop where
  holds : ∃ x y, s.Holds x y
  skbs : s.Skbs

theorem at_of_others {s t : RxMac} {j : Fin RX_NUM_FD}
    (hfd : ∀ i, i ≠ j → t.rxFd.get i = s.rxFd.get i)
    (hskb : ∀ i, i ≠ j → t.rxFrCtl.get i = s.rxFrCtl.get i) :
    ∀ z i, i ≠ j → s.At z i → t.At z i := by
  intro z i hij h
  cases z with
  | spare =>
    show (t.rxFd.get i).FDStatLen = 0
    rw [hfd i hij]
    exact h
  | ready =>
    show (t.rxFd.get i).completed = true ∧ (t.rxFrCtl.get i).isSome
    rw [hfd i hij, hskb i hij]
    exact h
  | busy =>
    show (t.rxFd.get i).FDStatLen = RX_OWNED ∧ (t.rxFrCtl.get i).isSome
    rw [hfd i hij, hskb i hij]
    exact h

section
variable {s : RxMac} {x y : Nat} {index : Fin RX_NUM_FD} {t : RxMac}

theorem RxMac.low_of_idle (h : s.call = .idle) : s.low = s.rxSkbRefill := by
  rw [RxMac.low, h]

theorem RxMac.high_of_idle (h : s.call = .idle) : s.high = s.rxDone := by
  rw [RxMac.high, h]

theorem RxMac.low_of_check (h : s.call = .check index) : s.low = s.rxSkbRefill := by
  rw [RxMac.low, h]

theorem RxMac.high_of_check (h : s.call = .check index) : s.high = index := by
  rw [RxMac.high, h]

theorem RxMac.low_of_refill (h : s.call = .refill index) : s.low = index := by
  rw [RxMac.low, h]

theorem RxMac.high_of_refill (h : s.call = .refill index) : s.high = s.rxDone := by
  rw [RxMac.high, h]

section
variable (h : s.Holds x y)
include h

theorem RxMac.Holds.between {low high : Fin RX_NUM_FD} (hlow : s.low = low)
    (hhigh : s.high = high) :
    Zones s.At low x y ∧ high = place low x ∧ s.brxbdcnt = place low (x + y) := by
  subst hlow hhigh
  exact ⟨h.zones, h.high, h.hardware⟩

theorem RxMac.Holds.ready_at {k : Nat} (hk : k < y) : s.At .ready (place s.high k) := by
  have hslot := h.zones.ready hk
  rwa [← place_place, ← h.high] at hslot

theorem RxMac.Holds.status_past (hy : y < RX_NUM_FD) :
    (s.rxFd.get (place s.high y)).status = 0 := by
  have hle := h.zones.le
  rw [h.high, place_place]
  by_cases hbusy : x + y < RX_NUM_FD
  · have howned := (h.zones.busy hbusy).1
    rw [RxFD.status, howned]
    exact status_rxOwned
  · have hspare : (s.rxFd.get (place s.low 0)).FDStatLen = 0 := h.zones.spare (by omega)
    rw [place_zero] at hspare
    rw [show x + y = RX_NUM_FD by omega, place_self, RxFD.status, hspare]
    decide


theorem RxMac.Holds.ready_of_status (hstatus : (s.rxFd.get s.high).status ≠ 0) :
    0 < y ∧ s.At .ready s.high := by
  have hy : 0 < y := by
    rcases Nat.eq_zero_or_pos y with rfl | hpos
    · have hpast := h.status_past rxNumFd_pos
      rw [place_zero] at hpast
      exact absurd hpast hstatus
    · exact hpos
  have hready := h.ready_at hy
  rw [place_zero] at hready
  exact ⟨hy, hready⟩

theorem RxMac.Holds.spare_of_zero (hzero : (s.rxFd.get s.low).FDStatLen = 0) : 0 < x := by
  have hslot := h.zones.slot 0 (by decide)
  rw [place_zero] at hslot
  by_contra hx
  rw [zoneAt, if_neg hx] at hslot
  split at hslot
  · exact statLen_ne_zero_of_completed hslot.1 hzero
  · have hword : (s.rxFd.get s.low).FDStatLen = RX_OWNED := hslot.1
    rw [hword] at hzero
    exact absurd hzero (by decide)

/-- **The completions keep the zones.** -/
theorem RxMac.Holds.complete (c : Completion) : ∃ y', (s.complete c).Holds x y' := by
  unfold RxMac.complete
  split
  · next howned =>
    have hlt : x + y < RX_NUM_FD := by
      by_contra hge
      have hround : x + y = RX_NUM_FD := Nat.le_antisymm h.zones.le (by omega)
      have hfirst := h.zones.slot 0 (by decide)
      rw [h.hardware, hround, place_self] at howned
      rw [place_zero] at hfirst
      -- without a busy slot, the first one is empty or completed
      unfold zoneAt at hfirst
      split at hfirst
      · have hword : (s.rxFd.get s.low).FDStatLen = 0 := hfirst
        rw [RxFD.owned, hword] at howned
        exact absurd howned (by decide)
      · rw [if_pos (hround ▸ rxNumFd_pos)] at hfirst
        have hcompleted := hfirst.1
        rw [RxFD.completed, howned] at hcompleted
        cases hcompleted
    have hbusy := h.zones.busy hlt
    rw [← h.hardware] at hbusy
    refine ⟨y + 1, h.zones.produce hlt ?_ ?_, h.high, ?_, h.filled⟩
    · rw [← h.hardware]
      refine ⟨?_, hbusy.2⟩
      show ((put s.rxFd s.brxbdcnt _).get s.brxbdcnt).completed = true
      rw [get_put_self, RxFD.completed, RxFD.owned, RxFD.status, c.released]
      exact decide_eq_true c.status_ne
    · rw [← h.hardware]
      exact at_of_others (fun i hi => get_put_ne _ hi.symm _) fun i _ => rfl
    · show place s.brxbdcnt 1 = place s.low (x + (y + 1))
      rw [h.hardware, place_place, Nat.add_assoc]
  · exact ⟨y, h⟩

end

/-- A frame is taken off the ring: its slot is now the last empty one. -/
theorem RxMac.Holds.consume (h : s.Holds x (y + 1)) (hcall : t.call = .check (place s.high 1))
    (hnotRefill : s.low = s.rxSkbRefill) (hrefill : t.rxSkbRefill = s.rxSkbRefill)
    (hhardware : t.brxbdcnt = s.brxbdcnt) (hempty : (t.rxFd.get s.high).FDStatLen = 0)
    (hfd : ∀ i, i ≠ s.high → t.rxFd.get i = s.rxFd.get i)
    (hskb : ∀ i, i ≠ s.high → t.rxFrCtl.get i = s.rxFrCtl.get i) : t.Holds (x + 1) y := by
  have hlow : t.low = s.low := (RxMac.low_of_check hcall).trans (hrefill.trans hnotRefill.symm)
  refine ⟨?_, ?_, ?_, fun hidle => ?_⟩
  · rw [hlow]
    rw [h.high] at hempty hfd hskb
    exact h.zones.consume hempty (at_of_others hfd hskb)
  · rw [RxMac.high, hcall, hlow]
    show place s.high 1 = place s.low (x + 1)
    rw [h.high, place_place]
  · rw [hhardware, hlow, h.hardware]
    congr 1
    omega
  · rw [hcall] at hidle
    cases hidle

theorem RxMac.Holds.release (h : s.Holds (x + 1) y) (hcall : t.call = .refill (place s.low 1))
    (hnotCheck : s.high = s.rxDone) (hdone : t.rxDone = s.rxDone)
    (hhardware : t.brxbdcnt = s.brxbdcnt) (howned : (t.rxFd.get s.low).FDStatLen = RX_OWNED)
    (hsome : (t.rxFrCtl.get s.low).isSome) (hfd : ∀ i, i ≠ s.low → t.rxFd.get i = s.rxFd.get i)
    (hskb : ∀ i, i ≠ s.low → t.rxFrCtl.get i = s.rxFrCtl.get i) : t.Holds x y := by
  have hlow : t.low = place s.low 1 := RxMac.low_of_refill hcall
  refine ⟨?_, ?_, ?_, fun hidle => ?_⟩
  · rw [hlow]
    exact h.zones.release ⟨howned, hsome⟩ (at_of_others hfd hskb)
  · have hhigh : t.high = s.high := (RxMac.high_of_refill hcall).trans (hdone.trans hnotCheck.symm)
    rw [hhigh, h.high, hlow, place_place, Nat.add_comm]
  · rw [hhardware, h.hardware, hlow, place_place]
    congr 1
    omega
  · rw [hcall] at hidle
    cases hidle

/-- When `rx_done_check` does not refill, at most a quarter of the ring is
empty. -/
theorem le_quarter_of_not_refill {a i : Fin RX_NUM_FD} (hi : i = place a x) (hx : x ≤ RX_NUM_FD)
    (h : ¬ (emptyLen i a > RX_NUM_FD / 4 ∨ emptyLen i a = 0)) : x ≤ RX_NUM_FD / 4 := by
  have ha : a.val < 64 := a.isLt
  have hval : i.val = (a.val + x) % 64 := congrArg Fin.val hi
  unfold emptyLen at h
  simp only [RX_NUM_FD] at h hx ⊢
  split at h <;> omega

theorem RxMac.Holds.beginCheck (h : s.Holds x y) (hidle : s.call = .idle) (limit : Int) :
    RxMac.Holds { s with
      currWorkLimit := limit, call := .check s.rxDone, received := 0, failed := false } x y := by
  obtain ⟨hzones, hindex, hhardware⟩ :=
    h.between (RxMac.low_of_idle hidle) (RxMac.high_of_idle hidle)
  exact ⟨hzones, hindex, hhardware, fun hcall => absurd hcall (by simp)⟩

theorem RxMac.Holds.endCheck (h : s.Holds x y) (hcall : s.call = .check index) :
    (s.endCheck index).Holds x y := by
  obtain ⟨hzones, hindex, hhardware⟩ :=
    h.between (RxMac.low_of_check hcall) (RxMac.high_of_check hcall)
  unfold RxMac.endCheck
  dsimp only
  split
  · exact ⟨hzones, hindex, hhardware, fun hidle => absurd hidle (by simp)⟩
  · next hless =>
    have hx : x ≤ RX_NUM_FD := Nat.le_trans (Nat.le_add_right x y) hzones.le
    exact ⟨hzones, hindex, hhardware, fun _ _ => le_quarter_of_not_refill hindex hx hless⟩

theorem RxMac.Holds.endRefill (h : s.Holds x y) (hcall : s.call = .refill index) {failed : Bool}
    (hfilled : failed = false → x ≤ RX_NUM_FD / 4) :
    RxMac.Holds { s with rxSkbRefill := index, call := .idle, failed := failed } x y := by
  obtain ⟨hzones, hindex, hhardware⟩ :=
    h.between (RxMac.low_of_refill hcall) (RxMac.high_of_refill hcall)
  exact ⟨hzones, hindex, hhardware, fun _ => hfilled⟩

theorem RxMac.Holds.taken (h : s.Holds x y) (hcall : s.call = .check index)
    (hstatus : (s.rxFd.get index).status ≠ 0) (htcall : t.call = .check (place index 1))
    (hrefill : t.rxSkbRefill = s.rxSkbRefill) (hhardware : t.brxbdcnt = s.brxbdcnt)
    (hfd : t.rxFd = put s.rxFd index { s.rxFd.get index with FDStatLen := 0 })
    (hskb : ∀ i, i ≠ index → t.rxFrCtl.get i = s.rxFrCtl.get i) :
    ∃ y', y = y' + 1 ∧ t.Holds (x + 1) y' := by
  have hlow : s.low = s.rxSkbRefill := RxMac.low_of_check hcall
  have hhigh : s.high = index := RxMac.high_of_check hcall
  obtain ⟨hy, -⟩ := h.ready_of_status (hhigh ▸ hstatus)
  obtain ⟨y, rfl⟩ : ∃ y', y = y' + 1 := ⟨y - 1, by omega⟩
  refine ⟨y, rfl, h.consume (hhigh ▸ htcall) hlow hrefill hhardware ?_ ?_ (hhigh ▸ hskb)⟩
  · rw [hfd, hhigh, get_put_self]
  · rw [hfd, hhigh]
    exact fun i hi => get_put_ne _ hi.symm _

/-- An iteration of `rx_refill_skb`: its end, or one slot less to fill. -/
theorem RxMac.Holds.refillStep (h : s.Holds x y)
    (hcall : s.call = .refill index) (alloc : Option UInt32) :
    (s.refillStep index alloc).call = .idle ∧ (s.refillStep index alloc).Holds x y ∨
      (s.refillStep index alloc).call = .refill (place index 1) ∧
        ∃ x', x = x' + 1 ∧ (s.refillStep index alloc).Holds x' y := by
  have hlow : s.low = index := RxMac.low_of_refill hcall
  have hhigh : s.high = s.rxDone := RxMac.high_of_refill hcall
  unfold RxMac.refillStep
  dsimp only
  split
  · next hnonzero =>
    -- no empty slot is left
    have hx : x ≤ RX_NUM_FD / 4 := by
      by_contra hgt
      have hspare := h.zones.spare (show 0 < x by omega)
      rw [place_zero, hlow] at hspare
      exact hnonzero hspare
    exact .inl ⟨rfl, h.endRefill hcall fun _ => hx⟩
  · next hzero =>
    have hzero : (s.rxFd.get s.low).FDStatLen = 0 := by
      rw [hlow]
      exact not_not.mp hzero
    have hx := h.spare_of_zero hzero
    obtain ⟨x, rfl⟩ : ∃ x', x = x' + 1 := ⟨x - 1, by omega⟩
    split
    · next skb hslot =>
      refine .inr ⟨rfl, x, rfl, h.release (hlow ▸ rfl) hhigh rfl rfl ?_ ?_ ?_ fun _ _ => rfl⟩
      · rw [hlow]
        exact congrArg RxFD.FDStatLen (get_put_self _ _ _)
      · rw [hlow]
        exact Option.isSome_iff_exists.mpr ⟨skb, hslot⟩
      · rw [hlow]
        exact fun i hi => get_put_ne _ hi.symm _
    · exact .inl ⟨rfl, h.endRefill hcall fun hfalse => absurd hfalse (by simp)⟩
    · next data hslot =>
      refine .inr ⟨rfl, x, rfl, h.release (hlow ▸ rfl) hhigh rfl rfl ?_ ?_ ?_ ?_⟩
      · rw [hlow]
        exact congrArg RxFD.FDStatLen (get_put_self _ _ _)
      · rw [hlow]
        exact congrArg Option.isSome (get_put_self _ _ _)
      · rw [hlow]
        exact fun i hi => get_put_ne _ hi.symm _
      · rw [hlow]
        exact fun i hi => get_put_ne _ hi.symm _

end

/-! ### The skbs -/

section
variable {s t : RxMac} {index : Fin RX_NUM_FD}

theorem RxMac.Skbs.of_eq (h : s.Skbs)
    (hptr : ∀ i, (t.rxFd.get i).FDDataPtr = (s.rxFd.get i).FDDataPtr) (hskb : t.rxFrCtl = s.rxFrCtl)
    (hdelivered : t.delivered = s.delivered) (hallocated : t.allocated = s.allocated) : t.Skbs := by
  refine ⟨fun i skb hi => ?_, ?_, ?_⟩
  · rw [hskb] at hi
    rw [hptr]
    exact h.pointer i skb hi
  · rw [hdelivered, hskb, hallocated]
    exact h.once
  · rw [hdelivered]
    exact h.released

theorem dataPtr_put (v : Vector RxFD RX_NUM_FD) (j i : Fin RX_NUM_FD) (statLen : UInt32) :
    ((put v j { v.get j with FDStatLen := statLen }).get i).FDDataPtr = (v.get i).FDDataPtr := by
  by_cases hij : j = i
  · rw [hij, get_put_self]
  · rw [get_put_ne v hij]

theorem RxMac.Skbs.deliver (h : s.Skbs) {skb : RxSkb} {statLen : UInt32}
    (hslot : s.rxFrCtl.get index = some skb) (hword : ownedWord statLen = false)
    (hptr : ∀ i, (t.rxFd.get i).FDDataPtr = (s.rxFd.get i).FDDataPtr)
    (hskb : t.rxFrCtl = put s.rxFrCtl index none)
    (hdelivered : t.delivered = s.delivered ++ [⟨skb, index, statLen⟩])
    (hallocated : t.allocated = s.allocated) : t.Skbs := by
  refine ⟨fun i skb' hi => ?_, ?_, fun d hd => ?_⟩
  · rw [hskb] at hi
    by_cases hij : index = i
    · rw [hij, get_put_self] at hi
      cases hi
    · rw [get_put_ne _ hij] at hi
      rw [hptr]
      exact h.pointer i skb' hi
  · -- it moves from the slots to the deliveries
    have hmoved := (contents_put_none hslot).map (·.id)
    rw [hdelivered, hskb, hallocated, List.map_append, List.append_assoc]
    exact (hmoved.append_left _).symm.trans h.once
  · rw [hdelivered] at hd
    rcases List.mem_append.mp hd with hold | hnew
    · exact h.released d hold
    · rw [List.mem_singleton.mp hnew]
      exact hword

theorem RxMac.Skbs.allocate (h : s.Skbs) {data statLen : UInt32}
    (hslot : s.rxFrCtl.get index = none) (hfd : t.rxFd = put s.rxFd index ⟨data, statLen⟩)
    (hskb : t.rxFrCtl = put s.rxFrCtl index (some ⟨s.allocated, data⟩))
    (hdelivered : t.delivered = s.delivered) (hallocated : t.allocated = s.allocated + 1) :
    t.Skbs := by
  refine ⟨fun i skb hi => ?_, ?_, ?_⟩
  · rw [hskb] at hi
    rw [hfd]
    by_cases hij : index = i
    · rw [hij, get_put_self] at hi
      rw [hij, get_put_self]
      cases hi
      rfl
    · rw [get_put_ne _ hij] at hi
      rw [get_put_ne _ hij]
      exact h.pointer i skb hi
  · have hadded := (contents_put_some hslot ⟨s.allocated, data⟩).map (·.id)
    rw [hdelivered, hskb, hallocated, List.range_succ]
    refine (hadded.append_left _).trans (List.perm_middle.trans ?_)
    exact (h.once.cons s.allocated).trans (List.perm_append_singleton _ _).symm
  · rw [hdelivered]
    exact h.released

end

/-! ### The steps -/

variable {s : RxMac} {index : Fin RX_NUM_FD} {alloc : Fin RX_NUM_FD → Option UInt32}
  {i : Fin RX_NUM_FD}

theorem RxMac.Inv.checkStep_ok (h : s.Inv) (hcall : s.call = .check index) :
    ∃ t, s.checkStep index = .ok t := by
  obtain ⟨x, y, hholds⟩ := h.holds
  have hhigh : s.high = index := RxMac.high_of_check hcall
  unfold RxMac.checkStep
  dsimp only
  split
  · exact ⟨_, rfl⟩
  · next hgo =>
    have hstatus : (s.rxFd.get s.high).status ≠ 0 := by
      rw [hhigh]
      exact fun hzero => hgo (.inl hzero)
    obtain ⟨-, -, hsome⟩ := hholds.ready_of_status hstatus
    rw [hhigh] at hsome
    obtain ⟨skb, hslot⟩ := Option.isSome_iff_exists.mp hsome
    split
    · rw [hslot]
      exact ⟨_, rfl⟩
    · exact ⟨_, rfl⟩

theorem RxMac.Inv.checkStep (h : s.Inv) (hcall : s.call = .check index) :
    ∃ t, s.checkStep index = .ok t ∧ t.Inv := by
  obtain ⟨t, ht⟩ := h.checkStep_ok hcall
  obtain ⟨x, y, hholds⟩ := h.holds
  refine ⟨t, ht, ?_⟩
  rcases RxMac.checkStep_cases ht with ⟨-, rfl⟩ |
    ⟨⟨hstatus, -⟩, ⟨-, skb, hslot, heq⟩ | ⟨-, heq⟩⟩
  · exact ⟨⟨x, y, hholds.endCheck hcall⟩, h.skbs.of_eq (fun _ => rfl) rfl rfl rfl⟩
  · -- a good frame
    obtain ⟨y', -, htaken⟩ := hholds.taken hcall hstatus (congrArg RxMac.call heq)
      (by rw [heq]) (by rw [heq]) (congrArg RxMac.rxFd heq)
      fun i hi => heq ▸ get_put_ne _ hi.symm _
    refine ⟨⟨x + 1, y', htaken⟩, ?_⟩
    subst heq
    have hhigh : s.high = index := RxMac.high_of_check hcall
    have hcompleted := (hholds.ready_of_status (hhigh ▸ hstatus)).2.1
    rw [hhigh, RxFD.completed, Bool.and_eq_true, Bool.not_eq_true'] at hcompleted
    exact h.skbs.deliver hslot hcompleted.1 (fun i => dataPtr_put _ _ _ _) rfl rfl rfl
  · obtain ⟨y', -, htaken⟩ := hholds.taken hcall hstatus (congrArg RxMac.call heq)
      (by rw [heq]) (by rw [heq]) (congrArg RxMac.rxFd heq)
      fun _ _ => heq ▸ rfl
    subst heq
    exact ⟨⟨x + 1, y', htaken⟩, h.skbs.of_eq (fun i => dataPtr_put _ _ _ _) rfl rfl rfl⟩

theorem RxMac.Skbs.refillStep (h : s.Skbs) (index : Fin RX_NUM_FD) (alloc : Option UInt32) :
    (s.refillStep index alloc).Skbs := by
  unfold RxMac.refillStep
  dsimp only
  split
  · exact h.of_eq (fun _ => rfl) rfl rfl rfl
  · split
    · exact h.of_eq (fun i => dataPtr_put _ _ _ _) rfl rfl rfl
    · exact h.of_eq (fun _ => rfl) rfl rfl rfl
    · next data hslot => exact h.allocate hslot rfl rfl rfl rfl

theorem RxMac.Inv.refillStep (h : s.Inv) (hcall : s.call = .refill index) (alloc : Option UInt32) :
    (s.refillStep index alloc).Inv := by
  obtain ⟨x, y, hholds⟩ := h.holds
  have hskbs := h.skbs.refillStep index alloc
  rcases hholds.refillStep hcall alloc with ⟨-, hend⟩ | ⟨-, x', -, hnext⟩
  · exact ⟨⟨x, y, hend⟩, hskbs⟩
  · exact ⟨⟨x', y, hnext⟩, hskbs⟩

theorem RxMac.Inv.complete (h : s.Inv) (c : Completion) : (s.complete c).Inv := by
  obtain ⟨x, y, hholds⟩ := h.holds
  refine ⟨⟨x, hholds.complete c⟩, ?_⟩
  unfold RxMac.complete
  split
  · exact h.skbs.of_eq (fun i => dataPtr_put _ _ _ _) rfl rfl rfl
  · exact h.skbs

/-- **Every step keeps the invariant.** -/
theorem RxMac.step_inv (h : s.Inv) (e : RxEvent) : ∃ t, s.step e = .ok t ∧ t.Inv := by
  cases e with
  | complete c => exact ⟨_, rfl, h.complete c⟩
  | rxDoneCheck limit =>
    refine ⟨_, rfl, ?_⟩
    split
    · next hidle =>
      obtain ⟨x, y, hholds⟩ := h.holds
      exact ⟨⟨x, y, hholds.beginCheck hidle limit⟩, h.skbs.of_eq (fun _ => rfl) rfl rfl rfl⟩
    · exact h
  | callStep alloc =>
    unfold RxMac.step
    dsimp only
    split
    · exact ⟨s, rfl, h⟩
    · next index hcall => exact h.checkStep hcall
    · next index hcall => exact ⟨_, rfl, h.refillStep hcall alloc⟩

/-! ### Setting up -/

/-- The ring while it is set up: the descriptors in `done` have their skbs,
and nothing else has changed. -/
structure RxMac.Setting (s : RxMac) (done : List (Fin RX_NUM_FD)) : Prop where
  set : ∀ i ∈ done, s.At .busy i
  unset : ∀ i, i ∉ done → s.rxFrCtl.get i = none
  skbs : s.Skbs
  start : s.call = .idle ∧ s.rxDone = 0 ∧ s.rxSkbRefill = 0 ∧ s.brxbdcnt = 0

theorem setting_initial : RxMac.initial.Setting [] := by
  have hnone : ∀ i, RxMac.initial.rxFrCtl.get i = none := fun i => Vector.getElem_replicate _
  refine ⟨fun i hi => absurd hi (by simp), fun i _ => hnone i, ?_, rfl, rfl, rfl, rfl⟩
  refine ⟨fun i skb hi => ?_, ?_, fun d hd => absurd hd List.not_mem_nil⟩
  · rw [hnone] at hi
    cases hi
  · have hempty : RxMac.initial.rxFrCtl.toList.filterMap id = [] := by
      rw [List.filterMap_eq_nil_iff]
      intro a ha
      exact List.eq_of_mem_replicate (Vector.toList_replicate ▸ ha)
    rw [hempty]
    exact List.Perm.refl _

theorem RxMac.Setting.setupFD {s t : RxMac} {done : List (Fin RX_NUM_FD)} (h : s.Setting done)
    (hi : i ∉ done) (ht : s.setupFD alloc i = .ok t) : t.Setting (done ++ [i]) := by
  unfold RxMac.setupFD at ht
  split at ht
  · cases ht
  · next data _ =>
    cases ht
    refine ⟨fun j hj => ?_, fun j hj => ?_, h.skbs.allocate (h.unset i hi) rfl rfl rfl rfl, h.start⟩
    · by_cases hji : j = i
      · rw [hji]
        exact ⟨congrArg RxFD.FDStatLen (get_put_self _ _ _),
          congrArg Option.isSome (get_put_self _ _ _)⟩
      · have hold : j ∈ done := by simpa [hji] using hj
        exact at_of_others (fun k hk => get_put_ne _ hk.symm _)
          (fun k hk => get_put_ne _ hk.symm _) _ _ hji (h.set j hold)
    · rw [List.mem_append, not_or, List.mem_singleton] at hj
      exact (get_put_ne _ (Ne.symm hj.2) _).trans (h.unset j hj.1)

theorem setting_run {s t : RxMac} {done todo : List (Fin RX_NUM_FD)} (h : s.Setting done)
    (hnodup : (done ++ todo).Nodup) (ht : run (RxMac.setupFD alloc) s todo = .ok t) :
    t.Setting (done ++ todo) := by
  induction todo generalizing s done with
  | nil =>
    cases ht
    rw [List.append_nil]
    exact h
  | cons i todo ih =>
    obtain ⟨u, hu, hrest⟩ := bind_eq_ok.mp ht
    have hi : i ∉ done := by
      intro hmem
      exact (List.nodup_append.mp hnodup).2.2 i hmem i (by simp) rfl
    have hassoc : done ++ i :: todo = done ++ [i] ++ todo := by simp
    rw [hassoc] at hnodup ⊢
    exact ih (h.setupFD hi hu) hnodup hrest

theorem setupRxFDs_setting (h : setupRxFDs alloc = .ok s) :
    s.Setting (List.finRange RX_NUM_FD) := by
  have hset := setting_run setting_initial (List.nodup_finRange RX_NUM_FD) h
  rwa [List.nil_append] at hset

/-- **A ring that has been set up meets the invariant.** -/
theorem setupRxFDs_inv (h : setupRxFDs alloc = .ok s) : s.Inv := by
  have hset := setupRxFDs_setting h
  obtain ⟨hcall, hdone, hrefill, hhardware⟩ := hset.start
  have hlow : s.low = 0 := (RxMac.low_of_idle hcall).trans hrefill
  have hhigh : s.high = 0 := (RxMac.high_of_idle hcall).trans hdone
  refine ⟨⟨0, 0, ⟨Nat.zero_le _, fun k _ => ?_⟩, ?_, ?_, fun _ _ => Nat.zero_le _⟩, hset.skbs⟩
  · exact hset.set _ (by simp)
  · rw [hhigh, hlow, place_zero]
  · rw [hhardware, hlow, place_zero]

/-! ### The ring is correct -/

theorem RxMac.Skbs.live (h : s.Skbs) {skb : RxSkb} (hslot : s.rxFrCtl.get i = some skb) :
    s.Live skb := by
  have hmem : skb.id ∈ (s.rxFrCtl.toList.filterMap id).map (·.id) := by
    refine List.mem_map_of_mem (List.mem_filterMap.mpr ⟨some skb, ?_, rfl⟩)
    rw [← hslot]
    exact List.getElem_mem _
  have hnodup := h.once.nodup_iff.mpr (List.nodup_range)
  refine ⟨?_, fun hdelivered => ?_⟩
  · exact List.mem_range.mp (h.once.mem_iff.mp (List.mem_append_right _ hmem))
  · exact (List.nodup_append.mp hnodup).2.2 _ hdelivered _ hmem rfl

theorem at_zero_iff {z : Zone} (h : s.At z i) : (s.rxFd.get i).FDStatLen = 0 ↔ z = .spare := by
  cases z with
  | spare => exact iff_of_true h rfl
  | ready => exact iff_of_false (statLen_ne_zero_of_completed h.1) (by simp)
  | busy =>
    refine iff_of_false ?_ (by simp)
    have hword : (s.rxFd.get i).FDStatLen = RX_OWNED := h.1
    rw [hword]
    decide

theorem RxMac.Holds.unfilled {x y : Nat} (h : s.Holds x y) (hidle : s.call = .idle)
    (hi : s.Unfilled i) : (s.rxFd.get i).FDStatLen = 0 := by
  have hle := h.zones.le
  obtain ⟨hzones, hdone, -⟩ := h.between (RxMac.low_of_idle hidle) (RxMac.high_of_idle hidle)
  rcases hi with ⟨j, k, hjk, hk, rfl, hk'⟩ | ⟨heq, hzero⟩
  · -- the interval is as long as there are empty slots, or all are empty
    have hjx : j < x := by
      by_cases hx : x = RX_NUM_FD
      · omega
      · have hxk := place_inj (by omega) hk (hdone.symm.trans hk')
        omega
    exact hzones.spare hjx
  · rw [← RxMac.low_of_idle hidle] at hzero
    have hpos := h.spare_of_zero hzero
    -- the ends meet, and the first slot is empty: all are
    have hx : x = RX_NUM_FD := by
      by_contra hne
      have hmeet : place s.rxSkbRefill x = place s.rxSkbRefill 0 := by
        rw [← hdone, heq, place_zero]
      have hx0 := place_inj (by omega) rxNumFd_pos hmeet
      omega
    obtain ⟨k, hk, rfl⟩ := exists_place s.rxSkbRefill i
    exact hzones.spare (hx ▸ hk)

theorem RxMac.Inv.live (h : s.Inv) (hi : (s.rxFd.get i).owned ∨ (s.rxFd.get i).completed) :
    ∃ skb, s.rxFrCtl.get i = some skb ∧ s.Live skb ∧ (s.rxFd.get i).FDDataPtr = skb.data := by
  obtain ⟨x, y, hholds⟩ := h.holds
  have hsome : (s.rxFrCtl.get i).isSome := by
    obtain ⟨k, hk, rfl⟩ := exists_place s.low i
    have hslot := hholds.zones.slot k hk
    match hz : zoneAt x y k with
    | .spare =>
      rw [hz] at hslot
      have hword : (s.rxFd.get (place s.low k)).FDStatLen = 0 := hslot
      rcases hi with howned | hcompleted
      · rw [RxFD.owned, hword] at howned
        exact absurd howned (by decide)
      · exact absurd hword (statLen_ne_zero_of_completed hcompleted)
    | .ready | .busy =>
      rw [hz] at hslot
      exact hslot.2
  obtain ⟨skb, hslot⟩ := Option.isSome_iff_exists.mp hsome
  exact ⟨skb, hslot, h.skbs.live hslot, h.skbs.pointer i skb hslot⟩

theorem RxMac.step_kept {s t : RxMac} {e : RxEvent} (ht : s.step e = .ok t) {skb : RxSkb}
    (hslot : s.rxFrCtl.get i = some skb) :
    t.rxFrCtl.get i = some skb ∨
      statusOf (s.rxFd.get i).FDStatLen &&& RxS_Done ≠ 0 ∧
        t.delivered = s.delivered ++ [⟨skb, i, (s.rxFd.get i).FDStatLen⟩] := by
  cases e with
  | complete c =>
    cases ht
    left
    unfold RxMac.complete
    split <;> exact hslot
  | rxDoneCheck limit =>
    cases ht
    left
    split <;> exact hslot
  | callStep alloc =>
    unfold RxMac.step at ht
    dsimp only at ht
    split at ht
    · cases ht
      exact .inl hslot
    · next index _ =>
      rcases RxMac.checkStep_cases ht with ⟨-, rfl⟩ | ⟨-, ⟨hdone, skb', hskb', rfl⟩ | ⟨-, rfl⟩⟩
      · exact .inl hslot
      · by_cases hij : index = i
        · subst hij
          obtain rfl : skb' = skb := Option.some.inj (hskb'.symm.trans hslot)
          exact .inr ⟨hdone, rfl⟩
        · exact .inl ((get_put_ne _ hij _).trans hslot)
      · exact .inl hslot
    · next index _ =>
      cases ht
      left
      unfold RxMac.refillStep
      dsimp only
      split
      · exact hslot
      · split
        · exact hslot
        · exact hslot
        · next hnone =>
          -- a slot that gets a new skb was empty
          have hij : index ≠ i := by
            intro heq
            rw [heq, hslot] at hnone
            cases hnone
          exact (get_put_ne _ hij _).trans hslot

theorem RxMac.Inv.correct (h : s.Inv) : s.Correct := by
  obtain ⟨x, y, hholds⟩ := h.holds
  refine ⟨fun hidle i hi => hholds.unfilled hidle hi, fun i hi => h.live hi, ?_, h.skbs.released,
    fun e t i skb ht hslot => RxMac.step_kept ht hslot, fun hidle hfailed => ?_⟩
  · exact (List.nodup_append.mp (h.skbs.once.nodup_iff.mpr List.nodup_range)).1
  · exact Nat.le_trans (hholds.zones.card_spare fun z i hz => at_zero_iff hz)
      (hholds.filled hidle hfailed)

/-- **The receive ring is correct.** From a ring that has been set up, for
every sequence of completions, of calls of `rx_done_check` with any work
limit and of answers of the allocator. -/
theorem rx_ring_correct {alloc : Fin RX_NUM_FD → Option UInt32} {s₀ : RxMac}
    (h : setupRxFDs alloc = .ok s₀) (es : List RxEvent) :
    ∃ s, run RxMac.step s₀ es = .ok s ∧ s.Correct := by
  obtain ⟨s, hs, hinv⟩ := run_total (fun s e hs => s.step_inv hs e) es (setupRxFDs_inv h)
  exact ⟨s, hs, hinv.correct⟩

/-- A good frame of 64 bytes. -/
def goodFrame : Completion := ⟨0x00800040, by decide, by decide⟩

/-- A frame with a wrong checksum. -/
def badFrame : Completion := ⟨0x00080040, by decide, by decide⟩

/-- One frame in 17 is wrong, and two allocations succeed. -/
def squeeze : List RxEvent :=
  .complete badFrame :: List.replicate 16 (.complete goodFrame) ++ .rxDoneCheck 64 ::
    List.replicate 18 (.callStep none) ++ List.replicate 3 (.callStep (some 0x00300002)) ++
    [.callStep none]

/-- The ring while memory is short: 16 skbs were delivered, the wrong frame's
skb went back to the BDMA with two new ones, and 14 slots are empty. -/
theorem rx_ring_correct_squeeze :
    ∃ s₀ s, setupRxFDs (fun _ => some 0x00200002) = .ok s₀ ∧ run RxMac.step s₀ squeeze = .ok s ∧
      s.Correct ∧ s.delivered.length = 16 ∧ s.rxFrCtl.get 0 = some ⟨0, 0x00200002⟩ ∧
      s.rxSkbRefill = 3 ∧ s.rxDone = 17 := by
  obtain ⟨s₀, s, hs₀, hs, hview⟩ : ∃ s₀ s, setupRxFDs (fun _ => some 0x00200002) = .ok s₀ ∧
      run RxMac.step s₀ squeeze = .ok s ∧ s.delivered.length = 16 ∧
      s.rxFrCtl.get 0 = some ⟨0, 0x00200002⟩ ∧ s.rxSkbRefill = 3 ∧ s.rxDone = 17 := by
    decide +kernel
  obtain ⟨t, ht, hcorrect⟩ := rx_ring_correct hs₀ squeeze
  obtain rfl : s = t := Except.ok.inj (hs.symm.trans ht)
  exact ⟨s₀, s, hs₀, hs, hcorrect, hview⟩

end S3c2510
