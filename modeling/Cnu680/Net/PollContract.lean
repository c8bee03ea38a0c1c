import Cnu680.Net.Napi

/-! # The Return of the Poll Routine

`net_rx_action` keeps a device on its list as long as `poll` returns 1,
which says that the routine has used up the smaller of its budget and
quota. A routine that returns 0 has called `netif_rx_complete` and enabled
its interrupts.

`s3c2510_poll` stores that limit in `curr_work_limit`, which
`rx_done_check` counts down, and then compares the frames it has received
with what is left of the limit. From half of the limit on it returns 1. -/

open Framework

namespace S3c2510

/-! ### A call -/

/-- A call of `s3c2510_poll`, with the answers of `dev_alloc_skb`. -/
def Napi.s3c2510Poll (s : Napi) (budget quota : Int) (allocs : List (Option UInt32)) :
    Except RxFault Napi :=
  run Napi.step s (.poll budget quota :: allocs.map .pollStep)

/-- The frame has no error. -/
def RxFD.good (fd : RxFD) : Bool := fd.status &&& RxS_Done ≠ 0

/-- The completed descriptors from `rx_done` on. -/
def RxMac.readyFDs (m : RxMac) : List RxFD :=
  ((List.range RX_NUM_FD).map fun k => m.rxFd.get (place m.rxDone k)).takeWhile (·.status ≠ 0)

def RxMac.goodFrames (m : RxMac) : Nat := m.readyFDs.countP RxFD.good

/-- What is asked of a call that has delivered `n` frames. -/
structure Napi.Returns (t : Napi) (budget quota : Int) (n : Nat) : Prop where
  atMost : (n : Int) ≤ min budget quota
  zero : t.returned = 0 ↔ (n : Int) < min budget quota
  one : t.returned = 1 ↔ (n : Int) = min budget quota
  charged : t.budget = budget - n ∧ t.quota = quota - n
  completed : t.returned = 0 →
    t.rxSched = false ∧ t.pollList = false ∧ t.bmRxIntEn = ⟨true, true⟩
  again : t.returned = 1 → t.pollList = true

def Napi.Contract (s t : Napi) (budget quota : Int) : Prop :=
  ∃ frames, t.mac.delivered = s.mac.delivered ++ frames ∧ t.Returns budget quota frames.length

/-- The statements of a call, at most: each descriptor is checked and refilled
once, and there are ten others. -/
def maxStatements : Nat := 2 * RX_NUM_FD + 10

/-! ### The frames that are left -/

/-- The good frames in the `y` slots from `index` on. -/
def goodFrom (fds : Vector RxFD RX_NUM_FD) (index : Fin RX_NUM_FD) (y : Nat) : Nat :=
  (List.range y).countP fun k => (fds.get (place index k)).good

theorem goodFrom_put (fds : Vector RxFD RX_NUM_FD) (index : Fin RX_NUM_FD) (fd : RxFD) {y : Nat}
    (hy : y + 1 ≤ RX_NUM_FD) :
    goodFrom fds index (y + 1) =
      goodFrom (put fds index fd) (place index 1) y + if (fds.get index).good then 1 else 0 := by
  unfold goodFrom
  rw [List.range_succ_eq_map, List.countP_cons, List.countP_map, place_zero]
  congr 1
  apply List.countP_congr
  intro k hk
  have hlt : k < y := List.mem_range.mp hk
  have hput := get_put_place fds index rxNumFd_pos (show 1 + k < RX_NUM_FD by omega) fd
  rw [place_zero, if_neg (by omega)] at hput
  rw [place_place, hput, Function.comp_apply, Nat.add_comm 1 k]

theorem RxMac.Holds.goodFrames_eq {m : RxMac} {x y : Nat} (h : m.Holds x y)
    (hidle : m.call = .idle) : m.goodFrames = goodFrom m.rxFd m.rxDone y := by
  have hhigh : m.high = m.rxDone := RxMac.high_of_idle hidle
  have hle := h.zones.le
  have hready : m.readyFDs = (List.range y).map fun k => m.rxFd.get (place m.rxDone k) := by
    obtain ⟨z, hz⟩ : ∃ z, RX_NUM_FD = y + z := ⟨RX_NUM_FD - y, by omega⟩
    have hrange : List.range RX_NUM_FD = List.range y ++ (List.range z).map (y + ·) := by
      rw [hz, List.range_add]
    unfold RxMac.readyFDs
    rw [hrange, List.map_append, List.takeWhile_append_of_pos]
    · cases z with
      | zero => simp
      | succ z =>
        have hpast := h.status_past (by omega)
        rw [hhigh] at hpast
        rw [List.range_succ_eq_map]
        simp [hpast]
    · intro fd hfd
      obtain ⟨k, hk, rfl⟩ := List.mem_map.mp hfd
      have hcompleted := (h.ready_at (List.mem_range.mp hk)).1
      rw [hhigh, RxFD.completed, Bool.and_eq_true] at hcompleted
      exact hcompleted.2
  rw [RxMac.goodFrames, hready, List.countP_map]
  rfl

/-! ### The ring during a call -/

/-- In the loop, with `y` frames from `index` on. -/
structure RxMac.Receiving (m₀ : RxMac) (limit : Int) (m : RxMac) (index : Fin RX_NUM_FD)
    (y : Nat) : Prop where
  nonneg : 0 ≤ m.currWorkLimit
  left : m.currWorkLimit = limit - m.received
  frames : ∃ frames, m.delivered = m₀.delivered ++ frames ∧ frames.length = m.received
  rest : m.received + goodFrom m.rxFd index y = m₀.goodFrames

/-- After the loop. -/
structure RxMac.Received (m₀ : RxMac) (limit : Int) (m : RxMac) : Prop where
  count : m.received = min limit m₀.goodFrames
  left : m.currWorkLimit = limit - m.received
  frames : ∃ frames, m.delivered = m₀.delivered ++ frames ∧ frames.length = m.received

/-- In `rx_done_check`, with at most `n` statements to go. -/
def RxMac.Within (m₀ : RxMac) (limit : Int) (m : RxMac) (n : Nat) : Prop :=
  match m.call with
  | .check index => ∃ x y, m.Holds x y ∧ RxMac.Receiving m₀ limit m index y ∧ 2 * y + x + 7 ≤ n
  | .refill _ => ∃ x y, m.Holds x y ∧ RxMac.Received m₀ limit m ∧ x + 6 ≤ n
  | .idle => RxMac.Received m₀ limit m ∧ 5 ≤ n

section
variable {m₀ m m' : RxMac} {limit : Int} {index : Fin RX_NUM_FD} {x y n : Nat}

theorem RxMac.Receiving.ended (h : RxMac.Receiving m₀ limit m index y) (hholds : m.Holds x y)
    (hcall : m.call = .check index) (hend : (m.rxFd.get index).status = 0 ∨ m.currWorkLimit ≤ 0) :
    RxMac.Received m₀ limit (m.endCheck index) := by
  have hnonneg := h.nonneg
  have hleft := h.left
  have hrest := h.rest
  refine ⟨?_, h.left, h.frames⟩
  show (m.received : Int) = min limit m₀.goodFrames
  rcases hend with hstatus | hlimit
  · have hzero : y = 0 := by
      by_contra hy
      have hcompleted := (hholds.ready_at (Nat.pos_of_ne_zero hy)).1
      rw [place_zero, RxMac.high, hcall, RxFD.completed, Bool.and_eq_true] at hcompleted
      exact of_decide_eq_true hcompleted.2 hstatus
    subst hzero
    have hnone : goodFrom m.rxFd index 0 = 0 := rfl
    omega
  · omega

theorem RxMac.Receiving.bad (h : RxMac.Receiving m₀ limit m index (y + 1))
    (hy : y + 1 ≤ RX_NUM_FD) (hbad : (m.rxFd.get index).status &&& RxS_Done = 0) (fd : RxFD) :
    RxMac.Receiving m₀ limit
      { m with rxFd := put m.rxFd index fd, call := .check (place index 1) } (place index 1) y := by
  have hrest := h.rest
  have hgood : (m.rxFd.get index).good = false := decide_eq_false (not_not.mpr hbad)
  rw [goodFrom_put m.rxFd index fd hy, hgood] at hrest
  exact ⟨h.nonneg, h.left, h.frames, hrest⟩

theorem RxMac.Receiving.good (h : RxMac.Receiving m₀ limit m index (y + 1)) (hy : y + 1 ≤ RX_NUM_FD)
    (hgood : (m.rxFd.get index).status &&& RxS_Done ≠ 0) (hlimit : 0 < m.currWorkLimit) (fd : RxFD)
    (slots : Vector (Option RxSkb) RX_NUM_FD) (d : Delivery) :
    RxMac.Receiving m₀ limit
      { m with
        delivered := m.delivered ++ [d]
        received := m.received + 1
        currWorkLimit := m.currWorkLimit - 1
        rxFrCtl := slots
        rxFd := put m.rxFd index fd
        call := .check (place index 1) } (place index 1) y := by
  have hleft := h.left
  have hrest := h.rest
  have hgood : (m.rxFd.get index).good = true := decide_eq_true hgood
  rw [goodFrom_put m.rxFd index fd hy, hgood, if_pos rfl] at hrest
  obtain ⟨frames, hdelivered, hlength⟩ := h.frames
  refine ⟨?_, ?_, ⟨frames ++ [d], ?_, ?_⟩, ?_⟩
  · show 0 ≤ m.currWorkLimit - 1
    omega
  · show m.currWorkLimit - 1 = limit - (m.received + 1 : Nat)
    omega
  · show m.delivered ++ [d] = _
    rw [hdelivered, List.append_assoc]
  · rw [List.length_append, hlength]
    rfl
  · show m.received + 1 + goodFrom (put m.rxFd index fd) (place index 1) y = _
    omega

theorem RxMac.Within.checkStep (h : RxMac.Within m₀ limit m (n + 1)) (hcall : m.call = .check index)
    (hstep : m.checkStep index = .ok m') : RxMac.Within m₀ limit m' n := by
  unfold RxMac.Within at h
  rw [hcall] at h
  obtain ⟨x, y, hholds, hreceiving, hn⟩ := h
  rcases RxMac.checkStep_cases hstep with ⟨hend, rfl⟩ |
    ⟨⟨hstatus, hlimit⟩, ⟨hgood, skb, hslot, heq⟩ | ⟨hbad, heq⟩⟩
  · have hholds' := hholds.endCheck hcall
    have hreceived := hreceiving.ended hholds hcall hend
    unfold RxMac.Within
    cases hc : (m.endCheck index).call with
    | idle => exact ⟨hreceived, by omega⟩
    | check i =>
      unfold RxMac.endCheck at hc
      dsimp only at hc
      split at hc <;> cases hc
    | refill i => exact ⟨x, y, hholds', hreceived, by omega⟩
  · obtain ⟨y', rfl, htaken⟩ := hholds.taken hcall hstatus (congrArg RxMac.call heq)
      (by rw [heq]) (by rw [heq]) (congrArg RxMac.rxFd heq)
      fun i hi => heq ▸ get_put_ne _ hi.symm _
    have hle := hholds.zones.le
    subst heq
    exact ⟨x + 1, y', htaken, hreceiving.good (by omega) hgood hlimit _ _ _, by omega⟩
  · obtain ⟨y', rfl, htaken⟩ := hholds.taken hcall hstatus (congrArg RxMac.call heq)
      (by rw [heq]) (by rw [heq]) (congrArg RxMac.rxFd heq) fun _ _ => heq ▸ rfl
    have hle := hholds.zones.le
    subst heq
    exact ⟨x + 1, y', htaken, hreceiving.bad (by omega) hbad _, by omega⟩

theorem RxMac.Received.refillStep (h : RxMac.Received m₀ limit m) (index : Fin RX_NUM_FD)
    (alloc : Option UInt32) : RxMac.Received m₀ limit (m.refillStep index alloc) := by
  unfold RxMac.refillStep
  dsimp only
  split
  · exact { h with }
  · split <;> exact { h with }

theorem RxMac.Within.callStep (h : RxMac.Within m₀ limit m (n + 1)) (hcall : m.call ≠ .idle)
    {alloc : Option UInt32} (hstep : m.step (.callStep alloc) = .ok m') :
    RxMac.Within m₀ limit m' n := by
  unfold RxMac.step at hstep
  dsimp only at hstep
  cases hc : m.call with
  | idle => exact absurd hc hcall
  | check index =>
    rw [hc] at hstep
    exact h.checkStep hc hstep
  | refill index =>
    rw [hc] at hstep
    cases hstep
    unfold RxMac.Within at h
    rw [hc] at h
    obtain ⟨x, y, hholds, hreceived, hn⟩ := h
    have hreceived' := hreceived.refillStep index alloc
    unfold RxMac.Within
    rcases hholds.refillStep hc alloc with ⟨hidle, -⟩ | ⟨hnext, x', rfl, hholds'⟩
    · rw [hidle]
      exact ⟨hreceived', by omega⟩
    · rw [hnext]
      exact ⟨x', y, hholds', hreceived', by omega⟩

theorem RxMac.Inv.within (hinv : m.Inv) (hidle : m.call = .idle) (hlimit : 0 < limit)
    (hn : 2 * RX_NUM_FD + 7 ≤ n) (hstep : m.step (.rxDoneCheck limit) = .ok m') :
    RxMac.Within m limit m' n := by
  obtain ⟨x, y, hholds⟩ := hinv.holds
  have hle := hholds.zones.le
  rw [rxDoneCheck_start hidle] at hstep
  cases hstep
  refine ⟨x, y, hholds.beginCheck hidle limit, ⟨?_, ?_, ⟨[], ?_, rfl⟩, ?_⟩, by omega⟩
  · exact Int.le_of_lt hlimit
  · exact (Int.sub_zero limit).symm
  · exact (List.append_nil _).symm
  · rw [hholds.goodFrames_eq hidle]
    exact Nat.zero_add _

end

/-! ### The poll routine -/

theorem workLimit_eq_min (budget quota : Int) : workLimit budget quota = min budget quota := by
  unfold workLimit
  split <;> omega

/-- Before the frames are accounted for. -/
structure Napi.Called (budget quota : Int) (s : Napi) : Prop where
  budget : s.budget = budget
  quota : s.quota = quota
  listed : s.pollList = true

/-- After. -/
structure Napi.Charged (s₀ : Napi) (budget quota : Int) (s : Napi) : Prop where
  ring : RxMac.Received s₀.mac (min budget quota) s.mac
  budget : s.budget = budget - s.mac.received
  quota : s.quota = quota - s.mac.received

/-- At the return. -/
def Napi.Settled (limit : Int) (s : Napi) (done : Bool) : Prop :=
  if done then
    2 * (s.mac.received : Int) < limit ∧
      s.rxSched = false ∧ s.pollList = false ∧ s.bmRxIntEn = ⟨true, true⟩
  else limit ≤ 2 * (s.mac.received : Int) ∧ s.pollList = true

/-- In a call that began in `s₀`, with at most `n` statements to go. -/
def Napi.Polling (s₀ : Napi) (budget quota : Int) (s : Napi) (n : Nat) : Prop :=
  match s.poll with
  | .lock _ => Napi.Called budget quota s ∧ s.mac = s₀.mac ∧ 2 * RX_NUM_FD + 10 ≤ n
  | .ack _ => Napi.Called budget quota s ∧ s.mac = s₀.mac ∧ 2 * RX_NUM_FD + 9 ≤ n
  | .limit => Napi.Called budget quota s ∧ s.mac = s₀.mac ∧ 2 * RX_NUM_FD + 8 ≤ n
  | .receive => Napi.Called budget quota s ∧ RxMac.Within s₀.mac (min budget quota) s.mac n
  | .account =>
    Napi.Called budget quota s ∧ RxMac.Received s₀.mac (min budget quota) s.mac ∧ 4 ≤ n
  | .complete =>
    Napi.Charged s₀ budget quota s ∧ 2 * (s.mac.received : Int) < min budget quota ∧ 3 ≤ n
  | .enable =>
    Napi.Charged s₀ budget quota s ∧ 2 * (s.mac.received : Int) < min budget quota ∧
      s.rxSched = false ∧ s.pollList = false ∧ 2 ≤ n
  | .unlock done =>
    Napi.Charged s₀ budget quota s ∧ Napi.Settled (min budget quota) s done ∧ 1 ≤ n
  | .idle =>
    Napi.Charged s₀ budget quota s ∧
      ∃ done, Napi.Settled (min budget quota) s done ∧ s.returned = if done then 0 else 1

section
variable {s₀ s t : Napi} {budget quota : Int} {n : Nat} {alloc : Option UInt32}

/-- **A statement of the poll routine.** -/
theorem Napi.Polling.pollStep (h : Napi.Polling s₀ budget quota s (n + 1)) (hsound : s.Sound)
    (hpos : 0 < min budget quota) (hstep : s.pollStep alloc = .ok t) :
    Napi.Polling s₀ budget quota t n := by
  unfold Napi.Polling at h
  unfold Napi.pollStep at hstep
  cases hp : s.poll with
  | idle =>
    rw [hp] at h hstep
    cases hstep
    unfold Napi.Polling
    rw [hp]
    exact h
  | lock RxStat | ack RxStat =>
    rw [hp] at h hstep
    cases hstep
    obtain ⟨hcalled, hmac, hn⟩ := h
    exact ⟨{ hcalled with }, hmac, by omega⟩
  | limit =>
    rw [hp] at h hstep
    obtain ⟨hcalled, hmac, hn⟩ := h
    have hquiet : s.mac.call = .idle := hsound.quiet (by simp [hp])
    obtain ⟨m, hm, rfl⟩ := map_eq_ok.mp hstep
    rw [hcalled.budget, hcalled.quota, workLimit_eq_min] at hm
    have hwithin := hsound.ring.within hquiet hpos (show 2 * RX_NUM_FD + 7 ≤ n by omega) hm
    rw [hmac] at hwithin
    exact ⟨{ hcalled with }, hwithin⟩
  | receive =>
    rw [hp] at h hstep
    obtain ⟨hcalled, hwithin⟩ := h
    dsimp only at hstep
    split at hstep
    · next hidle =>
      cases hstep
      unfold RxMac.Within at hwithin
      rw [hidle] at hwithin
      obtain ⟨hreceived, hn⟩ := hwithin
      exact ⟨{ hcalled with }, hreceived, by omega⟩
    · next hcall =>
      obtain ⟨m, hm, rfl⟩ := map_eq_ok.mp hstep
      have hnext := hwithin.callStep hcall hm
      exact ⟨{ hcalled with }, hnext⟩
  | account =>
    rw [hp] at h hstep
    cases hstep
    obtain ⟨hcalled, hreceived, hn⟩ := h
    have hleft := hreceived.left
    have hbudget : s.budget - s.mac.received = budget - s.mac.received := by
      rw [hcalled.budget]
    have hquota : s.quota - s.mac.received = quota - s.mac.received := by
      rw [hcalled.quota]
    -- what is left of the limit is compared, not the limit
    by_cases hge : (s.mac.received : Int) ≥ s.mac.currWorkLimit
    · rw [if_pos hge]
      exact ⟨⟨hreceived, hbudget, hquota⟩, ⟨by dsimp only; omega, hcalled.listed⟩, by omega⟩
    · rw [if_neg hge]
      exact ⟨⟨hreceived, hbudget, hquota⟩, by dsimp only; omega, by omega⟩
  | complete =>
    rw [hp] at h hstep
    cases hstep
    obtain ⟨hcharged, hless, hn⟩ := h
    exact ⟨{ hcharged with }, hless, rfl, rfl, by omega⟩
  | enable =>
    rw [hp] at h hstep
    cases hstep
    obtain ⟨hcharged, hless, hsched, hlist, hn⟩ := h
    exact ⟨{ hcharged with }, ⟨hless, hsched, hlist, rfl⟩, by omega⟩
  | unlock done =>
    rw [hp] at h hstep
    cases hstep
    obtain ⟨hcharged, hsettled, hn⟩ := h
    exact ⟨{ hcharged with }, done, hsettled, rfl⟩

theorem Napi.Polling.returned (h : Napi.Polling s₀ budget quota s 0) : s.poll = .idle := by
  unfold Napi.Polling at h
  cases hp : s.poll with
  | idle => rfl
  | lock RxStat | ack RxStat | limit | account | complete | unlock done =>
    rw [hp] at h
    exact absurd h.2.2 (by omega)
  | receive =>
    rw [hp] at h
    have hwithin := h.2
    unfold RxMac.Within at hwithin
    split at hwithin
    · obtain ⟨x, y, -, -, hn⟩ := hwithin
      omega
    · obtain ⟨x, y, -, -, hn⟩ := hwithin
      omega
    · exact absurd hwithin.2 (by omega)
  | enable =>
    rw [hp] at h
    exact absurd h.2.2.2.2 (by omega)

theorem pollStep_handler (h : s.pollStep alloc = .ok t) : t.handler = s.handler := by
  unfold Napi.pollStep at h
  split at h
  · cases h
    rfl
  · cases h
    rfl
  · cases h
    rfl
  · obtain ⟨m, -, rfl⟩ := map_eq_ok.mp h
    rfl
  · split at h
    · cases h
      rfl
    · obtain ⟨m, -, rfl⟩ := map_eq_ok.mp h
      rfl
  · cases h
    rfl
  · cases h
    rfl
  · cases h
    rfl
  · cases h
    rfl

/-- **The call.** -/
theorem Napi.Polling.run {allocs : List (Option UInt32)}
    (h : Napi.Polling s₀ budget quota s allocs.length) (hsound : s.Sound)
    (hidle : s.handler = .idle) (hpos : 0 < min budget quota) :
    ∃ t, Framework.run Napi.step s (allocs.map .pollStep) = .ok t ∧
      Napi.Polling s₀ budget quota t 0 := by
  induction allocs generalizing s with
  | nil => exact ⟨s, rfl, h⟩
  | cons alloc allocs ih =>
    obtain ⟨t, ht, hsound'⟩ := hsound.pollStep hidle alloc
    have hstep : s.step (.pollStep alloc) = .ok t := by
      unfold Napi.step
      dsimp only
      rw [if_pos hidle]
      exact ht
    have hidle' : t.handler = .idle := (pollStep_handler ht).trans hidle
    obtain ⟨u, hu, hpolling⟩ := ih (h.pollStep hsound hpos ht) hsound' hidle'
    refine ⟨u, ?_, hpolling⟩
    rw [List.map_cons, run_cons, hstep, ok_bind]
    exact hu

theorem Napi.Polling.contract_iff (h : Napi.Polling s₀ budget quota t 0) :
    s₀.Contract t budget quota ↔
      min budget quota ≤ s₀.mac.goodFrames ∨
        2 * (s₀.mac.goodFrames : Int) < min budget quota := by
  have hidle := h.returned
  unfold Napi.Polling at h
  rw [hidle] at h
  obtain ⟨hcharged, done, hsettled, hreturned⟩ := h
  have hcount := hcharged.ring.count
  obtain ⟨frames, hdelivered, hlength⟩ := hcharged.ring.frames
  unfold Napi.Settled at hsettled
  constructor
  · intro hcontract
    obtain ⟨frames', hdelivered', hreturns⟩ := hcontract
    obtain rfl : frames = frames' := List.append_cancel_left (hdelivered.symm.trans hdelivered')
    cases done with
    | true =>
      -- all the frames were received
      have hless := hsettled.1
      omega
    | false =>
      have hall := hreturns.one.mp hreturned
      omega
  · intro hwhen
    have hbudget := hcharged.budget
    have hquota := hcharged.quota
    refine ⟨frames, hdelivered, ?_⟩
    rw [hlength]
    cases done with
    | true =>
      obtain ⟨hless, hremoved⟩ := hsettled
      rw [if_pos rfl] at hreturned
      exact ⟨by omega, by omega, by omega, ⟨hbudget, hquota⟩, fun _ => hremoved, by omega⟩
    | false =>
      obtain ⟨hmore, hlisted⟩ := hsettled
      rw [if_neg Bool.false_ne_true] at hreturned
      exact ⟨by omega, by omega, by omega, ⟨hbudget, hquota⟩, by omega, fun _ => hlisted⟩

end

/-- **A call of `s3c2510_poll` returns, and keeps its contract exactly when the
good frames on the ring use up its limit, or less than half of it.** -/
theorem poll_contract_iff {alloc : Fin RX_NUM_FD → Option UInt32} {mac : RxMac}
    (h : setupRxFDs alloc = .ok mac) {es : List NapiEvent} {s : Napi}
    (hs : run Napi.step (Napi.opened mac) es = .ok s) (hlist : s.pollList = true)
    (hpoll : s.poll = .idle) (hhandler : s.handler = .idle) {budget quota : Int}
    (hbudget : 0 < budget) (hquota : 0 < quota) {allocs : List (Option UInt32)}
    (hlong : maxStatements ≤ allocs.length) :
    ∃ t, s.s3c2510Poll budget quota allocs = .ok t ∧ t.poll = .idle ∧
      (s.Contract t budget quota ↔
        min budget quota ≤ s.mac.goodFrames ∨
          2 * (s.mac.goodFrames : Int) < min budget quota) := by
  obtain ⟨s', hs', hsound⟩ := run_sound h es
  obtain rfl : s = s' := Except.ok.inj (hs.symm.trans hs')
  have hstart : s.step (.poll budget quota) =
      .ok { s with poll := .lock s.bmRxStat, budget := budget, quota := quota } := by
    unfold Napi.step
    dsimp only
    rw [if_pos ⟨hlist, hpoll, hhandler⟩]
  obtain ⟨s', hs', hsound'⟩ := hsound.step (.poll budget quota)
  rw [hstart] at hs'
  cases hs'
  have hpolling : Napi.Polling s budget quota
      { s with poll := .lock s.bmRxStat, budget := budget, quota := quota } allocs.length :=
    ⟨⟨rfl, rfl, hlist⟩, rfl, hlong⟩
  obtain ⟨t, ht, hreturned⟩ := hpolling.run hsound' hhandler (by omega)
  refine ⟨t, ?_, hreturned.returned, hreturned.contract_iff⟩
  unfold Napi.s3c2510Poll
  rw [run_cons, hstart, ok_bind]
  exact ht

/-- With the quota of the device the call is over. -/
theorem poll_contract_one_of_many :
    ∃ mac s t, setupRxFDs (fun _ => some 0x00200002) = .ok mac ∧
      run Napi.step (Napi.opened mac) arrival = .ok s ∧ s.mac.goodFrames = 1 ∧
      s.s3c2510Poll 300 64 (List.replicate maxStatements none) = .ok t ∧
      s.Contract t 300 64 ∧ t.returned = 0 := by
  obtain ⟨mac, s, t, hmac, hs, ht, hlist, hpoll, hhandler, hgood, hreturned⟩ : ∃ mac s t,
      setupRxFDs (fun _ => some 0x00200002) = .ok mac ∧
      run Napi.step (Napi.opened mac) arrival = .ok s ∧
      s.s3c2510Poll 300 64 (List.replicate maxStatements none) = .ok t ∧ s.pollList = true ∧
      s.poll = .idle ∧ s.handler = .idle ∧ s.mac.goodFrames = 1 ∧ t.returned = 0 := by
    decide +kernel
  obtain ⟨u, hu, -, hiff⟩ := poll_contract_iff hmac hs hlist hpoll hhandler
    (show (0 : Int) < 300 by decide) (show (0 : Int) < 64 by decide)
    (Nat.le_of_eq List.length_replicate.symm)
  obtain rfl : t = u := Except.ok.inj (ht.symm.trans hu)
  refine ⟨mac, s, t, hmac, hs, hgood, ht, hiff.mpr (.inr ?_), hreturned⟩
  rw [hgood]
  decide

/-- With a limit of two, the call says that it has used it up. -/
theorem poll_returns_one_too_early :
    ∃ mac s t, setupRxFDs (fun _ => some 0x00200002) = .ok mac ∧
      run Napi.step (Napi.opened mac) arrival = .ok s ∧
      s.pollList = true ∧ s.poll = .idle ∧ s.handler = .idle ∧
      s.s3c2510Poll 2 2 (List.replicate maxStatements none) = .ok t ∧ t.poll = .idle ∧
      ¬ s.Contract t 2 2 := by
  obtain ⟨mac, s, t, hmac, hs, ht, hlist, hpoll, hhandler, hbefore, hidle, hafter, hreturned⟩ :
      ∃ mac s t, setupRxFDs (fun _ => some 0x00200002) = .ok mac ∧
      run Napi.step (Napi.opened mac) arrival = .ok s ∧
      s.s3c2510Poll 2 2 (List.replicate maxStatements none) = .ok t ∧ s.pollList = true ∧
      s.poll = .idle ∧ s.handler = .idle ∧ s.mac.delivered.length = 0 ∧ t.poll = .idle ∧
      t.mac.delivered.length = 1 ∧ t.returned = 1 := by
    decide +kernel
  refine ⟨mac, s, t, hmac, hs, hlist, hpoll, hhandler, ht, hidle, ?_⟩
  intro hcontract
  obtain ⟨frames, hdelivered, hreturns⟩ := hcontract
  have hall := hreturns.one.mp hreturned
  rw [hdelivered, List.length_append, hbefore] at hafter
  omega

end S3c2510
