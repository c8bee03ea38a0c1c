import Cnu680.Framework.Tally
import Cnu680.Netfilter.Conntrack

/-! # References and the Count

`ip_conntrack_count` goes up when a connection is allocated and down when
its last reference is given up. Over every run it is the number of the
connections that are allocated.

A connection that is freed gives up the reference to its master, which
may be freed with it, and so on. The masters are older, so this ends. -/

open Framework Function

namespace Conntrack

/-! ### The count -/

/-- Whether a connection is allocated. -/
def allocated (o : Option Ct) : ℕ := if o.isSome then 1 else 0

/-- `ip_conntrack_count` is the number of connections that are allocated, and
a connection is newer than its master. -/
structure Table.Counted (t : Table) : Prop where
  count : t.count = (tally (Finset.range t.next) allocated t.cts : ℕ)
  fresh : ∀ id, t.next ≤ id → t.cts id = none
  older : ∀ id c master, t.cts id = some c → c.master = some master → master < id

section
variable {t t' : Table} {id : Nat} {c c' : Ct} {chain : UInt32}

theorem Table.Counted.lt_next (h : t.Counted) (hc : t.cts id = some c) : id < t.next := by
  by_contra hle
  rw [h.fresh id (Nat.le_of_not_lt hle)] at hc
  cases hc

theorem Table.Counted.of_eq (h : t.Counted) (hcts : t'.cts = t.cts) (hnext : t'.next = t.next)
    (hcount : t'.count = t.count) : t'.Counted := by
  constructor
  · rw [hcts, hnext, hcount]
    exact h.count
  · rw [hcts, hnext]
    exact h.fresh
  · rw [hcts]
    exact h.older

theorem Table.Counted.set (h : t.Counted) (hc : t.cts id = some c)
    (hmaster : c'.master = c.master) : (t.set id c').Counted := by
  have hid : id < t.next := h.lt_next hc
  constructor
  · have hsame : allocated (some c') = allocated (t.cts id) := by
      rw [hc]
      rfl
    show t.count = (tally (Finset.range t.next) allocated (update t.cts id _) : ℕ)
    rw [tally_update_of_eq hsame, h.count]
  · intro j hj
    rw [next_set] at hj
    rw [cts_set_ne (by omega)]
    exact h.fresh j hj
  · intro j d master hd hm
    by_cases hj : j = id
    · subst hj
      rw [cts_set_self] at hd
      cases hd
      exact h.older j c master hc (hmaster ▸ hm)
    · rw [cts_set_ne hj] at hd
      exact h.older j d master hd hm

theorem Table.Counted.free (h : t.Counted) (hc : t.cts id = some c) : (t.free id).Counted := by
  have hid : id < t.next := h.lt_next hc
  constructor
  · have htally := tally_update allocated t.cts (Finset.mem_range.mpr hid) none
    rw [hc] at htally
    have hone : allocated (some c) = 1 := rfl
    have hzero : allocated none = 0 := rfl
    have hcount := h.count
    show t.count - 1 = (tally (Finset.range t.next) allocated (update t.cts id none) : ℕ)
    omega
  · intro j hj
    rw [next_free] at hj
    rw [cts_free_ne (by omega)]
    exact h.fresh j hj
  · intro j d master hd hm
    by_cases hj : j = id
    · subst hj
      rw [cts_free_self] at hd
      cases hd
    · rw [cts_free_ne hj] at hd
      exact h.older j d master hd hm

/-! ### References -/

theorem drop_eq_some (h : c.drop = some c') : c'.use + 1 = c.use ∧ c'.master = c.master := by
  unfold Ct.drop at h
  split at h
  · next huse =>
    cases h
    exact ⟨Nat.sub_add_cancel (Nat.le_of_lt huse), rfl⟩
  · cases h

/-- What giving up a reference does: newer connections are not concerned, and
with the last reference a connection is gone. -/
structure PutSpec (t t' : Table) (id : Nat) : Prop where
  counted : t'.Counted
  newer : ∀ j, id < j → t'.cts j = t.cts j
  le : t'.count ≤ t.count
  last : ∀ c, t.cts id = some c → c.use = 1 → t'.count < t.count

theorem putFrom_spec {fuel : Nat} (h : t.Counted) (hput : Table.putFrom fuel id t = .ok t') :
    PutSpec t t' id := by
  induction fuel generalizing id t t' with
  | zero => cases hput
  | succ fuel ih =>
    obtain ⟨c, hget, hrest⟩ := bind_eq_ok.mp hput
    have hc : t.cts id = some c := get_eq_ok.mp hget
    split at hrest
    · next d hd =>
      obtain ⟨huse, hmaster⟩ := drop_eq_some hd
      cases hrest
      constructor
      · exact h.set hc hmaster
      · intro j hj
        exact cts_set_ne (by omega)
      · exact Int.le_refl _
      · intro e he hone
        have hpos := d.use_pos
        rw [hc] at he
        cases he
        omega
    · split at hrest
      · cases hrest
        constructor
        · exact h.free hc
        · intro j hj
          exact cts_free_ne (by omega)
        · rw [count_free]
          omega
        · intro e _ _
          rw [count_free]
          omega
      · next master hm =>
        -- The master is older, so the connection is still there when it is freed.
        obtain ⟨u, hu, hfree⟩ := map_eq_ok.mp hrest
        cases hfree
        have hspec := ih h hu
        have holder : master < id := h.older id c master hc hm
        have huc : u.cts id = some c := (hspec.newer id holder).trans hc
        have hle := hspec.le
        constructor
        · exact hspec.counted.free huc
        · intro j hj
          rw [cts_free_ne (by omega)]
          exact hspec.newer j (by omega)
        · rw [count_free]
          omega
        · intro e _ _
          rw [count_free]
          omega

theorem put_spec (h : t.Counted) (hput : t.put id = .ok t') : PutSpec t t' id :=
  putFrom_spec h hput

theorem put_shared (hc : t.cts id = some c) (hdrop : c.drop = some c') :
    t.put id = .ok (t.set id c') := by
  unfold Table.put Table.putFrom
  rw [show t.get id = .ok c from get_eq_ok.mpr hc, ok_bind, hdrop]

/-! ### Removal -/

theorem removeExpectations_frame (h : t.removeExpectations id c = .ok t') :
    t'.cts = t.cts ∧ t'.next = t.next ∧ t'.count = t.count := by
  unfold Table.removeExpectations at h
  split at h
  · cases h
    exact ⟨rfl, rfl, rfl⟩
  · split at h
    · cases h
    · cases h
      exact ⟨rfl, rfl, rfl⟩

theorem deathByTimeout_eq (h : t.deathByTimeout id = .ok t') :
    ∃ (c : Ct) (u : Table), t.cts id = some c ∧
      u.cts = (t.set id { c with confirmed := false }).cts ∧ u.next = t.next ∧
      u.count = t.count ∧ u.put id = .ok t' := by
  obtain ⟨c, hget, hrest⟩ := bind_eq_ok.mp h
  obtain ⟨u, hu, hput⟩ := bind_eq_ok.mp hrest
  obtain ⟨hcts, hnext, hcount⟩ := removeExpectations_frame hu
  exact ⟨c, u, get_eq_ok.mp hget, hcts, hnext, hcount, hput⟩

theorem deathByTimeout_spec (h : t.Counted) (hdeath : t.deathByTimeout id = .ok t') :
    t'.Counted ∧ t'.count ≤ t.count := by
  obtain ⟨c, u, hc, hcts, hnext, hcount, hput⟩ := deathByTimeout_eq hdeath
  have hset : (t.set id { c with confirmed := false }).Counted := h.set hc rfl
  have hspec := put_spec (hset.of_eq hcts hnext hcount) hput
  exact ⟨hspec.counted, hcount ▸ hspec.le⟩

/-- What `early_drop` would drop has no reference but that of its timer. -/
def Table.unreferenced (t : Table) (chain : UInt32) : Bool :=
  match listFind t.unreplied (t.chains chain) with
  | .ok (some node) => (t.cts node.ct).all fun c => !c.timer || c.use == 1
  | _ => true

theorem use_of_unreferenced {node : Node} (h : t.unreferenced chain = true)
    (hfind : listFind t.unreplied (t.chains chain) = .ok (some node))
    (hc : t.cts node.ct = some c) (htimer : c.timer = true) : c.use = 1 := by
  unfold Table.unreferenced at h
  rw [hfind] at h
  simpa [hc, htimer] using h

theorem earlyDrop_cases {dropped : Bool} (h : t.earlyDrop chain = .ok (dropped, t')) :
    (dropped = false ∧ t' = t) ∨
      (dropped = true ∧ ∃ node c u, listFind t.unreplied (t.chains chain) = .ok (some node) ∧
        t.cts node.ct = some c ∧ c.timer = true ∧
        (t.set node.ct { c.hold with timer := false }).deathByTimeout node.ct = .ok u ∧
        u.put node.ct = .ok t') := by
  obtain ⟨found, hfound, hrest⟩ := bind_eq_ok.mp h
  match found with
  | none =>
    cases hrest
    exact .inl ⟨rfl, rfl⟩
  | some node =>
    obtain ⟨c, hget, hrest⟩ := bind_eq_ok.mp hrest
    have hc := get_eq_ok.mp hget
    split at hrest
    · next htimer =>
      obtain ⟨u, hu, hrest⟩ := bind_eq_ok.mp hrest
      obtain ⟨v, hv, hrest⟩ := bind_eq_ok.mp hrest
      cases hrest
      exact .inr ⟨rfl, node, c, u, hfound, hc, htimer, hu, hv⟩
    · -- the reference that was taken is given up again
      rw [put_shared cts_set_self (drop_hold c), ok_bind, set_set, set_eq_self hc] at hrest
      cases hrest
      exact .inl ⟨rfl, rfl⟩

theorem earlyDrop_spec {dropped : Bool} (h : t.Counted)
    (hdrop : t.earlyDrop chain = .ok (dropped, t')) :
    t'.Counted ∧ t'.count ≤ t.count ∧
      (dropped = true → t.unreferenced chain = true → t'.count < t.count) := by
  rcases earlyDrop_cases hdrop with ⟨rfl, rfl⟩ | ⟨rfl, node, c, u, hfind, hc, htimer, hdeath, hput⟩
  · exact ⟨h, Int.le_refl _, fun hfalse => absurd hfalse (by simp)⟩
  · have hheld : (t.set node.ct { c.hold with timer := false }).Counted := h.set hc rfl
    obtain ⟨hcounted, hle⟩ := deathByTimeout_spec hheld hdeath
    have hle : u.count ≤ t.count := hle
    have hlast := put_spec hcounted hput
    refine ⟨hlast.counted, Int.le_trans hlast.le hle, fun _ hfree => ?_⟩
    -- Two references: the timer gives up one, and the call the other.
    have huse : c.use = 1 := use_of_unreferenced hfree hfind hc htimer
    obtain ⟨d, v, hd, hcts, _, _, hvput⟩ := deathByTimeout_eq hdeath
    cases cts_set_self.symm.trans hd
    have hv : v.cts node.ct = some { c.hold with timer := false, confirmed := false } := by
      rw [hcts]
      exact cts_set_self
    have hdrop := drop_hold { c with timer := false, confirmed := false }
    rw [put_shared hv hdrop] at hvput
    cases hvput
    exact Int.lt_of_lt_of_le (hlast.last _ cts_set_self huse) hle

/-! ### New connections -/

theorem expected_spec {tuple : Tuple} {master : Option Nat} (h : t.Counted)
    (hexp : t.expected tuple = .ok (master, t')) :
    t'.Counted ∧ t'.count = t.count ∧ t'.next = t.next ∧ ∀ m, master = some m → m < t.next := by
  unfold Table.expected at hexp
  split at hexp
  · cases hexp
    exact ⟨h, rfl, rfl, fun m hm => absurd hm (by simp)⟩
  · next e _ =>
    obtain ⟨c, hget, hrest⟩ := bind_eq_ok.mp hexp
    have hc := get_eq_ok.mp hget
    split at hrest
    · cases hrest
    · split at hrest
      · cases hrest
        exact ⟨h, rfl, rfl, fun m hm => absurd hm (by simp)⟩
      · split at hrest
        · cases hrest
          have hset : (t.set e.expectant c.hold).Counted := h.set hc rfl
          refine ⟨hset.of_eq rfl rfl rfl, rfl, rfl, fun m hm => ?_⟩
          cases hm
          exact h.lt_next hc
        · cases hrest
          exact ⟨h.of_eq rfl rfl rfl, rfl, rfl, fun m hm => absurd hm (by simp)⟩

theorem Table.Counted.insert (h : t.Counted) (hnext : t'.next = t.next + 1)
    (hcts : t'.cts = update t.cts t.next (some c)) (hcount : t'.count = t.count + 1)
    (hmaster : ∀ m, c.master = some m → m < t.next) : t'.Counted := by
  constructor
  · have hone : allocated (some c) = 1 := rfl
    rw [hnext, hcts, hcount, tally_range_succ, hone, h.count]
    rfl
  · intro j hj
    rw [hnext] at hj
    rw [hcts, update_of_ne (by omega)]
    exact h.fresh j (by omega)
  · intro j d m hd hm
    rw [hcts] at hd
    by_cases hj : j = t.next
    · subst hj
      rw [update_self] at hd
      cases hd
      exact hmaster m hm
    · rw [update_of_ne hj] at hd
      exact h.older j d m hd hm

theorem create_spec {cfg : Config} {pkt : Packet} {r : InitResult} (h : t.Counted)
    (hcreate : t.create cfg pkt = .ok (r, t')) : t'.Counted ∧ t'.count ≤ t.count + 1 := by
  have hunchanged : t.Counted ∧ t.count ≤ t.count + 1 := ⟨h, by omega⟩
  unfold Table.create at hcreate
  split at hcreate
  · cases hcreate
    exact hunchanged
  · split at hcreate
    · cases hcreate
      exact hunchanged
    · split at hcreate
      · cases hcreate
        exact hunchanged
      · obtain ⟨⟨master, u⟩, hexp, hrest⟩ := bind_eq_ok.mp hcreate
        obtain ⟨hcounted, hcount, hnext, hmaster⟩ := expected_spec h hexp
        cases hrest
        constructor
        · exact hcounted.insert rfl rfl rfl (fun m hm => hnext ▸ hmaster m hm)
        · show u.count + 1 ≤ t.count + 1
          omega

/-! ### Steps -/

/-- The count is still right, and not higher. -/
structure Table.NoMore (t t' : Table) : Prop where
  counted : t'.Counted
  le : t'.count ≤ t.count

section
variable {cfg : Config} {pkt : Packet}

section
variable (h : t.Counted)
include h

theorem Table.Counted.noMore : t.NoMore t := ⟨h, Int.le_refl _⟩

theorem Table.Counted.initConntrack {r : InitResult}
    (hinit : t.initConntrack cfg pkt = .ok (r, t')) : t'.Counted := by
  unfold Table.initConntrack at hinit
  split at hinit
  · obtain ⟨⟨dropped, u⟩, hu, hrest⟩ := bind_eq_ok.mp hinit
    have hcounted : u.Counted := (earlyDrop_spec h hu).1
    dsimp only at hrest
    split at hrest
    · cases hrest
      exact hcounted
    · exact (create_spec hcounted hrest).1
  · exact (create_spec h hinit).1

theorem resolveNormalCt_cases (hres : t.resolveNormalCt cfg pkt = .ok t') :
    t.NoMore t' ∨
      t.find cfg pkt.tuple = .ok none ∧ ∃ r, t.initConntrack cfg pkt = .ok (r, t') := by
  obtain ⟨found, hfound, hrest⟩ := bind_eq_ok.mp hres
  match found with
  | some node =>
    obtain ⟨c, hget, hrest⟩ := bind_eq_ok.mp hrest
    have hset : (t.set node.ct c.hold).Counted := h.set (get_eq_ok.mp hget) rfl
    cases hrest
    exact .inl ⟨hset.of_eq rfl rfl rfl, Int.le_refl _⟩
  | none =>
    obtain ⟨⟨r, u⟩, hinit, hu⟩ := map_eq_ok.mp hrest
    cases hu
    exact .inr ⟨hfound, r, hinit⟩

theorem confirm_noMore {late : Bool} (hc : t.cts id = some c)
    (hconfirm : t.confirm cfg id c late = .ok t') : t.NoMore t' := by
  obtain ⟨found, _, hrest⟩ := bind_eq_ok.mp hconfirm
  split at hrest
  · cases hrest
    exact h.noMore
  · obtain ⟨found', _, hrest⟩ := bind_eq_ok.mp hrest
    split at hrest
    · cases hrest
      exact h.noMore
    · have hset : (t.set id { c.hold with confirmed := true, timer := true }).Counted :=
        h.set hc rfl
      cases hrest
      split <;> exact ⟨hset.of_eq rfl rfl rfl, Int.le_refl _⟩

theorem step_noMore {e : Event} (hpkt : ∀ pkt, e ≠ .packet pkt)
    (hstep : t.step cfg e = .ok t') : t.NoMore t' := by
  unfold Table.step at hstep
  match e with
  | .packet pkt => exact absurd rfl (hpkt pkt)
  | .confirm id late =>
    refine of_skipped h.noMore (fun _ hheld => ?_) hstep
    obtain ⟨c, hget, hrest⟩ := bind_eq_ok.mp hheld
    exact of_skipped h.noMore (fun _ => confirm_noMore h (get_eq_ok.mp hget)) hrest
  | .release id =>
    refine of_skipped h.noMore (fun _ hheld => ?_) hstep
    have hreleased : Table.Counted { t with skbs := update t.skbs id (t.skbs id - 1) } :=
      h.of_eq rfl rfl rfl
    exact ⟨(put_spec hreleased hheld).counted, (put_spec hreleased hheld).le⟩
  | .assure id =>
    refine of_skipped h.noMore (fun _ hheld => ?_) hstep
    obtain ⟨c, hget, hrest⟩ := bind_eq_ok.mp hheld
    cases hrest
    exact ⟨h.set (get_eq_ok.mp hget) rfl, Int.le_refl _⟩
  | .timeout id =>
    dsimp only at hstep
    split at hstep
    · cases hstep
      exact h.noMore
    · next c hc =>
      have hset : (t.set id { c with timer := false }).Counted := h.set hc rfl
      refine of_guarded h.noMore (fun _ hrest => ?_) hstep
      exact ⟨(deathByTimeout_spec hset hrest).1, (deathByTimeout_spec hset hrest).2⟩
  | .expect tuple mask id =>
    refine of_skipped h.noMore (fun _ hheld => ?_) hstep
    obtain ⟨c, _, hrest⟩ := bind_eq_ok.mp hheld
    split at hrest
    · cases hrest
      exact h.noMore
    · cases hrest
      exact ⟨h.of_eq rfl rfl rfl, Int.le_refl _⟩
  | .expectTimeout _ | .lists _ _ =>
    cases hstep
    split
    · exact ⟨h.of_eq rfl rfl rfl, Int.le_refl _⟩
    · exact h.noMore

/-- **The count stays right.** -/
theorem Table.Counted.step {e : Event} (hstep : t.step cfg e = .ok t') : t'.Counted := by
  by_cases hpkt : ∃ pkt, e = .packet pkt
  · obtain ⟨pkt, rfl⟩ := hpkt
    rcases resolveNormalCt_cases h hstep with hno | ⟨_, r, hinit⟩
    · exact hno.counted
    · exact h.initConntrack hinit
  · exact (step_noMore h (fun pkt he => hpkt ⟨pkt, he⟩) hstep).counted

end

theorem empty_counted : Table.empty.Counted := by
  constructor
  · rfl
  · intro id _
    rfl
  · intro id c master hc
    cases hc

/-! ### Masters -/

theorem get_ne_cycle : t.get id ≠ .error .cycle := by
  unfold Table.get
  split <;> simp

theorem putFrom_ne_cycle {fuel : Nat} (h : t.Counted) (hid : id < fuel) :
    Table.putFrom fuel id t ≠ .error .cycle := by
  induction fuel generalizing id with
  | zero => exact absurd hid (Nat.not_lt_zero id)
  | succ fuel ih =>
    unfold Table.putFrom
    refine bind_ne_error get_ne_cycle fun c hget => ?_
    split
    · simp
    · split
      · simp
      · next master hm =>
        have holder : master < id := h.older id c master (get_eq_ok.mp hget) hm
        exact fun herr => ih (by omega) (map_eq_error.mp herr)

/-- A reference is given up without end only if masters are masters of each
other. -/
theorem put_ne_cycle (h : t.Counted) : t.put id ≠ .error .cycle := by
  by_cases hid : id < t.next
  · exact putFrom_ne_cycle h (Nat.lt_succ_of_lt hid)
  · have hnone : t.cts id = none := h.fresh id (Nat.le_of_not_lt hid)
    unfold Table.put Table.putFrom
    refine bind_ne_error get_ne_cycle fun c hget => ?_
    rw [get_eq_ok.mp hget] at hnone
    cases hnone

theorem deathByTimeout_ne_cycle (h : t.Counted) : t.deathByTimeout id ≠ .error .cycle := by
  refine bind_ne_error get_ne_cycle fun c hget => bind_ne_error ?_ fun u hu => ?_
  · unfold Table.removeExpectations
    split
    · simp
    · split <;> simp
  · obtain ⟨hcts, hnext, hcount⟩ := removeExpectations_frame hu
    have hset : (t.set id { c with confirmed := false }).Counted := h.set (get_eq_ok.mp hget) rfl
    exact put_ne_cycle (hset.of_eq hcts hnext hcount)

theorem listFind_ne_cycle {cmp : Node → Except Fault Bool} (hcmp : ∀ node, cmp node ≠ .error .cycle)
    (nodes : List Node) : listFind cmp nodes ≠ .error .cycle := by
  induction nodes with
  | nil => simp [listFind]
  | cons node nodes ih =>
    refine bind_ne_error (hcmp node) fun found _ => ?_
    split
    · simp
    · exact ih

theorem tupleCmp_ne_cycle {tuple : Tuple} (node : Node) : t.tupleCmp tuple node ≠ .error .cycle :=
  bind_ne_error get_ne_cycle fun _ _ => by simp

theorem earlyDrop_ne_cycle {chain : UInt32} (h : t.Counted) :
    t.earlyDrop chain ≠ .error .cycle := by
  have hunreplied : ∀ node, t.unreplied node ≠ .error .cycle := fun node =>
    bind_ne_error get_ne_cycle fun _ _ => by simp
  refine bind_ne_error (listFind_ne_cycle hunreplied _) fun found _ => ?_
  match found with
  | none => simp
  | some node =>
    refine bind_ne_error get_ne_cycle fun c hget => ?_
    have hc := get_eq_ok.mp hget
    split
    · have hheld : (t.set node.ct { c.hold with timer := false }).Counted := h.set hc rfl
      refine bind_ne_error (deathByTimeout_ne_cycle hheld) fun u hu => ?_
      have hu : u.Counted := (deathByTimeout_spec hheld hu).1
      exact bind_ne_error (put_ne_cycle hu) fun _ _ => by simp
    · have hheld : (t.set node.ct c.hold).Counted := h.set hc rfl
      exact bind_ne_error (put_ne_cycle hheld) fun _ _ => by simp

theorem create_ne_cycle : t.create cfg pkt ≠ .error .cycle := by
  unfold Table.create
  split
  · simp
  · split
    · simp
    · split
      · simp
      · refine bind_ne_error ?_ fun _ _ => by simp
        unfold Table.expected
        split
        · simp
        · refine bind_ne_error get_ne_cycle fun c _ => ?_
          split
          · simp
          · split
            · simp
            · split <;> simp

theorem resolveNormalCt_ne_cycle (h : t.Counted) : t.resolveNormalCt cfg pkt ≠ .error .cycle := by
  refine bind_ne_error (listFind_ne_cycle tupleCmp_ne_cycle _) fun found _ => ?_
  split
  · exact bind_ne_error get_ne_cycle fun _ _ => by simp
  · refine fun herr => absurd (map_eq_error.mp herr) ?_
    unfold Table.initConntrack
    split
    · refine bind_ne_error (earlyDrop_ne_cycle h) fun ⟨dropped, u⟩ _ => ?_
      dsimp only
      split
      · simp
      · exact create_ne_cycle
    · exact create_ne_cycle

theorem confirm_ne_cycle {late : Bool} : t.confirm cfg id c late ≠ .error .cycle := by
  refine bind_ne_error (listFind_ne_cycle tupleCmp_ne_cycle _) fun found _ => ?_
  split
  · simp
  · refine bind_ne_error (listFind_ne_cycle tupleCmp_ne_cycle _) fun found' _ => ?_
    split <;> simp

theorem step_ne_cycle (h : t.Counted) (e : Event) : t.step cfg e ≠ .error .cycle := by
  unfold Table.step
  match e with
  | .packet pkt => exact resolveNormalCt_ne_cycle h
  | .confirm id late =>
    dsimp only
    split
    · simp
    · refine bind_ne_error get_ne_cycle fun c _ => ?_
      split
      · simp
      · exact confirm_ne_cycle
  | .release id =>
    dsimp only
    split
    · simp
    · exact put_ne_cycle (h.of_eq rfl rfl rfl)
  | .assure id =>
    dsimp only
    split
    · simp
    · exact bind_ne_error get_ne_cycle fun _ _ => by simp
  | .timeout id =>
    dsimp only
    split
    · simp
    · next c hc =>
      split
      · exact deathByTimeout_ne_cycle (h.set hc rfl)
      · simp
  | .expect tuple mask id =>
    dsimp only
    split
    · simp
    · refine bind_ne_error get_ne_cycle fun c _ => ?_
      split <;> simp
  | .expectTimeout k => simp
  | .lists hashBase chains => simp

/-- **No run goes round in a circle of masters.** -/
theorem run_ne_cycle (es : List Event) : run (Table.step cfg) .empty es ≠ .error .cycle :=
  run_ne_error (fun _ _ _ hcounted hstep => Table.Counted.step hcounted hstep)
    (fun _ e hcounted => step_ne_cycle hcounted e) empty_counted es

end

end

end Conntrack
