import Cnu680.Netfilter.References

/-! # The Limit of the Connection Table

When the table is full, `init_conntrack` drops a connection that is not
assured, or refuses the new one. The message with which it used to refuse
was commented out, but not the test of `net_ratelimit` in front of it:
the refusal now depends on whether a message could have been printed. -/

open Framework

namespace Conntrack

/-! ### The limit -/

section
variable {cfg : Config} {t t' : Table} {pkt : Packet}

/-- `early_drop` has nothing to remove. -/
def Table.DropsNothing (t : Table) (chain : UInt32) : Prop :=
  ∃ u, t.earlyDrop chain = .ok (false, u)

instance (t : Table) (chain : UInt32) : Decidable (t.DropsNothing chain) :=
  match h : t.earlyDrop chain with
  | .ok (false, u) => .isTrue ⟨u, h⟩
  | .ok (true, _) => .isFalse fun ⟨u, hu⟩ => by rw [h] at hu; cases hu
  | .error _ => .isFalse fun ⟨u, hu⟩ => by rw [h] at hu; cases hu

/-- What is asked of `init_conntrack` when the table is full: it makes a new
connection only if one was dropped, and refuses otherwise. -/
structure Table.Limits (cfg : Config) (t : Table) (pkt : Packet) : Prop where
  creates : ∀ id t', t.initConntrack cfg pkt = .ok (.conntrack id, t') →
    ∃ u, t.earlyDrop (t.hashConntrack cfg pkt.tuple) = .ok (true, u)
  refuses : t.DropsNothing (t.hashConntrack cfg pkt.tuple) →
    t.initConntrack cfg pkt = .ok (.err ENOMEM, t)

/-- If nothing is dropped, a message could be printed, or there is no memory
for a connection anyway. -/
def Table.Refuses (cfg : Config) (t : Table) (pkt : Packet) : Prop :=
  t.DropsNothing (t.hashConntrack cfg pkt.tuple) →
    pkt.ratelimit = true ∨
      (invertTuple pkt.protocol pkt.tuple).isSome = true ∧ pkt.alloc = false

instance (cfg : Config) (t : Table) (pkt : Packet) : Decidable (t.Refuses cfg pkt) :=
  inferInstanceAs (Decidable (_ → _))

theorem initConntrack_of_dropsNothing (hfull : t.Full cfg)
    (hnothing : t.DropsNothing (t.hashConntrack cfg pkt.tuple)) :
    t.initConntrack cfg pkt =
      if pkt.ratelimit = true then .ok (.err ENOMEM, t) else t.create cfg pkt := by
  obtain ⟨u, hdrop⟩ := hnothing
  rcases earlyDrop_cases hdrop with ⟨_, rfl⟩ | ⟨hfalse, _⟩
  · unfold Table.initConntrack
    rw [if_pos hfull, hdrop, ok_bind]
    simp
  · cases hfalse

theorem create_eq_enomem_iff :
    t.create cfg pkt = .ok (.err ENOMEM, t) ↔
      (invertTuple pkt.protocol pkt.tuple).isSome = true ∧ pkt.alloc = false := by
  unfold Table.create
  split
  · next hinvert => simp [hinvert]
  · next reply hinvert =>
    split
    · next halloc => simp [hinvert, halloc]
    · next halloc =>
      split
      · simp [hinvert, halloc]
      · apply iff_of_false
        · intro h
          obtain ⟨⟨master, u⟩, _, hrest⟩ := bind_eq_ok.mp h
          cases hrest
        · simp [halloc]

theorem limits_iff (hfull : t.Full cfg) : t.Limits cfg pkt ↔ t.Refuses cfg pkt := by
  constructor
  · intro h hnothing
    have hinit := h.refuses hnothing
    rw [initConntrack_of_dropsNothing hfull hnothing] at hinit
    split at hinit
    · next hlimit => exact .inl hlimit
    · exact .inr (create_eq_enomem_iff.mp hinit)
  · intro h
    have hrefuses : t.DropsNothing (t.hashConntrack cfg pkt.tuple) →
        t.initConntrack cfg pkt = .ok (.err ENOMEM, t) := by
      intro hnothing
      rw [initConntrack_of_dropsNothing hfull hnothing]
      split
      · rfl
      · next hlimit => exact create_eq_enomem_iff.mpr ((h hnothing).resolve_left hlimit)
    constructor
    · intro id t' hinit
      have hdrop := hinit
      unfold Table.initConntrack at hdrop
      rw [if_pos hfull] at hdrop
      obtain ⟨⟨dropped, u⟩, hu, _⟩ := bind_eq_ok.mp hdrop
      cases dropped with
      | true => exact ⟨u, hu⟩
      | false =>
        rw [hrefuses ⟨u, hu⟩] at hinit
        cases hinit
    · exact hrefuses

/-! ### Runs -/

/-- When a packet of no connection comes to a full table, the rate limiter
lets a message through if nothing is dropped, and what is dropped has no
other reference. -/
def Table.Keeps (cfg : Config) (t : Table) : Event → Prop
  | .packet pkt => t.find cfg pkt.tuple = .ok none → t.Full cfg →
    t.Refuses cfg pkt ∧ t.unreferenced (t.hashConntrack cfg pkt.tuple) = true
  | _ => True

instance (cfg : Config) (t : Table) (e : Event) : Decidable (t.Keeps cfg e) :=
  match e with
  | .packet _ => inferInstanceAs (Decidable (_ → _))
  | .confirm _ _ | .release _ | .assure _ | .timeout _ | .expect _ _ _ | .expectTimeout _
  | .lists _ _ =>
    .isTrue trivial

/-- The count is right, and within the limit. -/
structure Table.Bounded (cfg : Config) (t : Table) : Prop where
  counted : t.Counted
  le : t.count ≤ cfg.max

theorem Table.Bounded.noMore (h : t.Bounded cfg) (hno : t.NoMore t') : t'.Bounded cfg :=
  ⟨hno.counted, Int.le_trans hno.le h.le⟩

theorem Table.Bounded.initConntrack {r : InitResult} (hmax : 0 < cfg.max) (h : t.Bounded cfg)
    (hkeeps : t.Full cfg →
      t.Refuses cfg pkt ∧ t.unreferenced (t.hashConntrack cfg pkt.tuple) = true)
    (hinit : t.initConntrack cfg pkt = .ok (r, t')) : t'.Bounded cfg := by
  by_cases hfull : t.Full cfg
  · obtain ⟨hrefuses, hfree⟩ := hkeeps hfull
    by_cases hnothing : t.DropsNothing (t.hashConntrack cfg pkt.tuple)
    · rw [((limits_iff hfull).mpr hrefuses).refuses hnothing] at hinit
      cases hinit
      exact h
    · unfold Table.initConntrack at hinit
      rw [if_pos hfull] at hinit
      obtain ⟨⟨dropped, u⟩, hu, hrest⟩ := bind_eq_ok.mp hinit
      obtain ⟨hcounted, _, hlt⟩ := earlyDrop_spec h.counted hu
      cases dropped with
      | false => exact absurd ⟨u, hu⟩ hnothing
      | true =>
        obtain ⟨hcounted', hle⟩ := create_spec hcounted hrest
        have hless := hlt rfl hfree
        have hmost := h.le
        exact ⟨hcounted', by omega⟩
  · have hroom : t.count < cfg.max := by
      by_contra hge
      exact hfull ⟨by omega, by omega⟩
    unfold Table.initConntrack at hinit
    rw [if_neg hfull] at hinit
    obtain ⟨hcounted, hle⟩ := create_spec h.counted hinit
    exact ⟨hcounted, by omega⟩

theorem Table.Bounded.step {e : Event} (hmax : 0 < cfg.max) (h : t.Bounded cfg)
    (hkeeps : t.Keeps cfg e) (hstep : t.step cfg e = .ok t') : t'.Bounded cfg := by
  by_cases hpkt : ∃ pkt, e = .packet pkt
  · obtain ⟨pkt, rfl⟩ := hpkt
    rcases resolveNormalCt_cases h.counted hstep with hno | ⟨hfound, r, hinit⟩
    · exact h.noMore hno
    · exact h.initConntrack hmax (hkeeps hfound) hinit
  · exact h.noMore (step_noMore h.counted (fun pkt he => hpkt ⟨pkt, he⟩) hstep)

theorem empty_bounded (cfg : Config) : Table.empty.Bounded cfg :=
  ⟨empty_counted, Int.natCast_nonneg cfg.max⟩

theorem run_bounded (hmax : 0 < cfg.max) {es : List Event} (h : t.Bounded cfg)
    (hkeeps : Along (Table.step cfg) (Table.Keeps cfg) t es) :
    Always (Table.step cfg) (Table.Bounded cfg) t es := by
  induction es generalizing t with
  | nil => exact h
  | cons e es ih => exact ⟨h, fun u hu => ih (h.step hmax hkeeps.1 hu) (hkeeps.2 u hu)⟩

end

/-- On a full table `init_conntrack` does what is asked of it iff a message
could be printed whenever nothing is dropped, or memory is short; and over
every run in which that is so, and in which no connection is dropped that
has other references, the count stays within the limit. -/
theorem table_limit (cfg : Config) :
    (∀ (t : Table) (pkt : Packet), t.Full cfg → (t.Limits cfg pkt ↔ t.Refuses cfg pkt)) ∧
      (0 < cfg.max → ∀ es, Along (Table.step cfg) (Table.Keeps cfg) .empty es →
        Always (Table.step cfg) (Table.Bounded cfg) .empty es) := by
  constructor
  · intro t pkt hfull
    exact limits_iff hfull
  · intro hmax es hkeeps
    exact run_bounded hmax (empty_bounded cfg) hkeeps

/-- A protocol that swaps the ports. -/
def swapping : Protocol where
  invertTuple inverse orig :=
    some { inverse with srcAll := orig.dstAll.toUInt32, dstAll := orig.srcAll.toUInt64 }
  new := true

/-- A table for one connection. -/
def single : Config := ⟨4, 1, []⟩

/-- A packet of the given protocol number, on which the hash does not depend. -/
def probe (protonum : UInt16) (ratelimit : Bool) : Packet :=
  ⟨⟨0x0a000001, 1024, 0x0a000002, 80, protonum⟩, swapping, true, ratelimit⟩

/-- A connection is confirmed and its packet freed; the next packet drops it
from the table, and a third one is refused. -/
theorem table_limit_single :
    0 < single.max ∧
      Always (Table.step single) (Table.Bounded single) .empty
        [.packet (probe 6 false), .confirm 0 false, .release 0, .packet (probe 17 false),
          .packet (probe 1 true)] :=
  ⟨by decide, (table_limit single).2 (by decide) _ (by decide +kernel)⟩

/-- Where no message can be printed, a second connection is made in a table for
one: nothing was dropped, and the count is beyond the limit. -/
theorem table_limit_exceeded :
    ∃ t, run (Table.step single) .empty [.packet (probe 6 false)] = .ok t ∧ t.Full single ∧
      t.DropsNothing (t.hashConntrack single (probe 17 false).tuple) ∧
      ∃ t', t.initConntrack single (probe 17 false) = .ok (.conntrack 1, t') ∧ t'.count = 2 := by
  exact ⟨_, rfl, by decide, by decide, _, rfl, by decide⟩

/-- **The count is right**: over every run, `ip_conntrack_count` is the number of
the connections that are allocated, and a master is older than what it
expected. -/
theorem run_counted {cfg : Config} {t : Table} {es : List Event}
    (h : run (Table.step cfg) .empty es = .ok t) : t.Counted :=
  run_invariant (fun _ _ _ hcounted hstep => Table.Counted.step hcounted hstep) empty_counted h

theorem run_counted_dropped :
    ∃ t, run (Table.step single) .empty [.packet (probe 6 false), .confirm 0 false, .release 0,
      .packet (probe 17 false)] = .ok t ∧ t.Counted := by
  obtain ⟨t, ht, -⟩ : ∃ t, run (Table.step single) .empty [.packet (probe 6 false),
      .confirm 0 false, .release 0, .packet (probe 17 false)] = .ok t ∧ True := by
    decide +kernel
  exact ⟨t, ht, run_counted ht⟩

end Conntrack
