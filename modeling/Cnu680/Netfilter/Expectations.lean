import Mathlib.Data.List.Count
import Cnu680.Netfilter.Conntrack

/-! # Expectations

The helper of a connection expects other connections because of it. Each
expectation is in the list of its connection, and until a connection
comes for it also in the global list. `expecting` counts those of a
connection that nothing has come for, and the helper may limit them. -/

open Framework Function List

namespace Conntrack

def EPERM : Int := 1
def EBUSY : Int := 16
def EEXIST : Int := 17

/-- What a helper says of its expectations. -/
structure ExpectHelper where
  /-- How many of them a connection may have, or 0. -/
  maxExpected : UInt32
  /-- `IP_CT_HELPER_F_REUSE_EXPECT`. -/
  reuse : Bool
  /-- How long they last, or 0. -/
  timeout : UInt32
  deriving DecidableEq, Repr

/-- What a helper fills in: apart from the tuples, the `len` bytes at `seq` of
the stream because of which it expects something. -/
structure ExpectData where
  tuple : Tuple
  mask : Tuple
  /-- The tuple before it was changed, with protocol 0 if it was not. -/
  ctTuple : Tuple
  seq : UInt32
  len : UInt32
  deriving DecidableEq, Repr

structure Expectation where
  data : ExpectData
  expectant : Nat
  /-- The connection that came for it. -/
  sibling : Option Nat
  /-- The timer is pending. -/
  timer : Bool
  deriving DecidableEq, Repr

/-- The expectations of all connections. Expectations and connections are
known by numbers. -/
structure Expectations where
  exp : Nat → Expectation
  next : Nat
  /-- `ip_conntrack_expect_list`. -/
  global : List Nat
  /-- The `sibling_list` of each connection. -/
  siblings : Nat → List Nat
  expecting : Nat → UInt32
  helper : Nat → Option ExpectHelper
  /-- The connection is in the hash table. -/
  confirmed : Nat → Bool

namespace Expectations

def initial : Expectations where
  exp := fun _ => ⟨⟨⟨0, 0, 0, 0, 0⟩, ⟨0, 0, 0, 0, 0⟩, ⟨0, 0, 0, 0, 0⟩, 0, 0⟩, 0, none, false⟩
  next := 0
  global := []
  siblings := fun _ => []
  expecting := fun _ => 0
  helper := fun _ => none
  confirmed := fun _ => false

def helperOf (s : Expectations) (ct : Nat) : Except Fault ExpectHelper :=
  match s.helper ct with
  | none => .error .dangling
  | some h => .ok h

/-- Nothing has come for the expectation. -/
def unconfirmed (s : Expectations) (id : Nat) : Bool := (s.exp id).sibling.isNone

def setExp (s : Expectations) (id : Nat) (e : Expectation) : Expectations :=
  { s with exp := update s.exp id e }

/-! ### Taking expectations back -/

/-- `__unexpect_related`. -/
def unlink (s : Expectations) (id : Nat) : Expectations :=
  let ct := (s.exp id).expectant
  { s with
    global := s.global.erase id
    siblings := update s.siblings ct ((s.siblings ct).erase id)
    expecting := update s.expecting ct (s.expecting ct - 1) }

/-- `del_timer`. -/
def stopTimer (s : Expectations) (id : Nat) : Expectations :=
  s.setExp id { s.exp id with timer := false }

def unexpectRelated (s : Expectations) (id : Nat) : Except Fault Expectations := do
  let h ← s.helperOf (s.exp id).expectant
  if h.timeout ≠ 0 then
    -- an expectation whose timer is not pending is left to its timer
    if (s.exp id).timer then .ok ((s.stopTimer id).unlink id) else .ok s
  else .ok (s.unlink id)

/-- Delete the expectations of the connection that nothing has come for. -/
def removeExpectations (s : Expectations) (ct : Nat) : Except Fault Expectations :=
  run (fun s id => if s.unconfirmed id then s.unexpectRelated id else .ok s) s (s.siblings ct)

/-! ### `ip_conntrack_expect_related` -/

def resentExpect (tuple mask : Tuple) (i : ExpectData) : Bool :=
  ((i.ctTuple.protonum = 0 ∧ i.tuple = tuple) ∨ (i.ctTuple.protonum ≠ 0 ∧ i.ctTuple = tuple)) ∧
    i.mask = mask

/-- Would two expected things clash? -/
def expectClash (tuple mask : Tuple) (i : ExpectData) : Bool :=
  tupleMaskCmp i.tuple tuple
    ⟨i.mask.srcIp &&& mask.srcIp, i.mask.srcAll &&& mask.srcAll, i.mask.dstIp &&& mask.dstIp,
      i.mask.dstAll &&& mask.dstAll, i.mask.protonum &&& mask.protonum⟩

/-- A new expectation of the connection. -/
def insert (s : Expectations) (ct : Nat) (h : ExpectHelper) (x : ExpectData) : Expectations :=
  { s with
    exp := update s.exp s.next ⟨x, ct, none, h.timeout ≠ 0⟩
    next := s.next + 1
    siblings := update s.siblings ct (s.next :: s.siblings ct)
    global := s.next :: s.global
    expecting := update s.expecting ct (s.expecting ct + 1) }

/-- What the functions that `ip_conntrack_expect_related` calls answer. -/
structure Answers where
  /-- `net_ratelimit`. -/
  ratelimit : Bool
  /-- `kmalloc` finds memory. -/
  alloc : Bool
  deriving DecidableEq, Repr

/-- The end of it, from `kmalloc` on. -/
def allocate (s : Expectations) (ct : Nat) (h : ExpectHelper) (x : ExpectData) (a : Answers)
    (ret : Int) : Int × Expectations :=
  if a.alloc then (ret, s.insert ct h x) else (-(ENOMEM : Int), s)

/-- The expectation that makes room for a new one. -/
def victim (s : Expectations) (ct : Nat) : Option Nat := (s.siblings ct).find? s.unconfirmed

def expectRelated (s : Expectations) (ct : Nat) (x : ExpectData) (a : Answers) :
    Except Fault (Int × Expectations) := do
  let h ← s.helperOf ct
  match s.global.find? fun id => resentExpect x.tuple x.mask (s.exp id).data with
  | some old =>
    if h.timeout ≠ 0 ∧ (s.exp old).timer = false then
      -- the expectation is dying
      .ok (s.allocate ct h x a 0)
    else .ok (-EEXIST, s)
  | none =>
    if h.maxExpected ≠ 0 ∧ h.maxExpected ≤ s.expecting ct then
      -- what is left of the message that the limit is reached guards the test of the flag
      if a.ratelimit ∧ h.reuse = false then .ok (-EPERM, s)
      else
        match s.victim ct with
        | none => .error .dangling
        | some old =>
          let s ← s.unexpectRelated old
          .ok (s.allocate ct h x a (-EPERM))
    else if s.global.any fun id => expectClash x.tuple x.mask (s.exp id).data then
      .ok (-EBUSY, s)
    else .ok (s.allocate ct h x a 0)

/-! ### The other events -/

/-- Connection `child` has come for the expectation. -/
def welcome (s : Expectations) (id child : Nat) : Expectations :=
  let ct := (s.exp id).expectant
  { s.setExp id { s.exp id with sibling := some child } with
    global := s.global.erase id
    expecting := update s.expecting ct (s.expecting ct - 1) }

/-- The part of `init_conntrack` that looks for an expectation of the tuple of
a new connection. -/
def arrive (s : Expectations) (tuple : Tuple) (child : Nat) : Except Fault Expectations :=
  match s.global.find? fun id => tupleMaskCmp tuple (s.exp id).data.tuple (s.exp id).data.mask with
  | none => .ok s
  | some id => do
    let h ← s.helperOf (s.exp id).expectant
    if h.timeout ≠ 0 ∧ (s.exp id).timer = false then .ok s
    else
      -- the timer is stopped also if the connection is not confirmed
      let s := if h.timeout ≠ 0 then s.stopTimer id else s
      .ok (if s.confirmed (s.exp id).expectant then s.welcome id child else s)

/-- The end of `destroy_conntrack` for a connection that was expected. -/
def destroySibling (s : Expectations) (id : Nat) : Expectations :=
  let ct := (s.exp id).expectant
  { s with siblings := update s.siblings ct ((s.siblings ct).erase id) }

/-- `ip_conntrack_change_expect`, with what it returns. -/
def changeExpect (s : Expectations) (id : Nat) (newtuple : Tuple) : Int × Expectations :=
  let x := (s.exp id).data
  if x.ctTuple.protonum = 0 then
    if tupleMaskCmp x.tuple newtuple x.mask = false ∧
        s.global.any (fun id => expectClash newtuple x.mask (s.exp id).data) then (-1, s)
    else
      (0, s.setExp id { s.exp id with data := { x with ctTuple := x.tuple, tuple := newtuple } })
  else if x.tuple = newtuple then (0, s)
  else (-1, s)

inductive Event where
  /-- A connection is allocated, with the helper for it. -/
  | create (ct : Nat) (h : Option ExpectHelper)
  /-- The helper is chosen again, after the reply tuple or by an expectation. -/
  | alter (ct : Nat) (h : Option ExpectHelper)
  /-- Its first packet goes out. -/
  | confirm (ct : Nat)
  | related (ct : Nat) (x : ExpectData) (a : Answers)
  | change (id : Nat) (newtuple : Tuple)
  | arrive (tuple : Tuple) (child : Nat)
  /-- The timer of an expectation goes off. -/
  | expire (id : Nat)
  | unexpect (id : Nat)
  /-- The connection leaves the hash table. -/
  | remove (ct : Nat)
  /-- The helper of the connection is taken away. -/
  | unhelp (ct : Nat)
  /-- The connection that came for an expectation is freed. -/
  | destroy (id : Nat)
  deriving DecidableEq, Repr

/-- One step. What cannot happen in a state does nothing. -/
def step (s : Expectations) : Event → Except Fault Expectations
  | .create ct h =>
    .ok (if s.siblings ct = [] then
      { s with
        helper := update s.helper ct h
        confirmed := update s.confirmed ct false
        expecting := update s.expecting ct 0 }
    else s)
  | .alter ct h => .ok { s with helper := update s.helper ct h }
  | .confirm ct => .ok { s with confirmed := update s.confirmed ct true }
  | .related ct x a =>
    if s.helper ct = none then .ok s else (s.expectRelated ct x a).map Prod.snd
  | .change id newtuple => .ok (if id ∈ s.global then (s.changeExpect id newtuple).2 else s)
  | .arrive tuple child => s.arrive tuple child
  | .expire id =>
    .ok (if id ∈ s.global ∧ (s.exp id).timer then (s.stopTimer id).unlink id else s)
  | .unexpect id => if id ∈ s.global then s.unexpectRelated id else .ok s
  | .remove ct => do
    let s ← s.removeExpectations ct
    .ok { s with confirmed := update s.confirmed ct false }
  | .unhelp ct => do
    let s ← s.removeExpectations ct
    .ok { s with helper := update s.helper ct none }
  | .destroy id =>
    .ok (if id ∈ s.siblings (s.exp id).expectant ∧ s.unconfirmed id = false then
      s.destroySibling id else s)

/-! ### The invariant -/

/-- How many expectations of the connection nothing has come for. -/
def pending (s : Expectations) (ct : Nat) : Nat := (s.siblings ct).countP s.unconfirmed

/-- Each list has what belongs there, once, and `expecting` is the number of
expectations that nothing has come for, as far as 32 bits go. -/
structure Inv (s : Expectations) : Prop where
  nodup : ∀ ct, (s.siblings ct).Nodup
  nodup_global : s.global.Nodup
  owner : ∀ {ct id}, id ∈ s.siblings ct → (s.exp id).expectant = ct
  mem_global : ∀ {id}, id ∈ s.global ↔
    id ∈ s.siblings (s.exp id).expectant ∧ s.unconfirmed id = true
  expecting : ∀ ct, s.expecting ct = UInt32.ofNat (s.pending ct)
  fresh : ∀ {ct id}, id ∈ s.siblings ct → id < s.next

theorem inv_initial : initial.Inv where
  nodup := fun _ => nodup_nil
  nodup_global := nodup_nil
  owner := fun h => absurd h not_mem_nil
  mem_global := iff_of_false not_mem_nil fun h => absurd h.1 not_mem_nil
  expecting := fun _ => rfl
  fresh := fun h => absurd h not_mem_nil

theorem ofNat_sub_one {n : Nat} (h : 0 < n) : UInt32.ofNat n - 1 = UInt32.ofNat (n - 1) := by
  obtain ⟨k, rfl⟩ := Nat.exists_eq_succ_of_ne_zero (Nat.ne_of_gt h)
  rw [Nat.succ_eq_add_one, Nat.add_sub_cancel, UInt32.ofNat_add]
  exact UInt32.add_sub_cancel _ _

section
variable {s t u : Expectations} {id ct : Nat} {j : Nat} {hh : ExpectHelper} {x : ExpectData}
  {f : Nat → List Nat}

theorem Inv.mem_global_of_unconfirmed (h : s.Inv) (hmem : id ∈ s.siblings ct)
    (hunc : s.unconfirmed id = true) : id ∈ s.global := by
  rw [h.mem_global, h.owner hmem]
  exact ⟨hmem, hunc⟩

theorem Inv.expecting_less (h : s.Inv) (hid : id ∈ s.global) (ct : Nat) :
    update s.expecting (s.exp id).expectant (s.expecting (s.exp id).expectant - 1) ct =
      UInt32.ofNat (s.pending ct - if ct = (s.exp id).expectant then 1 else 0) := by
  by_cases hct : ct = (s.exp id).expectant
  · have hpos : 0 < s.pending ct := countP_pos_iff.mpr ⟨id, hct ▸ h.mem_global.mp hid⟩
    rw [← hct, update_self, if_pos rfl, h.expecting, ofNat_sub_one hpos]
  · rw [update_of_ne hct, if_neg hct]
    exact h.expecting ct

/-- Nothing new is expected in `t`. -/
structure Fewer (s t : Expectations) : Prop where
  helper : t.helper = s.helper
  pending : ∀ ct, t.pending ct ≤ s.pending ct

theorem Fewer.refl (s : Expectations) : Fewer s s := ⟨rfl, fun _ => Nat.le_refl _⟩

theorem Fewer.trans (h₁ : Fewer s t) (h₂ : Fewer t u) : Fewer s u :=
  ⟨h₂.helper.trans h₁.helper, fun ct => Nat.le_trans (h₂.pending ct) (h₁.pending ct)⟩

theorem unconfirmed_congr (h : t.exp j = s.exp j) : t.unconfirmed j = s.unconfirmed j := by
  unfold unconfirmed
  rw [h]

theorem exp_setExp_self (e : Expectation) : (s.setExp id e).exp id = e := update_self ..

theorem exp_setExp_ne (hj : j ≠ id) (e : Expectation) :
    (s.setExp id e).exp j = s.exp j := update_of_ne hj ..

theorem unconfirmed_setExp {e : Expectation} (hsib : e.sibling = (s.exp id).sibling) :
    (s.setExp id e).unconfirmed = s.unconfirmed := by
  funext j
  by_cases hj : j = id
  · unfold unconfirmed
    rw [hj, exp_setExp_self, hsib]
  · exact unconfirmed_congr (exp_setExp_ne hj e)

theorem Inv.setExp {e : Expectation} (h : s.Inv) (hct : e.expectant = (s.exp id).expectant)
    (hsib : e.sibling = (s.exp id).sibling) : (s.setExp id e).Inv ∧ Fewer s (s.setExp id e) := by
  have hexp : ∀ j, ((s.setExp id e).exp j).expectant = (s.exp j).expectant := by
    intro j
    by_cases hj : j = id
    · rw [hj, exp_setExp_self, hct]
    · rw [exp_setExp_ne hj]
  have hunc := unconfirmed_setExp hsib
  have hpending : ∀ ct, (s.setExp id e).pending ct = s.pending ct := by
    intro ct
    unfold pending
    rw [hunc]
    rfl
  refine ⟨⟨h.nodup, h.nodup_global, fun hmem => (hexp _).trans (h.owner hmem), ?_, ?_, h.fresh⟩,
    rfl, fun ct => Nat.le_of_eq (hpending ct)⟩
  · intro j
    rw [hexp, hunc]
    exact h.mem_global
  · intro ct
    rw [hpending]
    exact h.expecting ct

theorem helperOf_eq_ok : s.helperOf ct = .ok hh ↔ s.helper ct = some hh := by
  unfold helperOf
  cases s.helper ct <;> simp

theorem Inv.stopTimer (h : s.Inv) (id : Nat) :
    (s.stopTimer id).Inv ∧ Fewer s (s.stopTimer id) := h.setExp rfl rfl

theorem update_erase_apply (f : Nat → List Nat) (c id ct : Nat) :
    update f c ((f c).erase id) ct = if ct = c then (f ct).erase id else f ct := by
  rw [update_apply]
  split
  · next hct => rw [hct]
  · rfl

theorem mem_of_mem_update_erase {c id ct j : Nat}
    (h : j ∈ update f c ((f c).erase id) ct) : j ∈ f ct := by
  rw [update_erase_apply] at h
  split at h
  · exact mem_of_mem_erase h
  · exact h

theorem nodup_update_erase {c id ct : Nat} (h : (f ct).Nodup) :
    (update f c ((f c).erase id) ct).Nodup := by
  rw [update_erase_apply]
  split
  · exact h.erase id
  · exact h

theorem Inv.mem_erase (h : s.Inv) (id j : Nat) :
    j ∈ update s.siblings (s.exp id).expectant ((s.siblings (s.exp id).expectant).erase id)
        (s.exp j).expectant ↔ j ≠ id ∧ j ∈ s.siblings (s.exp j).expectant := by
  rw [update_erase_apply]
  split
  · exact (h.nodup _).mem_erase_iff
  · next hne => exact (and_iff_right fun hj => hne (by rw [hj])).symm

theorem Inv.pending_unlink (h : s.Inv) (hid : id ∈ s.global) (ct : Nat) :
    (s.unlink id).pending ct = s.pending ct - if ct = (s.exp id).expectant then 1 else 0 := by
  show (update s.siblings _ _ ct).countP s.unconfirmed = _
  rw [update_erase_apply]
  split
  · next hct =>
    rw [hct, countP_erase, if_pos (h.mem_global.mp hid)]
    rfl
  · rfl

theorem Inv.unlink (h : s.Inv) (hid : id ∈ s.global) :
    (s.unlink id).Inv ∧ Fewer s (s.unlink id) := by
  refine ⟨⟨fun ct => nodup_update_erase (h.nodup ct), h.nodup_global.erase id,
    fun hj => h.owner (mem_of_mem_update_erase hj), ?_, fun ct => ?_,
    fun hj => h.fresh (mem_of_mem_update_erase hj)⟩, rfl, fun ct => ?_⟩
  · intro j
    show j ∈ s.global.erase id ↔ j ∈ update s.siblings _ _ (s.exp j).expectant ∧ _
    rw [h.nodup_global.mem_erase_iff, h.mem_global, h.mem_erase, and_assoc]
    rfl
  · rw [h.pending_unlink hid]
    exact h.expecting_less hid ct
  · rw [h.pending_unlink hid]
    exact Nat.sub_le ..

theorem Inv.unlink_stopTimer (h : s.Inv) (hid : id ∈ s.global) :
    ((s.stopTimer id).unlink id).Inv ∧ Fewer s ((s.stopTimer id).unlink id) := by
  have hstop := h.stopTimer id
  have hunlink := hstop.1.unlink hid
  exact ⟨hunlink.1, hstop.2.trans hunlink.2⟩

theorem unexpectRelated_ok (hok : s.unexpectRelated id = .ok t) :
    t = s ∨ ∃ v, (v = s ∨ v = s.stopTimer id) ∧ t = v.unlink id := by
  unfold unexpectRelated at hok
  obtain ⟨hh, -, hok⟩ := bind_eq_ok.mp hok
  split at hok
  · split at hok
    · cases hok
      exact .inr ⟨_, .inr rfl, rfl⟩
    · cases hok
      exact .inl rfl
  · cases hok
    exact .inr ⟨s, .inl rfl, rfl⟩

theorem Inv.unexpectRelated (h : s.Inv) (hid : id ∈ s.global)
    (hok : s.unexpectRelated id = .ok t) : t.Inv ∧ Fewer s t := by
  rcases unexpectRelated_ok hok with rfl | ⟨v, rfl | rfl, rfl⟩
  · exact ⟨h, .refl t⟩
  · exact h.unlink hid
  · exact h.unlink_stopTimer hid

theorem Inv.next_not_mem (h : s.Inv) (ct : Nat) : s.next ∉ s.siblings ct :=
  fun hmem => Nat.lt_irrefl _ (h.fresh hmem)

theorem Inv.next_not_global (h : s.Inv) : s.next ∉ s.global :=
  fun hmem => Nat.lt_irrefl _ (h.fresh (h.mem_global.mp hmem).1)

theorem siblings_insert (ct' : Nat) :
    (s.insert ct hh x).siblings ct' =
      if ct' = ct then s.next :: s.siblings ct' else s.siblings ct' := by
  show update s.siblings _ _ ct' = _
  rw [update_apply]
  split
  · next hct => rw [hct]
  · rfl

theorem exp_insert_self (ct : Nat) (hh : ExpectHelper) (x : ExpectData) :
    (s.insert ct hh x).exp s.next = ⟨x, ct, none, hh.timeout ≠ 0⟩ := update_self ..

theorem exp_insert_ne (hj : j ≠ s.next) :
    (s.insert ct hh x).exp j = s.exp j := update_of_ne hj ..

theorem unconfirmed_insert_self (ct : Nat) (hh : ExpectHelper) (x : ExpectData) :
    (s.insert ct hh x).unconfirmed s.next = true := by
  unfold unconfirmed
  rw [exp_insert_self]
  rfl

theorem Inv.owner_insert {ct' j : Nat} (h : s.Inv) (hj : j ∈ (s.insert ct hh x).siblings ct') :
    ((s.insert ct hh x).exp j).expectant = ct' := by
  rw [siblings_insert] at hj
  by_cases hjn : j = s.next
  · subst hjn
    rw [exp_insert_self]
    split at hj
    · next hct => exact hct.symm
    · exact absurd hj (h.next_not_mem ct')
  · rw [exp_insert_ne hjn]
    split at hj
    · exact h.owner ((mem_cons.mp hj).resolve_left hjn)
    · exact h.owner hj

theorem Inv.mem_global_insert (h : s.Inv) :
    j ∈ (s.insert ct hh x).global ↔
      j ∈ (s.insert ct hh x).siblings ((s.insert ct hh x).exp j).expectant ∧
        (s.insert ct hh x).unconfirmed j = true := by
  show j ∈ s.next :: s.global ↔ _
  rw [siblings_insert]
  by_cases hjn : j = s.next
  · subst hjn
    rw [exp_insert_self, unconfirmed_insert_self, if_pos rfl]
    exact iff_of_true mem_cons_self ⟨mem_cons_self, rfl⟩
  · rw [unconfirmed_congr (exp_insert_ne hjn), exp_insert_ne hjn, mem_cons, or_iff_right hjn,
      h.mem_global]
    split
    · rw [mem_cons, or_iff_right hjn]
    · exact Iff.rfl

theorem Inv.pending_insert (h : s.Inv) (ct' : Nat) :
    (s.insert ct hh x).pending ct' = s.pending ct' + if ct' = ct then 1 else 0 := by
  -- those that were there count as before
  have hcount : (s.siblings ct').countP (s.insert ct hh x).unconfirmed = s.pending ct' := by
    refine countP_congr fun j hj => ?_
    rw [unconfirmed_congr (exp_insert_ne (Nat.ne_of_lt (h.fresh hj)))]
  unfold pending
  rw [siblings_insert]
  split
  · rw [countP_cons_of_pos (unconfirmed_insert_self ..), hcount]
    rfl
  · exact hcount

theorem Inv.expecting_insert (h : s.Inv) (ct' : Nat) :
    (s.insert ct hh x).expecting ct' = UInt32.ofNat ((s.insert ct hh x).pending ct') := by
  show update s.expecting _ _ ct' = _
  rw [h.pending_insert]
  by_cases hct : ct' = ct
  · subst hct
    rw [update_self, if_pos rfl, UInt32.ofNat_add, h.expecting]
    rfl
  · rw [update_of_ne hct, if_neg hct]
    exact h.expecting ct'

theorem Inv.insert (h : s.Inv) (ct : Nat) (hh : ExpectHelper) (x : ExpectData) :
    (s.insert ct hh x).Inv := by
  refine ⟨fun ct' => ?_, ?_, h.owner_insert, h.mem_global_insert, h.expecting_insert, ?_⟩
  · rw [siblings_insert]
    split
    · exact nodup_cons.mpr ⟨h.next_not_mem ct', h.nodup ct'⟩
    · exact h.nodup ct'
  · exact nodup_cons.mpr ⟨h.next_not_global, h.nodup_global⟩
  · intro ct' j hj
    rw [siblings_insert] at hj
    show j < s.next + 1
    split at hj
    · rcases mem_cons.mp hj with rfl | hj
      · exact Nat.lt_succ_self _
      · exact Nat.lt_succ_of_lt (h.fresh hj)
    · exact Nat.lt_succ_of_lt (h.fresh hj)

/-- The limits, said of the number of expectations. -/
def Limited (s : Expectations) : Prop :=
  ∀ ct h, s.helper ct = some h → h.maxExpected ≠ 0 → s.pending ct ≤ h.maxExpected.toNat

theorem Fewer.limited (hf : Fewer s t) (hlim : s.Limited) : t.Limited :=
  fun ct h hhelper hmax => Nat.le_trans (hf.pending ct) (hlim ct h (hf.helper ▸ hhelper) hmax)

theorem allocate_cases {h : ExpectHelper} {a : Answers} {r ret : Int}
    (hok : (Except.ok (u.allocate ct h x a r) : Except Fault _) = .ok (ret, t)) :
    a.alloc = true ∧ ret = r ∧ t = u.insert ct h x ∨
      a.alloc = false ∧ ret = -(ENOMEM : Int) ∧ t = u := by
  have hpair := Except.ok.inj hok
  unfold allocate at hpair
  split at hpair
  · next halloc =>
    cases hpair
    exact .inl ⟨halloc, rfl, rfl⟩
  · next halloc =>
    cases hpair
    exact .inr ⟨Bool.eq_false_iff.mpr halloc, rfl, rfl⟩

/-- Memory for an expectation: one more is within the limits if there is room. -/
theorem Inv.allocate {a : Answers} {r ret : Int} (h : s.Inv)
    (hok : (Except.ok (s.allocate ct hh x a r) : Except Fault _) = .ok (ret, t)) :
    t.Inv ∧ (s.Limited → (a.alloc = true → ∀ h, s.helper ct = some h → h.maxExpected ≠ 0 →
      s.pending ct < h.maxExpected.toNat) → t.Limited) := by
  rcases allocate_cases hok with ⟨halloc, -, rfl⟩ | ⟨-, -, rfl⟩
  · refine ⟨h.insert ct hh x, fun hlim hroom ct' h' hhelper hmax => ?_⟩
    rw [h.pending_insert]
    split
    · next heq =>
      subst heq
      exact hroom halloc h' hhelper hmax
    · exact hlim ct' h' hhelper hmax
  · exact ⟨h, fun hlim _ => hlim⟩

theorem exp_welcome_self (id child : Nat) :
    (s.welcome id child).exp id = { s.exp id with sibling := some child } := exp_setExp_self _

theorem exp_welcome_ne {j child : Nat} (hj : j ≠ id) :
    (s.welcome id child).exp j = s.exp j := exp_setExp_ne hj _

theorem unconfirmed_welcome_self (id child : Nat) :
    (s.welcome id child).unconfirmed id = false := by
  unfold unconfirmed
  rw [exp_welcome_self]
  rfl

theorem expectant_welcome (id child j : Nat) :
    ((s.welcome id child).exp j).expectant = (s.exp j).expectant := by
  by_cases hj : j = id
  · rw [hj, exp_welcome_self]
  · rw [exp_welcome_ne hj]

theorem Inv.pending_welcome (h : s.Inv) (hid : id ∈ s.global) (child ct : Nat) :
    (s.welcome id child).pending ct =
      s.pending ct - if ct = (s.exp id).expectant then 1 else 0 := by
  obtain ⟨hmem, hunc⟩ := h.mem_global.mp hid
  -- all the others count as before
  have hsame : ∀ l : List Nat, id ∉ l →
      l.countP (s.welcome id child).unconfirmed = l.countP s.unconfirmed := by
    intro l hl
    refine countP_congr fun j hj => ?_
    rw [unconfirmed_congr (exp_welcome_ne (ne_of_mem_of_not_mem hj hl))]
  show (s.siblings ct).countP _ = _
  split
  · next hct =>
    subst hct
    rw [(perm_cons_erase hmem).countP_eq (s.welcome id child).unconfirmed,
      countP_cons_of_neg (by simp [unconfirmed_welcome_self]), hsame _ (h.nodup _).not_mem_erase,
      countP_erase, if_pos ⟨hmem, hunc⟩]
    rfl
  · next hct => exact hsame _ fun hin => hct (h.owner hin).symm

theorem Inv.welcome (h : s.Inv) (hid : id ∈ s.global) (child : Nat) : (s.welcome id child).Inv := by
  refine ⟨h.nodup, h.nodup_global.erase id, fun hj => (expectant_welcome ..).trans (h.owner hj),
    ?_, fun ct => ?_, h.fresh⟩
  on_goal 2 => exact (h.expecting_less hid ct).trans (by rw [h.pending_welcome hid])
  intro j
  show j ∈ s.global.erase id ↔ j ∈ s.siblings _ ∧ _
  rw [h.nodup_global.mem_erase_iff, expectant_welcome]
  by_cases hj : j = id
  · subst hj
    rw [unconfirmed_welcome_self]
    exact iff_of_false (fun hne => hne.1 rfl) fun hf => Bool.false_ne_true hf.2
  · rw [unconfirmed_congr (exp_welcome_ne hj), and_iff_right hj]
    exact h.mem_global

theorem Inv.arrive {tuple : Tuple} {child : Nat} (h : s.Inv)
    (hok : s.arrive tuple child = .ok t) : t.Inv ∧ Fewer s t := by
  unfold Expectations.arrive at hok
  split at hok
  · cases hok
    exact ⟨h, .refl s⟩
  · next id hfind =>
    have hid : id ∈ s.global := mem_of_find?_eq_some hfind
    obtain ⟨hh, -, hok⟩ := bind_eq_ok.mp hok
    split at hok
    · cases hok
      exact ⟨h, .refl s⟩
    · cases hok
      have hstopped : ∃ v, (if hh.timeout ≠ 0 then s.stopTimer id else s) = v ∧ v.Inv ∧
          Fewer s v ∧ id ∈ v.global := by
        split
        · exact ⟨_, rfl, (h.stopTimer id).1, (h.stopTimer id).2, hid⟩
        · exact ⟨_, rfl, h, .refl s, hid⟩
      obtain ⟨v, hv, hinv, hfewer, hid⟩ := hstopped
      rw [hv]
      split
      · refine ⟨hinv.welcome hid child, hfewer.trans ⟨rfl, fun ct => ?_⟩⟩
        rw [hinv.pending_welcome hid]
        exact Nat.sub_le ..
      · exact ⟨hinv, hfewer⟩

theorem pending_destroySibling (hconf : s.unconfirmed id = false) (ct : Nat) :
    (s.destroySibling id).pending ct = s.pending ct := by
  show (update s.siblings _ _ ct).countP s.unconfirmed = _
  rw [update_erase_apply]
  split
  · rw [countP_erase, if_neg fun hand => Bool.false_ne_true (hconf.symm.trans hand.2)]
    rfl
  · rfl

theorem Inv.destroySibling (h : s.Inv) (hconf : s.unconfirmed id = false) :
    (s.destroySibling id).Inv := by
  refine ⟨fun ct => nodup_update_erase (h.nodup ct), h.nodup_global,
    fun hj => h.owner (mem_of_mem_update_erase hj), ?_, fun ct => ?_,
    fun hj => h.fresh (mem_of_mem_update_erase hj)⟩
  · intro j
    show j ∈ s.global ↔ j ∈ update s.siblings _ _ (s.exp j).expectant ∧ _
    rw [h.mem_global, h.mem_erase]
    refine and_congr_left fun hunc => (and_iff_right ?_).symm
    rintro rfl
    exact Bool.false_ne_true (hconf.symm.trans hunc)
  · exact (h.expecting ct).trans (by rw [pending_destroySibling hconf])

theorem Inv.changeExpect (h : s.Inv) (id : Nat) (newtuple : Tuple) :
    (s.changeExpect id newtuple).2.Inv ∧ Fewer s (s.changeExpect id newtuple).2 := by
  unfold Expectations.changeExpect
  dsimp only
  split
  · split
    · exact ⟨h, .refl s⟩
    · exact h.setExp rfl rfl
  · split <;> exact ⟨h, .refl s⟩

/-- The siblings that a removal has still to go through are left alone by
what it has done. -/
theorem siblings_unexpectRelated (hj : j ≠ id) (hok : s.unexpectRelated id = .ok t)
    (hmem : j ∈ s.siblings ct) : j ∈ t.siblings ct := by
  rcases unexpectRelated_ok hok with rfl | ⟨v, hv, rfl⟩
  · exact hmem
  have hsib : v.siblings = s.siblings := by rcases hv with rfl | rfl <;> rfl
  show j ∈ update v.siblings _ _ ct
  rw [update_erase_apply, hsib]
  split
  · exact (mem_erase_of_ne hj).mpr hmem
  · exact hmem

theorem Inv.removeFrom {ids : List Nat} (h : s.Inv) (hnodup : ids.Nodup)
    (hmem : ∀ id ∈ ids, id ∈ s.siblings ct)
    (hok : run (fun s id => if s.unconfirmed id then s.unexpectRelated id else .ok s) s ids =
      .ok t) : t.Inv ∧ Fewer s t := by
  induction ids generalizing s with
  | nil =>
    cases hok
    exact ⟨h, .refl _⟩
  | cons id ids ih =>
    obtain ⟨hid, hnodup⟩ := nodup_cons.mp hnodup
    obtain ⟨u, hu, hok⟩ := bind_eq_ok.mp hok
    have hin : id ∈ s.siblings ct := hmem id mem_cons_self
    have hrest : ∀ j ∈ ids, j ∈ s.siblings ct := fun j hj => hmem j (mem_cons_of_mem id hj)
    dsimp only at hu
    split at hu
    · next hunc =>
      have hglobal : id ∈ s.global := h.mem_global_of_unconfirmed hin hunc
      have hone := h.unexpectRelated hglobal hu
      have hall := ih hone.1 hnodup (fun j hj => siblings_unexpectRelated
        (ne_of_mem_of_not_mem hj hid) hu (hrest j hj)) hok
      exact ⟨hall.1, hone.2.trans hall.2⟩
    · cases hu
      exact ih h hnodup hrest hok

theorem Inv.removeExpectations (h : s.Inv) (hok : s.removeExpectations ct = .ok t) :
    t.Inv ∧ Fewer s t :=
  h.removeFrom (h.nodup ct) (fun _ hid => hid) hok

end

/-! ### The limit -/

/-- What the limit of the helper of a connection that has reached it means
for a new expectation. Without `IP_CT_HELPER_F_REUSE_EXPECT` it is
refused, and nothing changes. With it, it takes the place of one that
nothing has come for. -/
structure RespectsLimit (s : Expectations) (ct : Nat) (h : ExpectHelper) (x : ExpectData)
    (a : Answers) : Prop where
  refused : h.reuse = false →
    ∃ t, s.expectRelated ct x a = .ok (-EPERM, t) ∧ t.global = s.global ∧
      t.siblings = s.siblings ∧ t.expecting = s.expecting
  replaced : h.reuse = true →
    ∃ ret t old, s.expectRelated ct x a = .ok (ret, t) ∧ old ∈ s.siblings ct ∧
      s.unconfirmed old = true ∧ t.global = s.next :: s.global.erase old ∧
      t.siblings = update s.siblings ct (s.next :: (s.siblings ct).erase old) ∧
      (t.exp s.next).data = x ∧ t.unconfirmed s.next = true ∧ t.expecting = s.expecting

/-- For every connection whose helper sets a limit, `expecting` is the number
of expectations that nothing has come for, and within the limit. -/
def WithinLimits (s : Expectations) : Prop :=
  ∀ ct h, s.helper ct = some h → h.maxExpected ≠ 0 →
    (s.expecting ct).toNat = s.pending ct ∧ s.expecting ct ≤ h.maxExpected

/-- An expectation is let in without a look at the limit, since the one it
repeats is dying; or at the limit, where the one to be replaced is left to
its timer. -/
def LetIn (s : Expectations) (ct : Nat) (h : ExpectHelper) (x : ExpectData) (a : Answers) :
    Prop :=
  a.alloc = true ∧ h.timeout ≠ 0 ∧
    match s.global.find? fun id => resentExpect x.tuple x.mask (s.exp id).data with
    | some old => (s.exp old).timer = false
    | none => h.maxExpected ≤ s.expecting ct ∧ (a.ratelimit = true → h.reuse = true) ∧
      ∃ old, s.victim ct = some old ∧ (s.exp old).timer = false

/-- What keeps it so: one that is let in finds room, and a new helper allows
what is expected already. -/
def Admits (s : Expectations) : Event → Prop
  | .related ct x a => ∀ h, s.helper ct = some h → h.maxExpected ≠ 0 → s.LetIn ct h x a →
    s.pending ct < h.maxExpected.toNat
  | .alter ct h => ∀ hh, h = some hh → hh.maxExpected ≠ 0 → s.pending ct ≤ hh.maxExpected.toNat
  | _ => True

section
variable {s t u : Expectations} {ct : Nat} {h : ExpectHelper} {x : ExpectData} {a : Answers}
  {old : Nat}

/-- A connection that has reached its limit has an expectation that nothing
has come for. -/
theorem Inv.exists_victim (hinv : s.Inv) (hmax : h.maxExpected ≠ 0)
    (hfull : h.maxExpected ≤ s.expecting ct) : ∃ old, s.victim ct = some old := by
  have hpos : s.pending ct ≠ 0 := by
    intro hzero
    rw [hinv.expecting, hzero] at hfull
    exact hmax (UInt32.le_zero_iff.mp hfull)
  obtain ⟨id, hid, hunc⟩ := countP_pos_iff.mp (Nat.pos_of_ne_zero hpos)
  exact Option.isSome_iff_exists.mp (List.find?_isSome.mpr ⟨id, hid, hunc⟩)

/-- The expectation is out of the lists. -/
structure Evicted (s u : Expectations) (ct old : Nat) : Prop where
  next : u.next = s.next
  global : u.global = s.global.erase old
  siblings : u.siblings = update s.siblings ct ((s.siblings ct).erase old)
  expecting : u.expecting = update s.expecting ct (s.expecting ct - 1)
  unconfirmed : u.unconfirmed = s.unconfirmed

theorem unlink_evicted {u : Expectations} (hct : (s.exp old).expectant = ct)
    (hexp : (u.exp old).expectant = (s.exp old).expectant) (hnext : u.next = s.next)
    (hglobal : u.global = s.global) (hsib : u.siblings = s.siblings)
    (hcount : u.expecting = s.expecting) (hunc : u.unconfirmed = s.unconfirmed) :
    Evicted s (u.unlink old) ct old := by
  refine ⟨hnext, ?_, ?_, ?_, hunc⟩
  · exact congrArg (List.erase · old) hglobal
  · show update u.siblings _ _ = _
    rw [hexp, hct, hsib]
  · show update u.expecting _ _ = _
    rw [hexp, hct, hcount]

/-- The victim is taken back, unless its timer should be pending and is not. -/
theorem unexpectRelated_cases (hhelper : s.helper ct = some h) (hct : (s.exp old).expectant = ct) :
    (h.timeout ≠ 0 ∧ (s.exp old).timer = false ∧ s.unexpectRelated old = .ok s) ∨
      ((h.timeout = 0 ∨ (s.exp old).timer = true) ∧
        ∃ u, s.unexpectRelated old = .ok u ∧ Evicted s u ct old) := by
  have hof : s.helperOf (s.exp old).expectant = .ok h := helperOf_eq_ok.mpr (hct ▸ hhelper)
  unfold unexpectRelated
  rw [hof, ok_bind]
  split
  · next htimeout =>
    split
    · next htimer =>
      refine .inr ⟨.inr htimer, _, rfl, unlink_evicted hct ?_ rfl rfl rfl rfl
        (unconfirmed_setExp rfl)⟩
      rw [stopTimer, exp_setExp_self]
    · next htimer => exact .inl ⟨htimeout, Bool.eq_false_iff.mpr htimer, rfl⟩
  · next htimeout =>
    exact .inr ⟨.inl (Classical.not_not.mp htimeout), _, rfl,
      unlink_evicted hct rfl rfl rfl rfl rfl rfl⟩

theorem Evicted.pending_lt (hev : Evicted s u ct old) (hmem : old ∈ s.siblings ct)
    (hunc : s.unconfirmed old = true) : u.pending ct < s.pending ct := by
  have hpos : 0 < s.pending ct := countP_pos_iff.mpr ⟨old, hmem, hunc⟩
  rw [pending, hev.siblings, update_self, hev.unconfirmed, countP_erase, if_pos ⟨hmem, hunc⟩]
  exact Nat.sub_lt hpos Nat.one_pos

theorem Inv.expecting_toNat (hinv : s.Inv) (hle : s.pending ct ≤ h.maxExpected.toNat) :
    (s.expecting ct).toNat = s.pending ct := by
  rw [hinv.expecting]
  exact UInt32.toNat_ofNat_of_lt' (Nat.lt_of_le_of_lt hle h.maxExpected.toNat_lt)

theorem Inv.withinLimits (hinv : s.Inv) (hlim : s.Limited) : s.WithinLimits := by
  intro ct h hhelper hmax
  have hle := hlim ct h hhelper hmax
  have heq := hinv.expecting_toNat hle
  exact ⟨heq, UInt32.le_iff_toNat_le.mpr (heq ▸ hle)⟩

theorem Inv.expectRelated {ret : Int} (hinv : s.Inv) (hok : s.expectRelated ct x a = .ok (ret, t)) :
    t.Inv ∧ (s.Limited → s.Admits (.related ct x a) → t.Limited) := by
  have hsame : s.Inv ∧ (s.Limited → s.Admits (.related ct x a) → s.Limited) :=
    ⟨hinv, fun hlim _ => hlim⟩
  unfold Expectations.expectRelated at hok
  obtain ⟨h, hof, hok⟩ := bind_eq_ok.mp hok
  have hhelper := helperOf_eq_ok.mp hof
  have hlet : ∀ {r : Int}, (a.alloc = true → s.LetIn ct h x a) →
      (Except.ok (s.allocate ct h x a r) : Except Fault _) = .ok (ret, t) →
      t.Inv ∧ (s.Limited → s.Admits (.related ct x a) → t.Limited) := by
    intro r hin hok
    obtain ⟨ht, hlimited⟩ := hinv.allocate hok
    refine ⟨ht, fun hlim hadm => hlimited hlim fun halloc h' hh' hmax => ?_⟩
    cases hhelper.symm.trans hh'
    exact hadm h hhelper hmax (hin halloc)
  split at hok
  · next old hfind =>
    split at hok
    · next hdying =>
      exact hlet (fun halloc => ⟨halloc, hdying.1, by rw [hfind]; exact hdying.2⟩) hok
    · cases hok
      exact hsame
  · next hfind =>
    split at hok
    · next hfull =>
      split at hok
      · cases hok
        exact hsame
      · next hgo =>
        split at hok
        · cases hok
        · next old hold =>
          have hmem := mem_of_find?_eq_some hold
          have hunc := List.find?_some hold
          obtain ⟨u, hu, hok⟩ := bind_eq_ok.mp hok
          rcases unexpectRelated_cases hhelper (hinv.owner hmem) with
            ⟨htimeout, htimer, hkept⟩ | ⟨-, v, hv, hev⟩
          · cases hkept.symm.trans hu
            refine hlet (fun halloc => ⟨halloc, htimeout, ?_⟩) hok
            rw [hfind]
            exact ⟨hfull.2, fun hrate => by simpa [hrate] using hgo, old, hold, htimer⟩
          · cases hv.symm.trans hu
            obtain ⟨hinvu, hfewer⟩ :=
              hinv.unexpectRelated (hinv.mem_global_of_unconfirmed hmem hunc) hu
            obtain ⟨ht, hlimited⟩ := hinvu.allocate hok
            refine ⟨ht, fun hlim _ => hlimited (hfewer.limited hlim) fun _ h' hh' hmax => ?_⟩
            exact Nat.lt_of_lt_of_le (hev.pending_lt hmem hunc)
              (hlim ct h' (hfewer.helper ▸ hh') hmax)
    · next hnotfull =>
      split at hok
      · cases hok
        exact hsame
      · obtain ⟨ht, hlimited⟩ := hinv.allocate hok
        refine ⟨ht, fun hlim _ => hlimited hlim fun _ h' hh' hmax => ?_⟩
        cases hhelper.symm.trans hh'
        refine Nat.lt_of_not_le fun hle => hnotfull ⟨hmax, UInt32.le_iff_toNat_le.mpr ?_⟩
        rwa [hinv.expecting_toNat (hlim ct h hhelper hmax)]

theorem Inv.step {e : Event} (hinv : s.Inv) (hstep : s.step e = .ok t) :
    t.Inv ∧ (s.Limited → s.Admits e → t.Limited) := by
  have hfew : ∀ {v : Expectations}, v.Inv ∧ Fewer s v →
      v.Inv ∧ (s.Limited → s.Admits e → v.Limited) :=
    fun h => ⟨h.1, fun hlim _ => h.2.limited hlim⟩
  have hsame := hfew ⟨hinv, .refl s⟩
  unfold Expectations.step at hstep
  cases e with
  | create ct hh =>
    cases hstep
    split
    · next hnil =>
      have hzero : s.pending ct = 0 := by
        rw [pending, hnil]
        rfl
      refine ⟨⟨hinv.nodup, hinv.nodup_global, hinv.owner, hinv.mem_global, fun ct' => ?_,
        hinv.fresh⟩, fun hlim _ ct' h hhelper hmax => ?_⟩
      · show update s.expecting ct 0 ct' = UInt32.ofNat (s.pending ct')
        by_cases hct : ct' = ct
        · rw [hct, update_self, hzero]
          rfl
        · rw [update_of_ne hct]
          exact hinv.expecting ct'
      · show s.pending ct' ≤ _
        by_cases hct : ct' = ct
        · rw [hct, hzero]
          exact Nat.zero_le _
        · exact hlim ct' h ((update_of_ne hct ..).symm.trans hhelper) hmax
    · exact hsame
  | alter ct hh =>
    cases hstep
    refine ⟨{ hinv with }, fun hlim hadm ct' h hhelper hmax => ?_⟩
    by_cases hct : ct' = ct
    · subst hct
      exact hadm h ((update_self ct' hh s.helper).symm.trans hhelper) hmax
    · exact hlim ct' h ((update_of_ne hct ..).symm.trans hhelper) hmax
  | confirm ct =>
    cases hstep
    exact ⟨{ hinv with }, fun hlim _ => hlim⟩
  | related ct x a =>
    dsimp only at hstep
    split at hstep
    · cases hstep
      exact hsame
    · obtain ⟨r, hr, rfl⟩ := map_eq_ok.mp hstep
      exact hinv.expectRelated hr
  | change id newtuple =>
    cases hstep
    split
    · exact hfew (hinv.changeExpect id newtuple)
    · exact hsame
  | arrive tuple child => exact hfew (hinv.arrive hstep)
  | expire id =>
    cases hstep
    split
    · next hand => exact hfew (hinv.unlink_stopTimer hand.1)
    · exact hsame
  | unexpect id =>
    dsimp only at hstep
    split at hstep
    · next hid => exact hfew (hinv.unexpectRelated hid hstep)
    · cases hstep
      exact hsame
  | remove ct =>
    obtain ⟨u, hu, hok⟩ := bind_eq_ok.mp hstep
    cases hok
    obtain ⟨h, hfewer⟩ := hinv.removeExpectations hu
    exact hfew ⟨{ h with }, hfewer.helper, hfewer.pending⟩
  | unhelp ct =>
    obtain ⟨u, hu, hok⟩ := bind_eq_ok.mp hstep
    cases hok
    obtain ⟨h, hfewer⟩ := hinv.removeExpectations hu
    refine ⟨{ h with }, fun hlim _ ct' h' hhelper hmax => ?_⟩
    by_cases hct : ct' = ct
    · subst hct
      cases (update_self ct' none u.helper).symm.trans hhelper
    · exact hfewer.limited hlim ct' h' ((update_of_ne hct ..).symm.trans hhelper) hmax
  | destroy id =>
    cases hstep
    split
    · next hand =>
      exact hfew ⟨hinv.destroySibling hand.2, rfl,
        fun ct => Nat.le_of_eq (pending_destroySibling hand.2 ct)⟩
    · exact hsame

theorem expectRelated_full (hhelper : s.helper ct = some h) (hmax : h.maxExpected ≠ 0)
    (hfull : h.maxExpected ≤ s.expecting ct)
    (hnew : ∀ id ∈ s.global, resentExpect x.tuple x.mask (s.exp id).data = false)
    (hold : s.victim ct = some old) :
    s.expectRelated ct x a =
      if a.ratelimit ∧ h.reuse = false then .ok (-EPERM, s)
      else s.unexpectRelated old >>= fun u => .ok (u.allocate ct h x a (-EPERM)) := by
  have hnone : (s.global.find? fun id => resentExpect x.tuple x.mask (s.exp id).data) = none := by
    rw [List.find?_eq_none]
    intro id hid
    rw [hnew id hid]
    exact Bool.false_ne_true
  unfold expectRelated
  rw [helperOf_eq_ok.mpr hhelper, ok_bind, hnone]
  dsimp only
  rw [if_pos ⟨hmax, hfull⟩, hold]

theorem Evicted.insert {u : Expectations} (hev : Evicted s u ct old) :
    (u.insert ct h x).global = s.next :: s.global.erase old ∧
      (u.insert ct h x).siblings =
        update s.siblings ct (s.next :: (s.siblings ct).erase old) ∧
      ((u.insert ct h x).exp s.next).data = x ∧
      (u.insert ct h x).unconfirmed s.next = true ∧
      (u.insert ct h x).expecting = s.expecting := by
  refine ⟨?_, ?_, ?_, ?_, ?_⟩
  · show u.next :: u.global = _
    rw [hev.next, hev.global]
  · show update u.siblings ct (u.next :: u.siblings ct) = _
    rw [hev.next, hev.siblings, update_idem, update_self]
  · rw [← hev.next, exp_insert_self]
  · rw [← hev.next]
    exact unconfirmed_insert_self ct h x
  · show update u.expecting ct (u.expecting ct + 1) = _
    rw [hev.expecting, update_idem, update_self, UInt32.sub_add_cancel, update_eq_self]

/-- Behind the test of the flag something always changes, or `-ENOMEM` is
returned. -/
theorem Inv.not_refused {t : Expectations} (hinv : s.Inv) (hhelper : s.helper ct = some h)
    (hct : (s.exp old).expectant = ct)
    (hok : (s.unexpectRelated old >>= fun u => .ok (u.allocate ct h x a (-EPERM))) =
      .ok (-EPERM, t)) : t.global ≠ s.global := by
  intro hglobal
  obtain ⟨u, hu, hok⟩ := bind_eq_ok.mp hok
  rcases allocate_cases hok with ⟨-, -, rfl⟩ | ⟨-, hret, -⟩
  · have hnext : u.next = s.next := by
      rcases unexpectRelated_cases hhelper hct with ⟨-, -, hsame⟩ | ⟨-, u', hu', hev⟩
      · cases hsame.symm.trans hu
        rfl
      · cases hu'.symm.trans hu
        exact hev.next
    have hmem : s.next ∈ s.global := by
      rw [← hglobal, ← hnext]
      exact mem_cons_self
    exact hinv.next_not_global hmem
  · exact absurd hret (by decide)

/-- If an expectation has been replaced, memory was found for the new one and
the old one was not left to its timer. -/
theorem Inv.replaced_only_if {old old' : Nat} {ret : Int} {t : Expectations} (hinv : s.Inv)
    (hhelper : s.helper ct = some h) (hct : (s.exp old).expectant = ct)
    (hok : (s.unexpectRelated old >>= fun u => .ok (u.allocate ct h x a (-EPERM))) = .ok (ret, t))
    (hold' : old' ∈ s.global) (hglobal : t.global = s.next :: s.global.erase old') :
    a.alloc = true ∧ (h.timeout = 0 ∨ (s.exp old).timer = true) := by
  obtain ⟨u, hu, hok⟩ := bind_eq_ok.mp hok
  have hnext : s.next ∈ t.global := by
    rw [hglobal]
    exact mem_cons_self
  rcases unexpectRelated_cases hhelper hct with ⟨-, -, hsame⟩ | ⟨hgo, u', hu', hev⟩
  · cases hsame.symm.trans hu
    rcases allocate_cases hok with ⟨-, -, rfl⟩ | ⟨-, -, rfl⟩
    · -- one has come in and none gone out
      have hlength := congrArg List.length hglobal
      have hpos := length_pos_of_mem hold'
      rw [length_cons, length_erase_of_mem hold'] at hlength
      have hinserted : (s.insert ct h x).global.length = s.global.length + 1 := rfl
      omega
    · exact absurd hnext hinv.next_not_global
  · cases hu'.symm.trans hu
    rcases allocate_cases hok with ⟨halloc, -, -⟩ | ⟨-, -, rfl⟩
    · exact ⟨halloc, hgo⟩
    · rw [hev.global] at hnext
      exact absurd (mem_of_mem_erase hnext) hinv.next_not_global

end

/-- In every state that is reached, for every connection that has reached the
limit of its helper and every expectation that it does not have yet: the
limit is respected iff either the helper does not reuse expectations and
`net_ratelimit` allows a message, or it does, memory is found, and the
timer of the expectation to be replaced is pending if there should be
one. And if every event on the way was admitted, `expecting` does not
exceed `max_expected`. -/
theorem limit_respected_iff {es : List Event} {s : Expectations}
    (hrun : run step initial es = .ok s) :
    (∀ ct h, s.helper ct = some h → h.maxExpected ≠ 0 → h.maxExpected ≤ s.expecting ct →
      ∀ x a, (∀ id ∈ s.global, resentExpect x.tuple x.mask (s.exp id).data = false) →
        (s.RespectsLimit ct h x a ↔
          (h.reuse = false → a.ratelimit = true) ∧
          (h.reuse = true → a.alloc = true ∧
            (h.timeout = 0 ∨ ∀ old, s.victim ct = some old → (s.exp old).timer = true)))) ∧
    (Along step Admits initial es → s.WithinLimits) := by
  have hinv : s.Inv := run_invariant (fun _ _ _ h hstep => (h.step hstep).1) inv_initial hrun
  refine ⟨fun ct h hhelper hmax hfull x a hnew => ?_, fun hadm => hinv.withinLimits ?_⟩
  rotate_left
  · exact (run_invariant_along (I := fun s => s.Inv ∧ s.Limited) (fun _ _ _ h hadm hstep =>
      ⟨(h.1.step hstep).1, (h.1.step hstep).2 h.2 hadm⟩) ⟨inv_initial, nofun⟩ hadm hrun).2
  obtain ⟨old, hold⟩ := hinv.exists_victim hmax hfull
  have hmem := List.mem_of_find?_eq_some hold
  have hunc := List.find?_some hold
  have hct : (s.exp old).expectant = ct := hinv.owner hmem
  have heq := expectRelated_full (a := a) hhelper hmax hfull hnew hold
  constructor
  · intro hlimit
    constructor
    · intro hreuse
      by_contra hrate
      obtain ⟨t, ht, hglobal, -⟩ := hlimit.refused hreuse
      rw [heq, if_neg fun hand => hrate hand.1] at ht
      exact hinv.not_refused hhelper hct ht hglobal
    · intro hreuse
      obtain ⟨ret, t, old', ht, hmem', hunc', hglobal, -⟩ := hlimit.replaced hreuse
      rw [heq, if_neg fun hand => Bool.false_ne_true (hand.2.symm.trans hreuse)] at ht
      have hold' : old' ∈ s.global := hinv.mem_global_of_unconfirmed hmem' hunc'
      obtain ⟨halloc, hgo⟩ := hinv.replaced_only_if hhelper hct ht hold' hglobal
      refine ⟨halloc, hgo.imp_right fun htimer k hk => ?_⟩
      cases hold.symm.trans hk
      exact htimer
  · rintro ⟨hrefuse, hreplace⟩
    constructor
    · intro hreuse
      rw [heq, if_pos ⟨hrefuse hreuse, hreuse⟩]
      exact ⟨s, rfl, rfl, rfl, rfl⟩
    · intro hreuse
      obtain ⟨halloc, hgo⟩ := hreplace hreuse
      rw [heq, if_neg fun hand => Bool.false_ne_true (hand.2.symm.trans hreuse)]
      rcases unexpectRelated_cases hhelper hct with ⟨htimeout, htimer, -⟩ | ⟨-, u, hu, hev⟩
      · rcases hgo with hzero | hpending
        · exact absurd hzero htimeout
        · exact absurd (htimer.symm.trans (hpending old hold)) (by decide)
      · refine ⟨-EPERM, u.insert ct h x, old, ?_, hmem, hunc, hev.insert⟩
        rw [hu, ok_bind, Expectations.allocate, if_pos halloc]

/-- The helper for talk allows one expectation and does not reuse it. -/
def talk : ExpectHelper := ⟨1, false, 240⟩

/-- A connection to the port is expected. -/
def toPort (port : UInt64) : ExpectData where
  tuple := ⟨0, 0, 0xc0a80001, port, 6⟩
  mask := ⟨0, 0, 0xffffffff, 0xffff, 0xffff⟩
  ctTuple := ⟨0, 0, 0, 0, 0⟩
  seq := 0
  len := 0

/-- A connection that has the one expectation. -/
def expectsOne : List Event := [.create 0 (some talk), .related 0 (toPort 1024) ⟨true, true⟩]

theorem limit_respected_with_message :
    ∃ s, run step initial expectsOne = .ok s ∧ s.helper 0 = some talk ∧ s.expecting 0 = 1 ∧
      s.RespectsLimit 0 talk (toPort 1025) ⟨true, true⟩ ∧ s.WithinLimits := by
  have hboth := @limit_respected_iff expectsOne _ rfl
  refine ⟨_, rfl, rfl, rfl, (hboth.1 0 talk rfl (by decide) (by decide)
    (toPort 1025) ⟨true, true⟩ (by simp +decide)).mpr (by decide), hboth.2 ⟨trivial, ?_⟩⟩
  rintro s ⟨⟩
  refine ⟨?_, fun _ _ => trivial⟩
  rintro h ⟨⟩ - -
  decide

/-- The expected connection comes before the first is confirmed, which stops
the timer, and the expectation is sent again. -/
def sentAgain : List Event :=
  expectsOne ++ [.arrive (toPort 1024).tuple 1, .related 0 (toPort 1024) ⟨true, true⟩]

/-- Without a message, the call says that it is not permitted, and the
expectation has taken the place of the other one. And a connection may
have two where one is allowed. -/
theorem limit_not_respected :
    (∃ s t, run step initial expectsOne = .ok s ∧ s.helper 0 = some talk ∧
      s.global = [0] ∧
      s.expectRelated 0 (toPort 1025) ⟨false, true⟩ = .ok (-EPERM, t) ∧ t.global = [1]) ∧
    ∃ s, run step initial sentAgain = .ok s ∧ s.helper 0 = some talk ∧ s.expecting 0 = 2 :=
  ⟨⟨_, _, rfl, rfl, rfl, rfl, rfl⟩, _, rfl, rfl, rfl⟩

end Expectations

end Conntrack
