import Mathlib.Data.Set.Insert
import Mathlib.Logic.Function.Basic
import Mathlib.Logic.Relation

/-! # Rings of Links

Doubly linked rings whose links are part of the elements, and whose heads
are elements themselves. An element is linked in behind another one, or
taken out by making its neighbours the neighbours of each other; either
fails where a link is missing.

* **Linked sets**: `Linked m S` says that the links of the elements of `S`
  stay in `S` and that the two directions agree there. It is what the
  operations need, and what they keep, whatever rings `S` consists of.
* **Trails**: `Trail next a l b` says that the links from `a` lead through
  `l` to `b`; so `Trail next a l a` is the ring of the head `a`.
* **Leading**: `Leads next a b`, the links from `a` lead to `b`. Two
  elements stay in one ring when a third one is moved.
-/

open Function List

namespace Framework

structure Links (α : Type) where
  next : α → Option α
  prev : α → Option α

namespace Links

variable {α : Type} [DecidableEq α]

def setNext (m : Links α) (x : α) (v : Option α) : Links α :=
  { m with next := update m.next x v }

def setPrev (m : Links α) (x : α) (v : Option α) : Links α :=
  { m with prev := update m.prev x v }

/-- `p` and `n` become neighbours. -/
def join (m : Links α) (p n : α) : Links α := (m.setPrev n (some p)).setNext p (some n)

/-- `x` gets between `p` and `n`. -/
def splice (m : Links α) (x p n : α) : Links α :=
  (((m.setPrev n (some x)).setNext x (some n)).setPrev x (some p)).setNext p (some x)

/-- A head alone. -/
def init (m : Links α) (x : α) : Links α := (m.setNext x (some x)).setPrev x (some x)

/-- Link `x` in behind `h`. -/
def add (m : Links α) (x h : α) : Option (Links α) := do
  let n ← m.next h
  some (m.splice x h n)

/-- Take `x` out and clear its links. -/
def del (m : Links α) (x : α) : Option (Links α) := do
  let p ← m.prev x
  let n ← m.next x
  some (((m.join p n).setNext x none).setPrev x none)

/-- Take `x` out and leave it alone. -/
def delInit (m : Links α) (x : α) : Option (Links α) := do
  let p ← m.prev x
  let n ← m.next x
  some ((m.join p n).init x)

end Links

section

variable {α : Type} {m : Links α} {S T : Set α} {x y z p h : α}

/-- The links of the elements of `S` stay in `S`, and lead back. -/
structure Linked (m : Links α) (S : Set α) : Prop where
  next : ∀ x ∈ S, ∃ y ∈ S, m.next x = some y ∧ m.prev y = some x
  prev : ∀ y ∈ S, ∃ x ∈ S, m.prev y = some x ∧ m.next x = some y

theorem Linked.next_mem (hS : Linked m S) (hx : x ∈ S) (hxy : m.next x = some y) :
    y ∈ S ∧ m.prev y = some x := by
  obtain ⟨z, hz, hxz, hzx⟩ := hS.next x hx
  obtain rfl : z = y := Option.some.inj (hxz.symm.trans hxy)
  exact ⟨hz, hzx⟩

theorem Linked.prev_unique (hS : Linked m S) (hx : x ∈ S) (hz : z ∈ S) (hxy : m.next x = some y)
    (hzy : m.next z = some y) : x = z :=
  Option.some.inj ((hS.next_mem hx hxy).2.symm.trans (hS.next_mem hz hzy).2)

theorem Linked.prev_mem (hS : Linked m S) (hy : y ∈ S) (hyx : m.prev y = some x) :
    x ∈ S ∧ m.next x = some y := by
  obtain ⟨z, hz, hyz, hzy⟩ := hS.prev y hy
  obtain rfl : z = x := Option.some.inj (hyz.symm.trans hyx)
  exact ⟨hz, hzy⟩

theorem Linked.diff (hS : Linked m S) (hT : Linked m T) : Linked m (S \ T) where
  next x hx := by
    obtain ⟨y, hy, hxy, hyx⟩ := hS.next x hx.1
    exact ⟨y, ⟨hy, fun hyT => hx.2 (hT.prev_mem hyT hyx).1⟩, hxy, hyx⟩
  prev y hy := by
    obtain ⟨x, hx, hyx, hxy⟩ := hS.prev y hy.1
    exact ⟨x, ⟨hx, fun hxT => hy.2 (hT.next_mem hxT hxy).1⟩, hyx, hxy⟩

theorem Linked.union (hS : Linked m S) (hT : Linked m T) : Linked m (S ∪ T) where
  next x hx := by
    rcases hx with hx | hx
    · obtain ⟨y, hy, hxy⟩ := hS.next x hx
      exact ⟨y, .inl hy, hxy⟩
    · obtain ⟨y, hy, hxy⟩ := hT.next x hx
      exact ⟨y, .inr hy, hxy⟩
  prev y hy := by
    rcases hy with hy | hy
    · obtain ⟨x, hx, hyx⟩ := hS.prev y hy
      exact ⟨x, .inl hx, hyx⟩
    · obtain ⟨x, hx, hyx⟩ := hT.prev y hy
      exact ⟨x, .inr hx, hyx⟩

variable [DecidableEq α]

theorem Linked.add (hS : Linked m S) (hh : h ∈ S) (hx : x ∉ S) :
    ∃ m' y, m.add x h = some m' ∧ m.next h = some y ∧ Linked m' (insert x S) ∧
      m'.next = update (update m.next x (some y)) h (some x) := by
  obtain ⟨y, hy, hhy, hyh⟩ := hS.next h hh
  refine ⟨m.splice x h y, y, by simp [Links.add, hhy], hhy, ?_, rfl⟩
  have hhx : h ≠ x := fun e => hx (e ▸ hh)
  have hyx : y ≠ x := fun e => hx (e ▸ hy)
  constructor
  · intro a ha
    by_cases hax : a = x
    · refine ⟨y, Set.mem_insert_of_mem x hy, ?_, ?_⟩ <;>
        simp [Links.splice, Links.setNext, Links.setPrev, hax, hhx.symm, hyx]
    · have haS : a ∈ S := Set.mem_of_mem_insert_of_ne ha hax
      by_cases hah : a = h
      · refine ⟨x, Set.mem_insert x S, ?_, ?_⟩ <;>
          simp [Links.splice, Links.setNext, Links.setPrev, hah]
      · obtain ⟨b, hb, hab, hba⟩ := hS.next a haS
        have hbx : b ≠ x := fun e => hx (e ▸ hb)
        -- the element before `y` is `h`
        have hby : b ≠ y := by
          rintro rfl
          exact hah (Option.some.inj (hba.symm.trans hyh))
        refine ⟨b, Set.mem_insert_of_mem x hb, ?_, ?_⟩ <;>
          simp [Links.splice, Links.setNext, Links.setPrev, hax, hah, hbx, hby, hab, hba]
  · intro b hb
    by_cases hbx : b = x
    · refine ⟨h, Set.mem_insert_of_mem x hh, ?_, ?_⟩ <;>
        simp [Links.splice, Links.setNext, Links.setPrev, hbx]
    · have hbS : b ∈ S := Set.mem_of_mem_insert_of_ne hb hbx
      by_cases hby : b = y
      · refine ⟨x, Set.mem_insert x S, ?_, ?_⟩ <;>
          simp [Links.splice, Links.setNext, Links.setPrev, hby, hyx, hhx.symm]
      · obtain ⟨a, ha, hba, hab⟩ := hS.prev b hbS
        have hax : a ≠ x := fun e => hx (e ▸ ha)
        have hah : a ≠ h := by
          rintro rfl
          exact hby (Option.some.inj (hab.symm.trans hhy))
        refine ⟨a, Set.mem_insert_of_mem x ha, ?_, ?_⟩ <;>
          simp [Links.splice, Links.setNext, Links.setPrev, hax, hah, hbx, hby, hab, hba]

theorem Linked.join (hS : Linked m S) (hx : x ∈ S) (hpx : m.next p = some x) (hp : p ∈ S)
    (hxy : m.next x = some y) : Linked (m.join p y) (S \ {x}) := by
  have hxp : m.prev x = some p := (hS.next_mem hp hpx).2
  obtain ⟨hy, hyx⟩ := hS.next_mem hx hxy
  constructor
  · rintro a ⟨ha, hax : a ≠ x⟩
    by_cases hap : a = p
    · have hyx' : y ≠ x := by
        rintro rfl
        exact hax (hap.trans (Option.some.inj (hxp.symm.trans hyx)))
      refine ⟨y, ⟨hy, hyx'⟩, ?_, ?_⟩ <;> simp [Links.join, Links.setNext, Links.setPrev, hap]
    · obtain ⟨b, hb, hab, hba⟩ := hS.next a ha
      have hbx : b ≠ x := by
        rintro rfl
        exact hap (Option.some.inj (hba.symm.trans hxp))
      have hby : b ≠ y := by
        rintro rfl
        exact hax (Option.some.inj (hba.symm.trans hyx))
      refine ⟨b, ⟨hb, hbx⟩, ?_, ?_⟩ <;>
        simp [Links.join, Links.setNext, Links.setPrev, hap, hby, hab, hba]
  · rintro b ⟨hb, hbx : b ≠ x⟩
    by_cases hby : b = y
    · have hpx' : p ≠ x := by
        rintro rfl
        exact hbx (hby.trans (Option.some.inj (hxy.symm.trans hpx)))
      refine ⟨p, ⟨hp, hpx'⟩, ?_, ?_⟩ <;> simp [Links.join, Links.setNext, Links.setPrev, hby]
    · obtain ⟨a, ha, hba, hab⟩ := hS.prev b hb
      have hax : a ≠ x := by
        rintro rfl
        exact hby (Option.some.inj (hab.symm.trans hxy))
      have hap : a ≠ p := by
        rintro rfl
        exact hbx (Option.some.inj (hab.symm.trans hpx))
      refine ⟨a, ⟨ha, hax⟩, ?_, ?_⟩ <;>
        simp [Links.join, Links.setNext, Links.setPrev, hap, hby, hab, hba]

theorem Linked.set (hS : Linked m S) (hx : x ∉ S) (v w : Option α) :
    Linked ((m.setNext x v).setPrev x w) S := by
  have hne : ∀ a ∈ S, a ≠ x := fun a ha e => hx (e ▸ ha)
  constructor
  · intro a ha
    obtain ⟨b, hb, hab, hba⟩ := hS.next a ha
    refine ⟨b, hb, ?_, ?_⟩ <;> simp [Links.setNext, Links.setPrev, hne a ha, hne b hb, hab, hba]
  · intro b hb
    obtain ⟨a, ha, hba, hab⟩ := hS.prev b hb
    refine ⟨a, ha, ?_, ?_⟩ <;> simp [Links.setNext, Links.setPrev, hne a ha, hne b hb, hab, hba]

theorem linked_init (m : Links α) (x : α) : Linked (m.init x) {x} := by
  constructor <;>
  · rintro a rfl
    exact ⟨a, rfl, by simp [Links.init, Links.setNext, Links.setPrev]⟩

theorem Linked.del (hS : Linked m S) (hx : x ∈ S) :
    ∃ m' p y, m.del x = some m' ∧ p ∈ S ∧ m.next p = some x ∧ m.next x = some y ∧
      Linked m' (S \ {x}) ∧
      m'.next = update (update m.next p (some y)) x none := by
  obtain ⟨y, -, hxy, -⟩ := hS.next x hx
  obtain ⟨p, hp, hxp, hpx⟩ := hS.prev x hx
  exact ⟨_, p, y, by simp [Links.del, hxy, hxp], hp, hpx, hxy,
    (hS.join hx hpx hp hxy).set (fun hmem => hmem.2 rfl) none none, rfl⟩

theorem Linked.delInit (hS : Linked m S) (hx : x ∈ S) :
    ∃ m' p y, m.delInit x = some m' ∧ p ∈ S ∧ m.next p = some x ∧ m.next x = some y ∧
      Linked m' (S \ {x}) ∧ Linked m' {x} ∧
      m'.next = update (update m.next p (some y)) x (some x) := by
  obtain ⟨y, -, hxy, -⟩ := hS.next x hx
  obtain ⟨p, hp, hxp, hpx⟩ := hS.prev x hx
  exact ⟨_, p, y, by simp [Links.delInit, Links.init, hxy, hxp], hp, hpx, hxy,
    (hS.join hx hpx hp hxy).set (fun hmem => hmem.2 rfl) (some x) (some x),
    linked_init _ x, rfl⟩

end

/-! ## Trails -/

section

variable {α : Type} {next next' : α → Option α} {a b x y : α} {l : List α}

/-- From `a` the links lead through `l` to `b`. -/
def Trail (next : α → Option α) : α → List α → α → Prop
  | a, [], b => next a = some b
  | a, x :: l, b => next a = some x ∧ Trail next x l b

@[simp] theorem trail_nil : Trail next a [] b ↔ next a = some b := Iff.rfl

theorem Trail.congr (h : Trail next a l b) (heq : ∀ x ∈ a :: l, next' x = next x) :
    Trail next' a l b := by
  induction l generalizing a with
  | nil => exact (heq a mem_cons_self).trans h
  | cons x l ih =>
    obtain ⟨hax, hxb⟩ := h
    exact ⟨(heq a mem_cons_self).trans hax, ih hxb fun y hy => heq y (mem_cons_of_mem a hy)⟩

theorem Trail.next_mem (h : Trail next a l b) (hx : x ∈ a :: l) (hxy : next x = some y) :
    y ∈ l ++ [b] := by
  induction l generalizing a with
  | nil =>
    obtain rfl := mem_singleton.mp hx
    exact mem_singleton.mpr (Option.some.inj (hxy.symm.trans h))
  | cons z l ih =>
    obtain ⟨haz, hzb⟩ := h
    rcases mem_cons.mp hx with rfl | hx
    · rw [← Option.some.inj (haz.symm.trans hxy)]
      exact mem_cons_self
    · exact mem_cons_of_mem z (ih hzb hx)

theorem Trail.exists_prev (h : Trail next a l b) (hy : y ∈ l ++ [b]) :
    ∃ x ∈ a :: l, next x = some y := by
  induction l generalizing a with
  | nil =>
    rw [mem_singleton.mp hy]
    exact ⟨a, mem_cons_self, h⟩
  | cons z l ih =>
    obtain ⟨haz, hzb⟩ := h
    rcases mem_cons.mp hy with rfl | hy
    · exact ⟨a, mem_cons_self, haz⟩
    · obtain ⟨x, hx, hxy⟩ := ih hzb hy
      exact ⟨x, mem_cons_of_mem a hx, hxy⟩

theorem Trail.linked {m : Links α} {S : Set α} (h : Trail m.next a l a) (hS : Linked m S)
    (ha : a ∈ S) : Linked m {x | x ∈ a :: l} ∧ ∀ x ∈ a :: l, x ∈ S := by
  have hmem : ∀ {c l}, Trail m.next c l a → c ∈ S → ∀ x ∈ c :: l, x ∈ S := by
    intro c l h hc
    induction l generalizing c with
    | nil => exact fun x hx => mem_singleton.mp hx ▸ hc
    | cons y l ih =>
      intro x hx
      rcases mem_cons.mp hx with rfl | hx
      · exact hc
      · exact ih h.2 (hS.next_mem hc h.1).1 x hx
  have hto : ∀ y, y ∈ a :: l ↔ y ∈ l ++ [a] := fun y => by
    rw [mem_cons, mem_append, mem_singleton, or_comm]
  refine ⟨⟨fun x hx => ?_, fun y hy => ?_⟩, hmem h ha⟩
  · obtain ⟨y, -, hxy, hyx⟩ := hS.next x (hmem h ha x hx)
    exact ⟨y, (hto y).mpr (h.next_mem hx hxy), hxy, hyx⟩
  · obtain ⟨x, hx, hxy⟩ := h.exists_prev ((hto y).mp hy)
    exact ⟨x, hx, (hS.next_mem (hmem h ha x hx) hxy).2, hxy⟩

variable [DecidableEq α]

/-- **Link in** behind the head. -/
theorem Trail.push (h : Trail next a l b) (ha : a ∉ l) (hx : x ∉ a :: l) (hy : next a = some y) :
    Trail (update (update next x (some y)) a (some x)) a (x :: l) b := by
  have hxa : x ≠ a := fun e => hx (e ▸ mem_cons_self)
  refine ⟨update_self a _ _, ?_⟩
  have hxy : update (update next x (some y)) a (some x) x = some y := by
    rw [update_of_ne hxa, update_self]
  cases l with
  | nil => exact hxy.trans (hy.symm.trans h)
  | cons z l =>
    refine ⟨hxy.trans (hy.symm.trans h.1), h.2.congr fun w hw => ?_⟩
    have hwa : w ≠ a := fun e => ha (e ▸ hw)
    have hwx : w ≠ x := fun e => hx (e ▸ mem_cons_of_mem a hw)
    rw [update_of_ne hwa, update_of_ne hwx]

/-- **Take out** the element behind the head. -/
theorem Trail.pop (h : Trail next a (x :: l) b) (ha : a ∉ x :: l) (hx : x ∉ l)
    (hy : next x = some y) : Trail (update (update next a (some y)) x none) a l b := by
  have hax : a ≠ x := fun e => ha (e ▸ mem_cons_self)
  have hay : update (update next a (some y)) x none a = some y := by
    rw [update_of_ne hax, update_self]
  cases l with
  | nil => exact hay.trans (hy.symm.trans h.2)
  | cons z l =>
    refine ⟨hay.trans (hy.symm.trans h.2.1), h.2.2.congr fun w hw => ?_⟩
    have hwa : w ≠ a := fun e => ha (e ▸ mem_cons_of_mem x hw)
    have hwx : w ≠ x := fun e => hx (e ▸ hw)
    rw [update_of_ne hwx, update_of_ne hwa]

end

/-! ## Leading -/

section

variable {α : Type} {a b x y p h : α} {l : List α} {next : α → Option α}

/-- The links from `a` lead to `b`. -/
def Leads (next : α → Option α) : α → α → Prop :=
  Relation.ReflTransGen fun x y => next x = some y

theorem Trail.mem_of_leads (h : Trail next a l a) (hab : Leads next a b) : b ∈ a :: l := by
  induction hab with
  | refl => exact mem_cons_self
  | tail _ hxy ih =>
    rw [mem_cons, or_comm]
    simpa using h.next_mem ih hxy

theorem Trail.leads (h : Trail next a l b) (hx : x ∈ l) : Leads next a x := by
  induction l generalizing a with
  | nil => cases hx
  | cons y l ih =>
    obtain ⟨hay, hyb⟩ := h
    rcases mem_cons.mp hx with rfl | hx
    · exact .single hay
    · exact .head hay (ih hyb hx)

variable {m : Links α} {S : Set α}

theorem Linked.mem_of_leads (hS : Linked m S) (ha : a ∈ S) (hab : Leads m.next a b) : b ∈ S := by
  induction hab with
  | refl => exact ha
  | tail _ hxy ih => exact (hS.next_mem ih hxy).1

variable [DecidableEq α]

theorem Leads.add (hab : Leads m.next a b) (hS : Linked m S) (ha : a ∈ S) (hx : x ∉ S)
    (hh : m.next h = some y) : Leads (update (update m.next x (some y)) h (some x)) a b := by
  induction hab with
  | refl => exact .refl
  | tail hau huv ih =>
    rename_i u v
    have hux : u ≠ x := fun e => hx (e ▸ hS.mem_of_leads ha hau)
    by_cases huh : u = h
    · -- the link of `h` now goes through `x`
      subst huh
      obtain rfl : y = v := Option.some.inj (hh.symm.trans huv)
      refine (ih.tail (update_self u _ _)).tail ?_
      rw [update_of_ne (Ne.symm hux), update_self]
    · refine ih.tail ?_
      rw [update_of_ne huh, update_of_ne hux]
      exact huv

theorem Leads.del (hab : Leads m.next a b) (hS : Linked m S) (ha : a ∈ S) (hp : p ∈ S)
    (hpx : m.next p = some x) (hxy : m.next x = some y) (hax : a ≠ x) (hbx : b ≠ x) :
    Leads (update (update m.next p (some y)) x none) a b := by
  -- where the links led to `x`, they now lead to what follows it
  have key : ∀ b, Leads m.next a b → (b ≠ x →
        Leads (update (update m.next p (some y)) x none) a b) ∧
      (b = x → y ≠ x →
        Leads (update (update m.next p (some y)) x none) a y) := by
    intro b hab
    induction hab with
    | refl => exact ⟨fun _ => .refl, fun e => absurd e hax⟩
    | tail hau huv ih =>
      rename_i u v
      have hu : u ∈ S := hS.mem_of_leads ha hau
      refine ⟨fun hvx => ?_, fun hvx hyx => ?_⟩
      · by_cases hux : u = x
        · subst hux
          obtain rfl : y = v := Option.some.inj (hxy.symm.trans huv)
          exact ih.2 rfl hvx
        · have hup : u ≠ p := by
            rintro rfl
            exact hvx (Option.some.inj (huv.symm.trans hpx))
          refine (ih.1 hux).tail ?_
          rw [update_of_ne hux, update_of_ne hup]
          exact huv
      · subst hvx
        obtain rfl : u = p := hS.prev_unique hu hp huv hpx
        have hux : u ≠ v := by
          rintro rfl
          exact hyx (Option.some.inj (hxy.symm.trans huv))
        refine (ih.1 hux).tail ?_
        rw [update_of_ne hux, update_self]
  exact (key b hab).1 hbx

end

end Framework
