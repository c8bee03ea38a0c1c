import Mathlib.Data.List.Nodup
import Mathlib.Logic.Function.Basic

/-! # Chains of links

A singly linked list in an array of links: `next x` is the element after
`x`, or none where the list ends. `Path next a l` says that following the
links from `a` visits the elements of `l`, in that order, and then ends;
so a chain that has a path has an end and, where `a :: l` has no
duplicates, no cycle.

Two changes are described: an element is linked in after the last one,
and an element is taken out by giving its link to the element before it.
-/

open Function List

namespace Framework

variable {α : Type} {next : α → Option α} {a x y : α} {l : List α}

/-- From `a` the links lead through `l` to the end. -/
def Path (next : α → Option α) : α → List α → Prop
  | a, [] => next a = none
  | a, b :: l => next a = some b ∧ Path next b l

@[simp] theorem path_nil : Path next a [] ↔ next a = none := Iff.rfl

@[simp] theorem path_cons {b : α} : Path next a (b :: l) ↔ next a = some b ∧ Path next b l :=
  Iff.rfl

section
variable (h : Path next a l)
include h

theorem Path.congr {next' : α → Option α} (heq : ∀ x ∈ a :: l, next' x = next x) :
    Path next' a l := by
  induction l generalizing a with
  | nil => exact (heq a (mem_singleton_self a)).trans h
  | cons b l ih =>
    obtain ⟨hab, hbl⟩ := h
    refine ⟨(heq a mem_cons_self).trans hab, ih hbl fun x hx => ?_⟩
    exact heq x (mem_cons_of_mem a hx)

theorem Path.exists_path_of_mem (hx : x ∈ a :: l) : ∃ l', Path next x l' := by
  induction l generalizing a with
  | nil =>
    rw [mem_singleton.mp hx]
    exact ⟨[], h⟩
  | cons b l ih =>
    rcases mem_cons.mp hx with rfl | hx
    · exact ⟨b :: l, h⟩
    · exact ih h.2 hx

theorem Path.unique {l' : List α} (h' : Path next a l') : l = l' := by
  induction l generalizing a l' with
  | nil =>
    cases l' with
    | nil => rfl
    | cons b l' =>
      have hab : next a = some b := h'.1
      rw [path_nil.mp h] at hab
      cases hab
  | cons b l ih =>
    obtain ⟨hab, hbl⟩ := h
    cases l' with
    | nil =>
      rw [path_nil.mp h'] at hab
      cases hab
    | cons b' l' =>
      obtain ⟨hab', hbl'⟩ := h'
      obtain rfl : b = b' := Option.some.inj (hab.symm.trans hab')
      rw [ih hbl hbl']

theorem Path.next_mem (hx : x ∈ a :: l) (hxy : next x = some y) : y ∈ l := by
  induction l generalizing a with
  | nil =>
    obtain rfl := mem_singleton.mp hx
    rw [path_nil.mp h] at hxy
    cases hxy
  | cons b l ih =>
    obtain ⟨hab, hbl⟩ := h
    rcases mem_cons.mp hx with rfl | hx
    · obtain rfl : b = y := Option.some.inj (hab.symm.trans hxy)
      exact mem_cons_self
    · exact mem_cons_of_mem b (ih hbl hx)

theorem Path.exists_prev (hy : y ∈ l) : ∃ x ∈ a :: l, next x = some y := by
  induction l generalizing a with
  | nil => cases hy
  | cons b l ih =>
    obtain ⟨hab, hbl⟩ := h
    rcases mem_cons.mp hy with rfl | hy
    · exact ⟨a, mem_cons_self, hab⟩
    · obtain ⟨x, hx, hxy⟩ := ih hbl hy
      exact ⟨x, mem_cons_of_mem a hx, hxy⟩

theorem Path.prev_unique (hnd : (a :: l).Nodup) {x' : α} (hx : x ∈ a :: l)
    (hx' : x' ∈ a :: l) (hxy : next x = some y) (hxy' : next x' = some y) : x = x' := by
  induction l generalizing a with
  | nil =>
    obtain rfl := mem_singleton.mp hx
    exact (mem_singleton.mp hx').symm
  | cons b l ih =>
    obtain ⟨hab, hbl⟩ := h
    have hb : b ∉ l := (nodup_cons.mp (nodup_cons.mp hnd).2).1
    -- what follows a later element lies in `l`, what follows `a` is `b`
    have hsplit : ∀ z ∈ b :: l, next z = some y → next a ≠ some y := by
      intro z hz hzy hay
      have hyl : y ∈ l := hbl.next_mem hz hzy
      obtain rfl : b = y := Option.some.inj (hab.symm.trans hay)
      exact hb hyl
    rcases mem_cons.mp hx with rfl | hxl
    · rcases mem_cons.mp hx' with rfl | hxl'
      · rfl
      · exact absurd hxy (hsplit x' hxl' hxy')
    · rcases mem_cons.mp hx' with rfl | hxl'
      · exact absurd hxy' (hsplit x hxl hxy)
      · exact ih hbl (nodup_cons.mp hnd).2 hxl hxl'

end

variable [DecidableEq α]

/-- **Link in at the end**: the last element gets a link to `y`, and `y`
becomes the last. -/
theorem Path.snoc (h : Path next a l) (hx : x ∈ a :: l) (hend : next x = none) (hy : y ∉ a :: l) :
    Path (update (update next x (some y)) y none) a (l ++ [y]) := by
  induction l generalizing a with
  | nil =>
    obtain rfl := mem_singleton.mp hx
    have hxy : x ≠ y := fun h => hy (h ▸ mem_cons_self)
    simp [update_of_ne hxy]
  | cons b l ih =>
    obtain ⟨hab, hbl⟩ := h
    -- `a` has a link, so it is not the last
    have hax : a ≠ x := by
      rintro rfl
      rw [hab] at hend
      cases hend
    have hay : a ≠ y := fun h => hy (h ▸ mem_cons_self)
    have hxl : x ∈ b :: l := (mem_cons.mp hx).resolve_left hax.symm
    refine ⟨?_, ih hbl hxl fun h => hy (mem_cons_of_mem a h)⟩
    rw [update_of_ne hay, update_of_ne hax, hab]

/-- **Take out**: the element before `y` gets the link of `y`. -/
theorem Path.unlink (h : Path next a l) (hnd : (a :: l).Nodup) (hx : x ∈ a :: l)
    (hxy : next x = some y) : Path (update (update next x (next y)) y none) a (l.erase y) := by
  induction l generalizing a with
  | nil =>
    obtain rfl := mem_singleton.mp hx
    rw [path_nil.mp h] at hxy
    cases hxy
  | cons b l ih =>
    have hab : next a = some b := h.1
    have hbl : Path next b l := h.2
    have hnd' := (nodup_cons.mp hnd).2
    have hay : a ≠ y := by
      rintro rfl
      exact (nodup_cons.mp hnd).1 (h.next_mem hx hxy)
    rcases mem_cons.mp hx with rfl | hxl
    · -- `y` comes first: what followed it now follows `x`, and its links stay
      obtain rfl : b = y := Option.some.inj (hab.symm.trans hxy)
      rw [erase_cons_head]
      have hxl : x ∉ b :: l := (nodup_cons.mp hnd).1
      have hbl' : b ∉ l := (nodup_cons.mp hnd').1
      have hsame : ∀ z ∈ l,
          update (update next x (next b)) b none z = next z := by
        intro z hz
        have hzb : z ≠ b := fun h => hbl' (h ▸ hz)
        have hzx : z ≠ x := fun h => hxl (h ▸ mem_cons_of_mem b hz)
        rw [update_of_ne hzb, update_of_ne hzx]
      cases l with
      | nil =>
        rw [path_nil, update_of_ne hay, update_self]
        exact hbl
      | cons d l =>
        refine ⟨?_, hbl.2.congr hsame⟩
        rw [update_of_ne hay, update_self, hbl.1]
    · have hby : b ≠ y := by
        rintro rfl
        exact (nodup_cons.mp hnd').1 (hbl.next_mem hxl hxy)
      have hax : a ≠ x := fun h => (nodup_cons.mp hnd).1 (h ▸ hxl)
      rw [erase_cons_tail (by simpa using hby)]
      refine ⟨?_, ih hbl hnd' hxl⟩
      rw [update_of_ne hay, update_of_ne hax, hab]

end Framework
