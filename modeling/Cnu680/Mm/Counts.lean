import Cnu680.Framework.Tally
import Cnu680.Mm.Contents

/-! # What the kernel counts

An rblock counts the tblocks that point to it (`Linked`), and the inode
counts the mapped rblocks (`Counted`). A call of `do_mmap_pgoff` counts
itself in before its rblock exists, so the count of the inode is that of
the mapped rblocks and of the calls in between (`holding`).

Each function of the source keeps both, given what it finds.
-/

open Framework Function List

namespace Nommu

variable {P : Type}

/-! ## What is counted -/

/-- A mapped rblock counts one. -/
def mappedWeight : Option (Block P) → ℕ
  | some (.rblock b) => if b.isMmapped then 1 else 0
  | _ => 0

/-- A call that has been counted and has no rblock yet counts one. -/
def Mm.holds (x : Mm P) : ℕ := if x.op.vmStart.isSome then 1 else 0

/-- How many tblocks of an address space point to the rblock at `a`. -/
def Mm.refs (a : Nat) (x : Mm P) : ℕ := x.tblock.countP fun t => t.rblock == a

/-- Neither an rblock nor the buffer. -/
def Block.Inert : Block P → Prop
  | .rblock _ | .buffer _ _ => False
  | _ => True

namespace Kernel

/-- The number of mapped rblocks. -/
def mapped (k : Kernel P) : ℕ := tally (Finset.range k.next) mappedWeight k.blocks

section

variable [Fintype P]

/-- The number of calls that have been counted and have no rblock yet. -/
def holding (k : Kernel P) : ℕ := tally Finset.univ Mm.holds k.mm

/-- The number of tblocks that point to the rblock at `a`. -/
def refs (a : Nat) (k : Kernel P) : ℕ := tally Finset.univ (Mm.refs a) k.mm

/-- The rblocks are those that tblocks point to, and count them. -/
structure Linked (k : Kernel P) : Prop where
  refs : ∀ a, k.refs a ≠ 0 → ∃ b, k.blocks a = some (.rblock b) ∧ b.refcount = k.refs a
  linked : ∀ a b, k.blocks a = some (.rblock b) → k.refs a ≠ 0

/-- The inode counts the mapped rblocks and the calls that will have one; all
of them have the one buffer; `n` references to the inode are others'. -/
structure Counted (n : Int) (k : Kernel P) : Prop where
  kblock : ∀ a b, k.blocks a = some (.rblock b) → b.isMmapped → b.kblock = k.iSavedptr
  held : ∀ m v, (k.mm m).op.vmStart = some v → v = k.iSavedptr
  num : k.iNumMapping = k.mapped + k.holding
  saved : k.iSavedptr ≠ 0 ↔ k.mapped + k.holding ≠ 0
  buffer : ∀ a bytes fill, k.blocks a = some (.buffer bytes fill) → a = k.iSavedptr
  count : k.iCount = n + if k.iSavedptr = 0 then 0 else 1

end

/-! ## Steps that touch neither rblocks nor the buffer -/

/-- The inode, the lists, the rblocks and the buffer are the same. -/
structure Same (k k' : Kernel P) : Prop where
  mm : k'.mm = k.mm
  iSavedptr : k'.iSavedptr = k.iSavedptr
  iNumMapping : k'.iNumMapping = k.iNumMapping
  iCount : k'.iCount = k.iCount
  blocks : ∀ a b, ¬ b.Inert → (k'.blocks a = some b ↔ k.blocks a = some b)
  mapped : k'.mapped = k.mapped

section

variable {k k' k'' : Kernel P} {a : Nat} {b b₀ : Block P} {x : Option (Block P)}

theorem Same.refl (k : Kernel P) : Same k k :=
  ⟨rfl, rfl, rfl, rfl, fun _ _ _ => Iff.rfl, rfl⟩

theorem Same.trans (h : Same k k') (h' : Same k' k'') : Same k k'' :=
  ⟨h'.mm.trans h.mm, h'.iSavedptr.trans h.iSavedptr, h'.iNumMapping.trans h.iNumMapping,
    h'.iCount.trans h.iCount, fun a b hb => (h'.blocks a b hb).trans (h.blocks a b hb),
    h'.mapped.trans h.mapped⟩

theorem Same.account (h : Same k k') (real asked : Int) : Same k (k'.account real asked) :=
  { h with }

theorem Same.advance (h : Same k k') (fd n : Nat) : Same k (k'.advance fd n) :=
  { h with }

theorem exists_of_mappedWeight_ne_zero (h : mappedWeight x ≠ 0) :
    ∃ b, x = some (.rblock b) ∧ b.isMmapped = true := by
  cases x with
  | none => exact absurd rfl h
  | some x =>
    cases x with
    | rblock b =>
      refine ⟨b, rfl, ?_⟩
      by_contra hm
      exact h (if_neg hm)
    | fresh _ _ => exact absurd rfl h
    | tblock => exact absurd rfl h
    | buffer _ _ => exact absurd rfl h
    | copy _ _ => exact absurd rfl h

theorem mappedWeight_of_inert (h : b.Inert) : mappedWeight (some b) = 0 := by
  match b with
  | .fresh _ _ | .tblock | .copy _ _ => rfl

theorem mappedWeight_eq_zero (h : ∀ b, x = some b → b.Inert) : mappedWeight x = 0 := by
  match x with
  | none => rfl
  | some b => exact mappedWeight_of_inert (h b rfl)

theorem mapped_kmalloc (b : Block P) (k : Kernel P) :
    (k.kmalloc b).mapped = k.mapped + mappedWeight (some b) :=
  tally_range_succ mappedWeight k.blocks k.next (some b)

theorem mapped_put (b : Block P) (ha : a < k.next) :
    (k.put a b).mapped + mappedWeight (k.blocks a) = k.mapped + mappedWeight (some b) :=
  tally_update mappedWeight k.blocks (Finset.mem_range.mpr ha) (some b)

theorem mapped_kfree (ha : a < k.next) :
    (k.kfree a).mapped + mappedWeight (k.blocks a) = k.mapped :=
  tally_update mappedWeight k.blocks (Finset.mem_range.mpr ha) none

theorem Same.kmalloc (hunused : k.blocks k.next = none) (hb : b.Inert) : Same k (k.kmalloc b) := by
  refine ⟨rfl, rfl, rfl, rfl, ?_, ?_⟩
  · intro x b' hb'
    by_cases hx : x = k.next
    · rw [hx, blocks_kmalloc_self, hunused]
      refine ⟨fun h => ?_, nofun⟩
      cases h
      exact absurd hb hb'
    · rw [blocks_kmalloc_of_ne b hx]
  · rw [mapped_kmalloc, mappedWeight_of_inert hb]
    rfl

theorem Same.put (hold : k.blocks a = some b₀) (h₀ : b₀.Inert) (hb : b.Inert) :
    Same k (k.put a b) := by
  refine ⟨rfl, rfl, rfl, rfl, ?_, ?_⟩
  · intro x b' hb'
    by_cases hx : x = a
    · rw [hx, blocks_put_self, hold]
      refine ⟨fun h => ?_, fun h => ?_⟩
      · cases h
        exact absurd hb hb'
      · cases h
        exact absurd h₀ hb'
    · rw [blocks_put_of_ne b hx]
  · refine tally_update_of_eq ?_
    rw [hold, mappedWeight_of_inert hb, mappedWeight_of_inert h₀]

theorem Same.kfree (ha : ∀ b, k.blocks a = some b → b.Inert) : Same k (k.kfree a) := by
  refine ⟨rfl, rfl, rfl, rfl, ?_, ?_⟩
  · intro x b' hb'
    refine ⟨fun h => blocks_of_kfree h, fun h => ?_⟩
    have hx : x ≠ a := by
      intro hx
      rw [hx] at h
      exact hb' (ha b' h)
    rw [blocks_kfree_of_ne hx, h]
  · refine tally_update_of_eq ?_
    rw [mappedWeight_eq_zero ha]
    rfl

variable [Fintype P]

theorem Linked.of_rblocks (h : k.Linked) (hrefs : ∀ a, k'.refs a = k.refs a)
    (hblocks : ∀ a b, k'.blocks a = some (.rblock b) ↔ k.blocks a = some (.rblock b)) :
    k'.Linked := by
  refine ⟨?_, ?_⟩
  · intro a ha
    rw [hrefs] at ha ⊢
    obtain ⟨b, hb, hcount⟩ := h.refs a ha
    exact ⟨b, (hblocks a b).mpr hb, hcount⟩
  · intro a b hb
    rw [hrefs]
    exact h.linked a b ((hblocks a b).mp hb)

theorem Linked.of_same (h : k.Linked) (hs : Same k k') : k'.Linked := by
  refine h.of_rblocks ?_ fun a b => hs.blocks a _ id
  intro a
  rw [Kernel.refs, hs.mm]
  rfl

theorem Counted.of_same {n : Int} (h : k.Counted n) (hs : Same k k') : k'.Counted n := by
  have hholding : k'.holding = k.holding := by
    rw [Kernel.holding, hs.mm]
    rfl
  refine ⟨?_, ?_, ?_, ?_, ?_, ?_⟩
  · intro a b hb hm
    rw [hs.iSavedptr]
    exact h.kblock a b ((hs.blocks a _ id).mp hb) hm
  · intro m v hv
    rw [hs.mm] at hv
    rw [hs.iSavedptr]
    exact h.held m v hv
  · rw [hs.iNumMapping, hs.mapped, hholding]
    exact h.num
  · rw [hs.iSavedptr, hs.mapped, hholding]
    exact h.saved
  · intro a bytes fill hb
    rw [hs.iSavedptr]
    exact h.buffer a bytes fill ((hs.blocks a _ id).mp hb)
  · rw [hs.iCount, hs.iSavedptr]
    exact h.count

end

/-! ## One address space changes -/

section

variable {k : Kernel P} {a : Nat} {n : Int} {c m : P} {x : Mm P}

theorem holds_eq {y : Mm P} (h : x.op.vmStart = y.op.vmStart) : x.holds = y.holds := by
  rw [Mm.holds, Mm.holds, h]

theorem holds_of_none (h : x.op.vmStart = none) : x.holds = 0 := by
  rw [Mm.holds, h]
  rfl

theorem holds_of_some {v : Nat} (h : x.op.vmStart = some v) : x.holds = 1 := by
  rw [Mm.holds, h]
  rfl

variable [Fintype P] [DecidableEq P]

theorem refs_setMm (a : Nat) (c : P) (x : Mm P) (k : Kernel P) :
    (k.setMm c x).refs a + (k.mm c).refs a = k.refs a + x.refs a :=
  tally_update (Mm.refs a) k.mm (Finset.mem_univ c) x

theorem holding_setMm (c : P) (x : Mm P) (k : Kernel P) :
    (k.setMm c x).holding + (k.mm c).holds = k.holding + x.holds :=
  tally_update Mm.holds k.mm (Finset.mem_univ c) x

omit [DecidableEq P] in
theorem refs_of_mem {t : Tblock} (ht : t ∈ (k.mm m).tblock) : k.refs t.rblock ≠ 0 := by
  have hle : (k.mm m).refs t.rblock ≤ k.refs t.rblock :=
    le_tally (Mm.refs t.rblock) k.mm (Finset.mem_univ m)
  have hpos : 0 < (k.mm m).refs t.rblock := countP_pos_iff.mpr ⟨t, ht, by simp⟩
  omega

theorem Linked.setMm (h : k.Linked) (hx : ∀ a, x.refs a = (k.mm c).refs a) :
    (k.setMm c x).Linked := by
  refine h.of_rblocks ?_ fun a b => Iff.rfl
  intro a
  have hsum := refs_setMm a c x k
  have hx' := hx a
  omega

theorem Counted.setMm (h : k.Counted n) (hx : x.op.vmStart = (k.mm c).op.vmStart) :
    (k.setMm c x).Counted n := by
  -- the sum over the calls is the same, term by term
  have hholding : (k.setMm c x).holding = k.holding := by
    have hsum := holding_setMm c x k
    have hx' := holds_eq hx
    omega
  refine ⟨h.kblock, ?_, ?_, ?_, h.buffer, h.count⟩
  · intro m v hv
    by_cases hm : m = c
    · rw [hm, setMm_self, hx] at hv
      exact h.held c v hv
    · rw [setMm_of_ne _ hm] at hv
      exact h.held m v hv
  · rw [hholding]
    exact h.num
  · rw [hholding]
    exact h.saved

theorem Counted.cramfsSavedPtr {r : Request} (h : k.Counted n) (hold : (k.mm m).op.vmStart = none)
    (hs : k.iSavedptr ≠ 0) : (k.cramfsSavedPtr m r).Counted n := by
  have hholding : (k.cramfsSavedPtr m r).holding = k.holding + 1 := by
    have hsum := holding_setMm m { k.mm m with op := .mapTblock r k.iSavedptr } k
    rw [holds_of_none hold, holds_of_some (v := k.iSavedptr) rfl] at hsum
    exact hsum
  have hmapped : (k.cramfsSavedPtr m r).mapped = k.mapped := rfl
  have hnum : (k.cramfsSavedPtr m r).iNumMapping = k.iNumMapping + 1 := rfl
  refine ⟨h.kblock, ?_, ?_, ?_, h.buffer, h.count⟩
  · intro m' v hv
    change ((k.setMm m _).mm m').op.vmStart = some v at hv
    by_cases hm : m' = m
    · rw [hm, setMm_self] at hv
      cases hv
      rfl
    · rw [setMm_of_ne _ hm] at hv
      exact h.held m' v hv
  · rw [hnum, hmapped, hholding, h.num]
    omega
  · rw [hmapped, hholding]
    exact ⟨fun _ => by omega, fun _ => hs⟩

omit [DecidableEq P] in
/-- Nothing is mapped and nobody is about to: there is no buffer. -/
theorem Counted.none_mapped (h : k.Counted n) (hs : k.iSavedptr = 0)
    (hlt : ∀ a b, k.blocks a = some b → a < k.next) :
    (∀ a b, k.blocks a = some (.rblock b) → b.isMmapped = false) ∧
      (∀ m, (k.mm m).op.vmStart = none) ∧ k.mapped = 0 ∧ k.holding = 0 := by
  have hzero : k.mapped + k.holding = 0 := by
    by_contra hne
    exact h.saved.mpr hne hs
  refine ⟨?_, ?_, by omega, by omega⟩
  · intro a b hb
    by_contra hm
    -- one mapped rblock would make the sum positive
    have hle : mappedWeight (k.blocks a) ≤ k.mapped :=
      le_tally mappedWeight k.blocks (Finset.mem_range.mpr (hlt a _ hb))
    have hone : mappedWeight (k.blocks a) = 1 := by
      rw [hb, mappedWeight, if_pos (by simpa using hm)]
    omega
  · intro m
    by_contra hv
    obtain ⟨v, hv⟩ := Option.ne_none_iff_exists'.mp hv
    have hle : (k.mm m).holds ≤ k.holding := le_tally Mm.holds k.mm (Finset.mem_univ m)
    rw [holds_of_some hv] at hle
    omega

end

/-! ## Linking -/

section

variable [Fintype P] [DecidableEq P] {E : Env} {k : Kernel P} {a : Nat} {n : Int} {m c : P}
  {k' : Kernel P}
  {x : Mm P} {b : Rblock} {b₀ : Block P}

theorem refs_of_update (hmm : k'.mm = update k.mm c x) (hx : x.refs a = (k.mm c).refs a) :
    k'.refs a = k.refs a := by
  have hsum := refs_setMm a c x k
  have hk' : k'.refs a = (k.setMm c x).refs a := by
    rw [Kernel.refs, hmm]
    rfl
  omega

theorem Linked.of_others (h : k.Linked) (hmm : k'.mm = update k.mm c x)
    (hothers : ∀ a' ≠ a, ∀ b', k'.blocks a' = some (.rblock b') ↔ k.blocks a' = some (.rblock b'))
    (hx : ∀ a' ≠ a, x.refs a' = (k.mm c).refs a')
    (hrefs : k'.refs a ≠ 0 → ∃ b', k'.blocks a = some (.rblock b') ∧ b'.refcount = k'.refs a)
    (hlinked : ∀ b', k'.blocks a = some (.rblock b') → k'.refs a ≠ 0) : k'.Linked := by
  have hsame : ∀ a' ≠ a, k'.refs a' = k.refs a' := fun a' ha => refs_of_update hmm (hx a' ha)
  refine ⟨?_, ?_⟩
  · intro a' ha'
    by_cases ha : a' = a
    · rw [ha] at ha' ⊢
      exact hrefs ha'
    · rw [hsame a' ha] at ha' ⊢
      obtain ⟨b', hb', hcount⟩ := h.refs a' ha'
      exact ⟨b', (hothers a' ha b').mpr hb', hcount⟩
  · intro a' b' hb'
    by_cases ha : a' = a
    · rw [ha] at hb' ⊢
      exact hlinked b' hb'
    · rw [hsame a' ha]
      exact h.linked a' b' ((hothers a' ha b').mp hb')

theorem Linked.recount {b' : Rblock} (h : k.Linked) (hmm : k'.mm = update k.mm c x)
    (hothers : ∀ a' ≠ a, ∀ b', k'.blocks a' = some (.rblock b') ↔ k.blocks a' = some (.rblock b'))
    (hself : k'.blocks a = some (.rblock b')) (hcount : b'.refcount = k'.refs a)
    (hpos : k'.refs a ≠ 0) (hx : ∀ a' ≠ a, x.refs a' = (k.mm c).refs a') : k'.Linked :=
  h.of_others hmm hothers hx (fun _ => ⟨b', hself, hcount⟩) fun _ _ => hpos

theorem Linked.remove (h : k.Linked) (hmm : k'.mm = update k.mm c x)
    (hothers : ∀ a' ≠ a, ∀ b', k'.blocks a' = some (.rblock b') ↔ k.blocks a' = some (.rblock b'))
    (hself : k'.blocks a = none) (hzero : k'.refs a = 0)
    (hx : ∀ a' ≠ a, x.refs a' = (k.mm c).refs a') : k'.Linked := by
  refine h.of_others hmm hothers hx (fun hne => absurd hzero hne) ?_
  intro b' hb'
  rw [hself] at hb'
  cases hb'

theorem Linked.link (h : k.Linked) (hold : k.blocks a = some b₀) (h₀ : b₀.Inert)
    (hb : b.refcount = 1) (hx : ∀ a', x.refs a' = (k.mm c).refs a' + if a' = a then 1 else 0) :
    ((k.put a (.rblock b)).setMm c x).Linked := by
  -- nothing points to a block that is not an rblock yet
  have hnone : k.refs a = 0 := by
    by_contra hne
    obtain ⟨b', hb', -⟩ := h.refs a hne
    rw [hold] at hb'
    cases hb'
    exact h₀
  have hone : ((k.put a (.rblock b)).setMm c x).refs a = 1 := by
    have hsum := refs_setMm a c x k
    have hx' := hx a
    rw [if_pos rfl] at hx'
    change (k.setMm c x).refs a = 1
    omega
  refine h.recount rfl ?_ (blocks_put_self a _ k) ?_ ?_ ?_
  · intro a' ha b'
    exact iff_of_eq (congrArg (· = some (Block.rblock b')) (blocks_put_of_ne _ ha))
  · rw [hone, hb]
    rfl
  · rw [hone]
    exact Nat.one_ne_zero
  · intro a' ha
    rw [hx a', if_neg ha, Nat.add_zero]

omit [DecidableEq P] in
theorem Counted.blocks_put (h : k.Counted n) (hk : b.isMmapped → b.kblock = k.iSavedptr) :
    (∀ a' b', (k.put a (.rblock b)).blocks a' = some (.rblock b') → b'.isMmapped →
      b'.kblock = k.iSavedptr) ∧
    ∀ a' bytes fill, (k.put a (.rblock b)).blocks a' = some (.buffer bytes fill) →
      a' = k.iSavedptr := by
  refine ⟨?_, ?_⟩
  · intro a' b' hb' hm
    rcases blocks_of_put hb' with ⟨-, hself⟩ | ⟨-, hb'⟩
    · cases hself
      exact hk hm
    · exact h.kblock a' b' hb' hm
  · intro a' bytes fill hb'
    rcases blocks_of_put hb' with ⟨-, hself⟩ | ⟨-, hb'⟩
    · cases hself
    · exact h.buffer a' bytes fill hb'

omit [DecidableEq P] in
theorem Counted.put_rblock (h : k.Counted n)
    (hweight : mappedWeight (some (.rblock b : Block P)) = mappedWeight (k.blocks a))
    (hk : b.isMmapped → b.kblock = k.iSavedptr) : (k.put a (.rblock b)).Counted n := by
  have hmapped : (k.put a (.rblock b)).mapped = k.mapped := tally_update_of_eq hweight
  obtain ⟨hkblock, hbuffer⟩ := h.blocks_put (a := a) hk
  refine ⟨hkblock, h.held, ?_, ?_, hbuffer, h.count⟩
  · rw [hmapped]
    exact h.num
  · rw [hmapped]
    exact h.saved

omit [DecidableEq P] in
theorem Counted.linkCopy (h : k.Counted n) (hold : k.blocks a = some b₀) (h₀ : b₀.Inert)
    (hb : b.isMmapped = false) : (k.put a (.rblock b)).Counted n := by
  refine h.put_rblock ?_ ?_
  · rw [hold, mappedWeight_of_inert h₀, mappedWeight, if_neg (by simp [hb])]
  · intro hm
    rw [hb] at hm
    cases hm

omit [DecidableEq P] in
theorem Counted.recount {b' : Rblock} (h : k.Counted n) (hb : k.blocks a = some (.rblock b))
    (hm : b'.isMmapped = b.isMmapped) (hk : b'.kblock = b.kblock) :
    (k.put a (.rblock b')).Counted n := by
  refine h.put_rblock ?_ ?_
  · rw [hb, mappedWeight, mappedWeight, hm]
  · intro hm'
    exact hk.trans (h.kblock a b hb (hm ▸ hm'))

theorem Counted.linkMapped {v : Nat} (h : k.Counted n) (hold : k.blocks a = some b₀) (h₀ : b₀.Inert)
    (ha : a < k.next) (hb : b.isMmapped) (hk : b.kblock = v) (hv : (k.mm m).op.vmStart = some v)
    (hx : x.op.vmStart = none) : ((k.put a (.rblock b)).setMm m x).Counted n := by
  -- one rblock more is mapped, and one call less holds the buffer
  have hmapped : ((k.put a (.rblock b)).setMm m x).mapped = k.mapped + 1 := by
    have hsum := mapped_put (.rblock b) ha
    rw [hold, mappedWeight_of_inert h₀, mappedWeight, if_pos hb] at hsum
    exact hsum
  have hholding : ((k.put a (.rblock b)).setMm m x).holding + 1 = k.holding := by
    have hsum := holding_setMm m x (k.put a (.rblock b))
    have hmm : (k.put a (.rblock b)).mm m = k.mm m := rfl
    have hput : (k.put a (.rblock b)).holding = k.holding := rfl
    rw [hmm, holds_of_some hv, holds_of_none hx, hput] at hsum
    exact hsum
  obtain ⟨hkblock, hbuffer⟩ := h.blocks_put (a := a) fun _ => hk.trans (h.held m v hv)
  refine ⟨hkblock, ?_, ?_, ?_, hbuffer, h.count⟩
  · intro m' v' hv'
    by_cases hm : m' = m
    · rw [hm, setMm_self, hx] at hv'
      cases hv'
    · rw [setMm_of_ne _ hm] at hv'
      exact h.held m' v' hv'
  · have hnum := h.num
    change k.iNumMapping = _
    rw [hmapped]
    omega
  · have hsaved := h.saved
    change k.iSavedptr ≠ 0 ↔ _
    rw [hmapped]
    have heq : k.mapped + 1 + ((k.put a (.rblock b)).setMm m x).holding = k.mapped + k.holding := by
      omega
    rw [heq]
    exact hsaved

end

/-! ## The first mapping -/

section

variable [Fintype P] [DecidableEq P] {E : Env} {k : Kernel P} {n : Int} {m : P} {r : Request}
  {data : Nat}

theorem Linked.cramfsFilled (h : k.Linked)
    (hdata : data ≠ 0 → k.blocks data = some (.fresh m .data)) :
    (k.cramfsFilled E m r data).Linked := by
  unfold Kernel.cramfsFilled
  -- the buffer is filled in where it was got, or there is none
  by_cases h0 : data ≠ 0
  · simp only [if_pos h0]
    refine Linked.setMm (Linked.of_rblocks h (fun a => rfl) fun a b => ?_) fun a => rfl
    by_cases ha : a = data
    · rw [ha, hdata h0]
      refine ⟨fun hb => ?_, nofun⟩
      have hself := (blocks_put_self data _ _).symm.trans hb
      cases hself
    · exact iff_of_eq (congrArg (· = some (Block.rblock b)) (blocks_put_of_ne _ ha))
  · simp only [if_neg h0]
    exact Linked.setMm (Linked.of_rblocks h (fun a => rfl) fun a b => Iff.rfl) fun a => rfl

theorem Counted.cramfsFilled (h : k.Counted n) (hfit : k.Fit E m) (hs : k.iSavedptr = 0)
    (h0 : data ≠ 0) (hdata : k.blocks data = some (.fresh m .data)) :
    (k.cramfsFilled E m r data).Counted n := by
  obtain ⟨hnone, hvm, hmapped, hholding⟩ := h.none_mapped hs fun a b hb => hfit.lt_next hb
  unfold Kernel.cramfsFilled
  simp only [if_pos h0]
  -- nothing was mapped, and the call of `m` is the only one that holds the buffer
  have hmapped' : ∀ b : Block P, mappedWeight (some b) = 0 → (k.put data b).mapped = 0 := by
    intro b hb
    rw [← hmapped]
    refine tally_update_of_eq ?_
    rw [hdata, hb]
    rfl
  have hholding' : (k.setMm m { k.mm m with op := .mapTblock r data }).holding = 1 := by
    have hsum := holding_setMm m { k.mm m with op := .mapTblock r data } k
    rw [holds_of_none (hvm m), holds_of_some (v := data) rfl, hholding] at hsum
    exact hsum
  refine ⟨?_, ?_, ?_, ?_, ?_, ?_⟩
  · intro a b hb hm
    rcases blocks_of_put hb with ⟨-, hself⟩ | ⟨-, hb'⟩
    · cases hself
    · rw [hnone a b hb'] at hm
      cases hm
  · intro m' v hv
    change ((k.setMm m { k.mm m with op := .mapTblock r data }).mm m').op.vmStart = some v at hv
    by_cases hm : m' = m
    · rw [hm, setMm_self] at hv
      cases hv
      rfl
    · rw [setMm_of_ne _ hm, hvm m'] at hv
      cases hv
  · change (0 : Int) + 1 = ((k.put data _).mapped : Int) +
      ((k.setMm m { k.mm m with op := .mapTblock r data }).holding : Int)
    rw [hmapped' _ rfl, hholding']
    rfl
  · change data ≠ 0 ↔ (k.put data _).mapped + _ ≠ 0
    rw [hmapped' _ rfl]
    refine ⟨fun _ => ?_, fun _ => h0⟩
    change 0 + (k.setMm m { k.mm m with op := .mapTblock r data }).holding ≠ 0
    omega
  · -- a second buffer would be at the address 0
    intro a bytes fill hb
    rcases blocks_of_put hb with ⟨ha, -⟩ | ⟨-, hb'⟩
    · exact ha
    · exact absurd ((h.buffer a bytes fill hb').trans hs) (hfit.ne_zero hb')
  · have hcount := h.count
    rw [if_pos hs] at hcount
    change k.iCount + 1 = n + if data = 0 then 0 else 1
    rw [if_neg h0, hcount]
    omega

end

/-! ## Letting go -/

section

variable {E : Env} {k : Kernel P} {a : Nat} {m c : P} {b : Rblock} {t : Tblock} {ts : List Tblock}

theorem rblocks_cramfsFileMunmap (hfit : k.Fit E m) (a : Nat) (b : Rblock) :
    k.cramfsFileMunmap.blocks a = some (.rblock b) ↔ k.blocks a = some (.rblock b) := by
  unfold cramfsFileMunmap
  split
  · next hs =>
    split
    · -- what is freed is the buffer, not an rblock
      obtain ⟨bytes, fill, hbuf⟩ := hfit.saved hs
      refine ⟨fun h => blocks_of_kfree h, fun h => ?_⟩
      have hne : a ≠ k.iSavedptr := ne_of_blocks h hbuf (by simp)
      exact (blocks_kfree_of_ne hne).trans h
    · exact Iff.rfl
  · exact Iff.rfl

theorem Same.releaseKblock (hfit : k.Fit E m) (hb : k.blocks a = some (.rblock b))
    (hm : b.isMmapped = false) : Same k (k.releaseKblock E b) := by
  unfold Kernel.releaseKblock
  rw [if_neg (by simp [hm])]
  split
  · have hcopy : k.Only b.kblock Block.IsCopy := hfit.block a _ hb hm
    refine ((Same.refl k).account _ _).trans (Same.kfree fun b' hb' => ?_)
    have hb'' := hcopy.2 b' hb'
    match b' with
    | .copy _ _ => trivial
  · exact Same.refl k

theorem rblocks_releaseKblock (hfit : k.Fit E m) (hb : k.blocks a = some (.rblock b)) (a' : Nat)
    (b' : Rblock) :
    (k.releaseKblock E b).blocks a' = some (.rblock b') ↔ k.blocks a' = some (.rblock b') := by
  by_cases hm : b.isMmapped
  · unfold releaseKblock
    rw [if_pos hm]
    exact rblocks_cramfsFileMunmap hfit a' b'
  · exact (Same.releaseKblock hfit hb (by simpa using hm)).blocks a' _ id

theorem rblocks_dropRblock (hfit : k.Fit E m) (hb : k.blocks a = some (.rblock b)) :
    (∀ a' ≠ a, ∀ b', (k.dropRblock E a).blocks a' = some (.rblock b') ↔
      k.blocks a' = some (.rblock b')) ∧
    (k.dropRblock E a).blocks a =
      if b.refcount - 1 = 0 then none
      else some (.rblock { b with refcount := b.refcount - 1 }) := by
  unfold dropRblock
  rw [rblockAt_eq_some.mpr hb]
  dsimp only
  split
  · refine ⟨fun a' ha b' => ?_, blocks_kfree_self a _⟩
    refine Iff.trans (iff_of_eq (congrArg (· = some (Block.rblock b')) ?_))
      (rblocks_releaseKblock hfit hb a' b')
    exact blocks_kfree_of_ne ha
  · refine ⟨fun a' ha b' => ?_, blocks_put_self a _ k⟩
    rw [blocks_put_of_ne _ ha]

theorem refs_perm {y : Mm P} (h : y.tblock.Perm (t :: ts)) (a : Nat) :
    y.refs a = ts.countP (fun u => u.rblock == a) + if a = t.rblock then 1 else 0 := by
  rw [Mm.refs, h.countP_eq, countP_cons]
  congr 1
  by_cases ha : a = t.rblock
  · simp [ha]
  · have ha' : ¬ t.rblock = a := fun h => ha h.symm
    simp [ha, ha']

variable [Fintype P] [DecidableEq P] {n : Int} {x : Mm P}

omit [Fintype P] in
theorem same_releaseTblock (hfit : k.Fit E m) (hmem : t ∈ (k.mm c).tblock) :
    Same ((k.dropRblock E t.rblock).setTblock c ts) (k.releaseTblock E c t ts) := by
  refine ((Same.refl _).account _ _).trans (Same.kfree fun b hb => ?_)
  have honly := only_dropRblock (E := E) (a := t.rblock) (hfit.listed c t hmem) nofun
  rw [honly.2 b hb]
  trivial

theorem Linked.releaseTblock (h : k.Linked) (hfit : k.Fit E m)
    (hperm : (k.mm c).tblock.Perm (t :: ts)) : (k.releaseTblock E c t ts).Linked := by
  have hmem : t ∈ (k.mm c).tblock := hperm.mem_iff.mpr mem_cons_self
  obtain ⟨b, hb, hcount⟩ := h.refs t.rblock (refs_of_mem hmem)
  obtain ⟨hothers, hself⟩ := rblocks_dropRblock (E := E) hfit hb
  have hx : ∀ a', ({ k.mm c with tblock := ts } : Mm P).refs a' +
      (if a' = t.rblock then 1 else 0) = (k.mm c).refs a' :=
    fun a' => (refs_perm hperm a').symm
  -- the list is shorter by the tblock
  have hdrop : Linked ((k.dropRblock E t.rblock).setTblock c ts) := by
    have hmm : ((k.dropRblock E t.rblock).setTblock c ts).mm =
        update k.mm c { k.mm c with tblock := ts } := by
      change update (k.dropRblock E t.rblock).mm c
        { (k.dropRblock E t.rblock).mm c with tblock := ts } = _
      rw [mm_dropRblock]
    have hx' : ∀ a' ≠ t.rblock, ({ k.mm c with tblock := ts } : Mm P).refs a' =
        (k.mm c).refs a' := by
      intro a' ha
      have hsum := hx a'
      rw [if_neg ha] at hsum
      exact hsum
    have hrefs : ((k.dropRblock E t.rblock).setTblock c ts).refs t.rblock + 1 =
        k.refs t.rblock := by
      have hsum := refs_setMm t.rblock c { k.mm c with tblock := ts } k
      have hk : ((k.dropRblock E t.rblock).setTblock c ts).refs t.rblock =
          (k.setMm c { k.mm c with tblock := ts }).refs t.rblock := by
        rw [Kernel.refs, hmm]
        rfl
      have hone := hx t.rblock
      rw [if_pos rfl] at hone
      omega
    by_cases hlast : b.refcount - 1 = 0
    · rw [if_pos hlast] at hself
      exact h.remove hmm hothers hself (by omega) hx'
    · rw [if_neg hlast] at hself
      refine h.recount hmm hothers hself ?_ (by omega) hx'
      change b.refcount - 1 = _
      omega
  exact hdrop.of_same (same_releaseTblock hfit hmem)

omit [DecidableEq P] in
theorem Counted.kfree_copy (h : k.Counted n) (hb : k.blocks a = some (.rblock b))
    (hm : b.isMmapped = false) : (k.kfree a).Counted n := by
  have hmapped : (k.kfree a).mapped = k.mapped := by
    refine tally_update_of_eq ?_
    rw [hb, mappedWeight, if_neg (by simp [hm])]
    rfl
  refine ⟨fun a' b' hb' => h.kblock a' b' (blocks_of_kfree hb'), h.held, ?_, ?_,
    fun a' bytes fill hb' => h.buffer a' bytes fill (blocks_of_kfree hb'), h.count⟩
  · rw [hmapped]
    exact h.num
  · rw [hmapped]
    exact h.saved

omit [DecidableEq P] in
/-- **A mapped rblock goes**: the count is one less, and with the last one go
the buffer and the reference to the inode. -/
theorem Counted.kfree_mapped (h : k.Counted n) (hfit : k.Fit E m)
    (hb : k.blocks a = some (.rblock b)) (hm : b.isMmapped) :
    (k.cramfsFileMunmap.kfree a).Counted n := by
  have hlt := hfit.lt_next hb
  have hweight : mappedWeight (k.blocks a) = 1 := by
    rw [hb, mappedWeight, if_pos hm]
  have hmapped : (k.kfree a).mapped + 1 = k.mapped := hweight ▸ mapped_kfree hlt
  have hs : k.iSavedptr ≠ 0 := h.saved.mpr (by omega)
  have hnum := h.num
  unfold cramfsFileMunmap
  rw [if_pos hs]
  split
  · next hlast =>
    obtain ⟨bytes, fill, hbuf⟩ := hfit.saved hs
    -- the mapped rblocks and the calls that hold the buffer were this one
    have hzero : (k.kfree a).mapped = 0 ∧ k.holding = 0 := by omega
    have hmapped' : ((k.kfree k.iSavedptr).kfree a).mapped = 0 := by
      have hne : a ≠ k.iSavedptr := ne_of_blocks hb hbuf (by simp)
      have hsum := mapped_kfree (k := k.kfree k.iSavedptr) hlt
      have hfirst := mapped_kfree (hfit.lt_next hbuf)
      rw [blocks_kfree_of_ne hne, hweight] at hsum
      rw [hbuf] at hfirst
      change (k.kfree k.iSavedptr).mapped + 0 = k.mapped at hfirst
      omega
    refine ⟨?_, ?_, ?_, ?_, ?_, ?_⟩
    · intro a' b' hb' hm'
      have hle : mappedWeight (((k.kfree k.iSavedptr).kfree a).blocks a') ≤
          ((k.kfree k.iSavedptr).kfree a).mapped := by
        refine le_tally mappedWeight _ (Finset.mem_range.mpr ?_)
        exact hfit.lt_next (blocks_of_kfree (blocks_of_kfree hb'))
      have hone : mappedWeight (((k.kfree k.iSavedptr).kfree a).blocks a') = 1 := by
        rw [show ((k.kfree k.iSavedptr).kfree a).blocks a' = some (.rblock b') from hb',
          mappedWeight, if_pos hm']
      omega
    · intro m' v hv
      have hv' : (k.mm m').op.vmStart = some v := hv
      have hle : (k.mm m').holds ≤ k.holding := le_tally Mm.holds k.mm (Finset.mem_univ m')
      rw [holds_of_some hv'] at hle
      omega
    · change k.iNumMapping - 1 = (((k.kfree k.iSavedptr).kfree a).mapped : Int) + k.holding
      rw [hmapped', hzero.2, hlast]
      rfl
    · change (0 : Nat) ≠ 0 ↔ ((k.kfree k.iSavedptr).kfree a).mapped + k.holding ≠ 0
      rw [hmapped', hzero.2]
    · intro a' bytes' fill' hb'
      have hold := blocks_of_kfree (k := k.kfree k.iSavedptr) hb'
      have ha' := h.buffer a' bytes' fill' (blocks_of_kfree hold)
      rw [ha', blocks_kfree_self] at hold
      cases hold
    · have hcount := h.count
      rw [if_neg hs] at hcount
      change k.iCount - 1 = n + if (0 : Nat) = 0 then 0 else 1
      rw [if_pos rfl, hcount]
      omega
  · next hmore =>
    refine ⟨fun a' b' hb' => h.kblock a' b' (blocks_of_kfree hb'), h.held, ?_, ?_,
      fun a' bytes fill hb' => h.buffer a' bytes fill (blocks_of_kfree hb'), h.count⟩
    · change k.iNumMapping - 1 = ((k.kfree a).mapped : Int) + k.holding
      omega
    · change k.iSavedptr ≠ 0 ↔ (k.kfree a).mapped + k.holding ≠ 0
      refine ⟨fun _ => by omega, fun _ => hs⟩

omit [DecidableEq P] in
theorem Counted.dropRblock (h : k.Counted n) (hfit : k.Fit E m)
    (hb : k.blocks a = some (.rblock b)) : (k.dropRblock E a).Counted n := by
  unfold Kernel.dropRblock
  rw [rblockAt_eq_some.mpr hb]
  dsimp only
  split
  · -- the last tblock: a mapped rblock takes the count down, a copy is freed with it
    by_cases hm : b.isMmapped
    · unfold Kernel.releaseRblock Kernel.releaseKblock
      rw [if_pos hm]
      exact Counted.of_same (h.kfree_mapped hfit hb hm)
        ⟨rfl, rfl, rfl, rfl, fun _ _ _ => Iff.rfl, rfl⟩
    · have hm' : b.isMmapped = false := by simpa using hm
      have hsame := (Same.releaseKblock hfit hb hm').account (-E.ksize sizeofRblock) (-sizeofRblock)
      exact Counted.kfree_copy (h.of_same hsame) ((hsame.blocks a _ id).mpr hb) hm'
  · exact h.recount hb rfl rfl

theorem Counted.releaseTblock (h : k.Counted n) (hl : k.Linked) (hfit : k.Fit E m)
    (hmem : t ∈ (k.mm c).tblock) : (k.releaseTblock E c t ts).Counted n := by
  obtain ⟨b, hb, -⟩ := hl.refs t.rblock (refs_of_mem hmem)
  have hdrop := Counted.setMm (c := c) (x := { (k.dropRblock E t.rblock).mm c with tblock := ts })
    (h.dropRblock hfit hb) rfl
  exact hdrop.of_same (same_releaseTblock hfit hmem)

end

/-! ## The functions of the source -/

section

variable [Fintype P] [DecidableEq P] {t : Tblock} {b : Rblock}

/-- Both counts are right. -/
structure Shared (n : Int) (k : Kernel P) : Prop where
  linked : k.Linked
  counted : k.Counted n

variable {E : Env} {k k' : Kernel P} {n : Int} {m c : P} {r : Request}

omit [DecidableEq P] in
theorem Shared.of_same (h : k.Shared n) (hs : Same k k') : k'.Shared n :=
  ⟨h.linked.of_same hs, h.counted.of_same hs⟩

theorem Shared.setOp {op : Op P} (h : k.Shared n) (hv : op.vmStart = (k.mm m).op.vmStart) :
    (k.setOp m op).Shared n :=
  ⟨h.linked.setMm fun _ => rfl, h.counted.setMm hv⟩

theorem Shared.ret (h : k.Shared n) (hv : (k.mm m).op.vmStart = none) (v : Ret) :
    (k.ret m r v).Shared n := by
  have hidle : (k.setOp m .idle).Shared n := h.setOp hv.symm
  exact hidle.of_same ⟨rfl, rfl, rfl, rfl, fun _ _ _ => Iff.rfl, rfl⟩

theorem Shared.cramfsSavedPtr (h : k.Shared n) (hv : (k.mm m).op.vmStart = none)
    (hs : k.iSavedptr ≠ 0) : (k.cramfsSavedPtr m r).Shared n :=
  ⟨Linked.setMm (h.linked.of_rblocks (fun _ => rfl) fun _ _ => Iff.rfl) fun _ => rfl,
    h.counted.cramfsSavedPtr hv hs⟩

omit [Fintype P] in
theorem link_ret (t : Tblock) (b : Rblock) (v : Ret) (k : Kernel P) :
    Same (((k.put t.tblock .tblock).put t.rblock (.rblock b)).setMm m
        { k.mm m with tblock := t :: (k.mm m).tblock, op := .idle })
      ((k.link E m t b).ret m r v) := by
  refine ⟨?_, rfl, rfl, rfl, fun _ _ _ => Iff.rfl, rfl⟩
  change update (update k.mm m _) m _ = update k.mm m _
  rw [update_idem]
  congr 1
  change { ((k.setTblock m (t :: (k.mm m).tblock)).mm m) with op := Op.idle } = _
  rw [Kernel.setTblock, setMm_self]

omit [Fintype P] [DecidableEq P] in
theorem refs_cons (t : Tblock) (a : Nat) (x : Mm P) :
    ({ x with tblock := t :: x.tblock, op := .idle } : Mm P).refs a =
      x.refs a + if a = t.rblock then 1 else 0 :=
  refs_perm (y := { x with tblock := t :: x.tblock, op := .idle }) (List.Perm.refl _) a

omit [DecidableEq P] in
theorem put_tblock (h : k.Shared n) (ht : k.blocks t.tblock = some (.fresh m .tblock))
    (hrb : k.blocks t.rblock = some (.fresh m .rblock)) :
    (k.put t.tblock .tblock).Shared n ∧
      (k.put t.tblock .tblock).blocks t.rblock = some (.fresh m .rblock) := by
  exact ⟨h.of_same (Same.put ht trivial trivial), fresh_put .tblock hrb ht (by decide)⟩

theorem Shared.linkCopy (h : k.Shared n) (ht : k.blocks t.tblock = some (.fresh m .tblock))
    (hrb : k.blocks t.rblock = some (.fresh m .rblock)) (hv : (k.mm m).op.vmStart = none)
    (hb : b.refcount = 1) (hm : b.isMmapped = false) (v : Ret) :
    ((k.link E m t b).ret m r v).Shared n := by
  obtain ⟨h', hrb'⟩ := put_tblock h ht hrb
  refine Shared.of_same ⟨?_, ?_⟩ (link_ret t b v k)
  · exact h'.linked.link hrb' trivial hb fun a => refs_cons t a (k.mm m)
  · exact (h'.counted.linkCopy hrb' trivial hm).setMm hv.symm

theorem Shared.linkMapped {vmStart : Nat} (h : k.Shared n) (hfit : k.Fit E m)
    (ht : k.blocks t.tblock = some (.fresh m .tblock))
    (hrb : k.blocks t.rblock = some (.fresh m .rblock)) (hv : (k.mm m).op.vmStart = some vmStart)
    (hb : b.refcount = 1) (hm : b.isMmapped) (hk : b.kblock = vmStart) (v : Ret) :
    ((k.link E m t b).ret m r v).Shared n := by
  obtain ⟨h', hrb'⟩ := put_tblock h ht hrb
  refine Shared.of_same ⟨?_, ?_⟩ (link_ret t b v k)
  · exact h'.linked.link hrb' trivial hb fun a => refs_cons t a (k.mm m)
  · exact h'.counted.linkMapped hrb' trivial (hfit.lt_next hrb) hm hk hv rfl

theorem Shared.copyDone {result : Nat} {bytes : List UInt8} {fill : Option Fill} (h : k.Shared n)
    (ht : k.blocks t.tblock = some (.fresh m .tblock))
    (hrb : k.blocks t.rblock = some (.fresh m .rblock))
    (hres : k.blocks result = some (.fresh m .data)) (hv : (k.mm m).op.vmStart = none) :
    (k.copyDone E m r t result (.copy bytes fill)).Shared n := by
  have h' : (k.put result (.copy bytes fill)).Shared n :=
    h.of_same (Same.put hres trivial trivial)
  exact h'.linkCopy (fresh_put _ ht hres (by decide)) (fresh_put _ hrb hres (by decide)) hv rfl
    rfl _

theorem Shared.releaseTblock {ts : List Tblock} (h : k.Shared n) (hfit : k.Fit E m)
    (hperm : (k.mm c).tblock.Perm (t :: ts)) : (k.releaseTblock E c t ts).Shared n :=
  ⟨h.linked.releaseTblock hfit hperm,
    h.counted.releaseTblock h.linked hfit (hperm.mem_iff.mpr mem_cons_self)⟩

omit [Fintype P] in
theorem mm_releaseTblock_self (t : Tblock) (ts : List Tblock) :
    (k.releaseTblock E c t ts).mm c = { k.mm c with tblock := ts } := by
  change ((k.dropRblock E t.rblock).setMm c
    { (k.dropRblock E t.rblock).mm c with tblock := ts }).mm c = _
  rw [setMm_self, mm_dropRblock]

theorem Shared.exitLoop {ts : List Tblock} (h : k.Shared n) (hfit : k.Fit E m)
    (hts : (k.mm c).tblock = ts) :
    (Kernel.exitLoop E c ts k).Shared n ∧
      (Kernel.exitLoop E c ts k).mm c = { k.mm c with tblock := [] } := by
  induction ts generalizing k with
  | nil =>
    refine ⟨h, ?_⟩
    change k.mm c = _
    rw [← hts]
  | cons t ts ih =>
    have hperm : (k.mm c).tblock.Perm (t :: ts) := by rw [hts]
    have honly : ∀ u ∈ t :: ts, k.Only u.tblock (· = .tblock) := hts ▸ hfit.listed c
    have hmm := mm_releaseTblock_self (E := E) (k := k) (c := c) t ts
    obtain ⟨h', hmm'⟩ := ih (h.releaseTblock hfit hperm)
      (hfit.releaseTblock (honly t mem_cons_self)
        fun u hu => honly u (mem_cons_of_mem t hu)) (by rw [hmm])
    refine ⟨h', hmm'.trans ?_⟩
    rw [hmm]

theorem Shared.exitMmap (h : k.Shared n) (hfit : k.Fit E m) (hv : (k.mm c).op.vmStart = none) :
    (k.exitMmap E c).Shared n := by
  obtain ⟨h', hmm⟩ := h.exitLoop hfit rfl
  refine ⟨h'.linked.setMm fun a => ?_, h'.counted.setMm ?_⟩
  · rw [hmm]
    rfl
  · rw [hmm]
    exact hv.symm

theorem perm_eraseP {α : Type} {p : α → Bool} {x : α} {l : List α} (h : l.find? p = some x) :
    l.Perm (x :: l.eraseP p) := by
  induction l with
  | nil => cases h
  | cons y l ih =>
    by_cases hy : p y
    · rw [List.find?_cons_of_pos hy] at h
      cases h
      rw [eraseP_cons_of_pos hy]
    · rw [List.find?_cons_of_neg hy] at h
      rw [eraseP_cons_of_neg hy]
      exact ((ih h).cons y).trans (List.Perm.swap x y _)

theorem Shared.doMunmap (h : k.Shared n) (hfit : k.Fit E m) (addr : Nat) :
    (k.doMunmap E m addr).Shared n := by
  unfold Kernel.doMunmap
  split
  · exact h
  · split
    · exact h
    · next t ht => exact h.releaseTblock hfit (perm_eraseP ht)

theorem Shared.doMmapPgoff (h : k.Shared n) (hv : (k.mm m).op.vmStart = none) :
    (k.doMmapPgoff m r).Shared n := by
  unfold Kernel.doMmapPgoff
  split
  · exact h.ret hv _
  · split
    · unfold Kernel.cramfsFileMmap
      split
      · next hs => exact h.cramfsSavedPtr hv hs
      · exact h.setOp hv.symm
    · exact h.setOp hv.symm

theorem Shared.dupNext (h : k.Shared n) (hm : (k.mm m).op.vmStart = none)
    (hc : (k.mm c).op.vmStart = none) (ts : List Tblock) : (k.dupNext m c ts).Shared n := by
  match ts with
  | [] =>
    refine Shared.setOp (h.setOp hc.symm) ?_
    by_cases he : m = c
    · rw [he, op_setOp]
    · rw [mm_setOp_of_ne _ he, hm]
      rfl
  | t :: ts => exact h.setOp hm.symm

theorem Shared.dupLink (h : k.Shared n) (hfit : k.Fit E m)
    (hb : k.blocks t.rblock = some (.rblock b)) :
    (((k.kmalloc .tblock).put t.rblock (.rblock { b with refcount := b.refcount + 1 })).setTblock c
      ((k.mm c).tblock ++ [⟨k.next, t.rblock⟩])).Shared n := by
  -- the tblock is a block that nothing counts
  have h₁ : (k.kmalloc .tblock).Shared n :=
    h.of_same (Same.kmalloc (hfit.unused _ (Nat.le_refl _)) trivial)
  have hb₁ := hfit.blocks_kmalloc .tblock hb
  obtain ⟨x, hxdef⟩ : ∃ x : Mm P, x =
      { k.mm c with tblock := (k.mm c).tblock ++ [⟨k.next, t.rblock⟩] } := ⟨_, rfl⟩
  -- the list of the child has one tblock more for this rblock, at its end
  have hx : ∀ a, x.refs a = (k.mm c).refs a + if a = t.rblock then 1 else 0 := by
    intro a
    have hperm : x.tblock.Perm (⟨k.next, t.rblock⟩ :: (k.mm c).tblock) := by
      rw [hxdef]
      exact perm_append_singleton _ _
    exact refs_perm hperm a
  have hset : ((k.kmalloc .tblock).put t.rblock
      (.rblock { b with refcount := b.refcount + 1 })).setTblock c
        ((k.mm c).tblock ++ [⟨k.next, t.rblock⟩]) =
      ((k.kmalloc .tblock).put t.rblock
        (.rblock { b with refcount := b.refcount + 1 })).setMm c x := by
    rw [hxdef]
    rfl
  -- so one more points to the rblock, and its count goes up by one
  have hrefs : (k.setMm c x).refs t.rblock = k.refs t.rblock + 1 := by
    have hsum := refs_setMm t.rblock c x k
    have hself := hx t.rblock
    rw [if_pos rfl] at hself
    omega
  obtain ⟨b', hb', hcount⟩ := h.linked.refs _ (h.linked.linked _ _ hb)
  rw [hb] at hb'
  cases hb'
  rw [hset]
  refine ⟨?_, ?_⟩
  · refine h₁.linked.recount (a := t.rblock) (c := c) (x := x) rfl ?_
      (blocks_put_self _ _ _) ?_ ?_ ?_
    · intro a' ha b₁
      exact iff_of_eq (congrArg (· = some (Block.rblock b₁)) (blocks_put_of_ne _ ha))
    · change b.refcount + 1 = ((k.setMm c x).refs t.rblock : Int)
      omega
    · change (k.setMm c x).refs t.rblock ≠ 0
      omega
    · intro a' ha
      have hx' := hx a'
      rw [if_neg ha] at hx'
      exact hx'
  · have hcounted : ((k.kmalloc .tblock).put t.rblock
        (.rblock { b with refcount := b.refcount + 1 })).Counted n :=
      h₁.counted.recount hb₁ rfl rfl
    refine hcounted.setMm ?_
    rw [hxdef]
    rfl

end

end Kernel

end Nommu
