import Cnu680.Mm.Allocations
import Cnu680.Mm.FirstFit

/-! # The page allocator: when a search fails

A search that fails has come to the end of its chains with no region left
to claim.

1. **`failed_allocation_keeps_regions_iff`**: so it has claimed every region
   that was not in use, and nothing gives them back.
2. **`allocation_complete_iff`**: it has looked at every region that the
   request may use, with two exceptions. A region on a chain is passed over
   if it would be filled to the last page. And the scan for one or two pages
   sees only some of the runs.
-/

open Framework Function List

namespace PageAlloc

/-! ## The regions after a search -/

section
variable {L : Layout} {rs rs' : Regions} {map : ℕ → Bool} {req : Request} {l l' : Label}

theorem Goes.regions (hgo : Goes L map req rs l rs' l') (hnone : rs.findUnused req.dma = none) :
    rs' = rs := by
  cases hgo with
  | claim hlink hunused =>
    rw [hnone] at hunused
    cases hunused
  | found hscan => rfl
  | notFound hscan => rfl
  | next hlink hroom => rfl
  | skip hlink hroom => rfl
  | toDma hlink hunused huse => rfl
  | giveUp hlink hunused huse => rfl

theorem Goes.noMemory (hgo : Goes L map req rs l rs' l') (hl : l' = .noMemory) :
    rs'.findUnused req.dma = none := by
  cases hgo with
  | giveUp hlink hunused huse => exact hunused
  | found hscan => cases hl
  | notFound hscan => cases hl
  | next hlink hroom => cases hl
  | skip hlink hroom => cases hl
  | claim hlink hunused => cases hl
  | toDma hlink hunused huse => cases hl

theorem search_regions {k : ℕ} {x : Option (Region × ℕ)} (hnone : rs.findUnused req.dma = none)
    (h : search L map req k rs l = .ok (rs', x)) : rs' = rs :=
  search_invariant (I := fun rs₁ _ => rs₁ = rs)
    (fun _ _ _ _ heq hgo => (hgo.regions (heq ▸ hnone)).trans heq) rfl h

/-- **A search that fails** has left no region to claim. -/
theorem search_none {k : ℕ} (h : search L map req k rs l = .ok (rs', none))
    (hl : l = .noMemory → rs.findUnused req.dma = none) : rs'.findUnused req.dma = none :=
  search_invariant (I := fun rs l => l = .noMemory → rs.findUnused req.dma = none)
    (fun _ _ _ _ _ hgo => hgo.noMemory) hl h rfl

theorem firstLabel_ne_noMemory (firstUsablePage : ℕ) :
    firstLabel L req firstUsablePage ≠ .noMemory := by
  unfold firstLabel scanAgain
  split_ifs <;> simp

end

/-! ## Calls that fail -/

/-- The fields `in_use` and `link` of every region are the same. -/
structure SameRegions (rs rs' : Regions) : Prop where
  inUse : rs'.inUse = rs.inUse
  link : rs'.link = rs.link

theorem SameRegions.trans_iff {rs rs' rs'' : Regions} (h : SameRegions rs' rs'') :
    SameRegions rs rs'' ↔ SameRegions rs rs' := by
  constructor
  · intro h'
    exact ⟨h.inUse.symm.trans h'.inUse, h.link.symm.trans h'.link⟩
  · intro h'
    exact ⟨h.inUse.trans h'.inUse, h.link.trans h'.link⟩

/-- There is nothing that a search for the request could claim: none is made,
or all regions are in use. -/
def NothingToClaim (a : Alloc) (req : Request) : Prop :=
  a.pages.nrFreePages < req.numAdjpages ∨ ∀ g, a.regions.inUse g ≠ .notAllocated

section
variable {L : Layout} {a a' : Alloc} {live : List Run} {req : Request}

theorem Inv.failed_search (h : Inv L a live) (hget : a.getContiguousPages L req = .ok (a', none)) :
    (SameRegions a.regions a'.regions ↔ NothingToClaim a req) ∧ NothingToClaim a' req := by
  unfold Alloc.getContiguousPages at hget
  by_cases hfree : req.numAdjpages ≤ a.pages.nrFreePages
  · rw [if_pos hfree] at hget
    obtain ⟨⟨rs, y⟩, hsearch, hy⟩ := bind_eq_ok.mp hget
    obtain ⟨hregions, -, -⟩ := search_ok h.regions h.reserved_one h.labelOk_first hsearch
    cases y with
    | some y => cases hy
    | none =>
      cases hy
      have hend := hregions.findUnused_eq_none_iff.mp (search_none hsearch fun hl =>
        absurd hl (firstLabel_ne_noMemory _))
      refine ⟨⟨fun hsame => .inr fun g => ?_, fun hnothing => ?_⟩, .inr hend⟩
      · rw [← hsame.inUse]
        exact hend g
      · rcases hnothing with hfew | hused
        · omega
        · rw [search_regions (h.regions.findUnused_eq_none_iff.mpr hused) hsearch]
          exact ⟨rfl, rfl⟩
  · rw [if_neg hfree] at hget
    cases hget
    have hfew : NothingToClaim a req := .inl (Nat.lt_of_not_le hfree)
    exact ⟨iff_of_true ⟨rfl, rfl⟩ hfew, hfew⟩

theorem Inv.granted_ne_zero (h : Inv L a live) {addr : ℕ}
    (hget : a.getContiguousPages L req = .ok (a', some addr)) : addr ≠ 0 := by
  obtain ⟨hpassed, -⟩ := h.getContiguousPages hget
  cases hpassed with
  | granted hinv hfit =>
    have htwo := two_le_of_clear h.map hfit.first_clear
    unfold pageAddress PAGE_SIZE
    omega

end

section
variable {P : Type} [DecidableEq P] {L : Layout} {s s' : System P} {p : P} {c : Call}

theorem passes_of_returned {n : ℕ} (hc : s.call p = none)
    (hrun : run (step L) s (List.replicate n (.pass p)) = .ok s') : s' = s := by
  cases n with
  | zero =>
    cases hrun
    rfl
  | succ n =>
    obtain ⟨s₁, hstep, -⟩ := bind_eq_ok.mp hrun
    obtain ⟨c, x, hsome, -, -⟩ := step_pass hstep
    rw [hc] at hsome
    cases hsome

theorem System.passed_none (s : System P) (p : P) (c : Call) (a : Alloc) :
    (s.passed p c (a, none)).alloc = a ∧ (s.passed p c (a, none)).live = s.live ∧
      ((s.passed p c (a, none)).call p = none ∨
        (s.passed p c (a, none)).call p = some { c with repeats := c.repeats + 1 }) := by
  unfold System.passed
  dsimp only
  split_ifs
  · exact ⟨rfl, rfl, .inl (update_self ..)⟩
  · exact ⟨rfl, rfl, .inr (update_self ..)⟩
  · exact ⟨rfl, rfl, .inl (update_self ..)⟩

/-- The searches of one call that returns 0: the first one settles what
becomes of the regions, since it leaves nothing to claim. -/
theorem passes_failed {n : ℕ} (h : Inv L s.alloc s.live) (hc : s.call p = some c)
    (hrun : run (step L) s (List.replicate n (.pass p)) = .ok s') (hdone : s'.call p = none)
    (hzero : s'.returned p = 0) :
    SameRegions s.alloc.regions s'.alloc.regions ↔ NothingToClaim s.alloc c.req := by
  induction n generalizing s c with
  | zero =>
    cases hrun
    rw [hc] at hdone
    cases hdone
  | succ n ih =>
    obtain ⟨s₁, hstep, hrest⟩ := bind_eq_ok.mp hrun
    obtain ⟨h₁, -⟩ := step_inv h hstep
    obtain ⟨c', ⟨a, y⟩, hc', hget, hs₁⟩ := step_pass hstep
    obtain rfl : c = c' := Option.some.inj (hc.symm.trans hc')
    cases y with
    | some addr =>
      -- such a call does not return 0
      have hret : s₁.call p = none := by
        rw [hs₁]
        exact update_self ..
      have haddr : s₁.returned p = addr := by
        rw [hs₁]
        exact update_self ..
      rw [passes_of_returned hret hrest, haddr] at hzero
      exact absurd hzero (h.granted_ne_zero hget)
    | none =>
      obtain ⟨hfirst, hlater⟩ := h.failed_search hget
      obtain ⟨halloc, -, hcall⟩ := s.passed_none p c a
      rw [← hs₁] at halloc hcall
      rw [← halloc] at hfirst hlater
      rcases hcall with hret | hagain
      · rw [passes_of_returned hret hrest]
        exact hfirst
      · rw [(((ih h₁ hagain hrest).mpr hlater).trans_iff)]
        exact hfirst

/-- **A failed allocation and the regions.** In every reachable state, a call
that returns 0, with no other call in between, leaves `in_use` and `link`
of every region alone if and only if there are too few free pages for a
search, or no region was there to be claimed. -/
theorem failed_allocation_keeps_regions_iff {rest : ℕ → Bool} {boot : BootPages L}
    {es : List (Event P)} (hrun : run (step L) (booted L rest boot) es = .ok s) (p : P)
    (req : Request) (memalloc : Bool) (n : ℕ)
    (hcall : run (step L) s (.enter p req memalloc :: List.replicate n (.pass p)) = .ok s')
    (hdone : s'.call p = none) (hzero : s'.returned p = 0) :
    SameRegions s.alloc.regions s'.alloc.regions ↔ NothingToClaim s.alloc req := by
  obtain ⟨s₁, henter, hpasses⟩ := bind_eq_ok.mp hcall
  obtain ⟨h₁, -⟩ := step_inv (run_inv hrun) henter
  unfold step at henter
  dsimp only at henter
  split_ifs at henter
  cases henter
  have hc : update s.call p (some ⟨req, memalloc, 0⟩) p = some ⟨req, memalloc, 0⟩ :=
    Function.update_self ..
  exact passes_failed h₁ hc hpasses hdone hzero

end

/-- Two pages of the last window of region 0 are free, not next to each other. -/
def apartPages : BootPages .s3c2510 where
  pages := [3064, 3066]
  nodup := by decide
  mem_bound := by decide

def twoPages : Request := ⟨false, 2, 0, Nat.two_pos⟩

/-- A call for two pages that makes one search. -/
def callForTwo : List (Event Unit) := .enter () twoPages true :: List.replicate 1 (.pass ())

/-- Two pages next to each other are asked for when there are none. The call
fails, and all regions are taken for cached memory. -/
theorem failed_allocation_claims_regions : ∃ s',
    run (step .s3c2510) (booted .s3c2510 (fun _ => false) apartPages) callForTwo = .ok s' ∧
      s'.call () = none ∧ s'.returned () = 0 ∧
      (∀ g, g ≠ 1 → s'.alloc.regions.inUse g = .cacheable) ∧
      ¬ SameRegions (booted (P := Unit) .s3c2510 (fun _ => false) apartPages).alloc.regions
        s'.alloc.regions := by
  obtain ⟨s', hs', hcall, hret, huse⟩ : ∃ s',
      run (step .s3c2510) (booted .s3c2510 (fun _ => false) apartPages) callForTwo = .ok s' ∧
      s'.call () = none ∧ s'.returned () = 0 ∧
      ∀ g, g ≠ 1 → s'.alloc.regions.inUse g = .cacheable := by
    decide +kernel
  refine ⟨s', hs', hcall, hret, huse, fun hsame => ?_⟩
  -- at the start region 5 is not in use
  have hunused := (starting_booted .s3c2510 (fun _ => false) apartPages).unclaimed 5
    (by decide) (by decide)
  have hfive := huse 5 (by decide)
  rw [hsame.inUse] at hfive
  exact absurd (hunused.symm.trans hfive) (by decide)

/-- The same call once more: there is nothing left to claim. -/
theorem failed_allocation_keeps_regions_again : ∃ s s',
    run (step .s3c2510) (booted .s3c2510 (fun _ => false) apartPages) callForTwo = .ok s ∧
      run (step .s3c2510) s callForTwo = .ok s' ∧
      SameRegions s.alloc.regions s'.alloc.regions := by
  obtain ⟨s, s', hs, hs', hused, hcall, hret⟩ : ∃ s s',
      run (step .s3c2510) (booted .s3c2510 (fun _ => false) apartPages) callForTwo = .ok s ∧
      run (step .s3c2510) s callForTwo = .ok s' ∧
      (∀ g, s.alloc.regions.inUse g ≠ .notAllocated) ∧ s'.call () = none ∧
      s'.returned () = 0 := by
    decide +kernel
  refine ⟨s, s', hs, hs', ?_⟩
  have hiff := failed_allocation_keeps_regions_iff hs () twoPages true 1 hs' hcall hret
  exact hiff.mpr (.inr hused)

/-! ## Where a search goes -/

/-- The regions that a search goes on to from the end of the scan of `g`. -/
def Ahead (L : Layout) (req : Request) (rs : Regions) (g x : Region) : Prop :=
  (∃ rest, Path rs.link g rest ∧ x ∈ rest ∧ Room L rs req x) ∨
    rs.inUse x = .notAllocated ∨
    rs.inUse g = .cacheable ∧ rs.inUse x = .dma ∧ (x = chainHead true ∨ Room L rs req x)

section
variable {L : Layout} {req : Request} {rs : Regions} {chain : Bool → List Region} {g i l x : Region}

theorem ahead_next (hchain : Chains rs chain) (hlink : rs.link g = some l) :
    Ahead L req rs g x ↔ x = l ∧ Room L rs req l ∨ Ahead L req rs l x := by
  have huse := hchain.inUse_of_link hlink
  constructor
  · rintro (⟨rest, hpath, hx, hroom⟩ | hunused | hdma)
    · cases rest with
      | nil => cases hx
      | cons y rest =>
        obtain ⟨hy, hrest⟩ := hpath
        obtain rfl : l = y := Option.some.inj (hlink.symm.trans hy)
        rcases mem_cons.mp hx with rfl | hx
        · exact .inl ⟨rfl, hroom⟩
        · exact .inr (.inl ⟨rest, hrest, hx, hroom⟩)
    · exact .inr (.inr (.inl hunused))
    · rw [← huse] at hdma
      exact .inr (.inr (.inr hdma))
  · rintro (⟨rfl, hroom⟩ | ⟨rest, hpath, hx, hroom⟩ | hunused | hdma)
    · obtain ⟨k, -, hmem⟩ := hchain.mem_of_link hlink
      obtain ⟨rest, hrest⟩ := (hchain.path k).exists_path_of_mem (mem_cons_of_mem _ hmem)
      exact .inl ⟨x :: rest, ⟨hlink, hrest⟩, mem_cons_self, hroom⟩
    · exact .inl ⟨l :: rest, ⟨hlink, hpath⟩, mem_cons_of_mem l hx, hroom⟩
    · exact .inr (.inl hunused)
    · rw [huse] at hdma
      exact .inr (.inr hdma)

theorem ahead_end (hlink : rs.link g = none) : Ahead L req rs g x ↔
    rs.inUse x = .notAllocated ∨
      rs.inUse g = .cacheable ∧ rs.inUse x = .dma ∧ (x = chainHead true ∨ Room L rs req x) := by
  refine or_iff_right ?_
  rintro ⟨rest, hpath, hx, -⟩
  have hend : Path rs.link g [] := hlink
  rw [hpath.unique hend] at hx
  cases hx

theorem ahead_claim (hlink : rs.link g = none) (hi : rs.inUse i = .notAllocated) :
    Ahead L req rs g x ↔ x = i ∨ Ahead L req (rs.claim g i) i x := by
  have hlink' : (rs.claim g i).link i = none := update_self ..
  have huse' : (rs.claim g i).inUse i = rs.inUse g := update_self ..
  rw [ahead_end hlink, ahead_end hlink', huse']
  by_cases hx : x = i
  · subst hx
    exact iff_of_true (.inl hi) (.inl rfl)
  · -- nothing changes for the other regions
    have huse : (rs.claim g i).inUse x = rs.inUse x := update_of_ne hx ..
    have hpages : (rs.claim g i).usedPages x = rs.usedPages x := update_of_ne hx ..
    unfold Room
    rw [huse, hpages]
    exact (or_iff_right hx).symm

theorem ahead_toDma (hchain : Chains rs chain) (hlink : rs.link g = none)
    (hall : ∀ g, rs.inUse g ≠ .notAllocated) (huse : rs.inUse g = .cacheable) :
    Ahead L req rs g x ↔ x = 1 ∨ Ahead L req rs 1 x := by
  have hdma : ∀ y, y ∈ 1 :: chain true ↔ rs.inUse y = .dma := hchain.mem_iff true
  rw [ahead_end hlink, or_iff_right (hall x)]
  constructor
  · rintro ⟨-, hx, hone | hroom⟩
    · exact .inl hone
    · rcases mem_cons.mp ((hdma x).mpr hx) with hone | hmem
      · exact .inl hone
      · exact .inr (.inl ⟨chain true, hchain.path true, hmem, hroom⟩)
  · rintro (rfl | ⟨rest, hpath, hx, hroom⟩ | hunused | ⟨hcached, -, -⟩)
    · exact ⟨huse, (hdma 1).mp mem_cons_self, .inl rfl⟩
    · rw [hpath.unique (hchain.path true)] at hx
      exact ⟨huse, (hdma x).mp (mem_cons_of_mem 1 hx), .inr hroom⟩
    · exact absurd hunused (hall x)
    · rw [(hdma 1).mp mem_cons_self] at hcached
      cases hcached

theorem ahead_ne_zero (hchain : Chains rs chain) (h : Ahead L req rs g x) : x ≠ 0 := by
  rcases h with ⟨rest, hpath, hx, -⟩ | hunused | ⟨-, hdma, -⟩
  · obtain ⟨y, -, hlink⟩ := hpath.exists_prev hx
    exact hchain.link_ne_zero hlink
  · exact hchain.ne_zero_of_unused hunused
  · rintro rfl
    have hzero : rs.inUse 0 = .cacheable := hchain.inUse_head false
    rw [hzero] at hdma
    cases hdma

end

/-! ## What a search finds -/

/-- The scan of a region from its start finds something. -/
def Hit (L : Layout) (map : ℕ → Bool) (req : Request) (g : Region) : Prop :=
  ∃ i, Sees map req (L.startOfAllocBitMap g) (L.endOfAllocBitMap g) i

/-- The search finds something from a label on. -/
def Finds (L : Layout) (map : ℕ → Bool) (req : Request) (rs : Regions) : Label → Prop
  | .scanAgain2 g start =>
    (∃ i, Sees map req start (L.endOfAllocBitMap g) i) ∨ ∃ x, Ahead L req rs g x ∧ Hit L map req x
  | .scanRegionLink g => ∃ x, Ahead L req rs g x ∧ Hit L map req x
  | .found _ _ => True
  | .noMemory => False

section
variable {L : Layout} {map : ℕ → Bool} {req : Request} {rs rs' : Regions} {live : List Run}
  {l l' : Label}

/-- What there is ahead of `g`: the region `y`, and what there is ahead of it. -/
theorem finds_scanAgain {g y : Region} (h : ∀ x, Ahead L req rs g x ↔ x = y ∨ Ahead L req rs' y x) :
    Finds L map req rs (.scanRegionLink g) ↔ Finds L map req rs' (scanAgain L y) := by
  constructor
  · rintro ⟨x, hx, hhit⟩
    rcases (h x).mp hx with rfl | hx
    · exact .inl hhit
    · exact .inr ⟨x, hx, hhit⟩
  · rintro (hhit | ⟨x, hx, hhit⟩)
    · exact ⟨y, (h y).mpr (.inl rfl), hhit⟩
    · exact ⟨x, (h x).mpr (.inr hx), hhit⟩

theorem scan_of_label (hone : map 1 = true) {g : Region} {start : ℕ} (hpos : 0 < start)
    {r : Option ℕ} (hscan : scan map req start (L.endOfAllocBitMap g) = .ok r) :
    r.isSome ↔ ∃ i, Sees map req start (L.endOfAllocBitMap g) i := by
  obtain ⟨hwindow, hend, hsize⟩ := L.end_bounds g
  exact scan_isSome_iff hone hpos hwindow hend (hsize.trans_lt L.bitMapSize_lt) hscan

/-- **No goto loses or gains** what the search finds. -/
theorem Goes.finds (hgo : Goes L map req rs l rs' l') (h : RegionsOk L rs live)
    (hone : map 1 = true) (hl : LabelOk L map req rs l) :
    Finds L map req rs l ↔ Finds L map req rs' l' := by
  obtain ⟨chain, hchain⟩ := h.chains
  cases hgo with
  | found hscan =>
    obtain ⟨-, -, hpos⟩ := hl
    exact iff_of_true (.inl ((scan_of_label hone hpos hscan).mp rfl)) trivial
  | notFound hscan =>
    obtain ⟨-, -, hpos⟩ := hl
    refine or_iff_right fun hsees => ?_
    cases (scan_of_label hone hpos hscan).mpr hsees
  | next hlink hroom =>
    refine finds_scanAgain fun x => ?_
    rw [ahead_next hchain hlink, and_iff_left hroom]
  | skip hlink hroom =>
    refine exists_congr fun x => and_congr_left' ?_
    rw [ahead_next hchain hlink]
    exact or_iff_right fun hx => hroom hx.2
  | claim hlink hunused =>
    exact finds_scanAgain fun x => ahead_claim hlink (Regions.inUse_of_findUnused hunused)
  | toDma hlink hunused huse =>
    exact finds_scanAgain fun x =>
      ahead_toDma hchain hlink (h.findUnused_eq_none_iff.mp hunused) huse
  | giveUp hlink hunused huse =>
    refine iff_of_false ?_ id
    rintro ⟨x, hx, -⟩
    rcases (ahead_end hlink).mp hx with hnot | ⟨hcached, -⟩
    · exact h.findUnused_eq_none_iff.mp hunused x hnot
    · exact huse hcached

/-- **What a search finds.** -/
theorem search_isSome_iff {k : ℕ} {x : Option (Region × ℕ)} (h : RegionsOk L rs live)
    (hone : map 1 = true) (hl : LabelOk L map req rs l)
    (hsearch : search L map req k rs l = .ok (rs', x)) : x.isSome ↔ Finds L map req rs l := by
  obtain ⟨-, -, hfinds⟩ := search_invariant (I := fun rs₁ l₁ => RegionsOk L rs₁ live ∧
      LabelOk L map req rs₁ l₁ ∧ (Finds L map req rs l ↔ Finds L map req rs₁ l₁))
    (fun _ _ _ _ ⟨h₁, hl₁, hfinds⟩ hgo =>
      let ⟨h₂, hl₂, _⟩ := hgo.ok h₁ hone hl₁
      ⟨h₂, hl₂, hfinds.trans (hgo.finds h₁ hone hl₁)⟩) ⟨h, hl, Iff.rfl⟩ hsearch
  rw [hfinds]
  cases x with
  | none => exact iff_of_false (by simp) id
  | some x => exact iff_of_true rfl trivial

end

/-! ## Completeness -/

/-- A request for DMA may use the regions for DMA and those not in use; any
other request may use all regions. -/
def MayUse (rs : Regions) (req : Request) (g : Region) : Prop :=
  req.dma = true → rs.inUse g ≠ .cacheable

/-- The regions that are scanned, unless something is found before. -/
def LookedAt (L : Layout) (rs : Regions) (req : Request) (g : Region) : Prop :=
  g = chainHead false ∨ g = chainHead true ∨ rs.inUse g = .notAllocated ∨ Room L rs req g

/-- The runs of free pages in a region that a request may be given. -/
def runsIn (L : Layout) (a : Alloc) (req : Request) (g : Region) : Set ℕ :=
  candidates a.pages.bitMap req (L.startOfAllocBitMap g) (L.endOfAllocBitMap g)

/-- One or two pages have to start with the first free page of their window of
eight pages, and in region 0 the window must not start below
`first_usable_page`. -/
def InView (a : Alloc) (req : Request) (g : Region) (i : ℕ) : Prop :=
  req.numAdjpages ≤ 2 →
    (∀ j, 8 * (i / 8) ≤ j → j < i → a.pages.bitMap j = true) ∧
      (g = chainHead false → a.pages.firstUsablePage ≤ 8 * (i / 8))

/-- Where the scan of a region starts. -/
def scanStart (L : Layout) (a : Alloc) (g : Region) : ℕ :=
  if g = chainHead false then a.pages.firstUsablePage else L.startOfAllocBitMap g

section
variable {L : Layout} {a : Alloc} {live : List Run} {req : Request}

/-- The head of its chain and what there is ahead of it are what a search
looks at. -/
theorem ahead_head_iff (h : RegionsOk L a.regions live) (x : Region) :
    x = chainHead req.dma ∨ Ahead L req a.regions (chainHead req.dma) x ↔
      MayUse a.regions req x ∧ LookedAt L a.regions req x := by
  obtain ⟨chain, hchain⟩ := h.chains
  have hhead := hchain.inUse_head req.dma
  have hmem := hchain.mem_iff req.dma
  constructor
  · rintro (rfl | ⟨rest, hpath, hx, hroom⟩ | hunused | ⟨-, hdma, hx⟩)
    · refine ⟨fun hdma => by rw [hhead, hdma]; decide, ?_⟩
      cases req.dma with
      | false => exact .inl rfl
      | true => exact .inr (.inl rfl)
    · rw [hpath.unique (hchain.path _)] at hx
      refine ⟨fun hdma => ?_, .inr (.inr (.inr hroom))⟩
      rw [(hmem x).mp (mem_cons_of_mem _ hx), hdma]
      decide
    · exact ⟨fun _ => by rw [hunused]; decide, .inr (.inr (.inl hunused))⟩
    · exact ⟨fun _ => by rw [hdma]; decide, .inr (hx.imp_right .inr)⟩
  · rintro ⟨hmay, hlook⟩
    by_cases hunused : a.regions.inUse x = .notAllocated
    · exact .inr (.inr (.inl hunused))
    obtain ⟨k, hk⟩ := exists_chainUse hunused
    have hx : x = chainHead k ∨ Room L a.regions req x := by
      rcases hlook with rfl | rfl | hnot | hroom
      · exact .inl (congrArg chainHead (chainUse_inj ((hchain.inUse_head false).symm.trans hk)))
      · exact .inl (congrArg chainHead (chainUse_inj ((hchain.inUse_head true).symm.trans hk)))
      · exact absurd hnot hunused
      · exact .inr hroom
    -- on the chain of the request, or on the other one behind the cached regions
    by_cases hdma : k = req.dma
    · subst hdma
      rcases hx with hx | hroom
      · exact .inl hx
      · exact (mem_cons.mp ((hmem x).mpr hk)).imp_right fun hx =>
          .inl ⟨chain req.dma, hchain.path _, hx, hroom⟩
    · cases hreq : req.dma with
      | true =>
        obtain rfl : k = false := by simpa [hreq] using hdma
        exact absurd hk (hmay hreq)
      | false =>
        obtain rfl : k = true := by simpa [hreq] using hdma
        exact .inr (.inr (.inr ⟨hchain.inUse_head false, hk, hx⟩))

/-- **What a whole search sees.** -/
theorem Inv.finds_first_iff (h : Inv L a live) :
    Finds L a.pages.bitMap req a.regions (firstLabel L req a.pages.firstUsablePage) ↔
      ∃ g i, MayUse a.regions req g ∧ LookedAt L a.regions req g ∧
        Sees a.pages.bitMap req (scanStart L a g) (L.endOfAllocBitMap g) i := by
  obtain ⟨chain, hchain⟩ := h.regions.chains
  have hstart : ∀ {g}, g ≠ 0 → scanStart L a g = L.startOfAllocBitMap g := fun hg => if_neg hg
  have hfirst : Finds L a.pages.bitMap req a.regions
        (firstLabel L req a.pages.firstUsablePage) ↔
      (∃ i, Sees a.pages.bitMap req (scanStart L a (chainHead req.dma))
        (L.endOfAllocBitMap (chainHead req.dma)) i) ∨
      ∃ x, Ahead L req a.regions (chainHead req.dma) x ∧ Hit L a.pages.bitMap req x := by
    unfold firstLabel
    cases req.dma <;> exact Iff.rfl
  rw [hfirst]
  constructor
  · rintro (⟨i, hi⟩ | ⟨x, hx, i, hi⟩)
    · obtain ⟨hmay, hlook⟩ := (ahead_head_iff h.regions (chainHead req.dma)).mp (.inl rfl)
      exact ⟨_, i, hmay, hlook, hi⟩
    · obtain ⟨hmay, hlook⟩ := (ahead_head_iff h.regions x).mp (.inr hx)
      refine ⟨x, i, hmay, hlook, ?_⟩
      rwa [hstart (ahead_ne_zero hchain hx)]
  · rintro ⟨g, i, hmay, hlook, hi⟩
    rcases (ahead_head_iff h.regions g).mpr ⟨hmay, hlook⟩ with rfl | hx
    · exact .inl ⟨i, hi⟩
    · rw [hstart (ahead_ne_zero hchain hx)] at hi
      exact .inr ⟨g, hx, i, hi⟩

theorem Layout.start_window (L : Layout) {g : Region} (hg : g ≠ 0) :
    8 ∣ L.startOfAllocBitMap g := by
  -- every region but the first one starts where another one ends
  have hprev : ∃ g', L.startOfAllocBitMap g = L.endOfAllocBitMap g' := by
    fin_cases g
    · exact absurd rfl hg
    · exact ⟨2, rfl⟩
    · exact ⟨3, rfl⟩
    · exact ⟨4, rfl⟩
    · exact ⟨5, rfl⟩
    · exact ⟨0, rfl⟩
  obtain ⟨g', hg'⟩ := hprev
  rw [hg']
  exact (L.end_bounds g').1

theorem firstFree_iff {map : ℕ → Bool} {w i : ℕ} : FirstFree map w i ↔
    w = 8 * (i / 8) ∧ map i = false ∧ ∀ j, w ≤ j → j < i → map j = true := by
  constructor
  · rintro ⟨hwindow, hle, hlt, hclear, hused⟩
    exact ⟨by omega, hclear, hused⟩
  · rintro ⟨rfl, hclear, hused⟩
    exact ⟨Nat.dvd_mul_right 8 _, by omega, by omega, hclear, hused⟩

theorem Inv.sees_iff (h : Inv L a live) (g : Region) (i : ℕ) :
    Sees a.pages.bitMap req (scanStart L a g) (L.endOfAllocBitMap g) i ↔
      i ∈ runsIn L a req g ∧ InView a req g i := by
  have hsize := (L.end_bounds g).2.2
  have hle : i ∈ runsIn L a req g → scanStart L a g ≤ i := by
    intro hi
    unfold scanStart
    split_ifs
    · -- no page below the first usable one is free
      by_contra hlt
      have hused := h.map.low i (Nat.lt_of_not_le hlt)
      rw [((fitsAt_iff hsize).mpr hi).first_clear] at hused
      cases hused
    · exact hi.1
  have hge : L.startOfAllocBitMap g ≤ scanStart L a g := by
    unfold scanStart
    split_ifs with hg
    · subst hg
      show mapNr 0 ≤ _
      simp [mapNr]
    · exact Nat.le_refl _
  constructor
  · rintro ⟨hfit, hwindow⟩
    refine ⟨(fitsAt_iff hsize).mp (hfit.of_start (hge.trans hfit.start_le)), fun hsmall => ?_⟩
    obtain ⟨w, hw, hff⟩ := hwindow hsmall
    obtain ⟨rfl, -, hused⟩ := firstFree_iff.mp hff
    refine ⟨hused, fun hg => ?_⟩
    rwa [scanStart, if_pos hg] at hw
  · rintro ⟨hi, hview⟩
    have hfit := (fitsAt_iff hsize).mpr hi
    refine ⟨hfit.of_start (hle hi), fun hsmall => ?_⟩
    obtain ⟨hused, hlow⟩ := hview hsmall
    refine ⟨8 * (i / 8), ?_, firstFree_iff.mpr ⟨rfl, hfit.first_clear, hused⟩⟩
    unfold scanStart
    split_ifs with hg
    · exact hlow hg
    · have hstart := hi.1
      have hdvd := L.start_window hg
      omega

/-- **When a search succeeds.** -/
theorem Inv.succeeds_iff (h : Inv L a live) (req : Request) :
    (∃ a' addr, a.getContiguousPages L req = .ok (a', some addr)) ↔
      ∃ g i, MayUse a.regions req g ∧ LookedAt L a.regions req g ∧ i ∈ runsIn L a req g ∧
        InView a req g i := by
  have hsees : (∃ g i, MayUse a.regions req g ∧ LookedAt L a.regions req g ∧
      Sees a.pages.bitMap req (scanStart L a g) (L.endOfAllocBitMap g) i) ↔
      ∃ g i, MayUse a.regions req g ∧ LookedAt L a.regions req g ∧ i ∈ runsIn L a req g ∧
        InView a req g i := by
    simp only [h.sees_iff]
  rw [← hsees, ← h.finds_first_iff]
  unfold Alloc.getContiguousPages
  by_cases hfree : req.numAdjpages ≤ a.pages.nrFreePages
  · rw [if_pos hfree]
    obtain ⟨⟨rs, y⟩, hsearch⟩ := h.search_ends req
    rw [← search_isSome_iff h.regions h.reserved_one h.labelOk_first hsearch, hsearch]
    cases y with
    | none =>
      refine iff_of_false ?_ (by simp)
      rintro ⟨a', addr, hget⟩
      cases hget
    | some y => exact iff_of_true ⟨_, _, rfl⟩ rfl
  · -- a run of free pages is not longer than there are free pages
    rw [if_neg hfree]
    refine iff_of_false ?_ ?_
    · rintro ⟨a', addr, hget⟩
      cases hget
    · intro hfinds
      obtain ⟨g, i, -, -, hi⟩ := h.finds_first_iff.mp hfinds
      have hcount := hi.fits.clearBits_takeRun (L.end_bounds g).2.2
      have hnr := h.map.nrFree
      omega

end

/-- **Completeness of the allocator.** In every reachable state: where some
region that a request may use has a run of free pages for it, the first
search finds one, if and only if there is no such run or one of them is in a
region that is looked at, and is in view. -/
theorem allocation_complete_iff {P : Type} [DecidableEq P] {L : Layout} {rest : ℕ → Bool}
    {boot : BootPages L} {es : List (Event P)} {s : System P}
    (hrun : run (step L) (booted L rest boot) es = .ok s) (req : Request) :
    ((∃ g, MayUse s.alloc.regions req g ∧ (runsIn L s.alloc req g).Nonempty) →
        ∃ a' addr, s.alloc.getContiguousPages L req = .ok (a', some addr)) ↔
      (∀ g, MayUse s.alloc.regions req g → ¬ (runsIn L s.alloc req g).Nonempty) ∨
        ∃ g i, MayUse s.alloc.regions req g ∧ LookedAt L s.alloc.regions req g ∧
          i ∈ runsIn L s.alloc req g ∧ InView s.alloc req g i := by
  rw [(run_inv hrun).succeeds_iff req]
  constructor
  · intro h
    by_cases hsome : ∃ g, MayUse s.alloc.regions req g ∧ (runsIn L s.alloc req g).Nonempty
    · exact .inr (h hsome)
    · exact .inl fun g hmay hne => hsome ⟨g, hmay, hne⟩
  · rintro (hnone | hfound) ⟨g, hmay, hne⟩
    · exact absurd hne (hnone g hmay)
    · exact hfound

theorem windowPair_runs : 3064 ∈ runsIn .s3c2510
    (booted (P := Unit) .s3c2510 (fun _ => false) windowPair).alloc evenPair 0 := by
  refine ⟨by decide, by decide, by decide, fun j hle hlt => ?_⟩
  have hlt : j < 3066 := hlt
  obtain rfl | rfl : j = 3064 ∨ j = 3065 := by omega
  · decide +kernel
  · decide +kernel

theorem allocation_complete_even_pair : ∃ a' addr,
    (booted (P := Unit) .s3c2510 (fun _ => false) windowPair).alloc.getContiguousPages .s3c2510
      evenPair = .ok (a', some addr) := by
  have hrun : run (step .s3c2510) (booted (P := Unit) .s3c2510 (fun _ => false) windowPair) [] =
      .ok (booted .s3c2510 (fun _ => false) windowPair) := rfl
  have hmay : MayUse (booted (P := Unit) .s3c2510 (fun _ => false) windowPair).alloc.regions
      evenPair 0 := fun hdma => absurd hdma (by decide)
  refine (allocation_complete_iff hrun evenPair).mpr (.inr ⟨0, 3064, hmay, .inl rfl,
    windowPair_runs, fun _ => ⟨fun j hle hlt => ?_, fun _ => ?_⟩⟩)
    ⟨0, hmay, 3064, windowPair_runs⟩
  · have hle : 3064 ≤ j := hle
    omega
  · decide +kernel

/-- A page at the start of a window is free, and two pages further on in it. -/
def hiddenPair : BootPages .s3c2510 where
  pages := [3064, 3066, 3067]
  nodup := by decide
  mem_bound := by decide

/-- The two pages are not found. -/
theorem allocation_misses_pair :
    MayUse (booted (P := Unit) .s3c2510 (fun _ => false) hiddenPair).alloc.regions twoPages 0 ∧
      3066 ∈ runsIn .s3c2510
        (booted (P := Unit) .s3c2510 (fun _ => false) hiddenPair).alloc twoPages 0 ∧
      ∀ a' addr, (booted (P := Unit) .s3c2510 (fun _ => false) hiddenPair).alloc.getContiguousPages
        .s3c2510 twoPages ≠ .ok (a', some addr) := by
  refine ⟨fun hdma => absurd hdma (by decide), ⟨by decide, by decide, by decide, ?_⟩, ?_⟩
  · intro j hle hlt
    have hlt : j < 3068 := hlt
    obtain rfl | rfl : j = 3066 ∨ j = 3067 := by omega
    · decide +kernel
    · decide +kernel
  · intro a' addr hget
    have heval : ((booted (P := Unit) .s3c2510 (fun _ => false)
        hiddenPair).alloc.getContiguousPages .s3c2510 twoPages).map (fun x => x.2.isSome) =
          .ok false := by
      decide +kernel
    rw [hget] at heval
    cases heval

end PageAlloc
