import Cnu680.Mm.RegionSearch

/-! # The page allocator: every sequence of calls

The invariant of the system: the bit map, the regions and the live runs
fit together (`Inv`). It holds after the start, every step keeps it, and
so it holds in every run, whatever callers do in between: the three main
results are read off it.

1. **`region_chains_sound`**: the chains of regions.
2. **`no_change_under_live_memory`**: no region changes its kind while
   pages of it are allocated.
3. **`allocator_sound`**: what is handed out.
-/

open Framework Function

namespace PageAlloc

/-- The parts of the allocator fit together. -/
structure Inv (L : Layout) (a : Alloc) (live : List Run) : Prop where
  map : MapOk L a.pages
  runs : LiveOk L a.pages live
  regions : RegionsOk L a.regions live

/-! ## One search -/

section
variable {L : Layout} {a a' : Alloc} {live : List Run} {req : Request}

/-- The run handed out for a request. -/
def Request.run (req : Request) (ff : ℕ) : Run := ⟨ff, req.numAdjpages, req.dma⟩

theorem FitsAt.within {map : ℕ → Bool} {g : Region} {ff : ℕ}
    (h : FitsAt map req (L.startOfAllocBitMap g) (L.endOfAllocBitMap g) ff) :
    (req.run ff).Within L g := by
  intro p hp
  obtain ⟨hle, hlt⟩ := Run.mem_pages.mp hp
  exact ⟨h.start_le.trans hle, hlt.trans_le h.le_stop⟩

theorem Inv.reserved_one (h : Inv L a live) : a.pages.bitMap 1 = true :=
  h.map.reserved 1 (by decide)

theorem Inv.labelOk_first (h : Inv L a live) : LabelOk L a.pages.bitMap req a.regions
    (firstLabel L req a.pages.firstUsablePage) :=
  h.regions.labelOk_first (Nat.zero_lt_two.trans_le h.map.two_le)

/-- What one search does: it fails and leaves the pages alone, or it hands
out free pages of one region. -/
inductive Passed (L : Layout) (a : Alloc) (live : List Run) (req : Request) :
    Alloc × Option ℕ → Prop
  | failed {a' : Alloc} (hinv : Inv L a' live) : Passed L a live req (a', none)
  | granted {a' : Alloc} {g : Region} {ff : ℕ} (hinv : Inv L a' (req.run ff :: live))
    (hfit : FitsAt a.pages.bitMap req (L.startOfAllocBitMap g) (L.endOfAllocBitMap g) ff) :
    Passed L a live req (a', some (pageAddress ff))

/-- **One search.** -/
theorem Inv.getContiguousPages (h : Inv L a live) {x : Option ℕ}
    (hget : a.getContiguousPages L req = .ok (a', x)) :
    Passed L a live req (a', x) ∧ QuietChanges L live a.regions a'.regions := by
  unfold Alloc.getContiguousPages at hget
  split_ifs at hget with hfree
  · -- the search sees the bit map as it is at its start, and takes the pages at its end
    obtain ⟨⟨rs, y⟩, hsearch, hy⟩ := bind_eq_ok.mp hget
    obtain ⟨hregions, hfound, hquiet⟩ := search_ok h.regions h.reserved_one h.labelOk_first hsearch
    cases y with
    | none =>
      cases hy
      exact ⟨.failed ⟨h.map, h.runs, hregions⟩, hquiet⟩
    | some y =>
      obtain ⟨g, ff⟩ := y
      obtain ⟨hserves, hfit⟩ := hfound
      have hstop := (L.end_bounds g).2.2
      cases hy
      refine ⟨.granted ⟨h.map.takeRun hfit hstop, h.runs.takeRun h.map hfit hstop, ?_⟩ hfit, hquiet⟩
      exact hregions.grant (r := req.run ff) hfit.within hserves
  · cases hget
    exact ⟨.failed h, .of_eq rfl⟩

theorem Inv.search_ends (h : Inv L a live) (req : Request) :
    ∃ x, search L a.pages.bitMap req maxGotos a.regions
      (firstLabel L req a.pages.firstUsablePage) = .ok x :=
  PageAlloc.search_ends h.regions h.reserved_one h.labelOk_first (h.regions.gotosLeft_first _)

theorem Inv.getContiguousPages_ends (h : Inv L a live) (req : Request) :
    ∃ x, a.getContiguousPages L req = .ok x := by
  unfold Alloc.getContiguousPages
  split_ifs
  · obtain ⟨⟨rs, y⟩, hsearch⟩ := h.search_ends req
    rw [hsearch]
    cases y with
    | none | some y => exact ⟨_, rfl⟩
  · exact ⟨_, rfl⟩

/-! ## Freeing -/

/-- The last reference to a live run is given back. -/
theorem Inv.free_last (h : Inv L a live) {r : Run} (hr : r ∈ live)
    (hcount : a.pages.count r.start = 1) :
    Inv L (a.freeContiguousPages L (pageAddress r.start) r.num) (live.erase r) := by
  have hlt : r.start < L.bitMapSize := (h.runs.taken _ (h.runs.start_mem hr)).2.1
  have hzero : (a.pages.setCount r.start (a.pages.count r.start - 1)).count r.start = 0 := by
    rw [hcount]
    exact update_self ..
  unfold Alloc.freeContiguousPages
  simp only [mapNr_pageAddress, if_pos hlt, hzero, ne_eq, not_true_eq_false, if_false]
  exact ⟨h.map.freed h.runs hr _, h.runs.freed hr _, h.regions.freed hr h.runs.pos⟩

/-- A reference to a live run is given back, and there are others. -/
theorem Inv.free_shared (h : Inv L a live) {r : Run} (hr : r ∈ live)
    (hcount : a.pages.count r.start ≠ 1) :
    Inv L (a.freeContiguousPages L (pageAddress r.start) r.num) live := by
  have hlt : r.start < L.bitMapSize := (h.runs.taken _ (h.runs.start_mem hr)).2.1
  have hpos := h.runs.count r hr
  have hsome : (a.pages.setCount r.start (a.pages.count r.start - 1)).count r.start ≠ 0 := by
    have hself : (a.pages.setCount r.start (a.pages.count r.start - 1)).count r.start =
        a.pages.count r.start - 1 := update_self ..
    omega
  unfold Alloc.freeContiguousPages
  simp only [mapNr_pageAddress, if_pos hlt, hsome, ne_eq, not_false_eq_true, if_true]
  exact ⟨h.map.setCount, h.runs.setCount (by omega), h.regions⟩

theorem Regions.freed_changes (rs : Regions) (addr num : ℕ) :
    (rs.freed L addr num).changes = rs.changes := by
  rw [Regions.freed_eq rfl]
  split_ifs
  · rfl
  · unfold Regions.putPages
    dsimp only
    split_ifs
    · exact (Regions.unlink_frame _ _).2.2
    · rfl

theorem freeContiguousPages_changes (a : Alloc) (addr num : ℕ) :
    (a.freeContiguousPages L addr num).regions.changes = a.regions.changes := by
  unfold Alloc.freeContiguousPages
  dsimp only
  split_ifs
  · rfl
  · exact Regions.freed_changes _ addr num
  · rfl

/-! ## Start -/

/-- While the system starts nothing is live and no region has been claimed. -/
structure Starting (L : Layout) (a : Alloc) : Prop where
  inv : Inv L a []
  unclaimed : ∀ g, g ≠ 0 → g ≠ 1 → a.regions.inUse g = .notAllocated

theorem liveOk_nil (L : Layout) (pg : Pages) : LiveOk L pg [] :=
  ⟨List.nodup_nil, by simp, by simp [livePages], by simp⟩

theorem starting_freeAreaInit (L : Layout) (rest : ℕ → Bool) :
    Starting L (Alloc.freeAreaInit L rest) := by
  -- every bit is set: no page is free
  have hset : ∀ i < L.bitMapSize, (Alloc.freeAreaInit L rest).pages.bitMap i = true :=
    fun i hi => if_pos hi
  have htwo : 2 ≤ L.bitMapSize := by
    obtain ⟨hwindow, hpos, hle⟩ := L.end_bounds 0
    omega
  have hunclaimed : ∀ g, g ≠ 0 → g ≠ 1 →
      (Alloc.freeAreaInit L rest).regions.inUse g = .notAllocated := by
    have hall : ∀ g, g ≠ 0 → g ≠ 1 → Alloc.initialUse g = .notAllocated := by decide
    exact hall
  refine ⟨⟨⟨?_, hset, fun i hi => hset i (by omega), htwo⟩, ?_, ?_⟩, hunclaimed⟩
  · refine (tally_eq_zero fun i hi => ?_).symm
    rw [hset i (Finset.mem_range.mp hi), freeWeight_true]
  · exact liveOk_nil L _
  · refine ⟨⟨fun _ => [], fun _ => rfl, fun _ => List.nodup_singleton _, ?_, fun _ _ => rfl⟩,
      by simp, fun g h0 h1 huse => absurd (hunclaimed g h0 h1) huse⟩
    -- the two heads are all there is of the two chains
    have hall : ∀ k g, g ∈ [chainHead k] ↔ Alloc.initialUse g = chainUse k := by decide
    exact hall

theorem Starting.freeBootPage (h : Starting L a) {p : ℕ} (hp : 2 ≤ p ∧ p < L.bitMapSize)
    (hset : a.pages.bitMap p = true) : Starting L (a.freeBootPage L p) := by
  -- the count is set to 1 first, so that the page is freed at once
  have hone : (a.pages.setCount p 1).count p = 1 := update_self ..
  have hzero : ((a.pages.setCount p 1).setCount p (1 - 1)).count p = 0 := update_self ..
  unfold Alloc.freeBootPage Alloc.freeContiguousPages
  simp only [mapNr_pageAddress, if_pos hp.2, hone, hzero, ne_eq, not_true_eq_false, if_false]
  obtain ⟨chain, hchain⟩ := h.inv.regions.chains
  -- no region but the two heads is in use: none is given up
  have hsame : (a.regions.freed L (pageAddress p) 1).link = a.regions.link ∧
      (a.regions.freed L (pageAddress p) 1).inUse = a.regions.inUse := by
    rw [Regions.freed_eq rfl]
    split_ifs with hhead
    · exact ⟨rfl, rfl⟩
    · refine hchain.putPages_unused (h.unclaimed _ (fun h0 => hhead (.inl h0)) ?_) 1
      exact fun h1 => hhead (.inr h1)
  have hunclaimed : ∀ g, g ≠ 0 → g ≠ 1 →
      (a.regions.freed L (pageAddress p) 1).inUse g = .notAllocated := by
    intro g h0 h1
    rw [hsame.2]
    exact h.unclaimed g h0 h1
  refine ⟨⟨?_, ?_, ?_⟩, hunclaimed⟩
  · exact h.inv.map.setCount.setCount.put hp.1 hp.2 hset
  · exact liveOk_nil L _
  · refine ⟨⟨chain, ?_, hchain.nodup, ?_, ?_⟩, by simp,
      fun g h0 h1 huse => absurd (hunclaimed g h0 h1) huse⟩
    · rw [hsame.1]
      exact hchain.path
    · rw [hsame.2]
      exact hchain.mem_iff
    · rw [hsame.1, hsame.2]
      exact hchain.unused

theorem Starting.foldl_freeBootPage (h : Starting L a) {ps : List ℕ} (hnd : ps.Nodup)
    (hps : ∀ p ∈ ps, (2 ≤ p ∧ p < L.bitMapSize) ∧ a.pages.bitMap p = true) :
    Starting L (ps.foldl (Alloc.freeBootPage L) a) := by
  induction ps generalizing a with
  | nil => exact h
  | cons p ps ih =>
    obtain ⟨hp, hnd⟩ := List.nodup_cons.mp hnd
    obtain ⟨hbound, hset⟩ := hps p List.mem_cons_self
    refine ih (h.freeBootPage hbound hset) hnd fun q hq => ?_
    obtain ⟨hbound', hset'⟩ := hps q (List.mem_cons_of_mem p hq)
    refine ⟨hbound', ?_⟩
    have hqp : q ≠ p := fun h => hp (h ▸ hq)
    -- the pages that follow are still set
    have hbit : (a.freeBootPage L p).pages.bitMap q = a.pages.bitMap q := by
      unfold Alloc.freeBootPage Alloc.freeContiguousPages
      simp only [mapNr_pageAddress, if_pos hbound.2]
      split_ifs
      · rfl
      · exact update_of_ne hqp ..
    rw [hbit, hset']

theorem starting_booted (L : Layout) (rest : ℕ → Bool) (boot : BootPages L) :
    Starting L (boot.pages.foldl (Alloc.freeBootPage L) (Alloc.freeAreaInit L rest)) := by
  refine (starting_freeAreaInit L rest).foldl_freeBootPage boot.nodup fun p hp => ?_
  exact ⟨boot.mem_bound p hp, if_pos (boot.mem_bound p hp).2⟩

end

/-! ## Steps and runs -/

section
variable {P : Type} [DecidableEq P] {L : Layout} {s s' : System P} {e : Event P}

theorem Inv.passed {p : P} {c : Call} {x : Alloc × Option ℕ} (h : Passed L s.alloc s.live c.req x) :
    Inv L (s.passed p c x).alloc (s.passed p c x).live ∧ (s.passed p c x).alloc = x.1 := by
  cases h with
  | failed hinv =>
    unfold System.passed
    dsimp only
    split_ifs <;> exact ⟨hinv, rfl⟩
  | granted hinv hfit =>
    rename_i a' g ff
    refine ⟨?_, rfl⟩
    show Inv L a' (⟨mapNr (pageAddress ff), c.req.numAdjpages, c.req.dma⟩ :: s.live)
    rw [mapNr_pageAddress]
    exact hinv

theorem step_pass {p : P} (hs : step L s (.pass p) = .ok s') : ∃ c x, s.call p = some c ∧
    s.alloc.getContiguousPages L c.req = .ok x ∧ s' = s.passed p c x := by
  unfold step at hs
  dsimp only at hs
  cases hc : s.call p with
  | none =>
    rw [hc] at hs
    cases hs
  | some c =>
    rw [hc] at hs
    dsimp only at hs
    cases hget : s.alloc.getContiguousPages L c.req with
    | error _ =>
      rw [hget] at hs
      cases hs
    | ok x =>
      rw [hget] at hs
      cases hs
      exact ⟨c, x, rfl, hget, rfl⟩

/-- **One step** keeps the invariant, and the regions it claims have no live
page. -/
theorem step_inv (h : Inv L s.alloc s.live) (hs : step L s e = .ok s') :
    Inv L s'.alloc s'.live ∧ QuietChanges L s.live s.alloc.regions s'.alloc.regions := by
  cases e with
  | enter p req memalloc =>
    unfold step at hs
    dsimp only at hs
    split_ifs at hs
    cases hs
    exact ⟨h, .of_eq rfl⟩
  | pass p =>
    obtain ⟨c, x, -, hget, rfl⟩ := step_pass hs
    -- one pass through the search, with interrupts off
    obtain ⟨hpassed, hquiet⟩ := h.getContiguousPages hget
    obtain ⟨hinv, halloc⟩ := Inv.passed (p := p) hpassed
    rw [halloc]
    exact ⟨halloc ▸ hinv, hquiet⟩
  | getPage r =>
    unfold step at hs
    dsimp only at hs
    split_ifs at hs with hr
    cases hs
    have hpos := h.runs.count r hr
    exact ⟨⟨h.map.setCount, h.runs.setCount (by omega), h.regions⟩, .of_eq rfl⟩
  | free r =>
    unfold step at hs
    dsimp only at hs
    split_ifs at hs with hr
    cases hs
    refine ⟨?_, .of_eq (freeContiguousPages_changes _ _ _)⟩
    unfold System.free
    -- the last reference frees the pages, any other is only given up
    by_cases hcount : s.alloc.pages.count r.start = 1
    · rw [if_pos hcount]
      exact h.free_last hr hcount
    · rw [if_neg hcount]
      exact h.free_shared hr hcount

/-- **The invariant holds in every run.** -/
theorem run_inv {rest : ℕ → Bool} {boot : BootPages L} {es : List (Event P)}
    (h : run (step L) (booted L rest boot) es = .ok s) : Inv L s.alloc s.live :=
  run_invariant (I := fun s : System P => Inv L s.alloc s.live)
    (fun _ _ _ hinv hs => (step_inv hinv hs).1) (starting_booted L rest boot).inv h

theorem step_ne_hang (h : Inv L s.alloc s.live) (e : Event P) : step L s e ≠ .error .hang := by
  cases e with
  | enter p req memalloc | getPage r | free r =>
    unfold step
    dsimp only
    split_ifs <;> simp
  | pass p =>
    unfold step
    dsimp only
    cases hc : s.call p with
    | none => simp
    | some c =>
      obtain ⟨x, hx⟩ := h.getContiguousPages_ends c.req
      simp [hx]

/-- **No run hangs**: every search comes to an end. -/
theorem run_ne_hang (L : Layout) (rest : ℕ → Bool) (boot : BootPages L) (es : List (Event P)) :
    run (step L) (booted L rest boot) es ≠ .error .hang :=
  run_ne_error (I := fun s : System P => Inv L s.alloc s.live)
    (fun _ _ _ hinv hs => (step_inv hinv hs).1) (fun _ e hinv => step_ne_hang hinv e)
    (starting_booted L rest boot).inv es

/-! ## Main results -/

variable {rest : ℕ → Bool} {boot : BootPages L} {es : List (Event P)}

/-- **The region chains.** In every run the links from region 0 and from
region 1 lead to an end without meeting, through regions for cached
memory and through regions for DMA; the other regions are not in use and
have no link; and memory for DMA lies in a region for DMA as long as it
is allocated. -/
theorem region_chains_sound (h : run (step L) (booted L rest boot) es = .ok s) :
    (∃ c d : List Region,
      Path s.alloc.regions.link 0 c ∧ Path s.alloc.regions.link 1 d ∧
      (0 :: c ++ 1 :: d).Nodup ∧
      (∀ g ∈ 0 :: c, s.alloc.regions.inUse g = .cacheable) ∧
      (∀ g ∈ 1 :: d, s.alloc.regions.inUse g = .dma) ∧
      ∀ g ∉ 0 :: c ++ 1 :: d,
        s.alloc.regions.inUse g = .notAllocated ∧ s.alloc.regions.link g = none) ∧
    ∀ r ∈ s.live, r.dma = true →
      ∃ g, (∀ p ∈ r.pages, L.InRegion g p) ∧ s.alloc.regions.inUse g = .dma := by
  have hinv := run_inv h
  obtain ⟨chain, hchain⟩ := hinv.regions.chains
  have hcached : ∀ g, g ∈ 0 :: chain false ↔ s.alloc.regions.inUse g = .cacheable :=
    hchain.mem_iff false
  have hdma : ∀ g, g ∈ 1 :: chain true ↔ s.alloc.regions.inUse g = .dma := hchain.mem_iff true
  constructor
  · refine ⟨chain false, chain true, hchain.path false, hchain.path true, ?_,
      fun g => (hcached g).mp, fun g => (hdma g).mp, fun g hg => ?_⟩
    · -- a region has one use, so it is on one chain
      refine List.nodup_append'.mpr ⟨hchain.nodup false, hchain.nodup true, fun g hc hd => ?_⟩
      have := ((hcached g).mp hc).symm.trans ((hdma g).mp hd)
      cases this
    · rw [List.mem_append, not_or, hcached g, hdma g] at hg
      have hnot : s.alloc.regions.inUse g = .notAllocated := by
        cases huse : s.alloc.regions.inUse g with
        | notAllocated => rfl
        | dma => exact absurd huse hg.2
        | cacheable => exact absurd huse hg.1
      exact ⟨hnot, hchain.unused g hnot⟩
  · intro r hr hd
    obtain ⟨g, hwithin, hserves⟩ := hinv.regions.runs r hr
    exact ⟨g, hwithin, hserves.dma_use hd⟩

/-- **The region scan terminates.** In every run and for every request, the
gotos lead in at most `maxGotos` steps to pages or to no memory at all, and
the windows of each region end before the unsigned `little_alloc` wraps:
only region 0 starts with page 0, and it is looked at from the first usable
page on. -/
theorem region_scan_terminates (h : run (step L) (booted L rest boot) es = .ok s)
    (req : Request) :
    (∃ rs x, search L s.alloc.pages.bitMap req maxGotos s.alloc.regions
      (firstLabel L req s.alloc.pages.firstUsablePage) = .ok (rs, x)) ∧
    ∀ g, ∃ x, smallScan s.alloc.pages.bitMap req
      (if g = 0 then s.alloc.pages.firstUsablePage else L.startOfAllocBitMap g)
      (L.endOfAllocBitMap g) (L.endOfAllocBitMap g / 8 + 1)
      ((L.endOfAllocBitMap g + 0x100000000 - 8) % 0x100000000) = .ok x := by
  have hinv := run_inv h
  constructor
  · obtain ⟨⟨rs, x⟩, hsearch⟩ := hinv.search_ends req
    exact ⟨rs, x, hsearch⟩
  · intro g
    obtain ⟨hwindow, hend, hsize⟩ := L.end_bounds g
    refine windows_end _ req ?_ hwindow hend (hsize.trans_lt L.bitMapSize_lt)
    split_ifs with hg
    · exact Nat.zero_lt_two.trans_le hinv.map.two_le
    · exact L.start_pos hg

end

/-- The last page of region 1 and the last page of region 2 are free. -/
def lastPages : BootPages .s3c2510 where
  pages := [4095, 3583]
  nodup := by decide
  mem_bound := by decide

def onePage (dma : Bool) : Request := ⟨dma, 1, 0, by decide⟩

/-- Two pages for DMA: the second one makes the allocator claim region 2. -/
def twoForDma : List (Event Unit) :=
  [.enter () (onePage true) false, .pass (), .enter () (onePage true) false, .pass ()]

theorem twoForDma_run : ∃ s, run (step .s3c2510) (booted .s3c2510 (fun _ => false) lastPages)
    twoForDma = .ok s ∧ s.alloc.regions.link 1 = some 2 ∧ s.alloc.regions.link 2 = none ∧
      s.alloc.regions.usedPages 2 = 1 ∧ s.live = [⟨3583, 1, true⟩, ⟨4095, 1, true⟩] := by
  decide +kernel

theorem region_chains_sound_two_for_dma : ∃ s,
    run (step .s3c2510) (booted .s3c2510 (fun _ => false) lastPages) twoForDma = .ok s ∧
      s.alloc.regions.link 1 = some 2 ∧
      ∃ g, (∀ p ∈ Run.pages ⟨3583, 1, true⟩, Layout.s3c2510.InRegion g p) ∧
        s.alloc.regions.inUse g = .dma := by
  obtain ⟨s, hs, hlink, -, -, hlive⟩ := twoForDma_run
  refine ⟨s, hs, hlink, (region_chains_sound hs).2 _ ?_ rfl⟩
  rw [hlive]
  exact List.mem_cons_self

theorem region_scan_terminates_two_for_dma : ∃ s,
    run (step .s3c2510) (booted .s3c2510 (fun _ => false) lastPages) twoForDma = .ok s ∧
      ∃ rs x, search .s3c2510 s.alloc.pages.bitMap (onePage false) maxGotos s.alloc.regions
        (firstLabel .s3c2510 (onePage false) s.alloc.pages.firstUsablePage) = .ok (rs, x) := by
  obtain ⟨s, hs, -⟩ := twoForDma_run
  exact ⟨s, hs, (region_scan_terminates hs _).1⟩

section
variable {P : Type} [DecidableEq P] {L : Layout} {s s' : System P} {rest : ℕ → Bool}
  {boot : BootPages L} {es : List (Event P)}

/-- A region linked from region 0 or region 1. -/
def OnChain (rs : Regions) (g : Region) : Prop :=
  ∃ dma l, Path rs.link (chainHead dma) l ∧ g ∈ l

theorem Chains.inUse_of_onChain {rs : Regions} {chain : Bool → List Region} (h : Chains rs chain)
    {g : Region} (hg : OnChain rs g) : rs.inUse g ≠ .notAllocated := by
  obtain ⟨k, l, hl, hmem⟩ := hg
  obtain rfl : l = chain k := hl.unique (h.path k)
  rw [(h.mem_iff k g).mp (List.mem_cons_of_mem _ hmem)]
  exact chainUse_ne_notAllocated k

/-- **No change of kind under live memory.** In every run, a region is given
to `arm940_change_region` only while none of its pages is allocated, and
`used_pages` of a region on a chain is the number of its allocated
pages. -/
theorem no_change_under_live_memory (h : run (step L) (booted L rest boot) es = .ok s) :
    (∀ e s', step L s e = .ok s' →
      ∃ new, s'.alloc.regions.changes = new ++ s.alloc.regions.changes ∧
        ∀ c ∈ new, ∀ r ∈ s.live, ∀ p ∈ r.pages, ¬ L.InRegion c.1 p) ∧
    ∀ g, g ≠ 0 → g ≠ 1 → OnChain s.alloc.regions g →
      s.alloc.regions.usedPages g =
        ((livePages s.live).toFinset.filter fun p => L.InRegion g p).card := by
  have hinv := run_inv h
  constructor
  · intro e s' hs
    obtain ⟨new, hnew, hquiet⟩ := (step_inv hinv hs).2
    refine ⟨new, hnew, fun c hc r hr p hp => hquiet c hc p ?_⟩
    exact mem_livePages.mpr ⟨r, hr, hp⟩
  · intro g h0 h1 hg
    obtain ⟨chain, hchain⟩ := hinv.regions.chains
    rw [hinv.regions.used g h0 h1 (hchain.inUse_of_onChain hg), hinv.runs.liveIn_eq_card]

end

theorem no_change_two_for_dma : ∃ s,
    run (step .s3c2510) (booted .s3c2510 (fun _ => false) lastPages) twoForDma = .ok s ∧
      OnChain s.alloc.regions 2 ∧ s.alloc.regions.usedPages 2 = 1 ∧
      ((livePages s.live).toFinset.filter fun p => Layout.s3c2510.InRegion 2 p).card = 1 := by
  obtain ⟨s, hs, hone, htwo, hused, -⟩ := twoForDma_run
  have hchain : OnChain s.alloc.regions 2 := ⟨true, [2], ⟨hone, htwo⟩, by decide⟩
  have hcard := (no_change_under_live_memory hs).2 2 (by decide) (by decide) hchain
  refine ⟨s, hs, hchain, hused, ?_⟩
  omega

section
variable {P : Type} [DecidableEq P] {L : Layout} {s s' : System P} {rest : ℕ → Bool}
  {boot : BootPages L} {es : List (Event P)}

/-- What a request is given: an aligned run of free pages of one region that
no live run has a page of. -/
structure Granted (L : Layout) (s : System P) (req : Request) (addr : ℕ) : Prop where
  page : pageAddress (mapNr addr) = addr
  free : ∀ i, mapNr addr ≤ i → i < mapNr addr + req.numAdjpages → s.alloc.pages.bitMap i = false
  inside : ∃ g, L.startOfAllocBitMap g ≤ mapNr addr ∧
    mapNr addr + req.numAdjpages ≤ L.endOfAllocBitMap g
  aligned : PAGE_SIZE <<< req.alignOrder ∣ addr
  disjoint : ∀ r ∈ s.live, ∀ i ∈ r.pages,
    ¬ (mapNr addr ≤ i ∧ i < mapNr addr + req.numAdjpages)

omit [DecidableEq P] in
theorem granted_of_fitsAt (h : Inv L s.alloc s.live) {req : Request} {g : Region} {ff : ℕ}
    (hfit : FitsAt s.alloc.pages.bitMap req (L.startOfAllocBitMap g) (L.endOfAllocBitMap g) ff) :
    Granted L s req (pageAddress ff) where
  page := by rw [mapNr_pageAddress]
  free := by
    rw [mapNr_pageAddress]
    exact hfit.clear
  inside := by
    rw [mapNr_pageAddress]
    exact ⟨g, hfit.start_le, hfit.le_stop⟩
  aligned := by
    have hlt : ff < L.bitMapSize := by
      have := hfit.le_stop
      have := req.num_pos
      have := (L.end_bounds g).2.2
      omega
    exact (not_misaligned_iff (L.pageAddress_lt hlt)).mp hfit.aligned
  disjoint := by
    rw [mapNr_pageAddress]
    intro r hr i hi hin
    exact h.runs.not_mem_of_clear (hfit.clear i hin.1 hin.2) (mem_livePages.mpr ⟨r, hr, hi⟩)

/-- **Soundness of the allocator.** In every run, what a call returns, if it
is not 0, was free and is for the caller alone; the number of free pages
is the number of clear bits, and no page below the first usable one is
free. -/
theorem allocator_sound (h : run (step L) (booted L rest boot) es = .ok s) :
    (∀ p c s', s.call p = some c → step L s (.pass p) = .ok s' → s'.call p = none →
      s'.returned p ≠ 0 → Granted L s c.req (s'.returned p)) ∧
    s.alloc.pages.nrFreePages =
      ((Finset.range L.bitMapSize).filter fun i => s.alloc.pages.bitMap i = false).card ∧
    ∀ i < s.alloc.pages.firstUsablePage, s.alloc.pages.bitMap i = true := by
  have hinv := run_inv h
  refine ⟨?_, hinv.map.nrFree.trans (clearBits_eq_card L _), hinv.map.low⟩
  intro p c s' hc hs hdone hret
  obtain ⟨c', ⟨a', y⟩, hc', hx, rfl⟩ := step_pass hs
  obtain rfl : c = c' := Option.some.inj (hc.symm.trans hc')
  obtain ⟨hpassed, -⟩ := hinv.getContiguousPages hx
  cases hpassed with
  | failed hinv' =>
    -- a failed search returns 0 or does not return
    exfalso
    unfold System.passed at hdone hret
    dsimp only at hdone hret
    split_ifs at hdone hret
    · exact hret (update_self ..)
    · cases (update_self p _ s.call).symm.trans hdone
    · exact hret (update_self ..)
  | granted hinv' hfit =>
    rename_i g ff
    have haddr : (s.passed p c (a', some (pageAddress ff))).returned p = pageAddress ff :=
      update_self ..
    rw [haddr]
    exact granted_of_fitsAt hinv hfit

end

/-- Two pages of the last window of region 0 are free. -/
def windowPair : BootPages .s3c2510 where
  pages := [3064, 3065]
  nodup := by decide
  mem_bound := by decide

/-- Two pages, aligned to two pages. -/
def evenPair : Request := ⟨false, 2, 1, by decide⟩

theorem allocator_sound_even_pair : ∃ s s',
    run (step .s3c2510) (booted .s3c2510 (fun _ => false) windowPair) [.enter () evenPair false] =
      .ok s ∧ step .s3c2510 s (.pass ()) = .ok s' ∧ s'.returned () = 0xbf8000 ∧
      ∃ c, s.call () = some c ∧ Granted .s3c2510 s c.req 0xbf8000 := by
  obtain ⟨s, s', hs, hs', hret, hcall, hdone⟩ : ∃ s s',
      run (step .s3c2510) (booted .s3c2510 (fun _ => false) windowPair)
        [.enter () evenPair false] = .ok s ∧ step .s3c2510 s (.pass ()) = .ok s' ∧
      s'.returned () = 0xbf8000 ∧ (s.call ()).isSome ∧ s'.call () = none := by
    decide +kernel
  obtain ⟨c, hc⟩ := Option.isSome_iff_exists.mp hcall
  refine ⟨s, s', hs, hs', hret, c, hc, ?_⟩
  have hgranted := (allocator_sound hs).1 () c s' hc hs' hdone
  rw [hret] at hgranted
  exact hgranted (by decide)

end PageAlloc
