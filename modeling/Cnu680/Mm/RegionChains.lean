import Cnu680.Framework.Chain
import Cnu680.Mm.PageMap

/-! # The page allocator: region chains

* **`Chains`**: the links from region 0 and from region 1 lead through
  the regions in use for cached memory and for DMA, each once, to an
  end; every other region has no link. Claiming a region adds it to the
  end of one chain, freeing its last page takes it out.
* **`RegionsOk`**: with the live runs: a run lies in one region, of a
  chain that may serve it, and `used_pages` of a region that was claimed
  is the number of live pages in it.
-/

open Framework Function List

namespace PageAlloc

/-! ## Chains -/

/-- The use of the regions of a chain. -/
def chainUse (dma : Bool) : InUse := if dma then .dma else .cacheable

theorem chainUse_inj {k k' : Bool} (h : chainUse k = chainUse k') : k = k' := by
  revert h
  cases k <;> cases k' <;> decide

theorem chainUse_ne_notAllocated (k : Bool) : chainUse k ≠ .notAllocated := by
  cases k <;> decide

theorem exists_chainUse {u : InUse} (h : u ≠ .notAllocated) : ∃ k, u = chainUse k := by
  cases u with
  | notAllocated => exact absurd rfl h
  | dma => exact ⟨true, rfl⟩
  | cacheable => exact ⟨false, rfl⟩

/-- The two chains: `chain k` lists the regions after the head. -/
structure Chains (rs : Regions) (chain : Bool → List Region) : Prop where
  path : ∀ k, Path rs.link (chainHead k) (chain k)
  nodup : ∀ k, (chainHead k :: chain k).Nodup
  mem_iff : ∀ k g, g ∈ chainHead k :: chain k ↔ rs.inUse g = chainUse k
  unused : ∀ g, rs.inUse g = .notAllocated → rs.link g = none

section
variable {rs : Regions} {chain : Bool → List Region} {g i l : Region} {k : Bool}

section
variable (h : Chains rs chain)
include h

theorem Chains.inUse_head (k : Bool) : rs.inUse (chainHead k) = chainUse k :=
  (h.mem_iff k _).mp mem_cons_self

theorem Chains.ne_of_mem {k' : Bool} (hk : k' ≠ k)
    (hg : rs.inUse g = chainUse k) {x : Region} (hx : x ∈ chainHead k' :: chain k') : x ≠ g := by
  rintro rfl
  exact hk (chainUse_inj (((h.mem_iff k' x).mp hx).symm.trans hg))

theorem Chains.mem_of_link (hl : rs.link g = some l) :
    ∃ k, rs.inUse g = chainUse k ∧ l ∈ chain k := by
  have hused : rs.inUse g ≠ .notAllocated := by
    intro hnot
    rw [h.unused g hnot] at hl
    cases hl
  obtain ⟨k, hk⟩ := exists_chainUse hused
  exact ⟨k, hk, (h.path k).next_mem ((h.mem_iff k g).mpr hk) hl⟩

theorem Chains.inUse_of_link (hl : rs.link g = some l) : rs.inUse l = rs.inUse g := by
  obtain ⟨k, hk, hmem⟩ := h.mem_of_link hl
  rw [hk]
  exact (h.mem_iff k l).mp (mem_cons_of_mem _ hmem)

theorem Chains.ne_zero_of_unused (hi : rs.inUse i = .notAllocated) : i ≠ 0 := by
  rintro rfl
  exact chainUse_ne_notAllocated false ((h.inUse_head false).symm.trans hi)

theorem Chains.link_ne_zero (hl : rs.link g = some l) : l ≠ 0 := by
  rintro rfl
  obtain ⟨k, -, hmem⟩ := h.mem_of_link hl
  cases k with
  | false => exact (nodup_cons.mp (h.nodup false)).1 hmem
  | true => exact h.ne_of_mem (by decide) (h.inUse_head false) (mem_cons_of_mem _ hmem) rfl

/-- **A region is claimed.** -/
theorem Chains.claim (hg : rs.inUse g = chainUse k)
    (hend : rs.link g = none) (hi : rs.inUse i = .notAllocated) :
    Chains (rs.claim g i) (update chain k (chain k ++ [i])) := by
  have hnotin : ∀ k', i ∉ chainHead k' :: chain k' := by
    intro k' hmem
    exact chainUse_ne_notAllocated k' (((h.mem_iff k' i).mp hmem).symm.trans hi)
  have hgmem := (h.mem_iff k g).mpr hg
  constructor
  · intro k'
    by_cases hk : k' = k
    · rw [hk, update_self]
      exact (h.path k).snoc hgmem hend (hnotin k)
    · -- the other chain has neither `g` nor `i`
      rw [update_of_ne hk]
      refine (h.path k').congr fun x hx => ?_
      have hxi : x ≠ i := fun hxi => hnotin k' (hxi ▸ hx)
      show update (update rs.link g (some i)) i none x = rs.link x
      rw [update_of_ne hxi, update_of_ne (h.ne_of_mem hk hg hx)]
  · intro k'
    by_cases hk : k' = k
    · rw [hk, update_self, ← cons_append]
      refine nodup_append'.mpr ⟨h.nodup k, nodup_singleton i, ?_⟩
      exact fun x hx hxi => hnotin k (mem_singleton.mp hxi ▸ hx)
    · rw [update_of_ne hk]
      exact h.nodup k'
  · intro k' x
    show _ ↔ update rs.inUse i (rs.inUse g) x = chainUse k'
    by_cases hxi : x = i
    · rw [hxi, update_self, hg]
      by_cases hk : k' = k
      · simp [hk]
      · rw [update_of_ne hk]
        exact ⟨fun hmem => absurd hmem (hnotin k'), fun heq => absurd (chainUse_inj heq).symm hk⟩
    · rw [update_of_ne hxi, ← h.mem_iff k' x]
      by_cases hk : k' = k
      · simp [hk, hxi]
      · rw [update_of_ne hk]
  · intro x hx
    have hxi : x ≠ i := by
      rintro rfl
      change update rs.inUse x (rs.inUse g) x = .notAllocated at hx
      rw [update_self, hg] at hx
      exact chainUse_ne_notAllocated k hx
    change update rs.inUse i (rs.inUse g) x = .notAllocated at hx
    rw [update_of_ne hxi] at hx
    have hxg : x ≠ g := by
      rintro rfl
      exact chainUse_ne_notAllocated k (hg.symm.trans hx)
    show update (update rs.link g (some i)) i none x = none
    rw [update_of_ne hxi, update_of_ne hxg]
    exact h.unused x hx

theorem Chains.find_prev {x : Region} (hx : x ∈ chainHead k :: chain k) (hxg : rs.link x = some g) :
    ((List.finRange 6).find? fun i => rs.link i = some g) = some x := by
  cases hfind : (List.finRange 6).find? fun i => rs.link i = some g with
  | none =>
    have := List.find?_eq_none.mp hfind x (mem_finRange x)
    simp [hxg] at this
  | some y =>
    have hyg : rs.link y = some g := by simpa using List.find?_some hfind
    -- what points to `g` is of its kind, so it is on the same chain
    have hg : rs.inUse g = chainUse k :=
      (h.inUse_of_link hxg).trans ((h.mem_iff k x).mp hx)
    have hy : y ∈ chainHead k :: chain k :=
      (h.mem_iff k y).mpr ((h.inUse_of_link hyg).symm.trans hg)
    rw [(h.path k).prev_unique (h.nodup k) hx hy hxg hyg]

/-- **A region is given up.** -/
theorem Chains.release (hg : g ∈ chain k) (used : Region → Int) :
    Chains (Regions.unlink
        { rs with usedPages := used, inUse := update rs.inUse g .notAllocated } g)
      (update chain k ((chain k).erase g)) := by
  have hguse : rs.inUse g = chainUse k := (h.mem_iff k g).mp (mem_cons_of_mem _ hg)
  have hhead : chainHead k ≠ g := by
    rintro rfl
    exact (nodup_cons.mp (h.nodup k)).1 hg
  -- `x` is the region before it, and takes over its link
  obtain ⟨x, hx, hxg⟩ := (h.path k).exists_prev hg
  have hxuse : rs.inUse x = chainUse k := (h.mem_iff k x).mp hx
  have hunlink : Regions.unlink
      { rs with usedPages := used, inUse := update rs.inUse g .notAllocated } g =
        { rs with
          usedPages := used
          inUse := update rs.inUse g .notAllocated
          link := update (update rs.link x (rs.link g)) g none } := by
    simp only [Regions.unlink, h.find_prev hx hxg]
  rw [hunlink]
  constructor
  · intro k'
    by_cases hk : k' = k
    · rw [hk, update_self]
      exact (h.path k).unlink (h.nodup k) hx hxg
    · rw [update_of_ne hk]
      -- neither `g` nor `x` is on the other chain
      refine (h.path k').congr fun y hy => ?_
      show update (update rs.link x (rs.link g)) g none y = rs.link y
      rw [update_of_ne (h.ne_of_mem hk hguse hy), update_of_ne (h.ne_of_mem hk hxuse hy)]
  · intro k'
    by_cases hk : k' = k
    · rw [hk, update_self]
      exact (h.nodup k).sublist ((erase_sublist).cons_cons _)
    · rw [update_of_ne hk]
      exact h.nodup k'
  · intro k' y
    show _ ↔ update rs.inUse g .notAllocated y = chainUse k'
    -- `g` is now on no chain; for the others nothing has changed
    by_cases hy : y = g
    · rw [hy, update_self]
      refine ⟨fun hmem => ?_, fun heq => absurd heq.symm (chainUse_ne_notAllocated k')⟩
      by_cases hk : k' = k
      · rw [hk, update_self] at hmem
        rcases mem_cons.mp hmem with heq | hmem
        · exact absurd heq.symm hhead
        · exact absurd hmem ((nodup_cons.mp (h.nodup k)).2.not_mem_erase)
      · rw [update_of_ne hk] at hmem
        exact absurd rfl (h.ne_of_mem hk hguse hmem)
    · rw [update_of_ne hy, ← h.mem_iff k' y]
      by_cases hk : k' = k
      · rw [hk, update_self, mem_cons, mem_cons, mem_erase_of_ne hy]
      · rw [update_of_ne hk]
  · intro y hy
    show update (update rs.link x (rs.link g)) g none y = none
    by_cases hyg : y = g
    · rw [hyg, update_self]
    · change update rs.inUse g .notAllocated y = .notAllocated at hy
      rw [update_of_ne hyg] at hy
      have hyx : y ≠ x := by
        rintro rfl
        exact chainUse_ne_notAllocated k (hxuse.symm.trans hy)
      rw [update_of_ne hyg, update_of_ne hyx]
      exact h.unused y hy

end

end

/-! ## Regions and live runs -/

/-- The run lies in region `g`. -/
def Run.Within (L : Layout) (r : Run) (g : Region) : Prop := ∀ p ∈ r.pages, L.InRegion g p

/-- No live page is in region `g`. -/
def NoLive (L : Layout) (live : List Run) (g : Region) : Prop :=
  ∀ p ∈ livePages live, ¬ L.InRegion g p

/-- The number of live pages in region `g`. -/
def liveIn (L : Layout) (live : List Run) (g : Region) : ℕ :=
  (livePages live).countP (L.InRegion g ·)

/-- Region `g` may serve the memory asked for: it is on a chain, and for DMA
on the chain of region 1. -/
structure Serves (rs : Regions) (dma : Bool) (g : Region) : Prop where
  used : rs.inUse g ≠ .notAllocated
  dma_use : dma = true → rs.inUse g = .dma

structure RegionsOk (L : Layout) (rs : Regions) (live : List Run) : Prop where
  chains : ∃ chain, Chains rs chain
  runs : ∀ r ∈ live, ∃ g, r.Within L g ∧ Serves rs r.dma g
  used : ∀ g, g ≠ 0 → g ≠ 1 → rs.inUse g ≠ .notAllocated →
    rs.usedPages g = liveIn L live g

section
variable {L : Layout} {rs : Regions} {live : List Run} {g i : Region} {r : Run}
  {chain : Bool → List Region}

theorem liveIn_eq_zero : liveIn L live g = 0 ↔ NoLive L live g := by
  simp [liveIn, NoLive]

theorem LiveOk.liveIn_eq_card {pg : Pages} (h : LiveOk L pg live) (g : Region) :
    liveIn L live g = ((livePages live).toFinset.filter fun p => L.InRegion g p).card := by
  rw [liveIn, countP_eq_length_filter, ← toFinset_card_of_nodup (h.nodup.filter _)]
  congr 1
  ext p
  simp

theorem liveIn_cons (r : Run) : liveIn L (r :: live) g =
    r.pages.countP (L.InRegion g ·) + liveIn L live g := by
  rw [liveIn, livePages_cons, countP_append]
  rfl

theorem liveIn_erase (hr : r ∈ live) : liveIn L live g =
    r.pages.countP (L.InRegion g ·) + liveIn L (live.erase r) g := by
  rw [liveIn, (livePages_perm hr).countP_eq, countP_append]
  rfl

theorem Run.Within.countP_self (h : r.Within L g) : r.pages.countP (L.InRegion g ·) = r.num := by
  have hlen : r.pages.length = r.num := length_range'
  rw [← hlen]
  exact countP_eq_length.mpr fun p hp => decide_eq_true (h p hp)

theorem Run.Within.countP_of_ne (h : r.Within L g) (hi : i ≠ g) :
    r.pages.countP (L.InRegion i ·) = 0 := by
  refine countP_eq_zero.mpr fun p hp hin => ?_
  exact hi (L.inRegion_unique (of_decide_eq_true hin) (h p hp))

/-- **A region that is not in use has no live page.** -/
theorem RegionsOk.noLive (h : RegionsOk L rs live) (hi : rs.inUse i = .notAllocated) :
    NoLive L live i := by
  intro p hp hin
  obtain ⟨r, hr, hp⟩ := mem_livePages.mp hp
  obtain ⟨g, hwithin, hserves⟩ := h.runs r hr
  obtain rfl : i = g := L.inRegion_unique hin (hwithin p hp)
  exact hserves.used hi

theorem Serves.claim {dma : Bool} (h : Serves rs dma g) {g' : Region}
    (hi : rs.inUse i = .notAllocated) : Serves (rs.claim g' i) dma g := by
  have hgi : g ≠ i := by
    rintro rfl
    exact h.used hi
  have hsame : (rs.claim g' i).inUse g = rs.inUse g := update_of_ne hgi ..
  exact ⟨hsame ▸ h.used, fun hd => hsame.trans (h.dma_use hd)⟩

theorem RegionsOk.claim (h : RegionsOk L rs live) (hg : rs.inUse g ≠ .notAllocated)
    (hend : rs.link g = none) (hi : rs.inUse i = .notAllocated) :
    RegionsOk L (rs.claim g i) live where
  chains := by
    obtain ⟨chain, hchain⟩ := h.chains
    obtain ⟨k, hk⟩ := exists_chainUse hg
    exact ⟨_, hchain.claim hk hend hi⟩
  runs r hr := by
    obtain ⟨g', hwithin, hserves⟩ := h.runs r hr
    exact ⟨g', hwithin, hserves.claim hi⟩
  used g' h0 h1 huse := by
    show update rs.usedPages i 0 g' = _
    -- no live run had a page of the region that is claimed
    by_cases hgi : g' = i
    · rw [hgi, update_self, liveIn_eq_zero.mpr (h.noLive hi)]
      rfl
    · rw [update_of_ne hgi]
      refine h.used g' h0 h1 fun hnot => huse ?_
      exact (update_of_ne hgi ..).trans hnot

theorem RegionsOk.grant (h : RegionsOk L rs live) (hwithin : r.Within L g)
    (hserves : Serves rs r.dma g) :
    RegionsOk L
      { rs with usedPages := update rs.usedPages g (rs.usedPages g + r.num) }
      (r :: live) where
  chains := by
    obtain ⟨chain, hchain⟩ := h.chains
    exact ⟨chain, { hchain with }⟩
  runs r' hr' := by
    rcases mem_cons.mp hr' with rfl | hr'
    · exact ⟨g, hwithin, hserves.used, hserves.dma_use⟩
    · obtain ⟨g', hwithin', hserves'⟩ := h.runs r' hr'
      exact ⟨g', hwithin', hserves'.used, hserves'.dma_use⟩
  used g' h0 h1 huse := by
    have hold := h.used g' h0 h1 huse
    show update rs.usedPages g (rs.usedPages g + r.num) g' = _
    rw [liveIn_cons]
    -- the run is all in `g`: one live page more there for each of its pages
    by_cases hg : g' = g
    · subst hg
      rw [update_self, hold, hwithin.countP_self]
      omega
    · rw [update_of_ne hg, hold, hwithin.countP_of_ne hg]
      omega

/-! ### Freeing -/

theorem Chains.exists_mem (h : Chains rs chain) (h0 : g ≠ 0) (h1 : g ≠ 1)
    (hg : rs.inUse g ≠ .notAllocated) : ∃ k, g ∈ chain k := by
  obtain ⟨k, hk⟩ := exists_chainUse hg
  have hne : g ≠ chainHead k := by
    cases k
    · exact h0
    · exact h1
  exact ⟨k, (mem_cons.mp ((h.mem_iff k g).mpr hk)).resolve_left hne⟩

theorem Regions.unlink_frame (rs : Regions) (g : Region) :
    (rs.unlink g).inUse = rs.inUse ∧ (rs.unlink g).usedPages = rs.usedPages ∧
      (rs.unlink g).changes = rs.changes := by
  unfold Regions.unlink
  split <;> exact ⟨rfl, rfl, rfl⟩

theorem RegionsOk.putPages (h : RegionsOk L rs live) (hr : r ∈ live)
    (hpos : ∀ r ∈ live, 0 < r.num) (hwithin : r.Within L g) (hserves : Serves rs r.dma g)
    (h0 : g ≠ 0) (h1 : g ≠ 1) : RegionsOk L (rs.putPages g r.num) (live.erase r) := by
  have hold := h.used g h0 h1 hserves.used
  rw [liveIn_erase hr, hwithin.countP_self] at hold
  have hused : rs.usedPages g - r.num = liveIn L (live.erase r) g := by omega
  -- the counts of the other regions do not change
  have hother : ∀ g', g' ≠ g → g' ≠ 0 → g' ≠ 1 → rs.inUse g' ≠ .notAllocated →
      rs.usedPages g' = liveIn L (live.erase r) g' := by
    intro g' hne h0' h1' huse
    rw [h.used g' h0' h1' huse, liveIn_erase hr, hwithin.countP_of_ne hne, Nat.zero_add]
  unfold Regions.putPages
  dsimp only
  rw [hused]
  by_cases hlast : (liveIn L (live.erase r) g : Int) ≤ 0
  · rw [if_pos hlast]
    have hnone : NoLive L (live.erase r) g := liveIn_eq_zero.mp (by omega)
    obtain ⟨chain, hchain⟩ := h.chains
    obtain ⟨k, hk⟩ := hchain.exists_mem h0 h1 hserves.used
    have hrelease := hchain.release hk (update rs.usedPages g (liveIn L (live.erase r) g : Int))
    refine ⟨⟨_, hrelease⟩, fun r' hr' => ?_, fun g' h0' h1' huse => ?_⟩
    · obtain ⟨g', hwithin', hserves'⟩ := h.runs r' (mem_of_mem_erase hr')
      have hne : g' ≠ g := by
        rintro rfl
        have hstart := Run.start_mem_pages (hpos r' (mem_of_mem_erase hr'))
        exact hnone _ (mem_livePages.mpr ⟨r', hr', hstart⟩) (hwithin' _ hstart)
      refine ⟨g', hwithin', ?_, fun hd => ?_⟩
      · rw [(Regions.unlink_frame _ g).1]
        exact (update_of_ne hne ..).trans_ne hserves'.used
      · rw [(Regions.unlink_frame _ g).1]
        exact (update_of_ne hne ..).trans (hserves'.dma_use hd)
    · rw [(Regions.unlink_frame _ g).1] at huse
      have hne : g' ≠ g := by
        rintro rfl
        exact huse (update_self ..)
      have huse' : rs.inUse g' ≠ .notAllocated :=
        fun hnot => huse ((update_of_ne hne ..).trans hnot)
      rw [(Regions.unlink_frame _ g).2.1]
      exact (update_of_ne hne ..).trans (hother g' hne h0' h1' huse')
  · rw [if_neg hlast]
    obtain ⟨chain, hchain⟩ := h.chains
    refine ⟨⟨chain, { hchain with }⟩, fun r' hr' => ?_, fun g' h0' h1' huse => ?_⟩
    · obtain ⟨g', hwithin', hserves'⟩ := h.runs r' (mem_of_mem_erase hr')
      exact ⟨g', hwithin', hserves'.used, hserves'.dma_use⟩
    · show update rs.usedPages g _ g' = _
      by_cases hne : g' = g
      · rw [hne, update_self]
      · rw [update_of_ne hne]
        exact hother g' hne h0' h1' huse

theorem Regions.freed_eq {addr num : ℕ} (hg : L.regionOf addr = g) :
    rs.freed L addr num = if g = 0 ∨ g = 1 then rs else rs.putPages g num := by
  unfold Regions.freed
  rw [hg]
  fin_cases g <;> rfl

/-- **A live run is freed.** -/
theorem RegionsOk.freed (h : RegionsOk L rs live) (hr : r ∈ live) (hpos : ∀ r ∈ live, 0 < r.num) :
    RegionsOk L (rs.freed L (pageAddress r.start) r.num) (live.erase r) := by
  obtain ⟨g, hwithin, hserves⟩ := h.runs r hr
  have hregion : L.regionOf (pageAddress r.start) = g :=
    L.regionOf_pageAddress (hwithin _ (Run.start_mem_pages (hpos r hr)))
  rw [Regions.freed_eq hregion]
  split_ifs with hhead
  · -- nothing is counted for the heads
    refine ⟨h.chains, fun r' hr' => h.runs r' (mem_of_mem_erase hr'), fun g' h0 h1 huse => ?_⟩
    have hne : g' ≠ g := by
      rintro rfl
      rcases hhead with hhead | hhead
      · exact h0 hhead
      · exact h1 hhead
    rw [h.used g' h0 h1 huse, liveIn_erase hr, hwithin.countP_of_ne hne, Nat.zero_add]
  · exact h.putPages hr hpos hwithin hserves (fun h0 => hhead (.inl h0)) fun h1 => hhead (.inr h1)

theorem Chains.putPages_unused (h : Chains rs chain) (hg : rs.inUse g = .notAllocated) (num : ℕ) :
    (rs.putPages g num).link = rs.link ∧ (rs.putPages g num).inUse = rs.inUse := by
  have hinUse : update rs.inUse g .notAllocated = rs.inUse := by
    rw [← hg, update_eq_self]
  -- no region is linked to `g`
  have hfind : ((List.finRange 6).find? fun i => rs.link i = some g) = none := by
    refine List.find?_eq_none.mpr fun i _ hi => ?_
    have hlink : rs.link i = some g := of_decide_eq_true hi
    obtain ⟨k, hk, -⟩ := h.mem_of_link hlink
    exact chainUse_ne_notAllocated k (hk.symm.trans ((h.inUse_of_link hlink).symm.trans hg))
  have hlink : update rs.link g none = rs.link := by
    rw [← h.unused g hg, update_eq_self]
  unfold Regions.putPages
  dsimp only
  split_ifs
  · simp only [Regions.unlink, hfind, hinUse, hlink, and_self]
  · exact ⟨rfl, rfl⟩

end

end PageAlloc
