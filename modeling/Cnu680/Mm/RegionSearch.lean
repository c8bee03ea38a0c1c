import Cnu680.Mm.RegionChains

/-! # The page allocator: search

* **Safety**: every goto of `__get_contiguous_pages` keeps `RegionsOk`,
  the regions it claims have no live page, and pages it finds are free,
  in one region that may serve the request.
* **Termination**: each region is visited at most once. From a region of
  the first chain there are still to visit the regions after it, those
  that can be claimed, and for cached memory those of the DMA chain;
  every goto takes one of them away or goes from the scan of a region to
  its link.
-/

open Framework List

namespace PageAlloc

section
variable {L : Layout} {rs rs' : Regions} {live : List Run} {g i : Region} {map : ℕ → Bool} {k : ℕ}
  {dma : Bool}
  {req : Request} {l l' : Label} {start stop : ℕ} {x : Option (Region × ℕ)}

/-! ## Gotos -/

/-- The comparison that lets the search into a region of a chain. -/
def Room (L : Layout) (rs : Regions) (req : Request) (g : Region) : Prop :=
  (rs.usedPages g + req.numAdjpages) % 0x100000000 < L.pagesInARegion

/-- What one goto can do while the search is not over. -/
inductive Goes (L : Layout) (map : ℕ → Bool) (req : Request) (rs : Regions) :
    Label → Regions → Label → Prop
  | found {g : Region} {start ff : ℕ}
    (hscan : scan map req start (L.endOfAllocBitMap g) = .ok (some ff)) :
    Goes L map req rs (.scanAgain2 g start) rs (.found g ff)
  | notFound {g : Region} {start : ℕ}
    (hscan : scan map req start (L.endOfAllocBitMap g) = .ok none) :
    Goes L map req rs (.scanAgain2 g start) rs (.scanRegionLink g)
  | next {g l : Region} (hlink : rs.link g = some l) (hroom : Room L rs req l) :
    Goes L map req rs (.scanRegionLink g) rs (scanAgain L l)
  | skip {g l : Region} (hlink : rs.link g = some l) (hroom : ¬ Room L rs req l) :
    Goes L map req rs (.scanRegionLink g) rs (.scanRegionLink l)
  | claim {g i : Region} (hlink : rs.link g = none) (hunused : rs.findUnused req.dma = some i) :
    Goes L map req rs (.scanRegionLink g) (rs.claim g i) (scanAgain L i)
  | toDma {g : Region} (hlink : rs.link g = none) (hunused : rs.findUnused req.dma = none)
    (huse : rs.inUse g = .cacheable) :
    Goes L map req rs (.scanRegionLink g) rs (scanAgain L 1)
  | giveUp {g : Region} (hlink : rs.link g = none) (hunused : rs.findUnused req.dma = none)
    (huse : rs.inUse g ≠ .cacheable) :
    Goes L map req rs (.scanRegionLink g) rs .noMemory

theorem goes_of_goto (hgo : goto L map req rs l = .ok (rs', l'))
    (hmove : ∀ g ff, l ≠ .found g ff) (hmem : l ≠ .noMemory) : Goes L map req rs l rs' l' := by
  cases l with
  | scanAgain2 g start =>
    obtain ⟨r, hscan, hr⟩ := bind_eq_ok.mp hgo
    cases r with
    | none =>
      cases hr
      exact .notFound hscan
    | some ff =>
      cases hr
      exact .found hscan
  | scanRegionLink g =>
    unfold goto at hgo
    cases hlink : rs.link g with
    | some l =>
      simp only [hlink] at hgo
      split_ifs at hgo with hroom
      · cases hgo
        exact .next hlink hroom
      · cases hgo
        exact .skip hlink hroom
    | none =>
      simp only [hlink] at hgo
      cases hunused : rs.findUnused req.dma with
      | some i =>
        simp only [hunused] at hgo
        cases hgo
        exact .claim hlink hunused
      | none =>
        simp only [hunused] at hgo
        split_ifs at hgo with huse
        · cases hgo
          exact .toDma hlink hunused huse
        · cases hgo
          exact .giveUp hlink hunused huse
  | found g ff => exact absurd rfl (hmove g ff)
  | noMemory => exact absurd rfl hmem

/-- The label at which a search ends. -/
def endLabel : Option (Region × ℕ) → Label
  | some (g, ff) => .found g ff
  | none => .noMemory

/-- What every goto keeps holds at the end of a search. -/
theorem search_invariant {I : Regions → Label → Prop}
    (hstep : ∀ rs l rs' l', I rs l → Goes L map req rs l rs' l' → I rs' l') (h₀ : I rs l)
    (h : search L map req k rs l = .ok (rs', x)) : I rs' (endLabel x) := by
  induction k generalizing rs l with
  | zero => cases h
  | succ k ih =>
    cases l with
    | scanAgain2 g start | scanRegionLink g =>
      obtain ⟨⟨rs₁, l₁⟩, hgo, hrest⟩ := bind_eq_ok.mp h
      exact ih (hstep _ _ _ _ h₀ (goes_of_goto hgo (by simp) (by simp))) hrest
    | found g ff =>
      cases h
      exact h₀
    | noMemory =>
      cases h
      exact h₀

/-! ## Safety -/

/-- The regions claimed between two states have no live page. -/
def QuietChanges (L : Layout) (live : List Run) (rs rs' : Regions) : Prop :=
  ∃ new, rs'.changes = new ++ rs.changes ∧ ∀ c ∈ new, NoLive L live c.1

theorem QuietChanges.of_eq (h : rs'.changes = rs.changes) : QuietChanges L live rs rs' :=
  ⟨[], h, by simp⟩

theorem QuietChanges.trans {rs'' : Regions} (h : QuietChanges L live rs rs')
    (h' : QuietChanges L live rs' rs'') : QuietChanges L live rs rs'' := by
  obtain ⟨new, hnew, hquiet⟩ := h
  obtain ⟨new', hnew', hquiet'⟩ := h'
  refine ⟨new' ++ new, by rw [hnew', hnew, append_assoc], fun c hc => ?_⟩
  rcases mem_append.mp hc with hc | hc
  · exact hquiet' c hc
  · exact hquiet c hc

/-- What is so at a label. -/
def LabelOk (L : Layout) (map : ℕ → Bool) (req : Request) (rs : Regions) : Label → Prop
  | .scanAgain2 g start => Serves rs req.dma g ∧ L.startOfAllocBitMap g ≤ start ∧ 0 < start
  | .scanRegionLink g => Serves rs req.dma g
  | .found g ff =>
    Serves rs req.dma g ∧ FitsAt map req (L.startOfAllocBitMap g) (L.endOfAllocBitMap g) ff
  | .noMemory => True

theorem labelOk_scanAgain (h : Serves rs req.dma g) (hg : g ≠ 0) :
    LabelOk L map req rs (scanAgain L g) :=
  ⟨h, Nat.le_refl _, L.start_pos hg⟩

theorem RegionsOk.serves_one (h : RegionsOk L rs live) (dma : Bool) : Serves rs dma 1 := by
  obtain ⟨chain, hchain⟩ := h.chains
  have hone : rs.inUse 1 = .dma := hchain.inUse_head true
  refine ⟨?_, fun _ => hone⟩
  rw [hone]
  decide

theorem RegionsOk.labelOk_first (h : RegionsOk L rs live) {firstUsablePage : ℕ}
    (hpos : 0 < firstUsablePage) : LabelOk L map req rs (firstLabel L req firstUsablePage) := by
  unfold firstLabel
  split_ifs with hdma
  · exact labelOk_scanAgain (h.serves_one _) (by decide)
  · obtain ⟨chain, hchain⟩ := h.chains
    have hzero : rs.inUse 0 = .cacheable := hchain.inUse_head false
    refine ⟨⟨?_, fun hd => absurd hd hdma⟩, ?_, hpos⟩
    · rw [hzero]
      decide
    · show mapNr 0 ≤ firstUsablePage
      simp [mapNr]

theorem Regions.inUse_of_findUnused (h : rs.findUnused dma = some i) :
    rs.inUse i = .notAllocated := by
  simpa using List.find?_some h

theorem Serves.of_inUse (h : Serves rs dma g) (huse : rs'.inUse i = rs.inUse g) :
    Serves rs' dma i :=
  ⟨huse ▸ h.used, fun hd => huse ▸ h.dma_use hd⟩

/-- **What one goto keeps.** -/
theorem Goes.ok (hgo : Goes L map req rs l rs' l') (h : RegionsOk L rs live) (hone : map 1 = true)
    (hl : LabelOk L map req rs l) :
    RegionsOk L rs' live ∧ LabelOk L map req rs' l' ∧ QuietChanges L live rs rs' := by
  obtain ⟨chain, hchain⟩ := h.chains
  cases hgo with
  | found hscan =>
    obtain ⟨hserves, hstart, -⟩ := hl
    have hfit := scan_some hone hscan
    exact ⟨h, ⟨hserves, hstart.trans hfit.start_le, hfit.le_stop, hfit.aligned, hfit.clear⟩,
      .of_eq rfl⟩
  | notFound hscan =>
    obtain ⟨hserves, -, -⟩ := hl
    exact ⟨h, hserves, .of_eq rfl⟩
  | next hlink hroom =>
    -- the next region of the chain has the same use
    have hnext := Serves.of_inUse hl (hchain.inUse_of_link hlink)
    exact ⟨h, labelOk_scanAgain hnext (hchain.link_ne_zero hlink), .of_eq rfl⟩
  | skip hlink hroom =>
    exact ⟨h, Serves.of_inUse hl (hchain.inUse_of_link hlink), .of_eq rfl⟩
  | claim hlink hunused =>
    have hserves : Serves rs req.dma _ := hl
    have hi := Regions.inUse_of_findUnused hunused
    refine ⟨h.claim hserves.used hlink hi,
      labelOk_scanAgain (hserves.of_inUse (Function.update_self ..))
        (hchain.ne_zero_of_unused hi), [_], rfl, ?_⟩
    intro c hc
    rw [mem_singleton.mp hc]
    exact h.noLive hi
  | toDma hlink hunused huse =>
    exact ⟨h, labelOk_scanAgain (h.serves_one _) (by decide), .of_eq rfl⟩
  | giveUp hlink hunused huse => exact ⟨h, trivial, .of_eq rfl⟩

/-- What is so at the end of a search. -/
def SearchOk (L : Layout) (map : ℕ → Bool) (req : Request) (rs : Regions) :
    Option (Region × ℕ) → Prop
  | some (g, ff) => LabelOk L map req rs (.found g ff)
  | none => True

/-- **What a search keeps.** -/
theorem search_ok (h : RegionsOk L rs live) (hone : map 1 = true) (hl : LabelOk L map req rs l)
    (hsearch : search L map req k rs l = .ok (rs', x)) :
    RegionsOk L rs' live ∧ SearchOk L map req rs' x ∧ QuietChanges L live rs rs' := by
  obtain ⟨h', hl', hquiet⟩ := search_invariant (I := fun rs₁ l₁ =>
      RegionsOk L rs₁ live ∧ LabelOk L map req rs₁ l₁ ∧ QuietChanges L live rs rs₁)
    (fun _ _ _ _ ⟨h₁, hl₁, hquiet⟩ hgo =>
      let ⟨h₂, hl₂, hquiet'⟩ := hgo.ok h₁ hone hl₁
      ⟨h₂, hl₂, hquiet.trans hquiet'⟩) ⟨h, hl, .of_eq rfl⟩ hsearch
  refine ⟨h', ?_, hquiet⟩
  cases x with
  | none => trivial
  | some x => exact hl'

/-! ## Termination -/

theorem smallScan_ends (hstart : 0 < start) {k littleAlloc : ℕ} (hwindow : 8 ∣ littleAlloc)
    (hlt : littleAlloc < 0x100000000) (hk : littleAlloc / 8 < k) :
    ∃ x, smallScan map req start stop k littleAlloc = .ok x := by
  induction k generalizing littleAlloc with
  | zero => omega
  | succ k ih =>
    unfold smallScan
    dsimp only
    split_ifs with hle
    · exact ⟨_, rfl⟩
    · -- a window at or above `start` is not the first one, so nothing wraps
      have hback : (littleAlloc + 0x100000000 - 8) % 0x100000000 = littleAlloc - 8 := by omega
      rw [hback]
      exact ih (by omega) (by omega) (by omega)
    · exact ⟨_, rfl⟩

theorem largeScan_ends {stop k ff : ℕ} (hk : stop + 1 - ff < k) :
    ∃ x, largeScan map req stop k ff = .ok x := by
  induction k generalizing ff with
  | zero => omega
  | succ k ih =>
    have hpos := req.num_pos
    unfold largeScan
    dsimp only
    split_ifs
    · exact ⟨_, rfl⟩
    · -- the start moves by at least one
      refine ih ?_
      rcases findNextZeroBit_cases map stop (ff + tryPage map req ff + 1) with hnone | hle
      · omega
      · omega
    · exact ⟨_, rfl⟩

theorem windows_end (map : ℕ → Bool) (req : Request) (hstart : 0 < start) (hwindow : 8 ∣ stop)
    (hpos : 0 < stop) (hlt : stop < 0x100000000) :
    ∃ x, smallScan map req start stop (stop / 8 + 1)
      ((stop + 0x100000000 - 8) % 0x100000000) = .ok x := by
  have hback : (stop + 0x100000000 - 8) % 0x100000000 = stop - 8 := by omega
  rw [hback]
  exact smallScan_ends hstart (by omega) (by omega) (by omega)

/-- **The scan of a region ends.** -/
theorem scan_ends (map : ℕ → Bool) (req : Request) (hstart : 0 < start) (hwindow : 8 ∣ stop)
    (hpos : 0 < stop) (hlt : stop < 0x100000000) : ∃ x, scan map req start stop = .ok x := by
  unfold scan
  split_ifs
  · exact windows_end map req hstart hwindow hpos hlt
  · exact largeScan_ends (by omega)

/-- The number of regions with use `u`. -/
def countUse (rs : Regions) (u : InUse) : ℕ :=
  tally Finset.univ (fun v => if v = u then 1 else 0) rs.inUse

theorem countUse_total (rs : Regions) :
    countUse rs .cacheable + countUse rs .dma + countUse rs .notAllocated = 6 := by
  unfold countUse tally
  rw [← Finset.sum_add_distrib, ← Finset.sum_add_distrib]
  have hone : ∀ g, (((if rs.inUse g = .cacheable then 1 else 0) +
      if rs.inUse g = .dma then 1 else 0) + if rs.inUse g = .notAllocated then 1 else 0) = 1 := by
    intro g
    cases rs.inUse g <;> rfl
  rw [Finset.sum_congr rfl fun g _ => hone g]
  rfl

theorem countUse_claim (hi : rs.inUse i = .notAllocated) (u : InUse) :
    countUse (rs.claim g i) u + (if .notAllocated = u then 1 else 0) =
      countUse rs u + if rs.inUse g = u then 1 else 0 := by
  have h := tally_update (fun v => if v = u then 1 else 0) rs.inUse (Finset.mem_univ i) (rs.inUse g)
  rw [hi] at h
  exact h

theorem Chains.countUse_eq {chain : Bool → List Region} (h : Chains rs chain) (k : Bool) :
    countUse rs (chainUse k) = (chain k).length + 1 := by
  have hcard : countUse rs (chainUse k) =
      (Finset.univ.filter fun g => rs.inUse g = chainUse k).card :=
    tally_eq_card fun g => rfl
  have hset : (Finset.univ.filter fun g => rs.inUse g = chainUse k) =
      (chainHead k :: chain k).toFinset := by
    ext g
    simp only [Finset.mem_filter, Finset.mem_univ, true_and, mem_toFinset, h.mem_iff k g]
  rw [hcard, hset, toFinset_card_of_nodup (h.nodup k), length_cons]

theorem RegionsOk.findUnused_eq_none_iff (h : RegionsOk L rs live) :
    rs.findUnused dma = none ↔ ∀ g, rs.inUse g ≠ .notAllocated := by
  obtain ⟨chain, hchain⟩ := h.chains
  constructor
  · intro hnone
    -- both orders of the search go over the same four regions
    have hmiddle : ∀ g ∈ [2, 3, 4, 5], rs.inUse g ≠ .notAllocated := by
      intro g hg hnot
      have hmem : g ∈ if dma then [2, 3, 4, 5] else [5, 4, 3, 2] := by
        cases dma with
        | true => exact hg
        | false => exact mem_reverse.mp hg
      have := List.find?_eq_none.mp hnone g hmem
      simp [hnot] at this
    intro g
    fin_cases g
    · exact fun hnot => hchain.ne_zero_of_unused hnot rfl
    · exact (h.serves_one false).used
    all_goals exact hmiddle _ (by decide)
  · intro hused
    refine List.find?_eq_none.mpr fun g _ => ?_
    simpa using hused g

theorem RegionsOk.countUse_of_findUnused (h : RegionsOk L rs live)
    (hnone : rs.findUnused dma = none) : countUse rs .notAllocated = 0 :=
  tally_eq_zero fun g _ => if_neg (h.findUnused_eq_none_iff.mp hnone g)

/-- How many regions there are still to visit from `g` on, `g` included, if
`rest` follows it. -/
def visits (rs : Regions) (g : Region) (rest : List Region) : ℕ :=
  1 + rest.length + countUse rs .notAllocated +
    if rs.inUse g = .cacheable then countUse rs .dma else 0

/-- At most `n` gotos are left, the end included. -/
def GotosLeft (rs : Regions) : Label → ℕ → Prop
  | .scanAgain2 g _, n => ∃ rest, Path rs.link g rest ∧ 2 * visits rs g rest + 1 ≤ n
  | .scanRegionLink g, n => ∃ rest, Path rs.link g rest ∧ 2 * visits rs g rest ≤ n
  | _, n => 1 ≤ n

theorem RegionsOk.gotosLeft_first (h : RegionsOk L rs live) (firstUsablePage : ℕ) :
    GotosLeft rs (firstLabel L req firstUsablePage) maxGotos := by
  obtain ⟨chain, hchain⟩ := h.chains
  have htotal := countUse_total rs
  have hcached : countUse rs .cacheable = (chain false).length + 1 := hchain.countUse_eq false
  have hdma : countUse rs .dma = (chain true).length + 1 := hchain.countUse_eq true
  unfold firstLabel maxGotos
  split_ifs
  · -- from the head of the DMA chain the other chain is never visited
    have huse : rs.inUse 1 = .dma := hchain.inUse_head true
    refine ⟨chain true, hchain.path true, ?_⟩
    rw [visits, huse, if_neg (by decide)]
    omega
  · have huse : rs.inUse 0 = .cacheable := hchain.inUse_head false
    refine ⟨chain false, hchain.path false, ?_⟩
    rw [visits, huse, if_pos rfl]
    omega

/-- **One goto more, one goto less.** -/
theorem goto_ends (h : RegionsOk L rs live) (hl : LabelOk L map req rs l) {n : ℕ}
    (hleft : GotosLeft rs l (n + 1)) (hmove : ∀ g ff, l ≠ .found g ff) (hmem : l ≠ .noMemory) :
    ∃ rs' l', goto L map req rs l = .ok (rs', l') ∧ GotosLeft rs' l' n := by
  cases l with
  | scanAgain2 g start =>
    obtain ⟨hserves, hstart, hpos⟩ := hl
    obtain ⟨rest, hpath, hn⟩ := hleft
    obtain ⟨hwindow, hend, hsize⟩ := L.end_bounds g
    obtain ⟨x, hx⟩ := scan_ends map req hpos hwindow hend (hsize.trans_lt L.bitMapSize_lt)
    unfold goto
    dsimp only
    rw [hx]
    cases x with
    | none => exact ⟨rs, .scanRegionLink g, rfl, rest, hpath, by omega⟩
    | some ff =>
      refine ⟨rs, .found g ff, rfl, ?_⟩
      show 1 ≤ n
      unfold visits at hn
      omega
  | scanRegionLink g =>
    obtain ⟨rest, hpath, hn⟩ := hleft
    obtain ⟨chain, hchain⟩ := h.chains
    unfold goto
    dsimp only
    cases rest with
    | cons l rest =>
      -- the next region of the chain
      obtain ⟨hlink, hrest⟩ := hpath
      have hvisits : visits rs g (l :: rest) = visits rs l rest + 1 := by
        unfold visits
        rw [hchain.inUse_of_link hlink, length_cons]
        omega
      rw [hlink]
      dsimp only
      split_ifs <;> exact ⟨rs, _, rfl, rest, hrest, by omega⟩
    | nil =>
      have hlink : rs.link g = none := hpath
      simp only [hlink]
      cases hunused : rs.findUnused req.dma with
      | some i =>
        -- one region less can be claimed
        have hi := Regions.inUse_of_findUnused hunused
        have hnot := countUse_claim (g := g) hi .notAllocated
        have hdma := countUse_claim (g := g) hi .dma
        have huse : (rs.claim g i).inUse i = rs.inUse g := Function.update_self ..
        have hused : rs.inUse g ≠ .notAllocated := Serves.used hl
        refine ⟨_, _, rfl, [], Function.update_self .., ?_⟩
        have hvisits : visits (rs.claim g i) i [] + 1 = visits rs g [] := by
          unfold visits
          rw [huse]
          rw [if_neg (by decide : InUse.notAllocated ≠ .dma)] at hdma
          rw [if_pos rfl, if_neg hused] at hnot
          by_cases hcached : rs.inUse g = .cacheable
          · rw [hcached, if_neg (by decide)] at hdma
            rw [if_pos hcached, if_pos hcached]
            omega
          · rw [if_neg hcached, if_neg hcached]
            omega
        omega
      | none =>
        have hnone := h.countUse_of_findUnused hunused
        dsimp only
        split_ifs with hcached
        · -- on to the DMA chain
          have hone : rs.inUse 1 = .dma := hchain.inUse_head true
          have hdma : countUse rs .dma = (chain true).length + 1 := hchain.countUse_eq true
          refine ⟨rs, _, rfl, chain true, hchain.path true, ?_⟩
          rw [visits, if_pos hcached] at hn
          rw [visits, hone, if_neg (by decide)]
          omega
        · refine ⟨rs, _, rfl, ?_⟩
          show 1 ≤ n
          unfold visits at hn
          omega
  | found g ff => exact absurd rfl (hmove g ff)
  | noMemory => exact absurd rfl hmem

/-- **A search ends**, by induction on the gotos that are left. -/
theorem search_ends (h : RegionsOk L rs live) (hone : map 1 = true) (hl : LabelOk L map req rs l)
    (hleft : GotosLeft rs l k) : ∃ x, search L map req k rs l = .ok x := by
  induction k generalizing rs l with
  | zero =>
    cases l with
    | scanAgain2 g start =>
      obtain ⟨rest, -, hn⟩ := hleft
      omega
    | scanRegionLink g =>
      obtain ⟨rest, -, hn⟩ := hleft
      unfold visits at hn
      omega
    | found g ff => exact absurd hleft (Nat.not_succ_le_zero 0)
    | noMemory => exact absurd hleft (Nat.not_succ_le_zero 0)
  | succ k ih =>
    -- each goto leaves one less
    have hstep : ∀ {l}, LabelOk L map req rs l → GotosLeft rs l (k + 1) →
        (∀ g ff, l ≠ .found g ff) → l ≠ .noMemory →
        ∃ x, (goto L map req rs l >>= fun x => search L map req k x.1 x.2) = .ok x := by
      intro l hl hleft hmove hmem
      obtain ⟨rs₁, l₁, hgo, hleft₁⟩ := goto_ends h hl hleft hmove hmem
      obtain ⟨h₁, hl₁, -⟩ := (goes_of_goto hgo hmove hmem).ok h hone hl
      obtain ⟨x, hx⟩ := ih h₁ hl₁ hleft₁
      exact ⟨x, bind_eq_ok.mpr ⟨_, hgo, hx⟩⟩
    cases l with
    | scanAgain2 g start => exact hstep hl hleft (by simp) (by simp)
    | scanRegionLink g => exact hstep hl hleft (by simp) (by simp)
    | found g ff => exact ⟨_, rfl⟩
    | noMemory => exact ⟨_, rfl⟩

end

end PageAlloc
