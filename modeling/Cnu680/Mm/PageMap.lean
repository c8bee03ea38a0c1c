import Cnu680.Mm.PageAlloc
import Cnu680.Framework.Tally
import Mathlib.Tactic.FinCases
import Mathlib.Tactic.NormNum

/-! # The page allocator: bit map, free count and low-water mark

* **Layout**: the six regions divide the pages between them, and the
  region `free_contiguous_pages` works out from an address is the one
  whose range the page is in.
* **Scans**: pages that a scan finds are free, lie between its bounds
  and are aligned. The one page number a scan makes up, the 1 that
  `find_next_zero_bit` returns for the limit 0, is a reserved page.
* **`MapOk`**: the number of free pages is the number of clear bits, no
  page below the low-water mark is free, and pages 0 and 1 never are.
* **`LiveOk`**: the live runs consist of pages that are not free, and no
  page is in two of them.
-/

open Framework Function List

namespace PageAlloc

/-! ## Layout -/

@[simp] theorem mapNr_pageAddress (p : ℕ) : mapNr (pageAddress p) = p :=
  Nat.mul_div_cancel p (by decide)

namespace Layout
variable (L : Layout) {p : ℕ}

/-- Page `p` is in the range of region `g`. -/
def InRegion (g : Region) (p : ℕ) : Prop :=
  L.startOfAllocBitMap g ≤ p ∧ p < L.endOfAllocBitMap g

instance (g : Region) (p : ℕ) : Decidable (L.InRegion g p) := inferInstanceAs (Decidable (_ ∧ _))

theorem exists_windows : ∃ a b c, L.dramSize = 32768 * a ∧ L.dmaRegionSize = 32768 * b ∧
    L.regionSize = 32768 * c ∧ 0 < b ∧ 0 < c ∧ b + 4 * c < a := by
  obtain ⟨a, ha⟩ := L.dram_dvd
  obtain ⟨b, hb⟩ := L.dma_dvd
  obtain ⟨c, hc⟩ := L.region_dvd
  have hdma := L.dma_pos
  have hregion := L.region_pos
  have hfits := L.fits
  norm_num only [PAGE_SIZE] at ha hb hc
  exact ⟨a, b, c, ha, hb, hc, by omega, by omega, by omega⟩

theorem end_bounds (g : Region) :
    8 ∣ L.endOfAllocBitMap g ∧ 0 < L.endOfAllocBitMap g ∧
      L.endOfAllocBitMap g ≤ L.bitMapSize := by
  obtain ⟨a, b, c, ha, hb, hc, hbpos, hcpos, hlt⟩ := L.exists_windows
  fin_cases g <;>
    simp only [endOfAllocBitMap, endAddr, beginAddr, bitMapSize, mapNr, PAGE_SIZE, ha, hb, hc] <;>
    omega

theorem start_pos {g : Region} (hg : g ≠ 0) : 0 < L.startOfAllocBitMap g := by
  obtain ⟨a, b, c, ha, hb, hc, hbpos, hcpos, hlt⟩ := L.exists_windows
  fin_cases g
  · exact absurd rfl hg
  all_goals
    simp only [startOfAllocBitMap, beginAddr, mapNr, PAGE_SIZE, ha, hb, hc]
    omega

/-- **The two ways to find a region agree**: the region of the address of a
page is the region whose range has the page. -/
theorem regionOf_pageAddress {g : Region} (h : L.InRegion g p) :
    L.regionOf (pageAddress p) = g := by
  obtain ⟨a, b, c, ha, hb, hc, hbpos, hcpos, hlt⟩ := L.exists_windows
  obtain ⟨hstart, hend⟩ := h
  -- each test of `regionOf` compares with one end of the range
  fin_cases g <;>
    simp only [startOfAllocBitMap, endOfAllocBitMap, endAddr, beginAddr, mapNr, PAGE_SIZE, ha, hb,
      hc] at hstart hend <;>
    simp only [regionOf, endAddr, beginAddr, pageAddress, PAGE_SIZE, ha, hb, hc] <;>
    split_ifs <;> first | rfl | omega

theorem inRegion_unique {g h : Region} (hg : L.InRegion g p) (hh : L.InRegion h p) : g = h :=
  (L.regionOf_pageAddress hg).symm.trans (L.regionOf_pageAddress hh)

theorem bitMapSize_lt : L.bitMapSize < 0x100000000 :=
  (Nat.div_le_self _ _).trans_lt L.dram_lt

theorem pageAddress_lt (hp : p < L.bitMapSize) : pageAddress p < 0x100000000 := by
  have hle : pageAddress p ≤ L.dramSize :=
    (Nat.mul_le_mul_right _ hp.le).trans (Nat.div_mul_le_self _ _)
  exact hle.trans_lt L.dram_lt

end Layout

/-! ## Scans -/

theorem le_foundBit (r3 r2 : ℕ) : r2 ≤ foundBit r3 r2 := by
  unfold foundBit
  dsimp only
  split_ifs <;> omega

theorem findByte_cases (map : ℕ → Bool) (maxbit k r2 : ℕ) :
    findByte map maxbit k r2 = maxbit + 1 ∨ r2 ≤ findByte map maxbit k r2 := by
  induction k generalizing r2 with
  | zero => exact .inl rfl
  | succ k ih =>
    unfold findByte
    dsimp only
    split_ifs with hbyte hmore
    · exact .inr (le_foundBit _ _)
    · rcases ih (r2 + 8) with h | h
      · exact .inl h
      · exact .inr (by omega)
    · exact .inl rfl

/-- What is found lies at or after the offset; or nothing is found. -/
theorem findNextZeroBit_cases (map : ℕ → Bool) (maxbit offset : ℕ) :
    findNextZeroBit map maxbit offset = maxbit + 1 ∨
      offset ≤ findNextZeroBit map maxbit offset := by
  unfold findNextZeroBit
  dsimp only
  split_ifs with hnew hbyte
  · exact findByte_cases map maxbit _ offset
  · exact .inr (le_foundBit _ _)
  · have hor : offset ≤ offset ||| 7 := Nat.left_le_or
    rcases findByte_cases map maxbit (maxbit + 1) ((offset ||| 7) + 1) with h | h
    · exact .inl h
    · exact .inr (by omega)

theorem clear_of_freeRun {map : ℕ → Bool} {p k : ℕ} (h : k ≤ freeRun map p k) {i : ℕ}
    (hle : p ≤ i) (hlt : i < p + k) : map i = false := by
  induction k generalizing p with
  | zero => omega
  | succ k ih =>
    unfold freeRun at h
    split_ifs at h with hp
    · omega
    · rcases Nat.eq_or_lt_of_le hle with rfl | hgt
      · exact Bool.not_eq_true _ ▸ hp
      · have hnext : p + 1 ≤ i := hgt
        exact ih (p := p + 1) (by omega) hnext (by omega)

/-- Pages that can be handed out: free, aligned, between the bounds. -/
structure FitsAt (map : ℕ → Bool) (req : Request) (start stop ff : ℕ) : Prop where
  start_le : start ≤ ff
  le_stop : ff + req.numAdjpages ≤ stop
  aligned : misaligned ff req.alignOrder = false
  clear : ∀ i, ff ≤ i → i < ff + req.numAdjpages → map i = false

section
variable {map : ℕ → Bool} {req : Request} {start stop ff : ℕ}

theorem FitsAt.first_clear (h : FitsAt map req start stop ff) : map ff = false :=
  h.clear ff (Nat.le_refl ff) (Nat.lt_add_of_pos_right req.num_pos)

theorem fitsAt_of_tryPage (hstart : start ≤ ff) (hstop : ff + req.numAdjpages ≤ stop)
    (h : req.numAdjpages ≤ tryPage map req ff) : FitsAt map req start stop ff := by
  have hpos := req.num_pos
  unfold tryPage at h
  split_ifs at h with hmis
  · omega
  · exact ⟨hstart, hstop, Bool.not_eq_true _ ▸ hmis, fun i => clear_of_freeRun h⟩

theorem not_le_tryPage (h : map ff = true) : ¬ req.numAdjpages ≤ tryPage map req ff := by
  intro hle
  have hfit : FitsAt map req ff (ff + req.numAdjpages) ff :=
    fitsAt_of_tryPage (Nat.le_refl _) (Nat.le_refl _) hle
  rw [hfit.first_clear] at h
  cases h

theorem smallScan_some (hone : map 1 = true) {k littleAlloc : ℕ}
    (h : smallScan map req start stop k littleAlloc = .ok (some ff)) :
    FitsAt map req start stop ff := by
  induction k generalizing littleAlloc with
  | zero => cases h
  | succ k ih =>
    unfold smallScan at h
    dsimp only at h
    split_ifs at h with hstart hfit
    · obtain rfl := Option.some.inj (Except.ok.inj h)
      obtain ⟨hstop, htry⟩ := hfit
      rcases findNextZeroBit_cases map 0 littleAlloc with hnone | hle
      · -- page 1 is not free
        rw [hnone] at htry
        exact absurd htry (not_le_tryPage hone)
      · exact fitsAt_of_tryPage (hstart.trans hle) hstop htry
    · exact ih h
    · cases h

theorem largeScan_some {k ff₀ : ℕ} (hff : ff₀ = stop + 1 ∨ start ≤ ff₀)
    (h : largeScan map req stop k ff₀ = .ok (some ff)) : FitsAt map req start stop ff := by
  induction k generalizing ff₀ with
  | zero => cases h
  | succ k ih =>
    unfold largeScan at h
    dsimp only at h
    split_ifs at h with hstop htry
    · obtain rfl := Option.some.inj (Except.ok.inj h)
      exact fitsAt_of_tryPage (by omega) hstop htry
    · refine ih ?_ h
      -- the next start is further on, or past the end, where the loop stops
      rcases findNextZeroBit_cases map stop (ff₀ + tryPage map req ff₀ + 1) with hnone | hle
      · exact .inl hnone
      · exact .inr (by omega)
    · cases h

/-- **What a scan finds can be handed out.** -/
theorem scan_some (hone : map 1 = true) (h : scan map req start stop = .ok (some ff)) :
    FitsAt map req start stop ff := by
  unfold scan at h
  split_ifs at h
  · exact smallScan_some hone h
  · exact largeScan_some (findNextZeroBit_cases map stop start) h

end

/-! ## Alignment -/

theorem shiftLeft_page (alignOrder : ℕ) : PAGE_SIZE <<< alignOrder = 2 ^ (12 + alignOrder) := by
  rw [Nat.shiftLeft_eq, Nat.pow_add]
  norm_num [PAGE_SIZE]

/-- The mask has the low bits of the address. An alignment of 4 GB or more is 0
in 32 bits, and the mask is all ones. -/
theorem alignMask_eq (alignOrder : ℕ) :
    ((PAGE_SIZE <<< alignOrder) % 0x100000000 + 0x100000000 - 1) % 0x100000000 =
      2 ^ min (12 + alignOrder) 32 - 1 := by
  have hword : 0x100000000 = 2 ^ 32 := by norm_num
  rw [shiftLeft_page, hword]
  rcases Nat.lt_or_ge alignOrder 20 with hsmall | hlarge
  · have hbound : 2 ^ (12 + alignOrder) < 2 ^ 32 := Nat.pow_lt_pow_right (by omega) (by omega)
    have hpos : 0 < 2 ^ (12 + alignOrder) := Nat.two_pow_pos _
    rw [Nat.min_eq_left (by omega), Nat.mod_eq_of_lt hbound]
    omega
  · have hdvd : 2 ^ 32 ∣ 2 ^ (12 + alignOrder) := Nat.pow_dvd_pow 2 (by omega)
    rw [Nat.min_eq_right (by omega), Nat.mod_eq_zero_of_dvd hdvd]
    norm_num

/-- **The mask test** is a test for a multiple of the alignment. -/
theorem not_misaligned_iff {p alignOrder : ℕ} (hlt : pageAddress p < 0x100000000) :
    misaligned p alignOrder = false ↔ PAGE_SIZE <<< alignOrder ∣ pageAddress p := by
  simp only [misaligned, bne_eq_false_iff_eq]
  rw [alignMask_eq, Nat.and_two_pow_sub_one_eq_mod, ← Nat.dvd_iff_mod_eq_zero, shiftLeft_page]
  rcases Nat.lt_or_ge alignOrder 20 with hsmall | hlarge
  · rw [Nat.min_eq_left (by omega)]
  · -- only address 0 is a multiple of 4 GB
    have hword : 0x100000000 = 2 ^ 32 := by norm_num
    rw [Nat.min_eq_right (by omega)]
    constructor
    · intro hdvd
      rw [Nat.eq_zero_of_dvd_of_lt hdvd (hword ▸ hlt)]
      exact Nat.dvd_zero _
    · exact fun hdvd => (Nat.pow_dvd_pow 2 (by omega)).trans hdvd

/-! ## Bit map and free count -/

/-- The weight of a page in the number of free pages. -/
def freeWeight (bit : Bool) : ℕ := if bit then 0 else 1

@[simp] theorem freeWeight_true : freeWeight true = 0 := rfl

@[simp] theorem freeWeight_false : freeWeight false = 1 := rfl

/-- The number of clear bits. -/
def clearBits (L : Layout) (map : ℕ → Bool) : ℕ :=
  tally (Finset.range L.bitMapSize) freeWeight map

theorem clearBits_eq_card (L : Layout) (map : ℕ → Bool) :
    clearBits L map = ((Finset.range L.bitMapSize).filter fun i => map i = false).card := by
  refine tally_eq_card fun i => ?_
  cases map i <;> rfl

/-- What the three variables say is so. -/
structure MapOk (L : Layout) (pg : Pages) : Prop where
  nrFree : pg.nrFreePages = clearBits L pg.bitMap
  low : ∀ i < pg.firstUsablePage, pg.bitMap i = true
  reserved : ∀ i < 2, pg.bitMap i = true
  two_le : 2 ≤ pg.firstUsablePage

section
variable {L : Layout} {pg : Pages} {ps : List ℕ} {p : ℕ}

theorem clearBits_update (hp : p < L.bitMapSize) (map : ℕ → Bool) (bit : Bool) :
    clearBits L (update map p bit) + freeWeight (map p) =
      clearBits L map + freeWeight bit :=
  tally_update freeWeight map (Finset.mem_range.mpr hp) bit

theorem MapOk.put (h : MapOk L pg) (hp : 2 ≤ p) (hlt : p < L.bitMapSize)
    (hset : pg.bitMap p = true) : MapOk L (pg.put p) := by
  have hcount := clearBits_update hlt pg.bitMap false
  rw [hset] at hcount
  refine ⟨?_, fun i hi => ?_, fun i hi => ?_, ?_⟩
  · show pg.nrFreePages + 1 = clearBits L (update pg.bitMap p false)
    rw [h.nrFree]
    exact hcount.symm
  · -- the mark is at or below `p`
    have hlow : i < p ∧ i < pg.firstUsablePage := by
      simp only [Pages.put] at hi
      split_ifs at hi <;> omega
    show update pg.bitMap p false i = true
    rw [update_of_ne hlow.1.ne]
    exact h.low i hlow.2
  · show update pg.bitMap p false i = true
    rw [update_of_ne (by omega)]
    exact h.reserved i hi
  · have := h.two_le
    simp only [Pages.put]
    split_ifs <;> assumption

@[simp] theorem bitMap_foldl_put (i : ℕ) :
    (ps.foldl Pages.put pg).bitMap i = if i ∈ ps then false else pg.bitMap i := by
  induction ps generalizing pg with
  | nil => rfl
  | cons p ps ih =>
    rw [foldl_cons, ih]
    by_cases hi : i ∈ ps
    · rw [if_pos hi, if_pos (mem_cons_of_mem p hi)]
    · rw [if_neg hi]
      by_cases hip : i = p
      · rw [hip, if_pos mem_cons_self]
        exact update_self ..
      · rw [if_neg (by simp [hip, hi])]
        exact update_of_ne hip ..

theorem count_foldl_put {i : ℕ} (hi : i ∉ ps) : (ps.foldl Pages.put pg).count i = pg.count i := by
  induction ps generalizing pg with
  | nil => rfl
  | cons p ps ih =>
    rw [foldl_cons, ih (not_mem_of_not_mem_cons hi)]
    exact update_of_ne (ne_of_not_mem_cons hi) ..

theorem MapOk.foldl_put (h : MapOk L pg) (hnd : ps.Nodup)
    (hps : ∀ p ∈ ps, 2 ≤ p ∧ p < L.bitMapSize ∧ pg.bitMap p = true) :
    MapOk L (ps.foldl Pages.put pg) := by
  induction ps generalizing pg with
  | nil => exact h
  | cons p ps ih =>
    obtain ⟨hp, hnd⟩ := nodup_cons.mp hnd
    obtain ⟨htwo, hlt, hset⟩ := hps p mem_cons_self
    refine ih (h.put htwo hlt hset) hnd fun q hq => ?_
    obtain ⟨htwo', hlt', hset'⟩ := hps q (mem_cons_of_mem p hq)
    have hqp : q ≠ p := fun h => hp (h ▸ hq)
    exact ⟨htwo', hlt', (update_of_ne hqp ..).trans hset'⟩

theorem foldr_take {β : Type} (f : Pages → ℕ → β) {v : β}
    (hf : ∀ p pg, f (pg.take p) = update (f pg) p v) (i : ℕ) :
    f (ps.foldr (fun p pg => pg.take p) pg) i = if i ∈ ps then v else f pg i := by
  induction ps with
  | nil => rfl
  | cons p ps ih =>
    rw [foldr_cons, hf]
    by_cases hip : i = p
    · rw [hip, update_self, if_pos mem_cons_self]
    · rw [update_of_ne hip, ih]
      simp [hip]

@[simp] theorem bitMap_foldr_take (i : ℕ) :
    (ps.foldr (fun p pg => pg.take p) pg).bitMap i = if i ∈ ps then true else pg.bitMap i :=
  foldr_take Pages.bitMap (fun _ _ => rfl) i

theorem count_foldr_take (i : ℕ) :
    (ps.foldr (fun p pg => pg.take p) pg).count i = if i ∈ ps then 1 else pg.count i :=
  foldr_take Pages.count (fun _ _ => rfl) i

theorem foldr_take_frame (ps : List ℕ) (pg : Pages) :
    (ps.foldr (fun p pg => pg.take p) pg).nrFreePages = pg.nrFreePages ∧
      (ps.foldr (fun p pg => pg.take p) pg).firstUsablePage = pg.firstUsablePage := by
  induction ps with
  | nil => exact ⟨rfl, rfl⟩
  | cons p ps ih => exact ih

theorem clearBits_foldr_take (hnd : ps.Nodup)
    (hps : ∀ p ∈ ps, p < L.bitMapSize ∧ pg.bitMap p = false) :
    clearBits L (ps.foldr (fun p pg => pg.take p) pg).bitMap + ps.length =
      clearBits L pg.bitMap := by
  induction ps with
  | nil => rfl
  | cons p ps ih =>
    obtain ⟨hp, hnd⟩ := nodup_cons.mp hnd
    obtain ⟨hlt, hclear⟩ := hps p mem_cons_self
    have hrest := ih hnd fun q hq => hps q (mem_cons_of_mem p hq)
    have hcount := clearBits_update hlt (ps.foldr (fun p pg => pg.take p) pg).bitMap true
    rw [bitMap_foldr_take, if_neg hp, hclear, freeWeight_true, freeWeight_false] at hcount
    show clearBits L (update _ p true) + (ps.length + 1) = _
    omega

end

/-! ## Live runs -/

/-- The pages of a run. -/
def Run.pages (r : Run) : List ℕ := List.range' r.start r.num

/-- The pages of all live runs. -/
def livePages (live : List Run) : List ℕ := live.flatMap Run.pages

@[simp] theorem Run.mem_pages {r : Run} {p : ℕ} :
    p ∈ r.pages ↔ r.start ≤ p ∧ p < r.start + r.num := mem_range'_1

theorem mem_livePages {live : List Run} {p : ℕ} :
    p ∈ livePages live ↔ ∃ r ∈ live, p ∈ r.pages := mem_flatMap

@[simp] theorem livePages_cons (r : Run) (live : List Run) :
    livePages (r :: live) = r.pages ++ livePages live := rfl

theorem livePages_perm {live : List Run} {r : Run} (hr : r ∈ live) :
    (livePages live).Perm (r.pages ++ livePages (live.erase r)) :=
  (perm_cons_erase hr).flatMap_right Run.pages

theorem Run.start_mem_pages {r : Run} (h : 0 < r.num) : r.start ∈ r.pages :=
  Run.mem_pages.mpr ⟨Nat.le_refl _, Nat.lt_add_of_pos_right h⟩

/-- The live runs in the map: each page is taken, and by one run only. -/
structure LiveOk (L : Layout) (pg : Pages) (live : List Run) : Prop where
  nodup : (livePages live).Nodup
  pos : ∀ r ∈ live, 0 < r.num
  taken : ∀ p ∈ livePages live, 2 ≤ p ∧ p < L.bitMapSize ∧ pg.bitMap p = true
  count : ∀ r ∈ live, 1 ≤ pg.count r.start

section
variable {L : Layout} {pg : Pages} {live : List Run} {r : Run} {p : ℕ}

theorem LiveOk.start_mem (h : LiveOk L pg live) (hr : r ∈ live) : r.start ∈ livePages live :=
  mem_livePages.mpr ⟨r, hr, Run.start_mem_pages (h.pos r hr)⟩

theorem LiveOk.not_mem_erase (h : LiveOk L pg live) (hr : r ∈ live) (hp : p ∈ r.pages) :
    p ∉ livePages (live.erase r) := by
  have hnd : (r.pages ++ livePages (live.erase r)).Nodup := (livePages_perm hr).nodup h.nodup
  exact fun hp' => disjoint_of_nodup_append hnd hp hp'

theorem LiveOk.congr {pg' : Pages} (h : LiveOk L pg live)
    (hbit : ∀ p ∈ livePages live, pg'.bitMap p = true)
    (hcount : ∀ r ∈ live, 1 ≤ pg'.count r.start) : LiveOk L pg' live where
  nodup := h.nodup
  pos := h.pos
  taken p hp := ⟨(h.taken p hp).1, (h.taken p hp).2.1, hbit p hp⟩
  count := hcount

theorem MapOk.setCount {n : Int} (h : MapOk L pg) : MapOk L (pg.setCount p n) :=
  { h with }

theorem LiveOk.setCount {n : Int} (h : LiveOk L pg live) (hn : 1 ≤ n) :
    LiveOk L (pg.setCount p n) live := by
  refine h.congr (fun q hq => (h.taken q hq).2.2) fun r' hr' => ?_
  show 1 ≤ update pg.count p n r'.start
  by_cases hp : r'.start = p
  · rw [hp, update_self]
    exact hn
  · rw [update_of_ne hp]
    exact h.count r' hr'

/-! ### Handing out -/

section
variable {req : Request} {start stop ff : ℕ}

theorem two_le_of_clear (hmap : MapOk L pg) (hp : pg.bitMap p = false) : 2 ≤ p := by
  by_contra hlt
  rw [hmap.reserved p (by omega)] at hp
  cases hp

theorem FitsAt.clearBits_takeRun (hfit : FitsAt pg.bitMap req start stop ff)
    (hstop : stop ≤ L.bitMapSize) : clearBits L (pg.takeRun ff req.numAdjpages).bitMap +
      req.numAdjpages = clearBits L pg.bitMap := by
  have hmem : ∀ p ∈ List.range' ff req.numAdjpages, p < L.bitMapSize ∧ pg.bitMap p = false := by
    intro p hp
    obtain ⟨hle, hlt⟩ := mem_range'_1.mp hp
    have := hfit.le_stop
    exact ⟨by omega, hfit.clear p hle hlt⟩
  have hcount : clearBits L (pg.takeRun ff req.numAdjpages).bitMap +
      (List.range' ff req.numAdjpages).length = clearBits L pg.bitMap :=
    clearBits_foldr_take nodup_range' hmem
  rwa [length_range'] at hcount

theorem MapOk.takeRun (h : MapOk L pg) (hfit : FitsAt pg.bitMap req start stop ff)
    (hstop : stop ≤ L.bitMapSize) : MapOk L (pg.takeRun ff req.numAdjpages) := by
  obtain ⟨hnr, hfirst⟩ := foldr_take_frame (List.range' ff req.numAdjpages)
    { pg with nrFreePages := pg.nrFreePages - req.numAdjpages }
  have hkeep : ∀ i, pg.bitMap i = true → (pg.takeRun ff req.numAdjpages).bitMap i = true := by
    intro i hi
    simp [Pages.takeRun, hi]
  refine ⟨?_, fun i hi => hkeep i (h.low i (hfirst ▸ hi)),
    fun i hi => hkeep i (h.reserved i hi), ?_⟩
  · -- the count of free pages goes down by the same number
    have hcount := hfit.clearBits_takeRun hstop
    have hnew : (pg.takeRun ff req.numAdjpages).nrFreePages =
        pg.nrFreePages - req.numAdjpages := hnr
    have hold : pg.nrFreePages = clearBits L pg.bitMap := h.nrFree
    omega
  · rw [Pages.takeRun, hfirst]
    exact h.two_le

theorem LiveOk.not_mem_of_clear (h : LiveOk L pg live) (hp : pg.bitMap p = false) :
    p ∉ livePages live := by
  intro hmem
  rw [(h.taken p hmem).2.2] at hp
  cases hp

theorem LiveOk.takeRun (h : LiveOk L pg live) (hmap : MapOk L pg)
    (hfit : FitsAt pg.bitMap req start stop ff) (hstop : stop ≤ L.bitMapSize) :
    LiveOk L (pg.takeRun ff req.numAdjpages) (⟨ff, req.numAdjpages, req.dma⟩ :: live) where
  nodup := by
    rw [livePages_cons, nodup_append']
    refine ⟨nodup_range', h.nodup, fun p hp => h.not_mem_of_clear ?_⟩
    obtain ⟨hle, hlt⟩ := Run.mem_pages.mp hp
    exact hfit.clear p hle hlt
  pos := by
    intro r hr
    rcases mem_cons.mp hr with rfl | hr
    · exact req.num_pos
    · exact h.pos r hr
  taken := by
    intro p hp
    rw [livePages_cons, mem_append] at hp
    rcases hp with hp | hp
    · -- a page of the new run, or of one that was there
      have hbound := hfit.le_stop
      have hset : (pg.takeRun ff req.numAdjpages).bitMap p = true := by
        rw [Pages.takeRun, bitMap_foldr_take]
        exact if_pos hp
      obtain ⟨hle, hlt⟩ := Run.mem_pages.mp hp
      dsimp only at hle hlt
      exact ⟨two_le_of_clear hmap (hfit.clear p hle hlt), by omega, hset⟩
    · obtain ⟨htwo, hlt, hset⟩ := h.taken p hp
      exact ⟨htwo, hlt, by simp [Pages.takeRun, hset]⟩
  count := by
    intro r hr
    rw [Pages.takeRun, count_foldr_take]
    split_ifs with hmem
    · exact Int.le_refl 1
    · rcases mem_cons.mp hr with rfl | hr
      · exact absurd (Run.start_mem_pages req.num_pos) hmem
      · exact h.count r hr

end

/-! ### Freeing -/

theorem LiveOk.erase (h : LiveOk L pg live) (hr : r ∈ live) : LiveOk L pg (live.erase r) where
  nodup := ((livePages_perm hr).nodup h.nodup).of_append_right
  pos r' hr' := h.pos r' (mem_of_mem_erase hr')
  taken p hp := by
    obtain ⟨r', hr', hp⟩ := mem_livePages.mp hp
    exact h.taken p (mem_livePages.mpr ⟨r', mem_of_mem_erase hr', hp⟩)
  count r' hr' := h.count r' (mem_of_mem_erase hr')

theorem MapOk.freed (h : MapOk L pg) (hlive : LiveOk L pg live) (hr : r ∈ live) (n : Int) :
    MapOk L ((pg.setCount r.start n).putRun r.start r.num) := by
  refine h.setCount.foldl_put nodup_range' fun p hp => ?_
  exact hlive.taken p (mem_livePages.mpr ⟨r, hr, hp⟩)

theorem LiveOk.freed (h : LiveOk L pg live) (hr : r ∈ live) (n : Int) :
    LiveOk L ((pg.setCount r.start n).putRun r.start r.num) (live.erase r) := by
  have hother := h.erase hr
  -- no page of another run is among those freed
  have hnot : ∀ p ∈ livePages (live.erase r), p ∉ List.range' r.start r.num :=
    fun p hp hmem => h.not_mem_erase hr hmem hp
  refine hother.congr (fun p hp => ?_) fun r' hr' => ?_
  · rw [Pages.putRun, bitMap_foldl_put, if_neg (hnot p hp)]
    exact (hother.taken p hp).2.2
  · have hmem := hnot _ (hother.start_mem hr')
    have hne : r'.start ≠ r.start := by
      intro heq
      rw [heq] at hmem
      exact hmem (Run.start_mem_pages (h.pos r hr))
    rw [Pages.putRun, count_foldl_put hmem]
    show 1 ≤ update pg.count r.start n r'.start
    rw [update_of_ne hne]
    exact hother.count r' hr'

end

end PageAlloc
