import Mathlib.Order.Bounds.Basic
import Cnu680.Mm.RegionSearch

/-! # The page allocator: what a scan misses

`find_next_zero_bit` passes over set bits only (`findNextZeroBit_passed`).
From that:

* The scan for more than two pages is first fit (`large_scan_first_fit`):
  from a run that is broken it goes on after the page that breaks it, and
  every run that starts before that page has the page in it.
* The scan for one or two pages looks at one run for each window of eight
  pages, the one that starts with the first free page of the window
  (`small_scan_isSome_iff`).
-/

open Framework

namespace PageAlloc

/-! ## The bits of a byte -/

theorem testBit_bitsAt (map : ℕ → Bool) (i n j : ℕ) :
    (bitsAt map i n).testBit j = (decide (j < n) && map (i + j)) := by
  induction n generalizing i j with
  | zero => simp [bitsAt]
  | succ n ih =>
    unfold bitsAt
    cases j with
    | zero =>
      cases map i <;> simp [Nat.testBit_zero]
    | succ j =>
      have hhalf : ((map i).toNat + 2 * bitsAt map (i + 1) n) / 2 = bitsAt map (i + 1) n := by
        have hle := Bool.toNat_le (map i)
        omega
      rw [Nat.testBit_succ, hhalf, ih]
      congr 2
      · simp
      · omega

theorem testBit_ldrb (map : ℕ → Bool) (byte j : ℕ) :
    (ldrb map byte ^^^ 0xff).testBit j = (decide (j < 8) && !map (8 * byte + j)) := by
  have hff : (0xff : ℕ).testBit j = decide (j < 8) := Nat.testBit_two_pow_sub_one 8 j
  rw [Nat.testBit_xor, ldrb, testBit_bitsAt, hff]
  cases decide (j < 8) <;> cases map (8 * byte + j) <;> rfl

theorem foundBit_add (r3 r2 : ℕ) : foundBit r3 r2 = r2 + foundBit r3 0 := by
  unfold foundBit
  dsimp only
  split_ifs <;> omega

theorem foundBit_spec {r3 : ℕ} (hne : r3 ≠ 0) (hlt : r3 < 256) (r2 : ℕ) :
    ∃ j < 8, foundBit r3 r2 = r2 + j ∧ r3.testBit j = true ∧ ∀ i < j, r3.testBit i = false := by
  have hall : ∀ r3 < 256, r3 ≠ 0 → foundBit r3 0 < 8 ∧ r3.testBit (foundBit r3 0) = true ∧
      ∀ i < foundBit r3 0, r3.testBit i = false := by
    decide +kernel
  obtain ⟨hj, hset, hlow⟩ := hall r3 hlt hne
  exact ⟨foundBit r3 0, hj, foundBit_add r3 r2, hset, hlow⟩

variable {map : ℕ → Bool} {req : Request} {start stop : ℕ} {r : Option ℕ}

theorem ldrb_lt (map : ℕ → Bool) (byte : ℕ) : ldrb map byte ^^^ 0xff < 256 := by
  apply Nat.lt_pow_two_of_testBit (n := 8)
  intro j hj
  rw [testBit_ldrb, decide_eq_false (Nat.not_lt.mpr hj), Bool.false_and]

theorem used_of_ldrb {byte : ℕ} (h : ldrb map byte ^^^ 0xff = 0) {i : ℕ} (hle : 8 * byte ≤ i)
    (hlt : i < 8 * byte + 8) : map i = true := by
  have hbit := testBit_ldrb map byte (i - 8 * byte)
  rw [h, Nat.zero_testBit, decide_eq_true (by omega), Bool.true_and,
    Nat.add_sub_cancel' hle] at hbit
  simpa using hbit.symm

theorem foundBit_ldrb {byte : ℕ} (h : ldrb map byte ^^^ 0xff ≠ 0) :
    ∃ j < 8, foundBit (ldrb map byte ^^^ 0xff) (8 * byte) = 8 * byte + j ∧
      map (8 * byte + j) = false ∧ ∀ i < j, map (8 * byte + i) = true := by
  obtain ⟨j, hj, hfound, hset, hlow⟩ := foundBit_spec h (ldrb_lt map byte) (8 * byte)
  refine ⟨j, hj, hfound, ?_, fun i hi => ?_⟩
  · rw [testBit_ldrb, decide_eq_true hj, Bool.true_and] at hset
    simpa using hset
  · have hclear := hlow i hi
    rw [testBit_ldrb, decide_eq_true (by omega), Bool.true_and] at hclear
    simpa using hclear

theorem findByte_passed {maxbit k byte : ℕ} (hk : maxbit < 8 * byte + 8 * k) {i : ℕ}
    (hle : 8 * byte ≤ i) (hlt : i < findByte map maxbit k (8 * byte)) (hmax : i < maxbit) :
    map i = true := by
  induction k generalizing byte with
  | zero => omega
  | succ k ih =>
    have hshift : (8 * byte) >>> 3 = byte := by
      rw [Nat.shiftRight_eq_div_pow]
      omega
    unfold findByte at hlt
    dsimp only at hlt
    rw [hshift] at hlt
    by_cases hbyte : ldrb map byte ^^^ 0xff ≠ 0
    · rw [if_pos hbyte] at hlt
      obtain ⟨j, -, hfound, -, hused⟩ := foundBit_ldrb hbyte
      have hused' := hused (i - 8 * byte) (by omega)
      rwa [Nat.add_sub_cancel' hle] at hused'
    · rw [if_neg hbyte] at hlt
      by_cases hwithin : i < 8 * byte + 8
      · exact used_of_ldrb (not_not.mp hbyte) hle hwithin
      · -- the page lies in a later byte
        rw [if_pos (by omega)] at hlt
        have hnext : 8 * (byte + 1) ≤ i := by omega
        exact ih (by omega) hnext hlt

theorem or_seven (offset : ℕ) : (offset ||| 7) + 1 = 8 * (offset / 8 + 1) := by
  have hdiv : (offset ||| 7) / 8 = offset / 8 := by
    have h := Nat.or_div_two_pow (a := offset) (b := 7) (n := 3)
    simpa using h
  have hmod : (offset ||| 7) % 8 = 7 := by
    have hall : ∀ x < 8, x ||| 7 = 7 := by decide
    exact (Nat.or_mod_two_pow (n := 3)).trans (hall (offset % 8) (Nat.mod_lt _ (by decide)))
  omega

theorem rest_of_byte (map : ℕ → Bool) {offset i : ℕ} (hle : offset ≤ i)
    (hlt : i < 8 * (offset / 8) + 8) :
    ((ldrb map (offset / 8) ^^^ 0xff) >>> (offset % 8)).testBit (i - offset) = !map i := by
  rw [Nat.testBit_shiftRight, testBit_ldrb, decide_eq_true (by omega), Bool.true_and]
  congr 2
  omega

/-- **`find_next_zero_bit` passes over used pages only.** -/
theorem findNextZeroBit_passed {maxbit offset i : ℕ} (hle : offset ≤ i)
    (hlt : i < findNextZeroBit map maxbit offset) (hmax : i < maxbit) : map i = true := by
  have hand : offset &&& 7 = offset % 8 := Nat.and_two_pow_sub_one_eq_mod offset 3
  unfold findNextZeroBit at hlt
  dsimp only at hlt
  by_cases hnew : offset &&& 7 = 0
  · rw [if_pos hnew] at hlt
    obtain ⟨byte, rfl⟩ : 8 ∣ offset := Nat.dvd_of_mod_eq_zero (hand ▸ hnew)
    exact findByte_passed (by omega) hle hlt hmax
  · -- the rest of the byte first, then the bytes after it
    have hbyte : offset >>> 3 = offset / 8 := Nat.shiftRight_eq_div_pow offset 3
    rw [if_neg hnew, hand, hbyte, or_seven] at hlt
    by_cases hfound : (ldrb map (offset / 8) ^^^ 0xff) >>> (offset % 8) ≠ 0
    · rw [if_pos hfound] at hlt
      have hsmall : (ldrb map (offset / 8) ^^^ 0xff) >>> (offset % 8) < 256 :=
        (Nat.shiftRight_le _ _).trans_lt (ldrb_lt map _)
      obtain ⟨j, -, hj, hset, hlow⟩ := foundBit_spec hfound hsmall offset
      have hwithin : offset % 8 + j < 8 := by
        rw [Nat.testBit_shiftRight, testBit_ldrb, Bool.and_eq_true, decide_eq_true_iff] at hset
        exact hset.1
      have hclear := hlow (i - offset) (by omega)
      rw [rest_of_byte map hle (by omega)] at hclear
      simpa using hclear
    · rw [if_neg hfound] at hlt
      by_cases hwithin : i < 8 * (offset / 8) + 8
      · have hbit := rest_of_byte map hle hwithin
        rw [not_not.mp hfound, Nat.zero_testBit] at hbit
        simpa using hbit.symm
      · exact findByte_passed (by omega) (by omega) hlt hmax

/-! ## First fit -/

theorem freeRun_le (map : ℕ → Bool) (p k : ℕ) : freeRun map p k ≤ k := by
  induction k generalizing p with
  | zero => exact Nat.le_refl 0
  | succ k ih =>
    unfold freeRun
    split_ifs
    · exact Nat.zero_le _
    · exact Nat.succ_le_succ (ih (p + 1))

theorem used_after_freeRun {p k : ℕ} (h : freeRun map p k < k) :
    map (p + freeRun map p k) = true := by
  induction k generalizing p with
  | zero => exact absurd h (Nat.not_lt_zero _)
  | succ k ih =>
    unfold freeRun at h ⊢
    split_ifs at h ⊢ with hp
    · exact hp
    · rw [show p + (freeRun map (p + 1) k + 1) = p + 1 + freeRun map (p + 1) k by omega]
      exact ih (by omega)

theorem FitsAt.of_start {start' ff : ℕ} (h : FitsAt map req start stop ff) (hle : start' ≤ ff) :
    FitsAt map req start' stop ff :=
  ⟨hle, h.le_stop, h.aligned, h.clear⟩

theorem freeRun_of_clear {p k : ℕ} (h : ∀ i, p ≤ i → i < p + k → map i = false) :
    freeRun map p k = k := by
  by_contra hne
  have hle := freeRun_le map p k
  have hused := used_after_freeRun (lt_of_le_of_ne hle hne)
  rw [h _ (by omega) (by omega)] at hused
  cases hused

theorem FitsAt.tryPage {ff : ℕ} (h : FitsAt map req start stop ff) :
    tryPage map req ff = req.numAdjpages := by
  unfold PageAlloc.tryPage
  rw [h.aligned]
  exact freeRun_of_clear h.clear

/-- After a page has been tried and does not do, nothing fits before the next
page that is tried. -/
theorem not_fitsAt_of_tryPage {ff i : ℕ} (h : ¬ req.numAdjpages ≤ tryPage map req ff)
    (hle : ff ≤ i) (hlt : i < findNextZeroBit map stop (ff + tryPage map req ff + 1)) :
    ¬ FitsAt map req start stop i := by
  intro hfit
  have hpos := req.num_pos
  have hstop := hfit.le_stop
  by_cases hpast : ff + PageAlloc.tryPage map req ff + 1 ≤ i
  · have hused := findNextZeroBit_passed hpast hlt (by omega)
    rw [hfit.first_clear] at hused
    cases hused
  · by_cases hsame : i = ff
    · subst hsame
      rw [hfit.tryPage] at h
      exact h (Nat.le_refl _)
    · -- the run from `i` has the page that breaks the run from `ff`
      unfold PageAlloc.tryPage at h hpast
      split_ifs at h hpast with hmis
      · omega
      · have hused := used_after_freeRun (Nat.lt_of_not_le h)
        rw [hfit.clear _ (by omega) (by omega)] at hused
        cases hused

theorem largeScan_least {k ff₀ : ℕ} (h : largeScan map req stop k ff₀ = .ok r)
    (hbefore : ∀ i < ff₀, ¬ FitsAt map req start stop i) :
    (∀ ff, r = some ff → ∀ i < ff, ¬ FitsAt map req start stop i) ∧
      (r = none → ∀ i, ¬ FitsAt map req start stop i) := by
  induction k generalizing ff₀ with
  | zero => cases h
  | succ k ih =>
    unfold largeScan at h
    dsimp only at h
    by_cases hstop : ff₀ + req.numAdjpages ≤ stop
    · rw [if_pos hstop] at h
      by_cases htry : req.numAdjpages ≤ PageAlloc.tryPage map req ff₀
      · rw [if_pos htry] at h
        cases h
        constructor
        · intro ff hff
          cases hff
          exact hbefore
        · intro hnone
          cases hnone
      · rw [if_neg htry] at h
        refine ih h fun i hi => ?_
        by_cases hlt : i < ff₀
        · exact hbefore i hlt
        · exact not_fitsAt_of_tryPage htry (Nat.le_of_not_lt hlt) hi
    · rw [if_neg hstop] at h
      cases h
      constructor
      · intro ff hff
        cases hff
      · intro _ i hfit
        have hle := hfit.le_stop
        exact hbefore i (by omega) hfit

/-- **What the scan for more than two pages finds**: the lowest run that
fits. -/
theorem large_scan_spec (hlarge : 2 < req.numAdjpages) (h : scan map req start stop = .ok r) :
    (∀ ff, r = some ff → IsLeast {i | FitsAt map req start stop i} ff) ∧
      (r = none → ∀ i, ¬ FitsAt map req start stop i) := by
  unfold scan at h
  rw [if_neg (Nat.not_le.mpr hlarge)] at h
  -- nothing fits before the first page that is tried
  have hbefore : ∀ i < findNextZeroBit map stop start, ¬ FitsAt map req start stop i := by
    intro i hi hfit
    have hpos := req.num_pos
    have hle := hfit.le_stop
    have hused := findNextZeroBit_passed hfit.start_le hi (by omega)
    rw [hfit.first_clear] at hused
    cases hused
  obtain ⟨hleast, hnone⟩ := largeScan_least h hbefore
  refine ⟨fun ff hff => ⟨?_, fun i hi => ?_⟩, hnone⟩
  · rw [hff] at h
    exact largeScan_some (findNextZeroBit_cases map stop start) h
  · by_contra hlt
    exact hleast ff hff i (Nat.lt_of_not_le hlt) hi

/-- The runs that a request may be given between two pages: free, and aligned. -/
def candidates (map : ℕ → Bool) (req : Request) (start stop : ℕ) : Set ℕ :=
  {i | start ≤ i ∧ i + req.numAdjpages ≤ stop ∧ PAGE_SIZE <<< req.alignOrder ∣ pageAddress i ∧
    ∀ j, i ≤ j → j < i + req.numAdjpages → map j = false}

theorem fitsAt_iff {L : Layout} {i : ℕ} (hstop : stop ≤ L.bitMapSize) :
    FitsAt map req start stop i ↔ i ∈ candidates map req start stop := by
  have hpos := req.num_pos
  constructor
  · intro h
    have hle := h.le_stop
    have haddr := L.pageAddress_lt (p := i) (by omega)
    exact ⟨h.start_le, h.le_stop, (not_misaligned_iff haddr).mp h.aligned, h.clear⟩
  · rintro ⟨hstart, hle, hdvd, hclear⟩
    have haddr := L.pageAddress_lt (p := i) (by omega)
    exact ⟨hstart, hle, (not_misaligned_iff haddr).mpr hdvd, hclear⟩

/-! ## One or two pages -/

/-- `ff` is the first free page of the window of eight pages at `w`. -/
structure FirstFree (map : ℕ → Bool) (w ff : ℕ) : Prop where
  window : 8 ∣ w
  le : w ≤ ff
  lt : ff < w + 8
  clear : map ff = false
  used : ∀ i, w ≤ i → i < ff → map i = true

theorem findNextZeroBit_window (map : ℕ → Bool) {w : ℕ} (hw : 8 ∣ w) :
    FirstFree map w (findNextZeroBit map 0 w) ∨
      findNextZeroBit map 0 w = 1 ∧ ∀ i, w ≤ i → i < w + 8 → map i = true := by
  obtain ⟨byte, rfl⟩ := hw
  have hand : 8 * byte &&& 7 = 0 := by
    rw [show (7 : ℕ) = 2 ^ 3 - 1 from rfl, Nat.and_two_pow_sub_one_eq_mod]
    omega
  have hshift : (8 * byte) >>> 3 = byte := by
    rw [Nat.shiftRight_eq_div_pow]
    omega
  unfold findNextZeroBit findByte
  dsimp only
  rw [if_pos hand, hshift, if_neg (Nat.not_lt_zero (8 * byte + 8))]
  by_cases hbyte : ldrb map byte ^^^ 0xff ≠ 0
  · rw [if_pos hbyte]
    obtain ⟨j, hj, hfound, hclear, hused⟩ := foundBit_ldrb hbyte
    rw [hfound]
    refine .inl ⟨Nat.dvd_mul_right 8 byte, by omega, by omega, hclear, fun i hle hlt => ?_⟩
    have hused' := hused (i - 8 * byte) (by omega)
    rwa [Nat.add_sub_cancel' hle] at hused'
  · rw [if_neg hbyte]
    exact .inr ⟨rfl, fun i => used_of_ldrb (not_not.mp hbyte)⟩

theorem FirstFree.unique {w ff ff' : ℕ} (h : FirstFree map w ff) (h' : FirstFree map w ff') :
    ff = ff' := by
  rcases Nat.lt_trichotomy ff ff' with hlt | heq | hgt
  · have hused := h'.used ff h.le hlt
    rw [h.clear] at hused
    cases hused
  · exact heq
  · have hused := h.used ff' h'.le hgt
    rw [h'.clear] at hused
    cases hused

/-- What the scan for one or two pages sees: a run that starts with the first
free page of its window. -/
def SmallSees (map : ℕ → Bool) (req : Request) (start stop w : ℕ) : Prop :=
  start ≤ w ∧ ∃ ff, FirstFree map w ff ∧ FitsAt map req w stop ff

theorem smallSees_iff (req : Request) (stop : ℕ) (hone : map 1 = true) {w : ℕ} (hw : 8 ∣ w)
    (hstart : start ≤ w) :
    (findNextZeroBit map 0 w + req.numAdjpages ≤ stop ∧
        req.numAdjpages ≤ tryPage map req (findNextZeroBit map 0 w)) ↔
      SmallSees map req start stop w := by
  rcases findNextZeroBit_window map hw with hfree | ⟨hnone, hused⟩
  · constructor
    · rintro ⟨hstop, htry⟩
      exact ⟨hstart, _, hfree, fitsAt_of_tryPage hfree.le hstop htry⟩
    · rintro ⟨-, ff, hff, hfit⟩
      rw [hfree.unique hff]
      exact ⟨hfit.le_stop, hfit.tryPage.ge⟩
  · rw [hnone]
    constructor
    · rintro ⟨-, htry⟩
      exact absurd htry (not_le_tryPage hone)
    · rintro ⟨-, ff, hff, -⟩
      have hset := hused ff hff.le hff.lt
      rw [hff.clear] at hset
      cases hset

theorem smallScan_isSome_iff (hone : map 1 = true) (hpos : 0 < start) {k littleAlloc : ℕ}
    (hw : 8 ∣ littleAlloc) (hlt : littleAlloc < 0x100000000)
    (h : smallScan map req start stop k littleAlloc = .ok r) :
    r.isSome ↔ ∃ w ≤ littleAlloc, SmallSees map req start stop w := by
  induction k generalizing littleAlloc with
  | zero => cases h
  | succ k ih =>
    unfold smallScan at h
    dsimp only at h
    by_cases hstart : start ≤ littleAlloc
    · rw [if_pos hstart] at h
      have hiff := smallSees_iff req stop hone hw hstart
      by_cases hsees : SmallSees map req start stop littleAlloc
      · rw [if_pos (hiff.mpr hsees)] at h
        cases h
        exact iff_of_true rfl ⟨littleAlloc, Nat.le_refl _, hsees⟩
      · -- a window at or above `start` is not the first one, so nothing wraps
        have hback : (littleAlloc + 0x100000000 - 8) % 0x100000000 = littleAlloc - 8 := by omega
        rw [if_neg (mt hiff.mp hsees), hback] at h
        rw [ih (by omega) (by omega) h]
        constructor
        · rintro ⟨w, hle, hw'⟩
          exact ⟨w, by omega, hw'⟩
        · rintro ⟨w, hle, hw'⟩
          refine ⟨w, ?_, hw'⟩
          obtain ⟨-, ff, hff, -⟩ := id hw'
          have hne : w ≠ littleAlloc := fun heq => hsees (heq ▸ hw')
          have hwindow := hff.window
          omega
    · rw [if_neg hstart] at h
      cases h
      refine iff_of_false (by simp) ?_
      rintro ⟨w, hle, hsees⟩
      exact hstart (hsees.1.trans hle)

/-- **What the scan for one or two pages finds**: a run that starts with the
first free page of a window. -/
theorem small_scan_isSome_iff (hone : map 1 = true) (hpos : 0 < start) (hwindow : 8 ∣ stop)
    (hstop : 0 < stop) (hlt : stop < 0x100000000) (hsmall : req.numAdjpages ≤ 2)
    (h : scan map req start stop = .ok r) : r.isSome ↔ ∃ w, SmallSees map req start stop w := by
  unfold scan at h
  have hback : (stop + 0x100000000 - 8) % 0x100000000 = stop - 8 := by omega
  rw [if_pos hsmall, hback] at h
  rw [smallScan_isSome_iff hone hpos (by omega) (by omega) h]
  constructor
  · rintro ⟨w, -, hsees⟩
    exact ⟨w, hsees⟩
  · rintro ⟨w, hsees⟩
    refine ⟨w, ?_, hsees⟩
    obtain ⟨-, ff, hff, hfit⟩ := hsees
    have hle := hfit.le_stop
    have hnum := req.num_pos
    have hge := hff.le
    have hw := hff.window
    omega

/-- What the scan of a region sees: every run for more than two pages, and
otherwise a run that starts with the first free page of its window. -/
structure Sees (map : ℕ → Bool) (req : Request) (start stop i : ℕ) : Prop where
  fits : FitsAt map req start stop i
  window : req.numAdjpages ≤ 2 → ∃ w, start ≤ w ∧ FirstFree map w i

/-- **What the scan of a region finds.** -/
theorem scan_isSome_iff (hone : map 1 = true) (hpos : 0 < start) (hwindow : 8 ∣ stop)
    (hstop : 0 < stop) (hlt : stop < 0x100000000) (h : scan map req start stop = .ok r) :
    r.isSome ↔ ∃ i, Sees map req start stop i := by
  by_cases hsmall : req.numAdjpages ≤ 2
  · rw [small_scan_isSome_iff hone hpos hwindow hstop hlt hsmall h]
    constructor
    · rintro ⟨w, hw, ff, hff, hfit⟩
      exact ⟨ff, hfit.of_start (hw.trans hff.le), fun _ => ⟨w, hw, hff⟩⟩
    · rintro ⟨ff, hfit, hsees⟩
      obtain ⟨w, hw, hff⟩ := hsees hsmall
      exact ⟨w, hw, ff, hff, hfit.of_start hff.le⟩
  · obtain ⟨hsome, hnone⟩ := large_scan_spec (Nat.lt_of_not_le hsmall) h
    cases r with
    | none =>
      refine iff_of_false (by simp) ?_
      rintro ⟨i, hi⟩
      exact hnone rfl i hi.fits
    | some ff => exact iff_of_true rfl ⟨ff, (hsome ff rfl).1, fun hle => absurd hle hsmall⟩

/-- **Large allocations are first fit.** In every bit map, from every page to
the end of every region: the scan for more than two pages comes to an end,
with the lowest run that the request may be given, or with none if there is
no such run. -/
theorem large_scan_first_fit (L : Layout) (g : Region) (map : ℕ → Bool) (req : Request)
    (hlarge : 2 < req.numAdjpages) (start : ℕ) :
    ∃ r, scan map req start (L.endOfAllocBitMap g) = .ok r ∧
      (∀ ff, r = some ff ↔ IsLeast (candidates map req start (L.endOfAllocBitMap g)) ff) ∧
      (r = none ↔ ¬ (candidates map req start (L.endOfAllocBitMap g)).Nonempty) := by
  have hsize := (L.end_bounds g).2.2
  obtain ⟨r, hr⟩ : ∃ r, scan map req start (L.endOfAllocBitMap g) = .ok r := by
    unfold scan
    rw [if_neg (Nat.not_le.mpr hlarge)]
    exact largeScan_ends (by omega)
  have hset : {i | FitsAt map req start (L.endOfAllocBitMap g) i} =
      candidates map req start (L.endOfAllocBitMap g) := Set.ext fun i => fitsAt_iff hsize
  obtain ⟨hsome, hnone⟩ := large_scan_spec hlarge hr
  rw [hset] at hsome
  have hempty : r = none → ¬ (candidates map req start (L.endOfAllocBitMap g)).Nonempty := by
    rintro hr ⟨i, hi⟩
    exact hnone hr i ((fitsAt_iff hsize).mpr hi)
  refine ⟨r, hr, fun ff => ⟨hsome ff, fun hff => ?_⟩, hempty, fun hno => ?_⟩
  · cases hr' : r with
    | none => exact absurd ⟨ff, hff.1⟩ (hempty hr')
    | some ff' => rw [(hsome ff' hr').unique hff]
  · cases hr' : r with
    | none => rfl
    | some ff' => exact absurd ⟨ff', (hsome ff' hr').1⟩ hno

/-- Pages 100 and 102 on are free. -/
def brokenMap : ℕ → Bool := fun i => decide (i < 100 ∨ i = 101)

def threePages : Request := ⟨false, 3, 0, by decide⟩

theorem large_scan_first_fit_three :
    IsLeast (candidates brokenMap threePages 64 (Layout.s3c2510.endOfAllocBitMap 0)) 102 := by
  obtain ⟨r, hr, hsome, -⟩ :=
    large_scan_first_fit .s3c2510 0 brokenMap threePages (by decide) 64
  have heval : scan brokenMap threePages 64 (Layout.s3c2510.endOfAllocBitMap 0) =
      .ok (some 102) := by
    decide +kernel
  exact (hsome 102).mp (Except.ok.inj (hr.symm.trans heval))

end PageAlloc
