import Cnu680.Env.Flash

/-! # Erasing a Range

`flash_sect_erase` looks in one loop for the sector that begins where the
range does and for the one that ends where the range does, and has
`flash_erase` erase what lies between them. Every sector but the last ends
where the next one begins, the last one with the bank. -/

open Framework

namespace Envm

/-! ## The search -/

/-- `r` is one of the first `n` numbers with `P`, or -1 if there is none. -/
def Scanned (P : Nat → Prop) (n : Nat) (r : Int) : Prop :=
  (r = -1 ∧ ∀ i < n, ¬ P i) ∨ ∃ i < n, P i ∧ r = i

theorem Scanned.succ {P : Nat → Prop} [DecidablePred P] {n : Nat} {r : Int} (h : Scanned P n r) :
    Scanned P (n + 1) (if P n then (n : Int) else r) := by
  split
  · next hn => exact .inr ⟨n, Nat.lt_succ_self n, hn, rfl⟩
  · next hn =>
    rcases h with ⟨hr, hnone⟩ | ⟨i, hi, hP, hr⟩
    · refine .inl ⟨hr, fun i hi => ?_⟩
      rcases Nat.lt_succ_iff_lt_or_eq.mp hi with hlt | rfl
      · exact hnone i hlt
      · exact hn
    · exact .inr ⟨i, Nat.lt_succ_of_lt hi, hP, hr⟩

theorem Scanned.eq {P : Nat → Prop} {n i : Nat} {r : Int} (h : Scanned P n r) (hi : i < n)
    (hP : P i) (honly : ∀ k < n, P k → k = i) : r = i := by
  rcases h with ⟨-, hnone⟩ | ⟨k, hk, hPk, hr⟩
  · exact absurd hP (hnone i hi)
  · rw [hr, honly k hk hPk]

section
variable {info : FlashInfo} {first last : UInt32} {i j : Nat}

/-- The range meets the sector. -/
abbrev FlashInfo.Meets (info : FlashInfo) (first last : UInt32) (i : Nat) : Prop :=
  first ≤ info.behind i - 1 ∧ info.start i ≤ last

theorem matchSector_eq (s : Int × Int) (i : Nat) : matchSector info first last s i =
    (if info.Meets first last i ∧ first = info.start i then (i : Int) else s.1,
      if info.Meets first last i ∧ last = info.behind i - 1 then (i : Int) else s.2) := by
  by_cases hmeets : info.Meets first last i
  · rw [matchSector, if_neg]
    · simp only [FlashInfo.Meets, hmeets.1, hmeets.2, true_and]
    · exact not_or.mpr ⟨UInt32.not_lt.mpr hmeets.1, UInt32.not_lt.mpr hmeets.2⟩
  · rw [matchSector, if_pos]
    · rw [if_neg fun h => hmeets h.1, if_neg fun h => hmeets h.1]
    · rwa [Classical.not_and_iff_not_or_not, UInt32.not_le, UInt32.not_le] at hmeets

theorem matchSector_found (info : FlashInfo) (first last : UInt32) (n : Nat) :
    Scanned (fun i => info.Meets first last i ∧ first = info.start i) n
        ((List.range n).foldl (matchSector info first last) (-1, -1)).1 ∧
      Scanned (fun i => info.Meets first last i ∧ last = info.behind i - 1) n
        ((List.range n).foldl (matchSector info first last) (-1, -1)).2 := by
  induction n with
  | zero => exact ⟨.inl ⟨rfl, by simp⟩, .inl ⟨rfl, by simp⟩⟩
  | succ n ih =>
    rw [List.range_succ, List.foldl_append, List.foldl_cons, List.foldl_nil, matchSector_eq]
    exact ⟨ih.1.succ, ih.2.succ⟩

/-! ## The layout -/

/-- The sectors begin at increasing addresses. -/
def FlashInfo.Ascending (info : FlashInfo) : Prop :=
  ∀ i j, i < j → j < info.sectors.length → info.start i < info.start j

theorem FlashInfo.Ascending.behind (h : info.Ascending) {i : Nat}
    (hi : i + 1 < info.sectors.length) :
    (info.behind i - 1).toNat + 1 = (info.start (i + 1)).toNat := by
  have hlt := UInt32.lt_iff_toNat_lt.mp (h i (i + 1) (Nat.lt_succ_self i) hi)
  have hone : (1 : UInt32) ≤ info.start (i + 1) := UInt32.le_iff_toNat_le.mpr (by simp; omega)
  rw [FlashInfo.behind, if_neg (by omega), UInt32.toNat_sub_of_le _ _ hone]
  simp
  omega

theorem FlashInfo.Ascending.behind_lt (h : info.Ascending) (hij : i < j)
    (hj : j < info.sectors.length) : (info.behind i - 1).toNat < (info.start j).toNat := by
  have hbehind := h.behind (i := i) (by omega)
  rcases Nat.lt_or_eq_of_le (Nat.succ_le_of_lt hij) with hlt | heq
  · have := UInt32.lt_iff_toNat_lt.mp (h (i + 1) j hlt hj)
    omega
  · rw [← heq]
    exact hbehind ▸ Nat.lt_succ_self _

theorem FlashInfo.Ascending.search (h : info.Ascending) (hij : i ≤ j) (hj : j < info.sectors.length)
    (hend : info.start j ≤ info.behind j - 1) :
    (List.range info.sectors.length).foldl
      (matchSector info (info.start i) (info.behind j - 1)) (-1, -1) = ((i : Int), (j : Int)) := by
  have hfirst : info.start i ≤ info.behind i - 1 := by
    rcases Nat.lt_or_eq_of_le hij with hlt | rfl
    · have hbehind := h.behind (i := i) (by omega)
      have hnext := h i (i + 1) (Nat.lt_succ_self i) (by omega)
      rw [UInt32.lt_iff_toNat_lt] at hnext
      rw [UInt32.le_iff_toNat_le]
      omega
    · exact hend
  have hle : info.start i ≤ info.behind j - 1 := by
    rcases Nat.lt_or_eq_of_le hij with hlt | rfl
    · exact UInt32.le_trans (UInt32.le_of_lt (h i j hlt hj)) hend
    · exact hend
  obtain ⟨hstart, hlast⟩ :=
    matchSector_found info (info.start i) (info.behind j - 1) info.sectors.length
  refine Prod.ext (hstart.eq (by omega) ⟨⟨hfirst, hle⟩, rfl⟩ ?_) (hlast.eq hj ⟨⟨hle, hend⟩, rfl⟩ ?_)
  · rintro k hk ⟨-, heq⟩
    rcases Nat.lt_trichotomy k i with hlt | rfl | hlt
    · exact absurd (heq ▸ h k i hlt (by omega)) (UInt32.lt_irrefl _)
    · rfl
    · exact absurd (heq ▸ h i k hlt hk) (UInt32.lt_irrefl _)
  · rintro k hk ⟨⟨-, hmeets⟩, heq⟩
    rw [UInt32.le_iff_toNat_le] at hend hmeets
    rcases Nat.lt_trichotomy k j with hlt | rfl | hlt
    · have := h.behind_lt hlt hj
      rw [← heq] at this
      omega
    · rfl
    · have := h.behind_lt hlt hk
      omega

/-- The sectors from `i` to `j` are the addresses from the start of the one to
the end of the other. -/
theorem FlashInfo.Ascending.union (h : info.Ascending) (hij : i ≤ j) (hj : j < info.sectors.length)
    (hend : info.start j ≤ info.behind j - 1) (x : UInt32) :
    info.start i ≤ x ∧ x ≤ info.behind j - 1 ↔
      ∃ s, i ≤ s ∧ s ≤ j ∧ info.start s ≤ x ∧ x ≤ info.behind s - 1 := by
  obtain ⟨n, rfl⟩ := Nat.exists_eq_add_of_le hij
  induction n with
  | zero =>
    constructor
    · intro hx
      exact ⟨i, Nat.le_refl i, Nat.le_refl i, hx⟩
    · rintro ⟨s, hge, hle, hx⟩
      rw [Nat.le_antisymm hle hge] at hx
      exact hx
  | succ n ih =>
    have hbehind := h.behind (i := i + n) hj
    have hfirst := h i (i + n + 1) (by omega) hj
    have hstart := h (i + n) (i + n + 1) (by omega) hj
    rw [← Nat.add_assoc] at hend ⊢
    simp only [UInt32.le_iff_toNat_le, UInt32.lt_iff_toNat_lt] at *
    have ih := ih (by omega) (by omega) (by omega)
    constructor
    · intro hx
      by_cases hlast : (info.start (i + n + 1)).toNat ≤ x.toNat
      · exact ⟨i + n + 1, by omega, Nat.le_refl _, hlast, hx.2⟩
      · obtain ⟨s, hs⟩ := ih.mp ⟨hx.1, by omega⟩
        exact ⟨s, hs.1, by omega, hs.2.2⟩
    · rintro ⟨s, hge, hle, hx⟩
      rcases Nat.lt_or_eq_of_le hle with hlt | rfl
      · have := ih.mpr ⟨s, hge, by omega, hx⟩
        omega
      · omega

-- the layout of the board is one of these
theorem flashInit_ascending : flashInit.Ascending := by
  have h : ∀ j < flashInit.sectors.length, ∀ i < j, flashInit.start i < flashInit.start j := by
    decide +kernel
  intro i j hij hj
  exact h j hj i hij

theorem flashInit_protect : ∀ i < flashInit.sectors.length, flashInit.protect i = 0 := by
  decide +kernel

/-! ## Erasing -/

variable {ans : Answers}

theorem ne_unknown (hid : info.flashId &&& FLASH_VENDMASK = SAMSUNG_MANUFACT &&& FLASH_VENDMASK) :
    info.flashId ≠ FLASH_UNKNOWN := by
  intro he
  rw [he] at hid
  exact absurd hid (by decide)

theorem eraseLoop_ok (hans : ∀ k, ans.erase k = true) (n sect : Nat) (chip : Chip) :
    eraseLoop info ans n sect chip =
      .ok ((List.range' sect n).foldl (fun chip s => chip.erase info s) chip) := by
  induction n generalizing sect chip with
  | zero => rfl
  | succ n ih =>
    have hsector : eraseSector info ans chip sect = .ok (chip.erase info sect) := if_pos (hans _)
    rw [eraseLoop, hsector, ok_bind, ih]
    rfl

theorem flashErase_ok (hans : ∀ k, ans.erase k = true)
    (hid : info.flashId &&& FLASH_VENDMASK = SAMSUNG_MANUFACT &&& FLASH_VENDMASK)
    (hprot : ∀ i < info.sectors.length, info.protect i = 0) (hij : i ≤ j)
    (hj : j < info.sectors.length) (chip : Chip) :
    flashErase info ans chip i j =
      .ok (ERR_OK, (List.range' i (j + 1 - i)).foldl (fun chip s => chip.erase info s) chip) := by
  have hn : ((j : Int) - i + 1).toNat = j + 1 - i := by omega
  rw [flashErase, if_neg (ne_unknown hid), if_neg (by omega), if_neg (not_not.mpr hid), hn, if_neg,
    Int.toNat_natCast, eraseLoop_ok hans, ok_bind]
  simp only [List.any_eq_true, List.mem_range, decide_eq_true_eq, not_exists, not_and, not_not]
  intro k hk
  exact hprot _ (by omega)

theorem flashSectErase_sectors (hans : ∀ k, ans.erase k = true) (hinc : info.Ascending)
    (hid : info.flashId &&& FLASH_VENDMASK = SAMSUNG_MANUFACT &&& FLASH_VENDMASK)
    (hprot : ∀ i < info.sectors.length, info.protect i = 0) (hij : i ≤ j)
    (hj : j < info.sectors.length) (hend : info.start j ≤ info.behind j - 1) (chip : Chip) :
    flashSectErase info ans chip (info.start i) (info.behind j - 1) = .ok ((j : Int) - i + 1,
      (List.range' i (j + 1 - i)).foldl (fun chip s => chip.erase info s) chip) := by
  rw [flashSectErase, if_neg (ne_unknown hid), hinc.search hij hj hend,
    if_pos (by simpa using hij), flashErase_ok hans hid hprot hij hj]
  rfl

/-- **Erasing a range.** If the range begins with a sector and ends with one
that is not empty, exactly the sectors that make it up are erased; any other
range is not aligned, and nothing is erased. -/
theorem flashSectErase_range (hans : ∀ k, ans.erase k = true) (hinc : info.Ascending)
    (hid : info.flashId &&& FLASH_VENDMASK = SAMSUNG_MANUFACT &&& FLASH_VENDMASK)
    (hprot : ∀ i < info.sectors.length, info.protect i = 0) (hle : first ≤ last) (chip : Chip) :
    (∀ i < info.sectors.length, ∀ j < info.sectors.length, first = info.start i →
      last = info.behind j - 1 → info.start j ≤ last →
        flashSectErase info ans chip first last = .ok ((j : Int) - i + 1,
          (List.range' i (j + 1 - i)).foldl (fun chip s => chip.erase info s) chip) ∧
        ∀ x, first ≤ x ∧ x ≤ last ↔
          ∃ s, i ≤ s ∧ s ≤ j ∧ info.start s ≤ x ∧ x ≤ info.behind s - 1) ∧
    ((¬ ∃ i < info.sectors.length, ∃ j < info.sectors.length, first = info.start i ∧
      last = info.behind j - 1 ∧ info.start j ≤ last) →
        flashSectErase info ans chip first last = .ok (ERR_ALIGN, chip)) := by
  constructor
  · rintro i hi j hj rfl rfl hne
    -- a sector that ends before another begins is not the last of the range
    have hij : i ≤ j := by
      by_contra hlt
      have := hinc.behind_lt (Nat.lt_of_not_le hlt) hi
      rw [UInt32.le_iff_toNat_le] at hle
      omega
    exact ⟨flashSectErase_sectors hans hinc hid hprot hij hj hne chip, hinc.union hij hj hne⟩
  · intro hnot
    obtain ⟨hfirst, hlast⟩ := matchSector_found info first last info.sectors.length
    rw [flashSectErase, if_neg (ne_unknown hid)]
    refine if_neg ?_
    rintro ⟨h0, h1⟩
    rcases hfirst with ⟨hr, -⟩ | ⟨i, hi, hmeets, hr⟩
    · omega
    · rcases hlast with ⟨hr', -⟩ | ⟨j, hj, hmeets', hr'⟩
      · omega
      · exact hnot ⟨i, hi, j, hj, hmeets.2, hmeets'.2, hmeets'.1.2⟩

theorem flashSectErase_range_last_two :
    flashSectErase flashInit ⟨fun _ => none, fun _ => true⟩ ⟨fun _ => 0, 0, 0⟩
        0x803E0000 0x803FFFFF = .ok (2, ((Chip.mk (fun _ => 0) 0 0).erase flashInit 69).erase
          flashInit 70) :=
  ((flashSectErase_range (fun _ => rfl) flashInit_ascending (by decide) flashInit_protect
    (by decide) ⟨fun _ => 0, 0, 0⟩).1 69 (by decide) 70 (by decide) (by decide +kernel)
    (by decide +kernel) (by decide +kernel)).1

end

end Envm
