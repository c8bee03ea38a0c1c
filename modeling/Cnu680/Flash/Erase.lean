import Cnu680.Flash.Update

/-! # The Erase Loop

What the loop of `fuze_image` and of the `FL_ERASE_SECTOR` ioctl does on a
device whose table is that of its chip: `eraseSectors_within` whatever the
chip makes of the commands, as long as they are for sectors of the chip,
and `eraseSectors_good` on a chip that erases what it is told to, also
behind its last sector. -/

open Framework

namespace Cflash

/-- A device with the given chip that has just been opened. -/
def Fresh (c : Chip) (d : Device) : Prop :=
  ∃ d₀ flags alloc manu device, d₀.erased = [] ∧ Chip.ofIds manu device = some c ∧
    deviceOpen flags alloc manu device d₀ = (0, d)

/-- The table is that of the chip, and the next sector is `k`. -/
structure At (c : Chip) (k : Nat) (d : Device) : Prop where
  table : d.fid.flashSectorAddr = c.table
  cur : d.fid.uiCurSectNum.toNat = k

section
variable {c : Chip} {k : Nat} {d e : Device}

theorem At.of_kept (h : At c k d) (hk : Kept d e) : At c k e :=
  ⟨hk.table.trans h.table, by rw [hk.cur]; exact h.cur⟩

theorem Chip.toNat_first (c : Chip) : (UInt32.ofNat c.first).toNat = c.first := by
  cases c <;> rfl

theorem Chip.toNat_sectors (c : Chip) : (UInt32.ofNat c.sectors).toNat = c.sectors := by
  cases c <;> rfl

theorem Fresh.image (h : Fresh c d) :
    d.fid.uiWriteAddr = 0x20000 ∧ d.fid.flashMaxSectorNum.toNat = c.sectors := by
  obtain ⟨d₀, flags, alloc, manu, device, -, hchip, hopen⟩ := h
  obtain ⟨hfid, -⟩ := deviceOpen_ok hchip hopen
  rw [hfid]
  exact ⟨rfl, c.toNat_sectors⟩

theorem Fresh.at (h : Fresh c d) : At c c.first d := by
  obtain ⟨d₀, flags, alloc, manu, device, -, hchip, hopen⟩ := h
  obtain ⟨hfid, -⟩ := deviceOpen_ok hchip hopen
  refine ⟨?_, ?_⟩
  · rw [hfid]
    rfl
  · rw [hfid]
    exact c.toNat_first

theorem Fresh.erased (h : Fresh c d) : d.erased = [] := by
  obtain ⟨d₀, flags, alloc, manu, device, herased, hchip, hopen⟩ := h
  exact (deviceOpen_ok hchip hopen).2.trans herased

/-- A device with a clear AM29LV160 that was just opened for writing. -/
def opened160 : Device :=
  (deviceOpen 2 0x1000 0x01 0x2249 (Device.loaded (fun _ => 0) (fun _ => 0xFF) 0 true)).2

theorem fresh_opened160 : Fresh .am29lv160bb opened160 := by
  refine ⟨Device.loaded (fun _ => 0) (fun _ => 0xFF) 0 true, 2, 0x1000, 0x01, 0x2249, rfl, rfl, ?_⟩
  exact Prod.ext (by decide +kernel) rfl

/-! ### One sector -/

/-- The address of a table entry. -/
def entry (c : Chip) (k : Nat) : Nat := if k < c.sectors then sectorStart c.sizes k else 0

/-- The device after an erase command for sector `k`. -/
def Device.wipe (d : Device) (c : Chip) (answer : Option (Nat → UInt8)) (k : Nat) : Device :=
  { d with
    flash := refill c.sizes (entry c k) (answer.getD fun _ => 0xFF) d.flash
    erased := d.erased ++ [(k, entry c k)] }

theorem table_entry (c : Chip) {k : Nat} (hk : k < 100) :
    c.table[k]?.map UInt32.toNat = some (entry c k) := by
  have hstart : ∀ k < 72, k ≤ c.sectors → sectorStart c.sizes k ≤ 0x400000 := by
    cases c <;> decide +kernel
  rw [c.table_getElem? hk, entry]
  split_ifs with hlt
  · have hle := hstart k (by have := c.sectors_le; omega) (by omega)
    show some (sectorStart c.sizes k % 2 ^ 32) = _
    rw [Nat.mod_eq_of_lt (by omega)]
  · rfl

theorem flashEraseSector_at (h : At c k d) (answer : Option (Nat → UInt8)) :
    flashEraseSector c.sizes answer d.fid.uiCurSectNum d =
      if 100 ≤ k then .error ⟨.table, d⟩
      else if (d.wipe c answer k).flash (entry c k) = 0xFF then .ok (d.wipe c answer k)
      else .error ⟨.endless, d.wipe c answer k⟩ := by
  unfold flashEraseSector
  rw [h.table, h.cur]
  by_cases hk : k < 100
  · obtain ⟨a, ha, haddr⟩ := Option.map_eq_some_iff.mp (table_entry c hk)
    simp only [ha, haddr, if_neg (Nat.not_le.mpr hk)]
    rfl
  · simp [hk]

theorem sectorAt_entry_of_lt (hk : k < c.sectors) : sectorAt c.sizes (entry c k) = some k := by
  have hpos : ∀ s ∈ c.sizes, 0 < s := by
    cases c <;> decide
  rw [entry, if_pos hk]
  exact sectorAt_sectorStart hk (hpos _ (List.getElem_mem hk))

theorem exists_sectorAt_entry (c : Chip) (k : Nat) :
    ∃ j, sectorAt c.sizes (entry c k) = some j := by
  by_cases hk : k < c.sectors
  · exact ⟨k, sectorAt_entry_of_lt hk⟩
  · rw [entry, if_neg hk]
    exact ⟨0, by cases c <;> rfl⟩

theorem wipe_none_of_mem (d : Device) {j x : Nat} (hentry : sectorAt c.sizes (entry c k) = some j)
    (hx : sectorAt c.sizes x = some j) : (d.wipe c none k).flash x = 0xFF :=
  refill_of_mem hentry hx

theorem wipe_none_of_clear (d : Device) {x : Nat} (hx : d.flash x = 0xFF) :
    (d.wipe c none k).flash x = 0xFF := by
  show refill c.sizes (entry c k) (fun _ => 0xFF) d.flash x = 0xFF
  unfold refill
  split_ifs
  · rfl
  · exact hx

theorem flashEraseSector_good (h : At c k d) (hk : k < 100) :
    flashEraseSector c.sizes none d.fid.uiCurSectNum d = .ok (d.wipe c none k) := by
  obtain ⟨j, hj⟩ := exists_sectorAt_entry c k
  rw [flashEraseSector_at h, if_neg (Nat.not_le.mpr hk), if_pos (wipe_none_of_mem d hj hj)]

theorem At.next (h : At c k d) (hk : k < 100) (answer : Option (Nat → UInt8)) :
    At c (k + 1) (d.wipe c answer k).nextSector := by
  refine ⟨h.table, ?_⟩
  show (d.fid.uiCurSectNum + 1).toNat = k + 1
  have hcur : d.fid.uiCurSectNum.toNat = k := h.cur
  rw [UInt32.toNat_add, hcur]
  exact Nat.mod_eq_of_lt (by show k + 1 < 2 ^ 32; omega)

/-! ### The loop -/

/-- The loop within the sectors of the chip: it erases them one after the
other, and if it stops it has waited for one in vain. -/
theorem eraseSectors_within (answer : Nat → Option (Nat → UInt8)) (n i : Nat) (h : At c k d)
    (hn : k + n ≤ c.sectors) :
    NoTable (eraseSectors c.sizes answer n i d) ∧
      (∀ e ∈ (endOf id (eraseSectors c.sizes answer n i d)).erased,
        e ∈ d.erased ∨ ∃ j, k ≤ j ∧ j < k + n ∧ e = (j, entry c j)) ∧
      ∀ d', eraseSectors c.sizes answer n i d = .ok d' → At c (k + n) d' := by
  induction n generalizing k i d with
  | zero =>
    refine ⟨noTable_ok d, fun e he => .inl he, fun d' hd' => ?_⟩
    obtain rfl : d = d' := Except.ok.inj hd'
    exact h
  | succ n ih =>
    have hk : k < 100 := by have := c.sectors_le; omega
    have hfirst : flashEraseSector c.sizes (answer i) d.fid.uiCurSectNum d =
        if (d.wipe c (answer i) k).flash (entry c k) = 0xFF then .ok (d.wipe c (answer i) k)
        else .error ⟨.endless, d.wipe c (answer i) k⟩ := by
      rw [flashEraseSector_at h, if_neg (Nat.not_le.mpr hk)]
    unfold eraseSectors
    rw [hfirst]
    have hmem : ∀ e ∈ (d.wipe c (answer i) k).erased,
        e ∈ d.erased ∨ ∃ j, k ≤ j ∧ j < k + (n + 1) ∧ e = (j, entry c j) := by
      intro e he
      rcases List.mem_append.mp he with hold | hnew
      · exact .inl hold
      · exact .inr ⟨k, Nat.le_refl k, by omega, List.mem_singleton.mp hnew⟩
    split_ifs
    · obtain ⟨htable, hlog, hat⟩ := ih (i + 1) (h.next hk (answer i)) (by omega)
      refine ⟨htable, fun e he => ?_, fun d' hd' => ?_⟩
      · rcases hlog e he with hold | ⟨j, hle, hlt, rfl⟩
        · exact hmem e hold
        · exact .inr ⟨j, by omega, by omega, rfl⟩
      · have := hat d' hd'
        rwa [Nat.add_assoc, Nat.add_comm 1 n] at this
    · exact ⟨noTable_error (by decide) _, hmem, fun d' hd' => by cases hd'⟩

/-- What the loop has done after `n` sectors from sector `k` on, on a chip that
erases what it is told to. -/
structure Wiped (c : Chip) (k n : Nat) (d d' : Device) : Prop where
  pos : At c (k + n) d'
  frame : d' = { d with
    flash := d'.flash
    erased := d'.erased
    fid := { d.fid with uiCurSectNum := d'.fid.uiCurSectNum } }
  grows : ∀ e ∈ d.erased, e ∈ d'.erased
  clear : ∀ x, d.flash x = 0xFF → d'.flash x = 0xFF
  logged : ∀ j, k ≤ j → j < k + n → (j, entry c j) ∈ d'.erased
  wiped : ∀ j x, k ≤ j → j < k + n → j < c.sectors → sectorAt c.sizes x = some j →
    d'.flash x = 0xFF

theorem Wiped.cons {n : Nat} {d' : Device}
    (h : Wiped c (k + 1) n (d.wipe c none k).nextSector d') : Wiped c k (n + 1) d d' where
  pos := by
    have := h.pos
    rwa [Nat.add_assoc, Nat.add_comm 1 n] at this
  frame := by
    rw [h.frame]
    rfl
  grows e he := h.grows e (List.mem_append_left _ he)
  clear x hx := h.clear x (wipe_none_of_clear d hx)
  logged j hle hlt := by
    by_cases hj : j = k
    · rw [hj]
      exact h.grows _ (List.mem_append_right _ (List.mem_singleton.mpr rfl))
    · exact h.logged j (by omega) (by omega)
  wiped j x hle hlt hsect hx := by
    by_cases hj : j = k
    · subst hj
      exact h.clear x (wipe_none_of_mem d (sectorAt_entry_of_lt hsect) hx)
    · exact h.wiped j x (by omega) (by omega) hsect hx

theorem eraseSectors_good (n i : Nat) (h : At c k d) (hn : k + n ≤ 100) :
    ∃ d', eraseSectors c.sizes (fun _ => none) n i d = .ok d' ∧ Wiped c k n d d' := by
  induction n generalizing k i d with
  | zero =>
    exact ⟨d, rfl, h, rfl, fun e he => he, fun x hx => hx, fun j hle hlt => by omega,
      fun j x hle hlt => by omega⟩
  | succ n ih =>
    have hk : k < 100 := by omega
    obtain ⟨d', hrun, hwiped⟩ := ih (i + 1) (h.next hk none) (by omega)
    refine ⟨d', ?_, hwiped.cons⟩
    unfold eraseSectors
    rw [flashEraseSector_good h hk]
    exact hrun

theorem eraseSectors_table (n i : Nat) (h : At c k d) (hk : k ≤ 100) (hn : 100 < k + n) :
    ¬ NoTable (eraseSectors c.sizes (fun _ => none) n i d) := by
  induction n generalizing k i d with
  | zero => omega
  | succ n ih =>
    unfold eraseSectors
    by_cases hlt : k < 100
    · rw [flashEraseSector_good h hlt]
      exact ih (i + 1) (h.next hlt none) (by omega) (by omega)
    · rw [flashEraseSector_at h, if_pos (by omega)]
      intro hno
      exact hno ⟨.table, d⟩ rfl rfl

end

end Cflash
