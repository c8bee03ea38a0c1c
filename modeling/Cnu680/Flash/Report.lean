import Cnu680.Flash.Image

/-! # Reporting a Failed Update

`fuze_image` keeps what `read` and `device_write` return in unsigned
variables, so that every error but 0 passes for a length. It gives up on
the lengths of its reads alone. `device_write` returns from a failed
comparison with interrupts off, and no path of `fuze_image` undoes its
write to the mask register: the store of 16 bits at its end does not
reach the bit that was set.

The main result is `update_reports_iff`. -/

open Framework

namespace Cflash

/-- The bytes were programmed and the chip holds them. -/
def Written.Stored (w : Written) : Prop :=
  ¬ w.before.fid.uiCurSectNum > w.before.fid.flashMaxSectorNum ∧
    ∀ j < w.data.length, w.after.flash (w.before.fid.uiWriteAddr.toNat + j) = w.data.getD j 0

/-- If `fuze_image` returns 1, every piece of the image was read completely and
is in the chip. -/
def Reported (image : List UInt8) (u : Updated) : Prop :=
  u.ret = 1 → u.written.map Written.data = chunks 1024 (image.drop 64) ∧ ∀ w ∈ u.written, w.Stored

/-- The lengths of the reads make `fuze_image` give up. -/
def GivesUp (size : UInt32) (reads : List Read) : Prop :=
  1 < shortReads reads ∨ size.toNat % 1024 = 0 ∧ shortReads reads ≠ 0

/-- The reads up to the end of the file returned the pieces of the image. -/
def Complete (image : List UInt8) (reads : List Read) : Prop :=
  (reads.takeWhile fun r => r.len ≠ 0).map Read.bytes = chunks 1024 (image.drop 64)

/-- What the chip holds after the erase commands for `n` sectors from `cur`
on. -/
def wipedFlash (sizes : List Nat) (answer : Nat → Option (Nat → UInt8))
    (table : Vector UInt32 100) :
    Nat → Nat → UInt32 → (Nat → UInt8) → Nat → UInt8
  | 0, _, _, m => m
  | n + 1, i, cur, m => wipedFlash sizes answer table n (i + 1) (cur + 1)
      (refill sizes (table[cur.toNat]?.getD 0).toNat ((answer i).getD fun _ => 0xFF) m)

/-- The device after them. -/
def Device.wiped (sizes : List Nat) (answer : Nat → Option (Nat → UInt8)) (n : Nat) (d : Device) :
    Device :=
  { d with
    flash := wipedFlash sizes answer d.fid.flashSectorAddr n 0 d.fid.uiCurSectNum d.flash
    fid := { d.fid with uiCurSectNum := d.fid.uiCurSectNum + UInt32.ofNat n } }

/-- The chip takes byte `i`: the next sector is not behind the last one, and
what the byte holds after its halfword is programmed, in the write for its
piece, is what was to be written there. -/
def TakesByte (program : Nat → Nat → Option (UInt8 × UInt8)) (d : Device) (l : List UInt8)
    (i : Nat) : Prop :=
  ¬ d.fid.uiCurSectNum > d.fid.flashMaxSectorNum ∧
    burnt (program (i / 1024) (i % 1024 / 2)) (i % 1024)
      (d.flash ((d.fid.uiWriteAddr + UInt32.ofNat (1024 * (i / 1024))).toNat + i % 1024))
      (l.getD i 0) = l.getD i 0

def Takes (program : Nat → Nat → Option (UInt8 × UInt8)) (d : Device) (l : List UInt8) : Prop :=
  ∀ i < l.length, TakesByte program d l i

/-! ## One write -/

section
variable {answer : Nat → Option (UInt8 × UInt8)} {buffer : Nat → UInt8} {length : UInt32}
  {d : Device} {w : Int × Device}

/-- **Interrupts**: `device_write` returns with the flags it was entered with,
unless they were on and a whole halfword does not hold what was to be
written. -/
theorem deviceWrite_irq_iff {left : Nat} (h : deviceWrite left answer buffer length d = .ok w) :
    w.2.irq = d.irq ↔
      d.irq = false ∨ left ≠ 0 ∨ d.fid.uiCurSectNum > d.fid.flashMaxSectorNum ∨
        ∀ j < 2 * (length.toNat / 2), burnt (answer (j / 2)) j
          (d.flash (d.fid.uiWriteAddr.toNat + j)) (buffer j) = buffer j := by
  rcases deviceWrite_cases h with ⟨hearly, -, hirq, -⟩ | ⟨hleft, hsect, hprog⟩
  · exact iff_of_true hirq (.inr (or_assoc.mp (.inl hearly)))
  · have hcompare : (∀ j < 2 * (length.toNat / 2),
          w.2.flash (d.fid.uiWriteAddr.toNat + j) = buffer j) ↔
        ∀ j < 2 * (length.toNat / 2), burnt (answer (j / 2)) j
          (d.flash (d.fid.uiWriteAddr.toNat + j)) (buffer j) = buffer j := by
      refine forall₂_congr fun j hj => ?_
      rw [hprog.flash j (by omega)]
    rw [← hcompare]
    by_cases hequal : ∀ j < 2 * (length.toNat / 2),
        w.2.flash (d.fid.uiWriteAddr.toNat + j) = buffer j
    · exact iff_of_true (hprog.equal hequal).2.1 (.inr (.inr (.inr hequal)))
    · rw [(hprog.differs hequal).2.1]
      refine ⟨fun hoff => .inl hoff.symm, ?_⟩
      rintro (hoff | hne | hgt | hall)
      · exact hoff.symm
      · exact absurd hleft hne
      · exact absurd hgt hsect
      · exact absurd hall hequal

end

/-! ## The loop -/

section
variable {program : Nat → Nat → Option (UInt8 × UInt8)} {coolSize : Bool} {rs : List Read}
  {k errorFlag : Nat} {d : Device} {e : Ended}

theorem fuzeLoop_written (heof : e.eof = true)
    (h : fuzeLoop program coolSize rs k errorFlag d = .ok e) :
    e.written.map Written.data = (rs.takeWhile fun r => r.len ≠ 0).map Read.bytes := by
  induction rs generalizing k errorFlag d e with
  | nil =>
    obtain rfl : (⟨true, d, []⟩ : Ended) = e := Except.ok.inj h
    rfl
  | cons r rs ih =>
    rcases fuzeLoop_cons h with ⟨hzero, rfl⟩ | ⟨-, -, rfl⟩ | ⟨hzero, -, -, w, t, hw, ht, rfl⟩
    · simp [hzero]
    · cases heof
    · have heof' : t.eof = true := heof
      simp [hzero, ih heof' ht]

/-- A write of the first piece: it is in the chip exactly if the chip takes it,
and then the rest follows behind it, where nothing has changed. -/
theorem takes_iff {l : List UInt8} (hnil : l ≠ []) (hlen : l.length ≤ 0x1E0040) {w : Int × Device}
    (hw : deviceWrite 0 (program k) (Read.data (l.take 1024)).buffer
      (Read.data (l.take 1024)).len d = .ok w) :
    Takes (fun i => program (k + i)) d l ↔
      (⟨l.take 1024, d, w.1, w.2⟩ : Written).Stored ∧
        Takes (fun i => program (k + 1 + i)) w.2 (l.drop 1024) := by
  have hpos : 0 < l.length := List.length_pos_iff.mpr hnil
  have htake : (l.take 1024).length = min 1024 l.length := List.length_take
  have hdrop : (l.drop 1024).length = l.length - 1024 := List.length_drop
  have hlength : (Read.data (l.take 1024)).len.toNat = min 1024 l.length := by
    rw [toNat_len_data (by omega), htake]
  have hcount := loopCount_eq (Read.data (l.take 1024)).len.toNat
  rcases deviceWrite_cases hw with ⟨hearly, -⟩ | ⟨-, hsect, hprog⟩
  · -- It never came to programming.
    have hsect := hearly.resolve_left (not_not.mpr rfl)
    exact iff_of_false (fun htakes => (htakes 0 hpos).1 hsect) fun h => h.1.1 hsect
  have hbuffer : ∀ j < min 1024 l.length, (l.take 1024).getD j 0 = l.getD j 0 := by
    intro j hj
    rw [List.getD_eq_getElem?_getD, List.getElem?_take_of_lt (by omega),
      ← List.getD_eq_getElem?_getD]
  have hfirst : (⟨l.take 1024, d, w.1, w.2⟩ : Written).Stored ↔
      ∀ j < min 1024 l.length, TakesByte (fun i => program (k + i)) d l j := by
    refine (and_iff_right hsect).trans ?_
    rw [htake]
    refine forall₂_congr fun j hj => ?_
    unfold TakesByte
    rw [and_iff_right hsect, ← hbuffer j hj, show j / 1024 = 0 by omega, show j % 1024 = j by omega]
    show w.2.flash _ = _ ↔ burnt _ _ (d.flash ((_ + 0 : UInt32).toNat + j)) _ = _
    rw [hprog.flash j (by omega), UInt32.add_zero]
    rfl
  -- Behind the first piece the write changed nothing, and did not wrap around to it.
  have hrest : (⟨l.take 1024, d, w.1, w.2⟩ : Written).Stored → ∀ i < l.length - 1024,
      (TakesByte (fun i => program (k + 1 + i)) w.2 (l.drop 1024) i ↔
        TakesByte (fun i => program (k + i)) d l (1024 + i)) := by
    intro hstored i hi
    have hfid := (hprog.equal fun j hj => hstored.2 j (by rw [htake]; omega)).2.2
    have hlen' : (Read.data (l.take 1024)).len = 1024 := by
      apply UInt32.toNat_inj.mp
      rw [hlength]
      show min 1024 l.length = 1024
      omega
    have haddr : d.fid.uiWriteAddr + 1024 + UInt32.ofNat (1024 * (i / 1024)) =
        d.fid.uiWriteAddr + UInt32.ofNat (1024 * (1 + i / 1024)) := by
      rw [UInt32.add_assoc, Nat.mul_add, UInt32.ofNat_add]
      rfl
    have hflash : w.2.flash
          ((d.fid.uiWriteAddr + UInt32.ofNat (1024 * (1 + i / 1024))).toNat + i % 1024) =
        d.flash ((d.fid.uiWriteAddr + UInt32.ofNat (1024 * (1 + i / 1024))).toNat + i % 1024) := by
      apply hprog.rest
      have hw := d.fid.uiWriteAddr.toNat_lt
      rw [UInt32.toNat_add, UInt32.toNat_ofNat']
      omega
    have hget : (l.drop 1024).getD i 0 = l.getD (1024 + i) 0 := by
      simp only [List.getD_eq_getElem?_getD, List.getElem?_drop]
    unfold TakesByte
    rw [hfid, hlen', haddr, hflash, hget, show (1024 + i) / 1024 = 1 + i / 1024 by omega,
      show (1024 + i) % 1024 = i % 1024 by omega]
    simp only [Nat.add_assoc]
  constructor
  · intro htakes
    have hstored := hfirst.mpr fun j hj => htakes j (by omega)
    exact ⟨hstored, fun i hi => (hrest hstored i (by omega)).mpr (htakes _ (by omega))⟩
  · rintro ⟨hstored, htakes⟩ i hi
    by_cases hi' : i < 1024
    · exact hfirst.mp hstored i (by omega)
    · have h := (hrest hstored (i - 1024) (by omega)).mp (htakes _ (by omega))
      rwa [show 1024 + (i - 1024) = i by omega] at h

theorem fuzeLoop_stored {l : List UInt8} (hlen : l.length ≤ 0x1E0040) (heof : e.eof = true)
    (hcomplete : (rs.takeWhile fun r => r.len ≠ 0).map Read.bytes = chunks 1024 l)
    (h : fuzeLoop program coolSize rs k errorFlag d = .ok e) :
    (∀ w ∈ e.written, w.Stored) ↔ Takes (fun i => program (k + i)) d l := by
  induction rs generalizing k errorFlag d e l with
  | nil =>
    obtain rfl : (⟨true, d, []⟩ : Ended) = e := Except.ok.inj h
    have hnil : l = [] := by
      by_contra hne
      rw [chunks_of_ne_nil hne] at hcomplete
      cases hcomplete
    subst hnil
    exact iff_of_true (fun w hw => by cases hw) fun i hi => absurd hi (Nat.not_lt_zero i)
  | cons r rs ih =>
    by_cases hnil : l = []
    · have hdata := fuzeLoop_written heof h
      rw [hcomplete, hnil] at hdata
      rw [List.map_eq_nil_iff.mp hdata, hnil]
      exact iff_of_true (fun w hw => by cases hw) fun i hi => absurd hi (Nat.not_lt_zero i)
    rw [chunks_of_ne_nil hnil] at hcomplete
    rcases fuzeLoop_cons h with ⟨hzero, rfl⟩ | ⟨-, -, rfl⟩ | ⟨hzero, -, -, w, t, hw, ht, rfl⟩
    · simp [hzero] at hcomplete
    · cases heof
    · rw [List.takeWhile_cons_of_pos (by simpa using hzero), List.map_cons,
        List.cons.injEq] at hcomplete
      obtain ⟨hbytes, hrest⟩ := hcomplete
      have hdrop : (l.drop 1024).length = l.length - 1024 := List.length_drop
      have heof' : t.eof = true := heof
      obtain rfl : r = .data (l.take 1024) := by
        cases r with
        | data bs => exact congrArg Read.data hbytes
        | error errno =>
          have hlength := congrArg List.length hbytes
          have hpos : 0 < l.length := List.length_pos_iff.mpr hnil
          rw [List.length_take] at hlength
          change 0 = _ at hlength
          omega
      rw [takes_iff hnil hlen hw, ← ih (by omega) heof' hrest ht, List.forall_mem_cons]
      rfl

end

/-! ## The update -/

theorem eraseSectors_ok {sizes : List Nat} {answer : Nat → Option (Nat → UInt8)} {n i : Nat}
    {d d' : Device} (h : eraseSectors sizes answer n i d = .ok d') :
    d'.mask = d.mask ∧
      d'.flash = wipedFlash sizes answer d.fid.flashSectorAddr n i d.fid.uiCurSectNum d.flash ∧
      d'.fid = { d.fid with uiCurSectNum := d.fid.uiCurSectNum + UInt32.ofNat n } := by
  induction n generalizing i d with
  | zero =>
    obtain rfl : d = d' := Except.ok.inj h
    refine ⟨rfl, rfl, ?_⟩
    show d.fid = { d.fid with uiCurSectNum := d.fid.uiCurSectNum + 0 }
    rw [UInt32.add_zero]
  | succ n ih =>
    obtain ⟨e, he, hrest⟩ := bind_eq_ok.mp h
    unfold flashEraseSector at he
    split at he
    · cases he
    · next a ha =>
      dsimp only at he
      split_ifs at he
      cases he
      obtain ⟨hmask, hflash, hfid⟩ := ih hrest
      refine ⟨hmask, hflash.trans ?_, hfid.trans ?_⟩
      · rw [wipedFlash, ha]
        rfl
      · rw [UInt32.ofNat_add, UInt32.add_comm (UInt32.ofNat n), ← UInt32.add_assoc]
        rfl

section
variable {sizes : List Nat} {answers : Answers} {f : File} {d : Device} {u : Updated}

/-- The update once the size is accepted: the sectors are erased, and the loop
follows. -/
theorem fuzeImage_ok (hn : ¬ tooLarge f.size) (h : fuzeImage sizes answers (some f) d = .ok u) :
    ∃ d' e, d'.mask = 0x800000 ∧
      d'.flash = (d.wiped sizes answers.erase (sectorNum f.size)).flash ∧
      d'.fid = (d.wiped sizes answers.erase (sectorNum f.size)).fid ∧
      fuzeLoop answers.program (f.size.toNat % 1024 = 0) f.reads 0 0 d' = .ok e ∧
      u = fuzeEnd e := by
  unfold fuzeImage at h
  dsimp only at h
  rw [if_neg hn] at h
  obtain ⟨d', herase, hloop⟩ := bind_eq_ok.mp h
  obtain ⟨e, he, hu⟩ := map_eq_ok.mp hloop
  obtain ⟨hmask, hflash, hfid⟩ := eraseSectors_ok herase
  exact ⟨d', e, hmask, hflash, hfid, he, hu.symm⟩

/-- `fuze_image` leaves the mask register as it set it, on every path: the
store of 16 bits does not reach bit 23. -/
theorem fuzeImage_mask (hn : ¬ tooLarge f.size)
    (h : fuzeImage sizes answers (some f) d = .ok u) : u.device.mask = 0x800000 := by
  obtain ⟨d', e, hmask, -, -, hloop, rfl⟩ := fuzeImage_ok hn h
  have hkept : Kept d' e.device := by
    have hk := (fuzeLoop_kept answers.program (f.size.toNat % 1024 = 0) f.reads 0 0 d').1
    rwa [hloop] at hk
  have he : e.device.mask = 0x800000 := hkept.mask.trans hmask
  unfold fuzeEnd
  split_ifs
  · show e.device.mask &&& 0xFFFF0000 = 0x800000
    rw [he]
    decide
  · exact he

theorem fuzeEnd_written (e : Ended) : (fuzeEnd e).written = e.written := by
  unfold fuzeEnd
  split_ifs <;> rfl

theorem reported_iff {image : List UInt8} (hsize : f.size.toNat = image.length)
    (h : fuzeImage sizes answers (some f) d = .ok u) :
    Reported image u ↔
      tooLarge f.size ∨ GivesUp f.size f.reads ∨
        Complete image f.reads ∧
          Takes answers.program (d.wiped sizes answers.erase (sectorNum f.size))
            (image.drop 64) := by
  by_cases hn : tooLarge f.size
  · obtain rfl : (⟨-ENOTTY, d, []⟩ : Updated) = u :=
      Except.ok.inj ((if_pos hn).symm.trans h)
    refine iff_of_true ?_ (.inl hn)
    intro hret
    exact absurd hret (by simp [ENOTTY])
  obtain ⟨d', e, -, hflash, hfid, hloop, rfl⟩ := fuzeImage_ok hn h
  have heof : e.eof = true ↔ ¬ GivesUp f.size f.reads := by
    rw [fuzeLoop_eof (Nat.zero_le 1) hloop, decide_eq_true_eq]
    unfold GivesUp
    rw [not_or, not_and, not_not, Nat.zero_add, Nat.not_lt]
  unfold Reported
  rw [or_iff_right hn, ← imp_iff_not_or.trans (or_congr_left not_not), ← heof, fuzeEnd_ret,
    fuzeEnd_written]
  refine imp_congr_right fun hend => ?_
  rw [fuzeLoop_written hend hloop]
  refine and_congr_right fun hcomplete => ?_
  have hlen : (image.drop 64).length ≤ 0x1E0040 := by
    have := ((not_tooLarge_iff _).mp hn).2
    rw [List.length_drop]
    omega
  rw [fuzeLoop_stored hlen hend hcomplete hloop]
  unfold Takes TakesByte
  simp only [Nat.zero_add, hflash, hfid]

end

/-- **Reporting failure**, in three parts. `fuze_image` returns 1 only for an
image that was read completely and is in the chip, exactly if it gives up on
the lengths of its reads, or all of them are complete and the chip, erased
for the image, takes every byte. It restores the mask register exactly if
that held the value it wrote. `device_write` restores the interrupt flags
exactly if they were off, it does not come to programming, or every whole
halfword takes what is written. -/
theorem update_reports_iff (sizes : List Nat) (answers : Answers) (image : List UInt8)
    (reads : List Read) (d : Device) (u : Updated) (hsize : image.length < 2 ^ 32)
    (h : fuzeImage sizes answers (some ⟨UInt32.ofNat image.length, reads⟩) d = .ok u) :
    (Reported image u ↔
        tooLarge (UInt32.ofNat image.length) ∨ GivesUp (UInt32.ofNat image.length) reads ∨
          Complete image reads ∧
            Takes answers.program
              (d.wiped sizes answers.erase (sectorNum (UInt32.ofNat image.length)))
              (image.drop 64)) ∧
      (¬ tooLarge (UInt32.ofNat image.length) →
        (u.device.mask = d.mask ↔ d.mask = 0x800000)) ∧
      ∀ left answer buffer length d₁ rc d₂,
        deviceWrite left answer buffer length d₁ = .ok (rc, d₂) →
          (d₂.irq = d₁.irq ↔
            d₁.irq = false ∨ left ≠ 0 ∨ d₁.fid.uiCurSectNum > d₁.fid.flashMaxSectorNum ∨
              ∀ j < 2 * (length.toNat / 2), burnt (answer (j / 2)) j
                (d₁.flash (d₁.fid.uiWriteAddr.toNat + j)) (buffer j) = buffer j) := by
  refine ⟨reported_iff (f := ⟨UInt32.ofNat image.length, reads⟩) (Nat.mod_eq_of_lt hsize) h, ?_, ?_⟩
  · intro hn
    rw [fuzeImage_mask (f := ⟨UInt32.ofNat image.length, reads⟩) hn h]
    exact eq_comm
  · intro left answer buffer length d₁ rc d₂ hw
    exact deviceWrite_irq_iff hw

/-! ### An image of two bytes -/

/-- A header and two bytes. -/
def tinyImage : List UInt8 := List.replicate 64 0 ++ [1, 2]

/-- With a chip that does what it is told the update reports the truth, but the
mask register is changed. -/
theorem update_reports_tiny :
    ∃ u, fuzeImage Chip.am29lv160bb.sizes Answers.good
        (some ⟨UInt32.ofNat tinyImage.length, [.data [1, 2]]⟩) opened160 = .ok u ∧
      Reported tinyImage u ∧ u.device.mask ≠ opened160.mask := by
  obtain ⟨u, hu, -⟩ : ∃ u, fuzeImage Chip.am29lv160bb.sizes Answers.good
      (some ⟨UInt32.ofNat tinyImage.length, [.data [1, 2]]⟩) opened160 = .ok u ∧ u.ret = 1 := by
    decide +kernel
  obtain ⟨hreported, hmask, -⟩ := update_reports_iff Chip.am29lv160bb.sizes Answers.good tinyImage
    [.data [1, 2]] opened160 u (by decide) hu
  have hcomplete : Complete tinyImage [.data [1, 2]] := by
    unfold Complete
    decide
  have htakes : Takes Answers.good.program
      (opened160.wiped Chip.am29lv160bb.sizes Answers.good.erase
        (sectorNum (UInt32.ofNat tinyImage.length))) (tinyImage.drop 64) := by
    unfold Takes TakesByte
    decide +kernel
  refine ⟨u, hu, hreported.mpr (.inr (.inr ⟨hcomplete, htakes⟩)), ?_⟩
  rw [ne_eq, hmask (by decide)]
  decide +kernel

/-- A chip that programs nothing: the comparison fails, `fuze_image` returns 1
all the same, interrupts stay off and the mask register is changed. -/
theorem update_hides_failure :
    ∃ u, fuzeImage Chip.am29lv160bb.sizes ⟨fun _ => none, fun _ _ => some (0xFF, 0xFF)⟩
        (some ⟨UInt32.ofNat tinyImage.length, [.data [1, 2]]⟩) opened160 = .ok u ∧
      ¬ Reported tinyImage u ∧ opened160.irq = true ∧ u.device.irq = false ∧
      u.device.mask ≠ opened160.mask := by
  obtain ⟨u, hu, hret, hirq, hmask, w, hw, hdata, hflash⟩ : ∃ u,
      fuzeImage Chip.am29lv160bb.sizes ⟨fun _ => none, fun _ _ => some (0xFF, 0xFF)⟩
        (some ⟨UInt32.ofNat tinyImage.length, [.data [1, 2]]⟩) opened160 = .ok u ∧
      u.ret = 1 ∧ u.device.irq = false ∧ u.device.mask = 0x800000 ∧ ∃ w ∈ u.written,
        w.data = [1, 2] ∧ w.after.flash (w.before.fid.uiWriteAddr.toNat + 0) = 0xFF := by
    decide +kernel
  refine ⟨u, hu, ?_, by decide +kernel, hirq, ?_⟩
  · intro hreported
    have hbyte := ((hreported hret).2 w hw).2 0 (by rw [hdata]; decide)
    rw [hflash] at hbyte
    simp [hdata] at hbyte
  · rw [hmask]
    decide +kernel

end Cflash
