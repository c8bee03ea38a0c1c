import Cnu680.Flash.Chips
import Cnu680.Framework.Exec

/-! # Opening and Releasing the Flash Device

`device_open` takes a page for its buffer, clears `FID`, looks whether
the device is already open in the same mode, counts the opener and
identifies the chip, in this order, and undoes none of it when a later
step fails. `device_release` frees the page that the driver holds at that
time and takes the opener off the count.

`System` is the device together with the files that are open on it; a
file is open from a `device_open` that returned 0 until it is released.
The main result is `open_atomic_iff`. -/

open Framework

namespace Cflash

def ENOMEM : Int := 12
def EFAULT : Int := 14
def EBUSY : Int := 16
def ENOTTY : Int := 25
def ENOMEDIUM : Int := 123

/-- The state of the driver and of what it drives. -/
structure Device where
  /-- The address of the buffer page, 0 for `NULL`, and what the page holds. -/
  gpBuff : UInt32
  page : Nat → UInt8
  fid : FlashID
  /-- `s_bDeviceWriteOpen` and `s_bDeviceReadOpen`. -/
  writeOpen : Int
  readOpen : Int
  /-- The bytes of the chip, counted from `FLASH_BASE_ADDR`. -/
  flash : Nat → UInt8
  /-- The erase commands that were given to the chip: the number of the sector
      and the address from the table. -/
  erased : List (Nat × Nat)
  /-- The interrupt mask register at 0x3FF4008. -/
  mask : UInt32
  /-- Interrupts are enabled in the processor. -/
  irq : Bool

/-- `(filp->f_flags & O_ACCMODE) & (O_WRONLY | O_RDWR)`. -/
def writes (flags : UInt32) : Prop := (flags &&& 3) &&& (1 ||| 2) ≠ 0

instance : DecidablePred writes := fun _ => inferInstanceAs (Decidable (_ ≠ _))

/-! ## The two functions -/

/-- The end of `device_open`, from `CheckFlashID` on. -/
def identify (manu device : UInt16) (d : Device) : Int × Device :=
  let r := checkFlashID manu device d.fid
  if r.1 < 0 then (-ENOMEDIUM, { d with fid := r.2 }) else (0, { d with fid := r.2 })

/-- `device_open`, when `__get_free_page` returns `alloc` and the chip answers
`manu` and `device`. -/
def deviceOpen (flags alloc : UInt32) (manu device : UInt16) (d : Device) : Int × Device :=
  let d := { d with gpBuff := alloc }
  if alloc = 0 then (-ENOMEM, d)
  else
    let d := { d with page := fun _ => 0, fid := FlashID.cleared }
    if writes flags then
      if d.writeOpen ≠ 0 then (-EBUSY, d)
      else identify manu device { d with writeOpen := d.writeOpen + 1 }
    else
      if d.readOpen ≠ 0 then (-EBUSY, d)
      else identify manu device { d with readOpen := d.readOpen + 1 }

/-- `device_release`. The page goes back to the allocator, but `gpBuff` still
points to it. -/
def deviceRelease (flags : UInt32) (d : Device) : Device :=
  if writes flags then { d with writeOpen := d.writeOpen - 1 }
  else { d with readOpen := d.readOpen - 1 }

namespace Device

/-- The count of the mode. -/
def count (d : Device) (flags : UInt32) : Int := if writes flags then d.writeOpen else d.readOpen

/-- The device with another count for the mode. -/
def withCount (d : Device) (flags : UInt32) (n : Int) : Device :=
  if writes flags then { d with writeOpen := n } else { d with readOpen := n }

/-- The device after the steps of `device_open` that come before the busy
check. -/
def prepared (d : Device) (alloc : UInt32) : Device :=
  { d with gpBuff := alloc, page := fun _ => 0, fid := FlashID.cleared }

/-- The driver's variables are the same. -/
def Same (d e : Device) : Prop :=
  e.gpBuff = d.gpBuff ∧ e.fid = d.fid ∧ e.writeOpen = d.writeOpen ∧ e.readOpen = d.readOpen

/-- The driver when it has just been loaded. -/
def loaded (page flash : Nat → UInt8) (mask : UInt32) (irq : Bool) : Device where
  gpBuff := 0
  page := page
  fid := FlashID.cleared
  writeOpen := 0
  readOpen := 0
  flash := flash
  erased := []
  mask := mask
  irq := irq

end Device

/-! ### What an open does -/

theorem identify_cleared (manu device : UInt16) (d : Device) (h : d.fid = FlashID.cleared) :
    identify manu device d =
      match Chip.ofIds manu device with
      | some c => (0, { d with fid := c.fid manu.toUInt32 device.toUInt32 })
      | none => (-ENOMEDIUM,
          { d with fid := FlashID.cleared.withIds manu.toUInt32 device.toUInt32 }) := by
  unfold identify
  rw [h, checkFlashID_cleared]
  cases Chip.ofIds manu device with
  | none => rfl
  | some c => rfl

theorem deviceOpen_eq (flags alloc : UInt32) (manu device : UInt16) (d : Device) :
    deviceOpen flags alloc manu device d =
      if alloc = 0 then (-ENOMEM, { d with gpBuff := 0 })
      else if d.count flags ≠ 0 then (-EBUSY, d.prepared alloc)
      else
        let e := (d.prepared alloc).withCount flags 1
        match Chip.ofIds manu device with
        | some c => (0, { e with fid := c.fid manu.toUInt32 device.toUInt32 })
        | none => (-ENOMEDIUM,
            { e with fid := FlashID.cleared.withIds manu.toUInt32 device.toUInt32 }) := by
  unfold deviceOpen
  by_cases halloc : alloc = 0
  · simp [halloc]
  · by_cases hw : writes flags
    · by_cases hcount : d.writeOpen = 0
      · simp only [halloc, hw, hcount, Device.count, Device.withCount, if_true, if_false, ne_eq,
          not_true]
        exact identify_cleared manu device _ rfl
      · simp [halloc, hw, hcount, Device.count, Device.prepared]
    · by_cases hcount : d.readOpen = 0
      · simp only [halloc, hw, hcount, Device.count, Device.withCount, if_false, ne_eq, not_true]
        exact identify_cleared manu device _ rfl
      · simp [halloc, hw, hcount, Device.count, Device.prepared]

theorem withCount_erased (d : Device) (flags : UInt32) (n : Int) :
    (d.withCount flags n).erased = d.erased := by
  by_cases hw : writes flags <;> simp [Device.withCount, hw]

theorem deviceOpen_ok {flags alloc : UInt32} {manu device : UInt16} {d e : Device} {c : Chip}
    (hchip : Chip.ofIds manu device = some c) (h : deviceOpen flags alloc manu device d = (0, e)) :
    e.fid = c.fid manu.toUInt32 device.toUInt32 ∧ e.erased = d.erased := by
  rw [deviceOpen_eq, hchip] at h
  split_ifs at h with halloc hcount
  · simp [ENOMEM] at h
  · simp [EBUSY] at h
  · simp only [Prod.mk.injEq, true_and] at h
    subst h
    exact ⟨rfl, withCount_erased _ flags 1⟩

/-! ## Openers -/

/-- A call to the driver. -/
inductive Call where
  | open (flags alloc : UInt32) (manu device : UInt16)
  /-- The last close of one of the open files. -/
  | release (file : Nat)

/-- The device and the flags of the files that are open on it. -/
structure System where
  device : Device
  files : List UInt32

/-- There is no such file. -/
inductive NotOpen where
  | notOpen
  deriving DecidableEq

def step (s : System) : Call → Except NotOpen System
  | .open flags alloc manu device =>
    let r := deviceOpen flags alloc manu device s.device
    .ok ⟨r.2, if r.1 = 0 then flags :: s.files else s.files⟩
  | .release file =>
    match s.files[file]? with
    | some flags => .ok ⟨deviceRelease flags s.device, s.files.eraseIdx file⟩
    | none => .error .notOpen

namespace System

/-- How many files are open in the mode that `flags` ask for. -/
def openers (s : System) (flags : UInt32) : Nat :=
  s.files.countP fun f => decide (writes f ↔ writes flags)

/-- At most one file is open in each mode. -/
def Exclusive (s : System) : Prop := ∀ flags, s.openers flags ≤ 1

/-- If no file is open, an open that gets a page and finds a chip succeeds. -/
def Reopens (s : System) : Prop :=
  s.files = [] → ∀ flags alloc manu device, alloc ≠ 0 → (Chip.ofIds manu device).isSome →
    (deviceOpen flags alloc manu device s.device).1 = 0

/-- A failing open leaves the driver's variables as they were. -/
def FailureKeeps (s : System) : Call → Prop
  | .open flags alloc manu device =>
    (deviceOpen flags alloc manu device s.device).1 ≠ 0 →
      s.device.Same (deviceOpen flags alloc manu device s.device).2
  | .release _ => True

/-- The open succeeds, or it gets no page when the driver has none either, or
it finds the device busy when there is nothing to overwrite: `FID` is clear
and the page is the one that `gpBuff` still points to. -/
def Harmless (s : System) : Call → Prop
  | .open flags alloc manu device =>
    if alloc = 0 then s.device.gpBuff = 0
    else if s.device.count flags ≠ 0 then
      s.device.gpBuff = alloc ∧ s.device.fid = FlashID.cleared
    else (Chip.ofIds manu device).isSome
  | .release _ => True

/-- The counts are those of the open files. -/
def Counted (s : System) : Prop :=
  ∀ flags, s.device.count flags = s.openers flags ∧ s.openers flags ≤ 1

variable {s s' : System}

/-- An open that fails keeps the driver's variables only where there was
nothing to lose. -/
theorem failureKeeps_iff (s : System) (call : Call) : s.FailureKeeps call ↔ s.Harmless call := by
  cases call with
  | release file => exact Iff.rfl
  | «open» flags alloc manu device =>
    simp only [FailureKeeps, Harmless, deviceOpen_eq]
    by_cases halloc : alloc = 0
    · simp [halloc, Device.Same, ENOMEM, eq_comm]
    · by_cases hcount : s.device.count flags = 0
      · cases Chip.ofIds manu device with
        | some c => simp [halloc, hcount]
        | none =>
          -- The opener stays counted.
          have hchanged : ∀ fid, ¬ s.device.Same
              { (s.device.prepared alloc).withCount flags 1 with fid := fid } := by
            rintro fid ⟨-, -, hwrite, hread⟩
            by_cases hw : writes flags
            · simp [Device.count, Device.withCount, hw] at hcount hwrite
              omega
            · simp [Device.count, Device.withCount, hw] at hcount hread
              omega
          simp [halloc, hcount, hchanged, ENOMEDIUM]
      · simp [halloc, hcount, Device.Same, Device.prepared, EBUSY, eq_comm]

/-! ### The counts -/

theorem count_withCount (d : Device) (flags flags' : UInt32) (n : Int) :
    (d.withCount flags n).count flags' =
      if writes flags ↔ writes flags' then n else d.count flags' := by
  by_cases hw : writes flags <;> by_cases hw' : writes flags' <;>
    simp [Device.count, Device.withCount, hw, hw']

theorem count_deviceRelease (d : Device) (flags flags' : UInt32) :
    (deviceRelease flags d).count flags' =
      if writes flags ↔ writes flags' then d.count flags' - 1 else d.count flags' := by
  by_cases hw : writes flags <;> by_cases hw' : writes flags' <;>
    simp [Device.count, deviceRelease, hw, hw']

theorem openers_cons (device : Device) (flags flags' : UInt32) (files : List UInt32) :
    openers ⟨device, flags :: files⟩ flags' =
      openers ⟨device, files⟩ flags' + if writes flags ↔ writes flags' then 1 else 0 := by
  by_cases h : writes flags ↔ writes flags' <;> simp [openers, h]

theorem openers_congr {flags flags' : UInt32} (h : writes flags ↔ writes flags') :
    s.openers flags = s.openers flags' := by
  simp only [openers, h]

theorem openers_eraseIdx {file : Nat} {flags : UInt32} (hfile : s.files[file]? = some flags)
    (device : Device) (flags' : UInt32) :
    s.openers flags' = openers ⟨device, s.files.eraseIdx file⟩ flags' +
      if writes flags ↔ writes flags' then 1 else 0 := by
  obtain ⟨hlt, hget⟩ := List.getElem?_eq_some_iff.mp hfile
  have hperm : (flags :: s.files.eraseIdx file).Perm s.files := by
    have h := List.getElem_cons_eraseIdx_perm hlt
    rwa [hget] at h
  rw [← openers_cons]
  exact (hperm.countP_eq _).symm

theorem counted_loaded (page flash : Nat → UInt8) (mask : UInt32) (irq : Bool) :
    Counted ⟨Device.loaded page flash mask irq, []⟩ := by
  intro flags
  have hcount : (Device.loaded page flash mask irq).count flags = 0 := by
    by_cases hw : writes flags <;> simp [Device.count, Device.loaded, hw]
  exact ⟨hcount, Nat.zero_le 1⟩

theorem Counted.step {call : Call} (h : Counted s) (hcall : s.Harmless call)
    (hstep : step s call = .ok s') : Counted s' := by
  cases call with
  | release file =>
    cases hfile : s.files[file]? with
    | none => simp [Cflash.step, hfile] at hstep
    | some flags =>
      simp only [Cflash.step, hfile, Except.ok.injEq] at hstep
      subst hstep
      intro flags'
      obtain ⟨hcount, hle⟩ := h flags'
      have hopen := openers_eraseIdx hfile (deviceRelease flags s.device) flags'
      show (deviceRelease flags s.device).count flags' = _ ∧ _
      rw [count_deviceRelease, hcount]
      by_cases hmode : writes flags ↔ writes flags'
      · simp only [hmode, if_true] at hopen ⊢
        omega
      · simp only [hmode, if_false] at hopen ⊢
        omega
  | «open» flags alloc manu device =>
    simp only [Cflash.step, Except.ok.injEq, deviceOpen_eq] at hstep
    simp only [Harmless] at hcall
    by_cases halloc : alloc = 0
    · simp only [halloc, if_true] at hstep
      subst hstep
      exact h
    · by_cases hbusy : s.device.count flags = 0
      · simp only [halloc, hbusy, if_false, ne_eq, not_true] at hstep hcall
        obtain ⟨c, hc⟩ := Option.isSome_iff_exists.mp hcall
        simp only [hc, if_true] at hstep
        subst hstep
        intro flags'
        obtain ⟨hcount, hle⟩ := h flags'
        rw [openers_cons]
        show ((s.device.prepared alloc).withCount flags 1).count flags' = _ ∧ _
        rw [count_withCount]
        show (if writes flags ↔ writes flags' then 1 else s.device.count flags') =
          ((s.openers flags' + _ : Nat) : Int) ∧ s.openers flags' + _ ≤ 1
        by_cases hmode : writes flags ↔ writes flags'
        · have hnone : s.openers flags' = 0 := by
            have := (h flags).1
            rw [openers_congr hmode] at this
            omega
          simp [hmode, hnone]
        · simpa [hmode] using ⟨hcount, hle⟩
      · simp only [halloc, hbusy, if_false, ne_eq, not_false_eq_true, if_true] at hstep
        subst hstep
        exact h

theorem Counted.reopens (h : Counted s) : s.Reopens := by
  intro hfiles flags alloc manu device halloc hchip
  have hcount : s.device.count flags = 0 := by
    have hnone : s.openers flags = 0 := by simp [openers, hfiles]
    rw [(h flags).1, hnone]
    rfl
  obtain ⟨c, hc⟩ := Option.isSome_iff_exists.mp hchip
  simp [deviceOpen_eq, halloc, hcount, hc]

end System

/-! ## Atomicity -/

/-- **Opening the device**: over any calls after the driver was loaded, an open
that fails leaves the driver's variables alone, at most one file is open in
each mode, and the device can be opened once every file is released,
exactly when every open either succeeds or had nothing to overwrite. -/
theorem open_atomic_iff (page flash : Nat → UInt8) (mask : UInt32) (irq : Bool)
    (calls : List Call) :
    Always step (fun s => s.Exclusive ∧ s.Reopens) ⟨Device.loaded page flash mask irq, []⟩ calls ∧
        Along step System.FailureKeeps ⟨Device.loaded page flash mask irq, []⟩ calls ↔
      Along step System.Harmless ⟨Device.loaded page flash mask irq, []⟩ calls := by
  apply always_and_along_iff (J := System.Counted)
  · intro s call s' hJ hcall hstep
    exact hJ.step hcall hstep
  · intro s hJ
    exact ⟨fun flags => (hJ flags).2, hJ.reopens⟩
  · intro s call _ hcall
    exact (s.failureKeeps_iff call).mpr hcall
  · intro s call _ hkeeps hn
    exact absurd ((s.failureKeeps_iff call).mp hkeeps) hn
  · exact System.counted_loaded page flash mask irq

/-- A second writer is turned away, but the page and the chip of the first one
are gone. A chip that is not known leaves the device busy for ever. -/
theorem open_overwrites :
    ¬ (Always step (fun s => s.Exclusive ∧ s.Reopens)
          ⟨Device.loaded (fun _ => 0) (fun _ => 0xFF) 0 true, []⟩
          [.open 2 0x1000 0x01 0x2249, .open 2 0x2000 0x01 0x2249] ∧
        Along step System.FailureKeeps ⟨Device.loaded (fun _ => 0) (fun _ => 0xFF) 0 true, []⟩
          [.open 2 0x1000 0x01 0x2249, .open 2 0x2000 0x01 0x2249]) ∧
      ¬ Always step (fun s => s.Exclusive ∧ s.Reopens)
          ⟨Device.loaded (fun _ => 0) (fun _ => 0xFF) 0 true, []⟩ [.open 2 0x1000 0x01 0] := by
  constructor
  · rintro ⟨-, -, hrest⟩
    obtain ⟨hkeeps, -⟩ := hrest _ rfl
    have hsame := hkeeps (by decide +kernel)
    exact absurd hsame.1 (by decide +kernel)
  · rintro ⟨-, hrest⟩
    have hreopens := (hrest _ rfl).2 rfl 2 0x2000 0x01 0x2249 (by decide) rfl
    exact absurd hreopens (by decide +kernel)

end Cflash
