import Mathlib.Data.Vector.Basic
import Cnu680.Framework.Sectors

/-! # The Flash Chips of the Update Driver

`drivers/char/flash_s3c2510.c` keeps what it knows about the flash chip
in one structure, `FID`. `CheckFlashID` reads the two identification
codes of the chip and one of four functions fills the table of sector
addresses in, the number of sectors, and where the image begins: the
sector at 0x20000.

* `checkFlashID`, `setAMDSector`, `setSSTSector`, `setSamsungSector`,
  `setATMELSector`: as the source has them.
* `Chip`: the chips they know, as they are cut into sectors.
  `checkFlashID` fills in the description of the chip that has the codes
  it read (`Chip.fid`), or fails (`checkFlashID_cleared`).
-/

namespace Cflash

open Framework

/-- `FlashID`. -/
@[ext]
structure FlashID where
  manuID : UInt32
  deviceID : UInt32
  flashMaxSectorNum : UInt32
  flashSectorAddr : Vector UInt32 100
  uiCurSectNum : UInt32
  uiWriteAddr : UInt32
  detectfail : UInt32
  deriving DecidableEq

namespace FlashID

/-- `memset(&FID, 0x00, sizeof(FlashID))`. -/
def cleared : FlashID where
  manuID := 0
  deviceID := 0
  flashMaxSectorNum := 0
  flashSectorAddr := Vector.replicate 100 0
  uiCurSectNum := 0
  uiWriteAddr := 0
  detectfail := 0

/-- `FID.FLASH_MAX_SECTOR_NUM = n`. -/
def putMax (fid : FlashID) (n : UInt32) : FlashID :=
  { fid with flashMaxSectorNum := n }

/-- `FID.FlashSectorAddr[i] = addr`. -/
def putSector (fid : FlashID) (i : Nat) (addr : UInt32) : FlashID :=
  { fid with flashSectorAddr := fid.flashSectorAddr.setIfInBounds i addr }

/-- The same in a loop that looks for the sector of the image. -/
def putImageSector (fid : FlashID) (i : Nat) (addr : UInt32) : FlashID :=
  let fid := fid.putSector i addr
  if addr = 0x20000 then { fid with uiWriteAddr := addr, uiCurSectNum := UInt32.ofNat i } else fid

/-- `n` rounds of a loop that enters `temp` and adds `step` to it. -/
def putSectors (step : UInt32) : Nat → Nat → UInt32 → FlashID → FlashID
  | 0, _, _, fid => fid
  | n + 1, i, temp, fid => putSectors step n (i + 1) (temp + step) (fid.putSector i temp)

/-- `n` rounds of a loop that enters sectors of 64 KB and looks for the sector
of the image. -/
def putImageSectors : Nat → Nat → UInt32 → FlashID → FlashID
  | 0, _, _, fid => fid
  | n + 1, i, temp, fid => putImageSectors n (i + 1) (temp + 0x10000) (fid.putImageSector i temp)

end FlashID

/-! ## The chips -/

/-- The chips that the driver knows. -/
inductive Chip where
  | am29lv800bb
  | am29lv160bb
  | am29lv320db
  | k8b1616uba
  | sst39vf800a
  | sst39vf160a
  | at49bv321
  deriving DecidableEq

/-- The address that `SetSSTSector` computes for sector `i` of a SST39VF160A. -/
def sst160Addr (i : Nat) : UInt32 :=
  if i ≤ 31 then UInt32.ofNat i * 0x800 else UInt32.ofNat (i - 31) * 0x10000

/-- What the four functions enter for each chip. -/
def Chip.fill : Chip → FlashID → FlashID
  | am29lv800bb, fid =>
    let fid := fid.putMax 19
    let fid := (fid.putSector 0 0x00000).putSector 1 0x04000
    let fid := (fid.putSector 2 0x06000).putSector 3 0x08000
    fid.putImageSectors 15 4 0x10000
  | am29lv160bb, fid =>
    let fid := fid.putMax 35
    let fid := (fid.putSector 0 0x00000).putSector 1 0x04000
    let fid := (fid.putSector 2 0x06000).putSector 3 0x08000
    fid.putImageSectors 31 4 0x10000
  | am29lv320db, fid =>
    let fid := fid.putMax 71
    let fid := (fid.putSector 0 0x00000).putSector 1 0x02000
    let fid := (fid.putSector 2 0x04000).putSector 3 0x06000
    let fid := (fid.putSector 4 0x08000).putSector 5 0x0a000
    let fid := (fid.putSector 6 0x0c000).putSector 7 0x0e000
    fid.putImageSectors 63 8 0x10000
  | k8b1616uba, fid =>
    let fid := fid.putMax 39
    (fid.putSectors 0x2000 8 0 0).putImageSectors 31 8 0x10000
  | sst39vf800a, fid =>
    let fid := fid.putMax 16
    fid.putImageSectors 16 0 0
  | sst39vf160a, fid =>
    let fid := fid.putMax 63
    (List.range 63).foldl (fun fid i => fid.putImageSector i (sst160Addr i)) fid
  | at49bv321, fid =>
    let fid := fid.putMax 71
    (fid.putSectors 0x2000 8 0 0).putImageSectors 63 8 0x10000

/-! ## Identification -/

/-- `SetAMDSector`. -/
def setAMDSector (fid : FlashID) : Int × FlashID :=
  if fid.deviceID = 0x225B then (1, Chip.am29lv800bb.fill fid)
  else if fid.deviceID = 0x2249 then (1, Chip.am29lv160bb.fill fid)
  else if fid.deviceID = 0x22F9 then (1, Chip.am29lv320db.fill fid)
  else (-1, fid)

/-- `SetSamsungSector`. -/
def setSamsungSector (fid : FlashID) : Int × FlashID :=
  if fid.deviceID ≠ 0x2245 then (-1, fid) else (1, Chip.k8b1616uba.fill fid)

/-- `SetSSTSector`. -/
def setSSTSector (fid : FlashID) : Int × FlashID :=
  if fid.deviceID = 0x2781 then (1, Chip.sst39vf800a.fill fid)
  else if fid.deviceID = 0x2782 then (1, Chip.sst39vf160a.fill fid)
  else (-1, fid)

/-- `SetATMELSector`. -/
def setATMELSector (fid : FlashID) : Int × FlashID :=
  if fid.deviceID ≠ 0x00C8 then (-1, fid) else (1, Chip.at49bv321.fill fid)

/-- `CheckFlashID`, when the chip answers `manu` and `device`. -/
def checkFlashID (manu device : UInt16) (fid : FlashID) : Int × FlashID :=
  let fid := { fid with detectfail := 0, manuID := manu.toUInt32, deviceID := device.toUInt32 }
  if manu = 0x01 ∨ manu = 0x20 ∨ manu = 0x04 ∨ manu = 0xC2 then setAMDSector fid
  else if manu = 0xBF then setSSTSector fid
  else if manu = 0xEC then setSamsungSector fid
  else if manu = 0x1F then setATMELSector fid
  else setAMDSector fid

/-! ## What the chips are -/

namespace Chip

/-- The sizes of the chip's sectors. -/
def sizes : Chip → List Nat
  | am29lv800bb => [0x4000, 0x2000, 0x2000, 0x8000] ++ List.replicate 15 0x10000
  | am29lv160bb => [0x4000, 0x2000, 0x2000, 0x8000] ++ List.replicate 31 0x10000
  | am29lv320db => List.replicate 8 0x2000 ++ List.replicate 63 0x10000
  | k8b1616uba => List.replicate 8 0x2000 ++ List.replicate 31 0x10000
  | sst39vf800a => List.replicate 16 0x10000
  | sst39vf160a => List.replicate 32 0x800 ++ List.replicate 31 0x10000
  | at49bv321 => List.replicate 8 0x2000 ++ List.replicate 63 0x10000

/-- How many sectors the chip has. -/
def sectors (c : Chip) : Nat := c.sizes.length

/-- The sector in which the image begins. -/
def first : Chip → Nat
  | am29lv800bb => 5
  | am29lv160bb => 5
  | am29lv320db => 9
  | k8b1616uba => 9
  | sst39vf800a => 2
  | sst39vf160a => 33
  | at49bv321 => 9

/-- The table of the chip's sector addresses, with nothing after the last. -/
def table (c : Chip) : Vector UInt32 100 :=
  (List.range c.sectors).foldl
    (fun v k => v.setIfInBounds k (UInt32.ofNat (sectorStart c.sizes k))) (Vector.replicate 100 0)

/-- The description of a chip that answered with two codes. -/
def fid (c : Chip) (manu device : UInt32) : FlashID where
  manuID := manu
  deviceID := device
  flashMaxSectorNum := UInt32.ofNat c.sectors
  flashSectorAddr := c.table
  uiCurSectNum := UInt32.ofNat c.first
  uiWriteAddr := 0x20000
  detectfail := 0

/-- The chip that answers with two codes. Other manufacturers are taken for
AMD. -/
def ofIds (manu device : UInt16) : Option Chip :=
  if manu = 0xBF then
    if device = 0x2781 then some sst39vf800a else if device = 0x2782 then some sst39vf160a else none
  else if manu = 0xEC then if device = 0x2245 then some k8b1616uba else none
  else if manu = 0x1F then if device = 0x00C8 then some at49bv321 else none
  else if device = 0x225B then some am29lv800bb
  else if device = 0x2249 then some am29lv160bb
  else if device = 0x22F9 then some am29lv320db
  else none

end Chip

/-! ### The codes do not matter for the table -/

namespace FlashID

/-- The structure with other identification codes. -/
def withIds (fid : FlashID) (manu device : UInt32) : FlashID :=
  { fid with manuID := manu, deviceID := device }

variable (fid : FlashID) (manu device : UInt32)

theorem putMax_withIds (n : UInt32) :
    (fid.withIds manu device).putMax n = (fid.putMax n).withIds manu device :=
  rfl

theorem putSector_withIds (i : Nat) (addr : UInt32) :
    (fid.withIds manu device).putSector i addr = (fid.putSector i addr).withIds manu device :=
  rfl

theorem putImageSector_withIds (i : Nat) (addr : UInt32) :
    (fid.withIds manu device).putImageSector i addr =
      (fid.putImageSector i addr).withIds manu device := by
  by_cases h : addr = 0x20000
  · simp only [putImageSector, h, if_true]
    rfl
  · simp only [putImageSector, h, if_false]
    rfl

theorem putSectors_withIds (step : UInt32) (n i : Nat) (temp : UInt32) :
    (fid.withIds manu device).putSectors step n i temp =
      (fid.putSectors step n i temp).withIds manu device := by
  induction n generalizing fid i temp with
  | zero => rfl
  | succ n ih =>
    rw [putSectors, putSector_withIds]
    exact ih (fid.putSector i temp) (i + 1) (temp + step)

theorem putImageSectors_withIds (n i : Nat) (temp : UInt32) :
    (fid.withIds manu device).putImageSectors n i temp =
      (fid.putImageSectors n i temp).withIds manu device := by
  induction n generalizing fid i temp with
  | zero => rfl
  | succ n ih =>
    rw [putImageSectors, putImageSector_withIds]
    exact ih (fid.putImageSector i temp) (i + 1) (temp + 0x10000)

theorem foldl_putImageSector_withIds (addr : Nat → UInt32) (is : List Nat) :
    is.foldl (fun fid i => fid.putImageSector i (addr i)) (fid.withIds manu device) =
      (is.foldl (fun fid i => fid.putImageSector i (addr i)) fid).withIds manu device := by
  induction is generalizing fid with
  | nil => rfl
  | cons i is ih =>
    rw [List.foldl_cons, putImageSector_withIds]
    exact ih (fid.putImageSector i (addr i))

end FlashID

/-! ### Every chip is described -/

namespace Chip

open FlashID

theorem fill_withIds (c : Chip) (fid : FlashID) (manu device : UInt32) :
    c.fill (fid.withIds manu device) = (c.fill fid).withIds manu device := by
  cases c <;>
    simp only [fill, putMax_withIds, putSector_withIds, putSectors_withIds,
      putImageSectors_withIds, foldl_putImageSector_withIds]

theorem fill_cleared_table (c : Chip) :
    (c.fill cleared).flashSectorAddr.toList = c.table.toList := by
  cases c <;> decide +kernel

theorem fill_cleared_image (c : Chip) :
    (c.fill cleared).flashMaxSectorNum = UInt32.ofNat c.sectors ∧
      (c.fill cleared).uiCurSectNum = UInt32.ofNat c.first ∧
      (c.fill cleared).uiWriteAddr = 0x20000 := by
  cases c <;> decide +kernel

theorem fill_cleared_rest (c : Chip) :
    (c.fill cleared).manuID = 0 ∧ (c.fill cleared).deviceID = 0 ∧
      (c.fill cleared).detectfail = 0 := by
  cases c <;> decide +kernel

theorem fill_cleared (c : Chip) : c.fill cleared = c.fid 0 0 := by
  obtain ⟨hmax, hcur, hwrite⟩ := fill_cleared_image c
  obtain ⟨hmanu, hdevice, hfail⟩ := fill_cleared_rest c
  have htable : (c.fill cleared).flashSectorAddr = c.table :=
    Vector.toList_inj.mp (fill_cleared_table c)
  exact FlashID.ext hmanu hdevice hmax htable hcur hwrite hfail

theorem fill_cleared_withIds (c : Chip) (manu device : UInt32) :
    c.fill (cleared.withIds manu device) = c.fid manu device := by
  rw [fill_withIds, fill_cleared]
  rfl

end Chip

/-- `CheckFlashID` on a cleared structure describes the chip that answered,
and fails if it does not know it. -/
theorem checkFlashID_cleared (manu device : UInt16) :
    checkFlashID manu device FlashID.cleared =
      match Chip.ofIds manu device with
      | some c => (1, c.fid manu.toUInt32 device.toUInt32)
      | none => (-1, FlashID.cleared.withIds manu.toUInt32 device.toUInt32) := by
  have hcode : ∀ x : UInt16, device.toUInt32 = x.toUInt32 ↔ device = x :=
    fun x => UInt16.toUInt32_inj
  obtain ⟨fid, hfid⟩ : ∃ fid, FlashID.cleared.withIds manu.toUInt32 device.toUInt32 = fid :=
    ⟨_, rfl⟩
  have hdevice : fid.deviceID = device.toUInt32 := by rw [← hfid]; rfl
  have hfill : ∀ c : Chip, c.fid manu.toUInt32 device.toUInt32 = c.fill fid := by
    intro c
    rw [← hfid, Chip.fill_cleared_withIds]
  have hamd : setAMDSector fid =
      if device = 0x225B then (1, Chip.am29lv800bb.fill fid)
      else if device = 0x2249 then (1, Chip.am29lv160bb.fill fid)
      else if device = 0x22F9 then (1, Chip.am29lv320db.fill fid)
      else (-1, fid) := by
    simp only [setAMDSector, hdevice, ← hcode]
    rfl
  have hsst : setSSTSector fid =
      if device = 0x2781 then (1, Chip.sst39vf800a.fill fid)
      else if device = 0x2782 then (1, Chip.sst39vf160a.fill fid)
      else (-1, fid) := by
    simp only [setSSTSector, hdevice, ← hcode]
    rfl
  have hsamsung : setSamsungSector fid =
      if device ≠ 0x2245 then (-1, fid) else (1, Chip.k8b1616uba.fill fid) := by
    simp only [setSamsungSector, hdevice, Ne, ← hcode]
    rfl
  have hatmel : setATMELSector fid =
      if device ≠ 0x00C8 then (-1, fid) else (1, Chip.at49bv321.fill fid) := by
    simp only [setATMELSector, hdevice, Ne, ← hcode]
    rfl
  have hcheck : checkFlashID manu device FlashID.cleared =
      if manu = 0x01 ∨ manu = 0x20 ∨ manu = 0x04 ∨ manu = 0xC2 then setAMDSector fid
      else if manu = 0xBF then setSSTSector fid
      else if manu = 0xEC then setSamsungSector fid
      else if manu = 0x1F then setATMELSector fid
      else setAMDSector fid := by
    rw [← hfid]
    rfl
  rw [hcheck]
  simp only [hamd, hsst, hsamsung, hatmel, hfill, hfid, Chip.ofIds]
  split_ifs <;> simp_all

/-! ### The sectors of the image -/

namespace Chip

theorem foldl_set_getElem? (f : Nat → UInt32) (n k : Nat) (v : Vector UInt32 100) (hn : n ≤ 100) :
    ((List.range n).foldl (fun v k => v.setIfInBounds k (f k)) v)[k]? =
      if k < n then some (f k) else v[k]? := by
  induction n with
  | zero => rfl
  | succ n ih =>
    rw [List.range_succ, List.foldl_append, List.foldl_cons, List.foldl_nil,
      Vector.getElem?_setIfInBounds, ih (by omega)]
    split_ifs <;> grind

theorem sectors_le (c : Chip) : c.sectors ≤ 71 := by
  cases c <;> decide

theorem first_lt_sectors (c : Chip) : c.first < c.sectors := by
  cases c <;> decide

theorem table_getElem? (c : Chip) {k : Nat} (hk : k < 100) :
    c.table[k]? = some (if k < c.sectors then UInt32.ofNat (sectorStart c.sizes k) else 0) := by
  have hle : c.sectors ≤ 100 := by have := c.sectors_le; omega
  rw [table, foldl_set_getElem? _ _ _ _ hle]
  split
  · rfl
  · exact Vector.getElem?_replicate_of_lt hk

theorem sectorStart_image (c : Chip) {k : Nat} (hfirst : c.first ≤ k) (hk : k ≤ c.sectors) :
    sectorStart c.sizes k = 0x20000 + 0x10000 * (k - c.first) := by
  have hall : ∀ k < 72, c.first ≤ k → k ≤ c.sectors →
      sectorStart c.sizes k = 0x20000 + 0x10000 * (k - c.first) := by
    cases c <;> decide +kernel
  have := c.sectors_le
  exact hall k (by omega) hfirst hk

end Chip

end Cflash
