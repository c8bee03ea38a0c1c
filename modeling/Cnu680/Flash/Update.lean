import Cnu680.Flash.Device

/-! # Erasing, Programming and Updating

The rest of `drivers/char/flash_s3c2510.c`: `FlashEraseSector`,
`FlashProgram`, `FlashCompareData`, `device_write`, `fuze_image`, which
writes a whole image file into the chip, and `device_ioctl`.

The chip answers each command as it likes: an erase leaves a sector
clear or with other contents, the programming of a halfword takes or
leaves anything (`Answers`). A call that does not come back ends in a
`Halt`, with the device as it is then. -/

open Framework

namespace Cflash

/-- Why a call does not come back. -/
inductive Fault where
  /-- `FlashSectorAddr` is read past its end. -/
  | table
  /-- The loop that waits for the end of an erase never sees 0xFF. -/
  | endless
  /-- `copy_from_user` writes past the end of the buffer page, or
      `FlashProgram` reads there. -/
  | overrun
  /-- A halfword is written at an odd address. -/
  | misaligned
  deriving DecidableEq

structure Halt where
  fault : Fault
  device : Device

/-- What the chip makes of the commands of one call. -/
structure Answers where
  /-- What the sector of the `i`-th erase holds afterwards, if not 0xFF. -/
  erase : Nat → Option (Nat → UInt8)
  /-- What the `j`-th halfword of the `k`-th write holds afterwards, if it was
      not programmed. -/
  program : Nat → Nat → Option (UInt8 × UInt8)

/-- A chip that does what it is told. -/
def Answers.good : Answers := ⟨fun _ => none, fun _ _ => none⟩

/-- The state in which a call ends, however it ends. -/
def endOf {α : Type} (device : α → Device) : Except Halt α → Device
  | .ok a => device a
  | .error halt => halt.device

/-! ## Erasing -/

/-- `FlashEraseSector`, on a chip with sectors of the given sizes. The chip
erases the sector that holds the address; the loop that waits for it looks
at the lower byte of the halfword there, which is the first one. What an
SST chip makes of the command 0x50, which it gets instead of 0x30 from
sector 32 on, is left to the chip, as is what any chip makes of 0x30. -/
def flashEraseSector (sizes : List Nat) (answer : Option (Nat → UInt8)) (sectorNum : UInt32)
    (d : Device) : Except Halt Device :=
  match d.fid.flashSectorAddr[sectorNum.toNat]? with
  | none => .error ⟨.table, d⟩
  | some sectorAddr =>
    let a := sectorAddr.toNat
    let d := { d with
      flash := refill sizes a (answer.getD fun _ => 0xFF) d.flash
      erased := d.erased ++ [(sectorNum.toNat, a)] }
    if d.flash a = 0xFF then .ok d else .error ⟨.endless, d⟩

/-- `FID.uiCurSectNum++`. -/
def Device.nextSector (d : Device) : Device :=
  { d with fid := { d.fid with uiCurSectNum := d.fid.uiCurSectNum + 1 } }

/-- The loop that erases `n` sectors, after `i` others. -/
def eraseSectors (sizes : List Nat) (answer : Nat → Option (Nat → UInt8)) :
    Nat → Nat → Device → Except Halt Device
  | 0, _, d => .ok d
  | n + 1, i, d =>
    flashEraseSector sizes (answer i) d.fid.uiCurSectNum d >>= fun d =>
      eraseSectors sizes answer n (i + 1) d.nextSector

/-! ## Programming -/

/-- One halfword. Programming only clears bits. -/
def programHalf (answer : Option (UInt8 × UInt8)) (a : Nat) (lo hi : UInt8) (m : Nat → UInt8)
    (x : Nat) : UInt8 :=
  if x = a then (match answer with | none => m a &&& lo | some w => w.1)
  else if x = a + 1 then (match answer with | none => m (a + 1) &&& hi | some w => w.2)
  else m x

/-- The first `n` rounds of the loop of `FlashProgram`. -/
def programHalves (answer : Nat → Option (UInt8 × UInt8)) (base : Nat) (src : Nat → UInt8) :
    Nat → (Nat → UInt8) → Nat → UInt8
  | 0, m => m
  | n + 1, m => programHalf (answer n) (base + 2 * n) (src (2 * n)) (src (2 * n + 1))
      (programHalves answer base src n m)

/-- `FlashCompareData`: whole halfwords only. -/
def flashCompareData (base : Nat) (src : Nat → UInt8) (size : Nat) (m : Nat → UInt8) : Int :=
  if (List.range (size / 2)).all fun i =>
      m (base + 2 * i) == src (2 * i) && m (base + 2 * i + 1) == src (2 * i + 1)
  then 1 else -1

/-- How many halfwords `FlashProgram` writes. -/
def loopCount (size : Nat) : Nat := if size % 2 ≠ 0 then size / 2 + 1 else size / 2

/-- `FlashProgram`, and what the chip holds afterwards. -/
def flashProgram (answer : Nat → Option (UInt8 × UInt8)) (base : Nat) (src : Nat → UInt8)
    (size : Nat) (m : Nat → UInt8) : Option (Int × (Nat → UInt8)) :=
  if base % 2 ≠ 0 ∧ loopCount size ≠ 0 then none
  else
    let m := programHalves answer base src (loopCount size) m
    some (flashCompareData base src size m, m)

/-- `PAGE_SIZE`. -/
def pageSize : Nat := 4096

/-- How much `copy_from_user` copies when it leaves `left` bytes out. It takes
the length for a signed number: if that is negative it copies one byte, and
says that none is left. -/
def copied (left : Nat) (length : UInt32) : Nat :=
  if length < 0x80000000 then length.toNat - left else 1 - left

/-- `device_write`, when `copy_from_user` leaves `left` bytes of the buffer
out. -/
def deviceWrite (left : Nat) (answer : Nat → Option (UInt8 × UInt8)) (buffer : Nat → UInt8)
    (length : UInt32) (d : Device) : Except Halt (Int × Device) :=
  if pageSize < copied left length then .error ⟨.overrun, d⟩
  else
    let d := { d with page := fun j => if j < copied left length then buffer j else d.page j }
    if left ≠ 0 then .ok (-EFAULT, d)
    else if d.fid.uiCurSectNum > d.fid.flashMaxSectorNum then .ok (-EFAULT, d)
    else
      let flags := d.irq
      let d := { d with irq := false }
      if d.fid.uiWriteAddr.toNat % 2 = 0 ∧ pageSize < length.toNat then
        -- `FlashProgram` comes to the end of the page and reads on
        let flash := programHalves answer d.fid.uiWriteAddr.toNat d.page (pageSize / 2) d.flash
        .error ⟨.overrun, { d with flash := flash }⟩
      else
        match flashProgram answer d.fid.uiWriteAddr.toNat d.page length.toNat d.flash with
        | none => .error ⟨.misaligned, d⟩
        | some (rc, flash) =>
          let d := { d with flash := flash }
          if rc < 0 then .ok (-EFAULT, d)
          else
            let fid := { d.fid with uiWriteAddr := d.fid.uiWriteAddr + length }
            .ok (length.toNat, { d with fid := fid, irq := flags })

/-! ## The update -/

/-- What `read` returns: some bytes, none at the end of the file, or an error
number. -/
inductive Read where
  | data (bytes : List UInt8)
  | error (errno : UInt32)
  deriving DecidableEq

namespace Read

/-- `iReadLen`, which is unsigned. -/
def len : Read → UInt32
  | data bytes => UInt32.ofNat bytes.length
  | error errno => 0 - errno

/-- What is in the buffer of `fuze_image` then. -/
def bytes : Read → List UInt8
  | data bytes => bytes
  | error _ => []

def buffer (r : Read) (j : Nat) : UInt8 := r.bytes.getD j 0

end Read

/-- A call of `device_write` in the loop of `fuze_image`: the bytes that were
read, what it returned, and the device before and after. -/
structure Written where
  data : List UInt8
  before : Device
  rc : Int
  after : Device

/-- How the loop of `fuze_image` ends: at the end of the file, or at one of the
error labels. -/
structure Ended where
  eof : Bool
  device : Device
  written : List Written

/-- `BUFF_SIZE`. -/
def buffSize : UInt32 := 1024

/-- `error_flag`, which counts the reads of another size. -/
def nextFlag (r : Read) (errorFlag : Nat) : Nat :=
  if r.len ≠ buffSize then errorFlag + 1 else errorFlag

/-- What comes after a call of `device_write`, when it returned. -/
def afterWrite (r : Read) (d : Device) (w : Int × Device) (rest : Except Halt Ended) :
    Except Halt Ended :=
  if UInt32.ofInt w.1 = 0 then .ok ⟨false, w.2, [⟨r.bytes, d, w.1, w.2⟩]⟩
  else rest.map fun e => ⟨e.eof, e.device, ⟨r.bytes, d, w.1, w.2⟩ :: e.written⟩

/-- The loop of `fuze_image`, with the answers of `read` that are still to
come. After the last of them `read` returns 0. `k` counts the rounds. -/
def fuzeLoop (program : Nat → Nat → Option (UInt8 × UInt8)) (coolSize : Bool) :
    List Read → Nat → Nat → Device → Except Halt Ended
  | [], _, _, d => .ok ⟨true, d, []⟩
  | r :: rs, k, errorFlag, d =>
    if r.len = 0 then .ok ⟨true, d, []⟩
    else if r.len ≠ buffSize ∧ coolSize then .ok ⟨false, d, []⟩
    else if nextFlag r errorFlag > 1 then .ok ⟨false, d, []⟩
    else
      deviceWrite 0 (program k) r.buffer r.len d >>= fun w =>
        afterWrite r d w (fuzeLoop program coolSize rs (k + 1) (nextFlag r errorFlag) w.2)

/-- `iSectorNum`. -/
def sectorNum (fileSize : UInt32) : Nat :=
  if fileSize % (64 * 1024) ≠ 0 then (fileSize / (64 * 1024)).toNat + 1
  else (fileSize / (64 * 1024)).toNat

/-- `FLASH_SIZE`, `ARMBOOT_SIZE` and the size of `image_header_t`. -/
def flashSize : UInt32 := 0x00200000
def armbootSize : UInt32 := 1024 * 128
def headerSize : UInt32 := 64

/-- The image is too large, or smaller than its header. -/
def tooLarge (fileSize : UInt32) : Prop := flashSize - armbootSize < fileSize - headerSize

instance : DecidablePred tooLarge := fun _ => inferInstanceAs (Decidable (_ < _))

/-- An image file: its size and what `read` will return. -/
structure File where
  size : UInt32
  reads : List Read

/-- What `fuze_image` returns, the device then, and what it wrote. -/
structure Updated where
  ret : Int
  device : Device
  written : List Written

/-- What `fuze_image` does after its loop. A store of 16 bits at the address of
the mask register changes the lower half of it. -/
def fuzeEnd (e : Ended) : Updated :=
  if e.eof then
    ⟨1, { e.device with mask := e.device.mask &&& 0xFFFF0000 }, e.written⟩
  else ⟨-ENOTTY, e.device, e.written⟩

/-- `fuze_image`, on a file that can be opened or not. -/
def fuzeImage (sizes : List Nat) (answers : Answers) (file : Option File) (d : Device) :
    Except Halt Updated :=
  match file with
  | none => .ok ⟨-ENOTTY, d, []⟩
  | some f =>
    if tooLarge f.size then .ok ⟨-ENOTTY, d, []⟩
    else
      eraseSectors sizes answers.erase (sectorNum f.size) 0 { d with mask := 0x800000 } >>= fun d =>
        (fuzeLoop answers.program (f.size.toNat % 1024 = 0) f.reads 0 0 d).map fuzeEnd

/-! ## The ioctls -/

/-- `_IO(FL_MAGIC, nr)`. -/
def FL_ERASE_SECTOR : UInt32 := 0x6700
def FL_INTG_DISABLE : UInt32 := 0x6701
def FL_WT_ENABLE : UInt32 := 0x6702
def FL_INTG_ENABLE : UInt32 := 0x6703
def FL_INT_ONLYETH : UInt32 := 0x6704
def FL_FUZE_IMAGE : UInt32 := 0x6705

/-- The rounds of the erase loop of `device_ioctl`, which computes with signed
numbers. -/
def ioctlSectorNum (arg : UInt32) : Nat :=
  let fileSize := arg.toInt32.toInt
  if fileSize.tmod (64 * 1024) ≠ 0 then (fileSize.tdiv (64 * 1024) + 1).toNat
  else (fileSize.tdiv (64 * 1024)).toNat

/-- `device_ioctl`; for `FL_FUZE_IMAGE`, `arg` names the file. -/
def deviceIoctl (sizes : List Nat) (answers : Answers) (cmd arg : UInt32) (file : Option File)
    (d : Device) : Except Halt (Int × Device) :=
  if (cmd >>> 8) &&& 0xFF ≠ 0x67 then .ok (-ENOTTY, d)
  else if cmd &&& 0xFF > 5 then .ok (-ENOTTY, d)
  else if cmd = FL_ERASE_SECTOR then
    (eraseSectors sizes answers.erase (ioctlSectorNum arg) 0 d).map fun d => (1, d)
  else if cmd = FL_INTG_DISABLE then .ok (1, { d with mask := 0x800000 })
  else if cmd = FL_INTG_ENABLE then .ok (1, { d with mask := d.mask &&& 0xFFFF0000 })
  else if cmd = FL_WT_ENABLE then .ok (1, d)
  else if cmd = FL_INT_ONLYETH then .ok (1, { d with mask := d.mask &&& 0xFFFF0000 ||| 0xF06E })
  else if cmd = FL_FUZE_IMAGE then
    (fuzeImage sizes answers file d).map fun u => (u.ret, u.device)
  else .ok (-ENOTTY, d)

/-! ## What writing leaves alone -/

section
variable {α β : Type} {device : α → Device} {device' : β → Device} {x : Except Halt α}

theorem endOf_map (f : β → α) (y : Except Halt β) :
    endOf device (y.map f) = endOf (device ∘ f) y := by
  cases y <;> rfl

theorem endOf_bind {R : Device → Device → Prop} {d : Device} {f : α → Except Halt β}
    (htrans : ∀ d₁ d₂ d₃, R d₁ d₂ → R d₂ d₃ → R d₁ d₃) (hx : R d (endOf device x))
    (hf : ∀ a, x = .ok a → R (device a) (endOf device' (f a))) : R d (endOf device' (x >>= f)) := by
  cases x with
  | error halt => exact hx
  | ok a => exact htrans d (device a) _ hx (hf a rfl)

end

/-- The chip's description, the erase commands and the mask register are the
same; only the write address may have moved. -/
structure Kept (d e : Device) : Prop where
  erased : e.erased = d.erased
  table : e.fid.flashSectorAddr = d.fid.flashSectorAddr
  cur : e.fid.uiCurSectNum = d.fid.uiCurSectNum
  max : e.fid.flashMaxSectorNum = d.fid.flashMaxSectorNum
  mask : e.mask = d.mask

theorem Kept.refl (d : Device) : Kept d d := ⟨rfl, rfl, rfl, rfl, rfl⟩

theorem Kept.trans (d₁ d₂ d₃ : Device) (h : Kept d₁ d₂) (h' : Kept d₂ d₃) : Kept d₁ d₃ :=
  ⟨h'.erased.trans h.erased, h'.table.trans h.table, h'.cur.trans h.cur, h'.max.trans h.max,
    h'.mask.trans h.mask⟩

/-- A write does not read the table. -/
def NoTable {α : Type} (r : Except Halt α) : Prop := ∀ halt, r = .error halt → halt.fault ≠ .table

theorem noTable_ok {α : Type} (a : α) : NoTable (.ok a) := by
  intro halt h
  cases h

theorem noTable_error {α : Type} {fault : Fault} (h : fault ≠ .table) (d : Device) :
    NoTable (.error ⟨fault, d⟩ : Except Halt α) := by
  intro halt hhalt
  cases hhalt
  exact h

theorem NoTable.map {α β : Type} {x : Except Halt α} (h : NoTable x) (f : α → β) :
    NoTable (x.map f) := by
  intro halt hx
  exact h halt (map_eq_error.mp hx)

theorem NoTable.bind {α β : Type} {x : Except Halt α} {f : α → Except Halt β} (hx : NoTable x)
    (hf : ∀ a, x = .ok a → NoTable (f a)) : NoTable (x >>= f) := by
  intro halt h
  rcases bind_eq_error.mp h with herr | ⟨a, ha, herr⟩
  · exact hx halt herr
  · exact hf a ha halt herr

theorem deviceWrite_kept (left : Nat) (answer : Nat → Option (UInt8 × UInt8))
    (buffer : Nat → UInt8) (length : UInt32) (d : Device) :
    Kept d (endOf Prod.snd (deviceWrite left answer buffer length d)) ∧
      NoTable (deviceWrite left answer buffer length d) := by
  unfold deviceWrite
  dsimp only
  split_ifs with hpage hleft hsect
  · exact ⟨Kept.refl d, noTable_error (by decide) _⟩
  · exact ⟨⟨rfl, rfl, rfl, rfl, rfl⟩, noTable_ok _⟩
  · exact ⟨⟨rfl, rfl, rfl, rfl, rfl⟩, noTable_ok _⟩
  · exact ⟨⟨rfl, rfl, rfl, rfl, rfl⟩, noTable_error (by decide) _⟩
  · split
    · exact ⟨⟨rfl, rfl, rfl, rfl, rfl⟩, noTable_error (by decide) _⟩
    · split_ifs <;> exact ⟨⟨rfl, rfl, rfl, rfl, rfl⟩, noTable_ok _⟩

theorem fuzeLoop_kept (program : Nat → Nat → Option (UInt8 × UInt8)) (coolSize : Bool)
    (rs : List Read) (k errorFlag : Nat) (d : Device) :
    Kept d (endOf Ended.device (fuzeLoop program coolSize rs k errorFlag d)) ∧
      NoTable (fuzeLoop program coolSize rs k errorFlag d) := by
  induction rs generalizing k errorFlag d with
  | nil => exact ⟨Kept.refl d, noTable_ok _⟩
  | cons r rs ih =>
    obtain ⟨hkept, hfault⟩ := deviceWrite_kept 0 (program k) r.buffer r.len d
    have hnext : ∀ w : Int × Device,
        let next := afterWrite r d w
          (fuzeLoop program coolSize rs (k + 1) (nextFlag r errorFlag) w.2)
        Kept w.2 (endOf Ended.device next) ∧ NoTable next := by
      intro w
      obtain ⟨hrest, hfaultRest⟩ := ih (k + 1) (nextFlag r errorFlag) w.2
      unfold afterWrite
      dsimp only
      split_ifs
      · exact ⟨Kept.refl w.2, noTable_ok _⟩
      · rw [endOf_map]
        exact ⟨hrest, hfaultRest.map _⟩
    unfold fuzeLoop
    split_ifs
    · exact ⟨Kept.refl d, noTable_ok _⟩
    · exact ⟨Kept.refl d, noTable_ok _⟩
    · exact ⟨Kept.refl d, noTable_ok _⟩
    · exact ⟨endOf_bind Kept.trans hkept fun w _ => (hnext w).1,
        hfault.bind fun w _ => (hnext w).2⟩

end Cflash
