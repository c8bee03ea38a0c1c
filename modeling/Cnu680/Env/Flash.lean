import Cnu680.Framework.Cells
import Cnu680.Framework.Exec

/-! # The Flash under the Environment

The flash functions of `drivers/char/envm-s3c2510_4M.c`: `addr2info`,
`write_word`, `write_buff`, `flash_write`, `flash_erase`,
`flash_sect_erase` and `flash_init`, with one bank.

The chip answers each halfword that is programmed and each erase:
programming clears the bits that are 0 in the data, or leaves anything
(`Answers`). A halfword access at an odd address is a fault. -/

open Framework

namespace Envm

/-! ## The bank -/

/-- `flash_info_t`: for each sector its start address and its protection. -/
structure FlashInfo where
  size : UInt32
  flashId : UInt32
  sectors : List (UInt32 × UInt8)

def FLASH_UNKNOWN : UInt32 := 0xFFFF
def FLASH_VENDMASK : UInt32 := 0xFFFF0000
def FLASH_TYPEMASK : UInt32 := 0x0000FFFF
def SAMSUNG_MANUFACT : UInt32 := 0x00EC00EC
def SAMSUNG_ID_K8B1616UBA : UInt32 := 0x22452245

def ERR_OK : Int := 0
def ERR_PROTECTED : Int := -3
def ERR_INVAL : Int := -4
def ERR_ALIGN : Int := -5
def ERR_UNKNOWN_FLASH_VENDOR : Int := -6
def ERR_UNKNOWN_FLASH_TYPE : Int := -7
def ERR_PROG_ERROR : Int := -8

/-- `start[i]` and `protect[i]`. -/
def FlashInfo.start (info : FlashInfo) (i : Nat) : UInt32 := (info.sectors.getD i (0, 0)).1
def FlashInfo.protect (info : FlashInfo) (i : Nat) : UInt8 := (info.sectors.getD i (0, 0)).2

/-- The address behind a sector: the start of the next one, or the end of the
bank. -/
def FlashInfo.behind (info : FlashInfo) (i : Nat) : UInt32 :=
  if i + 1 = info.sectors.length then info.start 0 + info.size else info.start (i + 1)

/-- `addr2info`: whether the bank is the one with the address. -/
def addr2info (info : FlashInfo) (addr : UInt32) : Bool :=
  info.flashId ≠ FLASH_UNKNOWN ∧ info.start 0 ≤ addr ∧ addr ≤ info.start 0 + info.size - 1

/-- `flash_init` for the board 2510REF. -/
def flashInit : FlashInfo where
  size := 0x400000
  flashId := (SAMSUNG_MANUFACT &&& FLASH_VENDMASK) ||| (SAMSUNG_ID_K8B1616UBA &&& FLASH_TYPEMASK)
  sectors := (List.range 71).map fun j =>
    (0x80000000 + (if j ≤ 7 then UInt32.ofNat j * 0x2000 else UInt32.ofNat (j - 7) * 0x10000), 0)

/-! ## The chip -/

/-- What ends a call in the middle. -/
inductive FlashFault where
  /-- A halfword at an odd address. -/
  | misaligned
  /-- An erase that is waited for in vain. -/
  | endless
  deriving DecidableEq

/-- How the chip answers: the halfword that programming leaves if it fails, and
whether an erase ends. -/
structure Answers where
  program : Nat → Option UInt16
  erase : Nat → Bool

/-- The contents, and how many halfwords and sectors were worked on. -/
structure Chip where
  cells : Nat → UInt8
  programs : Nat
  erases : Nat

/-- A halfword and its bytes. -/
def half (lo hi : UInt8) : UInt16 := UInt16.ofNat (lo.toNat + 256 * hi.toNat)
def low (w : UInt16) : UInt8 := UInt8.ofNat w.toNat
def high (w : UInt16) : UInt8 := UInt8.ofNat (w.toNat / 256)

/-- The two bytes after the halfword at `dest` has been programmed. -/
def programmed (answer : Option UInt16) (cells : Nat → UInt8) (dest : Nat) (data : UInt16) :
    List UInt8 :=
  match answer with
  | none => [cells dest &&& low data, cells (dest + 1) &&& high data]
  | some w => [low w, high w]

def Chip.program (chip : Chip) (ans : Answers) (dest : Nat) (data : UInt16) : Chip where
  cells := overlay chip.cells dest (programmed (ans.program chip.programs) chip.cells dest data)
  programs := chip.programs + 1
  erases := chip.erases

/-! ## Writing -/

/-- `FlashCompareData`: `SrcSize` is in bytes. -/
def flashCompareData (cells : Nat → UInt8) (baseAddr : Nat) (src : List UInt16) (srcSize : Nat) :
    Int :=
  if (List.range (srcSize / 2)).all fun i =>
      half (cells (baseAddr + 2 * i)) (cells (baseAddr + 2 * i + 1)) == src.getD i 0 then ERR_OK
  else ERR_PROG_ERROR

/-- `write_word`. The comparison is given the size 1. -/
def writeWord (ans : Answers) (chip : Chip) (dest : Nat) (data : UInt16) :
    Except FlashFault (Int × Chip) :=
  if dest % 2 ≠ 0 then .error .misaligned
  else
    let chip' := chip.program ans dest data
    if flashCompareData chip'.cells dest [data] 1 ≠ ERR_OK then .ok (ERR_PROG_ERROR, chip')
    else .ok (ERR_OK, chip')

/-- `data = (data >> 8) | (b << 24)`, where `data` has 16 bits. -/
def shiftIn (data : UInt16) (b : UInt8) : UInt16 :=
  ((data.toUInt32 >>> 8) ||| (b.toUInt32 <<< 24)).toUInt16

/-- The word for the unaligned start: `l` bytes of the flash, `n` of the source,
and bytes of the flash again. -/
def headWord (cells : Nat → UInt8) (src : List UInt8) (wp l n : Nat) : UInt16 :=
  (segment cells wp l ++ src.take n ++ segment cells (wp + l + n) (4 - l - n)).foldl shiftIn 0

/-- The word for the unaligned tail. -/
def tailWord (cells : Nat → UInt8) (src : List UInt8) (wp : Nat) : UInt16 :=
  (src.take 1 ++ segment cells (wp + 1) 3).foldl shiftIn 0

/-- The rounds of the word loop of `write_buff`. The source begins at the
address `sa`. -/
def wordLoop (ans : Answers) : Nat → Nat → List UInt8 → Nat → Chip →
    Except FlashFault (Int × Chip)
  | 0, _, _, _, chip => .ok (ERR_OK, chip)
  | n + 1, sa, src, addr, chip =>
    if sa % 2 ≠ 0 then .error .misaligned
    else
      writeWord ans chip addr (half (src.getD 0 0) (src.getD 1 0)) >>= fun p =>
        if p.1 ≠ ERR_OK then .ok p else wordLoop ans n (sa + 2) (src.drop 2) (addr + 2) p.2

/-- The word loop and the tail. `wp` is not moved by the loop. -/
def writeRest (ans : Answers) (chip : Chip) (sa : Nat) (src : List UInt8) (addr wp cnt : Nat) :
    Except FlashFault (Int × Chip) :=
  wordLoop ans (cnt / 2) sa src addr chip >>= fun p =>
    if p.1 ≠ ERR_OK ∨ cnt % 2 = 0 then .ok p
    else writeWord ans p.2 wp (tailWord p.2.cells (src.drop (2 * (cnt / 2))) wp)

/-- `write_buff`. -/
def writeBuff (ans : Answers) (chip : Chip) (sa : Nat) (src : List UInt8) (addr cnt : Nat) :
    Except FlashFault (Int × Chip) :=
  let l := addr % 4
  let wp := addr - l
  let n := min (4 - l) cnt
  if l = 0 then writeRest ans chip sa src addr wp cnt
  else
    writeWord ans chip wp (headWord chip.cells src wp l n) >>= fun p =>
      if p.1 ≠ ERR_OK then .ok p
      else writeRest ans p.2 (sa + n) (src.drop n) addr (wp + 4) (cnt - n)

/-- Whether a protected sector overlaps the range from `addr` to `last`. -/
def hasProtected (info : FlashInfo) (addr last : UInt32) : Bool :=
  (List.range info.sectors.length).any fun i =>
    info.start i ≤ last ∧ addr < info.behind i ∧ info.protect i ≠ 0

/-- How much of `cnt` is in the bank. -/
def bankLen (info : FlashInfo) (addr cnt : UInt32) : UInt32 :=
  if cnt < info.start 0 + info.size - addr then cnt else info.start 0 + info.size - addr

/-- `flash_write`: `cnt` bytes at the address `sa` to the address `addr`. -/
def flashWrite (info : FlashInfo) (ans : Answers) (chip : Chip) (sa : Nat) (src : List UInt8)
    (addr cnt : UInt32) : Except FlashFault (Int × Chip) :=
  if cnt = 0 then .ok (ERR_OK, chip)
  else if ¬ (addr2info info addr ∧ addr2info info (addr + cnt - 1)) then .ok (ERR_INVAL, chip)
  else if hasProtected info addr (addr + cnt - 1) then .ok (ERR_PROTECTED, chip)
  else writeBuff ans chip sa src addr.toNat (bankLen info addr cnt).toNat

/-! ## Erasing -/

/-- The chip after a sector has been erased. -/
def Chip.erase (chip : Chip) (info : FlashInfo) (sect : Nat) : Chip where
  cells x :=
    if (info.start sect).toNat ≤ x ∧ x ≤ (info.behind sect - 1).toNat then 0xFF else chip.cells x
  programs := chip.programs
  erases := chip.erases + 1

/-- One sector, with the wait for its end. -/
def eraseSector (info : FlashInfo) (ans : Answers) (chip : Chip) (sect : Nat) :
    Except FlashFault Chip :=
  if ans.erase chip.erases then .ok (chip.erase info sect) else .error .endless

/-- The erasing loop of `flash_erase`. -/
def eraseLoop (info : FlashInfo) (ans : Answers) : Nat → Nat → Chip → Except FlashFault Chip
  | 0, _, chip => .ok chip
  | n + 1, sect, chip =>
    eraseSector info ans chip sect >>= fun chip => eraseLoop info ans n (sect + 1) chip

/-- `flash_erase`. -/
def flashErase (info : FlashInfo) (ans : Answers) (chip : Chip) (sFirst sLast : Int) :
    Except FlashFault (Int × Chip) :=
  if info.flashId = FLASH_UNKNOWN then .ok (ERR_UNKNOWN_FLASH_TYPE, chip)
  else if sFirst < 0 ∨ sLast < sFirst then .ok (ERR_INVAL, chip)
  else if info.flashId &&& FLASH_VENDMASK ≠ SAMSUNG_MANUFACT &&& FLASH_VENDMASK then
    .ok (ERR_UNKNOWN_FLASH_VENDOR, chip)
  else if (List.range (sLast - sFirst + 1).toNat).any fun k =>
      info.protect (sFirst.toNat + k) ≠ 0 then .ok (ERR_PROTECTED, chip)
  else
    eraseLoop info ans (sLast - sFirst + 1).toNat sFirst.toNat chip >>= fun chip =>
      .ok (ERR_OK, chip)

/-- One round of the search for the first and the last sector. -/
def matchSector (info : FlashInfo) (first last : UInt32) (s : Int × Int) (sect : Nat) :
    Int × Int :=
  if info.behind sect - 1 < first ∨ last < info.start sect then s
  else
    (if first = info.start sect then (sect : Int) else s.1,
      if last = info.behind sect - 1 then (sect : Int) else s.2)

/-- `flash_sect_erase`: the number of erased sectors, or an error. -/
def flashSectErase (info : FlashInfo) (ans : Answers) (chip : Chip) (first last : UInt32) :
    Except FlashFault (Int × Chip) :=
  if info.flashId = FLASH_UNKNOWN then .ok (ERR_OK, chip)
  else
    let s := (List.range info.sectors.length).foldl (matchSector info first last) (-1, -1)
    if 0 ≤ s.1 ∧ s.1 ≤ s.2 then
      flashErase info ans chip s.1 s.2 >>= fun p =>
        .ok (if p.1 ≠ ERR_OK then p.1 else s.2 - s.1 + 1, p.2)
    else .ok (ERR_ALIGN, chip)

end Envm
