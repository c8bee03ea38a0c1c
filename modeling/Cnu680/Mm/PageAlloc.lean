import Cnu680.Framework.Exec
import Mathlib.Data.List.FinRange
import Mathlib.Logic.Function.Basic

/-! # The page allocator (page_alloc2.c)

Memory is one bit map, one bit a page, set while the page is reserved or
allocated. The ARM940 can only say of a whole region whether it is
cached, so the pages are divided into six regions: region 0 is cached,
region 1, at the top, is for DMA, and the four regions between them are
free for either use. A region that is needed is linked to the end of the
chain of its kind (from region 0 or from region 1), and is taken out of
it when its last page is freed.

* **Layout**: the regions, by address and by page.
* **Search**: `find_next_zero_bit`, and the two scans of a region.
* **Region chains**: the gotos of `__get_contiguous_pages` from one
  region to the next, with the claiming of regions.
* **Allocation and release**: `__get_contiguous_pages`,
  `free_contiguous_pages`, and the start of the system.
* **The system**: any number of callers. A call searches with interrupts
  off, so one search is one step; a call that finds nothing reclaims
  memory and searches again, up to three times, and anything may happen
  in between.
-/

open Framework Function

namespace PageAlloc

/-! ## Layout -/

/-- `NUM_REGION` regions. -/
abbrev Region := Fin 6

/-- `PAGE_SIZE`, with `PAGE_SHIFT` 12. -/
def PAGE_SIZE : ℕ := 0x1000

/-- `MAP_NR`: the page of an address. Memory starts at address 0. -/
def mapNr (addr : ℕ) : ℕ := addr / PAGE_SIZE

/-- `page_address`, `ADDRESS`. -/
def pageAddress (page : ℕ) : ℕ := page * PAGE_SIZE

/-- `DRAM_SIZE`, `ARM940_DMA_REGION_SIZE` and `ARM940_REGION_SIZE` of a
configuration. All are multiples of eight pages, and region 0 is not
empty. -/
structure Layout where
  dramSize : ℕ
  dmaRegionSize : ℕ
  regionSize : ℕ
  dram_dvd : 8 * PAGE_SIZE ∣ dramSize
  dma_dvd : 8 * PAGE_SIZE ∣ dmaRegionSize
  region_dvd : 8 * PAGE_SIZE ∣ regionSize
  dma_pos : 0 < dmaRegionSize
  region_pos : 0 < regionSize
  fits : dmaRegionSize + 4 * regionSize < dramSize
  dram_lt : dramSize < 0x100000000

namespace Layout

/-- The configuration in `.config`: 16 MB, of which 2 MB for DMA and four
regions of 512 KB. -/
def s3c2510 : Layout where
  dramSize := 0x01000000
  dmaRegionSize := 0x200000
  regionSize := 0x080000
  dram_dvd := by decide
  dma_dvd := by decide
  region_dvd := by decide
  dma_pos := by decide
  region_pos := by decide
  fits := by decide
  dram_lt := by decide

variable (L : Layout)

/-- `REGIONn_BEGIN_ADDR`. -/
def beginAddr : Region → ℕ
  | 0 => 0
  | 1 => L.dramSize - L.dmaRegionSize
  | 2 => L.dramSize - L.dmaRegionSize - L.regionSize
  | 3 => L.dramSize - L.dmaRegionSize - L.regionSize - L.regionSize
  | 4 => L.dramSize - L.dmaRegionSize - L.regionSize - L.regionSize - L.regionSize
  | 5 => L.dramSize - L.dmaRegionSize - L.regionSize - L.regionSize - L.regionSize - L.regionSize

/-- `REGIONn_END_ADDR`. -/
def endAddr : Region → ℕ
  | 0 => L.beginAddr 5
  | 1 => L.dramSize
  | 2 => L.beginAddr 1
  | 3 => L.beginAddr 2
  | 4 => L.beginAddr 3
  | 5 => L.beginAddr 4

/-- `fixed_range[g].startOfAllocBitMap`. -/
def startOfAllocBitMap (g : Region) : ℕ := mapNr (L.beginAddr g)

/-- `fixed_range[g].endOfAllocBitMap`. -/
def endOfAllocBitMap (g : Region) : ℕ := mapNr (L.endAddr g)

/-- `bit_map_size`, the number of pages. -/
def bitMapSize : ℕ := mapNr L.dramSize

/-- `PAGES_IN_A_REGION`. -/
def pagesInARegion : ℕ := L.regionSize / 0x1000

/-- The region an address is in, as `free_contiguous_pages` finds it. -/
def regionOf (addr : ℕ) : Region :=
  if L.beginAddr 3 ≤ addr then
    if L.beginAddr 1 ≤ addr then 1 else if L.beginAddr 2 ≤ addr then 2 else 3
  else
    if addr < L.endAddr 0 then 0 else if addr < L.endAddr 5 then 5 else 4

end Layout

/-! ## State -/

/-- `in_use`: `NOT_ALLOCATED_REGION`, `ALLOCATION_DMA`,
`ALLOCATION_CACHEABLE`. -/
inductive InUse where
  | notAllocated
  | dma
  | cacheable
  deriving DecidableEq, Repr

/-- The number the source has for it. -/
def InUse.code : InUse → ℕ
  | .notAllocated => 0
  | .dma => 1
  | .cacheable => 2

/-- `fixed_region`, one function a field. No link is 0xff in the source.
`used_pages` of regions 0 and 1 is only ever added to, and never read. -/
structure Regions where
  usedPages : Region → Int
  link : Region → Option Region
  inUse : Region → InUse
  /-- The calls of `arm940_change_region` so far, the last one first. -/
  changes : List (Region × ℕ)

/-- The bit map, the page counts, the low-water mark and the number of free
pages. The map is a function of all bit numbers: `find_next_zero_bit` may
read a byte after the last page. -/
structure Pages where
  bitMap : ℕ → Bool
  count : ℕ → Int
  firstUsablePage : ℕ
  nrFreePages : ℕ

structure Alloc where
  pages : Pages
  regions : Regions

/-- What is asked of `__get_contiguous_pages`: of `gfp_mask` only `GFP_DMA`
is read. -/
structure Request where
  dma : Bool
  numAdjpages : ℕ
  alignOrder : ℕ
  num_pos : 0 < numAdjpages

/-- A loop has not come to an end. -/
inductive Hang where
  | hang
  deriving DecidableEq, Repr

/-! ## Search in the bit map -/

/-- The `n` bits from bit `i` on, as a number. -/
def bitsAt (map : ℕ → Bool) (i : ℕ) : ℕ → ℕ
  | 0 => 0
  | n + 1 => (map i).toNat + 2 * bitsAt map (i + 1) n

/-- `ldrb`: a byte of the map. -/
def ldrb (map : ℕ → Bool) (byte : ℕ) : ℕ := bitsAt map (8 * byte) 8

/-- `.found`: the number of the lowest bit set in `r3`, counted from `r2`. -/
def foundBit (r3 r2 : ℕ) : ℕ :=
  let (r3, r2) := if r3 &&& 0x0f = 0 then (r3, r2 + 4) else (r3 <<< 4, r2)
  let (r3, r2) := if r3 &&& 0x30 = 0 then (r3, r2 + 2) else (r3 <<< 2, r2)
  if r3 &&& 0x40 = 0 then r2 + 1 else r2

/-- Label `1:` of `find_next_zero_bit`: byte after byte. The first byte is
looked at even if it lies after `maxbit`. -/
def findByte (map : ℕ → Bool) (maxbit : ℕ) : ℕ → ℕ → ℕ
  | 0, _ => maxbit + 1
  | k + 1, r2 =>
    let r3 := ldrb map (r2 >>> 3) ^^^ 0xff
    if r3 ≠ 0 then foundBit r3 r2
    else if r2 + 8 < maxbit then findByte map maxbit k (r2 + 8) else maxbit + 1

/-- `find_next_zero_bit(map, maxbit, offset)`. -/
def findNextZeroBit (map : ℕ → Bool) (maxbit offset : ℕ) : ℕ :=
  let ip := offset &&& 7
  if ip = 0 then findByte map maxbit (maxbit + 1) offset
  else
    let r3 := (ldrb map (offset >>> 3) ^^^ 0xff) >>> ip
    if r3 ≠ 0 then foundBit r3 offset
    else findByte map maxbit (maxbit + 1) ((offset ||| 7) + 1)

/-- `for (n = 0; n < num; n++, p++) if (test_bit(p)) break;` -/
def freeRun (map : ℕ → Bool) (p : ℕ) : ℕ → ℕ
  | 0 => 0
  | k + 1 => if map p then 0 else freeRun map (p + 1) k + 1

/-- `page_address(p) & ((PAGE_SIZE << align_order) - 1)`, in 32 bits. -/
def misaligned (p alignOrder : ℕ) : Bool :=
  pageAddress p &&&
    (((PAGE_SIZE <<< alignOrder) % 0x100000000 + 0x100000000 - 1) % 0x100000000) != 0

/-- `n` after page `ff` has been tried. -/
def tryPage (map : ℕ → Bool) (req : Request) (ff : ℕ) : ℕ :=
  if misaligned ff req.alignOrder then 0 else freeRun map ff req.numAdjpages

/-- The scan for up to `SMALL_ALLOC_PAGES` pages: windows of eight pages,
from the end of the region backwards. `little_alloc` is compared as an
unsigned number. -/
def smallScan (map : ℕ → Bool) (req : Request) (start stop : ℕ) :
    ℕ → ℕ → Except Hang (Option ℕ)
  | 0, _ => .error .hang
  | k + 1, littleAlloc =>
    if start ≤ littleAlloc then
      -- the limit of 0 stops the search after one byte, with 1 as the result
      let ff := findNextZeroBit map 0 littleAlloc
      if ff + req.numAdjpages ≤ stop ∧ req.numAdjpages ≤ tryPage map req ff then .ok (some ff)
      else smallScan map req start stop k ((littleAlloc + 0x100000000 - 8) % 0x100000000)
    else .ok none

/-- The scan for more pages: first fit. -/
def largeScan (map : ℕ → Bool) (req : Request) (stop : ℕ) : ℕ → ℕ → Except Hang (Option ℕ)
  | 0, _ => .error .hang
  | k + 1, ff =>
    if ff + req.numAdjpages ≤ stop then
      let n := tryPage map req ff
      if req.numAdjpages ≤ n then .ok (some ff)
      else largeScan map req stop k (findNextZeroBit map stop (ff + n + 1))
    else .ok none

/-- The scan of one region. There are at most `stop / 8` windows, and `ff`
grows from round to round. -/
def scan (map : ℕ → Bool) (req : Request) (start stop : ℕ) : Except Hang (Option ℕ) :=
  if req.numAdjpages ≤ 2 then
    smallScan map req start stop (stop / 8 + 1) ((stop + 0x100000000 - 8) % 0x100000000)
  else largeScan map req stop (stop + 2) (findNextZeroBit map stop start)

/-! ## Region chains -/

/-- Where `__get_contiguous_pages` is, with its `gLink`. -/
inductive Label where
  /-- `scan_again2`, about to scan the region from `startOfAllocBitMap` on. -/
  | scanAgain2 (gLink : Region) (startOfAllocBitMap : ℕ)
  | scanRegionLink (gLink : Region)
  /-- `n >= num_adjpages`: the pages from `ff` on. -/
  | found (gLink : Region) (ff : ℕ)
  /-- No more memory at all. -/
  | noMemory
  deriving DecidableEq, Repr

/-- `START_LINK_DMA`, `START_LINK_CACHEABLE`: where a search starts. -/
def chainHead (dma : Bool) : Region := if dma then 1 else 0

/-- `scan_again`: from the start of the region. -/
def scanAgain (L : Layout) (g : Region) : Label := .scanAgain2 g (L.startOfAllocBitMap g)

namespace Regions

/-- The first region that is not in use: from region 2 up for DMA, from
region 5 down otherwise. -/
def findUnused (rs : Regions) (dma : Bool) : Option Region :=
  (if dma then [2, 3, 4, 5] else [5, 4, 3, 2]).find? fun i => rs.inUse i = .notAllocated

/-- Region `i` is linked after `g`, for the use `g` has, and told to the
processor. -/
def claim (rs : Regions) (g i : Region) : Regions :=
  { usedPages := update rs.usedPages i 0
    link := update (update rs.link g (some i)) i none
    inUse := update rs.inUse i (rs.inUse g)
    changes := (i, ((rs.inUse g).code + 0x100000000 - 1) % 0x100000000) :: rs.changes }

/-- The first region linked to `g` gets the link of `g`, and `g` has none. -/
def unlink (rs : Regions) (g : Region) : Regions :=
  match (List.finRange 6).find? fun i => rs.link i = some g with
  | some i =>
    { rs with link := update (update rs.link i (rs.link g)) g none }
  | none => { rs with link := update rs.link g none }

/-- `num` pages of `g` are free again; with none left the region is free. The
source has this twice, for regions 2 and 3 and for regions 4 and 5. -/
def putPages (rs : Regions) (g : Region) (num : ℕ) : Regions :=
  let used := rs.usedPages g - num
  let rs := { rs with usedPages := update rs.usedPages g used }
  if used ≤ 0 then unlink { rs with inUse := update rs.inUse g .notAllocated } g else rs

/-- The accounting of `free_contiguous_pages`. -/
def freed (L : Layout) (rs : Regions) (addr num : ℕ) : Regions :=
  match L.regionOf addr with
  | 0 => rs
  | 1 => rs
  | g => rs.putPages g num

end Regions

/-- One goto of `__get_contiguous_pages`. -/
def goto (L : Layout) (map : ℕ → Bool) (req : Request) (rs : Regions) :
    Label → Except Hang (Regions × Label)
  | .scanAgain2 g start =>
    scan map req start (L.endOfAllocBitMap g) >>= fun
      | some ff => .ok (rs, .found g ff)
      | none => .ok (rs, .scanRegionLink g)
  | .scanRegionLink g =>
    match rs.link g with
    | some l =>
      -- unsigned: the sum of an int and an unsigned long
      if (rs.usedPages l + req.numAdjpages) % 0x100000000 < L.pagesInARegion then
        .ok (rs, scanAgain L l)
      else .ok (rs, .scanRegionLink l)
    | none =>
      match rs.findUnused req.dma with
      | some i => .ok (rs.claim g i, scanAgain L i)
      | none =>
        if rs.inUse g = .cacheable then .ok (rs, scanAgain L 1) else .ok (rs, .noMemory)
  | l => .ok (rs, l)

/-- The gotos up to the end of the search, at most `k` of them. -/
def search (L : Layout) (map : ℕ → Bool) (req : Request) :
    ℕ → Regions → Label → Except Hang (Regions × Option (Region × ℕ))
  | 0, _, _ => .error .hang
  | _ + 1, rs, .found g ff => .ok (rs, some (g, ff))
  | _ + 1, rs, .noMemory => .ok (rs, none)
  | k + 1, rs, l => goto L map req rs l >>= fun x => search L map req k x.1 x.2

/-- The first label: DMA memory is only looked for from region 1 on, other
memory from the first usable page on. -/
def firstLabel (L : Layout) (req : Request) (firstUsablePage : ℕ) : Label :=
  if req.dma then scanAgain L 1 else .scanAgain2 0 firstUsablePage

/-- Two gotos for each of the six regions, and the end. -/
def maxGotos : ℕ := 13

/-! ## Allocation and release -/

namespace Pages

/-- One page is handed out. -/
def take (pg : Pages) (p : ℕ) : Pages :=
  { pg with count := update pg.count p 1, bitMap := update pg.bitMap p true }

/-- `num` pages from `ff` on are handed out, the last one first. -/
def takeRun (pg : Pages) (ff num : ℕ) : Pages :=
  (List.range' ff num).foldr (fun p pg => pg.take p)
    { pg with nrFreePages := pg.nrFreePages - num }

/-- One page is free again. -/
def put (pg : Pages) (p : ℕ) : Pages :=
  { firstUsablePage := if p < pg.firstUsablePage then p else pg.firstUsablePage
    bitMap := update pg.bitMap p false
    count := update pg.count p 0
    nrFreePages := pg.nrFreePages + 1 }

/-- `num` pages from `p` on are free again. -/
def putRun (pg : Pages) (p num : ℕ) : Pages := (List.range' p num).foldl put pg

/-- `set_page_count`. -/
def setCount (pg : Pages) (p : ℕ) (n : Int) : Pages :=
  { pg with count := update pg.count p n }

end Pages

namespace Alloc

/-- `__get_contiguous_pages` from `repeat:` on, once: the address of the
first page, if there are such pages. -/
def getContiguousPages (L : Layout) (a : Alloc) (req : Request) :
    Except Hang (Alloc × Option ℕ) :=
  if req.numAdjpages ≤ a.pages.nrFreePages then
    search L a.pages.bitMap req maxGotos a.regions
        (firstLabel L req a.pages.firstUsablePage) >>= fun
      | (rs, some (g, ff)) =>
        let used := rs.usedPages g + req.numAdjpages
        .ok ({ pages := a.pages.takeRun ff req.numAdjpages
               regions := { rs with usedPages := update rs.usedPages g used } },
          some (pageAddress ff))
      | (rs, none) => .ok ({ a with regions := rs }, none)
  else .ok (a, none)

/-- `free_contiguous_pages`. -/
def freeContiguousPages (L : Layout) (a : Alloc) (addr num : ℕ) : Alloc :=
  let p := mapNr addr
  if p < L.bitMapSize then
    -- put_page_testzero
    let pages := a.pages.setCount p (a.pages.count p - 1)
    if pages.count p ≠ 0 then { a with pages := pages }
    else { pages := pages.putRun p num, regions := a.regions.freed L addr num }
  else a

/-- The uses at the start. -/
def initialUse : Region → InUse
  | 0 => .cacheable
  | 1 => .dma
  | _ => .notAllocated

/-- `free_area_init_core`: every page is reserved. `rest` is the memory after
the bit map. -/
def freeAreaInit (L : Layout) (rest : ℕ → Bool) : Alloc where
  pages :=
    { bitMap := fun i => if i < L.bitMapSize then true else rest i
      count := fun _ => 0
      firstUsablePage := L.bitMapSize
      nrFreePages := 0 }
  regions :=
    { usedPages := fun _ => 0
      link := fun _ => none
      inUse := initialUse
      changes := [] }

/-- `free_all_bootmem` frees a page that is not reserved. -/
def freeBootPage (L : Layout) (a : Alloc) (p : ℕ) : Alloc :=
  freeContiguousPages L { a with pages := a.pages.setCount p 1 } (pageAddress p) 1

end Alloc

/-- The pages that are free after the start. Pages 0 and 1 are not. -/
structure BootPages (L : Layout) where
  pages : List ℕ
  nodup : pages.Nodup
  mem_bound : ∀ p ∈ pages, 2 ≤ p ∧ p < L.bitMapSize

/-! ## The system -/

/-- Pages handed out by one call. -/
structure Run where
  start : ℕ
  num : ℕ
  dma : Bool
  deriving DecidableEq, Repr

/-- A call of `__get_contiguous_pages` in progress; `memalloc` is the flag
`PF_MEMALLOC` of the caller. -/
structure Call where
  req : Request
  memalloc : Bool
  repeats : ℕ

/-- `returned` is what the last call of a caller returned. `live` is a ghost:
the runs that have been handed out and not been freed. -/
structure System (P : Type) where
  alloc : Alloc
  call : P → Option Call
  returned : P → ℕ
  live : List Run

inductive Event (P : Type) where
  /-- `__get_contiguous_pages` is called. -/
  | enter (p : P) (req : Request) (memalloc : Bool)
  /-- One search of the call of `p`. -/
  | pass (p : P)
  /-- `get_page` on the first page of a run. -/
  | getPage (r : Run)
  /-- `free_contiguous_pages` for a run. -/
  | free (r : Run)

/-- Why a run of the system stops. -/
inductive Stop where
  /-- Not a call that can be made. -/
  | impossible
  | hang
  deriving DecidableEq, Repr

section
variable {P : Type} [DecidableEq P]

/-- The call of `p` returns. -/
def System.ret (s : System P) (p : P) (value : ℕ) : System P :=
  { s with call := update s.call p none, returned := update s.returned p value }

/-- What follows a search of the call `c` of `p`. -/
def System.passed (s : System P) (p : P) (c : Call) : Alloc × Option ℕ → System P
  | (a, some addr) =>
    { s with alloc := a
             live := ⟨mapNr addr, c.req.numAdjpages, c.req.dma⟩ :: s.live }.ret p addr
  | (a, none) =>
    let s := { s with alloc := a }
    if c.memalloc then s.ret p 0
    else if c.repeats < 3 then
      -- find_some_memory: what it frees are events of their own
      { s with call := update s.call p (some { c with repeats := c.repeats + 1 }) }
    else s.ret p 0

/-- A run is live until the count of its first page is 0. -/
def System.free (L : Layout) (s : System P) (r : Run) : System P :=
  { s with alloc := s.alloc.freeContiguousPages L (pageAddress r.start) r.num
           live := if s.alloc.pages.count r.start = 1 then s.live.erase r else s.live }

def step (L : Layout) (s : System P) : Event P → Except Stop (System P)
  | .enter p req memalloc =>
    if s.call p |>.isSome then .error .impossible
    else .ok { s with call := update s.call p (some ⟨req, memalloc, 0⟩) }
  | .pass p =>
    match s.call p with
    | none => .error .impossible
    | some c =>
      match s.alloc.getContiguousPages L c.req with
      | .error _ => .error .hang
      | .ok x => .ok (s.passed p c x)
  | .getPage r =>
    if r ∈ s.live then
      let pages := s.alloc.pages.setCount r.start (s.alloc.pages.count r.start + 1)
      .ok { s with alloc := { s.alloc with pages := pages } }
    else .error .impossible
  | .free r => if r ∈ s.live then .ok (s.free L r) else .error .impossible

/-- The system after the start. -/
def booted (L : Layout) (rest : ℕ → Bool) (boot : BootPages L) : System P where
  alloc := boot.pages.foldl (Alloc.freeBootPage L) (Alloc.freeAreaInit L rest)
  call := fun _ => none
  returned := fun _ => 0
  live := []

end

end PageAlloc
