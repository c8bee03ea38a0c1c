import Mathlib.Logic.Function.Basic
import Cnu680.Framework.Exec

/-! # mmap without an MMU

`do_mmap_pgoff`, `do_munmap` and `exit_mmap` of `mmnommu/mmap.c`, the two
cramfs operations `cramfs_file_mmap` and `cramfs_file_munmap` they call,
and the ways of `kernel/fork.c` to a new address space.

* A mapping is a *tblock* on the list of an address space. It points to an
  *rblock*, which has the address of the memory (`kblock`) and is counted,
  since tblocks of several address spaces may point to it.
* Of a cramfs file that is not executed in place there is one copy in
  memory. The inode has its address (`i_savedptr`) and the number of
  rblocks that have it (`i_num_mapping`).

The kernel is not preemptive, so a call runs until it sleeps: in `kmalloc`
and in the read of the file. `Op` says where a call sleeps, a step takes
it to its next sleep or to its end, and steps of different address spaces
are taken in any order. `mmap_sem` lets no second call into an address
space.
-/

open Framework Function

namespace Nommu

/-! ## Requests -/

def PAGE_SIZE : UInt32 := 4096
def PAGE_SHIFT : UInt32 := 12
def TASK_SIZE : UInt32 := 0x01a00000

def ENOMEM : Nat := 12
def ENODEV : Nat := 19
def EINVAL : Nat := 22
def ENOSYS : Nat := 38

/-- `PAGE_ALIGN`. -/
def pageAlign (len : UInt32) : UInt32 := (len + (PAGE_SIZE - 1)) &&& ~~~(PAGE_SIZE - 1)

/-- The `struct file` of a request, as far as its operations go. -/
inductive File where
  /-- A file of the cramfs inode; the number is that of the `struct file`. -/
  | cramfs (fd : Nat)
  /-- A file whose `mmap` operation answers -ENOSYS. -/
  | other
  /-- A file without an `mmap` operation. -/
  | noMmap
deriving DecidableEq

/-- The arguments of `do_mmap_pgoff`; of `prot` and `flags` the bits that are
looked at. -/
structure Request where
  file : Option File
  addr : UInt32 := 0
  len : UInt32
  pgoff : UInt32 := 0
  protWrite : Bool := false
  mapPrivate : Bool := false
  mapFixed : Bool := false
deriving DecidableEq

/-- What `do_mmap_pgoff` returns: an address, or an error number. -/
inductive Ret where
  | addr (a : Nat)
  | errno (e : Nat)
deriving DecidableEq

/-- The checks of `do_mmap_pgoff` and `get_unmapped_area`, up to the call of
the file's `mmap` operation. -/
def Request.check (r : Request) : Option Ret :=
  if r.protWrite && r.mapPrivate then some (.errno EINVAL)
  else if r.file = some .noMmap then some (.errno ENODEV)
  else if pageAlign r.len = 0 then some (.addr r.addr.toNat)
  else if TASK_SIZE < r.len then some (.errno EINVAL)
  else if r.pgoff + (r.len >>> PAGE_SHIFT) < r.pgoff then some (.errno EINVAL)
  else if r.mapFixed && (TASK_SIZE - r.len < r.addr || r.addr &&& (PAGE_SIZE - 1) != 0) then
    some (.errno EINVAL)
  else none

/-- The number of the `struct file` of a cramfs request. -/
def Request.fd (r : Request) : Nat :=
  match r.file with
  | some (.cramfs fd) => fd
  | _ => 0

/-! ## The state -/

/-- Where a buffer was filled from: `len` bytes of the cramfs file from `pos`
on. -/
structure Fill where
  pos : Nat
  len : Nat
deriving DecidableEq

/-- `struct mm_rblock_struct`. `f_op` and `mmapped_inode` are those of the
cramfs inode where `is_mmapped` is 1 and NULL otherwise. -/
structure Rblock where
  size : Nat
  refcount : Int
  kblock : Nat
  isMmapped : Bool
deriving DecidableEq

/-- `struct mm_tblock_struct`: its own address, and the rblock it points to. -/
structure Tblock where
  tblock : Nat
  rblock : Nat
deriving DecidableEq

/-- What a block is allocated for. -/
inductive Kind where
  | tblock
  | rblock
  | data
deriving DecidableEq

/-- A block from `kmalloc`. Until a call has linked what it allocates, nobody
else knows of it: the block is `fresh`, and what the call writes there is
written when it is linked. -/
inductive Block (P : Type) where
  | fresh (m : P) (κ : Kind)
  | tblock
  | rblock (b : Rblock)
  /-- What `cramfs_file_mmap` read for all. -/
  | buffer (bytes : List UInt8) (fill : Fill)
  /-- The memory of a mapping of its own; where it was read from, if that is
      the cramfs file. -/
  | copy (bytes : List UInt8) (fill : Option Fill)
deriving DecidableEq

/-- Where a call sleeps. -/
inductive Op (P : Type) where
  | idle
  /-- The address space that a `dup_mmap` is filling. -/
  | unborn
  /-- `cramfs_file_mmap`, in `kmalloc`. -/
  | cramfsKmalloc (r : Request)
  /-- `cramfs_file_mmap`, in the read to `data`. -/
  | cramfsRead (r : Request) (data : Nat)
  /-- `do_mmap_pgoff` after the `mmap` operation, in `kmalloc` for the tblock,
      then for the rblock. -/
  | mapTblock (r : Request) (vmStart : Nat)
  | mapRblock (r : Request) (vmStart tblock : Nat)
  /-- `do_mmap_pgoff` without an `mmap` operation, in `kmalloc` for the tblock,
      the rblock and the memory, then in the read. -/
  | copyTblock (r : Request)
  | copyRblock (r : Request) (tblock : Nat)
  | copyKmalloc (r : Request) (tblock rblock : Nat)
  | copyRead (r : Request) (tblock rblock result : Nat)
  /-- `dup_mmap`, in `kmalloc` for the first tblock of `rest`. -/
  | dup (child : P) (rest : List Tblock)
deriving DecidableEq

/-- An address space; one without users is not in use. -/
structure Mm (P : Type) where
  mmUsers : Nat := 0
  tblock : List Tblock := []
  op : Op P := .idle

/-- The kernel, with one cramfs inode that is not executed in place. -/
structure Kernel (P : Type) where
  mm : P → Mm P
  blocks : Nat → Option (Block P)
  /-- The address of the next block. -/
  next : Nat
  iSavedptr : Nat
  iNumMapping : Int
  iCount : Int
  fPos : Nat → Nat
  realalloc : Int
  askedalloc : Int
  /-- The call of `do_mmap_pgoff` that has just returned. -/
  returned : Option (Request × Ret)

/-- What the kernel is run with: the bytes of the cramfs file, how large a
block `kmalloc` takes for a size, and the flash. -/
structure Env where
  file : List UInt8
  ksize : Nat → Nat
  isInRom : Nat → Bool

/-- What a sleeping call is woken with: whether `kmalloc` found memory, and
what the read comes to. The bytes are those of a file other than the
cramfs file. -/
structure Answer where
  kmalloc : Bool := true
  readErrno : Option Nat := none
  bytes : List UInt8 := []

def sizeofTblock : Nat := 8
def sizeofRblock : Nat := 24

/-- `file->f_op->read` of the cramfs file. -/
def Env.readAt (E : Env) (f : Fill) : List UInt8 := (E.file.drop f.pos).take f.len

/-- The `memset` after a read of fewer bytes than `len`. -/
def zeroFill (len : Nat) (bytes : List UInt8) : List UInt8 :=
  bytes ++ List.replicate (len - bytes.length) 0

/-- What is in a buffer after the read and the `memset`. -/
def Env.filled (E : Env) (f : Fill) : List UInt8 := zeroFill f.len (E.readAt f)

namespace Kernel

variable {P : Type} [DecidableEq P]

/-! ## Blocks -/

def setMm (m : P) (x : Mm P) (k : Kernel P) : Kernel P :=
  { k with mm := update k.mm m x }

def setOp (m : P) (op : Op P) (k : Kernel P) : Kernel P := k.setMm m { k.mm m with op := op }

def setTblock (m : P) (ts : List Tblock) (k : Kernel P) : Kernel P :=
  k.setMm m { k.mm m with tblock := ts }

/-- A `kmalloc` that finds memory; the address is `k.next`. -/
def kmalloc (b : Block P) (k : Kernel P) : Kernel P :=
  { k with blocks := update k.blocks k.next (some b), next := k.next + 1 }

def put (a : Nat) (b : Block P) (k : Kernel P) : Kernel P :=
  { k with blocks := update k.blocks a (some b) }

def kfree (a : Nat) (k : Kernel P) : Kernel P :=
  { k with blocks := update k.blocks a none }

/-- The two totals. -/
def account (real asked : Int) (k : Kernel P) : Kernel P :=
  { k with realalloc := k.realalloc + real, askedalloc := k.askedalloc + asked }

/-- The call of `m` ends. -/
def ret (m : P) (r : Request) (v : Ret) (k : Kernel P) : Kernel P :=
  { k.setOp m .idle with returned := some (r, v) }

def rblockAt (a : Nat) (k : Kernel P) : Option Rblock :=
  match k.blocks a with
  | some (.rblock b) => some b
  | _ => none

/-! ## cramfs -/

/-- `saved_ptr:` of `cramfs_file_mmap`, and back in `do_mmap_pgoff`. -/
def cramfsSavedPtr (m : P) (r : Request) (k : Kernel P) : Kernel P :=
  { k with iNumMapping := k.iNumMapping + 1 }.setOp m (.mapTblock r k.iSavedptr)

/-- `cramfs_file_mmap`, up to its `kmalloc`. -/
def cramfsFileMmap (m : P) (r : Request) (k : Kernel P) : Kernel P :=
  if k.iSavedptr ≠ 0 then k.cramfsSavedPtr m r
  else k.setOp m (.cramfsKmalloc r)

/-- The file position after a read of `n` bytes. -/
def advance (fd n : Nat) (k : Kernel P) : Kernel P :=
  { k with fPos := update k.fPos fd (k.fPos fd + n) }

/-- The fields of the inode after the first read. -/
def savePtr (data : Nat) (k : Kernel P) : Kernel P :=
  { k with iCount := k.iCount + 1, iSavedptr := data, iNumMapping := 0 }

/-- `cramfs_file_mmap` after the read. What a read to NULL leaves at address
0 is not modelled. -/
def cramfsFilled (E : Env) (m : P) (r : Request) (data : Nat) (k : Kernel P) : Kernel P :=
  let fill : Fill := ⟨k.fPos r.fd, r.len.toNat⟩
  let k := k.advance r.fd (E.readAt fill).length
  let k := if data ≠ 0 then k.put data (.buffer (E.filled fill) fill) else k
  (k.savePtr data).cramfsSavedPtr m r

/-- `cramfs_file_munmap`. -/
def cramfsFileMunmap (k : Kernel P) : Kernel P :=
  if k.iSavedptr ≠ 0 then
    if k.iNumMapping - 1 = 0 then
      { k.kfree k.iSavedptr with
        iSavedptr := 0, iNumMapping := k.iNumMapping - 1, iCount := k.iCount - 1 }
    else { k with iNumMapping := k.iNumMapping - 1 }
  else k

/-! ## do_mmap_pgoff -/

/-- The end of `do_mmap_pgoff`: a tblock and an rblock are filled in and
linked. -/
def link (E : Env) (m : P) (t : Tblock) (b : Rblock) (k : Kernel P) : Kernel P :=
  (((k.put t.tblock .tblock).put t.rblock (.rblock b)).account
    (E.ksize sizeofTblock + E.ksize sizeofRblock) (sizeofTblock + sizeofRblock)).setTblock m
      (t :: (k.mm m).tblock)

/-- `do_mmap_pgoff` up to its first sleep. -/
def doMmapPgoff (m : P) (r : Request) (k : Kernel P) : Kernel P :=
  match r.check with
  | some v => k.ret m r v
  | none =>
    match r.file with
    | some (.cramfs _) => k.cramfsFileMmap m r
    | _ => k.setOp m (.copyTblock r)

/-- What a read for a mapping of its own puts into memory. -/
def copied (E : Env) (r : Request) (a : Answer) (k : Kernel P) : Block P :=
  match r.file with
  | some (.cramfs fd) =>
    let fill : Fill := ⟨k.fPos fd, r.len.toNat⟩
    .copy (E.filled fill) (some fill)
  | _ => .copy (zeroFill r.len.toNat (a.bytes.take r.len.toNat)) none

/-- The file position after that read. -/
def copyAdvance (E : Env) (r : Request) (k : Kernel P) : Kernel P :=
  match r.file with
  | some (.cramfs fd) => k.advance fd (E.readAt ⟨k.fPos fd, r.len.toNat⟩).length
  | _ => k

/-- A mapping of its own is complete. -/
def copyDone (E : Env) (m : P) (r : Request) (t : Tblock) (result : Nat) (b : Block P)
    (k : Kernel P) : Kernel P :=
  ((k.put result b).link E m t ⟨r.len.toNat, 1, result, false⟩).ret m r (.addr result)

/-! ## do_munmap, exit_mmap -/

/-- The memory of an rblock that goes. -/
def releaseKblock (E : Env) (b : Rblock) (k : Kernel P) : Kernel P :=
  if b.isMmapped then k.cramfsFileMunmap
  else if b.kblock ≠ 0 then (k.account (-E.ksize b.size) (-b.size)).kfree b.kblock
  else k

/-- The last reference to an rblock goes. -/
def releaseRblock (E : Env) (a : Nat) (b : Rblock) (k : Kernel P) : Kernel P :=
  ((k.releaseKblock E b).account (-E.ksize sizeofRblock) (-sizeofRblock)).kfree a

/-- A tblock lets go of its rblock. -/
def dropRblock (E : Env) (a : Nat) (k : Kernel P) : Kernel P :=
  match k.rblockAt a with
  | some b =>
    if b.refcount - 1 = 0 then k.releaseRblock E a b
    else k.put a (.rblock { b with refcount := b.refcount - 1 })
  | none => k

/-- What `do_munmap` and `exit_mmap` do with a tblock of `m`; `ts` is the list
without it. -/
def releaseTblock (E : Env) (m : P) (t : Tblock) (ts : List Tblock) (k : Kernel P) : Kernel P :=
  (((k.dropRblock E t.rblock).setTblock m ts).account
    (-E.ksize sizeofTblock) (-sizeofTblock)).kfree t.tblock

/-- The test of the loop of `do_munmap`. -/
def maps (addr : Nat) (k : Kernel P) (t : Tblock) : Bool :=
  (k.rblockAt t.rblock).any fun b => b.kblock == addr

/-- `do_munmap`; where nothing is mapped at the address it returns -EINVAL. -/
def doMunmap (E : Env) (m : P) (addr : Nat) (k : Kernel P) : Kernel P :=
  if E.isInRom addr then k
  else
    match (k.mm m).tblock.find? (k.maps addr) with
    | none => k
    | some t => k.releaseTblock E m t ((k.mm m).tblock.eraseP (k.maps addr))

/-- The loop of `exit_mmap`, over the list of `m`. -/
def exitLoop (E : Env) (m : P) : List Tblock → Kernel P → Kernel P
  | [], k => k
  | t :: ts, k => exitLoop E m ts (k.releaseTblock E m t ts)

/-- `exit_mmap`, after which the address space is not in use. -/
def exitMmap (E : Env) (m : P) (k : Kernel P) : Kernel P :=
  (exitLoop E m (k.mm m).tblock k).setMm m {}

/-- `mmput`. -/
def mmput (E : Env) (m : P) (k : Kernel P) : Kernel P :=
  if (k.mm m).mmUsers - 1 = 0 then k.exitMmap E m
  else k.setMm m { k.mm m with mmUsers := (k.mm m).mmUsers - 1 }

/-! ## fork -/

/-- The head of the loop of `dup_mmap`: with no tblock left the new address
space is complete. -/
def dupNext (m child : P) (rest : List Tblock) (k : Kernel P) : Kernel P :=
  match rest with
  | [] => (k.setOp child .idle).setOp m .idle
  | t :: ts => k.setOp m (.dup child (t :: ts))

/-- One round of `dup_mmap`. Without memory for the tblock the new address
space is put back by `mmput`. -/
def dupRound (E : Env) (m child : P) (t : Tblock) (ts : List Tblock) (a : Answer)
    (k : Kernel P) : Kernel P :=
  if a.kmalloc then
    let k' := (k.kmalloc .tblock).account (E.ksize sizeofTblock) sizeofTblock
    let k' := match k.rblockAt t.rblock with
      | some b => k'.put t.rblock (.rblock { b with refcount := b.refcount + 1 })
      | none => k'
    (k'.setTblock child ((k.mm child).tblock ++ [⟨k.next, t.rblock⟩])).dupNext m child ts
  else (k.exitMmap E child).setOp m .idle

/-! ## Steps -/

/-- A sleeping call goes on, to its next sleep or its end. -/
def resume (E : Env) (m : P) (a : Answer) (k : Kernel P) : Kernel P :=
  match (k.mm m).op with
  | .idle | .unborn => k
  | .cramfsKmalloc r =>
    if a.kmalloc then (k.kmalloc (.fresh m .data)).setOp m (.cramfsRead r k.next)
    else k.setOp m (.cramfsRead r 0)
  | .cramfsRead r data =>
    match a.readErrno with
    | none => k.cramfsFilled E m r data
    | some e =>
      if e = ENOSYS then (k.kfree data).setOp m (.copyTblock r)
      else (k.kfree data).ret m r (.errno e)
  | .mapTblock r vmStart =>
    if a.kmalloc then (k.kmalloc (.fresh m .tblock)).setOp m (.mapRblock r vmStart k.next)
    else k.ret m r (.errno ENOMEM)
  | .mapRblock r vmStart tblock =>
    if a.kmalloc then
      ((k.kmalloc (.fresh m .rblock)).link E m ⟨tblock, k.next⟩ ⟨0, 1, vmStart, true⟩).ret m r
        (.addr vmStart)
    else (k.kfree tblock).ret m r (.errno ENOMEM)
  | .copyTblock r =>
    if a.kmalloc then (k.kmalloc (.fresh m .tblock)).setOp m (.copyRblock r k.next)
    else k.ret m r (.errno ENOMEM)
  | .copyRblock r tblock =>
    if a.kmalloc then (k.kmalloc (.fresh m .rblock)).setOp m (.copyKmalloc r tblock k.next)
    else (k.kfree tblock).ret m r (.errno ENOMEM)
  | .copyKmalloc r tblock rblock =>
    if a.kmalloc then
      let k' := (k.kmalloc (.fresh m .data)).account (E.ksize r.len.toNat) r.len.toNat
      if r.file.isSome then k'.setOp m (.copyRead r tblock rblock k.next)
      else k'.copyDone E m r ⟨tblock, rblock⟩ k.next (.copy (zeroFill r.len.toNat []) none)
    else ((k.kfree rblock).kfree tblock).ret m r (.errno ENOMEM)
  | .copyRead r tblock rblock result =>
    match a.readErrno with
    | none => (k.copyAdvance E r).copyDone E m r ⟨tblock, rblock⟩ result (k.copied E r a)
    | some e => (((k.kfree result).kfree rblock).kfree tblock).ret m r (.errno e)
  | .dup child [] => k.dupNext m child []
  | .dup child (t :: ts) => k.dupRound E m child t ts a

end Kernel

/-- A system call of a process with address space `m`. -/
inductive Call (P : Type) where
  | mmap (r : Request)
  | munmap (addr : Nat)
  /-- `copy_mm` with CLONE_VM. -/
  | clone
  /-- `copy_mm` without it: the new address space is empty. -/
  | fork (child : P)
  /-- A fork that copies the mappings with `dup_mmap`. -/
  | dup (child : P)
  | exit

inductive Event (P : Type) where
  | call (m : P) (c : Call P)
  | resume (m : P) (a : Answer)
  /-- The position of a file changes otherwise. -/
  | seek (fd pos : Nat)

/-- The event cannot happen in this state. -/
inductive Impossible where
  | impossible
deriving DecidableEq

namespace Kernel

variable {P : Type} [DecidableEq P]

/-- Some process of `m` is not in a call. -/
def runs (m : P) (k : Kernel P) : Bool :=
  (k.mm m).mmUsers != 0 && ((k.mm m).op == .idle || decide (1 < (k.mm m).mmUsers))

/-- No process of `m` is in a call. -/
def rests (m : P) (k : Kernel P) : Bool :=
  (k.mm m).mmUsers != 0 && (k.mm m).op == .idle

/-- The number of an address space that is not in use. -/
def unused (m : P) (k : Kernel P) : Bool :=
  (k.mm m).mmUsers == 0 && (k.mm m).op == .idle && (k.mm m).tblock.isEmpty

def canCall (m : P) (k : Kernel P) : Call P → Bool
  | .mmap _ | .munmap _ => k.rests m
  | .clone | .exit => k.runs m
  | .fork child => k.runs m && k.unused child
  | .dup child => k.rests m && k.unused child

def call (E : Env) (m : P) (k : Kernel P) : Call P → Kernel P
  | .mmap r => k.doMmapPgoff m r
  | .munmap addr => k.doMunmap E m addr
  | .clone => k.setMm m { k.mm m with mmUsers := (k.mm m).mmUsers + 1 }
  | .fork child => k.setMm child { mmUsers := 1 }
  | .dup child => (k.setMm child { mmUsers := 1, op := .unborn }).dupNext m child (k.mm m).tblock
  | .exit => k.mmput E m

def sleeps (m : P) (k : Kernel P) : Bool :=
  (k.mm m).op != .idle && (k.mm m).op != .unborn

def forget (k : Kernel P) : Kernel P := { k with returned := none }

def seek (fd pos : Nat) (k : Kernel P) : Kernel P :=
  { k with fPos := update k.fPos fd pos }

def step (E : Env) (k : Kernel P) : Event P → Except Impossible (Kernel P)
  | .call m c => if k.canCall m c then .ok (k.forget.call E m c) else .error .impossible
  | .resume m a => if k.sleeps m then .ok (k.forget.resume E m a) else .error .impossible
  | .seek fd pos => .ok (k.forget.seek fd pos)

theorem step_cases {E : Env} {k k' : Kernel P} {e : Event P} (h : k.step E e = .ok k') :
    (∃ m c, e = .call m c ∧ k.canCall m c ∧ k' = k.forget.call E m c) ∨
    (∃ m a, e = .resume m a ∧ k.sleeps m ∧ k' = k.forget.resume E m a) ∨
    (∃ fd pos, e = .seek fd pos ∧ k' = k.forget.seek fd pos) := by
  match e with
  | .call m c =>
    dsimp only [step] at h
    split at h
    · next hcan =>
      cases h
      exact .inl ⟨m, c, rfl, hcan, rfl⟩
    · cases h
  | .resume m a =>
    dsimp only [step] at h
    split at h
    · next hs =>
      cases h
      exact .inr (.inl ⟨m, a, rfl, hs, rfl⟩)
    · cases h
  | .seek fd pos =>
    cases h
    exact .inr (.inr ⟨fd, pos, rfl, rfl⟩)

/-- Before the first call: the inode has been read in by `get_cramfs_inode`
and nothing is mapped. -/
structure Booted (k : Kernel P) : Prop where
  mm : ∀ m, (k.mm m).tblock = [] ∧ (k.mm m).op = .idle
  blocks : ∀ a, k.blocks a = none
  next_pos : 0 < k.next
  iSavedptr : k.iSavedptr = 0
  iNumMapping : k.iNumMapping = 0
  returned : k.returned = none

/-- No call is in progress. -/
def Quiet (k : Kernel P) : Prop := ∀ m, (k.mm m).op = .idle

end Kernel

end Nommu
