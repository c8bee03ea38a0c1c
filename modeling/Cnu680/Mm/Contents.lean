import Cnu680.Mm.WellFormed

/-! # What a mapping of the cramfs file shows

A mapping is asked for `len` bytes from page `pgoff` on. The buffer is
filled once, for the first mapping, from the position the `struct file`
happens to have and as long as that mapping asked for; all mappings until
the last is gone get that buffer. So the caller sees the bytes it asked
for exactly if the buffer is long enough and the bytes it was filled with
are those.

The call itself is not interrupted here (`mmapAlone`): with overlapping
calls a buffer may be freed before the call that took it returns. What
went on before may have overlapped.
-/

open Framework

namespace Nommu

/-! ## Reads -/

theorem zeroFill_length {len : Nat} {bytes : List UInt8} (h : bytes.length ≤ len) :
    (zeroFill len bytes).length = len := by
  rw [zeroFill, List.length_append, List.length_replicate]
  omega

theorem readAt_length_le (E : Env) (f : Fill) : (E.readAt f).length ≤ f.len := by
  rw [Env.readAt]
  exact List.length_take_le _ _

theorem filled_length (E : Env) (f : Fill) : (E.filled f).length = f.len :=
  zeroFill_length (readAt_length_le E f)

theorem filled_getElem? (E : Env) {f : Fill} {i : Nat} (hi : i < f.len) :
    (E.filled f)[i]? = some (E.file.getD (f.pos + i) 0) := by
  have hread : (E.readAt f).length = min f.len (E.file.length - f.pos) := by
    rw [Env.readAt, List.length_take, List.length_drop]
  rw [Env.filled, zeroFill, List.getD_eq_getElem?_getD]
  by_cases hend : f.pos + i < E.file.length
  · rw [List.getElem?_append_left (by omega), Env.readAt, List.getElem?_take_of_lt hi,
      List.getElem?_drop, List.getElem?_eq_getElem hend]
    rfl
  · rw [List.getElem?_append_right (by omega), List.getElem?_replicate_of_lt (by omega),
      List.getElem?_eq_none (Nat.le_of_not_lt hend)]
    rfl

namespace Kernel

variable {P : Type}

/-- The bytes of the memory at `a`, and where they were read from if that is
the cramfs file. -/
def dataAt (a : Nat) (k : Kernel P) : Option (List UInt8 × Option Fill) :=
  match k.blocks a with
  | some (.buffer bytes fill) => some (bytes, some fill)
  | some (.copy bytes fill) => some (bytes, fill)
  | _ => none

/-- At `a` there is memory of at least `len` bytes, and these are the file's
bytes from `off` on, with zeros past the end of the file. -/
def FileBytes (E : Env) (k : Kernel P) (a len off : Nat) : Prop :=
  ∃ bytes fill, k.dataAt a = some (bytes, fill) ∧ len ≤ bytes.length ∧
    ∀ i < len, bytes[i]? = some (E.file.getD (off + i) 0)

/-- The bytes a mapping is to show. -/
def Shows (E : Env) (k : Kernel P) (r : Request) (a : Nat) : Prop :=
  k.FileBytes E a r.len.toNat (r.pgoff.toNat * PAGE_SIZE.toNat)

end Kernel

/-- What was read for the buffer is as long as what is asked for, and the file
has the same bytes at both offsets. -/
def Fill.Covers (E : Env) (f : Fill) (len off : Nat) : Prop :=
  len ≤ f.len ∧ ∀ i < len, E.file.getD (f.pos + i) 0 = E.file.getD (off + i) 0

/-- `cramfs_file_mmap` got memory, or its read answered -ENOSYS, so that
`do_mmap_pgoff` got memory itself. -/
def GotMemory : List Answer → Prop
  | a₀ :: a₁ :: _ => a₀.kmalloc = true ∨ a₁.readErrno = some ENOSYS
  | _ => False

namespace Kernel

variable {P : Type} {bytes : List UInt8}

/-- What the call needs of the kernel it finds. With `i_savedptr` set it gets
the buffer behind it, so that must have been filled for the request.
Otherwise the file is read from `f_pos` on, and `kmalloc` must find memory
for it. For a length of 0 nothing is mapped, and any memory at the address
passed will do. -/
def FilledFor (E : Env) (k : Kernel P) (r : Request) (as : List Answer) : Prop :=
  if r.len = 0 then k.dataAt r.addr.toNat ≠ none
  else if k.iSavedptr ≠ 0 then
    ∃ bytes fill, k.blocks k.iSavedptr = some (.buffer bytes fill) ∧
      fill.Covers E r.len.toNat (r.pgoff.toNat * PAGE_SIZE.toNat)
  else
    GotMemory as ∧ Fill.Covers E ⟨k.fPos r.fd, r.len.toNat⟩ r.len.toNat
      (r.pgoff.toNat * PAGE_SIZE.toNat)

theorem Wf.filled {E : Env} {k : Kernel P} (h : k.Wf E) {a : Nat} {fill : Fill}
    (hd : k.dataAt a = some (bytes, some fill)) : bytes = E.filled fill := by
  unfold dataAt at hd
  split at hd
  · next hb =>
    cases hd
    exact h.block a _ hb
  · next hb =>
    cases hd
    exact h.block a _ hb
  · cases hd

/-- **Memory that was read from the file shows what is asked for exactly if it
was filled for it.** -/
theorem Wf.shows_iff {E : Env} {k : Kernel P} (h : k.Wf E) {a len off : Nat} {fill : Fill}
    (hd : k.dataAt a = some (bytes, some fill)) :
    k.FileBytes E a len off ↔ fill.Covers E len off := by
  have hbytes := h.filled hd
  constructor
  · -- byte by byte, what is there is what was read
    intro hfile
    obtain ⟨bytes', fill', hd', hlen, hget⟩ := hfile
    rw [hd] at hd'
    cases hd'
    rw [hbytes, filled_length] at hlen
    refine ⟨hlen, fun i hi => ?_⟩
    have hi' := hget i hi
    rw [hbytes, filled_getElem? E (Nat.lt_of_lt_of_le hi hlen)] at hi'
    exact Option.some.inj hi'
  · intro hfill
    obtain ⟨hlen, hget⟩ := hfill
    refine ⟨bytes, some fill, hd, ?_, fun i hi => ?_⟩
    · rw [hbytes, filled_length]
      exact hlen
    · rw [hbytes, filled_getElem? E (Nat.lt_of_lt_of_le hi hlen), hget i hi]

end Kernel

/-- The address that the `mmap` operation has given to a call. -/
def Op.vmStart {P : Type} : Op P → Option Nat
  | .mapTblock _ v | .mapRblock _ v _ => some v
  | _ => none

namespace Kernel

variable {P : Type} [DecidableEq P] {E : Env} {m m' : P} {k : Kernel P} {r : Request}

theorem not_sleeps_of_op (h : (k.mm m).op = .idle ∨ (k.mm m).op = .unborn) : ¬ k.sleeps m := by
  rcases h with h | h
  · simp [sleeps, h]
  · simp [sleeps, h]

theorem check_addr {a : Nat} (h : r.check = some (.addr a)) :
    pageAlign r.len = 0 ∧ a = r.addr.toNat := by
  simp only [Request.check] at h
  repeat' split at h
  all_goals simp_all

theorem check_none (h : r.check = none) : pageAlign r.len ≠ 0 := by
  intro h0
  simp only [Request.check, h0, if_true] at h
  repeat' split at h
  all_goals cases h

theorem len_of_pageAlign {len : UInt32} (hlen : len ≤ 0xfffff000) (h : pageAlign len = 0) :
    len = 0 := by
  have hand : (len + 4095).toBitVec &&& ~~~4095#32 = 0#32 := congrArg UInt32.toBitVec h
  have hle : (len + 4095).toBitVec ≤ 4095#32 := by
    have hsame : (len + 4095).toBitVec &&& 4095#32 = (len + 4095).toBitVec := by
      ext i hi
      have hi' := congrArg (BitVec.getLsbD · i) hand
      simp only [BitVec.getLsbD_and, BitVec.getLsbD_not] at hi'
      grind
    rw [← hsame]
    exact Nat.and_le_right
  have hsum : (len.toNat + 4095) % 2 ^ 32 ≤ 4095 := hle
  have hmax : len.toNat ≤ 0xfffff000 := hlen
  exact UInt32.toNat_inj.mp (show len.toNat = 0 by omega)

/-! ## A call with nothing in between -/

theorem dataAt_copyDone {t : Tblock} {res : Nat} (bytes : List UInt8) (fill : Option Fill)
    (ht : res ≠ t.tblock) (hrb : res ≠ t.rblock) :
    (k.copyDone E m r t res (.copy bytes fill)).dataAt res = some (bytes, fill) := by
  have hb : (k.copyDone E m r t res (.copy bytes fill)).blocks res = some (.copy bytes fill) := by
    change (((k.put res _).put t.tblock _).put t.rblock _).blocks res = _
    rw [blocks_put_of_ne _ hrb, blocks_put_of_ne _ ht, blocks_put_self]
  rw [dataAt, hb]

/-- A call of `do_mmap_pgoff` from its start to its end, woken with `as`. -/
def mmapAlone (m : P) (r : Request) (as : List Answer) : List (Event P) :=
  .call m (.mmap r) :: as.map (.resume m)

omit [DecidableEq P] in
theorem forget_of_none (h : k.returned = none) : k.forget = k := by
  unfold forget
  rw [← h]

variable {k' : Kernel P} {as : List Answer} {v : Ret}

/-- A call that has not returned goes on. -/
theorem goes_on (h : run (step E) k (as.map (.resume m)) = .ok k') (hret : k.returned = none)
    (hret' : k'.returned = some (r, v)) :
    ∃ a as', as = a :: as' ∧ run (step E) (k.resume E m a) (as'.map (.resume m)) = .ok k' := by
  match as with
  | [] =>
    cases h
    rw [hret] at hret'
    cases hret'
  | a :: as' =>
    obtain ⟨u, hu, h⟩ := bind_eq_ok.mp h
    rcases step_cases hu with ⟨_, _, he, -⟩ | ⟨_, _, he, -, rfl⟩ | ⟨_, _, he, -⟩
    · cases he
    · cases he
      rw [forget_of_none hret] at h
      exact ⟨a, as', rfl, h⟩
    · cases he

/-- One that has returned does not. -/
theorem rests_of_ret {v' : Ret} (h : run (step E) (k.ret m r v') (as.map (.resume m)) = .ok k') :
    k' = k.ret m r v' := by
  match as with
  | [] =>
    cases h
    rfl
  | a :: as' =>
    obtain ⟨u, hu, -⟩ := bind_eq_ok.mp h
    have hno : ¬ (k.ret m r v').sleeps m := not_sleeps_of_op (.inl (op_ret m r v' k))
    rw [step, if_neg hno] at hu
    cases hu


/-- After the `mmap` operation: the address is the one it gave, and a buffer
there stays. -/
theorem mapTblock_ends {vmStart a : Nat} (h : run (step E) k (as.map (.resume m)) = .ok k')
    (hop : (k.mm m).op = .mapTblock r vmStart) (hret : k.returned = none)
    (hret' : k'.returned = some (r, .addr a)) (hv : vmStart < k.next) :
    a = vmStart ∧ k'.blocks vmStart = k.blocks vmStart := by
  obtain ⟨a₀, as, -, h⟩ := goes_on h hret hret'
  simp only [resume, hop] at h
  split at h
  · obtain ⟨a₁, as, -, h⟩ := goes_on h hret hret'
    simp only [resume, op_setOp] at h
    split at h
    · cases rests_of_ret h
      cases hret'
      refine ⟨rfl, ?_⟩
      change (((((k.kmalloc (.fresh m .tblock)).setOp m _).kmalloc (.fresh m .rblock)).put
        k.next .tblock).put (k.next + 1) (.rblock _)).blocks vmStart = _
      rw [blocks_put_of_ne _ (by omega), blocks_put_of_ne _ (by omega)]
      exact (blocks_kmalloc_of_ne _ (by change vmStart ≠ k.next + 1; omega)).trans
        (blocks_kmalloc_of_ne _ (by omega))
    · cases rests_of_ret h
      cases hret'
  · cases rests_of_ret h
    cases hret'

/-- Without an `mmap` operation: the memory is filled from `f_pos` on. -/
theorem copyTblock_ends {fd a : Nat} (h : run (step E) k (as.map (.resume m)) = .ok k')
    (hop : (k.mm m).op = .copyTblock r) (hfile : r.file = some (.cramfs fd))
    (hret : k.returned = none) (hret' : k'.returned = some (r, .addr a)) :
    k'.dataAt a =
      some (E.filled ⟨k.fPos r.fd, r.len.toNat⟩, some ⟨k.fPos r.fd, r.len.toNat⟩) := by
  have hfd : r.fd = fd := by rw [Request.fd, hfile]
  obtain ⟨a₀, as, -, h⟩ := goes_on h hret hret'
  simp only [resume, hop] at h
  split at h
  · obtain ⟨a₁, as, -, h⟩ := goes_on h hret hret'
    simp only [resume, op_setOp] at h
    split at h
    · obtain ⟨a₂, as, -, h⟩ := goes_on h hret hret'
      simp only [resume, op_setOp] at h
      split at h
      · rw [if_pos (by rw [hfile]; rfl)] at h
        obtain ⟨a₃, as, -, h⟩ := goes_on h hret hret'
        simp only [resume, op_setOp] at h
        split at h
        · cases rests_of_ret h
          cases hret'
          simp only [copied, hfile, hfd]
          refine dataAt_copyDone _ _ ?_ ?_
          · change k.next + 1 + 1 ≠ k.next
            omega
          · change k.next + 1 + 1 ≠ k.next + 1
            omega
        · cases rests_of_ret h
          cases hret'
      · cases rests_of_ret h
        cases hret'
    · cases rests_of_ret h
      cases hret'
  · cases rests_of_ret h
    cases hret'

/-- **What a call that is not interrupted returns**: the address it was given
if there is nothing to map, the buffer of the inode if there is one, and
otherwise memory it has filled, or NULL. -/
theorem mmapAlone_returns {fd a : Nat} (hwf : k.Wf E) (hfile : r.file = some (.cramfs fd))
    (h : run (step E) k (mmapAlone m r as) = .ok k') (hret' : k'.returned = some (r, .addr a)) :
    (pageAlign r.len = 0 ∧ a = r.addr.toNat ∧ k'.blocks = k.blocks) ∨
      (pageAlign r.len ≠ 0 ∧ k.iSavedptr ≠ 0 ∧ a = k.iSavedptr ∧
        k'.blocks a = k.blocks a) ∨
      (pageAlign r.len ≠ 0 ∧ k.iSavedptr = 0 ∧ (¬ GotMemory as ∧ a = 0 ∨ GotMemory as ∧
        k'.dataAt a =
          some (E.filled ⟨k.fPos r.fd, r.len.toNat⟩, some ⟨k.fPos r.fd, r.len.toNat⟩))) := by
  obtain ⟨u, hu, h⟩ := bind_eq_ok.mp h
  rcases step_cases hu with ⟨_, _, he, -, rfl⟩ | ⟨_, _, he, -⟩ | ⟨_, _, he, -⟩
  on_goal 2 => cases he
  on_goal 2 => cases he
  cases he
  have hforget := hwf.forget
  simp only [call, doMmapPgoff] at h
  match hcheck : r.check with
  | some v =>
    simp only [hcheck] at h
    cases rests_of_ret h
    cases hret'
    exact .inl ⟨(check_addr hcheck).1, (check_addr hcheck).2, rfl⟩
  | none =>
    have hlen := check_none hcheck
    simp only [hcheck, hfile, cramfsFileMmap] at h
    split at h
    · next hsaved =>
      -- the buffer is there
      obtain ⟨bytes, fill, hb⟩ := hforget.saved hsaved
      obtain ⟨rfl, hblocks⟩ := mapTblock_ends h (op_setOp ..) rfl hret' (hforget.lt_next hb)
      exact .inr (.inl ⟨hlen, hsaved, rfl, hblocks⟩)
    · next hsaved =>
      refine .inr (.inr ⟨hlen, Classical.not_not.mp hsaved, ?_⟩)
      obtain ⟨a₀, as, rfl, h₁⟩ := goes_on h rfl hret'
      simp only [resume, op_setOp] at h₁
      split at h₁
      · next hk =>
        obtain ⟨a₁, as, rfl, h₂⟩ := goes_on h₁ rfl hret'
        refine .inr ⟨.inl hk, ?_⟩
        simp only [resume, op_setOp] at h₂
        split at h₂
        · -- the buffer that has just been read
          have hnext : (k.forget.setOp m (.cramfsKmalloc r)).next ≠ 0 :=
            Nat.ne_of_gt hwf.next_pos
          simp only [cramfsFilled, if_pos hnext] at h₂
          have hend := mapTblock_ends h₂ (op_setOp ..) rfl hret' (Nat.lt_succ_self k.next)
          have ha : a = k.next := hend.1
          have hbuffer : k'.blocks k.next = some (.buffer (E.filled ⟨k.fPos r.fd, r.len.toNat⟩)
              ⟨k.fPos r.fd, r.len.toNat⟩) := hend.2.trans (blocks_put_self k.next _ _)
          rw [ha, dataAt, hbuffer]
        · split at h₂
          · have hcopy := copyTblock_ends h₂ (op_setOp ..) hfile rfl hret'
            exact hcopy
          · cases rests_of_ret h₂
            cases hret'
      · next hk =>
        obtain ⟨a₁, as, rfl, h₂⟩ := goes_on h₁ rfl hret'
        simp only [resume, op_setOp] at h₂
        split at h₂
        · next hread =>
          have hend := mapTblock_ends h₂ (op_setOp ..) rfl hret' hforget.next_pos
          refine .inl ⟨?_, hend.1⟩
          simp [GotMemory, hk, hread]
        · next e hread =>
          split at h₂
          · next he =>
            refine .inr ⟨.inr (by rw [hread, he]), ?_⟩
            have hcopy := copyTblock_ends h₂ (op_setOp ..) hfile rfl hret'
            exact hcopy
          · cases rests_of_ret h₂
            cases hret'

end Kernel

section

variable {P : Type} [DecidableEq P] {E : Env}

/-- **A mapping shows the bytes it was asked for exactly if what the call
finds was filled for it**: for a call that is not interrupted, whatever
was mapped, forked, unmapped and left before. From 0xfffff001 on
`PAGE_ALIGN` takes the length to 0, and the call maps nothing. -/
theorem mapping_shows_iff {k₀ k k' : Kernel P} {es : List (Event P)} {m : P} {r : Request}
    {as : List Answer} {fd a : Nat} (h₀ : k₀.Booted) (hrun : run (Kernel.step E) k₀ es = .ok k)
    (hcall : run (Kernel.step E) k (Kernel.mmapAlone m r as) = .ok k')
    (hfile : r.file = some (.cramfs fd)) (hlen : r.len ≤ 0xfffff000)
    (hret : k'.returned = some (r, .addr a)) : k'.Shows E r a ↔ k.FilledFor E r as := by
  have hkeep : ∀ {k k' : Kernel P} {es : List (Event P)}, k.Wf E →
      run (Kernel.step E) k es = .ok k' → k'.Wf E :=
    fun h hr => run_invariant (fun _ _ _ h hs => Kernel.step_wf h hs) h hr
  have hwf := hkeep h₀.wf hrun
  have hwf' := hkeep hwf hcall
  unfold Kernel.FilledFor
  rcases Kernel.mmapAlone_returns hwf hfile hcall hret with
    ⟨h0, ha, hblocks⟩ | ⟨h0, hsaved, ha, hblocks⟩ | ⟨h0, hsaved, hnew⟩
  · -- nothing is mapped, and nothing is asked for
    have hzero := Kernel.len_of_pageAlign hlen h0
    have hdata : k'.dataAt a = k.dataAt r.addr.toNat := by
      rw [Kernel.dataAt, Kernel.dataAt, hblocks, ha]
    rw [if_pos hzero, ← hdata]
    constructor
    · rintro ⟨bytes, fill, hd, -⟩ hnone
      rw [hnone] at hd
      cases hd
    · intro hsome
      obtain ⟨⟨bytes, fill⟩, hd⟩ := Option.ne_none_iff_exists'.mp hsome
      refine ⟨bytes, fill, hd, ?_, ?_⟩
      · rw [hzero]
        exact Nat.zero_le _
      · rw [hzero]
        exact nofun
  · have hne : r.len ≠ 0 := by
      rintro hzero
      exact h0 (by rw [hzero]; rfl)
    rw [if_neg hne, if_pos hsaved]
    obtain ⟨bytes, fill, hb⟩ := hwf.saved hsaved
    have hd : k'.dataAt a = some (bytes, some fill) := by
      rw [Kernel.dataAt, hblocks, ha, hb]
    refine (hwf'.shows_iff hd).trans ⟨fun hcov => ⟨bytes, fill, hb, hcov⟩, ?_⟩
    rintro ⟨bytes', fill', hb', hcov⟩
    cases hb.symm.trans hb'
    exact hcov
  · have hne : r.len ≠ 0 := by
      rintro hzero
      exact h0 (by rw [hzero]; rfl)
    rw [if_neg hne, if_neg (not_not.mpr hsaved)]
    rcases hnew with ⟨hno, ha⟩ | ⟨hgot, hd⟩
    · -- NULL: there is no memory there
      refine iff_of_false ?_ fun hand => hno hand.1
      rintro ⟨bytes, fill, hd, -⟩
      rw [Kernel.dataAt, ha, hwf'.null] at hd
      cases hd
    · rw [and_iff_right hgot]
      exact hwf'.shows_iff hd

end

/-! ## Two processes -/

/-- A file of three bytes. -/
def threeBytes : Env := { file := [1, 2, 3], ksize := id, isInRom := fun _ => false }

/-- Two processes with nothing mapped. -/
def twoProcesses : Kernel Bool :=
  { mm := fun _ => { mmUsers := 1 }, blocks := fun _ => none, next := 1, iSavedptr := 0,
    iNumMapping := 0, iCount := 1, fPos := fun _ => 0, realalloc := 0, askedalloc := 0,
    returned := none }

theorem twoProcesses_booted : twoProcesses.Booted :=
  ⟨fun _ => ⟨rfl, rfl⟩, fun _ => rfl, Nat.one_pos, rfl, rfl, rfl⟩

/-- The first page of the file, and the second. -/
def firstPage : Request := { file := some (.cramfs 0), len := 3 }
def secondPage : Request := { file := some (.cramfs 0), len := 3, pgoff := 1 }

/-- The first mapping: it sleeps in `kmalloc`, in the read, and twice more in
`kmalloc`. -/
def mapFirst : List (Event Bool) :=
  Kernel.mmapAlone false firstPage (List.replicate 4 {})

/-- The second process maps the second page. -/
def mapSecond : List (Event Bool) :=
  Kernel.mmapAlone true secondPage (List.replicate 2 {})

/-- While the first process has its mapping, the second maps the same page. -/
theorem mapping_shows_first_page : ∃ k k',
    run (Kernel.step threeBytes) twoProcesses mapFirst = .ok k ∧ k.iSavedptr = 1 ∧
      run (Kernel.step threeBytes) k (Kernel.mmapAlone true firstPage [{}, {}]) = .ok k' ∧
      k'.returned = some (firstPage, .addr 1) ∧ k'.Shows threeBytes firstPage 1 := by
  obtain ⟨k, k', hk, hk', hsaved, hb, hret⟩ : ∃ k k',
      run (Kernel.step threeBytes) twoProcesses mapFirst = .ok k ∧
      run (Kernel.step threeBytes) k (Kernel.mmapAlone true firstPage [{}, {}]) = .ok k' ∧
      k.iSavedptr = 1 ∧ k.blocks 1 = some (.buffer [1, 2, 3] ⟨0, 3⟩) ∧
      k'.returned = some (firstPage, .addr 1) := by
    decide +kernel
  refine ⟨k, k', hk, hsaved, hk', hret, (mapping_shows_iff twoProcesses_booted hk hk' rfl
    (by decide) hret).mpr ?_⟩
  rw [Kernel.FilledFor, if_neg (by decide), if_pos (by rw [hsaved]; decide), hsaved]
  exact ⟨[1, 2, 3], ⟨0, 3⟩, hb, by decide, fun i _ => by rfl⟩

/-- The second process asks for the second page of a file of three bytes,
where there are only zeros, and gets the buffer with the first. -/
theorem second_page_shows_first : ∃ k k',
    run (Kernel.step threeBytes) twoProcesses mapFirst = .ok k ∧
      run (Kernel.step threeBytes) k mapSecond = .ok k' ∧
      k'.returned = some (secondPage, .addr 1) ∧ k'.dataAt 1 = some ([1, 2, 3], some ⟨0, 3⟩) ∧
      ¬ k'.Shows threeBytes secondPage 1 := by
  obtain ⟨k, k', hk, hk', hret, hd⟩ : ∃ k k',
      run (Kernel.step threeBytes) twoProcesses mapFirst = .ok k ∧
      run (Kernel.step threeBytes) k mapSecond = .ok k' ∧
      k'.returned = some (secondPage, .addr 1) ∧
      k'.dataAt 1 = some ([1, 2, 3], some ⟨0, 3⟩) := by
    decide +kernel
  refine ⟨k, k', hk, hk', hret, hd, ?_⟩
  intro hshows
  obtain ⟨bytes, fill, hd', -, hget⟩ := hshows
  rw [hd] at hd'
  cases hd'
  have hbyte := hget 0 (by decide)
  revert hbyte
  decide

/-- **Every kernel that is reached is well formed**, however the calls
interleave and whatever fails. -/
theorem reached_wf {P : Type} [DecidableEq P] {E : Env} {k₀ k : Kernel P} {es : List (Event P)}
    (h₀ : k₀.Booted) (hrun : run (Kernel.step E) k₀ es = .ok k) : k.Wf E :=
  run_invariant (fun _ _ _ h hs => Kernel.step_wf h hs) h₀.wf hrun

theorem reached_wf_two_pages : ∃ k,
    run (Kernel.step threeBytes) twoProcesses (mapFirst ++ mapSecond) = .ok k ∧
      k.Wf threeBytes := by
  obtain ⟨k, hk, -⟩ : ∃ k,
      run (Kernel.step threeBytes) twoProcesses (mapFirst ++ mapSecond) = .ok k ∧ True := by
    decide +kernel
  exact ⟨k, hk, reached_wf twoProcesses_booted hk⟩

end Nommu
