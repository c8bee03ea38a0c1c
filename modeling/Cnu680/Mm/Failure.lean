import Cnu680.Mm.Contents

/-! # mmap: calls that fail

`do_mmap_pgoff` can fail where it allocates and where it reads. A failed
call should leave no trace: the mappings of the caller, the inode, the set
of blocks and the two totals should be as they were before.

`Owes L` says that of all this only the blocks of `L` have been allocated
since. They are freed in the reverse order, the last one first, and a call
that ends with none of them left has no trace. There are two ways to fail
that leave one:

* behind `cramfs_file_mmap`, which has counted the mapping, and may have
  read the file in and taken a reference to the inode: nothing undoes it;
* in the read to a copy, which has been added to the totals.
-/

open Framework

namespace Nommu

theorem Request.len_pos {r : Request} (h : r.check = none) : 0 < r.len.toNat := by
  by_contra hlen
  have hzero : r.len = 0 := by
    apply UInt32.toNat_inj.mp
    rw [Nat.le_zero.mp (Nat.le_of_not_lt hlen)]
    rfl
  have halign : pageAlign r.len = 0 := by
    rw [hzero]
    decide
  simp only [Request.check, halign, if_true] at h
  split_ifs at h

theorem Request.check_noMmap {r : Request} (h : r.file = some .noMmap) : r.check ≠ none := by
  unfold Request.check
  by_cases hbits : (r.protWrite && r.mapPrivate) = true
  · simp [hbits]
  · simp [hbits, h]

namespace Kernel

variable {P : Type} [DecidableEq P]

/-! ## A call and its trace -/

/-- A call of `do_mmap_pgoff` while nothing else runs: it is woken with each
answer in turn. -/
def mmapEvents (m : P) (r : Request) (as : List Answer) : List (Event P) :=
  .call m (.mmap r) :: as.map (.resume m)

/-- What a call of `m` that fails is to leave as it was. -/
structure NoTrace (m : P) (k k' : Kernel P) : Prop where
  tblock : (k'.mm m).tblock = (k.mm m).tblock
  iSavedptr : k'.iSavedptr = k.iSavedptr
  iNumMapping : k'.iNumMapping = k.iNumMapping
  iCount : k'.iCount = k.iCount
  blocks : ∀ a, k'.blocks a = none ↔ k.blocks a = none
  realalloc : k'.realalloc = k.realalloc
  askedalloc : k'.askedalloc = k.askedalloc

/-- The answer with that number is that of a read that failed. -/
def ReadFailsAt (n : Nat) (as : List Answer) : Prop :=
  ∃ a, as[n]? = some a ∧ a.readErrno ≠ none

/-- The call fails where that leaves no trace: it is refused by the checks, or
it is for a copy, the read of which does not fail, or it is for a cramfs
file that is not mapped yet, and reading that fails first. -/
def FailsClean (k : Kernel P) (r : Request) (as : List Answer) : Prop :=
  r.check ≠ none ∨
    match r.file with
    | none => True
    | some (.cramfs _) => k.iSavedptr = 0 ∧ ReadFailsAt 1 as ∧ ¬ ReadFailsAt 3 (as.drop 2)
    | some _ => ¬ ReadFailsAt 3 as

/-! ## Blocks that are to be freed -/

/-- Since `k`, the blocks of `L` have been allocated, the last one first. -/
structure Owes (m : P) (L : List Nat) (k k₁ : Kernel P) : Prop where
  tblock : (k₁.mm m).tblock = (k.mm m).tblock
  iSavedptr : k₁.iSavedptr = k.iSavedptr
  iNumMapping : k₁.iNumMapping = k.iNumMapping
  iCount : k₁.iCount = k.iCount
  realalloc : k₁.realalloc = k.realalloc
  askedalloc : k₁.askedalloc = k.askedalloc
  nodup : L.Nodup
  fresh : ∀ a ∈ L, k.blocks a = none
  blocks : ∀ a, k₁.blocks a = none ↔ k.blocks a = none ∧ a ∉ L
  unused : ∀ a, k₁.next ≤ a → k₁.blocks a = none

section

variable {E : Env} {m : P} {L : List Nat} {k k₁ : Kernel P}

omit [DecidableEq P] in
theorem Owes.refl (hunused : ∀ a, k.next ≤ a → k.blocks a = none) : Owes m [] k k :=
  ⟨rfl, rfl, rfl, rfl, rfl, rfl, List.nodup_nil, fun _ h => absurd h List.not_mem_nil,
    fun a => by simp, hunused⟩

omit [DecidableEq P] in
theorem Owes.noTrace (h : Owes m [] k k₁) : NoTrace m k k₁ :=
  ⟨h.tblock, h.iSavedptr, h.iNumMapping, h.iCount, fun a => by simp [h.blocks a], h.realalloc,
    h.askedalloc⟩

omit [DecidableEq P] in
theorem Owes.forget (h : Owes m L k k₁) : Owes m L k k₁.forget := { h with }

theorem Owes.setOp (h : Owes m L k k₁) (op : Op P) : Owes m L k (k₁.setOp m op) :=
  { h with tblock := by simpa [Kernel.setOp, Kernel.setMm] using h.tblock }

theorem Owes.ret (h : Owes m L k k₁) (r : Request) (v : Ret) : Owes m L k (k₁.ret m r v) :=
  { h.setOp .idle with }

omit [DecidableEq P] in
theorem Owes.kmalloc (h : Owes m L k k₁) (b : Block P) :
    Owes m (k₁.next :: L) k (k₁.kmalloc b) := by
  obtain ⟨hnone, hnotMem⟩ := (h.blocks k₁.next).mp (h.unused _ (Nat.le_refl _))
  refine { h with nodup := List.nodup_cons.mpr ⟨hnotMem, h.nodup⟩, fresh := ?_, blocks := ?_,
                  unused := ?_ }
  · intro a ha
    rcases List.mem_cons.mp ha with rfl | ha
    · exact hnone
    · exact h.fresh a ha
  · intro a
    by_cases ha : a = k₁.next
    · subst ha
      simp [blocks_kmalloc_self]
    · rw [blocks_kmalloc_of_ne b ha, h.blocks a]
      simp [ha]
  · intro a ha
    have hlt : k₁.next < a := ha
    rw [blocks_kmalloc_of_ne b (Nat.ne_of_gt hlt)]
    exact h.unused a (Nat.le_of_lt hlt)

omit [DecidableEq P] in
theorem Owes.kfree {a : Nat} (h : Owes m (a :: L) k k₁) : Owes m L k (k₁.kfree a) := by
  obtain ⟨hnotMem, hnodup⟩ := List.nodup_cons.mp h.nodup
  refine { h with nodup := hnodup, fresh := ?_, blocks := ?_, unused := ?_ }
  · exact fun x hx => h.fresh x (List.mem_cons_of_mem a hx)
  · intro x
    by_cases hx : x = a
    · subst hx
      simp [blocks_kfree_self, h.fresh x (List.mem_cons_self ..), hnotMem]
    · rw [blocks_kfree_of_ne hx, h.blocks x]
      simp [hx]
  · intro x hx
    by_cases hxa : x = a
    · rw [hxa, blocks_kfree_self]
    · rw [blocks_kfree_of_ne hxa]
      exact h.unused x hx

omit [DecidableEq P] in
theorem Owes.kfree_null (h : Owes m L k k₁) {a : Nat} (ha : k₁.blocks a = none) :
    Owes m L k (k₁.kfree a) := by
  have hsame : (k₁.kfree a).blocks = k₁.blocks := by
    funext x
    by_cases hx : x = a
    · rw [hx, blocks_kfree_self, ha]
    · exact blocks_kfree_of_ne hx
  refine { h with blocks := ?_, unused := ?_ }
  · rw [hsame]
    exact h.blocks
  · rw [hsame]
    exact h.unused

end

/-! ## The places where a call sleeps -/

/-- The call of `m` that has got as far as `k₁` goes on alone, to an error. -/
structure Fails (E : Env) (m : P) (as : List Answer) (k₁ k' : Kernel P) : Prop where
  run : run (step E) k₁ (as.map (.resume m)) = .ok k'
  returned : ∃ r e, k'.returned = some (r, .errno e)

section

variable {E : Env} {m : P} {k k₁ k' : Kernel P} {r : Request} {as : List Answer}

omit [DecidableEq P] in
theorem mm_forget : k₁.forget.mm = k₁.mm := rfl

theorem Fails.wake (h : Fails E m as k₁ k') (hnot : k₁.returned = none) :
    ∃ a rest, as = a :: rest ∧ Fails E m rest (k₁.forget.resume E m a) k' := by
  cases as with
  | nil =>
    obtain ⟨r, e, hret⟩ := h.returned
    cases h.run
    rw [hnot] at hret
    cases hret
  | cons a rest =>
    obtain ⟨k₂, hstep, hrest⟩ := bind_eq_ok.mp h.run
    refine ⟨a, rest, rfl, ?_, h.returned⟩
    rcases step_cases hstep with ⟨_, _, he, -, -⟩ | ⟨_, _, he, -, rfl⟩ | ⟨_, _, he, -⟩
    · cases he
    · cases he
      exact hrest
    · cases he

theorem Fails.over (h : Fails E m as k₁ k') (hop : (k₁.mm m).op = .idle) : as = [] ∧ k' = k₁ := by
  cases as with
  | nil =>
    cases h.run
    exact ⟨rfl, rfl⟩
  | cons a rest =>
    obtain ⟨k₂, hstep, -⟩ := bind_eq_ok.mp h.run
    rcases step_cases hstep with ⟨_, _, he, -, -⟩ | ⟨_, _, he, hs, -⟩ | ⟨_, _, he, -⟩
    · cases he
    · cases he
      simp [sleeps, hop] at hs
    · cases he

theorem Fails.over_ret {v : Ret} (h : Fails E m as (k₁.ret m r v) k') :
    as = [] ∧ k' = k₁.ret m r v ∧ ∃ e, v = .errno e := by
  obtain ⟨hnil, hk'⟩ := h.over (op_ret m r v k₁)
  refine ⟨hnil, hk', ?_⟩
  obtain ⟨r', e, hret⟩ := h.returned
  rw [hk'] at hret
  cases hret
  exact ⟨e, rfl⟩

theorem Fails.ite {c : Prop} [Decidable c] {k₂ : Kernel P}
    (h : Fails E m as (if c then k₁ else k₂) k') : Fails E m as k₁ k' ∨ Fails E m as k₂ k' := by
  split at h
  · exact .inl h
  · exact .inr h

omit [DecidableEq P] in
theorem not_readFailsAt_nil (n : Nat) : ¬ ReadFailsAt n [] := by
  rintro ⟨a, ha, -⟩
  cases ha

theorem Owes.noTrace_iff {e n : Nat} {a : Answer} (h : Owes m [] k k₁)
    (hfails : Fails E m as (k₁.ret m r (.errno e)) k') :
    NoTrace m k k' ↔ ¬ (r.file.isSome ∧ ReadFailsAt (n + 1) (a :: as)) := by
  obtain ⟨rfl, rfl, -⟩ := hfails.over_ret
  refine iff_of_true (h.ret r _).noTrace ?_
  rintro ⟨-, hread⟩
  exact not_readFailsAt_nil n hread

theorem cramfsFilled_eq (E : Env) (m : P) (r : Request) (data : Nat) (k : Kernel P) :
    ((k.cramfsFilled E m r data).mm m).op = .mapTblock r data ∧
      (k.cramfsFilled E m r data).returned = k.returned ∧
      (k.cramfsFilled E m r data).iCount = k.iCount + 1 := by
  refine ⟨op_setOp .., ?_⟩
  unfold cramfsFilled
  by_cases hdata : data ≠ 0
  · simp only [if_pos hdata]
    exact ⟨rfl, rfl⟩
  · simp only [if_neg hdata]
    exact ⟨rfl, rfl⟩

section

variable (h : Fails E m as k₁ k') (hnot : k₁.returned = none)
include h hnot

theorem copyRead_fails {t rb result : Nat} (hop : (k₁.mm m).op = .copyRead r t rb result)
    (hasked : k₁.askedalloc = k.askedalloc + r.len.toNat) (hlen : 0 < r.len.toNat) :
    ¬ NoTrace m k k' ∧ ReadFailsAt 0 as := by
  obtain ⟨a, rest, rfl, hrest⟩ := h.wake hnot
  simp only [resume, mm_forget, hop] at hrest
  cases ha : a.readErrno with
  | none =>
    simp only [ha] at hrest
    obtain ⟨-, -, e, he⟩ := hrest.over_ret
    cases he
  | some e =>
    simp only [ha] at hrest
    obtain ⟨-, rfl, -⟩ := hrest.over_ret
    refine ⟨fun htrace => ?_, a, rfl, by rw [ha]; exact Option.some_ne_none e⟩
    have hsame : k₁.askedalloc = k.askedalloc := htrace.askedalloc
    omega

theorem copyKmalloc_fails {t rb : Nat} (hop : (k₁.mm m).op = .copyKmalloc r t rb)
    (howes : Owes m [rb, t] k k₁) (hlen : 0 < r.len.toNat) :
    NoTrace m k k' ↔ ¬ (r.file.isSome ∧ ReadFailsAt 1 as) := by
  obtain ⟨a, rest, rfl, hrest⟩ := h.wake hnot
  simp only [resume, mm_forget, hop] at hrest
  rcases hrest.ite with hrest | hrest
  · by_cases hfile : r.file.isSome = true
    · rw [if_pos hfile] at hrest
      have hasked : k₁.askedalloc + r.len.toNat = k.askedalloc + r.len.toNat :=
        congrArg (· + (r.len.toNat : Int)) howes.askedalloc
      obtain ⟨htrace, hread⟩ := copyRead_fails hrest rfl (op_setOp ..) hasked hlen
      exact iff_of_false htrace fun hno => hno ⟨hfile, hread⟩
    · -- without a file nothing is left that can fail
      rw [if_neg hfile] at hrest
      obtain ⟨-, -, e, he⟩ := hrest.over_ret
      cases he
  · exact howes.forget.kfree.kfree.noTrace_iff hrest

theorem copyRblock_fails {t : Nat} (hop : (k₁.mm m).op = .copyRblock r t) (howes : Owes m [t] k k₁)
    (hlen : 0 < r.len.toNat) : NoTrace m k k' ↔ ¬ (r.file.isSome ∧ ReadFailsAt 2 as) := by
  obtain ⟨a, rest, rfl, hrest⟩ := h.wake hnot
  simp only [resume, mm_forget, hop] at hrest
  rcases hrest.ite with hrest | hrest
  · exact copyKmalloc_fails hrest rfl (op_setOp ..) ((howes.forget.kmalloc _).setOp _) hlen
  · exact howes.forget.kfree.noTrace_iff hrest

theorem copyTblock_fails (hop : (k₁.mm m).op = .copyTblock r) (howes : Owes m [] k k₁)
    (hlen : 0 < r.len.toNat) : NoTrace m k k' ↔ ¬ (r.file.isSome ∧ ReadFailsAt 3 as) := by
  obtain ⟨a, rest, rfl, hrest⟩ := h.wake hnot
  simp only [resume, mm_forget, hop] at hrest
  rcases hrest.ite with hrest | hrest
  · exact copyRblock_fails hrest rfl (op_setOp ..) ((howes.forget.kmalloc _).setOp _) hlen
  · exact howes.forget.noTrace_iff hrest

theorem mapRblock_fails {vmStart t : Nat} (hop : (k₁.mm m).op = .mapRblock r vmStart t) :
    k'.iNumMapping = k₁.iNumMapping ∧ k'.iCount = k₁.iCount := by
  obtain ⟨a, rest, rfl, hrest⟩ := h.wake hnot
  simp only [resume, mm_forget, hop] at hrest
  rcases hrest.ite with hrest | hrest
  · obtain ⟨-, -, e, he⟩ := hrest.over_ret
    cases he
  · obtain ⟨-, rfl, -⟩ := hrest.over_ret
    exact ⟨rfl, rfl⟩

theorem mapTblock_fails {vmStart : Nat} (hop : (k₁.mm m).op = .mapTblock r vmStart) :
    k'.iNumMapping = k₁.iNumMapping ∧ k'.iCount = k₁.iCount := by
  obtain ⟨a, rest, rfl, hrest⟩ := h.wake hnot
  simp only [resume, mm_forget, hop] at hrest
  rcases hrest.ite with hrest | hrest
  · have hsame := mapRblock_fails hrest rfl (op_setOp ..)
    exact hsame
  · obtain ⟨-, rfl, -⟩ := hrest.over_ret
    exact ⟨rfl, rfl⟩

theorem cramfsRead_fails {data : Nat} (hop : (k₁.mm m).op = .cramfsRead r data)
    (hcount : k₁.iCount = k.iCount) (howes : Owes m [] k (k₁.kfree data)) (hfile : r.file.isSome)
    (hlen : 0 < r.len.toNat) : NoTrace m k k' ↔ ReadFailsAt 0 as ∧ ¬ ReadFailsAt 3 (as.drop 1) := by
  obtain ⟨a, rest, rfl, hrest⟩ := h.wake hnot
  simp only [resume, mm_forget, hop] at hrest
  cases ha : a.readErrno with
  | none =>
    have hread : ¬ ReadFailsAt 0 (a :: rest) := by
      rintro ⟨b, hb, hne⟩
      cases hb
      exact hne ha
    simp only [ha] at hrest
    obtain ⟨hop', hnot', hcount'⟩ := cramfsFilled_eq E m r data k₁.forget
    have hsame := (mapTblock_fails hrest hnot' hop').2
    refine iff_of_false (fun htrace => ?_) fun hclean => hread hclean.1
    have hnone : k'.iCount = k.iCount := htrace.iCount
    have hforget : k₁.forget.iCount = k₁.iCount := rfl
    omega
  | some e =>
    have hread : ReadFailsAt 0 (a :: rest) := ⟨a, rfl, by rw [ha]; exact Option.some_ne_none e⟩
    simp only [ha] at hrest
    by_cases he : e = ENOSYS
    · rw [if_pos he] at hrest
      rw [copyTblock_fails hrest rfl (op_setOp ..) (howes.forget.setOp _) hlen]
      simp [hread, hfile]
    · rw [if_neg he] at hrest
      obtain ⟨rfl, rfl, -⟩ := hrest.over_ret
      exact iff_of_true (howes.forget.ret r _).noTrace ⟨hread, not_readFailsAt_nil 3⟩

end

theorem cramfsFileMmap_fails {fd : Nat} (hwf : k.Wf E) (hfile : r.file = some (.cramfs fd))
    (hlen : 0 < r.len.toNat) (h : Fails E m as (k.forget.cramfsFileMmap m r) k') :
    NoTrace m k k' ↔ k.iSavedptr = 0 ∧ ReadFailsAt 1 as ∧ ¬ ReadFailsAt 3 (as.drop 2) := by
  have howes : Owes m [] k k.forget := (Owes.refl hwf.unused).forget
  unfold cramfsFileMmap at h
  by_cases hsaved : k.forget.iSavedptr ≠ 0
  · -- the mapping is counted before anything can fail
    rw [if_pos hsaved] at h
    have hnum := (mapTblock_fails h rfl (op_setOp ..)).1
    refine iff_of_false (fun htrace => ?_) fun hclean => hsaved hclean.1
    have hsame : k.iNumMapping + 1 = k.iNumMapping := hnum.symm.trans htrace.iNumMapping
    omega
  · rw [if_neg hsaved] at h
    obtain ⟨a, rest, rfl, hrest⟩ := h.wake rfl
    have hop : ((k.forget.setOp m (.cramfsKmalloc r)).forget.mm m).op = .cramfsKmalloc r :=
      op_setOp ..
    simp only [resume, hop] at hrest
    have hsome : r.file.isSome := by rw [hfile]; rfl
    rw [show k.iSavedptr = 0 from not_not.mp hsaved, eq_self, true_and]
    have howes₁ := (howes.setOp (.cramfsKmalloc r)).forget
    rcases hrest.ite with hrest | hrest
    · exact cramfsRead_fails hrest rfl (op_setOp ..) rfl ((howes₁.kmalloc _).setOp _).kfree hsome
        hlen
    · -- the read goes to NULL
      exact cramfsRead_fails hrest rfl (op_setOp ..) rfl ((howes₁.setOp _).kfree_null hwf.null)
        hsome hlen

/-- **A call that fails**, from the state that it is made in. -/
theorem noTrace_iff_failsClean (hwf : k.Wf E) (hrun : run (step E) k (mmapEvents m r as) = .ok k')
    (hret : ∃ r' e, k'.returned = some (r', .errno e)) : NoTrace m k k' ↔ FailsClean k r as := by
  obtain ⟨k₁, hcall, hrest⟩ := bind_eq_ok.mp hrun
  have hfails : Fails E m as k₁ k' := ⟨hrest, hret⟩
  have howes : Owes m [] k k.forget := (Owes.refl hwf.unused).forget
  rcases step_cases hcall with ⟨_, _, he, hcan, rfl⟩ | ⟨_, _, he, -, -⟩ | ⟨_, _, he, -⟩
  · cases he
    change Fails E m as (k.forget.doMmapPgoff m r) k' at hfails
    unfold doMmapPgoff at hfails
    cases hcheck : r.check with
    | some v =>
      simp only [hcheck] at hfails
      obtain ⟨-, rfl, -⟩ := hfails.over_ret
      exact iff_of_true (howes.ret r v).noTrace (.inl (by rw [hcheck]; exact Option.some_ne_none v))
    | none =>
      have hlen := r.len_pos hcheck
      simp only [hcheck] at hfails
      have hclean : FailsClean k r as ↔ _ := or_iff_right (fun h => h hcheck)
      rw [hclean]
      cases hfile : r.file with
      | none =>
        simp only [hfile] at hfails ⊢
        rw [copyTblock_fails hfails rfl (op_setOp ..) (howes.setOp _) hlen, hfile]
        simp
      | some file =>
        cases file with
        | cramfs fd =>
          simp only [hfile] at hfails ⊢
          exact cramfsFileMmap_fails hwf hfile hlen hfails
        | other =>
          simp only [hfile] at hfails ⊢
          rw [copyTblock_fails hfails rfl (op_setOp ..) (howes.setOp _) hlen, hfile]
          simp
        | noMmap => exact absurd hcheck (r.check_noMmap hfile)
  · cases he
  · cases he

end

end Kernel

section

variable {P : Type} [DecidableEq P] {E : Env}

/-- **A failed mmap.** From every state that can be reached, for every request
and every answer to its allocations and reads: a call that returns an error
leaves no trace exactly if it fails where that is clean. -/
theorem failed_mmap_leaves_no_trace_iff {k₀ k k' : Kernel P} {es : List (Event P)}
    (h₀ : k₀.Booted) (hreach : run (Kernel.step E) k₀ es = .ok k) (m : P) (r : Request)
    (as : List Answer) (hrun : run (Kernel.step E) k (Kernel.mmapEvents m r as) = .ok k') {e : Nat}
    (hret : k'.returned = some (r, .errno e)) :
    Kernel.NoTrace m k k' ↔ Kernel.FailsClean k r as := by
  have hwf : k.Wf E :=
    run_invariant (I := fun k => k.Wf E) (fun _ _ _ h hs => Kernel.step_wf h hs) h₀.wf hreach
  exact Kernel.noTrace_iff_failsClean hwf hrun ⟨r, e, hret⟩

end

def anonymous : Request := { file := none, len := 3 }

/-- Without memory for the region: its tblock and its rblock are freed. -/
theorem failed_mmap_anonymous : ∃ k',
    run (Kernel.step threeBytes) twoProcesses
        (Kernel.mmapEvents false anonymous [{}, {}, { kmalloc := false }]) = .ok k' ∧
      k'.returned = some (anonymous, .errno ENOMEM) ∧
      Kernel.NoTrace false twoProcesses k' := by
  obtain ⟨k', hk', hret⟩ : ∃ k', run (Kernel.step threeBytes) twoProcesses
      (Kernel.mmapEvents false anonymous [{}, {}, { kmalloc := false }]) = .ok k' ∧
        k'.returned = some (anonymous, .errno ENOMEM) := by
    decide +kernel
  refine ⟨k', hk', hret, ?_⟩
  have hreach : run (Kernel.step threeBytes) twoProcesses [] = .ok twoProcesses := rfl
  have hiff := failed_mmap_leaves_no_trace_iff twoProcesses_booted hreach false anonymous
    [{}, {}, { kmalloc := false }] hk' hret
  exact hiff.mpr (.inr trivial)

/-- The first mapping of the file without memory for the tblock: the file stays
in memory, with a mapping and a reference to the inode. -/
theorem failed_mmap_keeps_inode : ∃ k',
    run (Kernel.step threeBytes) twoProcesses
        (Kernel.mmapEvents false firstPage [{}, {}, { kmalloc := false }]) = .ok k' ∧
      k'.returned = some (firstPage, .errno ENOMEM) ∧ k'.iNumMapping = 1 ∧ k'.iCount = 2 ∧
      k'.iSavedptr = 1 ∧ (k'.blocks 1).isSome ∧ ¬ Kernel.NoTrace false twoProcesses k' := by
  obtain ⟨k', hk', hret, hnum, hcount, hsaved, hblock⟩ : ∃ k',
      run (Kernel.step threeBytes) twoProcesses
        (Kernel.mmapEvents false firstPage [{}, {}, { kmalloc := false }]) = .ok k' ∧
      k'.returned = some (firstPage, .errno ENOMEM) ∧ k'.iNumMapping = 1 ∧ k'.iCount = 2 ∧
      k'.iSavedptr = 1 ∧ (k'.blocks 1).isSome := by
    decide +kernel
  refine ⟨k', hk', hret, hnum, hcount, hsaved, hblock, fun htrace => ?_⟩
  have hsame := htrace.iCount
  rw [hcount] at hsame
  exact absurd hsame (by decide)

end Nommu
