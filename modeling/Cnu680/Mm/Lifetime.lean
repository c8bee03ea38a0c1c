import Cnu680.Mm.Counts

/-! # How long the shared buffer lives

Whatever the calls of any number of processes do and however they
interleave, the count of the inode is right in every state, the buffer
lives as long as it is mapped, and the inode is held as long as there is
a buffer, if (`Alone`)

* a first mapping that has read the file still finds `i_savedptr` 0, with
  memory for the buffer: it does not look again, and where another first
  mapping was faster it starts the count anew and lets go of the other
  buffer;
* there is memory for the tblock and the rblock: without it the count is
  not taken back.
-/

open Framework

namespace Nommu

namespace Kernel

variable {P : Type} {a : Nat}

/-! ## dup_mmap in progress -/

/-- A `dup_mmap` in progress copies tblocks of its own list to an address
space that is its alone. -/
structure Duping (k : Kernel P) : Prop where
  rest : ∀ m c ts, (k.mm m).op = .dup c ts → ∀ t ∈ ts, t ∈ (k.mm m).tblock
  child : ∀ m c ts, (k.mm m).op = .dup c ts → (k.mm c).op = .unborn
  unique : ∀ m m' c ts ts', (k.mm m).op = .dup c ts → (k.mm m').op = .dup c ts' → m = m'
  users : ∀ c, (k.mm c).op = .unborn → (k.mm c).mmUsers = 1

section

variable {k k' : Kernel P} {m c : P} {ts : List Tblock}

/-- Every `dup_mmap` in progress was there, with what is left to copy. -/
theorem Duping.of_dups (h : k.Duping)
    (hdup : ∀ m c ts, (k'.mm m).op = .dup c ts → (k'.mm c).op = .unborn ∧
      (k'.mm m).tblock = (k.mm m).tblock ∧
      ∃ ts', (k.mm m).op = .dup c ts' ∧ ∀ t ∈ ts, t ∈ ts')
    (husers : ∀ c, (k'.mm c).op = .unborn → (k'.mm c).mmUsers = 1) : k'.Duping := by
  refine ⟨fun m c ts hop t ht => ?_, fun m c ts hop => (hdup m c ts hop).1,
    fun m m' c ts ts' hop hop' => ?_, husers⟩
  · obtain ⟨-, hlist, us, hold, hsub⟩ := hdup m c ts hop
    exact hlist ▸ h.rest m c us hold t (hsub t ht)
  · obtain ⟨-, -, us, hold, -⟩ := hdup m c ts hop
    obtain ⟨-, -, us', hold', -⟩ := hdup m' c ts' hop'
    exact h.unique m m' c us us' hold hold'

theorem Duping.of_others (h : k.Duping) (hothers : ∀ m' ≠ m, k'.mm m' = k.mm m')
    (hold : (k.mm m).op ≠ .unborn) (hunborn : (k'.mm m).op ≠ .unborn)
    (hdup : ∀ c ts, (k'.mm m).op = .dup c ts →
      (k.mm m).op = .dup c ts ∧ (k'.mm m).tblock = (k.mm m).tblock) : k'.Duping := by
  refine h.of_dups (fun m' c ts hop => ?_) fun c hc => ?_
  · have hbefore : (k.mm m').op = .dup c ts ∧ (k'.mm m').tblock = (k.mm m').tblock := by
      by_cases hm : m' = m
      · rw [hm] at hop ⊢
        exact hdup c ts hop
      · rw [hothers m' hm] at hop ⊢
        exact ⟨hop, rfl⟩
    have hc := h.child m' c ts hbefore.1
    refine ⟨?_, hbefore.2, ts, hbefore.1, fun t ht => ht⟩
    rw [hothers c fun he => hold (he ▸ hc)]
    exact hc
  · have hcm : c ≠ m := fun he => hunborn (he ▸ hc)
    rw [hothers c hcm] at hc ⊢
    exact h.users c hc

/-- What one address space does, if it has nothing left to do after it. -/
theorem Duping.of_idle (h : k.Duping) (hothers : ∀ m' ≠ m, k'.mm m' = k.mm m')
    (hold : (k.mm m).op ≠ .unborn) (hidle : (k'.mm m).op = .idle) : k'.Duping := by
  refine h.of_others hothers hold ?_ ?_
  · rw [hidle]
    intro he
    cases he
  · intro c ts he
    rw [hidle] at he
    cases he

theorem ne_unborn_of_idle (h : (k.mm m).op = .idle) : (k.mm m).op ≠ .unborn := by
  rw [h]
  intro he
  cases he

theorem Duping.start (h : k.Duping) (hm : (k.mm m).op = .idle) (hc : (k.mm c).op = .idle)
    (hothers : ∀ m', m' ≠ m → m' ≠ c → k'.mm m' = k.mm m')
    (hm' : k'.mm m = { k.mm m with op := .dup c (k.mm m).tblock })
    (hc' : k'.mm c = { mmUsers := 1, op := .unborn }) : k'.Duping := by
  -- the `dup_mmap`s of others were there, and none of them fills `m` or `c`
  have hbefore : ∀ {m' d : P} {ts : List Tblock}, m' ≠ m → (k'.mm m').op = .dup d ts →
      k'.mm m' = k.mm m' ∧ d ≠ c ∧ d ≠ m := by
    intro m' d ts hne hop
    have hmc' : m' ≠ c := by
      intro he
      rw [he, hc'] at hop
      cases hop
    have hsame := hothers m' hne hmc'
    rw [hsame] at hop
    have hd := h.child m' d ts hop
    refine ⟨hsame, ?_, ?_⟩
    · intro he
      rw [he, hc] at hd
      cases hd
    · intro he
      rw [he, hm] at hd
      cases hd
  have hself : ∀ {d : P} {ts : List Tblock}, (k'.mm m).op = .dup d ts →
      d = c ∧ ts = (k.mm m).tblock := by
    intro d ts hop
    rw [hm'] at hop
    cases hop
    exact ⟨rfl, rfl⟩
  refine ⟨?_, ?_, ?_, ?_⟩
  · intro m' d ts hop t ht
    by_cases hne : m' = m
    · rw [hne] at hop ⊢
      rw [(hself hop).2] at ht
      rw [hm']
      exact ht
    · have hsame := (hbefore hne hop).1
      rw [hsame] at hop ⊢
      exact h.rest m' d ts hop t ht
  · intro m' d ts hop
    by_cases hne : m' = m
    · rw [hne] at hop
      rw [(hself hop).1, hc']
    · obtain ⟨hsame, hdc, hdm⟩ := hbefore hne hop
      rw [hothers d hdm hdc]
      rw [hsame] at hop
      exact h.child m' d ts hop
  · intro m₁ m₂ d ts ts' h₁ h₂
    by_cases h₁m : m₁ = m
    · by_cases h₂m : m₂ = m
      · rw [h₁m, h₂m]
      · rw [h₁m] at h₁
        exact absurd (hself h₁).1 (hbefore h₂m h₂).2.1
    · by_cases h₂m : m₂ = m
      · rw [h₂m] at h₂
        exact absurd (hself h₂).1 (hbefore h₁m h₁).2.1
      · rw [(hbefore h₁m h₁).1] at h₁
        rw [(hbefore h₂m h₂).1] at h₂
        exact h.unique m₁ m₂ d ts ts' h₁ h₂
  · intro d hd
    by_cases hdc : d = c
    · rw [hdc, hc']
    · by_cases hdm : d = m
      · rw [hdm, hm'] at hd
        cases hd
      · rw [hothers d hdm hdc] at hd ⊢
        exact h.users d hd

theorem Duping.round {us : List Tblock} (h : k.Duping) (hm : (k.mm m).op = .dup c us)
    (hsub : ∀ t ∈ ts, t ∈ us) (hothers : ∀ m', m' ≠ m → m' ≠ c → k'.mm m' = k.mm m')
    (hm' : k'.mm m = { k.mm m with op := .dup c ts })
    (hc' : (k'.mm c).op = (k.mm c).op ∧ (k'.mm c).mmUsers = (k.mm c).mmUsers) : k'.Duping := by
  have hcop := h.child m c us hm
  refine h.of_dups (fun m' d vs hop => ?_) fun d hd => ?_
  · by_cases hne : m' = m
    · rw [hne, hm'] at hop ⊢
      cases hop
      exact ⟨hc'.1.trans hcop, rfl, us, hm, hsub⟩
    · -- what copies and is not `m` is not the child either: it is as before
      have hnc : m' ≠ c := by
        intro he
        rw [he, hc'.1, hcop] at hop
        cases hop
      rw [hothers m' hne hnc] at hop ⊢
      have hd := h.child m' d vs hop
      refine ⟨?_, rfl, vs, hop, fun t ht => ht⟩
      by_cases hdc : d = c
      · rw [hdc, hc'.1, hcop]
      · have hdm : d ≠ m := by
          intro he
          rw [he, hm] at hd
          cases hd
        rw [hothers d hdm hdc, hd]
  · by_cases hdc : d = c
    · rw [hdc, hc'.2]
      exact h.users c hcop
    · have hdm : d ≠ m := by
        intro he
        rw [he, hm'] at hd
        cases hd
      rw [hothers d hdm hdc] at hd ⊢
      exact h.users d hd

theorem Duping.ne_child (h : k.Duping) (hm : (k.mm m).op = .dup c ts) : m ≠ c := by
  intro he
  have hunborn := h.child m c _ hm
  rw [← he, hm] at hunborn
  cases hunborn

theorem Duping.finish (h : k.Duping) (hm : (k.mm m).op = .dup c ts)
    (hothers : ∀ m', m' ≠ m → m' ≠ c → k'.mm m' = k.mm m') (hm' : (k'.mm m).op = .idle)
    (hc' : (k'.mm c).op = .idle) : k'.Duping := by
  -- what is in a call is neither the parent nor the child: it is as before
  have hbefore : ∀ m', (k'.mm m').op ≠ .idle → m' ≠ m ∧ k'.mm m' = k.mm m' := by
    intro m' hop
    have hne : m' ≠ m := fun he => hop (he ▸ hm')
    exact ⟨hne, hothers m' hne fun he => hop (he ▸ hc')⟩
  refine h.of_dups (fun m' d us hop => ?_) fun d hd => ?_
  · obtain ⟨hne, hsame⟩ := hbefore m' (by rw [hop]; exact nofun)
    rw [hsame] at hop ⊢
    have hd := h.child m' d us hop
    -- `c` had no other parent than `m`
    have hdc : d ≠ c := by
      intro he
      rw [he] at hop
      exact hne (h.unique m' m c us ts hop hm)
    have hdm : d ≠ m := by
      intro he
      rw [he, hm] at hd
      cases hd
    rw [hothers d hdm hdc]
    exact ⟨hd, rfl, us, hop, fun t ht => ht⟩
  · obtain ⟨-, hsame⟩ := hbefore d (by rw [hd]; exact nofun)
    rw [hsame] at hd ⊢
    exact h.users d hd

end

/-! ## Steps -/

section

variable [Fintype P] [DecidableEq P] {E : Env} {k : Kernel P} {n : Int} {m : P}

/-- The call of `m` is about to lose count. -/
def losesCount (m : P) (a : Answer) (k : Kernel P) : Bool :=
  match (k.mm m).op with
  | .cramfsRead _ data => a.readErrno.isNone && (data == 0 || k.iSavedptr != 0)
  | .mapTblock _ _ | .mapRblock _ _ _ => !a.kmalloc
  | _ => false

/-- The step is not one of those. -/
def Alone (k : Kernel P) : Event P → Prop
  | .resume m a => k.losesCount m a = false
  | .call _ _ | .seek _ _ => True

instance (k : Kernel P) (e : Event P) : Decidable (k.Alone e) :=
  match e with
  | .resume m a => inferInstanceAs (Decidable (k.losesCount m a = false))
  | .call _ _ | .seek _ _ => .isTrue trivial

structure Tracked (E : Env) (n : Int) (k : Kernel P) : Prop where
  wf : k.Wf E
  shared : k.Shared n
  duping : k.Duping

omit [Fintype P] [DecidableEq P] in
theorem same_kfree {κ : Kind} (ha : k.blocks a = some (.fresh m κ)) : Same k (k.kfree a) := by
  refine Same.kfree fun b hb => ?_
  rw [ha] at hb
  cases hb
  trivial

omit [Fintype P] [DecidableEq P] in
theorem same_kfree_two {t rb : Nat} (ht : k.blocks t = some (.fresh m .tblock))
    (hrb : k.blocks rb = some (.fresh m .rblock)) : Same k ((k.kfree rb).kfree t) := by
  exact (same_kfree hrb).trans (same_kfree (fresh_kfree ht hrb (by decide)))

omit [Fintype P] [DecidableEq P] in
theorem Fit.same_kmalloc (h : k.Fit E m) (κ : Kind) : Same k (k.kmalloc (.fresh m κ)) :=
  Same.kmalloc (h.unused _ (Nat.le_refl _)) trivial

omit [Fintype P] in
theorem unused_iff {c : P} (h : k.unused c) : (k.mm c).op = .idle ∧ (k.mm c).tblock = [] := by
  simp only [Kernel.unused, Bool.and_eq_true, beq_iff_eq, List.isEmpty_iff] at h
  exact ⟨h.1.2, h.2⟩

omit [Fintype P] in
theorem op_of_last (h : k.runs m) (hlast : (k.mm m).mmUsers - 1 = 0) : (k.mm m).op = .idle := by
  simp only [Kernel.runs, Bool.and_eq_true, bne_iff_ne, Bool.or_eq_true, beq_iff_eq,
    decide_eq_true_eq] at h
  rcases h.2 with hop | hmore
  · exact hop
  · omega

/-- One round of `dup_mmap`: one tblock more of the child, or the end of it. -/
theorem Shared.dupRound {c : P} {t : Tblock} (h : k.Shared n) (hfit : k.Fit E m)
    (hmem : t ∈ (k.mm m).tblock) (hv : (k.mm m).op.vmStart = none)
    (hvc : (k.mm c).op.vmStart = none) (ts : List Tblock) (a : Answer) :
    (k.dupRound E m c t ts a).Shared n := by
  obtain ⟨b, hb, -⟩ := h.linked.refs t.rblock (refs_of_mem hmem)
  unfold Kernel.dupRound
  split
  · rw [rblockAt_eq_some.mpr hb]
    dsimp only
    refine Shared.dupNext ?_ ?_ ?_ ts
    · exact (h.dupLink (c := c) hfit hb).of_same
        ⟨rfl, rfl, rfl, rfl, fun _ _ _ => Iff.rfl, rfl⟩
    · rw [op_setTblock]
      exact hv
    · rw [op_setTblock]
      exact hvc
  · -- no memory: what the child has is given back
    refine (h.exitMmap hfit hvc).setOp ?_
    by_cases hmc : m = c
    · rw [hmc, mm_exitMmap_self]
    · rw [mm_exitMmap_of_ne hmc]
      exact hv.symm

/-- **A call goes on**, one case for each place where it sleeps. -/
theorem Shared.resume {a : Answer} (h : k.Shared n) (hfit : k.Fit E m) (hop : k.OpOk m (k.mm m).op)
    (hdup : k.Duping) (halone : k.Alone (.resume m a)) : (k.resume E m a).Shared n := by
  unfold Kernel.resume
  split
  · exact h
  · exact h
  · next heq =>
    -- `cramfs_file_mmap` asks for the buffer
    have hv := congrArg Op.vmStart heq
    split
    · exact (h.of_same (hfit.same_kmalloc .data)).setOp hv.symm
    · exact h.setOp hv.symm
  · next r data heq =>
    -- the file has been read into the buffer; that it failed frees the buffer
    have hv := congrArg Op.vmStart heq
    simp only [Alone, losesCount, heq] at halone
    rw [heq] at hop
    have hfree : (k.kfree data).Shared n := by
      refine h.of_same (Same.kfree fun b hb => ?_)
      rw [hop (hfit.ne_zero hb)] at hb
      cases hb
      trivial
    split
    · next hread =>
      obtain ⟨h0, hs⟩ : data ≠ 0 ∧ k.iSavedptr = 0 := by simpa [hread] using halone
      exact ⟨h.linked.cramfsFilled hop, h.counted.cramfsFilled hfit hs h0 (hop h0)⟩
    · split
      · exact hfree.setOp hv.symm
      · exact hfree.ret hv _
  · next r v heq =>
    -- the counted call asks for its tblock: a refusal would lose count
    simp only [Alone, losesCount, heq, Bool.not_eq_false'] at halone
    rw [if_pos halone]
    refine (h.of_same (hfit.same_kmalloc .tblock)).setOp ?_
    change some v = (k.mm m).op.vmStart
    rw [heq]
    rfl
  · next r v t heq =>
    -- then for its rblock, and is linked
    simp only [Alone, losesCount, heq, Bool.not_eq_false'] at halone
    rw [if_pos halone]
    have hv := congrArg Op.vmStart heq
    rw [heq] at hop
    exact (h.of_same (hfit.same_kmalloc .rblock)).linkMapped (t := ⟨t, k.next⟩)
      (hfit.kmalloc (b := .fresh m .rblock) trivial) (hfit.blocks_kmalloc _ hop)
      (blocks_kmalloc_self _ k) hv rfl rfl rfl _
  · next heq =>
    -- a call that makes a copy asks for its tblock
    have hv := congrArg Op.vmStart heq
    split
    · exact (h.of_same (hfit.same_kmalloc .tblock)).setOp hv.symm
    · exact h.ret hv _
  · next r t heq =>
    -- then for its rblock
    have hv := congrArg Op.vmStart heq
    rw [heq] at hop
    split
    · exact (h.of_same (hfit.same_kmalloc .rblock)).setOp hv.symm
    · exact (h.of_same (same_kfree hop)).ret hv _
  · next r t rb heq =>
    -- then for the memory, which an anonymous mapping needs nothing more for
    have hv := congrArg Op.vmStart heq
    rw [heq] at hop
    obtain ⟨ht, hrb⟩ := hop
    split
    · have hsame := (hfit.same_kmalloc .data).account (E.ksize r.len.toNat) r.len.toNat
      have ht' := hfit.blocks_kmalloc (.fresh m .data) ht
      have hrb' := hfit.blocks_kmalloc (.fresh m .data) hrb
      dsimp only
      split
      · exact (h.of_same hsame).setOp hv.symm
      · exact (h.of_same hsame).copyDone ht' hrb' (blocks_kmalloc_self _ k) hv
    · exact (h.of_same (same_kfree_two ht hrb)).ret hv _
  · next r t rb res heq =>
    -- the file has been read into the copy
    have hv := congrArg Op.vmStart heq
    rw [heq] at hop
    obtain ⟨ht, hrb, hres⟩ := hop
    split
    · unfold Kernel.copied Kernel.copyAdvance
      split
      · exact (h.of_same ((Same.refl k).advance _ _)).copyDone ht hrb hres hv
      · exact h.copyDone ht hrb hres hv
    · -- the read has failed: all three blocks are given back
      have ht' := fresh_kfree ht hres (by decide)
      have hrb' := fresh_kfree hrb hres (by decide)
      exact (h.of_same ((same_kfree hres).trans (same_kfree_two ht' hrb'))).ret hv _
  · next c heq =>
    have hv := congrArg Op.vmStart heq
    have hvc : (k.mm c).op.vmStart = none := by rw [hdup.child m c _ heq]; rfl
    exact h.dupNext hv hvc []
  · next c t ts heq =>
    have hv := congrArg Op.vmStart heq
    have hvc : (k.mm c).op.vmStart = none := by rw [hdup.child m c _ heq]; rfl
    exact h.dupRound hfit (hdup.rest m c _ heq t List.mem_cons_self) hv hvc ts a

theorem Shared.call {c : Call P} (h : k.Shared n) (hfit : k.Fit E m)
    (hcan : k.canCall m c) : (k.call E m c).Shared n := by
  match c with
  | .mmap r =>
    refine h.doMmapPgoff ?_
    rw [op_of_rests hcan]
    rfl
  | .munmap addr => exact h.doMunmap hfit addr
  | .clone => exact ⟨h.linked.setMm fun _ => rfl, h.counted.setMm rfl⟩
  | .fork child =>
    obtain ⟨hop, hlist⟩ := unused_iff (Bool.and_eq_true_iff.mp hcan).2
    refine ⟨h.linked.setMm fun a => ?_, h.counted.setMm ?_⟩
    · rw [Mm.refs, Mm.refs, hlist]
    · rw [hop]
  | .dup child =>
    obtain ⟨hrests, hunused⟩ := Bool.and_eq_true_iff.mp hcan
    obtain ⟨hop, hlist⟩ := unused_iff hunused
    -- an empty child is neither linked to nor counted
    have h' : (k.setMm child { mmUsers := 1, op := .unborn }).Shared n := by
      refine ⟨h.linked.setMm fun a => ?_, h.counted.setMm ?_⟩
      · rw [Mm.refs, Mm.refs, hlist]
      · rw [hop]
        rfl
    refine h'.dupNext ?_ ?_ _
    · by_cases hmc : m = child
      · rw [hmc, setMm_self]
        rfl
      · rw [setMm_of_ne _ hmc, op_of_rests hrests]
        rfl
    · rw [setMm_self]
      rfl
  | .exit =>
    change (k.mmput E m).Shared n
    -- `exit_mmap` runs for the last process only
    unfold Kernel.mmput
    split
    · next hlast =>
      refine h.exitMmap hfit ?_
      rw [op_of_last hcan hlast]
      rfl
    · exact ⟨h.linked.setMm fun _ => rfl, h.counted.setMm rfl⟩

end

section

variable [DecidableEq P] {E : Env} {k : Kernel P} {m : P} {r : Request}

omit [DecidableEq P] in
theorem Mapping.not_dup {op : Op P} (h : Mapping op) : op ≠ .unborn ∧ ∀ c ts, op ≠ .dup c ts := by
  rcases h with h | h
  · rw [h]
    exact ⟨nofun, nofun⟩
  · refine ⟨?_, ?_⟩
    · intro he
      rw [he] at h
      exact h rfl
    · intro c ts he
      rw [he] at h
      exact h rfl

theorem Duping.dupNext {k' : Kernel P} {c : P} {ts us : List Tblock} (h : k.Duping)
    (hop : (k.mm m).op = .dup c us) (hsub : ∀ t ∈ ts, t ∈ us)
    (hothers : ∀ m' ≠ c, k'.mm m' = k.mm m')
    (hc : (k'.mm c).op = (k.mm c).op ∧ (k'.mm c).mmUsers = (k.mm c).mmUsers) :
    (k'.dupNext m c ts).Duping := by
  have hmc := h.ne_child hop
  match ts with
  | [] =>
    -- nothing is left to copy: parent and child are released
    refine h.finish hop ?_ (op_setOp m .idle _) ?_
    · intro m' hm hc'
      exact (mm_setOp_of_ne _ hm).trans ((mm_setOp_of_ne _ hc').trans (hothers m' hc'))
    · change ((((k'.setOp c .idle).setOp m .idle).mm c).op) = .idle
      rw [mm_setOp_of_ne _ hmc.symm, op_setOp]
  | t :: ts =>
    -- the parent goes on with the rest, from where it was
    refine h.round hop hsub ?_ ?_ ?_
    · intro m' hm hc'
      exact (mm_setOp_of_ne _ hm).trans (hothers m' hc')
    · change (k'.setOp m (.dup c (t :: ts))).mm m = _
      rw [Kernel.setOp, setMm_self, hothers m hmc]
    · change ((k'.setOp m (.dup c (t :: ts))).mm c).op = _ ∧
        ((k'.setOp m (.dup c (t :: ts))).mm c).mmUsers = _
      rw [mm_setOp_of_ne _ hmc.symm]
      exact hc

theorem Duping.resume {a : Answer} (h : k.Duping) (hs : k.sleeps m) : (k.resume E m a).Duping := by
  by_cases hdup : ∃ c ts, (k.mm m).op = .dup c ts
  · obtain ⟨c, ts, hop⟩ := hdup
    have hmc := h.ne_child hop
    match ts with
    | [] =>
      rw [show k.resume E m a = k.dupNext m c [] by rw [Kernel.resume, hop]]
      exact h.dupNext hop (fun t ht => ht) (fun _ _ => rfl) ⟨rfl, rfl⟩
    | t :: ts =>
      rw [show k.resume E m a = k.dupRound E m c t ts a by rw [Kernel.resume, hop]]
      unfold Kernel.dupRound
      split
      · dsimp only
        split
        all_goals
          refine h.dupNext hop (fun u hu => List.mem_cons_of_mem t hu)
            (fun m' hc => setMm_of_ne _ hc) ?_
          rw [Kernel.setTblock, setMm_self]
          exact ⟨rfl, rfl⟩
      · -- without memory the child is emptied and the call is over
        refine h.finish hop ?_ (op_setOp m .idle _) ?_
        · intro m' hm hc
          exact (mm_setOp_of_ne _ hm).trans (mm_exitMmap_of_ne hc)
        · rw [mm_setOp_of_ne _ hmc.symm, mm_exitMmap_self]
  · -- a call of `do_mmap_pgoff` touches its own address space only
    have hnone : ∀ c ts, (k.mm m).op ≠ .dup c ts := fun c ts he => hdup ⟨c, ts, he⟩
    have hreq : (k.mm m).op.request ≠ none := by
      cases hop : (k.mm m).op <;> simp_all [sleeps, Op.request]
    have hmap := maps_resume (E := E) hreq a
    refine h.of_others hmap.others ?_ hmap.mapping.not_dup.1 ?_
    · intro he
      exact not_sleeps_of_op (.inr he) hs
    · intro c ts he
      exact absurd he (hmap.mapping.not_dup.2 c ts)

theorem Duping.not_unborn (h : k.Duping) (hruns : k.runs m) : (k.mm m).op ≠ .unborn := by
  intro hop
  have husers := h.users m hop
  simp [Kernel.runs, hop, husers] at hruns

theorem Duping.setUsers (h : k.Duping) (hm : (k.mm m).op ≠ .unborn) (users : Nat) :
    (k.setMm m { k.mm m with mmUsers := users }).Duping := by
  refine h.of_others (fun m' hm => setMm_of_ne _ hm) hm ?_ ?_
  · rw [setMm_self]
    exact hm
  · intro c ts hop
    rw [setMm_self] at hop ⊢
    exact ⟨hop, rfl⟩

theorem Duping.call {c : Call P} (h : k.Duping) (hcan : k.canCall m c) : (k.call E m c).Duping := by
  cases c with
  | mmap r =>
    have hmap := maps_doMmapPgoff m r k
    refine h.of_others hmap.others (ne_unborn_of_idle (op_of_rests hcan)) hmap.mapping.not_dup.1 ?_
    intro c ts he
    exact absurd he (hmap.mapping.not_dup.2 c ts)
  | munmap addr =>
    have hop : ((k.doMunmap E m addr).mm m).op = .idle :=
      (op_doMunmap E m addr k).trans (op_of_rests hcan)
    exact h.of_idle (fun m' hm => mm_doMunmap_of_ne addr hm)
      (ne_unborn_of_idle (op_of_rests hcan)) hop
  | clone => exact h.setUsers (h.not_unborn hcan) _
  | fork child =>
    obtain ⟨hop, -⟩ := unused_iff (Bool.and_eq_true_iff.mp hcan).2
    have hmm : (k.setMm child { mmUsers := 1 }).mm child = { mmUsers := 1 } := setMm_self _ _ _
    exact h.of_idle (m := child) (fun m' hm => setMm_of_ne _ hm) (ne_unborn_of_idle hop)
      (congrArg Mm.op hmm)
  | dup child =>
    obtain ⟨hrests, hunused⟩ := Bool.and_eq_true_iff.mp hcan
    obtain ⟨hop, -⟩ := unused_iff hunused
    have hidle := op_of_rests hrests
    have hmc : m ≠ child := by
      intro he
      rw [he] at hrests
      simp only [Kernel.rests, Kernel.unused, Bool.and_eq_true, bne_iff_ne, beq_iff_eq]
        at hrests hunused
      exact hrests.1 hunused.1.1
    change ((k.setMm child { mmUsers := 1, op := .unborn }).dupNext m child
      (k.mm m).tblock).Duping
    cases hts : (k.mm m).tblock with
    | nil =>
      -- nothing to copy: the child is ready at once
      have hchild : (((k.setMm child { mmUsers := 1, op := .unborn }).dupNext m child []).mm
          child).op = .idle := by
        change ((((k.setMm child _).setOp child .idle).setOp m .idle).mm child).op = .idle
        rw [mm_setOp_of_ne _ hmc.symm, op_setOp]
      refine h.of_idle (m := child) ?_ (ne_unborn_of_idle hop) hchild
      intro m' hm
      change (((k.setMm child _).setOp child .idle).setOp m .idle).mm m' = k.mm m'
      have hmm : ((k.setMm child { mmUsers := 1, op := .unborn }).setOp child .idle).mm m' =
          k.mm m' := (mm_setOp_of_ne _ hm).trans (setMm_of_ne _ hm)
      by_cases hm' : m' = m
      · rw [hm'] at hmm ⊢
        rw [Kernel.setOp, setMm_self, hmm, ← hidle]
      · rw [mm_setOp_of_ne _ hm', hmm]
    | cons t ts =>
      refine h.start hidle hop ?_ ?_ ?_
      · intro m' hm hc
        exact (mm_setOp_of_ne _ hm).trans (setMm_of_ne _ hc)
      · change ((k.setMm child { mmUsers := 1, op := .unborn }).setOp m
          (.dup child (t :: ts))).mm m = _
        rw [Kernel.setOp, setMm_self, setMm_of_ne _ hmc, hts]
      · change ((k.setMm child { mmUsers := 1, op := .unborn }).setOp m
          (.dup child (t :: ts))).mm child = _
        rw [mm_setOp_of_ne _ hmc.symm, setMm_self]
  | exit =>
    change (k.mmput E m).Duping
    unfold Kernel.mmput
    split
    · have hmm := mm_exitMmap_self (E := E) m k
      exact h.of_idle (fun m' hm => mm_exitMmap_of_ne hm) (h.not_unborn hcan) (congrArg Mm.op hmm)
    · exact h.setUsers (h.not_unborn hcan) _

end

/-! ## Runs -/

section

variable [Fintype P] [DecidableEq P] {E : Env} {k k' : Kernel P} {n : Int}

omit [DecidableEq P] in
theorem Shared.forget (h : k.Shared n) : k.forget.Shared n :=
  h.of_same ⟨rfl, rfl, rfl, rfl, fun _ _ _ => Iff.rfl, rfl⟩

omit [DecidableEq P] in
theorem Shared.seek (h : k.Shared n) (fd pos : Nat) : (k.seek fd pos).Shared n :=
  h.of_same ⟨rfl, rfl, rfl, rfl, fun _ _ _ => Iff.rfl, rfl⟩

/-- **A step that does not lose count keeps both counts.** -/
theorem step_tracked {e : Event P} (h : k.Tracked E n) (halone : k.Alone e)
    (hs : k.step E e = .ok k') : k'.Tracked E n := by
  refine ⟨step_wf h.wf hs, ?_, ?_⟩
  · -- a call, what a sleeping call does next, or a seek
    rcases step_cases hs with ⟨m, c, -, hcan, rfl⟩ | ⟨m, a, rfl, -, rfl⟩ | ⟨fd, pos, -, rfl⟩
    · exact h.shared.forget.call (h.wf.forget.fit m) hcan
    · exact h.shared.forget.resume (h.wf.forget.fit m) (h.wf.op m)
        { h.duping with } halone
    · exact h.shared.forget.seek fd pos
  · have hforget : k.forget.Duping := { h.duping with }
    rcases step_cases hs with ⟨m, c, -, hcan, rfl⟩ | ⟨m, a, rfl, hsleep, rfl⟩ | ⟨fd, pos, -, rfl⟩
    · exact hforget.call hcan
    · exact hforget.resume hsleep
    · exact { h.duping with }

omit [DecidableEq P] in
theorem Booted.tracked (h : k.Booted) : k.Tracked E k.iCount := by
  -- no block, no tblock and no call: every sum is zero
  have hmapped : k.mapped = 0 := tally_eq_zero fun a _ => by rw [h.blocks a]; rfl
  have hholding : k.holding = 0 := tally_eq_zero fun m _ => by rw [Mm.holds, (h.mm m).2]; rfl
  have hrefs : ∀ a, k.refs a = 0 := fun a =>
    tally_eq_zero fun m _ => by rw [Mm.refs, (h.mm m).1]; rfl
  have hno : ∀ a b, k.blocks a ≠ some b := by
    intro a b hb
    rw [h.blocks a] at hb
    cases hb
  have hop : ∀ m op, (k.mm m).op = op → op = .idle := fun m op he => he ▸ (h.mm m).2
  -- and what is said of blocks or of calls in progress is said of nothing
  refine ⟨h.wf, ⟨⟨?_, ?_⟩, ⟨?_, ?_, ?_, ?_, ?_, ?_⟩⟩, ⟨?_, ?_, ?_, ?_⟩⟩
  · intro a ha
    exact absurd (hrefs a) ha
  · intro a b hb
    exact absurd hb (hno a _)
  · intro a b hb _
    exact absurd hb (hno a _)
  · intro m v hv
    rw [(h.mm m).2] at hv
    cases hv
  · rw [h.iNumMapping, hmapped, hholding]
    rfl
  · rw [h.iSavedptr, hmapped, hholding]
  · intro a bytes fill hb
    exact absurd hb (hno a _)
  · rw [if_pos h.iSavedptr, add_zero]
  · intro m c ts hd
    cases hop m _ hd
  · intro m c ts hd
    cases hop m _ hd
  · intro m m' c ts ts' hd
    cases hop m _ hd
  · intro c hc
    cases hop c _ hc

/-- The rblocks mapped from the inode that tblocks of processes point to. -/
def mappedRblocks (k : Kernel P) : Finset Nat :=
  Finset.univ.biUnion fun m => ((k.mm m).tblock.map Tblock.rblock).toFinset.filter fun a =>
    ((k.rblockAt a).any Rblock.isMmapped : Bool)

/-- There is a buffer. -/
def HasBuffer (k : Kernel P) : Prop := ∃ a bytes fill, k.blocks a = some (.buffer bytes fill)

/-- What is said of the shared buffer. -/
structure Sound (n : Int) (k : Kernel P) : Prop where
  /-- A mapped rblock has the buffer of the inode, and the buffer is there. -/
  live : ∀ a b, k.blocks a = some (.rblock b) → b.isMmapped → b.kblock = k.iSavedptr ∧
    ∃ bytes fill, k.blocks b.kblock = some (.buffer bytes fill)
  /-- With no call in progress the inode counts the mapped rblocks. -/
  num : k.Quiet → k.iNumMapping = k.mappedRblocks.card
  /-- There is no buffer but that of the inode. -/
  buffer : ∀ a bytes fill, k.blocks a = some (.buffer bytes fill) → a = k.iSavedptr
  /-- With no call in progress there is one exactly while it is mapped. -/
  freed : k.Quiet → (k.HasBuffer ↔ k.mappedRblocks.Nonempty)
  /-- The inode is held exactly while there is a buffer. -/
  count : (k.HasBuffer → k.iCount = n + 1) ∧ (¬ k.HasBuffer → k.iCount = n)

omit [DecidableEq P] in
theorem Linked.exists_tblock (h : k.Linked) {b : Rblock}
    (hb : k.blocks a = some (.rblock b)) : ∃ m, ∃ t ∈ (k.mm m).tblock, t.rblock = a := by
  obtain ⟨m, -, hm⟩ := exists_of_tally_ne_zero (h.linked a b hb)
  obtain ⟨t, ht, hta⟩ := List.countP_pos_iff.mp (Nat.pos_of_ne_zero hm)
  exact ⟨m, t, ht, by simpa using hta⟩

omit [DecidableEq P] in
theorem mem_mappedRblocks (h : k.Linked) :
    a ∈ k.mappedRblocks ↔ ∃ b, k.blocks a = some (.rblock b) ∧ b.isMmapped := by
  simp only [mappedRblocks, Finset.mem_biUnion, Finset.mem_univ, true_and, Finset.mem_filter,
    List.mem_toFinset, List.mem_map, Option.any_eq_true]
  constructor
  · intro hm
    obtain ⟨m, -, b, hb, hmap⟩ := hm
    exact ⟨b, rblockAt_eq_some.mp hb, hmap⟩
  · intro hb
    obtain ⟨b, hb, hmap⟩ := hb
    obtain ⟨m, t, ht, hta⟩ := h.exists_tblock hb
    exact ⟨m, ⟨t, ht, hta⟩, b, rblockAt_eq_some.mpr hb, hmap⟩

omit [DecidableEq P] in
theorem mapped_eq_card (h : k.Linked) (hlt : ∀ a b, k.blocks a = some b → a < k.next) :
    k.mapped = k.mappedRblocks.card := by
  have hweight : ∀ a, mappedWeight (k.blocks a) = if a ∈ k.mappedRblocks then 1 else 0 := by
    intro a
    split
    · next hmem =>
      obtain ⟨b, hb, hm⟩ := (mem_mappedRblocks h).mp hmem
      rw [hb, mappedWeight, if_pos hm]
    · next hmem =>
      by_contra hne
      exact hmem ((mem_mappedRblocks h).mpr (exists_of_mappedWeight_ne_zero hne))
  rw [mapped, tally_eq_card hweight]
  congr 1
  ext a
  rw [Finset.mem_filter, Finset.mem_range]
  refine ⟨fun h => h.2, fun ha => ⟨?_, ha⟩⟩
  obtain ⟨b, hb, -⟩ := (mem_mappedRblocks h).mp ha
  exact hlt a _ hb

omit [DecidableEq P] in
theorem Tracked.sound (h : k.Tracked E n) : k.Sound n := by
  have hc := h.shared.counted
  have hcard := mapped_eq_card h.shared.linked fun a b hb => h.wf.lt_next hb
  have hlive : k.iSavedptr ≠ 0 ↔ k.HasBuffer := by
    refine ⟨fun hs => ⟨_, h.wf.saved hs⟩, fun hb => ?_⟩
    obtain ⟨a, bytes, fill, hb⟩ := hb
    rw [← hc.buffer a bytes fill hb]
    exact h.wf.ne_zero hb
  -- with no call in progress nobody holds the buffer without an rblock
  have hquiet : k.Quiet → k.holding = 0 := by
    intro hq
    refine tally_eq_zero fun m' _ => holds_of_none ?_
    rw [hq m']
    rfl
  refine ⟨?_, ?_, hc.buffer, ?_, ?_⟩
  · intro a b hb hm
    have hk := hc.kblock a b hb hm
    refine ⟨hk, hk ▸ h.wf.saved ?_⟩
    have hmem := (mem_mappedRblocks h.shared.linked).mpr ⟨b, hb, hm⟩
    have hpos := Finset.card_pos.mpr ⟨a, hmem⟩
    exact hc.saved.mpr (by omega)
  · intro hq
    rw [hc.num, hquiet hq, hcard]
    rfl
  · intro hq
    rw [← hlive, hc.saved, hquiet hq, hcard, add_zero, ← Finset.card_pos]
    omega
  · refine ⟨fun hb => ?_, fun hb => ?_⟩
    · rw [hc.count, if_neg (hlive.mpr hb)]
    · rw [hc.count, if_pos (not_ne_iff.mp (mt hlive.mp hb)), add_zero]

end

end Kernel

section

variable {P : Type} [Fintype P] [DecidableEq P] {E : Env}

/-- **The shared buffer lives as long as it is mapped**: in every run of any
number of processes none of whose steps loses count, however their calls
interleave. -/
theorem shared_buffer_lifetime {k₀ k : Kernel P} {es : List (Event P)} (h₀ : k₀.Booted)
    (halone : Along (Kernel.step E) Kernel.Alone k₀ es)
    (hrun : run (Kernel.step E) k₀ es = .ok k) : k.Sound k₀.iCount := by
  have htracked : k.Tracked E k₀.iCount :=
    run_invariant_along (I := fun k => k.Tracked E k₀.iCount)
      (fun k e k' h hC hs => Kernel.step_tracked h hC hs) h₀.tracked halone hrun
  exact htracked.sound

end

/-- Both processes map the file, one after the other; the first unmaps it and
exits. -/
def handOver : List (Event Bool) :=
  mapFirst ++ mapSecond ++ [.call false (.munmap 1), .call false .exit]

theorem shared_buffer_lifetime_hand_over : ∃ k,
    run (Kernel.step threeBytes) twoProcesses handOver = .ok k ∧ k.iNumMapping = 1 ∧
      k.iSavedptr = 1 ∧ k.iCount = 2 ∧ k.Sound 1 := by
  have halone : Along (Kernel.step threeBytes) Kernel.Alone twoProcesses handOver := by
    decide +kernel
  obtain ⟨k, hk, hnum, hsaved, hcount⟩ : ∃ k,
      run (Kernel.step threeBytes) twoProcesses handOver = .ok k ∧ k.iNumMapping = 1 ∧
        k.iSavedptr = 1 ∧ k.iCount = 2 := by
    decide +kernel
  exact ⟨k, hk, hnum, hsaved, hcount, shared_buffer_lifetime twoProcesses_booted halone hk⟩

/-- Two first mappings: both find `i_savedptr` 0, and both read. -/
def mapTogether : List (Event Bool) :=
  [.call false (.mmap firstPage), .call true (.mmap firstPage)] ++
    List.replicate 2 (.resume false {}) ++ List.replicate 2 (.resume true {}) ++
    List.replicate 2 (.resume false {}) ++ List.replicate 2 (.resume true {})

/-- The second to come back from the read starts the count anew: two rblocks
are counted once, and the inode is held twice. -/
theorem first_mappings_lose_count : ∃ k,
    run (Kernel.step threeBytes) twoProcesses mapTogether = .ok k ∧ k.Quiet ∧
      k.mappedRblocks.card = 2 ∧ k.iNumMapping = 1 ∧ k.iCount = 3 ∧ ¬ k.Sound 1 := by
  obtain ⟨k, hk, hquiet, hcard, hnum, hcount⟩ : ∃ k,
      run (Kernel.step threeBytes) twoProcesses mapTogether = .ok k ∧
        (∀ m, (k.mm m).op = .idle) ∧ k.mappedRblocks.card = 2 ∧ k.iNumMapping = 1 ∧
        k.iCount = 3 := by
    decide +kernel
  refine ⟨k, hk, hquiet, hcard, hnum, hcount, fun hsound => ?_⟩
  have hnum' := hsound.num hquiet
  rw [hcard, hnum] at hnum'
  exact absurd hnum' (by decide)

end Nommu
