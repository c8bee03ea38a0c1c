import Cnu680.Mm.Mmap

/-! # The kernel's blocks

What holds of the blocks in every run, however the calls interleave and
whatever fails: a sleeping call owns what it has allocated (`OpOk`), an
address on a list that is freed is that of a tblock, the memory an rblock
frees is a copy and never the shared buffer, `i_savedptr` is 0 or the
address of a buffer, and a buffer has the bytes it was filled with
(`Fit`, `Wf`).

Addresses are not used twice, so what was once said of an address holds
until its block is freed (`Only`).
-/

open Framework Function

namespace Nommu

variable {P : Type} {k' : Kernel P} {op : Op P}

def Block.IsCopy : Block P → Prop
  | .copy _ _ => True
  | _ => False

namespace Kernel

/-- `a` is or was the address of a block with `p`. -/
def Only (k : Kernel P) (a : Nat) (p : Block P → Prop) : Prop :=
  a < k.next ∧ ∀ b, k.blocks a = some b → p b

/-- A block has the bytes it was filled with; the memory of an rblock that is
not mapped from a file is a copy. -/
def BlockOk (E : Env) (k : Kernel P) : Block P → Prop
  | .rblock b => b.isMmapped = false → k.Only b.kblock Block.IsCopy
  | .buffer bytes fill => bytes = E.filled fill
  | .copy bytes (some fill) => bytes = E.filled fill
  | _ => True

/-- A sleeping call owns what it has allocated. -/
def OpOk (k : Kernel P) (m : P) : Op P → Prop
  | .cramfsRead _ data => data ≠ 0 → k.blocks data = some (.fresh m .data)
  | .mapRblock _ _ t => k.blocks t = some (.fresh m .tblock)
  | .copyRblock _ t => k.blocks t = some (.fresh m .tblock)
  | .copyKmalloc _ t rb =>
    k.blocks t = some (.fresh m .tblock) ∧ k.blocks rb = some (.fresh m .rblock)
  | .copyRead _ t rb res =>
    k.blocks t = some (.fresh m .tblock) ∧ k.blocks rb = some (.fresh m .rblock) ∧
      k.blocks res = some (.fresh m .data)
  | _ => True

/-- What holds of the blocks apart from the sleeping calls. -/
structure Intact (E : Env) (k : Kernel P) : Prop where
  null : k.blocks 0 = none
  next_pos : 0 < k.next
  unused : ∀ a, k.next ≤ a → k.blocks a = none
  block : ∀ a b, k.blocks a = some b → k.BlockOk E b
  listed : ∀ m, ∀ t ∈ (k.mm m).tblock, k.Only t.tblock (· = .tblock)
  saved : k.iSavedptr ≠ 0 → ∃ bytes fill, k.blocks k.iSavedptr = some (.buffer bytes fill)

/-- The kernel is well formed, but for what the call of `m` owns. -/
structure Fit (E : Env) (m : P) (k : Kernel P) : Prop extends Intact E k where
  others : ∀ m' ≠ m, k.OpOk m' (k.mm m').op

structure Wf (E : Env) (k : Kernel P) : Prop extends Intact E k where
  op : ∀ m, k.OpOk m (k.mm m).op

variable {E : Env} {k : Kernel P} {ts : List Tblock} {a a' : Nat}

theorem Wf.fit (h : k.Wf E) (m : P) : k.Fit E m :=
  ⟨h.toIntact, fun m' _ => h.op m'⟩

theorem Wf.of_fit {m : P} (h : k.Fit E m) (hop : k.OpOk m (k.mm m).op) : k.Wf E := by
  refine ⟨h.toIntact, fun m' => ?_⟩
  by_cases hm : m' = m
  · rw [hm]
    exact hop
  · exact h.others m' hm

theorem Booted.wf (h : k.Booted) : k.Wf E := by
  refine ⟨⟨h.blocks 0, h.next_pos, fun a _ => h.blocks a, ?_, ?_, ?_⟩, ?_⟩
  · intro a b hb
    rw [h.blocks a] at hb
    cases hb
  · intro m t ht
    rw [(h.mm m).1] at ht
    cases ht
  · intro hne
    exact absurd h.iSavedptr hne
  · intro m
    rw [(h.mm m).2]
    trivial

/-! ## One block changes -/

section

variable {E : Env} {m m' : P} {k : Kernel P} {a x : Nat} {b : Block P} {p : Block P → Prop}
  {b₀ : Block P}

theorem Intact.lt_next (h : k.Intact E) (ha : k.blocks a = some b) : a < k.next := by
  by_contra hge
  rw [h.unused a (Nat.le_of_not_lt hge)] at ha
  cases ha

theorem Intact.ne_zero (h : k.Intact E) (ha : k.blocks a = some b) : a ≠ 0 := by
  intro h0
  rw [h0, h.null] at ha
  cases ha

theorem Intact.only (h : k.Intact E) (ha : k.blocks a = some b) (hb : p b) : k.Only a p := by
  refine ⟨h.lt_next ha, fun b' hb' => ?_⟩
  cases ha.symm.trans hb'
  exact hb

theorem blocks_kmalloc_self (b : Block P) (k : Kernel P) : (k.kmalloc b).blocks k.next = some b :=
  update_self ..

theorem blocks_kmalloc_of_ne (b : Block P) (hx : x ≠ k.next) :
    (k.kmalloc b).blocks x = k.blocks x :=
  update_of_ne hx ..

theorem Intact.blocks_kmalloc (h : k.Intact E) (b : Block P) (ha : k.blocks a = some b₀) :
    (k.kmalloc b).blocks a = some b₀ :=
  (blocks_kmalloc_of_ne b (Nat.ne_of_lt (h.lt_next ha))).trans ha

theorem blocks_put_self (a : Nat) (b : Block P) (k : Kernel P) : (k.put a b).blocks a = some b :=
  update_self ..

theorem blocks_put_of_ne (b : Block P) (hx : x ≠ a) : (k.put a b).blocks x = k.blocks x :=
  update_of_ne hx ..

theorem blocks_of_put {b' : Block P} (h : (k.put a b).blocks x = some b') :
    x = a ∧ b' = b ∨ x ≠ a ∧ k.blocks x = some b' := by
  by_cases hx : x = a
  · rw [hx, blocks_put_self] at h
    exact .inl ⟨hx, (Option.some.inj h).symm⟩
  · exact .inr ⟨hx, (blocks_put_of_ne b hx).symm.trans h⟩

theorem blocks_kfree_self (a : Nat) (k : Kernel P) : (k.kfree a).blocks a = none :=
  update_self ..

theorem blocks_kfree_of_ne (hx : x ≠ a) : (k.kfree a).blocks x = k.blocks x :=
  update_of_ne hx ..

theorem blocks_of_kfree (h : (k.kfree a).blocks x = some b) : k.blocks x = some b := by
  by_cases hx : x = a
  · rw [hx, blocks_kfree_self] at h
    cases h
  · rwa [blocks_kfree_of_ne hx] at h

theorem Only.kmalloc (h : k.Only x p) (b : Block P) : (k.kmalloc b).Only x p := by
  refine ⟨Nat.lt_succ_of_lt h.1, fun b' hb' => h.2 b' ?_⟩
  rwa [blocks_kmalloc_of_ne b (Nat.ne_of_lt h.1)] at hb'

theorem Only.kfree (h : k.Only x p) (a : Nat) : (k.kfree a).Only x p :=
  ⟨h.1, fun b' hb' => h.2 b' (blocks_of_kfree hb')⟩

theorem Only.put (h : k.Only x p) (hold : k.blocks a = some b₀) (h₀ : ¬ p b₀) (b : Block P) :
    (k.put a b).Only x p := by
  have hx : x ≠ a := by
    rintro rfl
    exact h₀ (h.2 b₀ hold)
  refine ⟨h.1, fun b' hb' => h.2 b' ?_⟩
  rwa [blocks_put_of_ne b hx] at hb'

theorem BlockOk.mono (h : k.BlockOk E b)
    (hcopy : ∀ a, k.Only a Block.IsCopy → k'.Only a Block.IsCopy) : k'.BlockOk E b := by
  match b with
  | .rblock _ => exact fun hm => hcopy _ (h hm)
  | .buffer _ _ => exact h
  | .copy _ (some _) => exact h
  | .copy _ none => trivial
  | .fresh _ _ => trivial
  | .tblock => trivial

theorem OpOk.mono (h : k.OpOk m op)
    (hkeep : ∀ a κ, k.blocks a = some (.fresh m κ) → k'.blocks a = some (.fresh m κ)) :
    k'.OpOk m op := by
  match op with
  | .cramfsRead _ _ => exact fun h0 => hkeep _ _ (h h0)
  | .mapRblock _ _ _ | .copyRblock _ _ => exact hkeep _ _ h
  | .copyKmalloc _ _ _ => exact ⟨hkeep _ _ h.1, hkeep _ _ h.2⟩
  | .copyRead _ _ _ _ => exact ⟨hkeep _ _ h.1, hkeep _ _ h.2.1, hkeep _ _ h.2.2⟩
  | .idle | .unborn | .cramfsKmalloc _ | .mapTblock _ _ | .copyTblock _ | .dup _ _ => trivial

/-- The call of `m` may change the block: it is its own, or an rblock. -/
def Yields (m : P) : Block P → Prop
  | .fresh m' _ => m' = m
  | .rblock _ => True
  | _ => False

theorem Fit.kmalloc (h : k.Fit E m) (hb : k.BlockOk E b) : (k.kmalloc b).Fit E m := by
  refine ⟨⟨?_, Nat.succ_pos _, ?_, ?_, ?_, ?_⟩, ?_⟩
  · rw [blocks_kmalloc_of_ne b (Nat.ne_of_lt h.next_pos), h.null]
  · intro x hx
    rw [blocks_kmalloc_of_ne b (Nat.ne_of_gt hx), h.unused x (Nat.le_of_succ_le hx)]
  · intro x b' hb'
    refine BlockOk.mono ?_ fun _ h => h.kmalloc b
    rcases blocks_of_put (a := k.next) hb' with ⟨-, rfl⟩ | ⟨-, hb'⟩
    · exact hb
    · exact h.block x b' hb'
  · exact fun m' t ht => (h.listed m' t ht).kmalloc b
  · intro hne
    obtain ⟨bytes, fill, hs⟩ := h.saved hne
    exact ⟨bytes, fill, h.blocks_kmalloc b hs⟩
  · exact fun m' hm => (h.others m' hm).mono fun a κ ha => h.blocks_kmalloc b ha

theorem Fit.put (h : k.Fit E m) (hold : k.blocks a = some b₀) (h₀ : Yields m b₀)
    (hb : k.BlockOk E b) : (k.put a b).Fit E m := by
  -- what is overwritten is neither a copy nor a tblock, so nothing that points to one is hurt
  have hcopy : ¬ b₀.IsCopy := by
    match b₀ with
    | .fresh _ _ => exact id
    | .rblock _ => exact id
  have htblock : b₀ ≠ .tblock := by
    rintro rfl
    exact h₀
  refine ⟨⟨?_, h.next_pos, ?_, ?_, ?_, ?_⟩, ?_⟩
  · rw [blocks_put_of_ne b (h.ne_zero hold).symm, h.null]
  · intro x hx
    rw [blocks_put_of_ne b (Nat.ne_of_gt (Nat.lt_of_lt_of_le (h.lt_next hold) hx)), h.unused x hx]
  · intro x b' hb'
    refine BlockOk.mono ?_ fun _ h => h.put hold hcopy b
    rcases blocks_of_put hb' with ⟨-, rfl⟩ | ⟨-, hb'⟩
    · exact hb
    · exact h.block x b' hb'
  · exact fun m' t ht => (h.listed m' t ht).put hold htblock b
  · intro hne
    obtain ⟨bytes, fill, hs⟩ := h.saved hne
    have hsa : k.iSavedptr ≠ a := by
      intro hsa
      rw [hsa, hold] at hs
      cases hs
      exact h₀
    exact ⟨bytes, fill, (blocks_put_of_ne b hsa).trans hs⟩
  · intro m' hm
    refine (h.others m' hm).mono fun x κ hx => ?_
    have hxa : x ≠ a := by
      rintro rfl
      rw [hold] at hx
      cases hx
      exact hm h₀
    rw [blocks_put_of_ne b hxa, hx]

theorem Fit.kfree (h : k.Fit E m) (hsaved : a = k.iSavedptr → k.iSavedptr = 0)
    (hown : ∀ m' κ, k.blocks a = some (.fresh m' κ) → m' = m) : (k.kfree a).Fit E m := by
  refine ⟨⟨?_, h.next_pos, ?_, ?_, ?_, ?_⟩, ?_⟩
  · by_cases ha : 0 = a
    · rw [← ha, blocks_kfree_self]
    · rw [blocks_kfree_of_ne ha, h.null]
  · intro x hx
    by_cases hxa : x = a
    · rw [hxa, blocks_kfree_self]
    · rw [blocks_kfree_of_ne hxa, h.unused x hx]
  · exact fun x b' hb' => (h.block x b' (blocks_of_kfree hb')).mono fun _ h => h.kfree a
  · exact fun m' t ht => (h.listed m' t ht).kfree a
  · intro hne
    obtain ⟨bytes, fill, hs⟩ := h.saved hne
    refine ⟨bytes, fill, ?_⟩
    have hsa : k.iSavedptr ≠ a := fun hsa => hne (hsaved hsa.symm)
    exact (blocks_kfree_of_ne hsa).trans hs
  · intro m' hm
    refine (h.others m' hm).mono fun x κ hx => ?_
    have hxa : x ≠ a := by
      rintro rfl
      exact hm (hown m' κ hx)
    rw [blocks_kfree_of_ne hxa, hx]

theorem Fit.kfree_fresh {κ : Kind} (h : k.Fit E m) (ha : k.blocks a = some (.fresh m κ)) :
    (k.kfree a).Fit E m := by
  refine h.kfree ?_ ?_
  · intro hs
    by_contra hne
    obtain ⟨bytes, fill, hbuf⟩ := h.saved hne
    rw [← hs, ha] at hbuf
    cases hbuf
  · intro m' κ' hm
    rw [ha] at hm
    cases hm
    rfl

theorem Fit.kfree_only (h : k.Fit E m) (ha : k.Only a p)
    (hbuf : ∀ bytes fill, ¬ p (.buffer bytes fill)) (hfresh : ∀ m' κ, ¬ p (.fresh m' κ)) :
    (k.kfree a).Fit E m := by
  refine h.kfree ?_ ?_
  · intro hs
    by_contra hne
    obtain ⟨bytes, fill, hb⟩ := h.saved hne
    rw [← hs] at hb
    exact hbuf bytes fill (ha.2 _ hb)
  · intro m' κ hm
    exact absurd (ha.2 _ hm) (hfresh m' κ)

end

/-! ## The rest of the state -/

section

variable {E : Env} {m c : P} {k : Kernel P}

theorem Fit.account (h : k.Fit E m) (real asked : Int) : (k.account real asked).Fit E m :=
  { h with }

theorem Fit.advance (h : k.Fit E m) (fd n : Nat) : (k.advance fd n).Fit E m :=
  { h with }

theorem Fit.savePtr {data : Nat} (h : k.Fit E m)
    (hdata : data ≠ 0 → ∃ bytes fill, k.blocks data = some (.buffer bytes fill)) :
    (k.savePtr data).Fit E m :=
  { h with saved := hdata }

theorem Wf.of_idle (h : k.Fit E m) (hop : (k.mm m).op = .idle) : k.Wf E := by
  refine Wf.of_fit h ?_
  rw [hop]
  trivial

variable [DecidableEq P]

theorem setMm_self (m : P) (x : Mm P) (k : Kernel P) : (k.setMm m x).mm m = x :=
  update_self ..

theorem setMm_of_ne (x : Mm P) (h : c ≠ m) : (k.setMm m x).mm c = k.mm c :=
  update_of_ne h ..

theorem Fit.setMm {x : Mm P} (h : k.Fit E m) (hts : ∀ t ∈ x.tblock, k.Only t.tblock (· = .tblock))
    (hop : c ≠ m → k.OpOk c x.op) : (k.setMm c x).Fit E m := by
  refine ⟨⟨h.null, h.next_pos, h.unused, h.block, ?_, h.saved⟩, ?_⟩
  · intro m' t ht
    by_cases hc : m' = c
    · rw [hc, setMm_self] at ht
      exact hts t ht
    · rw [setMm_of_ne x hc] at ht
      exact h.listed m' t ht
  · intro m' hm
    by_cases hc : m' = c
    · rw [hc, setMm_self]
      exact hop (hc ▸ hm)
    · rw [setMm_of_ne x hc]
      exact h.others m' hm

theorem Fit.setOp (h : k.Fit E m) (op : Op P) : (k.setOp m op).Fit E m :=
  h.setMm (h.listed m) fun hne => absurd rfl hne

theorem Fit.setTblock (h : k.Fit E m)
    (hts : ∀ t ∈ ts, k.Only t.tblock (· = .tblock)) : (k.setTblock c ts).Fit E m :=
  h.setMm hts fun hne => h.others c hne

theorem Fit.ret (h : k.Fit E m) (r : Request) (v : Ret) : (k.ret m r v).Fit E m :=
  have h' := h.setOp .idle
  { h' with }

theorem op_setOp (m : P) (op : Op P) (k : Kernel P) : ((k.setOp m op).mm m).op = op := by
  rw [setOp, setMm_self]

theorem op_ret (m : P) (r : Request) (v : Ret) (k : Kernel P) : ((k.ret m r v).mm m).op = .idle :=
  op_setOp m .idle k

theorem Fit.wf_ret (h : k.Fit E m) (r : Request) (v : Ret) : (k.ret m r v).Wf E :=
  Wf.of_idle (h.ret r v) (op_ret m r v k)

theorem Fit.wf_setOp (h : k.Fit E m) (hop : k.OpOk m op) : (k.setOp m op).Wf E := by
  refine Wf.of_fit (h.setOp op) ?_
  rw [op_setOp]
  exact hop

end

/-! ## The functions of the source -/

section

variable {E : Env} {m c : P} {k : Kernel P} {a : Nat} {r : Request} {x : Nat} {p : Block P → Prop}
  {b : Rblock} {t : Tblock}

theorem Fit.cramfsFileMunmap (h : k.Fit E m) : k.cramfsFileMunmap.Fit E m := by
  unfold Kernel.cramfsFileMunmap
  split
  · next hne =>
    split
    · obtain ⟨bytes, fill, hs⟩ := h.saved hne
      have h' : ({ k with
          iSavedptr := 0, iNumMapping := k.iNumMapping - 1, iCount := k.iCount - 1 } :
          Kernel P).Fit E m :=
        { h with saved := fun h0 => absurd rfl h0 }
      refine Fit.kfree (a := k.iSavedptr) h' (fun _ => rfl) fun m' κ hm => ?_
      have hs' : k.blocks k.iSavedptr = some (.fresh m' κ) := hm
      rw [hs] at hs'
      cases hs'
    · exact { h with }
  · exact h

def IsRblock : Block P → Prop
  | .rblock _ => True
  | _ => False

theorem only_cramfsFileMunmap (h : k.Only x p) : k.cramfsFileMunmap.Only x p := by
  unfold Kernel.cramfsFileMunmap
  split
  · split
    · exact h.kfree k.iSavedptr
    · exact h
  · exact h

theorem rblockAt_eq_some : k.rblockAt a = some b ↔ k.blocks a = some (.rblock b) := by
  unfold rblockAt
  split
  · next b' hb =>
    rw [hb]
    simp
  · next hno =>
    exact ⟨fun h => absurd h (by simp), fun h => absurd h (hno b)⟩

theorem Fit.releaseKblock (h : k.Fit E m) (hb : k.blocks a = some (.rblock b)) :
    (k.releaseKblock E b).Fit E m := by
  unfold Kernel.releaseKblock
  split
  · exact h.cramfsFileMunmap
  · next hm =>
    have hcopy : k.Only b.kblock Block.IsCopy := h.block a _ hb (by simpa using hm)
    split
    · exact (h.account _ _).kfree_only (p := Block.IsCopy) hcopy (fun _ _ => id) fun _ _ => id
    · exact h

theorem only_releaseKblock (h : k.Only x p) : (k.releaseKblock E b).Only x p := by
  unfold Kernel.releaseKblock
  split
  · exact only_cramfsFileMunmap h
  · split
    · exact h.kfree b.kblock
    · exact h

theorem Fit.releaseRblock (h : k.Fit E m) (hb : k.blocks a = some (.rblock b)) :
    (k.releaseRblock E a b).Fit E m := by
  have hr : k.Only a IsRblock := h.only hb trivial
  exact ((h.releaseKblock hb).account _ _).kfree_only (p := IsRblock) (only_releaseKblock hr)
    (fun _ _ => id) fun _ _ => id

theorem only_dropRblock (h : k.Only x p) (hp : ∀ b, ¬ p (.rblock b)) :
    (k.dropRblock E a).Only x p := by
  unfold Kernel.dropRblock
  match hb : k.rblockAt a with
  | none => exact h
  | some b =>
    dsimp only
    split
    · exact (only_releaseKblock h).kfree a
    · exact h.put (rblockAt_eq_some.mp hb) (hp b) _

theorem Fit.dropRblock (h : k.Fit E m) (a : Nat) : (k.dropRblock E a).Fit E m := by
  unfold Kernel.dropRblock
  match hb : k.rblockAt a with
  | none => exact h
  | some b =>
    have hb' := rblockAt_eq_some.mp hb
    dsimp only
    split
    · exact h.releaseRblock hb'
    · have hok : k.BlockOk E (.rblock b) := h.block a _ hb'
      exact h.put hb' trivial hok

theorem mm_cramfsFileMunmap (k : Kernel P) : k.cramfsFileMunmap.mm = k.mm := by
  unfold Kernel.cramfsFileMunmap
  split
  · split <;> rfl
  · rfl

theorem mm_releaseKblock (E : Env) (b : Rblock) (k : Kernel P) :
    (k.releaseKblock E b).mm = k.mm := by
  unfold Kernel.releaseKblock
  split
  · exact mm_cramfsFileMunmap k
  · split <;> rfl

theorem mm_dropRblock (E : Env) (a : Nat) (k : Kernel P) : (k.dropRblock E a).mm = k.mm := by
  unfold Kernel.dropRblock
  split
  · split
    · exact mm_releaseKblock E _ k
    · rfl
  · rfl

variable [DecidableEq P]

omit [DecidableEq P] in
theorem ne_of_blocks {x y : Block P} (ha : k.blocks a = some x) (ha' : k.blocks a' = some y)
    (hne : x ≠ y) : a ≠ a' := by
  intro he
  rw [he, ha'] at ha
  exact hne (Option.some.inj ha).symm

omit [DecidableEq P] in
theorem fresh_put {κ κ' : Kind} (b : Block P) (ha : k.blocks a = some (.fresh m κ))
    (ha' : k.blocks a' = some (.fresh m κ')) (hκ : κ ≠ κ') :
    (k.put a' b).blocks a = some (.fresh m κ) :=
  (blocks_put_of_ne b (ne_of_blocks ha ha' (by simpa using hκ))).trans ha

omit [DecidableEq P] in
theorem fresh_kfree {κ κ' : Kind} (ha : k.blocks a = some (.fresh m κ))
    (ha' : k.blocks a' = some (.fresh m κ')) (hκ : κ ≠ κ') :
    (k.kfree a').blocks a = some (.fresh m κ) :=
  (blocks_kfree_of_ne (ne_of_blocks ha ha' (by simpa using hκ))).trans ha

theorem Fit.link (h : k.Fit E m) (ht : k.blocks t.tblock = some (.fresh m .tblock))
    (hrb : k.blocks t.rblock = some (.fresh m .rblock)) (hb : k.BlockOk E (.rblock b)) :
    (k.link E m t b).Fit E m := by
  have hne : t.rblock ≠ t.tblock := ne_of_blocks hrb ht (by simp)
  have h₁ : (k.put t.tblock .tblock).Fit E m := h.put ht rfl trivial
  have hrb₁ := fresh_put .tblock hrb ht (by decide)
  have h₂ := h₁.put hrb₁ rfl (hb.mono fun _ h => h.put ht id .tblock)
  refine (h₂.account _ _).setTblock ?_
  intro u hu
  -- the new tblock, or one that was on the list
  rcases List.mem_cons.mp hu with rfl | hu
  · have hself : ((k.put u.tblock .tblock).put u.rblock (.rblock b)).blocks u.tblock =
        some .tblock := by
      rw [blocks_put_of_ne _ hne.symm, blocks_put_self]
    exact h₂.only hself rfl
  · exact h₂.listed m u hu

theorem Fit.copyDone {result : Nat} {bytes : List UInt8} {fill : Option Fill} (h : k.Fit E m)
    (ht : k.blocks t.tblock = some (.fresh m .tblock))
    (hrb : k.blocks t.rblock = some (.fresh m .rblock))
    (hres : k.blocks result = some (.fresh m .data)) (hb : k.BlockOk E (.copy bytes fill)) :
    (k.copyDone E m r t result (.copy bytes fill)).Wf E := by
  have h₁ := h.put hres rfl hb
  have ht₁ := fresh_put (.copy bytes fill) ht hres (by decide)
  have hrb₁ := fresh_put (.copy bytes fill) hrb hres (by decide)
  exact Fit.wf_ret (h₁.link ht₁ hrb₁ fun _ => h₁.only (b := .copy bytes fill)
    (blocks_put_self _ _ _) trivial) r _

theorem Fit.cramfsSavedPtr (h : k.Fit E m) : (k.cramfsSavedPtr m r).Wf E := by
  have h' : ({ k with iNumMapping := k.iNumMapping + 1 } : Kernel P).Fit E m :=
    { h with }
  exact h'.wf_setOp trivial

theorem Fit.cramfsFilled {data : Nat} (h : k.Fit E m)
    (hdata : data ≠ 0 → k.blocks data = some (.fresh m .data)) :
    (k.cramfsFilled E m r data).Wf E := by
  unfold Kernel.cramfsFilled
  have h₁ := h.advance r.fd (E.readAt ⟨k.fPos r.fd, r.len.toNat⟩).length
  by_cases h0 : data ≠ 0
  · simp only [if_pos h0]
    refine Fit.cramfsSavedPtr (Fit.savePtr (h₁.put (hdata h0) rfl rfl) ?_)
    exact fun _ => ⟨_, _, blocks_put_self _ _ _⟩
  · simp only [if_neg h0]
    exact Fit.cramfsSavedPtr (h₁.savePtr fun hne => absurd hne h0)

theorem Fit.releaseTblock (h : k.Fit E m) (ht : k.Only t.tblock (· = .tblock))
    (hts : ∀ u ∈ ts, k.Only u.tblock (· = .tblock)) : (k.releaseTblock E c t ts).Fit E m := by
  have hdrop : ∀ {u : Tblock}, k.Only u.tblock (· = .tblock) →
      (k.dropRblock E t.rblock).Only u.tblock (· = .tblock) :=
    fun hu => only_dropRblock hu nofun
  have h' := (h.dropRblock t.rblock).setTblock (c := c) fun u hu => hdrop (hts u hu)
  exact (h'.account _ _).kfree_only (p := (· = .tblock)) (hdrop ht) nofun nofun

theorem tblock_setTblock (c : P) (ts : List Tblock) (k : Kernel P) :
    ((k.setTblock c ts).mm c).tblock = ts := by
  rw [Kernel.setTblock, setMm_self]

/-- **The loop of `exit_mmap`** keeps the kernel well formed. -/
theorem Fit.exitLoop (h : k.Fit E m) (hts : (k.mm c).tblock = ts) :
    (Kernel.exitLoop E c ts k).Fit E m := by
  induction ts generalizing k with
  | nil => exact h
  | cons t ts ih =>
    have honly : ∀ u ∈ t :: ts, k.Only u.tblock (· = .tblock) := hts ▸ h.listed c
    exact ih (h.releaseTblock (honly t List.mem_cons_self)
      fun u hu => honly u (List.mem_cons_of_mem t hu)) (tblock_setTblock c ts _)

theorem Fit.exitMmap (h : k.Fit E m) (c : P) : (k.exitMmap E c).Fit E m :=
  (h.exitLoop rfl).setMm nofun fun _ => trivial

end

/-! ## Steps -/

section

variable [DecidableEq P] {E : Env} {m : P} {k : Kernel P}

theorem Fit.doMmapPgoff (h : k.Fit E m) (r : Request) : (k.doMmapPgoff m r).Wf E := by
  unfold Kernel.doMmapPgoff
  split
  · exact h.wf_ret r _
  · split
    · unfold Kernel.cramfsFileMmap
      split
      · exact h.cramfsSavedPtr
      · exact h.wf_setOp trivial
    · exact h.wf_setOp trivial

theorem Fit.doMunmap (h : k.Fit E m) (addr : Nat) : (k.doMunmap E m addr).Fit E m := by
  unfold Kernel.doMunmap
  split
  · exact h
  · split
    · exact h
    · next t ht =>
      exact h.releaseTblock (h.listed m t (List.mem_of_find?_eq_some ht))
        fun u hu => h.listed m u (List.mem_of_mem_eraseP hu)

theorem op_doMunmap (E : Env) (m : P) (addr : Nat) (k : Kernel P) :
    ((k.doMunmap E m addr).mm m).op = (k.mm m).op := by
  unfold Kernel.doMunmap
  split
  · rfl
  · split
    · rfl
    · next t _ =>
      change (((k.dropRblock E t.rblock).setTblock m _).mm m).op = _
      rw [Kernel.setTblock, setMm_self, mm_dropRblock]

theorem Fit.dupNext {child : P} (h : k.Fit E m) (ts : List Tblock) :
    (k.dupNext m child ts).Wf E := by
  match ts with
  | [] => exact Fit.wf_setOp (h.setMm (h.listed child) fun _ => trivial) trivial
  | t :: ts => exact h.wf_setOp trivial

theorem Fit.dupRound {child : P} (h : k.Fit E m) (t : Tblock) (ts : List Tblock) (a : Answer) :
    (k.dupRound E m child t ts a).Wf E := by
  unfold Kernel.dupRound
  split
  · have h₁ := (h.kmalloc (b := .tblock) trivial).account (E.ksize sizeofTblock) sizeofTblock
    -- whether or not the rblock is there, the new tblock is at the end of the list
    have hnew : ∀ {k' : Kernel P}, k'.Fit E m → k'.mm = k.mm →
        k'.blocks k.next = some .tblock →
        ((k'.setTblock child ((k.mm child).tblock ++ [⟨k.next, t.rblock⟩])).dupNext m child
          ts).Wf E := by
      intro k' h' hmm hself
      refine Fit.dupNext (h'.setTblock fun u hu => ?_) ts
      rcases List.mem_append.mp hu with hu | hu
      · exact h'.listed child u (hmm ▸ hu)
      · rw [List.mem_singleton.mp hu]
        exact h'.only hself rfl
    dsimp only
    match hb : k.rblockAt t.rblock with
    | none => exact hnew h₁ rfl (blocks_kmalloc_self .tblock k)
    | some b =>
      have hb' := rblockAt_eq_some.mp hb
      have hne : t.rblock ≠ k.next := Nat.ne_of_lt (h.lt_next hb')
      have hok : (k.kmalloc .tblock).BlockOk E (.rblock b) :=
        (h.block _ _ hb').mono fun _ h => h.kmalloc _
      refine hnew (h₁.put (h.blocks_kmalloc _ hb') trivial hok) rfl ?_
      exact (blocks_put_of_ne _ hne.symm).trans (blocks_kmalloc_self .tblock k)
  · exact (h.exitMmap child).wf_setOp trivial

theorem Fit.resume (h : k.Fit E m) (hop : k.OpOk m (k.mm m).op) (a : Answer) :
    (k.resume E m a).Wf E := by
  unfold Kernel.resume
  split
  · exact Wf.of_fit h hop
  · exact Wf.of_fit h hop
  · -- cramfs_file_mmap, in kmalloc
    split
    · exact (h.kmalloc (b := .fresh m .data) trivial).wf_setOp
        fun _ => blocks_kmalloc_self _ k
    · exact h.wf_setOp fun h0 => absurd rfl h0
  · -- cramfs_file_mmap, in the read
    next r data heq =>
    rw [heq] at hop
    have hfree : (k.kfree data).Fit E m := by
      by_cases h0 : data = 0
      · refine h.kfree (fun hs => hs ▸ h0) fun m' κ hm => ?_
        rw [h0, h.null] at hm
        cases hm
      · exact h.kfree_fresh (hop h0)
    split
    · exact h.cramfsFilled hop
    · split
      · exact hfree.wf_setOp trivial
      · exact hfree.wf_ret r _
  · split
    · exact (h.kmalloc (b := .fresh m .tblock) trivial).wf_setOp (blocks_kmalloc_self _ k)
    · exact h.wf_ret _ _
  · next r vmStart t heq =>
    rw [heq] at hop
    split
    · exact Fit.wf_ret ((h.kmalloc (b := .fresh m .rblock) trivial).link (t := ⟨t, k.next⟩)
        (h.blocks_kmalloc _ hop) (blocks_kmalloc_self _ k) fun hm => absurd hm (by simp)) r _
    · exact (h.kfree_fresh hop).wf_ret r _
  · split
    · exact (h.kmalloc (b := .fresh m .tblock) trivial).wf_setOp (blocks_kmalloc_self _ k)
    · exact h.wf_ret _ _
  · next r t heq =>
    rw [heq] at hop
    split
    · exact (h.kmalloc (b := .fresh m .rblock) trivial).wf_setOp
        ⟨h.blocks_kmalloc _ hop, blocks_kmalloc_self _ k⟩
    · exact (h.kfree_fresh hop).wf_ret r _
  · next r t rb heq =>
    rw [heq] at hop
    obtain ⟨ht, hrb⟩ := hop
    split
    · have ht' := h.blocks_kmalloc (.fresh m .data) ht
      have hrb' := h.blocks_kmalloc (.fresh m .data) hrb
      have h' := (h.kmalloc (b := .fresh m .data) trivial).account (E.ksize r.len.toNat) r.len.toNat
      dsimp only
      split
      · exact h'.wf_setOp ⟨ht', hrb', blocks_kmalloc_self _ k⟩
      · exact h'.copyDone ht' hrb' (blocks_kmalloc_self _ k) trivial
    · exact ((h.kfree_fresh hrb).kfree_fresh (fresh_kfree ht hrb (by decide))).wf_ret r _
  · next r t rb res heq =>
    rw [heq] at hop
    obtain ⟨ht, hrb, hres⟩ := hop
    split
    · unfold Kernel.copied Kernel.copyAdvance
      split
      · exact (h.advance _ _).copyDone ht hrb hres rfl
      · exact h.copyDone ht hrb hres trivial
    · have hrb' := fresh_kfree hrb hres (by decide)
      have ht' := fresh_kfree (fresh_kfree ht hres (by decide)) hrb' (by decide)
      exact (((h.kfree_fresh hres).kfree_fresh hrb').kfree_fresh ht').wf_ret r _
  · exact h.dupNext []
  · exact h.dupRound _ _ a

omit [DecidableEq P] in
theorem Wf.forget (h : k.Wf E) : k.forget.Wf E :=
  { h with }

omit [DecidableEq P] in
theorem Wf.seek (h : k.Wf E) (fd pos : Nat) : (k.seek fd pos).Wf E :=
  { h with }

theorem Wf.setMm {c : P} {x : Mm P} (h : k.Wf E)
    (hts : ∀ t ∈ x.tblock, k.Only t.tblock (· = .tblock)) (hop : k.OpOk c x.op) :
    (k.setMm c x).Wf E := by
  refine Wf.of_fit ((h.fit c).setMm hts fun _ => hop) ?_
  rw [setMm_self]
  exact hop

theorem op_of_rests (h : k.rests m) : (k.mm m).op = .idle := by
  simp only [Kernel.rests, Bool.and_eq_true, beq_iff_eq] at h
  exact h.2

theorem Wf.call {c : Call P} (h : k.Wf E) (hcan : k.canCall m c) : (k.call E m c).Wf E := by
  match c with
  | .mmap r => exact (h.fit m).doMmapPgoff r
  | .munmap addr =>
    exact Wf.of_idle ((h.fit m).doMunmap addr) ((op_doMunmap E m addr k).trans (op_of_rests hcan))
  | .clone => exact h.setMm ((h.fit m).listed m) (h.op m)
  | .fork child => exact h.setMm nofun trivial
  | .dup child =>
    have h' : (k.setMm child { mmUsers := 1, op := .unborn }).Wf E :=
      h.setMm nofun trivial
    exact (h'.fit m).dupNext _
  | .exit =>
    change (k.mmput E m).Wf E
    unfold Kernel.mmput
    split
    · exact Wf.of_idle ((h.fit m).exitMmap m) (by rw [Kernel.exitMmap, setMm_self])
    · exact h.setMm ((h.fit m).listed m) (h.op m)

/-- **Every step keeps the kernel well formed.** -/
theorem step_wf {e : Event P} (h : k.Wf E) (hs : k.step E e = .ok k') : k'.Wf E := by
  rcases step_cases hs with ⟨m, c, -, hcan, rfl⟩ | ⟨m, a, -, -, rfl⟩ | ⟨fd, pos, -, rfl⟩
  · exact h.forget.call hcan
  · exact (h.forget.fit m).resume (h.forget.op m) a
  · exact h.forget.seek fd pos

end

/-! ## Other address spaces -/

end Kernel

/-- The request of a call of `do_mmap_pgoff`. -/
def Op.request {P : Type} : Op P → Option Request
  | .cramfsKmalloc r | .cramfsRead r _ | .mapTblock r _ | .mapRblock r _ _ | .copyTblock r
  | .copyRblock r _ | .copyKmalloc r _ _ | .copyRead r _ _ _ => some r
  | .idle | .unborn | .dup _ _ => none

namespace Kernel

section

variable [DecidableEq P] {E : Env} {m m' c : P} {k : Kernel P} {r : Request}

theorem mm_setOp_of_ne (op : Op P) (h : m' ≠ m) : (k.setOp m op).mm m' = k.mm m' :=
  setMm_of_ne _ h

theorem mm_ret_of_ne (v : Ret) (h : m' ≠ m) : (k.ret m r v).mm m' = k.mm m' :=
  mm_setOp_of_ne .idle h

theorem mm_link_of_ne (t : Tblock) (b : Rblock) (h : m' ≠ m) : (k.link E m t b).mm m' = k.mm m' :=
  setMm_of_ne _ h

theorem mm_cramfsFilled_of_ne (data : Nat) (h : m' ≠ m) :
    (k.cramfsFilled E m r data).mm m' = k.mm m' := by
  unfold Kernel.cramfsFilled
  refine (mm_setOp_of_ne _ h).trans ?_
  by_cases h0 : data ≠ 0
  · simp only [if_pos h0]
    rfl
  · simp only [if_neg h0]
    rfl

theorem mm_releaseTblock_of_ne (t : Tblock) (ts : List Tblock) (h : m' ≠ c) :
    (k.releaseTblock E c t ts).mm m' = k.mm m' :=
  (setMm_of_ne _ h).trans (congrFun (mm_dropRblock E t.rblock k) m')

theorem mm_exitLoop_of_ne (ts : List Tblock) (h : m' ≠ c) :
    (Kernel.exitLoop E c ts k).mm m' = k.mm m' := by
  induction ts generalizing k with
  | nil => rfl
  | cons t ts ih => exact ih.trans (mm_releaseTblock_of_ne t ts h)

theorem mm_exitMmap_of_ne (h : m' ≠ c) : (k.exitMmap E c).mm m' = k.mm m' :=
  (setMm_of_ne _ h).trans (mm_exitLoop_of_ne _ h)

theorem mm_exitMmap_self (c : P) (k : Kernel P) : (k.exitMmap E c).mm c = {} :=
  setMm_self _ _ _

theorem mm_doMunmap_of_ne (addr : Nat) (h : m' ≠ m) : (k.doMunmap E m addr).mm m' = k.mm m' := by
  unfold Kernel.doMunmap
  split
  · rfl
  · split
    · rfl
    · exact mm_releaseTblock_of_ne _ _ h

omit [DecidableEq P] in
theorem mm_copyAdvance (E : Env) (r : Request) (k : Kernel P) : (k.copyAdvance E r).mm = k.mm := by
  unfold Kernel.copyAdvance
  split <;> rfl

/-- A call of `do_mmap_pgoff` is over or sleeps in it. -/
def Mapping (op : Op P) : Prop := op = .idle ∨ op.request ≠ none

/-- A step of a `do_mmap_pgoff` of `m` leaves the other address spaces as they
are. -/
structure Maps (m : P) (k k' : Kernel P) : Prop where
  others : ∀ m' ≠ m, k'.mm m' = k.mm m'
  mapping : Mapping (k'.mm m).op

theorem Maps.setOp (h : ∀ m' ≠ m, k'.mm m' = k.mm m')
    (hop : op.request ≠ none) : Maps m k (k'.setOp m op) :=
  ⟨fun m' hm => (mm_setOp_of_ne op hm).trans (h m' hm), .inr (by rwa [op_setOp])⟩

theorem Maps.ret {v : Ret} (h : ∀ m' ≠ m, k'.mm m' = k.mm m') : Maps m k (k'.ret m r v) :=
  ⟨fun m' hm => (mm_ret_of_ne v hm).trans (h m' hm), .inl (op_ret m r v k')⟩

theorem maps_doMmapPgoff (m : P) (r : Request) (k : Kernel P) : Maps m k (k.doMmapPgoff m r) := by
  unfold Kernel.doMmapPgoff
  split
  · exact .ret fun _ _ => rfl
  · split
    · unfold Kernel.cramfsFileMmap
      split <;> exact .setOp (fun _ _ => rfl) nofun
    · exact .setOp (fun _ _ => rfl) nofun

theorem maps_resume (hop : (k.mm m).op.request ≠ none) (a : Answer) :
    Maps m k (k.resume E m a) := by
  have hnot : ∀ {op : Op P}, (k.mm m).op = op → op.request ≠ none := fun heq => heq ▸ hop
  have hsame : ∀ m' ≠ m, k.mm m' = k.mm m' := fun _ _ => rfl
  unfold Kernel.resume
  split
  · next heq => exact absurd rfl (hnot heq)
  · next heq => exact absurd rfl (hnot heq)
  · split <;> exact .setOp hsame nofun
  · split
    · refine ⟨fun m' hm => mm_cramfsFilled_of_ne _ hm, .inr ?_⟩
      rw [Kernel.cramfsFilled, Kernel.cramfsSavedPtr, op_setOp]
      exact nofun
    · split
      · exact .setOp hsame nofun
      · exact .ret hsame
  · split
    · exact .setOp hsame nofun
    · exact .ret hsame
  · split
    · exact .ret fun m' hm => mm_link_of_ne _ _ hm
    · exact .ret hsame
  · split
    · exact .setOp hsame nofun
    · exact .ret hsame
  · split
    · exact .setOp hsame nofun
    · exact .ret hsame
  · split
    · dsimp only
      split
      · exact .setOp hsame nofun
      · exact .ret fun m' hm => mm_link_of_ne _ _ hm
    · exact .ret hsame
  · split
    · exact .ret fun m' hm =>
        (mm_link_of_ne _ _ hm).trans (congrFun (mm_copyAdvance E _ k) m')
    · exact .ret hsame
  · next heq => exact absurd rfl (hnot heq)
  · next heq => exact absurd rfl (hnot heq)

theorem op_setTblock (c : P) (ts : List Tblock) (k : Kernel P) (m' : P) :
    ((k.setTblock c ts).mm m').op = (k.mm m').op := by
  by_cases hc : m' = c
  · rw [hc, Kernel.setTblock, setMm_self]
  · rw [Kernel.setTblock, setMm_of_ne _ hc]

end

end Kernel

end Nommu
