import Cnu680.Sercd.HdbLock

/-! # sercd: a lock function, run to its end

`HDBLockFile` and `HDBUnlockFile` as `OpenPort` and `ClosePort` call
them: the steps of `HdbLock`, made by one process until the function
returns, whatever the system answers.

* `hdbRun` ends: a lock function makes ten calls at most.
* `Since` is what a run has done to the lock file. A function that
  returns without the lock has left everything as it was, has removed a
  stale lock, or has left a file it could not write the header of.
* `hdbRun_unlock` is `HDBUnlockFile`, called by a process that has the
  lock.
-/

open Framework

namespace Sercd

/-- What the system answers to the calls of a lock function. It writes one
header and asks for one process at most. -/
structure Answers where
  /-- The calls that fail, by their number. -/
  fails : Nat → Bool := fun _ => false
  /-- The number of bytes that `write` writes. -/
  count : Nat := HDBHeaderLen
  /-- `kill` finds no process with the pid. -/
  noProcess : Bool := false

/-- The answer to the call with number `n`. -/
def Answers.nth (as : Answers) (n : Nat) : Answer where
  fails := as.fails n
  count := as.count
  noProcess := as.noProcess

/-- The next call of the function, if it has not returned. -/
def hdbNext (other : Pid) (as : Answers) (x : Files × Proc) (n : Nat) : Files × Proc :=
  if x.2.pc = .idle then x else x.2.step x.1 other (as.nth n)

/-- The function is called, by a process that does not count as a holder. -/
def hdbCalled (pid : Pid) (routine : Routine) (fs : Files) : Files × Proc :=
  (fs, ⟨pid, routine, .openCreate, false⟩)

/-- The function, run to its end. -/
@[irreducible]
def hdbRun (pid other : Pid) (routine : Routine) (fs : Files) (as : Answers) : Files × Proc :=
  (List.range 10).foldl (hdbNext other as) (hdbCalled pid routine fs)

/-! ### It returns -/

/-- How many calls the function can still make. None is made twice, but for
the one that creates the file, after a stale lock has been removed. -/
def Proc.callsLeft (fs : Files) (P : Proc) : Nat :=
  match P.pc with
  | .idle => 0
  | .unlinkOwn | .unlinkFailed => 1
  | .closeWritten _ | .closeFailed _ => 2
  | .write _ => 3
  | .openCreate => if fs.entry.isSome then 10 else 4
  | .unlinkStale => 5
  | .kill _ => 6
  | .closeRead _ _ => 7
  | .read _ => 8
  | .openRead => 9

theorem returns_of_ne {P : Proc} {r : LockResult} (h : r ≠ .LockOk) :
    P.returns r = { P with pc := .idle } := by
  unfold Proc.returns
  split
  · exact absurd rfl h
  · exact absurd rfl h
  · rfl

theorem callsLeft_returns (fs : Files) (P : Proc) (r : LockResult) :
    (P.returns r).callsLeft fs ≤ 1 := by
  unfold Proc.returns
  split <;> simp [Proc.callsLeft]

theorem callsLeft_examine (fs : Files) (P : Proc) (got : Option (List UInt8)) :
    (P.examine got).callsLeft fs ≤ 6 := by
  have hret : ∀ r, (P.returns r).callsLeft fs ≤ 6 := fun r =>
    Nat.le_trans (callsLeft_returns fs P r) (by decide)
  unfold Proc.examine
  split
  · exact hret _
  · exact hret _
  · split
    · exact hret _
    · split <;> simp [Proc.callsLeft]

theorem callsLeft_step (fs : Files) (other : Pid) (P : Proc) (a : Answer) (h : P.pc ≠ .idle) :
    (P.step fs other a).2.callsLeft (P.step fs other a).1 < P.callsLeft fs := by
  have hko : ∀ fs', (P.returns .LockKo).callsLeft fs' = 0 := by
    intro fs'
    rw [returns_of_ne (by decide)]
    rfl
  unfold Proc.step
  match hpc : P.pc with
  | .idle => exact absurd hpc h
  | .openCreate =>
    have hleft : P.callsLeft fs = if fs.entry.isSome then 10 else 4 := by
      simp only [Proc.callsLeft, hpc]
    rw [hleft]
    dsimp only
    split
    · rw [hko]
      split <;> decide
    · split <;> simp [Proc.callsLeft]
  | .openRead =>
    have hleft : P.callsLeft fs = 9 := by simp only [Proc.callsLeft, hpc]
    rw [hleft]
    dsimp only
    split
    · rw [hko]
      decide
    · split
      · rw [hko]
        decide
      · simp [Proc.callsLeft]
  | .read _ | .closeFailed _ | .unlinkOwn => simp [Proc.callsLeft, hpc]
  | .closeRead f got =>
    have hleft : P.callsLeft fs = 7 := by simp only [Proc.callsLeft, hpc]
    rw [hleft]
    exact Nat.lt_succ_of_le (callsLeft_examine fs P got)
  | .kill pid =>
    have hleft : P.callsLeft fs = 6 := by simp only [Proc.callsLeft, hpc]
    rw [hleft]
    dsimp only
    split
    · simp [Proc.callsLeft]
    · exact Nat.lt_of_le_of_lt (callsLeft_returns fs P .Locked) (by decide)
  | .unlinkStale =>
    have hleft : P.callsLeft fs = 5 := by simp only [Proc.callsLeft, hpc]
    rw [hleft]
    dsimp only
    split
    · rw [hko]
      decide
    · simp [Proc.callsLeft]
  | .write f =>
    dsimp only
    split <;> simp [Proc.callsLeft, hpc]
  | .unlinkFailed =>
    dsimp only
    rw [hko]
    simp [Proc.callsLeft, hpc]
  | .closeWritten f =>
    have hleft : P.callsLeft fs = 2 := by simp only [Proc.callsLeft, hpc]
    rw [hleft]
    exact Nat.lt_succ_of_le (callsLeft_returns fs P .LockOk)

theorem idle_of_callsLeft {fs : Files} {P : Proc} (h : P.callsLeft fs = 0) : P.pc = .idle := by
  unfold Proc.callsLeft at h
  match hpc : P.pc with
  | .idle => rfl
  | .openCreate =>
    rw [hpc] at h
    dsimp only at h
    split at h <;> cases h
  | .openRead | .read _ | .closeRead _ _ | .kill _ | .unlinkStale | .write _ | .closeFailed _
  | .unlinkFailed | .closeWritten _ | .unlinkOwn =>
    rw [hpc] at h
    cases h

theorem foldl_hdbNext_idle {other : Pid} {as : Answers} {ns : List Nat} {x : Files × Proc}
    (h : x.2.callsLeft x.1 ≤ ns.length) : (ns.foldl (hdbNext other as) x).2.pc = .idle := by
  induction ns generalizing x with
  | nil => exact idle_of_callsLeft (Nat.le_zero.mp h)
  | cons n ns ih =>
    rw [List.foldl_cons]
    apply ih
    unfold hdbNext
    split
    · next hidle => simp [Proc.callsLeft, hidle]
    · next hne =>
      have hstep := callsLeft_step x.1 other x.2 (as.nth n) hne
      have hlen : (n :: ns).length = ns.length + 1 := rfl
      omega

/-- **A lock function returns.** -/
theorem hdbRun_idle (pid other : Pid) (routine : Routine) (fs : Files) (as : Answers) :
    (hdbRun pid other routine fs as).2.pc = .idle := by
  unfold hdbRun
  apply foldl_hdbNext_idle
  unfold hdbCalled Proc.callsLeft
  dsimp only
  split <;> decide

/-! ### What it does to the lock file -/

/-- The lock file is as it was. -/
structure Files.Same (fs₀ fs : Files) : Prop where
  entry : fs.entry = fs₀.entry
  content : ∀ f, fs₀.entry = some f → fs.content f = fs₀.content f

/-- The pid in the lock file is of no process. -/
def Files.Stale (pid other : Pid) (noProcess : Bool) (fs : Files) : Prop :=
  ∃ f, fs.entry = some f ∧ fs.pidIn f ≠ pid.val ∧
    (fs.pidIn f = 0 ∨ noProcess = true ∧ fs.pidIn f ≠ other.val)

/-- The lock file is as it was, apart from the removal of a stale lock. -/
def Files.Kept (pid other : Pid) (noProcess : Bool) (fs₀ fs : Files) : Prop :=
  fs₀.Same fs ∨ fs₀.Stale pid other noProcess ∧ fs.entry = none

/-- The lock file is a new one. -/
def Files.Made (fs₀ fs : Files) (f : Nat) : Prop := fs.entry = some f ∧ fs₀.fresh ≤ f

/-- A number that is in use is below those that are not. -/
def Files.Numbered (fs : Files) : Prop := ∀ f, fs.entry = some f → f < fs.fresh

section
variable {pid other : Pid} {noProcess : Bool} {fs₀ fs : Files}

theorem numbered_of_none (h : fs.entry = none) : fs.Numbered := by
  intro f hf
  rw [h] at hf
  cases hf

theorem Files.Same.pidIn (h : fs₀.Same fs) {f : Nat} (hf : fs₀.entry = some f) :
    fs.pidIn f = fs₀.pidIn f := by
  unfold Files.pidIn
  rw [h.content f hf]

theorem Files.Same.owned_iff (h : fs₀.Same fs) : fs.Owned pid ↔ fs₀.Owned pid := by
  constructor
  · rintro ⟨f, hf, hpid⟩
    rw [h.entry] at hf
    exact ⟨f, hf, h.pidIn hf ▸ hpid⟩
  · rintro ⟨f, hf, hpid⟩
    exact ⟨f, h.entry.trans hf, (h.pidIn hf).trans hpid⟩

theorem Files.Kept.not_owned (h : Files.Kept pid other noProcess fs₀ fs)
    (hno : ¬ fs₀.Owned pid) : ¬ fs.Owned pid := by
  rcases h with hsame | ⟨-, hnone⟩
  · exact fun hown => hno (hsame.owned_iff.mp hown)
  · rintro ⟨f, hf, -⟩
    rw [hnone] at hf
    cases hf

theorem Files.Made.not_kept {f : Nat} (h : fs₀.Made fs f) (hnum : fs₀.Numbered) :
    ¬ Files.Kept pid other noProcess fs₀ fs := by
  rintro (hsame | ⟨-, hnone⟩)
  · have hlt := hnum f (hsame.entry.symm.trans h.1)
    exact absurd h.2 (Nat.not_le_of_lt hlt)
  · rw [h.1] at hnone
    cases hnone

theorem not_owned_of_free (h : fs.entry = none ∨ fs.Stale pid other noProcess) :
    ¬ fs.Owned pid := by
  rintro ⟨f, hf, hpid⟩
  rcases h with hnone | ⟨g, hg, hne, -⟩
  · rw [hf] at hnone
    cases hnone
  · rw [hf] at hg
    cases hg
    exact hne hpid

theorem Files.Kept.of_isSome (h : Files.Kept pid other noProcess fs₀ fs)
    (hsome : fs.entry.isSome) : fs₀.Same fs := by
  rcases h with hsame | ⟨-, hnone⟩
  · exact hsame
  · rw [hnone] at hsome
    cases hsome

end

/-- What is known at each call of `HDBLockFile`, of the lock file as it was
found and as it is. -/
def SinceAt (pid other : Pid) (noProcess : Bool) (fs₀ : Files) (x : Files × Proc) : Prop :=
  match x.2.pc with
  | .idle =>
    (x.2.granted = false → Files.Kept pid other noProcess fs₀ x.1) ∧
      (x.2.granted = true →
        x.1.Owned pid ∧ (fs₀.Same x.1 ∨ (∃ f, fs₀.Made x.1 f) ∧ ¬ fs₀.Owned pid))
  | .openCreate => Files.Kept pid other noProcess fs₀ x.1
  | .openRead => fs₀.Same x.1
  | .read f => fs₀.Same x.1 ∧ fs₀.entry = some f
  | .closeRead f got => fs₀.Same x.1 ∧ fs₀.entry = some f ∧ ∀ l ∈ got, atoi l = fs₀.pidIn f
  | .kill q => fs₀.Same x.1 ∧ ∃ f, fs₀.entry = some f ∧ fs₀.pidIn f = q ∧ q ≠ pid.val
  | .unlinkStale => fs₀.Same x.1 ∧ fs₀.Stale pid other noProcess
  | .write f => fs₀.Made x.1 f ∧ (fs₀.entry = none ∨ fs₀.Stale pid other noProcess)
  | .closeFailed _ | .unlinkFailed =>
    (∃ f, fs₀.Made x.1 f) ∧ (fs₀.entry = none ∨ fs₀.Stale pid other noProcess)
  | .closeWritten _ => x.1.Owned pid ∧ (∃ f, fs₀.Made x.1 f) ∧ ¬ fs₀.Owned pid
  | .unlinkOwn => False

/-- `HDBLockFile` was called on `fs₀`, and has come to `x`. -/
structure Since (pid other : Pid) (noProcess : Bool) (fs₀ : Files) (x : Files × Proc) : Prop where
  caller : x.2.pid = pid
  routine : x.2.routine = .hdbLockFile
  granted : x.2.pc ≠ .idle → x.2.granted = false
  numbered : x.1.Numbered
  fresh : fs₀.fresh ≤ x.1.fresh
  here : SinceAt pid other noProcess fs₀ x

section
variable {pid other : Pid} {as : Answers} {fs₀ fs : Files} {P : Proc} {x : Files × Proc}

section
variable (h : Since pid other as.noProcess fs₀ (fs, P))
include h

theorem Since.at_pc {pc : Pc} (hpc : P.pc = pc) :
    SinceAt pid other as.noProcess fs₀ (fs, { P with pc := pc }) := by
  subst hpc
  exact h.here

theorem Since.goto (hrun : P.pc ≠ .idle) {pc : Pc}
    (hat : SinceAt pid other as.noProcess fs₀ (fs, { P with pc := pc })) :
    Since pid other as.noProcess fs₀ (fs, { P with pc := pc }) :=
  ⟨h.caller, h.routine, fun _ => h.granted hrun, h.numbered, h.fresh, hat⟩

/-- The function returns without the lock, after a last call that leaves the
files `fs'`. -/
theorem Since.leaves (hrun : P.pc ≠ .idle) {r : LockResult} (hr : r ≠ .LockOk) {fs' : Files}
    (hnum : fs'.Numbered) (hfresh : fs'.fresh = fs.fresh)
    (hkept : Files.Kept pid other as.noProcess fs₀ fs') :
    Since pid other as.noProcess fs₀ (fs', P.returns r) := by
  have hno : P.granted = false := h.granted hrun
  rw [returns_of_ne hr]
  refine ⟨h.caller, h.routine, fun hne => absurd rfl hne, hnum, hfresh ▸ h.fresh, ?_⟩
  exact ⟨fun _ => hkept, fun hg => absurd hg (by simp [hno])⟩

theorem Since.refused (hrun : P.pc ≠ .idle) {r : LockResult} (hr : r ≠ .LockOk)
    (hkept : Files.Kept pid other as.noProcess fs₀ fs) :
    Since pid other as.noProcess fs₀ (fs, P.returns r) :=
  h.leaves hrun hr h.numbered rfl hkept

theorem Since.taken (hown : fs.Owned pid)
    (hlock : fs₀.Same fs ∨ (∃ f, fs₀.Made fs f) ∧ ¬ fs₀.Owned pid) :
    Since pid other as.noProcess fs₀ (fs, P.returns .LockOk) := by
  have hroutine : P.routine = .hdbLockFile := h.routine
  have hret : P.returns .LockOk = { P with pc := .idle, granted := true } := by
    unfold Proc.returns
    rw [hroutine]
  rw [hret]
  refine ⟨h.caller, h.routine, fun hne => absurd rfl hne, h.numbered, h.fresh, ?_⟩
  exact ⟨fun hg => absurd hg Bool.noConfusion, fun _ => ⟨hown, hlock⟩⟩

theorem Since.examine {f : Nat} {got : Option (List UInt8)} (hpc : P.pc = .closeRead f got) :
    Since pid other as.noProcess fs₀ (fs, P.examine got) := by
  have hrun : P.pc ≠ .idle := by simp [hpc]
  have hcaller : P.pid = pid := h.caller
  obtain ⟨hsame, hf, hread⟩ := h.at_pc hpc
  have hko := h.refused hrun (r := .LockKo) (by decide) (.inl hsame)
  match got with
  | none => exact hko
  | some [] => exact hko
  | some (b :: l) =>
    have hpid : atoi (b :: l) = fs₀.pidIn f := hread _ rfl
    unfold Proc.examine
    dsimp only
    rw [hpid]
    split
    · next heq =>
      rw [hcaller] at heq
      exact h.taken (hsame.owned_iff.mpr ⟨f, hf, heq⟩) (.inl hsame)
    · next hne =>
      rw [hcaller] at hne
      split
      · next hzero =>
        apply h.goto hrun
        exact ⟨hsame, f, hf, hne, .inl hzero⟩
      · apply h.goto hrun
        exact ⟨hsame, f, hf, rfl, hne⟩

theorem Since.openCreate (hpc : P.pc = .openCreate) (a : Answer) :
    Since pid other as.noProcess fs₀ (P.step fs other a) := by
  have hrun : P.pc ≠ .idle := by simp [hpc]
  have hkept : Files.Kept pid other as.noProcess fs₀ fs := h.at_pc hpc
  unfold Proc.step
  rw [hpc]
  dsimp only
  split
  · exact h.refused hrun (by decide) hkept
  · split
    · next hsome => exact h.goto hrun (hkept.of_isSome hsome)
    · next hnone =>
      refine ⟨h.caller, h.routine, fun _ => h.granted hrun, ?_, Nat.le_succ_of_le h.fresh, ?_⟩
      · intro f hf
        cases hf
        exact Nat.lt_succ_self _
      · refine ⟨⟨rfl, h.fresh⟩, ?_⟩
        rcases hkept with hsame | ⟨hstale, -⟩
        · left
          rw [← hsame.entry]
          simpa using hnone
        · exact .inr hstale

theorem Since.write {f : Nat} (hpc : P.pc = .write f) (a : Answer) :
    Since pid other as.noProcess fs₀ (P.step fs other a) := by
  have hrun : P.pc ≠ .idle := by simp [hpc]
  obtain ⟨hmade, hfree⟩ := h.at_pc hpc
  unfold Proc.step
  rw [hpc]
  refine ⟨h.caller, h.routine, fun _ => h.granted hrun, h.numbered, h.fresh, ?_⟩
  dsimp only
  by_cases hfull : HDBHeaderLen ≤ a.count
  · rw [if_pos hfull]
    refine ⟨⟨f, hmade.1, ?_⟩, ⟨f, hmade⟩, not_owned_of_free hfree⟩
    rw [← h.caller]
    exact pidIn_written fs f P.pid hfull
  · rw [if_neg hfull]
    exact ⟨⟨f, hmade⟩, hfree⟩

theorem Since.unlinkFailed (hpc : P.pc = .unlinkFailed) {a : Answer} (ha : a.fails = false) :
    Since pid other as.noProcess fs₀ (P.step fs other a) := by
  have hrun : P.pc ≠ .idle := by simp [hpc]
  obtain ⟨-, hfree⟩ := h.at_pc hpc
  unfold Proc.step
  rw [hpc]
  dsimp only
  rw [ha, if_neg Bool.false_ne_true]
  refine h.leaves hrun (by decide) (numbered_of_none rfl) rfl ?_
  rcases hfree with hnone | hstale
  · refine .inl ⟨hnone.symm, fun f hf => ?_⟩
    rw [hnone] at hf
    cases hf
  · exact .inr ⟨hstale, rfl⟩

/-- **One call**, if it is not an `unlink` that fails to remove a lock file
whose header could not be written. -/
theorem Since.step (hrun : P.pc ≠ .idle) {n : Nat}
    (hremove : P.pc = .unlinkFailed → as.fails n = false) :
    Since pid other as.noProcess fs₀ (P.step fs other (as.nth n)) := by
  have hat : SinceAt pid other as.noProcess fs₀ (fs, { P with pc := P.pc }) := h.here
  unfold SinceAt at hat
  unfold Proc.step
  match hpc : P.pc, hat with
  | .idle, _ => exact absurd hpc hrun
  | .openCreate, _ => simpa only [Proc.step, hpc] using h.openCreate hpc (as.nth n)
  | .write f, _ => simpa only [Proc.step, hpc] using h.write hpc (as.nth n)
  | .unlinkFailed, _ => simpa only [Proc.step, hpc] using h.unlinkFailed hpc (hremove hpc)
  | .unlinkOwn, hat => exact hat.elim
  | .openRead, hsame =>
    dsimp only
    split
    · exact h.refused hrun (by decide) (.inl hsame)
    · next f hf =>
      split
      · exact h.refused hrun (by decide) (.inl hsame)
      · exact h.goto hrun ⟨hsame, hsame.entry.symm.trans hf⟩
  | .read f, ⟨hsame, hf⟩ =>
    refine h.goto hrun ⟨hsame, hf, ?_⟩
    intro l hl
    split at hl
    · cases hl
    · cases hl
      exact hsame.pidIn hf
  | .closeRead f got, _ => exact h.examine hpc
  | .kill q, ⟨hsame, f, hf, hq, hne⟩ =>
    dsimp only
    split
    · next hgone =>
      rw [← hq] at hne hgone
      exact h.goto hrun ⟨hsame, f, hf, hne, .inr hgone⟩
    · exact h.refused hrun (by decide) (.inl hsame)
  | .unlinkStale, ⟨hsame, hstale⟩ =>
    dsimp only
    split
    · exact h.refused hrun (by decide) (.inl hsame)
    · exact ⟨h.caller, h.routine, fun _ => h.granted hrun, numbered_of_none rfl, h.fresh,
        .inr ⟨hstale, rfl⟩⟩
  | .closeFailed f, hmade => exact h.goto hrun hmade
  | .closeWritten f, ⟨hown, hnew⟩ => exact h.taken hown (.inr hnew)

end

theorem hdbNext_idle (h : x.2.pc = .idle) (n : Nat) :
    hdbNext other as x n = x := if_pos h

theorem foldl_hdbNext_of_idle (h : x.2.pc = .idle) (ns : List Nat) :
    ns.foldl (hdbNext other as) x = x := by
  induction ns with
  | nil => rfl
  | cons n ns ih => rw [List.foldl_cons, hdbNext_idle h, ih]

end

/-- An `unlink` of a lock file whose header could not be written does not
fail. -/
def Removes (as : Answers) (x : Files × Proc) (n : Nat) : Prop :=
  x.2.pc = .unlinkFailed → as.fails n = false

/-- The same, of all calls of `HDBLockFile`. -/
def RemovesUnwritten (pid other : Pid) (fs : Files) (as : Answers) : Prop :=
  Along (fun x n => (.ok (hdbNext other as x n) : Except Empty (Files × Proc))) (Removes as)
    (hdbCalled pid .hdbLockFile fs) (List.range 10)

section
variable {pid other : Pid} {as : Answers} {fs₀ : Files} {x : Files × Proc}

theorem Since.run (h : Since pid other as.noProcess fs₀ x) (ns : List Nat) :
    Along (fun x n => (.ok (hdbNext other as x n) : Except Empty (Files × Proc))) (Removes as)
        x ns ∧ Since pid other as.noProcess fs₀ (ns.foldl (hdbNext other as) x) ∨
      ¬ Along (fun x n => (.ok (hdbNext other as x n) : Except Empty (Files × Proc)))
          (Removes as) x ns ∧ (ns.foldl (hdbNext other as) x).2.granted = false ∧
        ∃ f, fs₀.Made (ns.foldl (hdbNext other as) x).1 f := by
  induction ns generalizing x with
  | nil => exact .inl ⟨trivial, h⟩
  | cons n ns ih =>
    rw [List.foldl_cons]
    by_cases hremove : Removes as x n
    · -- the call is made, and the others after it
      have hnext : Since pid other as.noProcess fs₀ (hdbNext other as x n) := by
        unfold hdbNext
        split
        · exact h
        · next hrun => exact h.step hrun hremove
      rcases ih hnext with ⟨hall, hsince⟩ | ⟨hnot, hleft⟩
      · left
        refine ⟨⟨hremove, ?_⟩, hsince⟩
        intro x' hx'
        cases hx'
        exact hall
      · exact .inr ⟨fun hall => hnot (hall.2 _ rfl), hleft⟩
    · -- the new file stays, and the function returns
      right
      unfold Removes at hremove
      rw [Classical.not_imp] at hremove
      obtain ⟨hpc, hfails⟩ := hremove
      have hrun : x.2.pc ≠ .idle := by simp [hpc]
      have hstep : hdbNext other as x n = (x.1, { x.2 with pc := .idle }) := by
        have hf : (as.nth n).fails = true := Bool.eq_true_of_not_eq_false hfails
        unfold hdbNext
        rw [if_neg hrun, Proc.step, hpc]
        dsimp only
        rw [hf, returns_of_ne (by decide), if_pos rfl]
      have hat := h.here
      unfold SinceAt at hat
      rw [hpc] at hat
      rw [hstep, foldl_hdbNext_of_idle rfl]
      refine ⟨fun hall => ?_, h.granted hrun, hat.1⟩
      exact hfails (hall.1 hpc)

/-- **`HDBLockFile`.** It returns with the lock, or leaves the lock file as
it was, a stale lock apart, or leaves a file that it could not write the
header of and not remove. -/
theorem hdbRun_lock (pid other : Pid) {fs : Files} (hnum : fs.Numbered) (as : Answers) :
    RemovesUnwritten pid other fs as ∧
        Since pid other as.noProcess fs (hdbRun pid other .hdbLockFile fs as) ∨
      ¬ RemovesUnwritten pid other fs as ∧
        (hdbRun pid other .hdbLockFile fs as).2.granted = false ∧
          ∃ f, fs.Made (hdbRun pid other .hdbLockFile fs as).1 f := by
  unfold hdbRun RemovesUnwritten
  have hcalled : Since pid other as.noProcess fs (hdbCalled pid .hdbLockFile fs) :=
    ⟨rfl, rfl, fun _ => rfl, hnum, Nat.le_refl _, .inl ⟨rfl, fun _ _ => rfl⟩⟩
  exact hcalled.run (List.range 10)

theorem Since.returned (h : Since pid other as.noProcess fs₀ x) (hidle : x.2.pc = .idle) :
    (x.2.granted = false → Files.Kept pid other as.noProcess fs₀ x.1) ∧
      (x.2.granted = true →
        x.1.Owned pid ∧ (fs₀.Same x.1 ∨ (∃ f, fs₀.Made x.1 f) ∧ ¬ fs₀.Owned pid)) := by
  have hat := h.here
  unfold SinceAt at hat
  rw [hidle] at hat
  exact hat

end

variable {pid : Pid} {fs : Files}

/-- The calls of `HDBUnlockFile` that a process makes whose pid is in the
lock file, up to the one that removes it. -/
theorem unlock_calls (other : Pid) {f : Nat} (hf : fs.entry = some f) (hpid : fs.pidIn f = pid.val)
    (as : Answers) (h0 : as.fails 0 = false) (h1 : as.fails 1 = false) (h2 : as.fails 2 = false) :
    [0, 1, 2, 3].foldl (hdbNext other as) (hdbCalled pid .hdbUnlockFile fs) =
      (fs, ⟨pid, .hdbUnlockFile, .unlinkOwn, false⟩) := by
  have hread : (Proc.examine ⟨pid, .hdbUnlockFile, .closeRead f
      (some ((fs.content f).take HDBHeaderLen)), false⟩
        (some ((fs.content f).take HDBHeaderLen))) =
      ⟨pid, .hdbUnlockFile, .unlinkOwn, false⟩ := by
    match hl : (fs.content f).take HDBHeaderLen with
    | [] =>
      -- an empty file has no pid in it
      have hpos := pid.pos
      rw [Files.pidIn, hl, atoi_nil] at hpid
      omega
    | b :: l =>
      rw [Files.pidIn, hl] at hpid
      unfold Proc.examine
      dsimp only
      rw [if_pos hpid]
      rfl
  simp [hdbNext, hdbCalled, Proc.step, Answers.nth, h0, h1, h2, hf, hread]

theorem unlock_unread (other : Pid) {f : Nat} (hf : fs.entry = some f) (as : Answers)
    (hread : as.fails 0 ∨ as.fails 1 ∨ as.fails 2) :
    [0, 1, 2, 3].foldl (hdbNext other as) (hdbCalled pid .hdbUnlockFile fs) =
      (fs, ⟨pid, .hdbUnlockFile, .idle, false⟩) := by
  cases h0 : as.fails 0 with
  | true => simp [hdbNext, hdbCalled, Proc.step, Answers.nth, h0, Proc.returns]
  | false =>
    cases h1 : as.fails 1 with
    | true => simp [hdbNext, hdbCalled, Proc.step, Answers.nth, h0, h1, hf, Proc.returns]
    | false =>
      have h2 : as.fails 2 = true := by simpa [h0, h1] using hread
      simp [hdbNext, hdbCalled, Proc.step, Answers.nth, h0, h1, h2, hf, Proc.examine, Proc.returns]

/-- The lock file cannot be read or removed by `HDBUnlockFile`. What the
`close` answers, the call with number 3, does not matter. -/
def Answers.UnlockFails (as : Answers) : Prop :=
  as.fails 0 ∨ as.fails 1 ∨ as.fails 2 ∨ as.fails 4

instance (as : Answers) : Decidable as.UnlockFails := by
  unfold Answers.UnlockFails
  infer_instance

/-- **`HDBUnlockFile`**, called by the process whose pid is in the lock
file. -/
theorem hdbRun_unlock (other : Pid) (hown : fs.Owned pid) (as : Answers) :
    (hdbRun pid other .hdbUnlockFile fs as).1 =
      if as.UnlockFails then fs else { fs with entry := none } := by
  obtain ⟨f, hf, hpid⟩ := hown
  have hsplit : List.range 10 = [0, 1, 2, 3] ++ 4 :: [5, 6, 7, 8, 9] := rfl
  unfold hdbRun
  rw [hsplit, List.foldl_append]
  by_cases hread : as.fails 0 ∨ as.fails 1 ∨ as.fails 2
  · have hany : as.UnlockFails := hread.imp_right fun h => h.imp_right .inl
    rw [unlock_unread other hf as hread, foldl_hdbNext_of_idle rfl, if_pos hany]
  · simp only [not_or, Bool.not_eq_true] at hread
    rw [unlock_calls other hf hpid as hread.1 hread.2.1 hread.2.2, List.foldl_cons,
      foldl_hdbNext_of_idle rfl]
    cases h4 : as.fails 4 <;>
      simp [hdbNext, Proc.step, Answers.nth, Answers.UnlockFails, hread, h4]

end Sercd
