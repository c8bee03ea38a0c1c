import Cnu680.Sercd.Process

/-! # sercd: the lock of the port

`OpenPort` takes the lock and then opens the device; `ClosePort` gives the
lock back. The process should own the lock file exactly while `DeviceFd`
is set, and an `OpenPort` that fails should leave the lock file alone.

`OpenPort` does not give the lock back if the device cannot be opened,
and `main` then drops the client with a NULL device: the lock stays.
`LockSafe` says of a step what it takes for the lock to be kept right.
-/

open Framework List

namespace Sercd

/-- The functions that touch the lock file. -/
inductive LockCall where
  | openPort (fd : Option Nat)
  | closePort
  deriving DecidableEq, Repr

def SysCall.lockCall : SysCall → Option LockCall
  | .openPort fd => some (.openPort fd)
  | .dropConnection (some _) _ _ => some .closePort
  | _ => none

section
variable (pid other : Pid)

def Process.lockCalls (p : Process) (e : Happening) : List LockCall :=
  (p.calls pid other e).filterMap SysCall.lockCall

/-- `OpenPort`, with the device that `open` can open: the lock file that it
leaves, and the device if it does not return `Error`. -/
def openPortResult (fs : Files) (as : Answers) (fd : Option Nat) : Files × Option Nat :=
  let r := hdbRun pid other .hdbLockFile fs as
  (r.1, if r.2.granted then fd else none)

/-- The process owns the lock file if and only if `DeviceFd` is set. -/
def Process.LockMatches (p : Process) : Prop := p.files.Owned pid ↔ p.main.deviceFd.isSome

/-- An `OpenPort` that returns `Error` leaves the lock file as it was, apart
from the removal of a stale lock. -/
def Process.OpensAtomically (p : Process) : Happening → Prop
  | .iteration i as => ∀ p', p.iteration pid other i as = .ok p' →
    .openPort none ∈ p.lockCalls pid other (.iteration i as) →
      Files.Kept pid other as.noProcess p.files (hdbRun pid other .hdbLockFile p.files as).1
  | _ => True

/-- **The condition on a step.** `OpenPort` removes a lock file that it could
not write and opens the device that it has locked, `ClosePort` gives the
lock back, and a signal does not, for the pointers stay. -/
def Process.LockSafe (p : Process) : Happening → Prop
  | .iteration i as => ∀ p', p.iteration pid other i as = .ok p' →
    (∀ fd, .openPort fd ∈ p.lockCalls pid other (.iteration i as) →
      RemovesUnwritten pid other p.files as ∧ (fd = none → p.granted pid other as = false)) ∧
    (.closePort ∈ p.lockCalls pid other (.iteration i as) → ¬ as.UnlockFails)
  | .signal as => p.main.deviceFd.isSome → as.UnlockFails
  | .others _ => True

/-! ### The calls of an iteration -/

/-- What an iteration does to the lock and the port: it opens the port, or
closes it, or neither. -/
inductive LockRound (as : Answers) (p : Process) : List LockCall → Process → Prop
  | neither {q : Process} (hfiles : q.files = p.files)
    (hdev : q.main.deviceFd = p.main.deviceFd) : LockRound as p [] q
  | opened {q : Process} (fd : Option Nat) (hnone : p.main.deviceFd = none)
    (hgranted : fd.isSome → p.granted pid other as = true)
    (hfiles : q.files = (hdbRun pid other .hdbLockFile p.files as).1)
    (hdev : q.main.deviceFd = fd) : LockRound as p [.openPort fd] q
  | closed {q : Process} (hsome : p.main.deviceFd.isSome)
    (hfiles : q.files = (hdbRun pid other .hdbUnlockFile p.files as).1)
    (hdev : q.main.deviceFd = none) : LockRound as p [.closePort] q

end

section
variable {pid other : Pid} {as : Answers} {i : Inputs} {selret : Events} {p q r : Process}
  {l : List LockCall}

theorem LockRound.after_nil (h : LockRound pid other as p [] q)
    (hrest : LockRound pid other as q l r) : LockRound pid other as p l r := by
  cases h with
  | neither hfiles hdev =>
    have hg : q.granted pid other as = p.granted pid other as := by
      unfold Process.granted
      rw [hfiles]
    cases hrest with
    | neither hfiles' hdev' => exact .neither (hfiles'.trans hfiles) (hdev'.trans hdev)
    | opened fd hnone hgranted hfiles' hdev' =>
      rw [hfiles] at hfiles'
      exact .opened fd (hdev ▸ hnone) (fun hfd => hg ▸ hgranted hfd) hfiles' hdev'
    | closed hsome hfiles' hdev' =>
      rw [hfiles] at hfiles'
      exact .closed (hdev ▸ hsome) hfiles' hdev'

theorem LockRound.nil_after (h : LockRound pid other as p l q)
    (hrest : LockRound pid other as q [] r) : LockRound pid other as p l r := by
  cases hrest with
  | neither hfiles hdev =>
    cases h with
    | neither hfiles' hdev' => exact .neither (hfiles.trans hfiles') (hdev.trans hdev')
    | opened fd hnone hgranted hfiles' hdev' =>
      exact .opened fd hnone hgranted (hfiles.trans hfiles') (hdev.trans hdev')
    | closed hsome hfiles' hdev' =>
      exact .closed hsome (hfiles.trans hfiles') (hdev.trans hdev')

theorem lockCall_of_uses {s : Main} {l : List SysCall} (h : ∀ c ∈ l, s.Uses c) :
    l.filterMap SysCall.lockCall = [] := by
  rw [filterMap_eq_nil_iff]
  intro c hc
  have := h c hc
  cases c with
  | read fd | write fd | select fds | accept csock | close fd => rfl
  | openPort fd | dropConnection a b c => exact this.elim

theorem Handled.lockRound {l : List SysCall} {f : Flow Process} (h : Handled pid other as p l f) :
    LockRound pid other as p (l.filterMap SysCall.lockCall) f.state := by
  cases h with
  | keep huses hmain hfiles hfds =>
    rw [lockCall_of_uses huses]
    exact .neither hfiles hmain.device
  | drop huses hmain hfiles hfds =>
    rw [filterMap_append, lockCall_of_uses huses, nil_append]
    cases hdev : p.main.deviceFd with
    | none =>
      rw [Main.dropCall, hdev] at hfiles ⊢
      exact .neither hfiles (hmain.device.trans hdev.symm)
    | some fd =>
      rw [Main.dropCall, hdev] at hfiles ⊢
      exact .closed (by rw [hdev]; rfl) hfiles hmain.device
  | refuse csock hnew hmain hfiles hfds => exact .neither hfiles hmain.device
  | accept csock hnew hfree hdev hin hout hl hfiles hfds => exact .neither hfiles hdev
  | opened fd hnew hgranted hin hout hnone hdev hin' hout' hl hfiles hfds =>
    exact .opened (some fd) hnone (fun _ => hgranted) hfiles hdev
  | failed hin hout hnone hmain hfiles hfds =>
    have hport : [SysCall.openPort none, p.main.dropCall].filterMap SysCall.lockCall =
        [.openPort none] := by
      unfold Main.dropCall
      rw [hnone]
      rfl
    rw [hport]
    exact .opened none hnone (fun h => absurd h (by decide)) hfiles hmain.device

theorem eq_openDevice_of_mem {k : Stage} {s : Main} {f : Flow Main} {fd : Option Nat}
    (h : .openPort fd ∈ k.calls selret i s f) : k = .openDevice := by
  have hdrop : .openPort fd ∉ dropCalls s f := by
    cases f <;> simp [dropCalls, Main.dropCall]
  unfold Stage.calls at h
  split at h
  · cases k with
    | openDevice => rfl
    | deviceIn | deviceOut | socketOut | socketIn => simp [hdrop] at h
    | socketConnect =>
      dsimp only at h
      split at h
      · cases h
      · split at h <;> simp at h
    | modemState => cases h
  · cases h

theorem lockCall_of_next {k : Stage} (hk : k ≠ .openDevice)
    (h : k.process pid other selret i as p = .ok (.next q)) :
    (k.processCalls pid other selret i as p (.next q)).filterMap SysCall.lockCall = [] := by
  have hcalls : ∀ fd, .openPort fd ∉ k.processCalls pid other selret i as p (.next q) :=
    fun fd hfd => hk (eq_openDevice_of_mem hfd)
  have hhandled := process_handled h
  generalize k.processCalls pid other selret i as p (.next q) = l at hcalls hhandled
  cases hhandled with
  | keep huses hmain hfiles hfds => exact lockCall_of_uses huses
  | refuse csock hnew hmain hfiles hfds => rfl
  | accept csock hnew hfree hdev hin hout hl hfiles hfds => rfl
  | opened fd => exact absurd (mem_singleton.mpr rfl) (hcalls (some fd))

theorem lockRound_pipeline {ks : List Stage} (hks : .openDevice ∉ ks) {f : Flow Process}
    (h : pipeline (Stage.process pid other selret i as) ks p = .ok f) :
    LockRound pid other as p
        ((pipelineLog (Stage.process pid other selret i as)
          (Stage.processCalls pid other selret i as) ks p).filterMap SysCall.lockCall) f.state ∧
      (∀ q, f = .next q → (pipelineLog (Stage.process pid other selret i as)
        (Stage.processCalls pid other selret i as) ks p).filterMap SysCall.lockCall = []) := by
  induction ks generalizing p with
  | nil =>
    cases h
    exact ⟨.neither rfl rfl, fun _ _ => rfl⟩
  | cons k ks ih =>
    obtain ⟨f₁, hf₁, hrest⟩ := bind_eq_ok.mp h
    have hround := (process_handled hf₁).lockRound
    rw [pipelineLog, hf₁]
    cases f₁ with
    | «continue» t =>
      cases hrest
      refine ⟨hround, fun q hq => ?_⟩
      cases hq
    | next t =>
      have hk : k ≠ .openDevice := fun hk => hks (hk ▸ mem_cons_self)
      have hnil := lockCall_of_next hk hf₁
      obtain ⟨hlater, hnext⟩ := ih (fun hmem => hks (mem_cons_of_mem k hmem)) hrest
      rw [hnil] at hround
      dsimp only
      rw [filterMap_append, hnil, nil_append]
      exact ⟨hround.after_nil hlater, hnext⟩

theorem modemState_no_continue :
    pipeline (Stage.process pid other selret i as) [.modemState] p ≠ .ok (.continue q) := by
  intro h
  apply pipeline_continue (Q := fun _ => False) _ h
  intro k hk s t hprocess
  cases mem_singleton.mp hk
  obtain ⟨f, hf, hmap⟩ := map_eq_ok.mp hprocess
  unfold Stage.exec at hf
  split at hf
  · obtain ⟨u, rfl, -⟩ := modemState_sameFds hf
    cases hmap
  · cases hf
    cases hmap

/-- **An iteration calls `OpenPort` or `ClosePort` once, or neither.** -/
theorem iteration_lockRound (h : p.iteration pid other i as = .ok q) :
    LockRound pid other as p (p.lockCalls pid other (.iteration i as)) q := by
  obtain ⟨selret, hselect, h⟩ := bind_eq_ok.mp h
  unfold Process.lockCalls
  rw [calls_iteration hselect, singleton_append, filterMap_cons]
  dsimp only [SysCall.lockCall]
  split at h
  · next hempty =>
    cases h
    rw [if_pos hempty]
    exact .neither rfl rfl
  · next hsome =>
    rw [if_neg hsome]
    obtain ⟨f, hf, hret⟩ := bind_eq_ok.mp h
    cases hret
    have hobserve : LockRound pid other as p [] (p.observe i) := .neither rfl rfl
    apply hobserve.after_nil
    -- `openDevice` is the last handler but one
    have hsplit : stages = [.deviceIn, .deviceOut, .socketOut, .socketIn, .socketConnect] ++
        [.openDevice, .modemState] := rfl
    rw [hsplit, pipeline_append] at hf
    rw [hsplit, pipelineLog_append]
    obtain ⟨f₁, hf₁, hf⟩ := bind_eq_ok.mp hf
    obtain ⟨hfirst, hnext⟩ := lockRound_pipeline (by decide) hf₁
    rw [hf₁, filterMap_append]
    cases f₁ with
    | «continue» t =>
      cases hf
      dsimp only
      rw [filterMap_nil, append_nil]
      exact hfirst
    | next t =>
      have hnil := hnext t rfl
      rw [hnil] at hfirst ⊢
      rw [nil_append]
      apply hfirst.after_nil
      obtain ⟨f₂, hf₂, hf⟩ := bind_eq_ok.mp hf
      have hopen := (process_handled hf₂).lockRound
      dsimp only
      rw [pipelineLog, hf₂]
      cases f₂ with
      | «continue» u =>
        cases hf
        exact hopen
      | next u =>
        -- after it, the modem state is looked at
        obtain ⟨hlast, hnext'⟩ := lockRound_pipeline (by decide) hf
        dsimp only
        rw [filterMap_append]
        cases f with
        | «continue» v => exact absurd hf modemState_no_continue
        | next v =>
          rw [hnext' v rfl, append_nil]
          rw [hnext' v rfl] at hlast
          exact hopen.nil_after hlast

end

/-! ### What they leave -/

section
variable {pid other : Pid} {as : Answers} {fs : Files} {p q : Process}

/-- **What `HDBLockFile` leaves** is what it found if it removes a file that
it could not write and makes no new lock. -/
theorem kept_iff (hnum : fs.Numbered) :
    Files.Kept pid other as.noProcess fs (hdbRun pid other .hdbLockFile fs as).1 ↔
      RemovesUnwritten pid other fs as ∧
        ((hdbRun pid other .hdbLockFile fs as).2.granted = true → fs.Owned pid) := by
  rcases hdbRun_lock pid other hnum as with ⟨hremoves, hsince⟩ | ⟨hnot, -, f, hmade⟩
  · obtain ⟨hrefused, htaken⟩ := hsince.returned (hdbRun_idle ..)
    constructor
    · intro hkept
      refine ⟨hremoves, fun hgranted => ?_⟩
      obtain ⟨hown, hsame | ⟨⟨f, hmade⟩, -⟩⟩ := htaken hgranted
      · exact hsame.owned_iff.mp hown
      · exact absurd hkept (hmade.not_kept hnum)
    · rintro ⟨-, howned⟩
      cases hgranted : (hdbRun pid other .hdbLockFile fs as).2.granted with
      | false => exact hrefused hgranted
      | true =>
        obtain ⟨-, hsame | ⟨-, hno⟩⟩ := htaken hgranted
        · exact .inl hsame
        · exact absurd (howned hgranted) hno
  · exact iff_of_false (hmade.not_kept hnum) fun h => hnot h.1

theorem numbered_hdbRun_lock (hnum : fs.Numbered) (h : RemovesUnwritten pid other fs as) :
    (hdbRun pid other .hdbLockFile fs as).1.Numbered := by
  rcases hdbRun_lock pid other hnum as with ⟨-, hsince⟩ | ⟨hnot, -⟩
  · exact hsince.numbered
  · exact absurd h hnot

theorem owned_of_granted (hnum : fs.Numbered)
    (h : (hdbRun pid other .hdbLockFile fs as).2.granted = true) :
    (hdbRun pid other .hdbLockFile fs as).1.Owned pid := by
  rcases hdbRun_lock pid other hnum as with ⟨-, hsince⟩ | ⟨-, hno, -⟩
  · exact ((hsince.returned (hdbRun_idle ..)).2 h).1
  · rw [hno] at h
    cases h

theorem not_owned_of_entry (h : fs.entry = none) : ¬ fs.Owned pid := by
  rintro ⟨f, hf, -⟩
  rw [h] at hf
  cases hf

/-- The lock is right, and the numbers of the files are. -/
structure Process.Locked (pid : Pid) (p : Process) : Prop where
  lock : p.LockMatches pid
  numbered : p.files.Numbered

theorem Process.Locked.not_owned (h : p.Locked pid) (hnone : p.main.deviceFd = none) :
    ¬ p.files.Owned pid := by
  intro hown
  have hsome : p.main.deviceFd.isSome := h.lock.mp hown
  rw [hnone] at hsome
  cases hsome

theorem Process.Locked.same (h : p.Locked pid) (hfiles : q.files = p.files)
    (hdev : q.main.deviceFd = p.main.deviceFd) : q.Locked pid := by
  refine ⟨?_, hfiles ▸ h.numbered⟩
  unfold Process.LockMatches
  rw [hfiles, hdev]
  exact h.lock

theorem Process.Locked.openPort (h : p.Locked pid) {fd : Option Nat}
    (hnone : p.main.deviceFd = none) (hgranted : fd.isSome → p.granted pid other as = true)
    (hfiles : q.files = (hdbRun pid other .hdbLockFile p.files as).1)
    (hdev : q.main.deviceFd = fd) (hremoves : RemovesUnwritten pid other p.files as)
    (hopens : fd = none → p.granted pid other as = false) : q.Locked pid := by
  refine ⟨?_, hfiles ▸ numbered_hdbRun_lock h.numbered hremoves⟩
  unfold Process.LockMatches
  rw [hfiles, hdev]
  match fd with
  | some fd => exact iff_of_true (owned_of_granted h.numbered (hgranted rfl)) rfl
  | none =>
    -- the lock was not taken, and was not there before
    have hno := h.not_owned hnone
    have hkept := (kept_iff h.numbered).mpr ⟨hremoves, fun hg => by
      have hng : (hdbRun pid other .hdbLockFile p.files as).2.granted = false := hopens rfl
      rw [hng] at hg
      cases hg⟩
    exact iff_of_false (hkept.not_owned hno) (by decide)

theorem Process.Locked.unlocked (hfiles : q.files = { p.files with entry := none })
    (hdev : q.main.deviceFd = none) : q.Locked pid := by
  refine ⟨?_, ?_⟩
  · unfold Process.LockMatches
    rw [hfiles, hdev]
    exact iff_of_false (not_owned_of_entry rfl) (by decide)
  · rw [hfiles]
    intro f hf
    cases hf

end

/-! ### Whole runs -/

section
variable {pid other : Pid} {as : Answers} {i : Inputs} {p p' : Process} {e : Happening}

theorem Process.Locked.iteration (h : p.Locked pid) (hsafe : p.LockSafe pid other (.iteration i as))
    (hstep : p.iteration pid other i as = .ok p') : p'.Locked pid := by
  obtain ⟨hopens, hcloses⟩ := hsafe p' hstep
  have hround := iteration_lockRound hstep
  generalize p.lockCalls pid other (.iteration i as) = l at hopens hcloses hround
  cases hround with
  | neither hfiles hdev => exact h.same hfiles hdev
  | opened fd hnone hgranted hfiles hdev =>
    obtain ⟨hremoves, hfd⟩ := hopens fd (mem_singleton.mpr rfl)
    exact h.openPort hnone hgranted hfiles hdev hremoves hfd
  | closed hsome hfiles hdev =>
    rw [hdbRun_unlock other (h.lock.mpr hsome), if_neg (hcloses (mem_singleton.mpr rfl))] at hfiles
    exact .unlocked hfiles hdev

theorem signal_files (h : p.Locked pid) :
    p.main.dropCall.lock pid other as p.files =
      if p.main.deviceFd.isSome ∧ ¬ as.UnlockFails then { p.files with entry := none }
      else p.files := by
  unfold Main.dropCall
  cases hdev : p.main.deviceFd with
  | none => rfl
  | some fd =>
    have hown : p.files.Owned pid := h.lock.mpr (by rw [hdev]; rfl)
    show (hdbRun pid other .hdbUnlockFile p.files as).1 = _
    rw [hdbRun_unlock other hown]
    by_cases hfails : as.UnlockFails
    · simp [hfails]
    · simp [hfails]

theorem Process.Locked.step (h : p.Locked pid) (hsafe : p.LockSafe pid other e)
    (hstep : p.step pid other e = .ok p') : p'.Locked pid := by
  match e with
  | .iteration i as => exact h.iteration hsafe hstep
  | .signal as =>
    cases hstep
    refine h.same ?_ rfl
    show p.main.dropCall.lock pid other as p.files = _
    rw [signal_files h]
    exact if_neg fun hsome => hsome.2 (hsafe hsome.1)
  | .others fs =>
    cases hstep
    split
    · next hothers =>
      exact ⟨hothers.2.trans h.lock, hothers.1⟩
    · exact h

theorem Process.Locked.opensAtomically (h : p.Locked pid) (hsafe : p.LockSafe pid other e) :
    p.OpensAtomically pid other e := by
  match e with
  | .iteration i as =>
    intro p' hstep hmem
    obtain ⟨hremoves, hfd⟩ := (hsafe p' hstep).1 none hmem
    have hng : (hdbRun pid other .hdbLockFile p.files as).2.granted = false := hfd rfl
    refine (kept_iff h.numbered).mpr ⟨hremoves, fun hg => ?_⟩
    rw [hng] at hg
    cases hg
  | .signal as => trivial
  | .others fs => trivial

theorem start_deviceFd {cfg : Config} {mem : Memory} {mode : Mode} {m : Main}
    (h : start cfg mem mode = .ok m) : m.deviceFd = none := by
  cases mode with
  | inetd =>
    obtain ⟨x, -, hx⟩ := bind_eq_ok.mp h
    cases hx
    rfl
  | standalone lsocket =>
    cases h
    rfl

theorem LockRound.not_lockMatches {l : List LockCall} (hround : LockRound pid other as p l p')
    (h : p.Locked pid)
    (hatomic : .openPort none ∈ l → Files.Kept pid other as.noProcess p.files
      (hdbRun pid other .hdbLockFile p.files as).1)
    (hbad : ¬ ((∀ fd, .openPort fd ∈ l →
      RemovesUnwritten pid other p.files as ∧ (fd = none → p.granted pid other as = false)) ∧
        (.closePort ∈ l → ¬ as.UnlockFails))) : ¬ p'.LockMatches pid := by
  cases hround with
  | neither hfiles hdev =>
    -- no call was made
    refine absurd ⟨?_, ?_⟩ hbad
    · intro fd hfd
      cases hfd
    · intro hmem
      cases hmem
  | closed hsome hfiles hdev =>
    have hfails : as.UnlockFails := by
      by_contra hnot
      exact hbad ⟨fun fd hfd => by simp at hfd, fun _ => hnot⟩
    have hown : p.files.Owned pid := h.lock.mpr hsome
    rw [hdbRun_unlock other hown, if_pos hfails] at hfiles
    unfold Process.LockMatches
    rw [hfiles, hdev]
    exact fun hiff => absurd (hiff.mp hown) (by decide)
  | opened fd hnone hgranted hfiles hdev =>
    have hno := h.not_owned hnone
    unfold Process.LockMatches
    rw [hfiles, hdev]
    match fd with
    | none =>
      -- what is left is what was there, so that the lock was not taken
      obtain ⟨hremoves, hown⟩ := (kept_iff h.numbered).mp (hatomic (mem_singleton.mpr rfl))
      exfalso
      apply hbad
      refine ⟨fun fd hfd => ?_, fun hmem => by simp at hmem⟩
      cases mem_singleton.mp hfd
      refine ⟨hremoves, fun _ => ?_⟩
      cases hg : p.granted pid other as with
      | false => rfl
      | true => exact absurd (hown hg) hno
    | some fd =>
      -- a lock that was taken was written
      exfalso
      apply hbad
      refine ⟨fun fd' hfd => ?_, fun hmem => by simp at hmem⟩
      cases mem_singleton.mp hfd
      refine ⟨?_, fun hfd => by cases hfd⟩
      have htaken : (hdbRun pid other .hdbLockFile p.files as).2.granted = true := hgranted rfl
      rcases hdbRun_lock pid other h.numbered as with ⟨hremoves, -⟩ | ⟨-, hnot, -⟩
      · exact hremoves
      · rw [hnot] at htaken
        cases htaken

/-- **A step that is not safe** leaves the lock wrong, or has not opened the
port atomically. -/
theorem Process.Locked.not_safe (h : p.Locked pid) (hatomic : p.OpensAtomically pid other e)
    (hbad : ¬ p.LockSafe pid other e) :
    ∃ p', p.step pid other e = .ok p' ∧ ¬ p'.LockMatches pid := by
  match e with
  | .iteration i as =>
    unfold Process.LockSafe at hbad
    dsimp only at hbad
    rw [Classical.not_forall] at hbad
    obtain ⟨p', hbad⟩ := hbad
    rw [Classical.not_imp] at hbad
    obtain ⟨hstep, hbad⟩ := hbad
    exact ⟨p', hstep, (iteration_lockRound hstep).not_lockMatches h (hatomic p' hstep) hbad⟩
  | .signal as =>
    refine ⟨_, rfl, ?_⟩
    have hsome : p.main.deviceFd.isSome ∧ ¬ as.UnlockFails := by
      unfold Process.LockSafe at hbad
      exact Classical.not_imp.mp hbad
    have hfiles : p.main.dropCall.lock pid other as p.files = _ := signal_files h
    rw [if_pos hsome] at hfiles
    show ¬ ((p.main.dropCall.lock pid other as p.files).Owned pid ↔ p.main.deviceFd.isSome)
    rw [hfiles]
    exact fun hiff => not_owned_of_entry rfl (hiff.mpr hsome.1)
  | .others fs => exact absurd trivial hbad

/-- **The lock of the port.** Whether `OpenPort` returns `Error` without
leaving a lock depends on its system calls: it does not remove a file it
could not write if `unlink` fails, and it does not give back the lock if
the device cannot be opened. In every run from a start of the process, the
lock file is owned exactly while `DeviceFd` is set, and every `OpenPort`
that fails is atomic, exactly as long as the steps are safe. -/
theorem port_lock (pid other : Pid) :
    (∀ (fs : Files) (as : Answers) (fd : Option Nat), fs.Numbered →
      (openPortResult pid other fs as fd).2 = none →
        (Files.Kept pid other as.noProcess fs (openPortResult pid other fs as fd).1 ↔
          RemovesUnwritten pid other fs as ∧
            ((hdbRun pid other .hdbLockFile fs as).2.granted = true → fs.Owned pid))) ∧
    ∀ (cfg : Config) (mem : Memory) (mode : Mode) (m : Main) (fs : Files) (fds : Finset Nat)
      (es : List Happening), start cfg mem mode = .ok m → fs.Numbered →
        (Always (Process.step pid other) (Process.LockMatches pid) ⟨m, fs, fds⟩ es ∧
            Along (Process.step pid other) (Process.OpensAtomically pid other) ⟨m, fs, fds⟩ es ↔
          ¬ fs.Owned pid ∧
            Along (Process.step pid other) (Process.LockSafe pid other) ⟨m, fs, fds⟩ es) := by
  refine ⟨fun fs as fd hnum _ => kept_iff hnum, ?_⟩
  intro cfg mem mode m fs fds es hstart hnum
  have hdev : m.deviceFd = none := start_deviceFd hstart
  have hrun : ¬ fs.Owned pid → (Always (Process.step pid other) (Process.LockMatches pid)
      ⟨m, fs, fds⟩ es ∧ Along (Process.step pid other) (Process.OpensAtomically pid other)
        ⟨m, fs, fds⟩ es ↔ Along (Process.step pid other) (Process.LockSafe pid other)
          ⟨m, fs, fds⟩ es) := by
    intro hno
    apply always_and_along_iff (J := Process.Locked pid)
    · exact fun p e p' h hsafe hstep => h.step hsafe hstep
    · exact fun p h => h.lock
    · exact fun p e h hsafe => h.opensAtomically hsafe
    · exact fun p e h hatomic hbad => h.not_safe hatomic hbad
    · refine ⟨iff_of_false hno ?_, hnum⟩
      rw [hdev]
      decide
  constructor
  · rintro ⟨halways, halong⟩
    -- at the start there is no port
    have hno : ¬ fs.Owned pid := by
      rw [show fs.Owned pid ↔ m.deviceFd.isSome from halways.head, hdev]
      decide
    exact ⟨hno, (hrun hno).mp ⟨halways, halong⟩⟩
  · rintro ⟨hno, hsafe⟩
    exact (hrun hno).mpr hsafe

/-- A client connects, and the port is opened, or cannot be. -/
def connects (openFd : Option Nat) : Inputs where
  ready := { socketConnect := true }
  csock := some 4
  openFd := openFd

theorem noFiles_numbered : noFiles.Numbered := numbered_of_none rfl

/-- A lock file that cannot be created, and a process that opens its port for
a first client. -/
theorem port_lock_connects :
    ((openPortResult pid100 pid200 noFiles { fails := fun _ => true } (some 5)).2 = none ∧
      (Files.Kept pid100 pid200 false noFiles
          (openPortResult pid100 pid200 noFiles { fails := fun _ => true } (some 5)).1 ↔
        RemovesUnwritten pid100 pid200 noFiles { fails := fun _ => true } ∧
          ((hdbRun pid100 pid200 .hdbLockFile noFiles { fails := fun _ => true }).2.granted = true →
            noFiles.Owned pid100))) ∧
    ∃ m, start default default (.standalone 3) = .ok m ∧
      (Always (Process.step pid100 pid200) (Process.LockMatches pid100) ⟨m, noFiles, {0, 1, 2, 3}⟩
          [.iteration (connects (some 5)) {}] ∧
        Along (Process.step pid100 pid200) (Process.OpensAtomically pid100 pid200)
          ⟨m, noFiles, {0, 1, 2, 3}⟩ [.iteration (connects (some 5)) {}] ↔
      ¬ noFiles.Owned pid100 ∧
        Along (Process.step pid100 pid200) (Process.LockSafe pid100 pid200)
          ⟨m, noFiles, {0, 1, 2, 3}⟩ [.iteration (connects (some 5)) {}]) := by
  have herr :
      (openPortResult pid100 pid200 noFiles { fails := fun _ => true } (some 5)).2 = none := by
    decide +kernel
  refine ⟨⟨herr, (port_lock pid100 pid200).1 _ _ _ noFiles_numbered herr⟩, _, rfl, ?_⟩
  exact (port_lock pid100 pid200).2 default default (.standalone 3) _ _ _ _ rfl noFiles_numbered

/-- **A lock that stays.** The device cannot be opened when the first client
connects. The lock was taken, the client is dropped, and the process owns
the lock file without a port. -/
theorem port_lock_left :
    ∃ m p, start default default (.standalone 3) = .ok m ∧
      Process.step pid100 pid200 ⟨m, noFiles, {0, 1, 2, 3}⟩ (.iteration (connects none) {}) =
        .ok p ∧ p.files.Owned pid100 ∧ p.main.deviceFd = none := by
  decide +kernel

end

end Sercd
