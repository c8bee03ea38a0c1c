import Cnu680.Sercd.Process

/-! # sercd: the discipline of descriptors

A monitor follows the calls of the process and keeps the open
descriptors. It stops at a use of a descriptor that is closed, and at a
second `close`.

* `DropConnection` closes `*InSocketFd` and `*OutSocketFd`. In standalone
  mode both are the one socket that `accept` returned, and it is closed
  twice whenever a client is dropped.
* A signal closes the descriptors and leaves the pointers to them, and
  the process goes on.
* Nothing else goes wrong: `Separate` is what it takes.
-/

open Framework List

namespace Sercd

/-- What should not happen to a descriptor. -/
inductive Misuse where
  | usedClosed (c : SysCall)
  | closedTwice (fd : Nat)
  deriving DecidableEq, Repr

def closeFd (fds : Finset Nat) (fd : Nat) : Except Misuse (Finset Nat) :=
  if fd ∈ fds then .ok (fds.erase fd) else .error (.closedTwice fd)

/-- The monitor. -/
def discipline (fds : Finset Nat) (c : SysCall) : Except Misuse (Finset Nat) :=
  if ∀ fd ∈ c.uses, fd ∈ fds then
    run closeFd (c.opens.foldl (fun fds fd => insert fd fds) fds) c.closes
  else .error (.usedClosed c)

/-- A pointer is set only if the descriptor it points at is open. -/
def Process.PointersOpen (p : Process) : Prop :=
  ∀ fd, p.main.deviceFd = some fd ∨ p.main.inSocketFd = some fd ∨ p.main.outSocketFd = some fd →
    fd ∈ p.fds

section
variable (pid other : Pid)

/-- **The condition on a step.** `DropConnection` is not called with one
socket for both pointers, and a signal is delivered only while none of
the pointers is set. -/
def Process.Separate (p : Process) : Happening → Prop
  | .iteration i as => ∀ c ∈ p.calls pid other (.iteration i as),
    ∀ DeviceFd s, c ≠ .dropConnection DeviceFd (some s) (some s)
  | .signal _ =>
    p.main.deviceFd = none ∧ p.main.inSocketFd = none ∧ p.main.outSocketFd = none
  | .others _ => True

end

/-! ### Closing -/

section
variable {fds : Finset Nat} {l : List Nat}

theorem mem_foldl_erase {fd : Nat} : fd ∈ l.foldl Finset.erase fds ↔ fd ∈ fds ∧ fd ∉ l := by
  induction l generalizing fds with
  | nil => simp
  | cons g l ih =>
    rw [foldl_cons, ih, Finset.mem_erase, mem_cons, not_or]
    tauto

theorem run_closeFd (hnodup : l.Nodup) (hopen : ∀ fd ∈ l, fd ∈ fds) :
    run closeFd fds l = .ok (l.foldl Finset.erase fds) := by
  induction l generalizing fds with
  | nil => rfl
  | cons g l ih =>
    rw [nodup_cons] at hnodup
    have hclose : closeFd fds g = .ok (fds.erase g) := if_pos (hopen g (by simp))
    rw [run_cons, hclose, ok_bind, foldl_cons]
    apply ih hnodup.2
    intro fd hfd
    have hne : fd ≠ g := fun heq => hnodup.1 (heq ▸ hfd)
    exact Finset.mem_erase.mpr ⟨hne, hopen fd (by simp [hfd])⟩

end

/-! ### What holds as long as the steps are separate -/

/-- The descriptors of the process are open, and the two of the client apart
they are different. -/
structure Process.Sound (p : Process) : Prop where
  pointers : p.PointersOpen
  listening : ∀ fd, p.main.lSocketFd = some fd → fd ∈ p.fds
  device : ∀ fd, p.main.deviceFd = some fd →
    p.main.inSocketFd ≠ some fd ∧ p.main.outSocketFd ≠ some fd
  listener : ∀ fd, p.main.lSocketFd = some fd →
    p.main.deviceFd ≠ some fd ∧ p.main.inSocketFd ≠ some fd ∧ p.main.outSocketFd ≠ some fd

section
variable {pid other : Pid} {as : Answers} {i : Inputs} {selret : Events} {p q : Process} {fd : Nat}
  {e : Happening}

theorem mem_dropCall_closes {s : Main} :
    fd ∈ s.dropCall.closes ↔
      s.deviceFd = some fd ∨ s.inSocketFd = some fd ∨ s.outSocketFd = some fd := by
  simp [Main.dropCall, SysCall.closes, Option.mem_toList]

theorem mem_dropCall_table {s : Main} {fds : Finset Nat} :
    fd ∈ s.dropCall.table fds ↔ fd ∈ fds ∧
      ¬ (s.deviceFd = some fd ∨ s.inSocketFd = some fd ∨ s.outSocketFd = some fd) := by
  rw [← mem_dropCall_closes]
  exact mem_foldl_erase

theorem nodup_toList {a b c : Option Nat} (ha : ∀ fd, a = some fd → b ≠ some fd ∧ c ≠ some fd)
    (hb : ∀ fd, b = some fd → c ≠ some fd) : (a.toList ++ b.toList ++ c.toList).Nodup := by
  cases a <;> cases b <;> cases c <;> simp_all [eq_comm]

section
variable (h : p.Sound)
include h

/-- `DropConnection` closes different descriptors, if those of the client
are. -/
theorem Process.Sound.closes_nodup
    (hsep : ∀ DeviceFd s, p.main.dropCall ≠ .dropConnection DeviceFd (some s) (some s)) :
    p.main.dropCall.closes.Nodup := by
  apply nodup_toList h.device
  intro fd hin hout
  apply hsep p.main.deviceFd fd
  rw [Main.dropCall, hin, hout]

theorem Process.Sound.discipline_dropCall
    (hsep : ∀ DeviceFd s, p.main.dropCall ≠ .dropConnection DeviceFd (some s) (some s)) :
    discipline p.fds p.main.dropCall = .ok (p.main.dropCall.table p.fds) := by
  have huses : ∀ fd ∈ p.main.dropCall.uses, fd ∈ p.fds := fun fd hfd => by cases hfd
  unfold discipline
  rw [if_pos huses]
  exact run_closeFd (h.closes_nodup hsep) fun fd hfd => h.pointers fd (mem_dropCall_closes.mp hfd)

theorem Process.Sound.run_uses {l : List SysCall} (huses : ∀ c ∈ l, p.main.Uses c) :
    run discipline p.fds l = .ok p.fds := by
  induction l with
  | nil => rfl
  | cons c l ih =>
    have hc : discipline p.fds c = .ok p.fds := by
      have huse := huses c (by simp)
      cases c with
      | read fd | write fd =>
        have hopen : ∀ g ∈ [fd], g ∈ p.fds := by
          intro g hg
          cases mem_singleton.mp hg
          exact h.pointers fd huse
        exact if_pos hopen
      | select _ | accept _ | close _ | openPort _ | dropConnection _ _ _ => exact huse.elim
    rw [run_cons, hc, ok_bind]
    exact ih fun c hc => huses c (by simp [hc])

/-! ### What a handler keeps -/

theorem Process.Sound.same (hmain : p.main.SameFds q.main) (hfds : q.fds = p.fds) : q.Sound := by
  refine ⟨?_, ?_, ?_, ?_⟩
  · unfold Process.PointersOpen
    rw [hmain.device, hmain.inSocket, hmain.outSocket, hfds]
    exact h.pointers
  · rw [hmain.lSocket, hfds]
    exact h.listening
  · rw [hmain.device, hmain.inSocket, hmain.outSocket]
    exact h.device
  · rw [hmain.device, hmain.inSocket, hmain.outSocket, hmain.lSocket]
    exact h.listener

theorem Process.Sound.dropped (hmain : p.main.Dropped q.main)
    (hfds : q.fds = p.main.dropCall.table p.fds) : q.Sound := by
  refine ⟨?_, ?_, ?_, ?_⟩
  · unfold Process.PointersOpen
    rw [hmain.device, hmain.inSocket, hmain.outSocket]
    simp
  · rw [hmain.lSocket, hfds]
    intro fd hfd
    rw [mem_dropCall_table, not_or, not_or]
    exact ⟨h.listening fd hfd, h.listener fd hfd⟩
  · rw [hmain.device]
    simp
  · rw [hmain.device, hmain.inSocket, hmain.outSocket]
    simp

theorem Process.Sound.fresh (hnew : fd ∉ p.fds) :
    p.main.deviceFd ≠ some fd ∧ p.main.inSocketFd ≠ some fd ∧ p.main.outSocketFd ≠ some fd ∧
      p.main.lSocketFd ≠ some fd :=
  ⟨fun hd => hnew (h.pointers fd (.inl hd)), fun hi => hnew (h.pointers fd (.inr (.inl hi))),
    fun ho => hnew (h.pointers fd (.inr (.inr ho))), fun hl => hnew (h.listening fd hl)⟩

theorem Process.Sound.accepted {csock : Nat} (hnew : csock ∉ p.fds)
    (hdev : q.main.deviceFd = p.main.deviceFd) (hin : q.main.inSocketFd = some csock)
    (hout : q.main.outSocketFd = some csock) (hl : q.main.lSocketFd = p.main.lSocketFd)
    (hfds : q.fds = insert csock p.fds) : q.Sound := by
  obtain ⟨hdevice, -, -, hlistener⟩ := h.fresh hnew
  refine ⟨?_, ?_, ?_, ?_⟩
  · intro fd hfd
    rw [hdev, hin, hout] at hfd
    rw [hfds, Finset.mem_insert]
    rcases hfd with hfd | hfd | hfd
    · exact .inr (h.pointers fd (.inl hfd))
    · cases hfd
      exact .inl rfl
    · cases hfd
      exact .inl rfl
  · intro fd hfd
    rw [hl] at hfd
    rw [hfds]
    exact Finset.mem_insert_of_mem (h.listening fd hfd)
  · rw [hdev, hin, hout]
    intro fd hfd
    have hne : csock ≠ fd := fun heq => hdevice (heq ▸ hfd)
    simp [hne]
  · rw [hl, hdev, hin, hout]
    intro fd hfd
    have hne : csock ≠ fd := fun heq => hlistener (heq ▸ hfd)
    exact ⟨(h.listener fd hfd).1, by simp [hne], by simp [hne]⟩

theorem Process.Sound.opened (hnew : fd ∉ p.fds) (hdev : q.main.deviceFd = some fd)
    (hin : q.main.inSocketFd = p.main.inSocketFd) (hout : q.main.outSocketFd = p.main.outSocketFd)
    (hl : q.main.lSocketFd = p.main.lSocketFd) (hfds : q.fds = insert fd p.fds) : q.Sound := by
  obtain ⟨-, hinsocket, houtsocket, hlistener⟩ := h.fresh hnew
  refine ⟨?_, ?_, ?_, ?_⟩
  · intro g hg
    rw [hdev, hin, hout] at hg
    rw [hfds, Finset.mem_insert]
    rcases hg with hg | hg
    · cases hg
      exact .inl rfl
    · exact .inr (h.pointers g (.inr hg))
  · intro g hg
    rw [hl] at hg
    rw [hfds]
    exact Finset.mem_insert_of_mem (h.listening g hg)
  · rw [hdev, hin, hout]
    intro g hg
    cases hg
    exact ⟨hinsocket, houtsocket⟩
  · rw [hl, hdev, hin, hout]
    intro g hg
    have hne : fd ≠ g := fun heq => hlistener (heq ▸ hg)
    exact ⟨by simp [hne], (h.listener g hg).2⟩

end

/-- **A handler misuses no descriptor**, if it drops no client with one
socket. -/
theorem Handled.accepts {l : List SysCall} {f : Flow Process} (h : Handled pid other as p l f)
    (hp : p.Sound) (hsep : ∀ c ∈ l, ∀ DeviceFd s, c ≠ .dropConnection DeviceFd (some s) (some s)) :
    Accepts discipline p.fds l fun b => b = f.state.fds ∧ f.state.Sound := by
  cases h with
  | keep huses hmain hfiles hfds =>
    exact ⟨_, hp.run_uses huses, hfds.symm, hp.same hmain hfds⟩
  | drop huses hmain hfiles hfds =>
    refine ⟨_, ?_, hfds.symm, hp.dropped hmain hfds⟩
    rw [run_append, hp.run_uses huses, ok_bind, run_cons, hp.discipline_dropCall (hsep _ (by simp))]
    rfl
  | refuse csock hnew hmain hfiles hfds =>
    refine ⟨_, ?_, hfds.symm, hp.same hmain hfds⟩
    have haccept : discipline p.fds (.accept csock) = .ok (insert csock p.fds) :=
      if_pos fun fd hfd => by cases hfd
    have hclose : discipline (insert csock p.fds) (.close csock) = .ok p.fds := by
      unfold discipline
      rw [if_pos fun fd hfd => by cases hfd]
      show run closeFd (insert csock p.fds) [csock] = _
      rw [run_closeFd (nodup_singleton csock) (by simp)]
      exact congrArg Except.ok (Finset.erase_insert hnew)
    rw [run_cons, haccept, ok_bind, run_cons, hclose]
    rfl
  | accept csock hnew hfree hdev hin hout hl hfiles hfds =>
    refine ⟨_, ?_, hfds.symm, hp.accepted hnew hdev hin hout hl hfds⟩
    exact congrArg (· >>= _) (if_pos fun fd hfd => by cases hfd)
  | opened fd hnew hgranted hin hout hnone hdev hin' hout' hl hfiles hfds =>
    refine ⟨_, ?_, hfds.symm, hp.opened hnew hdev hin' hout' hl hfds⟩
    exact congrArg (· >>= _) (if_pos fun fd hfd => by cases hfd)
  | failed hin hout hnone hmain hfiles hfds =>
    refine ⟨_, ?_, hfds.symm, hp.dropped hmain hfds⟩
    have hopen : discipline p.fds (.openPort none) = .ok p.fds :=
      if_pos fun fd hfd => by cases hfd
    rw [run_cons, hopen, ok_bind, run_cons, hp.discipline_dropCall (hsep _ (by simp))]
    rfl

/-! ### Whole runs -/

theorem Process.Sound.discipline_select (h : p.Sound) :
    discipline p.fds (.select (selectFds p.main)) = .ok p.fds := by
  have hopen : ∀ fd ∈ selectFds p.main, fd ∈ p.fds := by
    intro fd hfd
    unfold selectFds at hfd
    simp only [mem_append, Option.mem_toList, mem_ite_nil_right] at hfd
    rcases hfd with ((⟨-, hd⟩ | ⟨-, ho⟩) | ⟨-, hi⟩) | hl
    · exact h.pointers fd (.inl hd)
    · exact h.pointers fd (.inr (.inr ho))
    · exact h.pointers fd (.inr (.inl hi))
    · exact h.listening fd hl
  exact if_pos hopen

/-- The handlers misuse no descriptor, if they drop no client with one
socket. -/
theorem Process.Sound.round (h : p.Sound)
    (hsep : ∀ c ∈ pipelineLog (Stage.process pid other selret i as)
      (Stage.processCalls pid other selret i as) stages p,
        ∀ DeviceFd s, c ≠ .dropConnection DeviceFd (some s) (some s)) :
    RoundAccepts discipline (Stage.process pid other selret i as)
      (Stage.processCalls pid other selret i as) (fun b q => b = q.fds ∧ q.Sound) p.fds stages
      p := by
  apply roundAccepts_of_handlers_where _ ⟨rfl, h⟩ hsep
  rintro k - b q f ⟨rfl, hq⟩ hf hcalls
  exact (process_handled hf).accepts hq hcalls

/-- **An iteration misuses no descriptor**, if it drops no client with one
socket. -/
theorem Process.Sound.iteration (h : p.Sound) (hsep : p.Separate pid other (.iteration i as)) :
    Accepts discipline p.fds (p.calls pid other (.iteration i as)) fun b =>
      ∀ p', p.iteration pid other i as = .ok p' → b = p'.fds ∧ p'.Sound := by
  have hselect : Accepts discipline p.fds [.select (selectFds p.main)] fun b => b = p.fds := by
    refine ⟨p.fds, ?_, rfl⟩
    rw [run_cons, h.discipline_select]
    rfl
  unfold Process.Separate at hsep
  dsimp only at hsep
  match hs : Sercd.select p.main i with
  | .error (.fault f) => exact absurd hs (select_no_fault f)
  | .error (.exit code) =>
    -- the process exits, and drops its client
    rw [calls_of_exit hs] at hsep ⊢
    apply hselect.append
    rintro b rfl
    refine ⟨p.main.dropCall.table p.fds, ?_, ?_⟩
    · rw [run_cons, h.discipline_dropCall (hsep _ (by simp))]
      rfl
    · intro p' hp'
      obtain ⟨selret, hok, -⟩ := bind_eq_ok.mp hp'
      rw [hs] at hok
      cases hok
  | .ok selret =>
    rw [calls_iteration hs] at hsep ⊢
    rw [iteration_of_select hs]
    apply hselect.append
    rintro b rfl
    by_cases hempty : selret = {}
    · rw [if_pos hempty, if_pos hempty]
      apply accepts_nil
      intro p' hp'
      cases hp'
      exact ⟨rfl, h⟩
    · rw [if_neg hempty] at hsep ⊢
      rw [if_neg hempty]
      have hobserve : (p.observe i).Sound := h.same ⟨rfl, rfl, rfl, rfl⟩ rfl
      apply (hobserve.round fun c hc => hsep c (mem_append_right _ hc)).mono
      intro b hb p' hp'
      obtain ⟨f, hf, hret⟩ := bind_eq_ok.mp hp'
      cases hret
      exact hb f hf

theorem Process.Sound.step (h : p.Sound) (hsep : p.Separate pid other e)
    (hstep : p.step pid other e = .ok q) : q.Sound := by
  match e with
  | .iteration i as =>
    obtain ⟨b, -, hb⟩ := h.iteration hsep
    exact (hb q hstep).2
  | .signal as =>
    -- there was nothing to close
    obtain ⟨hd, hi, ho⟩ := hsep
    cases hstep
    refine h.same ⟨rfl, rfl, rfl, rfl⟩ ?_
    show p.main.dropCall.table p.fds = p.fds
    rw [Main.dropCall, hd, hi, ho]
    rfl
  | .others fs =>
    cases hstep
    split
    · exact h.same (.refl _) rfl
    · exact h

end

/-- A client connects and its port is opened. -/
def connected : Happening :=
  .iteration { ready := { socketConnect := true }, csock := some 4, openFd := some 5 } {}

/-- The client closes its end. -/
def leaves : Happening := .iteration { ready := { socketIn := true }, netRead := .bytes [] } {}

end Sercd
