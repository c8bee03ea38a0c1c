import Mathlib.Data.Finset.Basic
import Cnu680.Framework.Monitor
import Cnu680.Sercd.Connection
import Cnu680.Sercd.LockCall

/-! # sercd: the process

The main loop together with what the system keeps for the process: its
open descriptors and the lock file. The process does three things: an
iteration of the loop, the exit function when a signal is delivered
between two iterations, and nothing while other processes use the lock
file.

`accept` and `open` return only numbers that are not in use. `OpenPort`
opens the device only with the lock. `Handled` says once what a handler
does, with the calls it makes on descriptors.
-/

open Framework

namespace Sercd

/-! ### Calls -/

/-- The calls on descriptors, and the two functions of `unix.c` that open
and close the port. The `ioctl`s are left out. -/
inductive SysCall where
  | select (fds : List Nat)
  | read (fd : Nat)
  | write (fd : Nat)
  /-- `accept`, with the socket it returns. -/
  | accept (csock : Nat)
  /-- `closesocket` of a client that is turned away. -/
  | close (fd : Nat)
  /-- `OpenPort`, with the device that it opens. -/
  | openPort (fd : Option Nat)
  | dropConnection (DeviceFd InSocketFd OutSocketFd : Option Nat)
  deriving DecidableEq, Repr

/-- The descriptors that a call waits for, reads or writes. -/
def SysCall.uses : SysCall → List Nat
  | .select fds => fds
  | .read fd | .write fd => [fd]
  | _ => []

/-- The descriptors that a call returns. -/
def SysCall.opens : SysCall → List Nat
  | .accept csock => [csock]
  | .openPort fd => fd.toList
  | _ => []

/-- The descriptors that a call closes, in the order of the source. -/
def SysCall.closes : SysCall → List Nat
  | .close fd => [fd]
  | .dropConnection DeviceFd InSocketFd OutSocketFd =>
    DeviceFd.toList ++ InSocketFd.toList ++ OutSocketFd.toList
  | _ => []

/-- `DropConnection`, with the pointers as they are. -/
def Main.dropCall (s : Main) : SysCall := .dropConnection s.deviceFd s.inSocketFd s.outSocketFd

/-- The descriptors that `SercdSelect` waits for; the modem lines are polled.
There are none when it is not called because there is nothing more to
do. -/
def selectFds (s : Main) : List Nat :=
  (if (armed s).deviceIn || (armed s).deviceOut then s.deviceFd.toList else []) ++
    (if (armed s).socketOut then s.outSocketFd.toList else []) ++
      (if (armed s).socketIn then s.inSocketFd.toList else []) ++ s.lSocketFd.toList

/-- A handler that ends the iteration has dropped the connection. -/
def dropCalls (s : Main) : Flow Main → List SysCall
  | .next _ => []
  | .continue _ => [s.dropCall]

/-- The calls of a handler. -/
def Stage.calls (selret : Events) (i : Inputs) (k : Stage) (s : Main) (f : Flow Main) :
    List SysCall :=
  if selret.reports k then
    match k with
    | .deviceIn => s.deviceFd.toList.map .read ++ dropCalls s f
    | .deviceOut => s.deviceFd.toList.map .write ++ dropCalls s f
    | .socketOut => s.outSocketFd.toList.map .write ++ dropCalls s f
    | .socketIn => s.inSocketFd.toList.map .read ++ dropCalls s f
    | .socketConnect =>
      match i.csock with
      | none => []
      | some csock =>
        if s.inSocketFd.isSome ∧ s.outSocketFd.isSome then [.accept csock, .close csock]
        else [.accept csock]
    | .openDevice =>
      if s.inSocketFd.isSome ∧ s.outSocketFd.isSome ∧ s.deviceFd.isNone then
        .openPort i.openFd :: dropCalls s f
      else []
    | .modemState => []
  else []

/-! ### The process -/

structure Process where
  main : Main
  /-- The lock file. -/
  files : Files
  /-- The descriptors that are open. -/
  fds : Finset Nat

/-- The open descriptors after a call. -/
def SysCall.table (fds : Finset Nat) (c : SysCall) : Finset Nat :=
  c.closes.foldl Finset.erase (c.opens.foldl (fun fds fd => insert fd fds) fds)

section
variable (pid other : Pid) {s : Main} {f : Flow Main} {l : List SysCall}

/-- The lock file after a call. -/
def SysCall.lock (as : Answers) (fs : Files) : SysCall → Files
  | .openPort _ => (hdbRun pid other .hdbLockFile fs as).1
  | .dropConnection (some _) _ _ => (hdbRun pid other .hdbUnlockFile fs as).1
  | _ => fs

/-- `HDBLockFile` returns `LockOk`. -/
def Process.granted (p : Process) (as : Answers) : Bool :=
  (hdbRun pid other .hdbLockFile p.files as).2.granted

/-- What the system can answer: no number that is in use, and no device
without the lock. -/
def Process.answered (p : Process) (i : Inputs) (as : Answers) : Inputs :=
  { i with
    csock := i.csock.filter fun fd => fd ∉ p.fds
    openFd := if p.granted pid other as then i.openFd.filter fun fd => fd ∉ p.fds else none }

/-- The process after calls that have led to `m`. -/
def Process.after (p : Process) (as : Answers) (l : List SysCall) (m : Main) : Process where
  main := m
  files := l.foldl (SysCall.lock pid other as) p.files
  fds := l.foldl SysCall.table p.fds

/-- One handler. Its lock function is answered with `as`. -/
def Stage.process (selret : Events) (i : Inputs) (as : Answers) (k : Stage) (p : Process) :
    Except Halt (Flow Process) :=
  let i := p.answered pid other i as
  (k.exec selret i p.main).map fun f =>
    f.map (p.after pid other as (k.calls selret i p.main f))

/-- The calls of a handler that has taken the process from `p` to `f`. -/
def Stage.processCalls (selret : Events) (i : Inputs) (as : Answers) (k : Stage) (p : Process)
    (f : Flow Process) : List SysCall :=
  k.calls selret (p.answered pid other i as) p.main (f.map Process.main)

def Process.observe (p : Process) (i : Inputs) : Process := { p with main := p.main.observe i }

/-- One iteration. It calls one lock function at most, so that one list of
answers is enough. -/
def Process.iteration (p : Process) (i : Inputs) (as : Answers) : Except Halt Process := do
  let selret ← Sercd.select p.main i
  if selret = {} then return p
  let f ← pipeline (Stage.process pid other selret i as) stages (p.observe i)
  return f.state

/-- `ExitFunction`, called by `SignalFunction`: the connection is dropped and
the pointers stay as they are. -/
def exitFunction (s : Main) : Main :=
  { dropConnection s with
    deviceFd := s.deviceFd
    inSocketFd := s.inSocketFd
    outSocketFd := s.outSocketFd }

/-- What happens between two tops of the loop. -/
inductive Happening where
  | iteration (i : Inputs) (as : Answers)
  /-- `SIGHUP`, `SIGQUIT` or `SIGTERM`. -/
  | signal (as : Answers)
  /-- Other processes change the lock file. -/
  | others (fs : Files)

instance (fs : Files) : Decidable fs.Numbered :=
  match h : fs.entry with
  | none => .isTrue (fun f hf => by rw [h] at hf; cases hf)
  | some f =>
    decidable_of_iff (f < fs.fresh) (by
      unfold Files.Numbered
      rw [h]
      simp)

instance (fs : Files) (pid : Pid) : Decidable (fs.Owned pid) :=
  match h : fs.entry with
  | none => .isFalse (fun ⟨f, hf, _⟩ => by rw [h] at hf; cases hf)
  | some f =>
    decidable_of_iff (fs.pidIn f = pid.val) (by
      unfold Files.Owned
      rw [h]
      simp)

/-- Other processes make no lock of this process and remove none. -/
def Process.step (p : Process) : Happening → Except Halt Process
  | .iteration i as => p.iteration pid other i as
  | .signal as => .ok (p.after pid other as [p.main.dropCall] (exitFunction p.main))
  | .others fs =>
    .ok (if fs.Numbered ∧ (fs.Owned pid ↔ p.files.Owned pid) then { p with files := fs } else p)

/-- The calls that are made. A process that exits calls `ExitFunction`. -/
def Process.calls (p : Process) : Happening → List SysCall
  | .iteration i as =>
    .select (selectFds p.main) ::
      match Sercd.select p.main i with
      | .error (.exit _) => [p.main.dropCall]
      | .error (.fault _) => []
      | .ok selret =>
        if selret = {} then []
        else
          pipelineLog (Stage.process pid other selret i as)
            (Stage.processCalls pid other selret i as) stages (p.observe i)
  | .signal _ => [p.main.dropCall]
  | .others _ => []

/-! ### What a handler does -/

/-- The call uses a descriptor of the client or of the port. -/
def Main.Uses (s : Main) : SysCall → Prop
  | .read fd | .write fd =>
    s.deviceFd = some fd ∨ s.inSocketFd = some fd ∨ s.outSocketFd = some fd
  | _ => False

/-- What a handler can do, with the calls it makes. -/
inductive Handled (as : Answers) (p : Process) : List SysCall → Flow Process → Prop
  | keep {l : List SysCall} {q : Process} (huses : ∀ c ∈ l, p.main.Uses c)
    (hmain : p.main.SameFds q.main) (hfiles : q.files = p.files) (hfds : q.fds = p.fds) :
    Handled as p l (.next q)
  | drop {l : List SysCall} {q : Process} (huses : ∀ c ∈ l, p.main.Uses c)
    (hmain : p.main.Dropped q.main)
    (hfiles : q.files = p.main.dropCall.lock pid other as p.files)
    (hfds : q.fds = p.main.dropCall.table p.fds) :
    Handled as p (l ++ [p.main.dropCall]) (.continue q)
  | refuse {q : Process} (csock : Nat) (hnew : csock ∉ p.fds) (hmain : p.main.SameFds q.main)
    (hfiles : q.files = p.files) (hfds : q.fds = p.fds) :
    Handled as p [.accept csock, .close csock] (.next q)
  | accept {q : Process} (csock : Nat) (hnew : csock ∉ p.fds)
    (hfree : ¬ (p.main.inSocketFd.isSome ∧ p.main.outSocketFd.isSome))
    (hdev : q.main.deviceFd = p.main.deviceFd) (hin : q.main.inSocketFd = some csock)
    (hout : q.main.outSocketFd = some csock) (hl : q.main.lSocketFd = p.main.lSocketFd)
    (hfiles : q.files = p.files) (hfds : q.fds = insert csock p.fds) :
    Handled as p [.accept csock] (.next q)
  | opened {q : Process} (fd : Nat) (hnew : fd ∉ p.fds) (hgranted : p.granted pid other as = true)
    (hin : p.main.inSocketFd.isSome) (hout : p.main.outSocketFd.isSome)
    (hnone : p.main.deviceFd = none) (hdev : q.main.deviceFd = some fd)
    (hin' : q.main.inSocketFd = p.main.inSocketFd)
    (hout' : q.main.outSocketFd = p.main.outSocketFd)
    (hl : q.main.lSocketFd = p.main.lSocketFd)
    (hfiles : q.files = (hdbRun pid other .hdbLockFile p.files as).1)
    (hfds : q.fds = insert fd p.fds) :
    Handled as p [.openPort (some fd)] (.next q)
  | failed {q : Process} (hin : p.main.inSocketFd.isSome) (hout : p.main.outSocketFd.isSome)
    (hnone : p.main.deviceFd = none) (hmain : p.main.Dropped q.main)
    (hfiles : q.files = (hdbRun pid other .hdbLockFile p.files as).1)
    (hfds : q.fds = p.main.dropCall.table p.fds) :
    Handled as p [.openPort none, p.main.dropCall] (.continue q)

variable {pid other} {as : Answers} {i : Inputs} {p : Process} {selret : Events}

theorem calls_iteration (h : Sercd.select p.main i = .ok selret) :
    p.calls pid other (.iteration i as) =
      [.select (selectFds p.main)] ++
        if selret = {} then []
        else
          pipelineLog (Stage.process pid other selret i as)
            (Stage.processCalls pid other selret i as) stages (p.observe i) := by
  unfold Process.calls
  dsimp only
  rw [h]
  rfl

theorem iteration_of_select (h : Sercd.select p.main i = .ok selret) :
    p.iteration pid other i as =
      if selret = {} then .ok p
      else pipeline (Stage.process pid other selret i as) stages (p.observe i) >>= fun f =>
        .ok f.state := by
  unfold Process.iteration
  rw [h]
  rfl

theorem calls_of_exit {code : Nat} (h : Sercd.select p.main i = .error (.exit code)) :
    p.calls pid other (.iteration i as) =
      [.select (selectFds p.main)] ++ [p.main.dropCall] := by
  unfold Process.calls
  dsimp only
  rw [h]
  rfl

theorem select_no_fault (f : Fault) : Sercd.select s i ≠ .error (.fault f) := by
  intro h
  unfold Sercd.select at h
  dsimp only at h
  split at h
  · cases h
  split at h <;> cases h

/-- What reading and writing leave alone is left alone by calls that only use
a descriptor. -/
theorem foldl_of_uses {τ : Type} {f : τ → SysCall → τ} (hread : ∀ x fd, f x (.read fd) = x)
    (hwrite : ∀ x fd, f x (.write fd) = x) (h : ∀ c ∈ l, s.Uses c) (x : τ) : l.foldl f x = x := by
  induction l with
  | nil => rfl
  | cons c l ih =>
    have hc : f x c = x := by
      have := h c (by simp)
      cases c with
      | read fd => exact hread x fd
      | write fd => exact hwrite x fd
      | select _ | accept _ | close _ | openPort _ | dropConnection _ _ _ => exact this.elim
    rw [List.foldl_cons, hc]
    exact ih fun c hc => h c (by simp [hc])

theorem lock_of_uses (h : ∀ c ∈ l, s.Uses c) (fs : Files) :
    l.foldl (SysCall.lock pid other as) fs = fs :=
  foldl_of_uses (fun _ _ => rfl) (fun _ _ => rfl) h fs

theorem table_of_uses (h : ∀ c ∈ l, s.Uses c) (fds : Finset Nat) :
    l.foldl SysCall.table fds = fds :=
  foldl_of_uses (fun _ _ => rfl) (fun _ _ => rfl) h fds

/-- A handler that uses a descriptor and has no other effect on them than
to drop the client. -/
theorem handled_of_stayed (huses : ∀ c ∈ l, p.main.Uses c) (h : Stayed p.main f) :
    Handled pid other as p (l ++ dropCalls p.main f)
      (f.map (p.after pid other as (l ++ dropCalls p.main f))) := by
  cases h with
  | keep hmain =>
    rw [dropCalls, List.append_nil]
    exact .keep huses hmain (lock_of_uses huses _) (table_of_uses huses _)
  | drop hmain =>
    refine .drop huses hmain ?_ ?_
    · show List.foldl _ _ (l ++ [p.main.dropCall]) = _
      rw [List.foldl_append, lock_of_uses huses]
      rfl
    · show List.foldl _ _ (l ++ [p.main.dropCall]) = _
      rw [List.foldl_append, table_of_uses huses]
      rfl

theorem handled_nil : Handled pid other as p [] (.next (p.after pid other as [] p.main)) :=
  .keep (by simp) (.refl _) rfl rfl

theorem mem_toList_map {o : Option Nat} {g : Nat → SysCall} {c : SysCall}
    (h : c ∈ o.toList.map g) : ∃ fd, o = some fd ∧ c = g fd := by
  cases o with
  | none => cases h
  | some fd =>
    cases List.mem_singleton.mp h
    exact ⟨fd, rfl, rfl⟩

theorem answered_csock {csock : Nat} (h : (p.answered pid other i as).csock = some csock) :
    csock ∉ p.fds := by
  have hfilter : i.csock.filter (fun fd => fd ∉ p.fds) = some csock := h
  rw [Option.filter_eq_some_iff] at hfilter
  simpa using hfilter.2

theorem answered_openFd {fd : Nat} (h : (p.answered pid other i as).openFd = some fd) :
    p.granted pid other as = true ∧ fd ∉ p.fds := by
  have hopen : (if p.granted pid other as then i.openFd.filter fun fd => fd ∉ p.fds else none) =
    some fd := h
  split at hopen
  · next hgranted =>
    rw [Option.filter_eq_some_iff] at hopen
    exact ⟨hgranted, by simpa using hopen.2⟩
  · cases hopen

theorem socketConnect_handled (h : socketConnect (p.answered pid other i as) p.main = .ok f) :
    let l := match (p.answered pid other i as).csock with
      | none => []
      | some csock =>
        if p.main.inSocketFd.isSome ∧ p.main.outSocketFd.isSome then
          [.accept csock, .close csock]
        else [.accept csock]
    Handled pid other as p l (f.map (p.after pid other as l)) := by
  unfold socketConnect at h
  dsimp only [Main.record] at h ⊢
  split at h
  · cases h
  cases hcsock : (p.answered pid other i as).csock with
  | none =>
    rw [hcsock] at h
    cases h
    exact handled_nil
  | some csock =>
    have hnew := answered_csock hcsock
    rw [hcsock] at h
    dsimp only at h ⊢
    split at h
    · next hfull =>
      -- a second client is turned away
      rw [if_pos hfull]
      cases h
      exact .refuse csock hnew (.refl _) rfl (Finset.erase_insert hnew)
    · next hfree =>
      rw [if_neg hfree]
      obtain ⟨B', hB', -⟩ := sendTelnetInitialOptions_ok p.main.g p.main.toNetBuf
      rw [hB'] at h
      obtain ⟨t, rfl, hdev, hin, hout, hl⟩ : ∃ t : Main, f = .next t ∧
          t.deviceFd = p.main.deviceFd ∧ t.inSocketFd = some csock ∧
            t.outSocketFd = some csock ∧ t.lSocketFd = p.main.lSocketFd := by
        cases h
        exact ⟨_, rfl, rfl, rfl, rfl, rfl⟩
      exact .accept csock hnew hfree hdev hin hout hl rfl rfl

theorem openDevice_handled (h : openDevice (p.answered pid other i as) p.main = .ok f) :
    let l := if p.main.inSocketFd.isSome ∧ p.main.outSocketFd.isSome ∧ p.main.deviceFd.isNone then
        .openPort (p.answered pid other i as).openFd :: dropCalls p.main f
      else []
    Handled pid other as p l (f.map (p.after pid other as l)) := by
  unfold openDevice at h
  dsimp only [Main.record] at h ⊢
  split at h
  · next hopen =>
    obtain ⟨hin, hout, hnone⟩ := hopen
    have hnone' : p.main.deviceFd = none := Option.isNone_iff_eq_none.mp hnone
    rw [if_pos ⟨hin, hout, hnone⟩]
    cases hfd : (p.answered pid other i as).openFd with
    | none =>
      rw [hfd] at h
      cases h
      refine .failed hin hout hnone' (dropped_dropConnection (.refl _)) ?_ rfl
      -- without a device, dropping the client does not touch the lock
      show p.main.dropCall.lock pid other as _ = _
      unfold Main.dropCall
      rw [hnone']
      rfl
    | some fd =>
      obtain ⟨hgranted, hnew⟩ := answered_openFd hfd
      rw [hfd] at h
      cases h
      exact .opened fd hnew hgranted hin hout hnone' rfl rfl rfl rfl rfl rfl
  · next hnot =>
    rw [if_neg hnot]
    cases h
    exact handled_nil

/-- **Every handler does one of these.** -/
theorem process_handled {k : Stage} {f : Flow Process}
    (h : k.process pid other selret i as p = .ok f) :
    Handled pid other as p (k.processCalls pid other selret i as p f) f := by
  unfold Stage.processCalls
  obtain ⟨f₀, hf₀, hf⟩ := map_eq_ok.mp h
  have hback : f.map Process.main = f₀ := by
    rw [← hf]
    cases f₀ <;> rfl
  rw [hback, ← hf]
  unfold Stage.exec at hf₀
  unfold Stage.calls
  split at hf₀
  · next hrep =>
    rw [if_pos hrep]
    match k with
    | .deviceIn =>
      apply handled_of_stayed _ (deviceIn_stayed hf₀)
      intro c hc
      obtain ⟨fd, hfd, rfl⟩ := mem_toList_map hc
      exact .inl hfd
    | .deviceOut =>
      apply handled_of_stayed _ (deviceOut_stayed hf₀)
      intro c hc
      obtain ⟨fd, hfd, rfl⟩ := mem_toList_map hc
      exact .inl hfd
    | .socketOut =>
      apply handled_of_stayed _ (socketOut_stayed hf₀)
      intro c hc
      obtain ⟨fd, hfd, rfl⟩ := mem_toList_map hc
      exact .inr (.inr hfd)
    | .socketIn =>
      apply handled_of_stayed _ (socketIn_stayed hf₀)
      intro c hc
      obtain ⟨fd, hfd, rfl⟩ := mem_toList_map hc
      exact .inr (.inl hfd)
    | .socketConnect => exact socketConnect_handled hf₀
    | .openDevice => exact openDevice_handled hf₀
    | .modemState =>
      obtain ⟨t, rfl, hsame⟩ := modemState_sameFds hf₀
      exact .keep (by simp) hsame rfl rfl
  · next hrep =>
    rw [if_neg hrep]
    cases hf₀
    exact handled_nil

/-! ### Its iterations are those of the main loop -/

/-- A handler reads only its own answer of `accept` or of `OpenPort`. -/
theorem exec_answers {k : Stage} {csock csock' openFd openFd' : Option Nat} (s : Main)
    (hc : k = .socketConnect → csock = csock') (ho : k = .openDevice → openFd = openFd') :
    k.exec selret { i with csock := csock, openFd := openFd } s =
      k.exec selret { i with csock := csock', openFd := openFd' } s := by
  cases k with
  | socketConnect =>
    cases hc rfl
    rfl
  | openDevice =>
    cases ho rfl
    rfl
  | deviceIn | deviceOut | socketOut | socketIn | modemState => rfl

theorem pipeline_main {ks : List Stage} (hks : ks.Nodup) {p : Process} {f : Flow Process}
    (h : pipeline (Stage.process pid other selret i as) ks p = .ok f) :
    ∃ csock openFd, pipeline (Stage.exec selret { i with csock := csock, openFd := openFd }) ks
      p.main = .ok (f.map Process.main) := by
  induction ks generalizing p with
  | nil =>
    cases h
    exact ⟨none, none, rfl⟩
  | cons k ks ih =>
    rw [List.nodup_cons] at hks
    obtain ⟨f₁, hf₁, hrest⟩ := bind_eq_ok.mp h
    obtain ⟨f₀, hf₀, rfl⟩ := map_eq_ok.mp hf₁
    match f₀ with
    | .continue t =>
      cases hrest
      refine ⟨(p.answered pid other i as).csock, (p.answered pid other i as).openFd, ?_⟩
      rw [pipeline_cons]
      exact bind_eq_ok.mpr ⟨_, hf₀, rfl⟩
    | .next t =>
      obtain ⟨csock, openFd, hpipe⟩ := ih hks.2 hrest
      -- this handler is answered as here, the others as they are
      refine ⟨if k = .socketConnect then (p.answered pid other i as).csock else csock,
        if k = .openDevice then (p.answered pid other i as).openFd else openFd, ?_⟩
      rw [pipeline_cons]
      refine bind_eq_ok.mpr ⟨.next t, ?_, ?_⟩
      · rw [← hf₀]
        exact exec_answers _ (fun hk => if_pos hk) (fun hk => if_pos hk)
      · rw [← hpipe]
        apply pipeline_congr
        intro l hl s
        have hne : l ≠ k := fun heq => hks.1 (heq ▸ hl)
        exact exec_answers _ (fun hk => if_neg fun hk' => hne (hk.trans hk'.symm))
          (fun hk => if_neg fun hk' => hne (hk.trans hk'.symm))

/-- **An iteration of the process is an iteration of the main loop**, for
some answers of `accept` and `OpenPort`. -/
theorem iteration_main {p' : Process} (h : p.iteration pid other i as = .ok p') :
    ∃ csock openFd, Sercd.iteration p.main { i with csock := csock, openFd := openFd } =
      .ok p'.main := by
  obtain ⟨selret, hselect, h⟩ := bind_eq_ok.mp h
  split at h
  · next hempty =>
    cases h
    refine ⟨none, none, bind_eq_ok.mpr ⟨selret, hselect, ?_⟩⟩
    rw [if_pos hempty]
    rfl
  · next hsome =>
    obtain ⟨f, hf, hret⟩ := bind_eq_ok.mp h
    cases hret
    obtain ⟨csock, openFd, hpipe⟩ := pipeline_main (by decide) hf
    refine ⟨csock, openFd, bind_eq_ok.mpr ⟨selret, hselect, ?_⟩⟩
    rw [if_neg hsome]
    refine bind_eq_ok.mpr ⟨_, hpipe, ?_⟩
    cases f <;> rfl

end

/-! ### Two processes without a lock file -/

def noFiles : Files := ⟨none, fun _ => [], 0⟩

end Sercd
