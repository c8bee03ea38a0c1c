import Cnu680.Framework.Exec
import Cnu680.Framework.Decimal

/-! # sercd: the lock file

`HDBLockFile` and `HDBUnlockFile` of `unix.c`, run by two processes on
one path. A step is one system call of one of the processes, together
with what the function does up to its next system call.

The lock file is a directory entry that may be there or not, and files
that stay readable and writable through their descriptors after the entry
is gone. The entry is all that a process can see of the lock of another.

* `Files.Owned` is what holding the lock comes to: the entry is there, and
  the file behind it has the process's pid in it.
* The two calls of `unlink` that are not those of the owner do not look
  at what they remove. `SafeUnlink` says of a step that it does not
  remove the lock of the other process.
-/

open Framework Function List

namespace Sercd

/-! ### The contents of a lock file -/

abbrev HDBHeaderLen : Nat := 11

/-- The pid of a process. -/
@[ext]
structure Pid where
  val : Nat
  pos : 0 < val
  lt : val < 2147483648
  deriving DecidableEq

/-- `snprintf(HDBBuffer, sizeof(HDBBuffer), "%10d\n", LockPid)`. -/
def hdbBuffer (LockPid : Pid) : List UInt8 :=
  List.replicate (10 - (numeral LockPid.val).length) 32 ++ numeral LockPid.val ++ [10]

/-- `isspace`. -/
def IsSpace (b : UInt8) : Prop := b = 32 ∨ 9 ≤ b ∧ b ≤ 13

instance (b : UInt8) : Decidable (IsSpace b) := by
  unfold IsSpace
  infer_instance

/-- `atoi`, with the values that do not fit at the ends of the range. -/
def atoi (str : List UInt8) : Int :=
  match str.dropWhile (fun b => IsSpace b) with
  | [] => 0
  | b :: l =>
    if b = 45 then max (-2147483648) (-(readDigits 0 l : Int))
    else if b = 43 then min 2147483647 (readDigits 0 l : Int)
    else min 2147483647 (readDigits 0 (b :: l) : Int)

theorem hdbBuffer_length (LockPid : Pid) : (hdbBuffer LockPid).length = HDBHeaderLen := by
  have hlt : LockPid.val < 10 ^ 10 := Nat.lt_trans LockPid.lt (by decide)
  have hlen := numeral_length_le (by decide : 1 ≤ 10) hlt
  simp only [hdbBuffer, HDBHeaderLen, length_append, length_replicate, length_singleton]
  omega

theorem atoi_hdbBuffer (LockPid : Pid) : atoi (hdbBuffer LockPid) = LockPid.val := by
  have hread : readDigits 0 (numeral LockPid.val ++ [10]) = LockPid.val :=
    readDigits_numeral LockPid.val (by
      intro b hb
      cases hb
      decide)
  have hlt := LockPid.lt
  -- the padding is skipped, and the numeral does not begin with a sign
  have hskip : ∀ n, (List.replicate n 32 ++ numeral LockPid.val ++ [10]).dropWhile
      (fun b => decide (IsSpace b)) =
        (numeral LockPid.val ++ [10]).dropWhile (fun b => decide (IsSpace b)) := by
    intro n
    induction n with
    | zero => rfl
    | succ n ih =>
      rw [replicate_succ, cons_append, cons_append]
      exact ih
  unfold atoi hdbBuffer
  rw [hskip]
  match hnum : numeral LockPid.val with
  | [] =>
    -- a number has a digit
    rw [hnum] at hread
    have hpos := LockPid.pos
    rw [← hread] at hpos
    exact absurd hpos (by decide)
  | b :: l =>
    have hb : IsDigit b := numeral_isDigit (by rw [hnum]; simp)
    have hspace : ¬ IsSpace b := by
      rintro (rfl | ⟨-, hle⟩)
      · exact absurd hb (by decide)
      · have h48 : (48 : UInt8) ≤ 13 := UInt8.le_trans hb.1 hle
        exact absurd h48 (by decide)
    have hminus : b ≠ 45 := by
      rintro rfl
      exact absurd hb (by decide)
    have hplus : b ≠ 43 := by
      rintro rfl
      exact absurd hb (by decide)
    rw [hnum] at hread
    have hdrop : ((b :: l) ++ [10]).dropWhile (fun b => decide (IsSpace b)) = b :: (l ++ [10]) := by
      simp [hspace]
    rw [hdrop]
    dsimp only
    rw [if_neg hminus, if_neg hplus]
    have hval : readDigits 0 (b :: (l ++ [10])) = LockPid.val := hread
    rw [hval]
    omega

/-! ### The functions of `unix.c` -/

/-- The directory entry `LockFile`, and the files that have been behind
it. -/
structure Files where
  entry : Option Nat
  content : Nat → List UInt8
  /-- No file with this number or a higher one has been made. -/
  fresh : Nat

inductive LockResult where
  | LockOk | Locked | LockKo
  deriving DecidableEq, Repr

inductive Routine where
  | hdbLockFile | hdbUnlockFile
  deriving DecidableEq, Repr

/-- The next system call of a process. -/
inductive Pc where
  /-- None: the process is in neither function. -/
  | idle
  | openCreate
  | openRead
  | read (FileDes : Nat)
  /-- `close`, with what was read, or nothing if `read` failed. -/
  | closeRead (FileDes : Nat) (got : Option (List UInt8))
  | kill (pid : Int)
  | unlinkStale
  | write (FileDes : Nat)
  | closeFailed (FileDes : Nat)
  | unlinkFailed
  | closeWritten (FileDes : Nat)
  /-- The `unlink` of `HDBUnlockFile`. -/
  | unlinkOwn
  deriving DecidableEq

structure Proc where
  pid : Pid
  routine : Routine
  pc : Pc
  /-- The process has returned `LockOk` from `HDBLockFile` and not called
      `HDBUnlockFile` since. -/
  granted : Bool

/-- What the system answers to a call, and which function an idle process
calls. -/
structure Answer where
  call : Routine := .hdbLockFile
  /-- The call fails, for a reason that is not the state of the entry. -/
  fails : Bool := false
  /-- The number of bytes that `write` writes. -/
  count : Nat := HDBHeaderLen
  /-- `kill` finds no process with the pid. -/
  noProcess : Bool := false

/-- `HDBLockFile` returns: to the caller, or to `HDBUnlockFile`. -/
def Proc.returns (P : Proc) (r : LockResult) : Proc :=
  match P.routine, r with
  | .hdbLockFile, .LockOk => { P with pc := .idle, granted := true }
  | .hdbUnlockFile, .LockOk => { P with pc := .unlinkOwn }
  | _, _ => { P with pc := .idle }

/-- The tests of `HDBLockFile` on the header that was read. -/
def Proc.examine (P : Proc) : Option (List UInt8) → Proc
  | none | some [] => P.returns .LockKo
  | some HDBBuffer =>
    if atoi HDBBuffer = P.pid.val then P.returns .LockOk
    else if atoi HDBBuffer = 0 then { P with pc := .unlinkStale }
    else { P with pc := .kill (atoi HDBBuffer) }

/-- One system call of a process. The other process is alive: `kill` finds
its pid. -/
def Proc.step (fs : Files) (other : Pid) (P : Proc) (a : Answer) : Files × Proc :=
  match P.pc with
  | .idle =>
    (fs, { P with
      routine := a.call, pc := .openCreate, granted := P.granted && a.call = .hdbLockFile })
  | .openCreate =>
    if a.fails then (fs, P.returns .LockKo)
    else if fs.entry.isSome then (fs, { P with pc := .openRead })
    else
      (⟨some fs.fresh, update fs.content fs.fresh [], fs.fresh + 1⟩,
        { P with pc := .write fs.fresh })
  | .openRead =>
    match fs.entry with
    | none => (fs, P.returns .LockKo)
    | some f => (fs, if a.fails then P.returns .LockKo else { P with pc := .read f })
  | .read f =>
    (fs, { P with
      pc := .closeRead f (if a.fails then none else some ((fs.content f).take HDBHeaderLen)) })
  | .closeRead _ got => (fs, P.examine got)
  | .kill pid =>
    (fs, if a.noProcess ∧ pid ≠ other.val then { P with pc := .unlinkStale }
      else P.returns .Locked)
  | .unlinkStale =>
    if a.fails ∨ fs.entry = none then (fs, P.returns .LockKo)
    else ({ fs with entry := none }, { P with pc := .openCreate })
  | .write f =>
    ({ fs with content := update fs.content f ((hdbBuffer P.pid).take a.count) },
      { P with pc := if HDBHeaderLen ≤ a.count then .closeWritten f else .closeFailed f })
  | .closeFailed _ => (fs, { P with pc := .unlinkFailed })
  | .unlinkFailed =>
    (if a.fails then fs else { fs with entry := none }, P.returns .LockKo)
  | .closeWritten _ => (fs, P.returns .LockOk)
  | .unlinkOwn => (if a.fails then fs else { fs with entry := none }, { P with pc := .idle })

/-! ### Two processes -/

inductive Who where
  | first | second
  deriving DecidableEq, Repr

def Who.other : Who → Who
  | .first => .second
  | .second => .first

structure Sys where
  files : Files
  proc : Who → Proc

/-- A system call of one of the processes. No call stops the system. -/
def Sys.step (s : Sys) (i : Who × Answer) : Except Empty Sys :=
  let r := (s.proc i.1).step s.files (s.proc i.1.other).pid i.2
  .ok ⟨r.1, update s.proc i.1 r.2⟩

/-- Two processes with different pids, before their first call; the lock
file may be there, with any content, or not. -/
structure Sys.Initial (s : Sys) : Prop where
  pids : (s.proc .first).pid ≠ (s.proc .second).pid
  idle : ∀ w, (s.proc w).pc = .idle
  granted : ∀ w, (s.proc w).granted = false
  entry : ∀ f, s.files.entry = some f → f < s.files.fresh

/-- The pid that a file has in it. -/
def Files.pidIn (fs : Files) (f : Nat) : Int := atoi ((fs.content f).take HDBHeaderLen)

/-- The entry is there, and the file behind it has the pid in it. -/
def Files.Owned (fs : Files) (pid : Pid) : Prop := ∃ f, fs.entry = some f ∧ fs.pidIn f = pid.val

/-- **The condition on a step**: if it removes the entry because the lock is
stale or its header could not be written, the file behind the entry does
not have the pid of the other process in it, and the other process has
not just created it. -/
def SafeUnlink (s : Sys) (i : Who × Answer) : Prop :=
  (s.proc i.1).pc = .unlinkStale ∨ (s.proc i.1).pc = .unlinkFailed → i.2.fails = false →
    ∀ f ∈ s.files.entry, s.files.pidIn f ≠ (s.proc i.1.other).pid.val ∧
      (s.proc i.1.other).pc ≠ .write f

instance (s : Sys) (i : Who × Answer) : Decidable (SafeUnlink s i) := by
  unfold SafeUnlink
  infer_instance

/-! ### What a process can rely on -/

/-- What holds of the files at each of the calls of a process. -/
def Proc.At (fs : Files) (P : Proc) : Prop :=
  match P.pc with
  | .idle | .openCreate | .openRead => True
  | .read f => f < fs.fresh ∧ (fs.pidIn f = P.pid.val ∨ P.granted = true → fs.entry = some f)
  | .closeRead _ got =>
    ∀ l ∈ got, (atoi l = P.pid.val → fs.Owned P.pid) ∧ (atoi l ≠ P.pid.val → P.granted = false)
  | .kill _ | .unlinkStale | .closeFailed _ | .unlinkFailed => P.granted = false
  | .write f => f < fs.fresh ∧ P.granted = false ∧ fs.entry = some f ∧ fs.content f = []
  | .closeWritten _ => fs.Owned P.pid
  | .unlinkOwn => P.granted = false ∧ fs.Owned P.pid

structure Proc.Inv (fs : Files) (P : Proc) : Prop where
  granted : P.granted = true → fs.Owned P.pid
  unlocking : P.granted = true → P.pc ≠ .idle → P.routine = .hdbLockFile
  pc : P.At fs

theorem atoi_nil : atoi [] = 0 := rfl

theorem pidIn_of_empty {fs : Files} {f : Nat} (h : fs.content f = []) (pid : Pid) :
    fs.pidIn f ≠ pid.val := by
  have hpos := pid.pos
  rw [Files.pidIn, h, take_nil, atoi_nil]
  omega

theorem pidIn_of_ne {fs fs' : Files} {f g : Nat} {l : List UInt8}
    (hcontent : fs'.content = update fs.content g l) (hne : f ≠ g) : fs'.pidIn f = fs.pidIn f := by
  rw [Files.pidIn, hcontent, update_of_ne hne]
  rfl

theorem pidIn_written (fs : Files) (f : Nat) (pid : Pid) {count : Nat}
    (hfull : HDBHeaderLen ≤ count) :
    Files.pidIn
      { fs with content := update fs.content f ((hdbBuffer pid).take count) } f =
        pid.val := by
  have hlen := hdbBuffer_length pid
  have htake : (hdbBuffer pid).take count = hdbBuffer pid :=
    take_of_length_le (hlen ▸ hfull)
  rw [Files.pidIn]
  dsimp only
  rw [update_self, htake, take_of_length_le (Nat.le_of_eq hlen), atoi_hdbBuffer]

section
variable {fs : Files} {P : Proc}

theorem Proc.Inv.returns (h : P.Inv fs) {r : LockResult} (hok : r = .LockOk → fs.Owned P.pid)
    (hpc : P.pc ≠ .idle) : (P.returns r).Inv fs := by
  unfold Proc.returns
  split
  · exact ⟨fun _ => hok rfl, fun _ hne => absurd rfl hne, trivial⟩
  · next hroutine =>
    -- a process in `HDBUnlockFile` no longer counts as a holder
    have hno : P.granted = false := by
      cases hg : P.granted with
      | false => rfl
      | true =>
        have := h.unlocking hg hpc
        rw [hroutine] at this
        cases this
    exact ⟨h.granted, fun hg => absurd hg (by simp [hno]), hno, hok rfl⟩
  · exact ⟨h.granted, fun _ hne => absurd rfl hne, trivial⟩

theorem Proc.Inv.goto (h : P.Inv fs) {pc : Pc} (hpc : P.pc ≠ .idle)
    (hat : Proc.At fs { P with pc := pc }) : Proc.Inv fs { P with pc := pc } :=
  ⟨h.granted, fun hg _ => h.unlocking hg hpc, hat⟩

/-- The tests on the header: a process goes on to remove a lock only if it
does not hold it. -/
theorem Proc.Inv.examine (h : P.Inv fs) {f : Nat} {got : Option (List UInt8)}
    (hpc : P.pc = .closeRead f got) : (P.examine got).Inv fs := by
  have hne : P.pc ≠ .idle := by
    rw [hpc]
    exact nofun
  have hat := h.pc
  unfold Proc.At at hat
  rw [hpc] at hat
  match got with
  | none | some [] => exact h.returns nofun hne
  | some (b :: l) =>
    obtain ⟨hown, hother⟩ := hat (b :: l) rfl
    unfold Proc.examine
    dsimp only
    split
    · next heq => exact h.returns (fun _ => hown heq) hne
    · next hdiff =>
      split <;> exact h.goto hne (hother hdiff)

/-- **A process's own steps keep what it relies on.** -/
theorem Proc.step_inv (h : P.Inv fs) (hfresh : ∀ f, fs.entry = some f → f < fs.fresh)
    (other : Pid) (a : Answer) : (P.step fs other a).2.Inv (P.step fs other a).1 := by
  by_cases hidle : P.pc = .idle
  · unfold Proc.step
    rw [hidle]
    refine ⟨fun hg => h.granted (Bool.and_eq_true_iff.mp hg).1, fun hg _ => ?_, trivial⟩
    exact of_decide_eq_true (Bool.and_eq_true_iff.mp hg).2
  have hat := h.pc
  unfold Proc.At at hat
  unfold Proc.step
  match hpc : P.pc, hat with
  | .idle, _ => exact absurd hpc hidle
  | .openCreate, _ =>
    dsimp only
    split
    · exact h.returns nofun hidle
    · split
      · exact h.goto hidle trivial
      · next hnone =>
        -- the entry of a holder would be there
        have hno : P.granted = false := by
          cases hg : P.granted with
          | false => rfl
          | true =>
            obtain ⟨f, hf, -⟩ := h.granted hg
            rw [hf] at hnone
            exact absurd rfl hnone
        refine ⟨fun hg => absurd hg (by simp [hno]), fun hg => absurd hg (by simp [hno]), ?_⟩
        exact ⟨Nat.lt_succ_self _, hno, rfl, update_self ..⟩
  | .openRead, _ =>
    match hentry : fs.entry with
    | none => exact h.returns nofun hidle
    | some f =>
      dsimp only
      split
      · exact h.returns nofun hidle
      · exact h.goto hidle ⟨hfresh f hentry, fun _ => hentry⟩
  | .read f, hat =>
    apply h.goto hidle
    show ∀ l ∈ _, _
    intro l hl
    split at hl
    · cases hl
    · cases hl
      refine ⟨fun heq => ⟨f, hat.2 (.inl heq), heq⟩, fun hdiff => ?_⟩
      -- what a holder reads is its own file
      cases hg : P.granted with
      | false => rfl
      | true =>
        obtain ⟨f', hf', hpid⟩ := h.granted hg
        have hentry := hat.2 (.inr hg)
        rw [hentry] at hf'
        cases hf'
        exact absurd hpid hdiff
  | .closeRead f got, _ => exact h.examine hpc
  | .kill pid, hat =>
    dsimp only
    split
    · exact h.goto hidle hat
    · exact h.returns nofun hidle
  | .unlinkStale, hat =>
    dsimp only
    split
    · exact h.returns nofun hidle
    · exact ⟨fun hg => absurd hg (by simp [hat]), fun hg => absurd hg (by simp [hat]), trivial⟩
  | .write f, hat =>
    obtain ⟨-, hno, hentry, -⟩ := hat
    refine ⟨fun hg => absurd hg (by simp [hno]), fun hg => absurd hg (by simp [hno]), ?_⟩
    dsimp only
    by_cases hfull : HDBHeaderLen ≤ a.count
    · rw [if_pos hfull]
      -- the whole header was written
      exact ⟨f, hentry, pidIn_written fs f P.pid hfull⟩
    · rw [if_neg hfull]
      exact hno
  | .closeFailed f, hat =>
    exact h.goto hidle hat
  | .unlinkFailed, hat =>
    dsimp only
    split
    · exact h.returns nofun hidle
    · have hremoved : P.Inv { fs with entry := none } := by
        refine ⟨fun hg => absurd hg (by simp [hat]), fun hg => absurd hg (by simp [hat]), ?_⟩
        unfold Proc.At
        rw [hpc]
        exact hat
      exact hremoved.returns nofun hidle
  | .closeWritten f, hat =>
    exact h.returns (fun _ => hat) hidle
  | .unlinkOwn, hat =>
    exact ⟨fun hg => absurd hg (by simp [hat.1]), fun _ hne => absurd rfl hne, trivial⟩

end

/-! ### What the steps of the other process do to it -/

/-- What a step of the other process can do to the files that a process `P`
relies on. -/
inductive Files.Change (P : Proc) (fs : Files) : Files → Prop
  | same : Change P fs fs
  | created (h : fs.entry = none) :
    Change P fs ⟨some fs.fresh, update fs.content fs.fresh [], fs.fresh + 1⟩
  | wrote (f : Nat) (l : List UInt8) (hentry : fs.entry = some f) (hempty : fs.content f = [])
    (hP : ∀ g, P.pc ≠ .write g) :
    Change P fs { fs with content := update fs.content f l }
  | removed (h : ∀ f, fs.entry = some f → fs.pidIn f ≠ P.pid.val ∧ P.pc ≠ .write f) :
    Change P fs { fs with entry := none }

section
variable {fs fs' : Files} {P Q : Proc}

theorem Files.Owned.change (h : fs.Owned P.pid) (hc : fs.Change P fs') : fs'.Owned P.pid := by
  obtain ⟨f, hf, hpid⟩ := h
  cases hc with
  | same => exact ⟨f, hf, hpid⟩
  | created hnone =>
    rw [hf] at hnone
    cases hnone
  | wrote g l hentry hempty hP =>
    rw [hf] at hentry
    cases hentry
    exact absurd hpid (pidIn_of_empty hempty P.pid)
  | removed hsafe => exact absurd hpid (hsafe f hf).1

/-- The file that a process is about to read keeps its pid out, or is behind
the entry. -/
theorem read_change {f : Nat} (hlt : f < fs.fresh)
    (h : fs.pidIn f = P.pid.val ∨ P.granted = true → fs.entry = some f)
    (hg : P.granted = true → fs.Owned P.pid) (hc : fs.Change P fs') :
    f < fs'.fresh ∧ (fs'.pidIn f = P.pid.val ∨ P.granted = true → fs'.entry = some f) := by
  cases hc with
  | same => exact ⟨hlt, h⟩
  | created hnone =>
    refine ⟨Nat.lt_succ_of_lt hlt, fun hor => ?_⟩
    rw [pidIn_of_ne rfl (Nat.ne_of_lt hlt)] at hor
    -- the file was behind the entry, and there was no entry
    have hentry := h hor
    rw [hnone] at hentry
    cases hentry
  | wrote g l hentry hempty hP =>
    refine ⟨hlt, fun hor => ?_⟩
    by_cases hfg : f = g
    · rw [hfg]
      exact hentry
    · rw [pidIn_of_ne rfl hfg] at hor
      exact h hor
  | removed hsafe =>
    refine ⟨hlt, fun hor => ?_⟩
    have hentry : fs.entry = some f := h hor
    -- a removal that is safe is not of the lock of this process
    rcases hor with hpid | hgranted
    · exact absurd hpid (hsafe f hentry).1
    · obtain ⟨g, hg, hpid⟩ := hg hgranted
      exact absurd hpid (hsafe g hg).1

/-- **A process keeps what it relies on through the steps of the other.** -/
theorem Proc.Inv.change (h : P.Inv fs) (hc : fs.Change P fs') : P.Inv fs' := by
  refine ⟨fun hg => (h.granted hg).change hc, h.unlocking, ?_⟩
  have hat := h.pc
  unfold Proc.At at hat ⊢
  match hpc : P.pc, hat with
  | .idle, _ | .openCreate, _ | .openRead, _ => trivial
  | .read f, hat =>
    exact read_change hat.1 hat.2 h.granted hc
  | .closeRead f got, hat =>
    exact fun l hl => ⟨fun heq => ((hat l hl).1 heq).change hc, (hat l hl).2⟩
  | .kill _, hat | .unlinkStale, hat | .closeFailed _, hat | .unlinkFailed, hat => exact hat
  | .write f, hat =>
    -- the other cannot create what is there, nor write while this process is to
    obtain ⟨hlt, hno, hentry, hempty⟩ := hat
    cases hc with
    | same => exact ⟨hlt, hno, hentry, hempty⟩
    | created hnone =>
      rw [hentry] at hnone
      cases hnone
    | wrote g l hg hg' hP => exact absurd hpc (hP f)
    | removed hsafe => exact absurd hpc (hsafe f hentry).2
  | .closeWritten f, hat =>
    exact hat.change hc
  | .unlinkOwn, hat =>
    exact ⟨hat.1, hat.2.change hc⟩

/-- **A step of `Q` changes the files in one of these ways**, if it removes
no lock of `P`. -/
theorem step_change (hQ : Q.Inv fs) (hpids : P.pid ≠ Q.pid)
    (hwriter : ∀ f g, Q.pc = .write f → P.pc ≠ .write g) (hP : P.Inv fs) (a : Answer)
    (hsafe : Q.pc = .unlinkStale ∨ Q.pc = .unlinkFailed → a.fails = false →
      ∀ f, fs.entry = some f → fs.pidIn f ≠ P.pid.val ∧ P.pc ≠ .write f) :
    fs.Change P (Q.step fs P.pid a).1 := by
  have hat := hQ.pc
  unfold Proc.At at hat
  unfold Proc.step
  match hpc : Q.pc with
  | .idle | .read _ | .closeRead _ _ | .kill _ | .closeFailed _ | .closeWritten _ => exact .same
  | .openCreate =>
    dsimp only
    split
    · exact .same
    · split
      · exact .same
      · next hnone => exact .created (by simpa using hnone)
  | .openRead =>
    dsimp only
    split <;> exact .same
  | .unlinkStale =>
    dsimp only
    split
    · exact .same
    · next hnot =>
      have hok : a.fails = false := by
        cases hf : a.fails with
        | false => rfl
        | true => exact absurd (.inl hf) hnot
      exact .removed (hsafe (.inl hpc) hok)
  | .write f =>
    rw [hpc] at hat
    exact .wrote f _ hat.2.2.1 hat.2.2.2 fun g => hwriter f g hpc
  | .unlinkFailed =>
    dsimp only
    split
    · exact .same
    · next hnot => exact .removed (hsafe (.inr hpc) (by simpa using hnot))
  | .unlinkOwn =>
    rw [hpc] at hat
    obtain ⟨-, g, hg, hpid⟩ := hat
    dsimp only
    split
    · exact .same
    · -- the entry is that of `Q`
      apply Files.Change.removed
      intro f hf
      rw [hf] at hg
      cases hg
      refine ⟨?_, ?_⟩
      · rw [hpid]
        exact fun heq => hpids (Pid.ext (Int.ofNat.inj heq).symm)
      · intro hw
        have hPat := hP.pc
        unfold Proc.At at hPat
        rw [hw] at hPat
        exact pidIn_of_empty hPat.2.2.2 Q.pid hpid

theorem Files.Change.entry (hc : fs.Change P fs') (h : ∀ f, fs.entry = some f → f < fs.fresh) :
    ∀ f, fs'.entry = some f → f < fs'.fresh := by
  intro f hf
  cases hc with
  | same | wrote g l hentry hempty hP => exact h f hf
  | created hnone =>
    cases hf
    exact Nat.lt_succ_self _
  | removed hsafe => cases hf

end

/-! ### The two of them -/

section
variable (fs : Files) (o : Pid) (P : Proc) (a : Answer)

theorem returns_goes (r : LockResult) :
    (P.returns r).pid = P.pid ∧ ∀ f, (P.returns r).pc ≠ .write f := by
  unfold Proc.returns
  split <;> exact ⟨rfl, nofun⟩

theorem examine_goes (got : Option (List UInt8)) :
    (P.examine got).pid = P.pid ∧ ∀ f, (P.examine got).pc ≠ .write f := by
  unfold Proc.examine
  split
  · exact returns_goes P _
  · exact returns_goes P _
  · split
    · exact returns_goes P _
    · split <;> exact ⟨rfl, nofun⟩

/-- A step keeps the pid, and goes on to write only if there was no entry. -/
theorem step_goes :
    (P.step fs o a).2.pid = P.pid ∧
      ∀ f, (P.step fs o a).2.pc = .write f → fs.entry = none := by
  have hno : ∀ {Q : Proc}, Q.pid = P.pid ∧ (∀ f, Q.pc ≠ .write f) →
      Q.pid = P.pid ∧ ∀ f, Q.pc = .write f → fs.entry = none :=
    fun h => ⟨h.1, fun f hf => absurd hf (h.2 f)⟩
  unfold Proc.step
  match P.pc with
  | .idle | .read _ | .closeFailed _ | .unlinkOwn => exact ⟨rfl, nofun⟩
  | .openCreate =>
    dsimp only
    split
    · exact hno (returns_goes P _)
    · split
      · exact ⟨rfl, nofun⟩
      · -- `O_EXCL` has created the file
        next hnone => exact ⟨rfl, fun _ _ => by simpa using hnone⟩
  | .openRead =>
    dsimp only
    split
    · exact hno (returns_goes P _)
    · dsimp only
      split
      · exact hno (returns_goes P _)
      · exact ⟨rfl, nofun⟩
  | .closeRead _ got => exact hno (examine_goes P got)
  | .kill _ =>
    dsimp only
    split
    · exact ⟨rfl, nofun⟩
    · exact hno (returns_goes P _)
  | .unlinkStale =>
    dsimp only
    split
    · exact hno (returns_goes P _)
    · exact ⟨rfl, nofun⟩
  | .write _ =>
    dsimp only
    split <;> exact ⟨rfl, nofun⟩
  | .unlinkFailed | .closeWritten _ => exact hno (returns_goes P _)

end

theorem Who.other_other (w : Who) : w.other.other = w := by cases w <;> rfl

theorem Who.other_ne (w : Who) : w.other ≠ w := by cases w <;> exact nofun

theorem Who.eq_or (w v : Who) : v = w ∨ v = w.other := by
  cases w <;> cases v <;> simp [Who.other]

structure Sys.Inv (s : Sys) : Prop where
  proc : ∀ w, (s.proc w).Inv s.files
  pids : ∀ w, (s.proc w.other).pid ≠ (s.proc w).pid
  entry : ∀ f, s.files.entry = some f → f < s.files.fresh
  writers : ∀ w f g, (s.proc w).pc = .write f → (s.proc w.other).pc ≠ .write g

theorem Sys.Initial.inv {s : Sys} (h : s.Initial) : s.Inv := by
  have hpc := h.idle
  refine ⟨fun w => ⟨fun hg => ?_, fun hg => ?_, ?_⟩, fun w => ?_, h.entry, fun w f g hw => ?_⟩
  · rw [h.granted w] at hg
    cases hg
  · rw [h.granted w] at hg
    cases hg
  · unfold Proc.At
    rw [hpc w]
    trivial
  · cases w with
    | first => exact h.pids.symm
    | second => exact h.pids
  · rw [hpc w] at hw
    cases hw

/-- **A step that removes no lock of the other process keeps the
invariant.** -/
theorem Sys.step_inv {s s' : Sys} {i : Who × Answer} (h : s.Inv) (hsafe : SafeUnlink s i)
    (hstep : s.step i = .ok s') : s'.Inv := by
  obtain ⟨w, a⟩ := i
  cases hstep
  have hother : update s.proc w
      ((s.proc w).step s.files (s.proc w.other).pid a).2 w.other = s.proc w.other :=
    update_of_ne w.other_ne ..
  -- what the step does to the files that the other process relies on
  have hchange : s.files.Change (s.proc w.other)
      ((s.proc w).step s.files (s.proc w.other).pid a).1 :=
    step_change (h.proc w) (h.pids w) (h.writers w) (h.proc w.other) a hsafe
  refine ⟨fun v => ?_, fun v => ?_, hchange.entry h.entry, fun v f g hv => ?_⟩
  · rcases w.eq_or v with rfl | rfl
    · dsimp only
      rw [update_self]
      exact Proc.step_inv (h.proc v) h.entry _ a
    · dsimp only
      rw [hother]
      exact (h.proc w.other).change hchange
  · rcases w.eq_or v with rfl | rfl
    · dsimp only
      rw [hother, update_self, (step_goes ..).1]
      exact h.pids v
    · dsimp only
      rw [hother, w.other_other, update_self, (step_goes ..).1]
      exact (h.pids w).symm
  · -- a new writer has found no entry, so the other is not writing
    have hexcl : ∀ f g, ((s.proc w).step s.files (s.proc w.other).pid a).2.pc = .write f →
        (s.proc w.other).pc ≠ .write g := by
      intro f g hf hg
      have hat := (h.proc w.other).pc
      unfold Proc.At at hat
      rw [hg] at hat
      have hentry := hat.2.2.1
      rw [(step_goes ..).2 f hf] at hentry
      cases hentry
    rcases w.eq_or v with rfl | rfl
    · dsimp only at hv ⊢
      rw [update_self] at hv
      rw [hother]
      exact hexcl f g hv
    · dsimp only at hv ⊢
      rw [hother] at hv
      rw [w.other_other, update_self]
      exact fun hg => hexcl g f hg hv

/-- **Mutual exclusion of the lock**: in every run of two processes on one
path, from any lock file or none, in which no process removes the lock of
the other, the lock is never granted to both. -/
theorem hdb_lock_exclusive {s₀ s : Sys} {is : List (Who × Answer)} (hstart : s₀.Initial)
    (hsafe : Along Sys.step SafeUnlink s₀ is) (hrun : run Sys.step s₀ is = .ok s) :
    ¬ ((s.proc .first).granted = true ∧ (s.proc .second).granted = true) := by
  have hinv : s.Inv :=
    run_invariant_along (fun s i s' h hC hstep => Sys.step_inv h hC hstep) hstart.inv hsafe hrun
  rintro ⟨h₁, h₂⟩
  obtain ⟨f, hf, hpid₁⟩ := (hinv.proc .first).granted h₁
  obtain ⟨g, hg, hpid₂⟩ := (hinv.proc .second).granted h₂
  -- both own the one entry, so their pids are the same
  rw [hf] at hg
  cases hg
  rw [hpid₁] at hpid₂
  exact hinv.pids .second (Pid.ext (Int.ofNat.inj hpid₂))

def pid100 : Pid := ⟨100, by decide, by decide⟩

def pid200 : Pid := ⟨200, by decide, by decide⟩

/-- The processes 100 and 200 find a lock of process 99, which is gone. -/
def stale : Sys where
  files := ⟨some 0, fun _ => hdbBuffer ⟨99, by decide, by decide⟩, 1⟩
  proc
    | .first => ⟨pid100, .hdbLockFile, .idle, false⟩
    | .second => ⟨pid200, .hdbLockFile, .idle, false⟩

theorem stale_initial : stale.Initial := by
  refine ⟨by decide, fun w => ?_, fun w => ?_, fun f hf => ?_⟩
  · cases w <;> rfl
  · cases w <;> rfl
  · cases hf
    decide

/-- The first process takes the lock over, then the second finds it
taken. -/
def takeover : List (Who × Answer) :=
  List.replicate 10 (.first, { noProcess := true }) ++
    List.replicate 6 (.second, { noProcess := true })

theorem hdb_lock_exclusive_takeover :
    ∃ s, run Sys.step stale takeover = .ok s ∧ (s.proc .first).granted = true ∧
      (s.proc .second).pc = .idle ∧
      ¬ ((s.proc .first).granted = true ∧ (s.proc .second).granted = true) := by
  have hsafe : Along Sys.step SafeUnlink stale takeover := by decide +kernel
  obtain ⟨s, hs, hgranted, hpc⟩ : ∃ s, run Sys.step stale takeover = .ok s ∧
      (s.proc .first).granted = true ∧ (s.proc .second).pc = .idle := by
    decide +kernel
  exact ⟨s, hs, hgranted, hpc, hdb_lock_exclusive stale_initial hsafe hs⟩

/-- Both processes find that process 99 is gone, and then each removes the
lock it finds and takes it over. -/
def race : List (Who × Answer) :=
  List.replicate 6 (.first, { noProcess := true }) ++
    List.replicate 6 (.second, { noProcess := true }) ++
    List.replicate 4 (.first, { noProcess := true }) ++
    List.replicate 4 (.second, { noProcess := true })

/-- The lock that the second process removes is that of the first. -/
theorem stale_lock_granted_twice :
    stale.Initial ∧ ∃ s, run Sys.step stale race = .ok s ∧
      (s.proc .first).granted = true ∧ (s.proc .second).granted = true := by
  exact ⟨stale_initial, by decide +kernel⟩

end Sercd
