import Cnu680.Env.Lookup
import Cnu680.Env.Saved

/-! # The Environment Device

`envm_open`, `envm_release`, `envm_ioctl`, `envm_write` and `envm_load` of
`drivers/char/envm-s3c2510_4M.c` as one state machine. What they do apart
from the environment (`Front`) is written once for whatever keeps the
entries (`Ops`): the array and the flash (`hardware`), or a list of entries
and the list that was last saved (`store`).

* `device_refines_store`: in every sequence of calls the device returns what
  the lists say, faults where they say, and every name is read with the
  value that it has in the list, also after a reboot. -/

open Framework

namespace Envm

abbrev DeviceFault := Fault ⊕ FlashFault

/-- `envm_count`, the two buffers, and what the last call returned. -/
structure Front where
  envmCount : Int
  envname : List UInt8
  envvalue : List UInt8
  ret : Int

/-- What keeps the entries. -/
structure Ops (σ : Type) where
  setenv : σ → List UInt8 → List UInt8 → Except DeviceFault (Int × σ)
  boardEnvSave : σ → Except DeviceFault σ
  /-- The memory is as the kernel finds it at the start. -/
  envmLoad : σ → (Nat → UInt8) → σ

def MAX_ENVNAME_LEN : Nat := 256
def MAX_ENVVALUE_LEN : Nat := 256
def EBUSY : Int := 16
def ENOTTY : Int := 25
def ENVM_IOC_MAGIC : UInt32 := 0x67
def ENVM_IOC_MAXNR : UInt32 := 5
def ENVM_IOCSETNAME : UInt32 := 0x6701
def ENVM_IOCSETENV : UInt32 := 0x6702
def ENVM_IOCSAVEENV : UInt32 := 0x6704
def ENVM_IOCGETBUF : UInt32 := 0x6705

/-- The string in a buffer; without a NUL it is read behind the buffer. -/
def cString (buf : List UInt8) : Except DeviceFault (List UInt8) :=
  if 0 ∈ buf then .ok (buf.takeWhile (· ≠ 0)) else .error (.inl .readOutside)

section
variable {σ : Type} (o : Ops σ)

def Front.returns (f : Front) (ret : Int) (env : σ) : Except DeviceFault (Front × σ) :=
  .ok ({ f with ret := ret }, env)

/-- `envm_write`, on two buffers with strings. -/
def envmWrite (d : Front × σ) (name value : List UInt8) : Except DeviceFault (Front × σ) :=
  cString name >>= fun name => cString value >>= fun value =>
    o.setenv d.2 name value >>= fun p => d.1.returns p.1 p.2

/-- `envm_ioctl`; `buf` is the memory from the argument on. -/
def envmIoctl (d : Front × σ) (cmd : UInt32) (buf : Nat → UInt8) :
    Except DeviceFault (Front × σ) :=
  if cmd >>> 8 &&& 0xFF ≠ ENVM_IOC_MAGIC then d.1.returns (-ENOTTY) d.2
  else if ENVM_IOC_MAXNR < cmd &&& 0xFF then d.1.returns (-ENOTTY) d.2
  else if cmd = ENVM_IOCSETNAME then
    ({ d.1 with envname := segment buf 0 MAX_ENVNAME_LEN } : Front).returns 0 d.2
  else if cmd = ENVM_IOCSETENV then
    let value := segment buf 0 MAX_ENVVALUE_LEN
    envmWrite o ({ d.1 with envvalue := value }, d.2) d.1.envname value
  else if cmd = ENVM_IOCSAVEENV then o.boardEnvSave d.2 >>= fun env => d.1.returns 0 env
  else if cmd = ENVM_IOCGETBUF then d.1.returns 0 d.2
  else d.1.returns (-ENOTTY) d.2

inductive Call where
  | «open»
  | release
  | ioctl (cmd : UInt32) (buf : Nat → UInt8)
  /-- A caller in the kernel. -/
  | write (name value : List UInt8)
  /-- The machine starts again, and the kernel calls `envm_load`. -/
  | boot (ram : Nat → UInt8)

def call (d : Front × σ) : Call → Except DeviceFault (Front × σ)
  | .open =>
    if d.1.envmCount ≠ 0 then d.1.returns (-EBUSY) d.2
    else ({ d.1 with envmCount := d.1.envmCount + 1 } : Front).returns 0 d.2
  | .release => ({ d.1 with envmCount := d.1.envmCount - 1 } : Front).returns 0 d.2
  | .ioctl cmd buf => envmIoctl o d cmd buf
  | .write name value => envmWrite o d name value
  | .boot ram =>
    .ok (⟨0, List.replicate MAX_ENVNAME_LEN 0, List.replicate MAX_ENVVALUE_LEN 0, 0⟩,
      o.envmLoad d.2 ram)

end

/-! ## The array and the flash -/

def CFG_LOAD_ADDR : UInt32 := 0x500000

/-- The memory with `env_body` at `eb`. -/
def Board.image (b : Board) (eb : Nat) : Nat → UInt8 :=
  overlay (overlay (fun _ => 0) eb
      ((List.range 4).map fun k => UInt8.ofNat (b.envCrc.toNat >>> (8 * k))))
    (eb + 4) (segment b.envData 0 dataSize)

/-- The board after `envm_load`. -/
def loaded (ram : Nat → UInt8) (eb : Nat) : Board :=
  ⟨word ram eb, fun i => ram (eb + 4 + i), List.replicate 6 0, 0, CFG_LOAD_ADDR⟩

def hardware (ans : Answers) (eb : Nat) : Ops (Board × Chip) where
  setenv m name value :=
    (setenv m.1 name value).mapError .inl >>= fun p => .ok (p.1, p.2, m.2)
  boardEnvSave m :=
    (boardEnvSave ans m.2 (m.1.image eb) eb (UInt32.ofNat CFG_ENV_SIZE)).mapError .inr >>=
      fun p => .ok (m.1, p.2)
  envmLoad m ram := (loaded (envmLoad m.2.cells ram eb) eb, m.2)

/-! ## Lists of entries -/

abbrev Entries := List (List UInt8)

instance (name : List UInt8) (es : Entries) : Decidable (Present name es) :=
  inferInstanceAs (Decidable (∃ e ∈ es, key e = some name))

/-- `ethaddr` and `serial#` stay once they are set; a value that can never fit
only deletes; and what does not fit now is written behind the array. -/
def Entries.set (es : Entries) (name v : List UInt8) : Except DeviceFault (Int × Entries) :=
  if setOnce name ∧ Present name es then .ok (-1, es)
  else if v = deleteMark then .ok (0, others name es)
  else if dataSize < name.length + v.length + 3 then .ok (-1, others name es)
  else if dataSize < (pack 0 (others name es)).length + (name.length + v.length + 3) then
    .error (.inl .writeOutside)
  else .ok (0, others name es ++ [name ++ EQ :: v])

/-- The entries now, and those of the last save. -/
def store : Ops (Entries × Entries) where
  setenv s name v := s.1.set name v >>= fun p => .ok (p.1, p.2, s.2)
  boardEnvSave s := .ok (s.1, s.1)
  envmLoad s _ := (s.2, s.2)

/-- The array holds the entries. Two NULs end an empty one. -/
structure Keeps (data : Data) (es : Entries) : Prop where
  environment : Environment data es
  closed : es = [] → data 1 = 0

section
variable {data data' : Data} {es : Entries} {name v : List UInt8} {b : Board}

theorem Keeps.congr (h : Keeps data es) (hsame : ∀ i < dataSize, data' i = data i) :
    Keeps data' es := by
  have hfits := h.environment.fits
  refine ⟨⟨⟨⟨h.environment.lies.congr ?_, h.environment.packable⟩, hfits⟩,
    h.environment.assigned⟩, ?_⟩
  · intro x _ hlt
    rw [List.length_append, List.length_singleton] at hlt
    exact hsame x (by omega)
  · intro hnil
    rw [hsame 1 (by decide), h.closed hnil]

/-- What is left when the entry of a name has been deleted. -/
theorem Keeps.others (h : Keeps b.envData es) (hblock : Block data (others name es))
    (hsame : es = [] → data = b.envData) (hend : es ≠ [] → Envm.others name es = [] → data 1 = 0) :
    Keeps data (Envm.others name es) := by
  refine ⟨h.environment.others hblock, fun hnil => ?_⟩
  by_cases hes : es = []
  · rw [hsame hes, h.closed hes]
  · exact hend hes hnil

/-- A call of `setenv` sets, deletes, refuses or faults as the list says. -/
theorem Keeps.setenv (h : Keeps b.envData es) (hname : 0 ∉ name) (hv : 0 ∉ v) :
    Agree (fun p q => p.1 = q.1 ∧ Keeps p.2.envData q.2)
      ((setenv b name v).mapError .inl) (es.set name v) := by
  obtain ⟨honce, hfree⟩ := setenv_block h.environment.toBlock h.environment.head name v
  unfold Entries.set
  by_cases hguard : setOnce name ∧ Present name es
  · rw [honce hguard, if_pos hguard]
    exact .ok ⟨rfl, h⟩
  obtain ⟨data, hblock, hsame, hend, hdelete, happend⟩ := hfree hguard
  have hrest := h.others hblock hsame hend
  rw [if_neg hguard]
  by_cases hmark : v = deleteMark
  · rw [hdelete hmark, if_pos hmark]
    exact .ok ⟨rfl, hrest⟩
  rw [happend hmark, if_neg hmark]
  have hoff := appendOffset_block hblock hrest.closed
  obtain ⟨hover, hroom⟩ := appendEntry_eq (b := { b with envData := data }) name v hoff
  have hlen : entryLen name [v] = name.length + v.length + 3 := by
    simp only [entryLen]
    omega
  rw [hlen] at hover hroom
  by_cases hlong : dataSize < name.length + v.length + 3
  · rw [hover hlong, if_pos hlong]
    exact .ok ⟨rfl, hrest⟩
  obtain ⟨hinside, houtside⟩ := hroom (by omega)
  rw [if_neg hlong]
  by_cases hfits : dataSize < (pack 0 (Envm.others name es)).length + (name.length + v.length + 3)
  · rw [houtside hfits, if_pos hfits]
    exact .error _
  -- the entry is written, and the call returns 0
  have hset : Envm.setenv b name v = .ok (0, _) := (happend hmark).trans (hinside (by omega))
  rw [hinside (by omega), if_neg hfits]
  exact .ok ⟨rfl, environment_after h.environment hname hv hmark hset h.closed, by simp⟩

end

/-! ## Every sequence of calls -/

/-- The board has the entries, and the flash those of the last save. -/
structure Represents (m : Board × Chip) (s : Entries × Entries) : Prop where
  now : Keeps m.1.envData s.1
  saved : Keeps (fun i => m.2.cells (CFG_ENV_ADDR.toNat + 4 + i)) s.2

/-- The front is the same, and the entries are represented. -/
def Alike (d : Front × Board × Chip) (t : Front × Entries × Entries) : Prop :=
  d.1 = t.1 ∧ Represents d.2 t.2

section
variable {ans : Answers} {eb : Nat} {m : Board × Chip} {s : Entries × Entries} {f : Front}

theorem alike_returns (f : Front) (ret : Int) (h : Represents m s) :
    Agree Alike (f.returns ret m) (f.returns ret s) := .ok ⟨rfl, h⟩

theorem not_mem_of_cString {buf t : List UInt8} (h : cString buf = .ok t) : 0 ∉ t := by
  unfold cString at h
  split at h
  · cases h
    intro hmem
    have hall := List.all_takeWhile (p := fun b : UInt8 => decide (b ≠ 0)) (l := buf)
    simpa using List.all_eq_true.mp hall 0 hmem
  · cases h

theorem envmWrite_agree (h : Represents m s) (name v : List UInt8) :
    Agree Alike (envmWrite (hardware ans eb) (f, m) name v) (envmWrite store (f, s) name v) := by
  unfold envmWrite
  -- both strings are read before anything is set
  cases hname : cString name with
  | error e => exact .error e
  | ok name =>
    cases hv : cString v with
    | error e => exact .error e
    | ok v =>
      have hset := h.now.setenv (not_mem_of_cString hname) (not_mem_of_cString hv)
      simp only [ok_bind]
      refine Agree.bind (R := fun p q => p.1 = q.1 ∧ Represents p.2 q.2) (hset.bind ?_) ?_
      · intro p q hpq
        exact .ok ⟨hpq.1, hpq.2, h.saved⟩
      · intro p q hpq
        rw [hpq.1]
        exact alike_returns f q.1 hpq.2

/-- What was saved is the entries of now, if the flash works. -/
theorem boardEnvSave_agree (hprogram : ∀ i, ans.program i = none)
    (herase : ∀ i, ans.erase i = true) (heb : eb % 4 = 0) (h : Represents m s) :
    Agree Represents ((hardware ans eb).boardEnvSave m) (store.boardEnvSave s) := by
  obtain ⟨chip, hsave, hlies⟩ := boardEnvSave_lies ans m.2 (m.1.image eb) hprogram herase heb
  have heq : (hardware ans eb).boardEnvSave m = .ok (m.1, chip) := by
    simp only [hardware, hsave, Except.mapError, ok_bind]
  rw [heq]
  refine .ok ⟨h.now, h.now.congr fun i hi => ?_⟩
  have hsize : dataSize + 4 = CFG_ENV_SIZE := rfl
  have hget := hlies.get (k := 4 + i) (by rw [length_segment]; omega)
  rw [getElem_segment, ← Nat.add_assoc, ← Nat.add_assoc] at hget
  rw [hget, Board.image, overlay_segment, if_pos (by omega), Nat.add_sub_cancel_left, Nat.zero_add]

theorem envmLoad_agree (ans : Answers) (h : Represents m s) (ram : Nat → UInt8) :
    Represents ((hardware ans eb).envmLoad m ram) (store.envmLoad s ram) := by
  refine ⟨h.saved.congr fun i hi => ?_, h.saved⟩
  have hsize : dataSize + 4 = CFG_ENV_SIZE := rfl
  simp only [hardware, loaded]
  rw [envmLoad, overlay_segment, if_pos (by omega), Nat.add_sub_cancel_left]

theorem call_agree (hprogram : ∀ i, ans.program i = none) (herase : ∀ i, ans.erase i = true)
    (heb : eb % 4 = 0) (h : Represents m s) (c : Call) :
    Agree Alike (call (hardware ans eb) (f, m) c) (call store (f, s) c) := by
  cases c with
  | «open» => exact .ite Iff.rfl (fun _ => alike_returns _ _ h) fun _ => alike_returns _ _ h
  | release => exact alike_returns _ _ h
  | write name v => exact envmWrite_agree h name v
  | boot ram => exact .ok ⟨rfl, envmLoad_agree ans h ram⟩
  | ioctl cmd buf =>
    have hret : ∀ f ret, Agree Alike (Front.returns f ret m) (f.returns ret s) :=
      fun f ret => alike_returns f ret h
    refine .ite Iff.rfl (fun _ => hret _ _) fun _ => ?_
    refine .ite Iff.rfl (fun _ => hret _ _) fun _ => ?_
    refine .ite Iff.rfl (fun _ => hret _ _) fun _ => ?_
    refine .ite Iff.rfl (fun _ => envmWrite_agree h _ _) fun _ => ?_
    refine .ite Iff.rfl (fun _ => ?_) fun _ => .ite Iff.rfl (fun _ => hret _ _) fun _ => hret _ _
    exact (boardEnvSave_agree hprogram herase heb h).bind fun m s h => alike_returns _ _ h

/-- **The device is the list of entries**, whatever is called in whatever order,
as long as the flash works: both return the same and fault at the same call,
and a name is read with the value it has in the list. -/
theorem device_refines_store (hprogram : ∀ i, ans.program i = none)
    (herase : ∀ i, ans.erase i = true) (heb : eb % 4 = 0) (h : Represents m s) (cs : List Call) :
    Agree (fun d t => d.1 = t.1 ∧ ∀ name, valueText d.2.1.envData name =
        .ok ((t.2.1.find? fun e => key e = some name).map fun e => e.drop name.length))
      (run (call (hardware ans eb)) (f, m) cs) (run (call store) (f, s) cs) := by
  have hcall : ∀ d t c, c ∈ cs → Alike d t →
      Agree Alike (call (hardware ans eb) d c) (call store t c) := by
    intro d t c _ hdt
    obtain ⟨f, m⟩ := d
    obtain ⟨rfl, h⟩ := hdt
    exact call_agree hprogram herase heb h c
  have hagree := run_agree hcall (fun _ hc => hc) (⟨rfl, h⟩ : Alike (f, m) (f, s))
  exact hagree.mono fun d t hdt => ⟨hdt.1, fun name =>
    (getenv_environment hdt.2.now.environment name).2⟩

end

/-- `a` is set to `b` in a cleared array, saved, and read after a reboot. -/
theorem device_refines_store_reboot :
    ∃ d, run (call (hardware ⟨fun _ => none, fun _ => true⟩ 0x1000))
        (⟨0, [], [], 0⟩, ⟨0, fun _ => 0, [], 0, 0⟩, ⟨fun _ => 0, 0, 0⟩)
        [.write [0x61, 0] [0x62, 0], .ioctl ENVM_IOCSAVEENV fun _ => 0, .boot fun _ => 0] = .ok d ∧
      valueText d.2.1.envData [0x61] = .ok (some [EQ, 0x62]) := by
  have hzero : Keeps (fun _ => 0) [] :=
    ⟨⟨⟨⟨lies_cons_iff.mpr ⟨rfl, lies_nil⟩, by simp⟩, by decide⟩, by simp⟩, fun _ => rfl⟩
  have hagree := @device_refines_store ⟨fun _ => none, fun _ => true⟩ 0x1000
    (⟨0, fun _ => 0, [], 0, 0⟩, ⟨fun _ => 0, 0, 0⟩) ([], []) ⟨0, [], [], 0⟩
    (fun _ => rfl) (fun _ => rfl) (by decide) ⟨hzero, hzero⟩
    [.write [0x61, 0] [0x62, 0], .ioctl ENVM_IOCSAVEENV fun _ => 0, .boot fun _ => 0]
  obtain ⟨d, hd, -, hvalue⟩ := hagree.ok_right rfl
  exact ⟨d, hd, hvalue [0x61]⟩

end Envm
