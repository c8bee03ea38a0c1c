import Cnu680.Flash.Erase

/-! # Protection of the Boot Sectors

The sectors below 0x20000 hold the boot loader and its settings. Both
ways to erase, the `FL_ERASE_SECTOR` ioctl and `fuze_image`, go on from
`uiCurSectNum`, which no call sets back, and neither looks at the number
of sectors of the chip. Behind the last sector the table holds zeros: the
address of the boot loader.

The main result is `erases_protected_iff`. -/

open Framework

namespace Cflash

/-! ## Calls -/

/-- An ioctl, and for `FL_FUZE_IMAGE` the size of the file if it can be
opened. -/
structure Request where
  cmd : UInt32
  arg : UInt32
  size : Option UInt32

/-- A request with what the file and the chip do. -/
structure Attempt where
  request : Request
  reads : List Read
  answers : Answers

/-- The call on a device with the given chip. -/
def ioctl (c : Chip) (d : Device) (a : Attempt) : Except Halt Device :=
  (deviceIoctl c.sizes a.answers a.request.cmd a.request.arg
    (a.request.size.map fun n => ⟨n, a.reads⟩) d).map Prod.snd

/-- The sectors that a request asks for. -/
def Request.sectors (r : Request) : Nat :=
  if r.cmd = FL_ERASE_SECTOR then ioctlSectorNum r.arg
  else if r.cmd = FL_FUZE_IMAGE then
    match r.size with
    | some n => if tooLarge n then 0 else sectorNum n
    | none => 0
  else 0

def sectorsAsked : List Request → Nat
  | [] => 0
  | r :: rs => r.sectors + sectorsAsked rs

/-! ## Where the erases go -/

/-- The number is that of a sector of the chip, and the sector that holds the
address lies in the part for the image. -/
def Inside (c : Chip) (e : Nat × Nat) : Prop :=
  e.1 < c.sectors ∧ ∃ k, sectorAt c.sizes e.2 = some k ∧ 0x20000 ≤ sectorStart c.sizes k ∧
    sectorStart c.sizes (k + 1) ≤ sectorStart c.sizes c.sectors

/-- No entry outside the table is read, and every erase command was for the
part of the image. -/
def Protected (c : Chip) (r : Except Halt Device) : Prop :=
  NoTable r ∧ ∀ e ∈ (endOf id r).erased, Inside c e

section
variable {c : Chip} {k : Nat} {d : Device}

/-! ### The ioctls by what they erase -/

theorem deviceIoctl_other (sizes : List Nat) (answers : Answers) {cmd : UInt32} (arg : UInt32)
    (file : Option File) (d : Device) (herase : cmd ≠ FL_ERASE_SECTOR)
    (hfuze : cmd ≠ FL_FUZE_IMAGE) :
    ∃ rc mask, deviceIoctl sizes answers cmd arg file d = .ok (rc, { d with mask := mask }) := by
  unfold deviceIoctl
  rw [if_neg herase, if_neg hfuze]
  split_ifs
  · exact ⟨_, d.mask, rfl⟩
  · exact ⟨_, d.mask, rfl⟩
  · exact ⟨_, _, rfl⟩
  · exact ⟨_, _, rfl⟩
  · exact ⟨_, d.mask, rfl⟩
  · exact ⟨_, _, rfl⟩
  · exact ⟨_, d.mask, rfl⟩

theorem map_snd_map_one (r : Except Halt Device) :
    (r.map fun d => ((1 : Int), d)).map Prod.snd = r := by
  cases r <;> rfl

theorem map_snd_map_updated (r : Except Halt Updated) :
    (r.map fun u => (u.ret, u.device)).map Prod.snd = r.map Updated.device := by
  cases r <;> rfl

/-- What a call does to the sectors: it is the erase loop, or an update whose
size was accepted, or it asks for no sectors. -/
theorem ioctl_cases (c : Chip) (d : Device) (a : Attempt) :
    ioctl c d a = eraseSectors c.sizes a.answers.erase a.request.sectors 0 d ∨
      (∃ n, ¬ tooLarge n ∧ a.request.sectors = sectorNum n ∧
        ioctl c d a = (fuzeImage c.sizes a.answers (some ⟨n, a.reads⟩) d).map Updated.device) ∨
      (a.request.sectors = 0 ∧ ∃ mask, ioctl c d a = .ok { d with mask := mask }) := by
  unfold ioctl Request.sectors
  by_cases herase : a.request.cmd = FL_ERASE_SECTOR
  · left
    rw [if_pos herase, herase]
    exact map_snd_map_one _
  · by_cases hfuze : a.request.cmd = FL_FUZE_IMAGE
    · rw [if_neg herase, if_pos hfuze, hfuze]
      cases a.request.size with
      | none => exact .inr (.inr ⟨rfl, d.mask, rfl⟩)
      | some n =>
        by_cases hlarge : tooLarge n
        · have hout : fuzeImage c.sizes a.answers (some ⟨n, a.reads⟩) d =
              .ok ⟨-ENOTTY, d, []⟩ := if_pos hlarge
          refine .inr (.inr ⟨if_pos hlarge, d.mask, ?_⟩)
          exact (map_snd_map_updated _).trans (congrArg (Except.map Updated.device) hout)
        · exact .inr (.inl ⟨n, hlarge, if_neg hlarge, map_snd_map_updated _⟩)
    · obtain ⟨rc, mask, heq⟩ := deviceIoctl_other c.sizes a.answers a.request.arg
        (a.request.size.map fun n => ⟨n, a.reads⟩) d herase hfuze
      rw [if_neg herase, if_neg hfuze, heq]
      exact .inr (.inr ⟨rfl, mask, rfl⟩)

theorem fuzeEnd_device (e : Ended) :
    (fuzeEnd e).device = { e.device with mask := (fuzeEnd e).device.mask } := by
  unfold fuzeEnd
  split_ifs <;> rfl

/-! ### Erase commands are never forgotten -/

theorem grows_bind {α : Type} {dev : α → Device} {x : Except Halt Device}
    {f : Device → Except Halt α} {d : Device} (hx : d.erased ⊆ (endOf id x).erased)
    (hf : ∀ e, x = .ok e → e.erased ⊆ (endOf dev (f e)).erased) :
    d.erased ⊆ (endOf dev (x >>= f)).erased :=
  endOf_bind (R := fun d e => d.erased ⊆ e.erased) (fun _ _ _ h h' => List.Subset.trans h h') hx hf

theorem flashEraseSector_grows (sizes : List Nat) (answer : Option (Nat → UInt8)) (num : UInt32)
    (d : Device) : d.erased ⊆ (endOf id (flashEraseSector sizes answer num d)).erased := by
  unfold flashEraseSector
  split
  · exact fun _ h => h
  · dsimp only
    split_ifs <;> exact List.subset_append_left _ _

theorem eraseSectors_grows (sizes : List Nat) (answer : Nat → Option (Nat → UInt8)) (n i : Nat)
    (d : Device) : d.erased ⊆ (endOf id (eraseSectors sizes answer n i d)).erased := by
  induction n generalizing i d with
  | zero => exact fun _ h => h
  | succ n ih =>
    unfold eraseSectors
    exact grows_bind (flashEraseSector_grows sizes (answer i) d.fid.uiCurSectNum d)
      fun e _ => ih (i + 1) e.nextSector

theorem endOf_fuzeLoop (program : Nat → Nat → Option (UInt8 × UInt8)) (coolSize : Bool)
    (rs : List Read) (d : Device) :
    let r := (fuzeLoop program coolSize rs 0 0 d).map fuzeEnd
    (endOf Updated.device r).erased = d.erased ∧ NoTable r ∧
      ∀ u, r = .ok u → ∀ c k, At c k d → At c k u.device := by
  obtain ⟨hkept, htable⟩ := fuzeLoop_kept program coolSize rs 0 0 d
  cases hloop : fuzeLoop program coolSize rs 0 0 d with
  | error halt =>
    rw [hloop] at hkept htable
    exact ⟨hkept.erased, htable.map fuzeEnd, fun u hu => by cases hu⟩
  | ok e =>
    rw [hloop] at hkept
    have hdevice := fuzeEnd_device e
    refine ⟨?_, noTable_ok _, fun u hu c k hat => ?_⟩
    · show (fuzeEnd e).device.erased = d.erased
      rw [hdevice]
      exact hkept.erased
    · obtain rfl : fuzeEnd e = u := Except.ok.inj hu
      have hat' : At c k e.device := hat.of_kept hkept
      rw [hdevice]
      exact ⟨hat'.table, hat'.cur⟩

theorem fuzeImage_grows (sizes : List Nat) (answers : Answers) (f : File) (d : Device) :
    d.erased ⊆ (endOf Updated.device (fuzeImage sizes answers (some f) d)).erased := by
  unfold fuzeImage
  dsimp only
  split_ifs
  · exact fun _ h => h
  · refine grows_bind (eraseSectors_grows sizes answers.erase _ 0 { d with mask := 0x800000 }) ?_
    intro e _
    rw [(endOf_fuzeLoop answers.program _ f.reads e).1]
    exact fun _ h => h

theorem ioctl_grows (c : Chip) (d : Device) (a : Attempt) :
    d.erased ⊆ (endOf id (ioctl c d a)).erased := by
  rcases ioctl_cases c d a with heq | ⟨n, -, -, heq⟩ | ⟨-, mask, heq⟩
  · rw [heq]
    exact eraseSectors_grows c.sizes a.answers.erase _ 0 d
  · rw [heq, endOf_map]
    exact fuzeImage_grows c.sizes a.answers ⟨n, a.reads⟩ d
  · rw [heq]
    exact fun _ h => h

theorem run_grows (c : Chip) (d : Device) (as : List Attempt) :
    d.erased ⊆ (endOf id (run (ioctl c) d as)).erased := by
  induction as generalizing d with
  | nil => exact fun _ h => h
  | cons a as ih =>
    rw [run_cons]
    exact grows_bind (ioctl_grows c d a) fun e _ => ih e

/-! ### Within the sectors of the image -/

theorem inside_entry {j : Nat} (hfirst : c.first ≤ j) (hj : j < c.sectors) :
    Inside c (j, entry c j) := by
  refine ⟨hj, j, sectorAt_entry_of_lt hj, ?_, ?_⟩
  · rw [c.sectorStart_image hfirst (by omega)]
    omega
  · rw [c.sectorStart_image (by omega) (by omega), c.sectorStart_image (by omega) (by omega)]
    omega

/-- The device is at sector `k` of the image, and nothing else was erased. -/
structure Ready (c : Chip) (k : Nat) (d : Device) : Prop where
  pos : At c k d
  first : c.first ≤ k
  inside : ∀ e ∈ d.erased, Inside c e

theorem Ready.eraseSectors (h : Ready c k d) (answer : Nat → Option (Nat → UInt8)) (n i : Nat)
    (hn : k + n ≤ c.sectors) :
    Protected c (eraseSectors c.sizes answer n i d) ∧
      ∀ d', eraseSectors c.sizes answer n i d = .ok d' → Ready c (k + n) d' := by
  obtain ⟨htable, hlog, hat⟩ := eraseSectors_within answer n i h.pos hn
  have hfirst := h.first
  have hinside : ∀ e ∈ (endOf id (Cflash.eraseSectors c.sizes answer n i d)).erased,
      Inside c e := by
    intro e he
    rcases hlog e he with hold | ⟨j, hle, hlt, rfl⟩
    · exact h.inside e hold
    · exact inside_entry (by omega) (by omega)
  refine ⟨⟨htable, hinside⟩, fun d' hd' => ⟨hat d' hd', by omega, ?_⟩⟩
  rw [hd'] at hinside
  exact hinside

theorem Ready.withMask (h : Ready c k d) (mask : UInt32) : Ready c k { d with mask := mask } :=
  ⟨⟨h.pos.table, h.pos.cur⟩, h.first, h.inside⟩

theorem Ready.fuzeImage (h : Ready c k d) (answers : Answers) (f : File)
    (hsize : ¬ tooLarge f.size) (hn : k + sectorNum f.size ≤ c.sectors) :
    let r := (fuzeImage c.sizes answers (some f) d).map Updated.device
    Protected c r ∧ ∀ d', r = .ok d' → Ready c (k + sectorNum f.size) d' := by
  obtain ⟨⟨htable, hinside⟩, hready⟩ :=
    (h.withMask 0x800000).eraseSectors answers.erase (sectorNum f.size) 0 hn
  unfold Cflash.fuzeImage
  dsimp only
  rw [if_neg hsize]
  cases herase : Cflash.eraseSectors c.sizes answers.erase (sectorNum f.size) 0
      { d with mask := 0x800000 } with
  | error halt =>
    rw [herase] at htable hinside
    exact ⟨⟨fun halt' hh => htable halt' hh, hinside⟩, fun d' hd' => by cases hd'⟩
  | ok e =>
    obtain ⟨hlog, hno, hat⟩ := endOf_fuzeLoop answers.program (f.size.toNat % 1024 = 0) f.reads e
    have hr := hready e herase
    rw [ok_bind]
    refine ⟨⟨hno.map _, ?_⟩, fun d' hd' => ?_⟩
    · rw [endOf_map]
      show ∀ e' ∈ (endOf Updated.device _).erased, _
      rw [hlog]
      exact hr.inside
    · obtain ⟨u, hu, rfl⟩ := map_eq_ok.mp hd'
      refine ⟨hat u hu c _ hr.pos, hr.first, ?_⟩
      rw [hu] at hlog
      show ∀ e' ∈ u.device.erased, _
      rw [show u.device.erased = e.erased from hlog]
      exact hr.inside

theorem Ready.ioctl (h : Ready c k d) (a : Attempt) (hn : k + a.request.sectors ≤ c.sectors) :
    Protected c (ioctl c d a) ∧
      ∀ d', Cflash.ioctl c d a = .ok d' → Ready c (k + a.request.sectors) d' := by
  rcases ioctl_cases c d a with heq | ⟨n, hlarge, hsectors, heq⟩ | ⟨hzero, mask, heq⟩
  · rw [heq]
    exact h.eraseSectors a.answers.erase _ 0 hn
  · rw [heq, hsectors]
    exact h.fuzeImage a.answers ⟨n, a.reads⟩ hlarge (hsectors ▸ hn)
  · rw [heq, hzero]
    refine ⟨⟨noTable_ok _, h.inside⟩, fun d' hd' => ?_⟩
    obtain rfl : { d with mask := mask } = d' := Except.ok.inj hd'
    exact h.withMask mask

theorem Ready.run (as : List Attempt) (h : Ready c k d)
    (hn : k + sectorsAsked (as.map Attempt.request) ≤ c.sectors) :
    Protected c (run (Cflash.ioctl c) d as) := by
  induction as generalizing k d with
  | nil => exact ⟨noTable_ok d, h.inside⟩
  | cons a as ih =>
    have hsum : k + (a.request.sectors + sectorsAsked (as.map Attempt.request)) ≤ c.sectors := hn
    obtain ⟨⟨htable, hinside⟩, hready⟩ := h.ioctl a (by omega)
    rw [run_cons]
    cases hcall : Cflash.ioctl c d a with
    | error halt =>
      rw [hcall] at htable hinside
      exact ⟨fun halt' hh => htable halt' hh, hinside⟩
    | ok e => exact ih (hready e hcall) (by omega)

/-! ### Past the last sector -/

/-- The request on a chip that erases what it is told to, with a file that
turns out to be empty. -/
def Request.quiet (r : Request) : Attempt := ⟨r, [], Answers.good⟩

theorem fuzeImage_quiet (sizes : List Nat) {n : UInt32} (hn : ¬ tooLarge n) (d : Device) :
    (fuzeImage sizes Answers.good (some ⟨n, []⟩) d).map Updated.device =
      (eraseSectors sizes (fun _ => none) (sectorNum n) 0 { d with mask := 0x800000 }).map
        fun e => { e with mask := e.mask &&& 0xFFFF0000 } := by
  unfold fuzeImage
  dsimp only
  rw [if_neg hn]
  show ((eraseSectors sizes (fun _ => none) (sectorNum n) 0 { d with mask := 0x800000 }) >>= _).map
    _ = _
  cases eraseSectors sizes (fun _ => none) (sectorNum n) 0 { d with mask := 0x800000 } with
  | error halt => rfl
  | ok e => rfl

theorem At.ioctl_quiet (h : At c k d) (r : Request) (hn : k + r.sectors ≤ 100) :
    ∃ d', ioctl c d r.quiet = .ok d' ∧ At c (k + r.sectors) d' ∧
      ∀ j, k ≤ j → j < k + r.sectors → (j, entry c j) ∈ d'.erased := by
  rcases ioctl_cases c d r.quiet with heq | ⟨n, hlarge, hsectors, heq⟩ | ⟨hzero, mask, heq⟩
  · obtain ⟨d', hrun, hwiped⟩ := eraseSectors_good r.sectors 0 h hn
    exact ⟨d', heq.trans hrun, hwiped.pos, hwiped.logged⟩
  · have hmask : At c k { d with mask := 0x800000 } := ⟨h.table, h.cur⟩
    replace hsectors : r.sectors = sectorNum n := hsectors
    rw [hsectors] at hn ⊢
    obtain ⟨d', hrun, hwiped⟩ := eraseSectors_good (sectorNum n) 0 hmask hn
    refine ⟨{ d' with mask := d'.mask &&& 0xFFFF0000 }, ?_, ?_, hwiped.logged⟩
    · rw [heq]
      exact (fuzeImage_quiet c.sizes hlarge d).trans (by rw [hrun]; rfl)
    · exact ⟨hwiped.pos.table, hwiped.pos.cur⟩
  · replace hzero : r.sectors = 0 := hzero
    rw [hzero]
    exact ⟨_, heq, ⟨h.table, h.cur⟩, fun j hle hlt => by omega⟩

theorem At.ioctl_quiet_table (h : At c k d) (r : Request) (hk : k ≤ 100)
    (hn : 100 < k + r.sectors) : ¬ NoTable (ioctl c d r.quiet) := by
  rcases ioctl_cases c d r.quiet with heq | ⟨n, hlarge, hsectors, heq⟩ | ⟨hzero, -⟩
  · rw [heq]
    exact eraseSectors_table r.sectors 0 h hk hn
  · have hmask : At c k { d with mask := 0x800000 } := ⟨h.table, h.cur⟩
    replace hsectors : r.sectors = sectorNum n := hsectors
    rw [hsectors] at hn
    rw [heq]
    intro hno
    apply eraseSectors_table (sectorNum n) 0 hmask hk hn
    intro halt hhalt
    apply hno halt
    exact (fuzeImage_quiet c.sizes hlarge d).trans (by rw [hhalt]; rfl)
  · replace hzero : r.sectors = 0 := hzero
    omega

/-- Quiet requests for more sectors than are left erase the boot sector or
leave the table. -/
theorem At.run_quiet (rs : List Request) (h : At c k d) (hk : k ≤ c.sectors)
    (hn : c.sectors < k + sectorsAsked rs) :
    ¬ Protected c (run (Cflash.ioctl c) d (rs.map Request.quiet)) := by
  have hle := c.sectors_le
  induction rs generalizing k d with
  | nil =>
    simp only [sectorsAsked] at hn
    omega
  | cons r rs ih =>
    have hsum : c.sectors < k + (r.sectors + sectorsAsked rs) := hn
    rw [List.map_cons, run_cons]
    by_cases htable : k + r.sectors ≤ 100
    · obtain ⟨d', hcall, hat, hlogged⟩ := h.ioctl_quiet r htable
      rw [hcall, ok_bind]
      by_cases hwithin : k + r.sectors ≤ c.sectors
      · exact ih hat hwithin (by omega)
      · -- The entry behind the last sector was used.
        rintro ⟨-, hinside⟩
        have hmem := run_grows c d' (rs.map Request.quiet) (hlogged c.sectors hk (by omega))
        exact Nat.lt_irrefl _ (hinside _ hmem).1
    · intro hp
      apply h.ioctl_quiet_table r (by omega) (by omega)
      intro halt hhalt
      apply hp.1 halt
      rw [hhalt]
      rfl

end

/-! ## The theorem -/

/-- **Boot sector protection**: the ioctls on a freshly opened device erase
only sectors of the image and use only entries of the table that were
filled in, whatever the chip and the files do, exactly when they ask for
no more sectors, all together, than there are from the first sector of the
image to the end of the chip. -/
theorem erases_protected_iff (c : Chip) (d : Device) (h : Fresh c d) (requests : List Request) :
    (∀ attempts : List Attempt, attempts.map Attempt.request = requests →
        Protected c (run (ioctl c) d attempts)) ↔
      c.first + sectorsAsked requests ≤ c.sectors := by
  constructor
  · intro hall
    by_contra hn
    have hquiet : (requests.map Request.quiet).map Attempt.request = requests := by
      rw [List.map_map]
      exact List.map_id requests
    exact h.at.run_quiet requests c.first_lt_sectors.le (by omega) (hall _ hquiet)
  · rintro hn attempts rfl
    have hready : Ready c c.first d := by
      refine ⟨h.at, Nat.le_refl _, ?_⟩
      rw [h.erased]
      intro e he
      cases he
    exact hready.run attempts hn

/-- A single request for the thirty sectors of the image of an AM29LV160. -/
theorem erases_protected_thirty :
    Fresh .am29lv160bb opened160 ∧
      ∀ attempts : List Attempt,
        attempts.map Attempt.request = [⟨FL_ERASE_SECTOR, 0x1E0000, none⟩] →
          Protected .am29lv160bb (run (ioctl .am29lv160bb) opened160 attempts) :=
  ⟨fresh_opened160,
    (erases_protected_iff .am29lv160bb opened160 fresh_opened160
      [⟨FL_ERASE_SECTOR, 0x1E0000, none⟩]).mpr (by decide)⟩

/-- An image one byte larger passes the size check of `fuze_image`. The entry
behind the last sector holds 0, and the boot sector is erased. -/
theorem boot_sector_erased :
    ¬ tooLarge 0x1E0001 ∧
      (∃ d, run (ioctl .am29lv160bb) opened160
          [Request.quiet ⟨FL_FUZE_IMAGE, 0, some 0x1E0001⟩] = .ok d ∧ (35, 0) ∈ d.erased) ∧
      ¬ Protected .am29lv160bb (run (ioctl .am29lv160bb) opened160
          [Request.quiet ⟨FL_FUZE_IMAGE, 0, some 0x1E0001⟩]) := by
  have hat : At .am29lv160bb 5 opened160 := fresh_opened160.at
  refine ⟨by decide, ?_, ?_⟩
  · obtain ⟨d, hcall, -, hlogged⟩ :=
      hat.ioctl_quiet ⟨FL_FUZE_IMAGE, 0, some 0x1E0001⟩ (by decide)
    refine ⟨d, ?_, hlogged 35 (by decide) (by decide)⟩
    rw [run_cons, hcall]
    rfl
  · exact hat.run_quiet [⟨FL_FUZE_IMAGE, 0, some 0x1E0001⟩] (by decide) (by decide)

end Cflash
