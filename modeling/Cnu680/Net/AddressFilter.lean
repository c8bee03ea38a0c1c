import Mathlib.Algebra.GroupWithZero.Nat
import Cnu680.Framework.Exec
import Cnu680.Framework.Words

/-! # The Address Filter

Which frames the MAC accepts is decided by the content addressable
memory `CAM`, whose entry 2 is for the station's own address, by the
entries enabled in `CAMEN` and by the mode in `CAMCON`. Five functions of
the driver write them: `hw_init` wipes the CAM and `CAMEN`, on `open`,
`close` and `tx_timeout`; `SetUpARC` loads entry 2; and each branch of
`set_multicast_list` writes a part of the rest. -/

open Framework Function

namespace S3c2510

/-! ### Registers -/

/-- Accept unicast frames. -/
def MStation : UInt32 := 0x0001

/-- Accept multicast frames. -/
def MGroup : UInt32 := 0x0002

/-- Accept broadcast frames. -/
def MBroad : UInt32 := 0x0004

/-- Enable the CAM comparison mode. -/
def MCompEn : UInt32 := 0x0010

/-- The third entry in `CAMEN`. -/
def OWN_ENTRY : UInt32 := (1 : UInt32) <<< 2

def IFF_PROMISC : UInt32 := 0x100

def IFF_ALLMULTI : UInt32 := 0x200

/-- Number of entries in CAM for address. -/
def HW_MAX_CAM : Nat := (32 * 4) / 6

/-- Maximum usable ARC entries. -/
def HW_MAX_ADDRS : Nat := HW_MAX_CAM - 5

abbrev HwAddr := Vector UInt8 6

instance neZero_hwAddr : NeZero 6 := ⟨by decide⟩

/-- The registers of the filter, and what the driver reads of the device.
`cam k` is the word at `CAM + 4 * k`. -/
structure Filter where
  cam : Nat → UInt32
  camen : UInt32
  camcon : UInt32
  devAddr : HwAddr
  flags : UInt32
  up : Bool
  /-- `open` has returned, and `set_multicast_list` is about to be called. -/
  opening : Bool

/-! ### The driver -/

/-- `a << k`. -/
def shl (a : UInt8) (k : UInt32) : UInt32 := a.toUInt32 <<< k

/-- The bytes of a word, highest first. -/
def bytesWord (a b c d : UInt8) : UInt32 := shl a 24 ||| shl b 16 ||| shl c 8 ||| d.toUInt32

/-- Setup the ARC memory MAC HW address. Only sets up one entry, the third. -/
def Filter.setUpARC (s : Filter) (addr : HwAddr) : Filter :=
  let save := s.camen
  let temp := s.cam 4
  let temp := (temp &&& 0x0000ffff) ||| shl (addr.get 4) 24 ||| shl (addr.get 5) 16
  let cam := update s.cam 3
    (bytesWord (addr.get 0) (addr.get 1) (addr.get 2) (addr.get 3))
  { s with
    cam := update cam 4 temp
    camen := save ||| OWN_ENTRY
    camcon := s.camcon ||| MCompEn
    devAddr := addr }

/-- The `i`-th multicast address: entries share every other word. -/
def setEntry (cam : Nat → UInt32) (i : Nat) (dmi : HwAddr) : Nat → UInt32 :=
  let offset := 3 + (i * 3) / 2
  if i % 2 = 1 then
    let data := cam offset
    let cam := update cam offset
      ((0xffff0000 &&& data) ||| shl (dmi.get 0) 8 ||| (dmi.get 1).toUInt32)
    update cam (offset + 1) (bytesWord (dmi.get 2) (dmi.get 3) (dmi.get 4) (dmi.get 5))
  else
    let data := cam (offset + 1)
    let cam := update cam offset
      (bytesWord (dmi.get 0) (dmi.get 1) (dmi.get 2) (dmi.get 3))
    update cam (offset + 1)
      ((0x0000ffff &&& data) ||| shl (dmi.get 4) 24 ||| shl (dmi.get 5) 16)

/-- The loop of `HardwareSetFilter`, with `enableMask`. -/
def filterLoop : List HwAddr → Nat → (Nat → UInt32) → UInt32 → (Nat → UInt32) × UInt32
  | [], _, cam, enableMask => (cam, enableMask)
  | dmi :: ptr, i, cam, enableMask =>
    if i < HW_MAX_ADDRS - 1 then
      filterLoop ptr (i + 1) (setEntry cam i dmi) (enableMask ||| shl 1 (UInt32.ofNat (i + 2)))
    else (cam, enableMask)

/-- Walk the address list, and load the filter. -/
def Filter.hardwareSetFilter (s : Filter) (mcList : List HwAddr) : Filter :=
  let (cam, enableMask) := filterLoop mcList 1 s.cam 0
  { s with cam := cam, camen := enableMask }

/-- Set or clear the multicast filter for this adaptor. The list has
`mc_count` elements. -/
def Filter.setMulticastList (s : Filter) (flags : UInt32) (mcList : List HwAddr) : Filter :=
  let s := { s with flags := flags, camen := 0 }
  if flags &&& IFF_PROMISC ≠ 0 then { s with camcon := MBroad ||| MGroup ||| MStation }
  else
    let s :=
      if flags &&& IFF_ALLMULTI ≠ 0 ∨ mcList.length > HW_MAX_ADDRS - 1 then
        { s with camcon := MCompEn ||| MBroad ||| MGroup }
      else if mcList.length ≠ 0 then
        { s.hardwareSetFilter mcList with camcon := MCompEn ||| MBroad }
      else
        -- setup for normal
        { s.setUpARC s.devAddr with camcon := MCompEn ||| MBroad }
    { s with camen := s.camen ||| OWN_ENTRY }

section

-- what the software reset of the MAC does to CAMCON
variable (reset : UInt32 → UInt32)

/-- Reset the MAC and the BDMA, and wipe the CAM. -/
def Filter.hwInit (s : Filter) : Filter :=
  { s with
    cam := fun k => if k < 32 then 0xffffffff else s.cam k
    camen := 0
    camcon := reset s.camcon }

def Filter.hwStart (s : Filter) : Filter := s.hwInit reset

inductive FilterCall where
  | open
  | close
  | setMulticastList (flags : UInt32) (mcList : List HwAddr)
  | setUpMAC (addr : HwAddr)
  | txTimeout

/-- A call. After `open` the kernel calls `set_multicast_list` before
anything else; another call in between does nothing. -/
def Filter.call (s : Filter) : FilterCall → Except Empty Filter
  | .setMulticastList flags mcList =>
    .ok { s.setMulticastList flags mcList with opening := false }
  | .open => .ok (if s.opening then s else { s.hwStart reset with up := true, opening := true })
  | .close => .ok (if s.opening then s else { s.hwInit reset with up := false })
  | .setUpMAC addr => .ok (if s.opening then s else s.setUpARC addr)
  | .txTimeout => .ok (if s.opening then s else (s.hwInit reset).hwStart reset)

/-- After the probe. -/
def Filter.probed (devAddr : HwAddr) (flags camcon : UInt32) : Filter where
  cam := fun _ => 0xffffffff
  camen := 0
  camcon := camcon
  devAddr := devAddr
  flags := flags
  up := false
  opening := false

/-! ### What is said of the filter -/

/-- Entry 2 of the CAM holds `dev_addr`: word 3 and the upper half of
word 4. -/
def Filter.OwnEntry (s : Filter) : Prop :=
  s.cam 3 = bytesWord (s.devAddr.get 0) (s.devAddr.get 1) (s.devAddr.get 2) (s.devAddr.get 3) ∧
    s.cam 4 &&& HIGH = shl (s.devAddr.get 4) 24 ||| shl (s.devAddr.get 5) 16

/-- The interface is up and not promiscuous. -/
def Filter.Filters (s : Filter) : Prop :=
  s.up = true ∧ s.opening = false ∧ s.flags &&& IFF_PROMISC = 0

/-- Unicast frames for the station are accepted. -/
def Filter.Accepts (s : Filter) : Prop :=
  s.Filters → s.OwnEntry ∧ s.camen &&& OWN_ENTRY ≠ 0 ∧ s.camcon &&& MCompEn ≠ 0 ∧
    s.camcon &&& MBroad ≠ 0

/-- The call of `set_multicast_list` is the one that loads entry 2. -/
def Normal (flags : UInt32) (mcList : List HwAddr) : Prop :=
  flags &&& IFF_ALLMULTI = 0 ∧ mcList = []

/-- The transmission does not time out, and a multicast filter is set up
only where entry 2 has been loaded. -/
def Filter.KeepsOwn (s : Filter) : FilterCall → Prop
  | .txTimeout => ¬ s.Filters
  | .setMulticastList flags mcList =>
    s.up = true → flags &&& IFF_PROMISC = 0 → Normal flags mcList ∨ s.OwnEntry
  | _ => True

end

/-! ### Entry 2 -/

theorem update_behind (cam : Nat → UInt32) {offset k : Nat} (hk : k < offset) (x y : UInt32) :
    update (update cam offset x) (offset + 1) y k = cam k := by
  rw [update_of_ne (by omega), update_of_ne (by omega)]

theorem setEntry_own (cam : Nat → UInt32) {i : Nat} (hi : 1 ≤ i) (dmi : HwAddr) :
    setEntry cam i dmi 3 = cam 3 ∧ setEntry cam i dmi 4 &&& HIGH = cam 4 &&& HIGH := by
  by_cases hfirst : i = 1
  · -- the first one shares word 4
    subst hfirst
    have hsplit : setEntry cam 1 dmi = update (update cam 4
        ((HIGH &&& cam 4) ||| shl (dmi.get 0) 8 ||| (dmi.get 1).toUInt32)) (4 + 1)
        (bytesWord (dmi.get 2) (dmi.get 3) (dmi.get 4) (dmi.get 5)) := rfl
    rw [hsplit]
    refine ⟨update_behind cam (by decide) _ _, ?_⟩
    rw [update_of_ne (by decide), update_self, or_field, or_field,
      high_and_high, shl, byte_shiftLeft_and_high, byte_and_high, UInt32.or_zero, UInt32.or_zero]
  · have hoffset : 4 < 3 + i * 3 / 2 := by omega
    unfold setEntry
    dsimp only
    split <;> exact ⟨update_behind cam (by omega) _ _, by rw [update_behind cam hoffset]⟩

theorem filterLoop_own (mcList : List HwAddr) {i : Nat} (hi : 1 ≤ i) (cam : Nat → UInt32)
    (enableMask : UInt32) :
    (filterLoop mcList i cam enableMask).1 3 = cam 3 ∧
      (filterLoop mcList i cam enableMask).1 4 &&& HIGH = cam 4 &&& HIGH := by
  induction mcList generalizing i cam enableMask with
  | nil => exact ⟨rfl, rfl⟩
  | cons dmi ptr ih =>
    unfold filterLoop
    split
    · obtain ⟨h3, h4⟩ := setEntry_own cam hi dmi
      obtain ⟨hr3, hr4⟩ := ih (Nat.le_succ_of_le hi) (setEntry cam i dmi)
        (enableMask ||| shl 1 (UInt32.ofNat (i + 2)))
      exact ⟨hr3.trans h3, hr4.trans h4⟩
    · exact ⟨rfl, rfl⟩

theorem setUpARC_own (s : Filter) (addr : HwAddr) : (s.setUpARC addr).OwnEntry := by
  have hfirst : (s.setUpARC addr).cam 3 =
      bytesWord (addr.get 0) (addr.get 1) (addr.get 2) (addr.get 3) := by
    unfold Filter.setUpARC
    dsimp only
    rw [update_of_ne (by decide), update_self]
  have hlast : (s.setUpARC addr).cam 4 =
      (s.cam 4 &&& 0x0000ffff) ||| shl (addr.get 4) 24 ||| shl (addr.get 5) 16 := by
    unfold Filter.setUpARC
    dsimp only
    rw [update_self]
  refine ⟨hfirst, ?_⟩
  rw [hlast, or_field, or_field, low_and_high, shl, shl,
    shiftLeft_and_high _ (by decide) (by decide), shiftLeft_and_high _ (by decide) (by decide),
    UInt32.zero_or]
  rfl

theorem OwnEntry.congr {s t : Filter} (h3 : t.cam 3 = s.cam 3)
    (h4 : t.cam 4 &&& HIGH = s.cam 4 &&& HIGH) (haddr : t.devAddr = s.devAddr) :
    t.OwnEntry ↔ s.OwnEntry := by
  unfold Filter.OwnEntry
  rw [h3, h4, haddr]

/-! ### The calls -/

section
variable {reset : UInt32 → UInt32} {s t : Filter}

/-- `set_multicast_list` in any other mode than the promiscuous one enables
entry 2, and loads it in normal mode only. -/
theorem setMulticastList_filters {flags : UInt32} (mcList : List HwAddr)
    (h : flags &&& IFF_PROMISC = 0) :
    let t := s.setMulticastList flags mcList
    (t.OwnEntry ↔ Normal flags mcList ∨ s.OwnEntry) ∧ t.camen &&& OWN_ENTRY ≠ 0 ∧
      t.camcon &&& MCompEn ≠ 0 ∧ t.camcon &&& MBroad ≠ 0 := by
  have hcamen : ∀ camen : UInt32, (camen ||| OWN_ENTRY) &&& OWN_ENTRY ≠ 0 := fun camen =>
    or_field_ne_zero_right (by decide)
  have hgroup : (MCompEn ||| MBroad ||| MGroup) &&& MCompEn ≠ 0 ∧
      (MCompEn ||| MBroad ||| MGroup) &&& MBroad ≠ 0 := by decide
  have hplain : (MCompEn ||| MBroad) &&& MCompEn ≠ 0 ∧ (MCompEn ||| MBroad) &&& MBroad ≠ 0 := by
    decide
  unfold Filter.setMulticastList
  dsimp only
  rw [if_neg (not_not.mpr h)]
  split
  · next hmulti =>
    refine ⟨?_, hcamen _, hgroup⟩
    have hnormal : ¬ Normal flags mcList := by
      rintro ⟨hflags, rfl⟩
      rcases hmulti with hall | hlen
      · exact hall hflags
      · exact absurd hlen (by decide)
    rw [or_iff_right hnormal]
    exact OwnEntry.congr rfl rfl rfl
  · next hmulti =>
    split
    · next hlist =>
      refine ⟨?_, hcamen _, hplain⟩
      have hnormal : ¬ Normal flags mcList := by
        rintro ⟨-, rfl⟩
        exact hlist rfl
      obtain ⟨h3, h4⟩ := filterLoop_own mcList (Nat.le_refl 1) s.cam 0
      rw [or_iff_right hnormal]
      exact OwnEntry.congr h3 h4 rfl
    · next hlist =>
      refine ⟨iff_of_true (setUpARC_own _ _) (.inl ⟨?_, ?_⟩), hcamen _, hplain⟩
      · by_contra hall
        exact hmulti (.inl hall)
      · exact List.length_eq_zero_iff.mp (not_not.mp hlist)

theorem setMulticastList_frame (flags : UInt32) (mcList : List HwAddr) :
    (s.setMulticastList flags mcList).up = s.up ∧
      (s.setMulticastList flags mcList).flags = flags := by
  unfold Filter.setMulticastList
  dsimp only
  split
  · exact ⟨rfl, rfl⟩
  · split
    · exact ⟨rfl, rfl⟩
    · split <;> exact ⟨rfl, rfl⟩

/-- **Every call that keeps the own entry leaves the station reachable.** -/
theorem call_accepts {c : FilterCall} (h : s.Accepts) (hC : s.KeepsOwn c)
    (ht : s.call reset c = .ok t) : t.Accepts := by
  cases c with
  | «open» =>
    cases ht
    split
    · exact h
    · exact fun hfilters => absurd hfilters.2.1 (by simp)
  | close =>
    cases ht
    split
    · exact h
    · exact fun hfilters => absurd hfilters.1 (by simp)
  | setMulticastList flags mcList =>
    cases ht
    obtain ⟨hup, hflags⟩ := setMulticastList_frame (s := s) flags mcList
    intro hfilters
    have hpromisc : flags &&& IFF_PROMISC = 0 := hflags ▸ hfilters.2.2
    obtain ⟨hown, hrest⟩ := setMulticastList_filters (s := s) mcList hpromisc
    exact ⟨hown.mpr (hC (hup ▸ hfilters.1) hpromisc), hrest⟩
  | setUpMAC addr =>
    cases ht
    split
    · exact h
    · intro hfilters
      obtain ⟨-, -, -, hbroad⟩ := h hfilters
      exact ⟨setUpARC_own s addr, or_field_ne_zero_right (by decide),
        or_field_ne_zero_right (by decide), or_field_ne_zero_left hbroad⟩
  | txTimeout =>
    cases ht
    split
    · exact h
    · exact fun hfilters => absurd hfilters hC

/-- **Every other call makes it unreachable.** -/
theorem call_rejects {c : FilterCall} (hC : ¬ s.KeepsOwn c) :
    ∃ t, s.call reset c = .ok t ∧ ¬ t.Accepts := by
  cases c with
  | «open» | close | setUpMAC addr => exact absurd trivial hC
  | setMulticastList flags mcList =>
    unfold Filter.KeepsOwn at hC
    push Not at hC
    obtain ⟨hup, hpromisc, hnormal, hnot⟩ := hC
    obtain ⟨hup', hflags⟩ := setMulticastList_frame (s := s) flags mcList
    refine ⟨_, rfl, fun haccepts => ?_⟩
    have hfilters : Filter.Filters { s.setMulticastList flags mcList with opening := false } :=
      ⟨hup'.trans hup, rfl, hflags.symm ▸ hpromisc⟩
    have hown := (setMulticastList_filters (s := s) mcList hpromisc).1.mp (haccepts hfilters).1
    exact hown.elim hnormal hnot
  | txTimeout =>
    have hfilters : s.Filters := not_not.mp hC
    refine ⟨_, rfl, fun haccepts => ?_⟩
    rw [if_neg (by simp [hfilters.2.1])] at haccepts
    exact (haccepts hfilters).2.1 UInt32.zero_and

end

/-- **The own address is accepted** after each call exactly when no
transmission times out while the interface filters, and every multicast
filter is set up with entry 2 loaded. -/
theorem own_address_accepted_iff (reset : UInt32 → UInt32) (devAddr : HwAddr)
    (flags camcon : UInt32) (cs : List FilterCall) :
    Always (Filter.call reset) Filter.Accepts (Filter.probed devAddr flags camcon) cs ↔
      Along (Filter.call reset) Filter.KeepsOwn (Filter.probed devAddr flags camcon) cs :=
  always_iff_along (fun _ _ _ hs hC ht => call_accepts hs hC ht) (fun _ hs => hs)
    (fun _ _ _ hC => call_rejects hC) fun hfilters => absurd hfilters.1 (by simp [Filter.probed])

/-- An address of the station. -/
def station : HwAddr := Vector.ofFn fun i => UInt8.ofNat (0x10 + i)

/-- A multicast address. -/
def allRouters : HwAddr := Vector.ofFn fun i => if i = 5 then 2 else [0x01, 0x00, 0x5e].getD i 0

/-- The station is not reachable any more once a transmission has timed out,
nor is it if it listens to a multicast address from the beginning: entry
2 is what the reset has left. -/
theorem own_address_lost :
    (∃ s, run (Filter.call id) (Filter.probed station 0 0)
        [.open, .setMulticastList 0 [], .txTimeout] = .ok s ∧
      s.up = true ∧ s.opening = false ∧ s.flags &&& IFF_PROMISC = 0 ∧ s.camen = 0 ∧
      s.cam 3 = 0xffffffff) ∧
    ∃ s, run (Filter.call id) (Filter.probed station 0 0)
        [.open, .setMulticastList 0 [allRouters]] = .ok s ∧
      s.up = true ∧ s.opening = false ∧ s.flags &&& IFF_PROMISC = 0 ∧ s.devAddr = station ∧
      s.cam 3 = 0xffffffff :=
  ⟨⟨_, rfl, by decide⟩, ⟨_, rfl, by decide⟩⟩

end S3c2510
