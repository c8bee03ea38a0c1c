import Cnu680.Net.AddressFilter

/-! # The Multicast Filter

The CAM is 128 bytes, six for each entry, so that entries share every
other word. `HardwareSetFilter` loads the addresses of the multicast list
from entry 3 on and enables their entries; `set_multicast_list` has all
multicast frames accepted instead where the list is too long.

The two do not agree on how long that is: up to `HW_MAX_ADDRS - 1`
addresses are to be loaded, and at most `HW_MAX_ADDRS - 2` are. Of a list
in between, the last address is not accepted. -/

open Framework Function

namespace S3c2510

/-! ### The entries of the CAM -/

/-- A byte of the CAM. -/
def camByte (cam : Nat → UInt32) (b : Nat) : UInt8 := byteAt (cam (b / 4)) (b % 4)

/-- Entry `e` of the CAM holds the address. -/
def Holds (cam : Nat → UInt32) (e : Nat) (addr : HwAddr) : Prop :=
  ∀ j : Fin 6, camByte cam (6 * e + j) = addr.get j

instance (cam : Nat → UInt32) (e : Nat) (addr : HwAddr) : Decidable (Holds cam e addr) :=
  inferInstanceAs (Decidable (∀ _, _))

/-- A multicast address is accepted: all of them are, or an entry that is
enabled holds it. -/
def Filter.AcceptsGroup (s : Filter) (addr : HwAddr) : Prop :=
  s.camcon &&& MGroup ≠ 0 ∨ ∃ e < HW_MAX_CAM, s.camen.toNat.testBit e ∧ Holds s.cam e addr

theorem Holds.unique {cam : Nat → UInt32} {e : Nat} {addr addr' : HwAddr} (h : Holds cam e addr)
    (h' : Holds cam e addr') : addr = addr' := by
  apply Vector.ext
  intro j hj
  exact (h ⟨j, hj⟩).symm.trans (h' ⟨j, hj⟩)

theorem Holds.congr {cam cam' : Nat → UInt32} {e : Nat} (addr : HwAddr)
    (h : ∀ j < 6, camByte cam' (6 * e + j) = camByte cam (6 * e + j)) :
    Holds cam' e addr ↔ Holds cam e addr :=
  forall_congr' fun j => by rw [h j j.isLt]

theorem camByte_eq (cam : Nat → UInt32) {b w k : Nat} (hk : k < 4) (hb : b = 4 * w + k) :
    camByte cam b = byteAt (cam w) k := by
  have hw : b / 4 = w := by omega
  have hk' : b % 4 = k := by omega
  rw [camByte, hw, hk']

/-! ### Words of the CAM -/

section
variable (a b c d : UInt8) (x : UInt32) {k : Nat}

theorem byteAt_shl {n : UInt32} {j k : Nat} (hj : j < 4) (hk : k < 4)
    (hn : n.toNat = 24 - 8 * j) : byteAt (shl a n) k = if k = j then a else 0 :=
  byteAt_shiftLeft a hj hk hn

theorem byteAt_byte (hk : k < 4) : byteAt a.toUInt32 k = if k = 3 then a else 0 := by
  have hshift : a.toUInt32 = a.toUInt32 <<< 0 := by simp
  rw [hshift]
  exact byteAt_shiftLeft a (by decide) hk (by decide)

theorem byteAt_bytesWord (hk : k < 4) :
    byteAt (bytesWord a b c d) k =
      if k = 0 then a else if k = 1 then b else if k = 2 then c else d := by
  unfold bytesWord
  rw [byteAt_or, byteAt_or, byteAt_or, byteAt_shl a (by decide : 0 < 4) hk (by decide),
    byteAt_shl b (by decide : 1 < 4) hk (by decide),
    byteAt_shl c (by decide : 2 < 4) hk (by decide), byteAt_byte d hk]
  obtain rfl | rfl | rfl | rfl : k = 0 ∨ k = 1 ∨ k = 2 ∨ k = 3 := by omega
  all_goals simp

theorem ff_and : 0xff &&& a = a := by
  rw [← UInt8.toBitVec_inj]
  exact BitVec.allOnes_and

theorem byteAt_low (hk : k < 4) :
    byteAt ((0xffff0000 &&& x) ||| shl a 8 ||| b.toUInt32) k =
      if k = 2 then a else if k = 3 then b else byteAt x k := by
  have hmask : ∀ k < 4, byteAt 0xffff0000 k = if k < 2 then 0xff else 0 := by decide
  rw [byteAt_or, byteAt_or, byteAt_and, hmask k hk,
    byteAt_shl a (by decide : 2 < 4) hk (by decide), byteAt_byte b hk]
  obtain rfl | rfl | rfl | rfl : k = 0 ∨ k = 1 ∨ k = 2 ∨ k = 3 := by omega
  all_goals simp [ff_and]

theorem byteAt_high (hk : k < 4) :
    byteAt ((0x0000ffff &&& x) ||| shl a 24 ||| shl b 16) k =
      if k = 0 then a else if k = 1 then b else byteAt x k := by
  have hmask : ∀ k < 4, byteAt 0x0000ffff k = if k < 2 then 0 else 0xff := by decide
  rw [byteAt_or, byteAt_or, byteAt_and, hmask k hk,
    byteAt_shl a (by decide : 0 < 4) hk (by decide),
    byteAt_shl b (by decide : 1 < 4) hk (by decide)]
  obtain rfl | rfl | rfl | rfl : k = 0 ∨ k = 1 ∨ k = 2 ∨ k = 3 := by omega
  all_goals simp [ff_and]

end

/-! ### Loading an entry -/

section
variable (cam : Nat → UInt32) (dmi : HwAddr)

theorem setEntry_odd (m : Nat) : setEntry cam (2 * m + 1) dmi =
    update (update cam (3 * m + 4)
      ((0xffff0000 &&& cam (3 * m + 4)) ||| shl (dmi.get 0) 8 ||| (dmi.get 1).toUInt32))
      (3 * m + 5) (bytesWord (dmi.get 2) (dmi.get 3) (dmi.get 4) (dmi.get 5)) := by
  have hoffset : 3 + (2 * m + 1) * 3 / 2 = 3 * m + 4 := by omega
  unfold setEntry
  dsimp only
  rw [if_pos (by omega), hoffset]

theorem setEntry_even (m : Nat) : setEntry cam (2 * m) dmi =
    update (update cam (3 * m + 3)
      (bytesWord (dmi.get 0) (dmi.get 1) (dmi.get 2) (dmi.get 3)))
      (3 * m + 4)
      ((0x0000ffff &&& cam (3 * m + 4)) ||| shl (dmi.get 4) 24 ||| shl (dmi.get 5) 16) := by
  have hoffset : 3 + 2 * m * 3 / 2 = 3 * m + 3 := by omega
  unfold setEntry
  dsimp only
  rw [if_neg (by omega), hoffset]

theorem holds_setEntry (i : Nat) : Holds (setEntry cam i dmi) (i + 2) dmi := by
  rintro ⟨j, hj⟩
  obtain ⟨m, rfl | rfl⟩ : ∃ m, i = 2 * m ∨ i = 2 * m + 1 := ⟨i / 2, by omega⟩
  · rw [setEntry_even]
    by_cases hfirst : j < 4
    · -- a whole word
      rw [camByte_eq _ hfirst (by omega : 6 * (2 * m + 2) + j = 4 * (3 * m + 3) + j),
        update_of_ne (by omega), update_self, byteAt_bytesWord _ _ _ _ hfirst]
      obtain rfl | rfl | rfl | rfl : j = 0 ∨ j = 1 ∨ j = 2 ∨ j = 3 := by omega
      all_goals rfl
    · have hk : j - 4 < 4 := by omega
      rw [camByte_eq _ hk (by omega : 6 * (2 * m + 2) + j = 4 * (3 * m + 4) + (j - 4)),
        update_self, byteAt_high _ _ _ hk]
      obtain rfl | rfl : j = 4 ∨ j = 5 := by omega
      all_goals rfl
  · rw [setEntry_odd]
    by_cases hfirst : j < 2
    · have hk : j + 2 < 4 := by omega
      rw [camByte_eq _ hk (by omega : 6 * (2 * m + 1 + 2) + j = 4 * (3 * m + 4) + (j + 2)),
        update_of_ne (by omega), update_self, byteAt_low _ _ _ hk]
      obtain rfl | rfl : j = 0 ∨ j = 1 := by omega
      all_goals rfl
    · -- a whole word
      have hk : j - 2 < 4 := by omega
      rw [camByte_eq _ hk (by omega : 6 * (2 * m + 1 + 2) + j = 4 * (3 * m + 5) + (j - 2)),
        update_self, byteAt_bytesWord _ _ _ _ hk]
      obtain rfl | rfl | rfl | rfl : j = 2 ∨ j = 3 ∨ j = 4 ∨ j = 5 := by omega
      all_goals rfl

theorem camByte_setEntry {i b : Nat} (hb : b < 6 * (i + 2) ∨ 6 * (i + 2) + 6 ≤ b) :
    camByte (setEntry cam i dmi) b = camByte cam b := by
  obtain ⟨m, rfl | rfl⟩ : ∃ m, i = 2 * m ∨ i = 2 * m + 1 := ⟨i / 2, by omega⟩
  · rw [setEntry_even]
    by_cases hword : b / 4 = 3 * m + 4
    · have hk : 2 ≤ b % 4 := by omega
      rw [camByte, hword, update_self, byteAt_high _ _ _ (Nat.mod_lt b (by decide)),
        if_neg (by omega), if_neg (by omega), camByte, hword]
    · rw [camByte, update_of_ne hword, update_of_ne (by omega), camByte]
  · rw [setEntry_odd]
    by_cases hword : b / 4 = 3 * m + 4
    · have hk : b % 4 < 2 := by omega
      rw [camByte, hword, update_of_ne (by omega), update_self,
        byteAt_low _ _ _ (Nat.mod_lt b (by decide)), if_neg (by omega), if_neg (by omega), camByte,
        hword]
    · rw [camByte, update_of_ne (by omega), update_of_ne hword, camByte]

end

/-! ### The loop -/

/-- The addresses that are loaded from the `i`-th one on. -/
def loaded (mcList : List HwAddr) (i : Nat) : List HwAddr := mcList.take (HW_MAX_ADDRS - 1 - i)

theorem loaded_cons {i : Nat} (hi : i < HW_MAX_ADDRS - 1) (dmi : HwAddr) (ptr : List HwAddr) :
    loaded (dmi :: ptr) i = dmi :: loaded ptr (i + 1) := by
  unfold loaded
  have hleft : HW_MAX_ADDRS - 1 - i = HW_MAX_ADDRS - 1 - (i + 1) + 1 := by omega
  rw [hleft, List.take_succ_cons]

theorem testBit_enable {k : Nat} (hk : k < 32) (e : Nat) :
    (shl 1 (UInt32.ofNat k)).toNat.testBit e = decide (k = e) := by
  have hone : (1 : UInt8).toUInt32.toNat = 1 := by decide
  have hshift : (UInt32.ofNat k).toNat % 32 = k := by
    rw [UInt32.toNat_ofNat']
    omega
  have hlt : 2 ^ k < 2 ^ 32 := Nat.pow_lt_pow_right (by decide) hk
  unfold shl
  rw [UInt32.toNat_shiftLeft, hone, hshift, Nat.one_shiftLeft, Nat.mod_eq_of_lt hlt,
    Nat.testBit_two_pow]

/-- What the loop has done at its end, from the `i`-th address on. -/
structure Loaded (mcList : List HwAddr) (i : Nat) (cam : Nat → UInt32) (enableMask : UInt32)
    (cam' : Nat → UInt32) (enableMask' : UInt32) : Prop where
  below : ∀ e < i + 2, ∀ addr, Holds cam' e addr ↔ Holds cam e addr
  holds : ∀ j addr, (loaded mcList i)[j]? = some addr → Holds cam' (i + 2 + j) addr
  enabled : ∀ e, enableMask'.toNat.testBit e ↔
    enableMask.toNat.testBit e ∨ i + 2 ≤ e ∧ e < i + 2 + (loaded mcList i).length

theorem loaded_nothing {mcList : List HwAddr} {i : Nat} (hnil : loaded mcList i = [])
    (cam : Nat → UInt32) (enableMask : UInt32) : Loaded mcList i cam enableMask cam enableMask := by
  refine ⟨fun e _ addr => Iff.rfl, fun j addr hj => ?_, fun e => ?_⟩
  · rw [hnil] at hj
    cases hj
  · rw [hnil, List.length_nil]
    exact (or_iff_left (by omega)).symm

/-- **The loop**, by induction on the list. -/
theorem filterLoop_loaded (mcList : List HwAddr) (i : Nat) (cam : Nat → UInt32)
    (enableMask : UInt32) : Loaded mcList i cam enableMask
      (filterLoop mcList i cam enableMask).1 (filterLoop mcList i cam enableMask).2 := by
  induction mcList generalizing i cam enableMask with
  | nil => exact loaded_nothing List.take_nil cam enableMask
  | cons dmi ptr ih =>
    unfold filterLoop
    by_cases hi : i < HW_MAX_ADDRS - 1
    · -- the rest is loaded behind the entry, so the entry stays
      have hmax : HW_MAX_ADDRS - 1 = 15 := rfl
      rw [if_pos hi]
      obtain ⟨hbelow, hholds, henabled⟩ := ih (i + 1) (setEntry cam i dmi)
        (enableMask ||| shl 1 (UInt32.ofNat (i + 2)))
      refine ⟨fun e he addr => ?_, fun j addr hj => ?_, fun e => ?_⟩
      · rw [hbelow e (by omega)]
        exact Holds.congr addr fun j hj => camByte_setEntry cam dmi (by omega)
      · rw [loaded_cons hi] at hj
        cases j with
        | zero =>
          obtain rfl : dmi = addr := Option.some.inj hj
          exact (hbelow (i + 2) (by omega) dmi).mpr (holds_setEntry cam dmi i)
        | succ j =>
          rw [show i + 2 + (j + 1) = i + 1 + 2 + j by omega]
          exact hholds j addr hj
      · rw [henabled e, UInt32.toNat_or, Nat.testBit_or, testBit_enable (by omega), loaded_cons hi,
          List.length_cons, Bool.or_eq_true, decide_eq_true_iff, or_assoc]
        exact or_congr_right (by omega)
    · rw [if_neg hi]
      have hnil : loaded (dmi :: ptr) i = [] := by
        unfold loaded
        rw [Nat.sub_eq_zero_of_le (Nat.le_of_not_lt hi), List.take_zero]
      exact loaded_nothing hnil cam enableMask

/-- The bytes in front of the entries that are loaded, and those behind them,
are as they were. -/
theorem camByte_filterLoop (mcList : List HwAddr) (i : Nat) (cam : Nat → UInt32)
    (enableMask : UInt32) {b : Nat}
    (hb : b < 6 * (i + 2) ∨ 6 * (i + 2 + (loaded mcList i).length) ≤ b) :
    camByte (filterLoop mcList i cam enableMask).1 b = camByte cam b := by
  induction mcList generalizing i cam enableMask with
  | nil => rfl
  | cons dmi ptr ih =>
    unfold filterLoop
    by_cases hi : i < HW_MAX_ADDRS - 1
    · rw [loaded_cons hi, List.length_cons] at hb
      rw [if_pos hi, ih (i + 1) _ _ (by omega)]
      exact camByte_setEntry cam dmi (by omega)
    · rw [if_neg hi]

/-- The CAM and `CAMEN` after `HardwareSetFilter`, by entries and by bytes. -/
structure Packed (s t : Filter) (mcList : List HwAddr) : Prop where
  entries : ∀ j addr, mcList[j]? = some addr → Holds t.cam (3 + j) addr
  others : ∀ b, b < 6 * 3 ∨ 6 * (3 + mcList.length) ≤ b → camByte t.cam b = camByte s.cam b
  /-- Entry 2 shares a word with entry 3. -/
  station : ∀ addr, Holds t.cam 2 addr ↔ Holds s.cam 2 addr
  enabled : ∀ e, t.camen.toNat.testBit e ↔ 3 ≤ e ∧ e ≤ mcList.length + 2

/-- **`HardwareSetFilter`** with a list that is not too long loads all of its
addresses, enables their entries and nothing else, and leaves every other
byte of the CAM as it was. -/
theorem hardware_set_filter_packed (s : Filter) (mcList : List HwAddr)
    (hlen : mcList.length ≤ HW_MAX_ADDRS - 2) : Packed s (s.hardwareSetFilter mcList) mcList := by
  have hall : loaded mcList 1 = mcList := List.take_of_length_le hlen
  obtain ⟨hbelow, hholds, henabled⟩ := filterLoop_loaded mcList 1 s.cam 0
  have hbytes := fun b => camByte_filterLoop mcList 1 s.cam 0 (b := b)
  rw [hall] at hholds henabled hbytes
  refine ⟨hholds, hbytes, hbelow 2 (by decide), fun e => ?_⟩
  have hmask := henabled e
  rw [UInt32.toNat_zero, Nat.zero_testBit] at hmask
  rw [show (s.hardwareSetFilter mcList).camen = (filterLoop mcList 1 s.cam 0).2 from rfl, hmask]
  simp only [Bool.false_eq_true, false_or]
  omega

/-- Two addresses behind the station's own. -/
theorem hardware_set_filter_packed_two :
    Packed (Filter.setUpARC (Filter.probed station 0 0) station)
      ((Filter.setUpARC (Filter.probed station 0 0) station).hardwareSetFilter
        [allRouters, station]) [allRouters, station] :=
  hardware_set_filter_packed _ _ (by decide)

/-- What is accepted with the filter loaded: what has been loaded, and what
entry 2 holds. -/
theorem accepts_loaded (s : Filter) (mcList : List HwAddr) (addr : HwAddr) :
    Filter.AcceptsGroup
        { s.hardwareSetFilter mcList with
          camcon := MCompEn ||| MBroad
          camen := (s.hardwareSetFilter mcList).camen ||| OWN_ENTRY } addr ↔
      addr ∈ mcList.take (HW_MAX_ADDRS - 2) ∨ Holds s.cam 2 addr := by
  have hgroup : ¬ (MCompEn ||| MBroad) &&& MGroup ≠ 0 := by decide
  have hmax : HW_MAX_ADDRS - 2 = 14 := rfl
  have hcam : HW_MAX_CAM = 21 := rfl
  obtain ⟨hbelow, hholds, henabled⟩ := filterLoop_loaded mcList 1 s.cam 0
  have htake : loaded mcList 1 = mcList.take (HW_MAX_ADDRS - 2) := rfl
  have hlength : (loaded mcList 1).length ≤ 14 := List.length_take_le 14 mcList
  -- the bits of CAMEN
  have hbit : ∀ e, ((s.hardwareSetFilter mcList).camen ||| OWN_ENTRY).toNat.testBit e ↔
      e = 2 ∨ 3 ≤ e ∧ e < 3 + (loaded mcList 1).length := by
    intro e
    have hown : OWN_ENTRY.toNat = 2 ^ 2 := by decide
    rw [UInt32.toNat_or, Nat.testBit_or, Bool.or_eq_true, hown, Nat.testBit_two_pow,
      decide_eq_true_iff]
    have hmask := henabled e
    rw [UInt32.toNat_zero, Nat.zero_testBit] at hmask
    have hcamen : (s.hardwareSetFilter mcList).camen = (filterLoop mcList 1 s.cam 0).2 := rfl
    rw [hcamen, hmask]
    simp only [Bool.false_eq_true, false_or]
    omega
  unfold Filter.AcceptsGroup
  rw [or_iff_right hgroup]
  constructor
  · rintro ⟨e, -, hen, hold⟩
    rcases (hbit e).mp hen with rfl | ⟨hle, hlt⟩
    · exact .inr ((hbelow 2 (by decide) addr).mp hold)
    · have hj : e - 3 < (loaded mcList 1).length := by omega
      have hentry := hholds (e - 3) _ (List.getElem?_eq_getElem hj)
      rw [show 1 + 2 + (e - 3) = e by omega] at hentry
      rw [hold.unique hentry, ← htake]
      exact .inl (List.getElem_mem hj)
  · rintro (hmem | hold)
    · rw [← htake] at hmem
      obtain ⟨j, hj, rfl⟩ := List.mem_iff_getElem.mp hmem
      refine ⟨3 + j, by omega, (hbit _).mpr (.inr ⟨by omega, by omega⟩), ?_⟩
      exact hholds j _ (List.getElem?_eq_getElem hj)
    · exact ⟨2, by omega, (hbit 2).mpr (.inl rfl), (hbelow 2 (by decide) addr).mpr hold⟩

/-- **Multicast addresses.** After `set_multicast_list` without `IFF_PROMISC`,
from any state of the registers, every address of the list is accepted
exactly when all are to be accepted, or the list has `HW_MAX_ADDRS`
addresses or more, or what comes after the first `HW_MAX_ADDRS - 2` is
among those or is what entry 2 holds. -/
theorem multicast_accepted_iff (s : Filter) (flags : UInt32) (mcList : List HwAddr)
    (hflags : flags &&& IFF_PROMISC = 0) :
    (∀ addr ∈ mcList, (s.setMulticastList flags mcList).AcceptsGroup addr) ↔
      flags &&& IFF_ALLMULTI ≠ 0 ∨ HW_MAX_ADDRS ≤ mcList.length ∨
        ∀ addr ∈ mcList.drop (HW_MAX_ADDRS - 2),
          addr ∈ mcList.take (HW_MAX_ADDRS - 2) ∨ Holds s.cam 2 addr := by
  have hmax : HW_MAX_ADDRS = 16 := rfl
  have hgroup : (MCompEn ||| MBroad ||| MGroup) &&& MGroup ≠ 0 := by decide
  unfold Filter.setMulticastList
  dsimp only
  rw [if_neg (not_not.mpr hflags)]
  by_cases hmulti : flags &&& IFF_ALLMULTI ≠ 0 ∨ mcList.length > HW_MAX_ADDRS - 1
  · rw [if_pos hmulti]
    refine iff_of_true (fun addr _ => .inl hgroup) ?_
    rcases hmulti with hall | hlen
    · exact .inl hall
    · exact .inr (.inl (by omega))
  · rw [if_neg hmulti]
    obtain ⟨hall, hlen⟩ := not_or.mp hmulti
    rw [or_iff_right hall, or_iff_right (by omega)]
    by_cases hlist : mcList.length ≠ 0
    · rw [if_pos hlist]
      constructor
      · intro h addr hmem
        exact (accepts_loaded _ mcList addr).mp (h addr (List.mem_of_mem_drop hmem))
      · intro h addr hmem
        refine (accepts_loaded _ mcList addr).mpr ?_
        rw [← List.take_append_drop (HW_MAX_ADDRS - 2) mcList] at hmem
        rcases List.mem_append.mp hmem with htake | hdrop
        · exact .inl htake
        · exact h addr hdrop
    · obtain rfl : mcList = [] := List.length_eq_zero_iff.mp (not_not.mp hlist)
      exact iff_of_true (fun addr hmem => absurd hmem (by simp)) (by simp)

/-- Multicast addresses that differ in the last byte. -/
def group (k : Nat) : HwAddr :=
  Vector.ofFn fun i => if i.val = 5 then UInt8.ofNat k else [0x01, 0x00, 0x5e].getD i 0

/-- The last one of fourteen addresses is accepted. -/
theorem multicast_accepted_fourteen : group 13 ∈ (List.range 14).map group ∧
    ((Filter.probed station 0 0).setMulticastList 0
      ((List.range 14).map group)).AcceptsGroup (group 13) := by
  have hmem : group 13 ∈ (List.range 14).map group := List.mem_map_of_mem (by decide)
  exact ⟨hmem, (multicast_accepted_iff (Filter.probed station 0 0) 0 ((List.range 14).map group)
    (by decide)).mpr (.inr (.inr fun _ hmem => absurd hmem List.not_mem_nil)) _ hmem⟩

/-- The last one of fifteen addresses is not accepted. -/
theorem multicast_fifteenth_lost : group 14 ∈ (List.range 15).map group ∧
    ¬ ((Filter.probed station 0 0).setMulticastList 0
      ((List.range 15).map group)).AcceptsGroup (group 14) := by
  refine ⟨List.mem_map_of_mem (by decide), ?_⟩
  have hgroup : ¬ ((Filter.probed station 0 0).setMulticastList 0
      ((List.range 15).map group)).camcon &&& MGroup ≠ 0 := by
    decide +kernel
  have hentries : ∀ e < HW_MAX_CAM, ¬ (((Filter.probed station 0 0).setMulticastList 0
      ((List.range 15).map group)).camen.toNat.testBit e ∧
      Holds ((Filter.probed station 0 0).setMulticastList 0 ((List.range 15).map group)).cam e
        (group 14)) := by
    decide +kernel
  rintro (hmulti | ⟨e, he, hentry⟩)
  · exact hgroup hmulti
  · exact hentries e he hentry

end S3c2510
