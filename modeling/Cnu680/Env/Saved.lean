import Mathlib.Data.List.TakeWhile
import Cnu680.Env.Append
import Cnu680.Env.Erase
import Cnu680.Env.FlashWrite

/-! # The CRC and the Saved Environment

The CRC field of the environment after `setenv`, and after the
environment has been saved by `board_env_save` and loaded by `envm_load`.

`env_body` lies at an address `eb` of the memory, the CRC in its first
four bytes. `envm_load` copies the saved CRC not into this field but to
the address that the field holds.

The main result is `integrity_iff`. -/

open Framework List

namespace Envm

/-! ## setenv -/

section
variable {b b' : Board} {es : List (List UInt8)} {name v : List UInt8} {r : Int}

/-- The CRC is the one of the data. -/
def Board.Sealed (b : Board) : Prop := b.envCrc = crc32 0 (bytes b.envData) dataSize

theorem sealed_updateCrc (b : Board) : b.updateCrc.Sealed := by
  rw [Board.Sealed, Board.updateCrc]

theorem sealed_refresh (h : b.Sealed) (name s : List UInt8) : (b.refresh name s).Sealed := by
  unfold Board.refresh
  split_ifs <;> exact h

/-- The array without the first entry of the name. -/
def without (name : List UInt8) (es : List (List UInt8)) (data : Data) : Data :=
  let before := es.takeWhile fun e => key e ≠ some name
  match es.dropWhile fun e => key e ≠ some name with
  | [] => data
  | _ :: behind => overlay data (pack 0 before).length (remains before behind)

theorem deleteFound_eq (h : Block b.envData es) (name : List UInt8) :
    deleteFound b.envData (locate name es 0) = .ok (without name es b.envData) := by
  cases hlocate : locate name es 0 with
  | none =>
    have hnone := locate_eq_none_iff.mp hlocate
    rw [without, dropWhile_eq_nil_iff.mpr (by simpa using hnone)]
    rfl
  | some p =>
    obtain ⟨es₁, e, es₂, rfl, hkey, hbefore, rfl⟩ := locate_eq_some_iff.mp hlocate
    rw [without, takeWhile_append_of_pos (by simpa using hbefore),
      takeWhile_cons_of_neg (by simpa using hkey), append_nil,
      dropWhile_append_of_pos (by simpa using hbefore),
      dropWhile_cons_of_neg (by simpa using hkey), Nat.zero_add]
    exact deleteEntry_eq h rfl

theorem setenv_append (h : Environment b.envData es) (hfree : ¬ (setOnce name ∧ Present name es))
    (hmark : v ≠ deleteMark) :
    setenv b name v = appendEntry { b with envData := without name es b.envData } name v [] := by
  have hguard : ¬ ((locate name es 0).isSome = true ∧ setOnce name) :=
    fun hboth => hfree ⟨hboth.2, locate_isSome_iff.mp hboth.1⟩
  rw [setenv, if_neg hmark, doSetenv, search_block name h.toBlock h.head, ok_bind, if_neg hguard,
    deleteFound_eq h.toBlock]
  rfl

/-- After a call the CRC is right unless a variable that is set once was there
and the CRC was wrong before, or the entry is too long and the CRC is not
the one of the array without the old entry. -/
theorem setenv_sealed_iff (h : Environment b.envData es) (hset : setenv b name v = .ok (r, b')) :
    b'.Sealed ↔ (setOnce name ∧ Present name es → b.Sealed) ∧
      (¬ (setOnce name ∧ Present name es) → v ≠ deleteMark →
        dataSize < name.length + v.length + 3 →
          b.envCrc = crc32 0 (bytes (without name es b.envData)) dataSize) := by
  obtain ⟨honce, hfree⟩ := setenv_block h.toBlock h.head name v
  by_cases hguard : setOnce name ∧ Present name es
  · obtain ⟨-, rfl⟩ := Prod.mk.inj (Except.ok.inj ((honce hguard).symm.trans hset))
    exact ⟨fun hsealed => ⟨fun _ => hsealed, fun hno => absurd hguard hno⟩,
      fun hcond => hcond.1 hguard⟩
  simp only [hguard, false_imp_iff, true_and, not_false_iff, true_imp_iff]
  by_cases hmark : v = deleteMark
  · obtain ⟨data, -, -, -, hdelete, -⟩ := hfree hguard
    obtain ⟨-, rfl⟩ := Prod.mk.inj (Except.ok.inj ((hdelete hmark).symm.trans hset))
    exact iff_of_true (sealed_updateCrc _) fun hne => absurd hmark hne
  rw [setenv_append h hguard hmark] at hset
  obtain ⟨off, hoff, -⟩ := bind_eq_ok.mp hset
  obtain ⟨hover, hroom⟩ := appendEntry_eq
    (b := { b with envData := without name es b.envData }) name v hoff
  have hlen : entryLen name [v] = name.length + v.length + 3 := by
    simp only [entryLen]
    omega
  rw [hlen] at hover hroom
  by_cases hlong : dataSize < name.length + v.length + 3
  · obtain ⟨-, rfl⟩ := Prod.mk.inj (Except.ok.inj ((hover hlong).symm.trans hset))
    exact ⟨fun hsealed _ _ => hsealed, fun hcond => hcond hmark hlong⟩
  · obtain ⟨hinside, houtside⟩ := hroom (by omega)
    refine iff_of_true ?_ fun _ hno => absurd hno hlong
    by_cases hfits : off + (name.length + v.length + 3) ≤ dataSize
    · obtain ⟨-, rfl⟩ := Prod.mk.inj (Except.ok.inj ((hinside hfits).symm.trans hset))
      exact sealed_refresh (sealed_updateCrc _) _ _
    · cases (houtside (by omega)).symm.trans hset

end

/-! ## Saving and loading -/

def CFG_ENV_ADDR : UInt32 := 0x80002000

/-- The word at an address. -/
def word (m : Nat → UInt8) (a : Nat) : UInt32 :=
  UInt32.ofNat ((m a).toNat + 256 * (m (a + 1)).toNat + 65536 * (m (a + 2)).toNat +
    16777216 * (m (a + 3)).toNat)

/-- `env_body` lies at `eb` with the CRC and the data of the board. -/
structure Holds (ram : Nat → UInt8) (eb : Nat) (b : Board) : Prop where
  crc : word ram eb = b.envCrc
  data : ∀ i < dataSize, ram (eb + 4 + i) = b.envData i

/-- `board_env_save`: what is returned is always 0. -/
def boardEnvSave (ans : Answers) (chip : Chip) (ram : Nat → UInt8) (eb : Nat) (size : UInt32) :
    Except FlashFault (Int × Chip) :=
  flashSectErase flashInit ans chip CFG_ENV_ADDR (CFG_ENV_ADDR + UInt32.ofNat CFG_ENV_SIZE - 1) >>=
    fun p =>
      flashWrite flashInit ans p.2 eb (segment ram eb size.toNat) CFG_ENV_ADDR size >>= fun p =>
        .ok (0, p.2)

/-- `envm_load`. -/
def envmLoad (cells ram : Nat → UInt8) (eb : Nat) : Nat → UInt8 :=
  let ram := overlay ram (word ram eb).toNat (segment cells CFG_ENV_ADDR.toNat 4)
  overlay ram (eb + 4) (segment cells (CFG_ENV_ADDR.toNat + 4) (CFG_ENV_SIZE - 4))

theorem word_inj {m m' : Nat → UInt8} {a a' : Nat} :
    word m a = word m' a' ↔ ∀ k < 4, m (a + k) = m' (a' + k) := by
  have hlt : ∀ (m : Nat → UInt8) x, (m x).toNat < 256 := fun m x => (m x).toNat_lt
  constructor
  · intro h k hk
    have hnat := congrArg UInt32.toNat h
    simp only [word, UInt32.toNat_ofNat'] at hnat
    have h0 := hlt m a
    have h1 := hlt m (a + 1)
    have h2 := hlt m (a + 2)
    have h3 := hlt m (a + 3)
    have h0' := hlt m' a'
    have h1' := hlt m' (a' + 1)
    have h2' := hlt m' (a' + 2)
    have h3' := hlt m' (a' + 3)
    rw [← UInt8.toNat_inj]
    rcases (by omega : k = 0 ∨ k = 1 ∨ k = 2 ∨ k = 3) with rfl | rfl | rfl | rfl
    · simp only [Nat.add_zero]
      omega
    · omega
    · omega
    · omega
  · intro h
    rw [word, word, ← h 1 (by decide), ← h 2 (by decide), ← h 3 (by decide)]
    have h0 := h 0 (by decide)
    rw [Nat.add_zero, Nat.add_zero] at h0
    rw [h0]

section
variable {ans : Answers} {chip : Chip} {ram : Nat → UInt8} {eb : Nat}

theorem flashSectErase_env (hans : ∀ i, ans.erase i = true) :
    flashSectErase flashInit ans chip CFG_ENV_ADDR
        (CFG_ENV_ADDR + UInt32.ofNat CFG_ENV_SIZE - 1) = .ok (1, chip.erase flashInit 1) := by
  have hfirst : CFG_ENV_ADDR = flashInit.start 1 := by decide
  have hlast : CFG_ENV_ADDR + UInt32.ofNat CFG_ENV_SIZE - 1 = flashInit.behind 1 - 1 := by decide
  rw [hlast, hfirst]
  exact flashSectErase_sectors hans flashInit_ascending (by decide) flashInit_protect
    (Nat.le_refl 1) (by decide) (by decide) chip

theorem erase_env {x : Nat} (hle : CFG_ENV_ADDR.toNat ≤ x)
    (hlt : x < CFG_ENV_ADDR.toNat + CFG_ENV_SIZE) : (chip.erase flashInit 1).cells x = 0xFF := by
  have hbounds : (flashInit.start 1).toNat = CFG_ENV_ADDR.toNat ∧
      (flashInit.behind 1 - 1).toNat + 1 = CFG_ENV_ADDR.toNat + CFG_ENV_SIZE := by decide +kernel
  exact if_pos ⟨by omega, by omega⟩

theorem not_rejected_env : ¬ Rejected flashInit CFG_ENV_ADDR (UInt32.ofNat CFG_ENV_SIZE) := by
  unfold Rejected
  decide +kernel

theorem boardEnvSave_lies (ans : Answers) (chip : Chip) (ram : Nat → UInt8)
    (hprogram : ∀ i, ans.program i = none) (herase : ∀ i, ans.erase i = true) (heb : eb % 4 = 0) :
    ∃ chip', boardEnvSave ans chip ram eb (UInt32.ofNat CFG_ENV_SIZE) = .ok (0, chip') ∧
      Lies chip'.cells CFG_ENV_ADDR.toNat (segment ram eb CFG_ENV_SIZE) := by
  have hsmooth : Smooth flashInit ans (chip.erase flashInit 1) eb CFG_ENV_ADDR
      (UInt32.ofNat CFG_ENV_SIZE) :=
    ⟨by decide, by decide, by omega, by decide +kernel, fun i _ => hprogram _⟩
  obtain ⟨chip', hwrite, hcells⟩ := flashWrite_smooth (by decide) (fun x => erase_env)
    (by decide) not_rejected_env hsmooth (segment ram eb CFG_ENV_SIZE) length_segment
  refine ⟨chip', ?_, ?_⟩
  · rw [boardEnvSave, flashSectErase_env herase, ok_bind]
    dsimp only
    rw [show (UInt32.ofNat CFG_ENV_SIZE).toNat = CFG_ENV_SIZE from rfl, hwrite]
    rfl
  · rw [hcells]
    exact lies_overlay

/-! ### What is loaded -/

section
variable {cells ram' : Nat → UInt8}

theorem envmLoad_data (hsaved : Lies cells CFG_ENV_ADDR.toNat (segment ram eb CFG_ENV_SIZE))
    {i : Nat} (hi : i < dataSize) : envmLoad cells ram' eb (eb + 4 + i) = ram (eb + 4 + i) := by
  have hsize : dataSize + 4 = CFG_ENV_SIZE := rfl
  have hget := hsaved.get (k := 4 + i) (by rw [length_segment]; omega)
  rw [getElem_segment] at hget
  rw [envmLoad, overlay_segment, if_pos (by omega), Nat.add_sub_cancel_left, Nat.add_assoc, hget,
    Nat.add_assoc]

/-- The CRC field keeps what it had, but for the bytes that the copy to the
address in it happens to hit. -/
theorem envmLoad_crc (hsaved : Lies cells CFG_ENV_ADDR.toNat (segment ram eb CFG_ENV_SIZE))
    {k : Nat} (hk : k < 4) : envmLoad cells ram' eb (eb + k) =
      if (word ram' eb).toNat ≤ eb + k ∧ eb + k < (word ram' eb).toNat + 4 then
        ram (eb + (eb + k - (word ram' eb).toNat))
      else ram' (eb + k) := by
  have hsize : dataSize + 4 = CFG_ENV_SIZE := rfl
  rw [envmLoad, overlay_segment, if_neg (by omega), overlay_segment]
  split_ifs with hhit
  · have hget := hsaved.get (k := eb + k - (word ram' eb).toNat) (by rw [length_segment]; omega)
    rw [hget, getElem_segment]
  · rfl

end

/-- The CRC field after `envm_load` is the saved one: byte by byte, the copy to
the address in the field put it there, or it was there before. -/
def CrcLoaded (ram ram' : Nat → UInt8) (eb : Nat) : Prop :=
  ∀ k < 4, (if (word ram' eb).toNat ≤ eb + k ∧ eb + k < (word ram' eb).toNat + 4 then
    ram (eb + (eb + k - (word ram' eb).toNat)) else ram' (eb + k)) = ram (eb + k)

/-- An environment that is saved while the flash works and then loaded: the data
is there in any case, the CRC if its field got or had the bytes. -/
theorem save_load_iff {ram' : Nat → UInt8} {b : Board} (hprogram : ∀ i, ans.program i = none)
    (herase : ∀ i, ans.erase i = true) (heb : eb % 4 = 0) (hholds : Holds ram eb b) :
    ∃ chip', boardEnvSave ans chip ram eb (UInt32.ofNat CFG_ENV_SIZE) = .ok (0, chip') ∧
      (∀ i < dataSize, envmLoad chip'.cells ram' eb (eb + 4 + i) = b.envData i) ∧
      (Holds (envmLoad chip'.cells ram' eb) eb b ↔ CrcLoaded ram ram' eb) := by
  obtain ⟨chip', hsave, hsaved⟩ := boardEnvSave_lies ans chip ram hprogram herase heb
  have hdata : ∀ i < dataSize, envmLoad chip'.cells ram' eb (eb + 4 + i) = b.envData i := by
    intro i hi
    rw [envmLoad_data hsaved hi, hholds.data i hi]
  have hcrc : word (envmLoad chip'.cells ram' eb) eb = b.envCrc ↔ CrcLoaded ram ram' eb := by
    rw [← hholds.crc, word_inj]
    refine forall₂_congr fun k hk => ?_
    rw [envmLoad_crc hsaved hk]
  refine ⟨chip', hsave, hdata, ?_⟩
  constructor
  · intro hloaded
    exact hcrc.mp hloaded.crc
  · intro hloaded
    exact ⟨hcrc.mpr hloaded, hdata⟩

end

/-! ## Both together -/

/-- After a call of `setenv` on an environment the CRC is right exactly if a
variable that is set once and was there had a right CRC, and for an entry
that is too long the CRC fits the array without the old entry. What is
saved and loaded is the same exactly if the CRC field got or had the bytes
of the saved CRC. -/
theorem integrity_iff {b b' : Board} {es : List (List UInt8)} {name v : List UInt8} {r : Int}
    {ans : Answers} {chip : Chip} {ram ram' : Nat → UInt8} {eb : Nat} {s : Board}
    (henv : Environment b.envData es) (hset : setenv b name v = .ok (r, b'))
    (hprogram : ∀ i, ans.program i = none) (herase : ∀ i, ans.erase i = true)
    (heb : eb % 4 = 0) (hholds : Holds ram eb s) :
    (b'.Sealed ↔ (setOnce name ∧ Present name es → b.Sealed) ∧
      (¬ (setOnce name ∧ Present name es) → v ≠ deleteMark →
        dataSize < name.length + v.length + 3 →
          b.envCrc = crc32 0 (bytes (without name es b.envData)) dataSize)) ∧
    ∃ chip', boardEnvSave ans chip ram eb (UInt32.ofNat CFG_ENV_SIZE) = .ok (0, chip') ∧
      (∀ i < dataSize, envmLoad chip'.cells ram' eb (eb + 4 + i) = s.envData i) ∧
      (Holds (envmLoad chip'.cells ram' eb) eb s ↔ CrcLoaded ram ram' eb) :=
  ⟨setenv_sealed_iff henv hset, save_load_iff hprogram herase heb hholds⟩

/-- `env_body` at 0x1000 with the CRC 0x04030201 and the entry `a=1`. -/
def savedRam : Nat → UInt8 := overlay (fun _ => 0) 0x1000 [1, 2, 3, 4, 0x61, EQ, 0x31, 0, 0]

def savedBoard : Board := ⟨word savedRam 0x1000, fun i => savedRam (0x1000 + 4 + i), [], 0, 0⟩

/-- `a` is deleted from the entries `a=1` and `b=2`, whose CRC was wrong. And
where the CRC field holds its own address, the saved CRC is loaded. -/
theorem integrity_own_address :
    ∃ b', setenv ⟨0, stored [[0x61, EQ, 0x31], [0x62, EQ, 0x32]], [], 0, 0⟩ [0x61] deleteMark =
        .ok (0, b') ∧ b'.Sealed ∧
      ∃ chip', boardEnvSave ⟨fun _ => none, fun _ => true⟩ ⟨fun _ => 0, 0, 0⟩ savedRam 0x1000
          (UInt32.ofNat CFG_ENV_SIZE) = .ok (0, chip') ∧
        Holds (envmLoad chip'.cells (overlay (fun _ => 0) 0x1000 [0, 0x10]) 0x1000) 0x1000
          savedBoard := by
  have henv : Environment (stored [[0x61, EQ, 0x31], [0x62, EQ, 0x32]])
      [[0x61, EQ, 0x31], [0x62, EQ, 0x32]] :=
    environment_stored (by simp [Packable, EQ]) (by decide)
  obtain ⟨data, -, -, -, hdelete, -⟩ := (setenv_block
    (b := ⟨0, stored [[0x61, EQ, 0x31], [0x62, EQ, 0x32]], [], 0, 0⟩)
    henv.toBlock henv.head [0x61] deleteMark).2 (fun h => absurd h.1 (by decide))
  have hholds : Holds savedRam 0x1000 savedBoard := ⟨rfl, fun _ _ => rfl⟩
  have hloaded : CrcLoaded savedRam (overlay (fun _ => 0) 0x1000 [0, 0x10]) 0x1000 := by
    unfold CrcLoaded
    decide +kernel
  have hprogram : ∀ i, (⟨fun _ => none, fun _ => true⟩ : Answers).program i = none := fun _ => rfl
  obtain ⟨hsealed, chip', hsave, -, hsame⟩ :=
    integrity_iff henv (hdelete rfl) hprogram (fun _ => rfl) (by decide) hholds
  exact ⟨_, hdelete rfl, hsealed.mpr ⟨fun h => absurd h.1 (by decide), fun _ h => absurd rfl h⟩,
    chip', hsave, hsame.mpr hloaded⟩

theorem map_range_overlay {l : List UInt8} {n : Nat} (hlen : l.length ≤ n) :
    (List.range n).map (overlay (fun _ => 0) 0 l) = l ++ List.replicate (n - l.length) 0 := by
  apply ext_getElem
  · simp only [length_map, length_range, length_append, length_replicate]
    omega
  · intro i hi hi'
    rw [getElem_map, getElem_range]
    by_cases hin : i < l.length
    · have hget := (lies_overlay (m := fun _ => 0) (i := 0) (l := l)).get hin
      rw [Nat.zero_add] at hget
      rw [hget, getElem_append_left hin]
    · rw [overlay_outside (by omega), getElem_append_right (by omega),
        getElem_replicate]

/-- Arrays with different beginnings and zeros behind them have different CRCs
if the registers differ. -/
theorem crc32_bytes_ne (l l' : List UInt8) (hlen : l.length ≤ dataSize)
    (hlen' : l'.length = l.length) (h : l.foldl crcStep 0xffffffff ≠ l'.foldl crcStep 0xffffffff) :
    crc32 0 (bytes (overlay (fun _ => 0) 0 l)) dataSize ≠
      crc32 0 (bytes (overlay (fun _ => 0) 0 l')) dataSize := by
  have hne := crc32_ne_of_prefix (List.replicate (dataSize - l.length) 0) h
  have hsize : ∀ l : List UInt8, l.length ≤ dataSize →
      (l ++ List.replicate (dataSize - l.length) 0).length = dataSize := by
    intro l hl
    rw [length_append, length_replicate]
    omega
  rw [bytes, bytes, map_range_overlay hlen, map_range_overlay (by omega)]
  rw [hsize l hlen, ← hlen', hsize l' (by omega)] at hne
  rwa [← hlen']

/-- Only the entry `a=`. -/
def single : Board := (⟨0, overlay (fun _ => 0) 0 [0x61, EQ, 0, 0], [], 0, 0⟩ : Board).updateCrc

theorem environment_single : Environment single.envData [[0x61, EQ]] := by
  have henv : Environment (stored [[0x61, EQ]]) [[0x61, EQ]] :=
    environment_stored (by simp [Packable, EQ]) (by decide)
  exact henv

theorem without_single : without [0x61] [[0x61, EQ]] single.envData =
    overlay (fun _ => 0) 0 [0, 0, 0, 0] := by
  have hcells : overlay single.envData 0 [0, 0] = overlay (fun _ => 0) 0 [0, 0, 0, 0] := by
    funext x
    by_cases hx : x < 4
    · rcases (by omega : x = 0 ∨ x = 1 ∨ x = 2 ∨ x = 3) with rfl | rfl | rfl | rfl
      all_goals rfl
    · have hout : ∀ (m : Data) (l : List UInt8), l.length ≤ 4 → overlay m 0 l x = m x :=
        fun m l hl => overlay_outside (.inr (by omega))
      rw [hout _ _ (by decide), hout _ _ (by decide)]
      exact hout _ _ (by decide)
  exact hcells

/-- A value that is too long: the entry is deleted, the call returns -1, and the
CRC is the one of the data with the entry. -/
theorem overflow_crc {v : List UInt8} (hlen : dataSize < v.length + 4) :
    ∃ b', setenv single [0x61] v = .ok (-1, b') ∧ ¬ b'.Sealed := by
  have hmark : v ≠ deleteMark := by
    rintro rfl
    exact absurd hlen (by decide)
  have hempty : Block (overlay (fun _ => 0) 0 [0, 0, 0, 0]) [] :=
    ⟨⟨lies_cons_iff.mpr ⟨rfl, lies_nil⟩, fun e he => absurd he not_mem_nil⟩, by decide⟩
  have hoff := appendOffset_block hempty (fun _ => rfl)
  refine ⟨{ single with envData := overlay (fun _ => 0) 0 [0, 0, 0, 0] }, ?_, ?_⟩
  · rw [setenv_append environment_single (fun h => absurd h.1 (by decide)) hmark, without_single]
    refine (appendEntry_eq
      (b := { single with envData := overlay (fun _ => 0) 0 [0, 0, 0, 0] }) [0x61] v hoff).1 ?_
    simp only [entryLen, length_cons, length_nil]
    omega
  · have hne := crc32_bytes_ne [0x61, EQ, 0, 0] [0, 0, 0, 0] (by decide) rfl (by decide +kernel)
    rw [Board.Sealed, single, Board.updateCrc]
    exact hne

/-- The CRC of the data is stale after the overflow. And the CRC 1, saved from
`env_body` at 0x1000, is not loaded into cleared memory. -/
theorem integrity_fails :
    (single.Sealed ∧ ∃ b', setenv single [0x61] (List.replicate 8185 0x78) = .ok (-1, b') ∧
      ¬ b'.Sealed) ∧
    ∃ chip', boardEnvSave ⟨fun _ => none, fun _ => true⟩ ⟨fun _ => 0, 0, 0⟩
        (Function.update (fun _ => 0) 0x1000 1) 0x1000 (UInt32.ofNat CFG_ENV_SIZE) =
          .ok (0, chip') ∧
      word (Function.update (fun _ => 0) 0x1000 1) 0x1000 = 1 ∧
      ¬ word (envmLoad chip'.cells (fun _ => 0) 0x1000) 0x1000 = 1 := by
  refine ⟨⟨sealed_updateCrc _, overflow_crc (by rw [List.length_replicate]; decide)⟩, ?_⟩
  obtain ⟨chip', hsave, hsaved⟩ := boardEnvSave_lies ⟨fun _ => none, fun _ => true⟩
    ⟨fun _ => 0, 0, 0⟩ (Function.update (fun _ => 0) 0x1000 1) (fun _ => rfl) (fun _ => rfl)
    (by decide : 0x1000 % 4 = 0)
  have hword : word (Function.update (fun _ => 0) 0x1000 1) 0x1000 = 1 := by decide
  refine ⟨chip', hsave, hword, fun hloaded => ?_⟩
  rw [← hword, word_inj] at hloaded
  have hfirst := hloaded 0 (by decide)
  rw [envmLoad_crc hsaved (by decide)] at hfirst
  exact absurd hfirst (by decide)

end Envm
