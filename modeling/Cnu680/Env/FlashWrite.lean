import Cnu680.Env.Flash

/-! # Writing the Flash

What `flash_write` leaves in the flash. The word loop copies the source;
the words for an unaligned start and for an odd tail are shifted out of
their 16 bits and are always 0 (`headWord_eq`, `tailWord_eq`), and the
comparison after each word looks at nothing (`writeWord_eq`).

* `writeBuff_eq`: `write_buff` without its detours.
* `flashWrite_faithful_iff`: exactly when every source ends up in the
  flash, and nothing else is touched. -/

open Framework List

namespace Envm

/-! ## One word -/

section
variable {ans : Answers} {chip : Chip}

theorem low_half (lo hi : UInt8) : low (half lo hi) = lo := by
  have hlo := lo.toNat_lt
  have hhi := hi.toNat_lt
  rw [← UInt8.toNat_inj]
  simp only [low, half, UInt8.toNat_ofNat', UInt16.toNat_ofNat']
  omega

theorem high_half (lo hi : UInt8) : high (half lo hi) = hi := by
  have hlo := lo.toNat_lt
  have hhi := hi.toNat_lt
  rw [← UInt8.toNat_inj]
  simp only [high, half, UInt8.toNat_ofNat', UInt16.toNat_ofNat']
  omega

theorem writeWord_eq (dest : Nat) (data : UInt16) : writeWord ans chip dest data =
    if dest % 2 ≠ 0 then .error .misaligned else .ok (ERR_OK, chip.program ans dest data) := rfl

theorem shiftIn_zero (b : UInt8) : shiftIn 0 b = 0 := by
  have hb : (b.toUInt32 <<< 24).toUInt16 = 0 := by
    rw [← UInt16.toNat_inj]
    simp only [UInt32.toNat_toUInt16, UInt32.toNat_shiftLeft, UInt8.toNat_toUInt32]
    show b.toNat <<< 24 % 2 ^ 32 % 2 ^ 16 = 0
    rw [Nat.shiftLeft_eq]
    omega
  show ((0 : UInt32) ||| (b.toUInt32 <<< 24)).toUInt16 = 0
  rw [UInt32.zero_or, hb]

theorem foldl_shiftIn (bs : List UInt8) : bs.foldl shiftIn 0 = 0 := by
  induction bs with
  | nil => rfl
  | cons b bs ih => rw [foldl_cons, shiftIn_zero, ih]

theorem headWord_eq (cells : Nat → UInt8) (src : List UInt8) (wp l n : Nat) :
    headWord cells src wp l n = 0 := foldl_shiftIn _

theorem tailWord_eq (cells : Nat → UInt8) (src : List UInt8) (wp : Nat) :
    tailWord cells src wp = 0 := foldl_shiftIn _

/-! ## The whole buffer -/

/-- The words of the loop, one after the other. -/
def programs (ans : Answers) : Nat → List UInt8 → Nat → Chip → Chip
  | 0, _, _, chip => chip
  | n + 1, src, addr, chip =>
    programs ans n (src.drop 2) (addr + 2)
      (chip.program ans addr (half (src.getD 0 0) (src.getD 1 0)))

theorem wordLoop_eq (n sa : Nat) (src : List UInt8) (addr : Nat) :
    wordLoop ans n sa src addr chip =
      if 0 < n ∧ (sa % 2 ≠ 0 ∨ addr % 2 ≠ 0) then .error .misaligned
      else .ok (ERR_OK, programs ans n src addr chip) := by
  induction n generalizing sa src addr chip with
  | zero => rfl
  | succ n ih =>
    rw [wordLoop, writeWord_eq]
    by_cases hsa : sa % 2 ≠ 0
    · rw [if_pos hsa, if_pos ⟨Nat.succ_pos n, .inl hsa⟩]
    by_cases haddr : addr % 2 ≠ 0
    · rw [if_neg hsa, if_pos haddr, if_pos ⟨Nat.succ_pos n, .inr haddr⟩]
      rfl
    · rw [if_neg hsa, if_neg haddr, ok_bind, if_neg (fun h => h rfl), ih, if_neg (by omega),
        if_neg (by omega)]
      rfl

/-- The words of the loop, and the word 0 for an odd tail. -/
def restChip (ans : Answers) (src : List UInt8) (addr wp cnt : Nat) (chip : Chip) : Chip :=
  if cnt % 2 = 0 then programs ans (cnt / 2) src addr chip
  else (programs ans (cnt / 2) src addr chip).program ans wp 0

theorem writeRest_eq (sa : Nat) (src : List UInt8) (addr wp cnt : Nat) (hwp : wp % 2 = 0) :
    writeRest ans chip sa src addr wp cnt =
      if 2 ≤ cnt ∧ (sa % 2 ≠ 0 ∨ addr % 2 ≠ 0) then .error .misaligned
      else .ok (ERR_OK, restChip ans src addr wp cnt chip) := by
  rw [writeRest, wordLoop_eq, restChip]
  by_cases hfault : 2 ≤ cnt ∧ (sa % 2 ≠ 0 ∨ addr % 2 ≠ 0)
  · rw [if_pos ⟨by omega, hfault.2⟩, if_pos hfault]
    rfl
  · rw [if_neg (fun h => hfault ⟨by omega, h.2⟩), if_neg hfault, ok_bind]
    dsimp only
    by_cases heven : cnt % 2 = 0
    · rw [if_pos (.inr heven), if_pos heven]
    · rw [if_neg (fun h => h.elim (fun hne => hne rfl) heven), if_neg heven, tailWord_eq,
        writeWord_eq, if_neg (by omega)]

/-- How much of the source is given up for the first word. -/
def skipped (addr cnt : Nat) : Nat := if addr % 4 = 0 then 0 else min (4 - addr % 4) cnt

/-- The word 0 before an unaligned start, and the rest. -/
def buffChip (ans : Answers) (src : List UInt8) (addr cnt : Nat) (chip : Chip) : Chip :=
  if addr % 4 = 0 then restChip ans src addr addr cnt chip
  else
    restChip ans (src.drop (skipped addr cnt)) addr (addr - addr % 4 + 4) (cnt - skipped addr cnt)
      (chip.program ans (addr - addr % 4) 0)

theorem writeBuff_eq (sa : Nat) (src : List UInt8) (addr cnt : Nat) :
    writeBuff ans chip sa src addr cnt =
      if 2 ≤ cnt - skipped addr cnt ∧ ((sa + skipped addr cnt) % 2 ≠ 0 ∨ addr % 2 ≠ 0) then
        .error .misaligned
      else .ok (ERR_OK, buffChip ans src addr cnt chip) := by
  unfold writeBuff buffChip skipped
  dsimp only
  by_cases halign : addr % 4 = 0
  · rw [if_pos halign, if_pos halign, if_pos halign, halign, Nat.sub_zero, Nat.sub_zero,
      Nat.add_zero]
    exact writeRest_eq sa src addr addr cnt (by omega)
  · rw [if_neg halign, if_neg halign, if_neg halign, headWord_eq, writeWord_eq,
      if_neg (by omega), ok_bind, if_neg (fun h => h rfl)]
    exact writeRest_eq _ _ addr _ _ (by omega)

/-! ## What a good chip holds afterwards -/

theorem length_programmed (answer : Option UInt16) (cells : Nat → UInt8) (dest : Nat)
    (data : UInt16) : (programmed answer cells dest data).length = 2 := by
  cases answer <;> rfl

theorem program_outside {dest x : Nat} {data : UInt16} (hx : x < dest ∨ dest + 2 ≤ x) :
    (chip.program ans dest data).cells x = chip.cells x := by
  apply overlay_outside
  rwa [length_programmed]

theorem program_good {dest : Nat} (lo hi : UInt8) (hans : ans.program chip.programs = none)
    (hlo : chip.cells dest = 0xFF) (hhi : chip.cells (dest + 1) = 0xFF) :
    (chip.program ans dest (half lo hi)).cells = overlay chip.cells dest [lo, hi] := by
  have hand : ∀ b : UInt8, 0xFF &&& b = b := by
    intro b
    rw [UInt8.and_comm]
    exact UInt8.and_neg_one
  rw [Chip.program, hans, programmed, hlo, hhi, low_half, high_half, hand, hand]

theorem programs_good {n addr : Nat} {src : List UInt8} (hsrc : src.length = 2 * n)
    (hans : ∀ i < n, ans.program (chip.programs + i) = none)
    (herased : ∀ x, addr ≤ x → x < addr + 2 * n → chip.cells x = 0xFF) :
    (programs ans n src addr chip).cells = overlay chip.cells addr src := by
  induction n generalizing src addr chip with
  | zero =>
    rw [eq_nil_of_length_eq_zero hsrc]
    rfl
  | succ n ih =>
    obtain ⟨lo, hi, src, rfl⟩ : ∃ lo hi src', src = lo :: hi :: src' := by
      cases src with
      | nil => simp at hsrc
      | cons lo src =>
        cases src with
        | nil =>
          simp at hsrc
          omega
        | cons hi src => exact ⟨lo, hi, src, rfl⟩
    have hfirst := program_good lo hi (hans 0 (Nat.succ_pos n))
      (herased addr (Nat.le_refl _) (by omega)) (herased (addr + 1) (by omega) (by omega))
    show (programs ans n src (addr + 2) (chip.program ans addr (half lo hi))).cells = _
    rw [ih (by simp only [length_cons] at hsrc; omega) (fun i hi' => ?_) (fun x hle hlt => ?_),
      hfirst]
    · rfl
    · have := hans (i + 1) (by omega)
      rwa [Nat.add_comm i 1, ← Nat.add_assoc] at this
    · rw [program_outside (.inr hle)]
      exact herased x (by omega) (by omega)

/-! ## What does not depend on the source -/

/-- Two chips that have done the same number of words, with the same contents
where `R` does not hold. -/
def AgreeOff (R : Nat → Prop) (c c' : Chip) : Prop :=
  c.programs = c'.programs ∧ ∀ x, ¬ R x → c.cells x = c'.cells x

section
variable {R : Nat → Prop} {c c' : Chip}

theorem AgreeOff.program_zero (h : AgreeOff R c c') (dest : Nat) :
    AgreeOff R (c.program ans dest 0) (c'.program ans dest 0) := by
  have hsame : programmed (ans.program c.programs) c.cells dest 0 =
      programmed (ans.program c'.programs) c'.cells dest 0 := by
    rw [h.1]
    cases ans.program c'.programs with
    | some w => rfl
    | none =>
      have hand : ∀ b : UInt8, b &&& 0 = 0 := fun b => UInt8.and_zero
      show [c.cells dest &&& 0, c.cells (dest + 1) &&& 0] =
        [c'.cells dest &&& 0, c'.cells (dest + 1) &&& 0]
      rw [hand, hand, hand, hand]
  refine ⟨congrArg (· + 1) h.1, fun x hx => ?_⟩
  show overlay c.cells dest _ x = overlay c'.cells dest _ x
  rw [hsame]
  exact overlay_congr (h.2 x hx)

theorem AgreeOff.programs (h : AgreeOff R c c') {n addr : Nat} (src src' : List UInt8)
    (hR : ∀ x, addr ≤ x → x < addr + 2 * n → R x) :
    AgreeOff R (programs ans n src addr c) (programs ans n src' addr c') := by
  induction n generalizing addr src src' c c' with
  | zero => exact h
  | succ n ih =>
    refine ih ⟨congrArg (· + 1) h.1, fun x hx => ?_⟩ _ _
      (fun x hle hlt => hR x (by omega) (by omega))
    have hout : x < addr ∨ addr + 2 ≤ x := by
      by_contra hin
      exact hx (hR x (by omega) (by omega))
    rw [program_outside hout, program_outside hout, h.2 x hx]

theorem AgreeOff.restChip (h : AgreeOff R c c') {addr wp cnt : Nat} (src src' : List UInt8)
    (hR : ∀ x, addr ≤ x → x < addr + cnt / 2 * 2 → R x) :
    AgreeOff R (restChip ans src addr wp cnt c) (restChip ans src' addr wp cnt c') := by
  have hloop : AgreeOff R (Envm.programs ans (cnt / 2) src addr c)
      (Envm.programs ans (cnt / 2) src' addr c') :=
    h.programs src src' (fun x hle hlt => hR x hle (by omega))
  unfold Envm.restChip
  split_ifs
  · exact hloop
  · exact hloop.program_zero wp

theorem buffChip_agree (ans : Answers) (c : Chip) {addr cnt : Nat} (src src' : List UInt8)
    (hR : ∀ x, addr ≤ x → x < addr + (cnt - skipped addr cnt) / 2 * 2 → R x) :
    AgreeOff R (buffChip ans src addr cnt c) (buffChip ans src' addr cnt c) := by
  have hrefl : AgreeOff R c c := ⟨rfl, fun _ _ => rfl⟩
  unfold buffChip
  by_cases halign : addr % 4 = 0
  · rw [if_pos halign, if_pos halign]
    rw [skipped, if_pos halign, Nat.sub_zero] at hR
    exact hrefl.restChip src src' hR
  · rw [if_neg halign, if_neg halign]
    exact (hrefl.program_zero _).restChip _ _ hR

end

theorem programs_outside {n addr x : Nat} (src : List UInt8)
    (hx : x < addr ∨ addr + 2 * n ≤ x) : (programs ans n src addr chip).cells x = chip.cells x := by
  induction n generalizing src addr chip with
  | zero => rfl
  | succ n ih =>
    rw [programs, ih _ (by omega)]
    exact program_outside (by omega)

theorem programs_failed {n i addr : Nat} {w : UInt16} (src : List UInt8) (hi : i < n)
    (hans : ans.program (chip.programs + i) = some w) :
    (programs ans n src addr chip).cells (addr + 2 * i) = low w := by
  induction n generalizing i src addr chip with
  | zero => cases hi
  | succ n ih =>
    cases i with
    | zero =>
      rw [programs, programs_outside _ (by omega)]
      show overlay chip.cells addr (programmed (ans.program (chip.programs + 0)) _ addr _) addr = _
      rw [hans]
      exact (lies_cons_iff.mp lies_overlay).1
    | succ i =>
      rw [programs, show addr + 2 * (i + 1) = addr + 2 + 2 * i by omega]
      apply ih _ (by omega)
      rwa [Nat.add_comm i 1, ← Nat.add_assoc] at hans

end

/-! ## flash_write -/

/-- The call is turned away. -/
def Rejected (info : FlashInfo) (addr cnt : UInt32) : Prop :=
  ¬ (addr2info info addr ∧ addr2info info (addr + cnt - 1)) ∨
    hasProtected info addr (addr + cnt - 1)

/-- The call returns; if it returns `ERR_OK`, the source lies at the address; in
any case no other cell has changed. -/
def Faithful (info : FlashInfo) (ans : Answers) (chip : Chip) (sa : Nat) (src : List UInt8)
    (addr cnt : UInt32) : Prop :=
  ∃ r chip', flashWrite info ans chip sa src addr cnt = .ok (r, chip') ∧
    (r = ERR_OK → Lies chip'.cells addr.toNat src) ∧
    ∀ x, x < addr.toNat ∨ addr.toNat + cnt.toNat ≤ x → chip'.cells x = chip.cells x

section
variable {info : FlashInfo} {ans : Answers} {chip : Chip} {sa : Nat} {addr cnt : UInt32}

/-- A bank with an address in it does not go around the end of the address
space. -/
theorem addr2info_bounds (hsize : 0 < info.size.toNat) (h : addr2info info addr = true) :
    (info.start 0).toNat ≤ addr.toNat ∧ addr.toNat < (info.start 0).toNat + info.size.toNat ∧
      (info.start 0).toNat + info.size.toNat ≤ 0x100000000 := by
  obtain ⟨-, hlo, hhi⟩ := of_decide_eq_true h
  rw [UInt32.le_iff_toNat_le] at hlo hhi
  rw [UInt32.toNat_sub, UInt32.toNat_add] at hhi
  have hone : (1 : UInt32).toNat = 1 := rfl
  have hstart := (info.start 0).toNat_lt
  have hlt := info.size.toNat_lt
  omega

theorem bankLen_toNat (cnt : UInt32) (hsize : 0 < info.size.toNat)
    (h : addr2info info addr = true) :
    (bankLen info addr cnt).toNat =
      min cnt.toNat ((info.start 0).toNat + info.size.toNat - addr.toNat) := by
  obtain ⟨hlo, hhi, hfits⟩ := addr2info_bounds hsize h
  have hbound := info.size.toNat_lt
  have hleft : (info.start 0 + info.size - addr).toNat =
      (info.start 0).toNat + info.size.toNat - addr.toNat := by
    rw [UInt32.toNat_sub, UInt32.toNat_add]
    omega
  unfold bankLen
  split_ifs with hlt
  · rw [UInt32.lt_iff_toNat_lt, hleft] at hlt
    omega
  · rw [UInt32.lt_iff_toNat_lt, hleft] at hlt
    rw [hleft]
    omega

theorem flashWrite_accepted (hcnt : cnt ≠ 0) (h : ¬ Rejected info addr cnt) (src : List UInt8) :
    flashWrite info ans chip sa src addr cnt =
      writeBuff ans chip sa src addr.toNat (bankLen info addr cnt).toNat := by
  rw [Rejected, not_or, not_not] at h
  rw [flashWrite, if_neg hcnt, if_neg (fun hno => hno h.1), if_neg h.2]

theorem faithful_of_rejected (src : List UInt8) (hsrc : src.length = cnt.toNat)
    (h : cnt = 0 ∨ Rejected info addr cnt) : Faithful info ans chip sa src addr cnt := by
  by_cases hcnt : cnt = 0
  · have hnil : src = [] := by
      apply eq_nil_of_length_eq_zero
      rw [hsrc, hcnt]
      rfl
    refine ⟨ERR_OK, chip, ?_, fun _ => ?_, fun _ _ => rfl⟩
    · rw [flashWrite, if_pos hcnt]
    · rw [hnil]
      exact lies_nil
  · by_cases hbank : ¬ (addr2info info addr ∧ addr2info info (addr + cnt - 1))
    · refine ⟨ERR_INVAL, chip, ?_, fun hr => absurd hr (by decide), fun _ _ => rfl⟩
      rw [flashWrite, if_neg hcnt, if_pos hbank]
    · refine ⟨ERR_PROTECTED, chip, ?_, fun hr => absurd hr (by decide), fun _ _ => rfl⟩
      rw [flashWrite, if_neg hcnt, if_neg hbank, if_pos ((h.resolve_left hcnt).resolve_left hbank)]

/-- The range is aligned and in the bank, and every word is programmed. -/
structure Smooth (info : FlashInfo) (ans : Answers) (chip : Chip) (sa : Nat)
    (addr cnt : UInt32) : Prop where
  aligned : addr.toNat % 4 = 0
  even : cnt.toNat % 2 = 0
  source : sa % 2 = 0
  inside : addr.toNat + cnt.toNat ≤ (info.start 0).toNat + info.size.toNat
  answers : ∀ i < cnt.toNat / 2, ans.program (chip.programs + i) = none

theorem flashWrite_smooth (hsize : 0 < info.size.toNat)
    (herased : ∀ x, addr.toNat ≤ x → x < addr.toNat + cnt.toNat → chip.cells x = 0xFF)
    (hcnt : cnt ≠ 0) (haccept : ¬ Rejected info addr cnt)
    (h : Smooth info ans chip sa addr cnt) (src : List UInt8) (hsrc : src.length = cnt.toNat) :
    ∃ chip', flashWrite info ans chip sa src addr cnt = .ok (ERR_OK, chip') ∧
      chip'.cells = overlay chip.cells addr.toNat src := by
  have hinside := h.inside
  have hlen : (bankLen info addr cnt).toNat = cnt.toNat := by
    rw [bankLen_toNat cnt hsize (not_not.mp (not_or.mp haccept).1).1]
    omega
  have hskip : skipped addr.toNat cnt.toNat = 0 := if_pos h.aligned
  have haligned := h.aligned
  have hsource := h.source
  have heven := h.even
  refine ⟨buffChip ans src addr.toNat cnt.toNat chip, ?_, ?_⟩
  · rw [flashWrite_accepted hcnt haccept, hlen, writeBuff_eq, hskip, if_neg (by omega)]
  · rw [buffChip, if_pos h.aligned, restChip, if_pos h.even]
    exact programs_good (by omega) h.answers (fun x hle hlt => herased x hle (by omega))

theorem Faithful.lies {src : List UInt8} (h : Faithful info ans chip sa src addr cnt)
    (hcnt : cnt ≠ 0) (haccept : ¬ Rejected info addr cnt) :
    ¬ (2 ≤ (bankLen info addr cnt).toNat - skipped addr.toNat (bankLen info addr cnt).toNat ∧
      ((sa + skipped addr.toNat (bankLen info addr cnt).toNat) % 2 ≠ 0 ∨ addr.toNat % 2 ≠ 0)) ∧
    Lies (buffChip ans src addr.toNat (bankLen info addr cnt).toNat chip).cells addr.toNat src := by
  obtain ⟨r, chip', hwrite, hlies, -⟩ := h
  rw [flashWrite_accepted hcnt haccept, writeBuff_eq] at hwrite
  split_ifs at hwrite with hfault
  obtain ⟨rfl, rfl⟩ := Prod.mk.inj (Except.ok.inj hwrite)
  exact ⟨hfault, hlies rfl⟩

/-- Two sources that differ everywhere can both end up in the flash only if the
loop writes every byte and every word is programmed. -/
theorem smooth_of_faithful (hsize : 0 < info.size.toNat)
    (hcnt : cnt ≠ 0) (haccept : ¬ Rejected info addr cnt)
    (h : ∀ src : List UInt8, src.length = cnt.toNat → Faithful info ans chip sa src addr cnt) :
    Smooth info ans chip sa addr cnt := by
  have hpos : 0 < cnt.toNat := by
    apply Nat.pos_of_ne_zero
    intro hzero
    exact hcnt (UInt32.toNat_inj.mp hzero)
  have hbank := (not_not.mp (not_or.mp haccept).1).1
  obtain ⟨-, hhi, -⟩ := addr2info_bounds hsize hbank
  have hlen := bankLen_toNat cnt hsize hbank
  obtain ⟨hfault, hzeros⟩ :=
    (h (List.replicate cnt.toNat 0) length_replicate).lies hcnt haccept
  obtain ⟨-, hones⟩ := (h (List.replicate cnt.toNat 1) length_replicate).lies hcnt haccept
  generalize (bankLen info addr cnt).toNat = len at hlen hfault hzeros hones
  have hdiffer : ∀ x, addr.toNat ≤ x → x < addr.toNat + cnt.toNat →
      (buffChip ans (List.replicate cnt.toNat 0) addr.toNat len chip).cells x ≠
        (buffChip ans (List.replicate cnt.toNat 1) addr.toNat len chip).cells x := by
    intro x hle hlt
    have hzero := hzeros.mem hle (by rwa [length_replicate])
    have hone := hones.mem hle (by rwa [length_replicate])
    rw [eq_of_mem_replicate hzero, eq_of_mem_replicate hone]
    decide
  -- The last byte of the range is written by the loop.
  have hlast : addr.toNat + cnt.toNat - 1 <
      addr.toNat + (len - skipped addr.toNat len) / 2 * 2 := by
    by_contra hge
    have hagree := (buffChip_agree
      (R := fun x => addr.toNat ≤ x ∧ x < addr.toNat + (len - skipped addr.toNat len) / 2 * 2)
      ans chip (List.replicate cnt.toNat 0) (List.replicate cnt.toNat 1)
      (fun x hle hlt => ⟨hle, hlt⟩)).2 (addr.toNat + cnt.toNat - 1) (fun hin => hge hin.2)
    exact hdiffer _ (by omega) (by omega) hagree
  have haligned : addr.toNat % 4 = 0 := by
    by_contra hne
    rw [skipped, if_neg hne] at hlast
    omega
  have hskip : skipped addr.toNat len = 0 := if_pos haligned
  rw [hskip] at hlast hfault
  obtain rfl : len = cnt.toNat := by omega
  have heven : cnt.toNat % 2 = 0 := by omega
  refine ⟨haligned, heven, by omega, by omega, fun i hi => ?_⟩
  cases hanswer : ans.program (chip.programs + i) with
  | none => rfl
  | some w =>
    refine absurd ?_ (hdiffer (addr.toNat + 2 * i) (by omega) (by omega))
    rw [buffChip, buffChip, if_pos haligned, if_pos haligned, restChip, restChip, if_pos heven,
      if_pos heven, programs_failed _ hi hanswer, programs_failed _ hi hanswer]

/-- Every source ends up at the address, and nothing else is touched, exactly
when the call has nothing to do or is turned away, or when the address is a
multiple of 4, the length and the address of the source are even, the range
ends inside of the bank and every word is programmed. -/
theorem flashWrite_faithful_iff (hsize : 0 < info.size.toNat)
    (herased : ∀ x, (info.start 0).toNat ≤ x → x < (info.start 0).toNat + info.size.toNat →
      chip.cells x = 0xFF) :
    (∀ src : List UInt8, src.length = cnt.toNat → Faithful info ans chip sa src addr cnt) ↔
      (cnt = 0 ∨ Rejected info addr cnt) ∨ Smooth info ans chip sa addr cnt := by
  by_cases hrej : cnt = 0 ∨ Rejected info addr cnt
  · exact iff_of_true (fun src hsrc => faithful_of_rejected src hsrc hrej) (.inl hrej)
  rw [or_iff_right hrej]
  obtain ⟨hcnt, haccept⟩ := not_or.mp hrej
  constructor
  · exact smooth_of_faithful hsize hcnt haccept
  · intro hsmooth src hsrc
    obtain ⟨hlo, -⟩ := addr2info_bounds hsize (not_not.mp (not_or.mp haccept).1).1
    have hinside := hsmooth.inside
    obtain ⟨chip', hwrite, hcells⟩ := flashWrite_smooth hsize
      (fun x hle hlt => herased x (by omega) (by omega)) hcnt haccept hsmooth src hsrc
    refine ⟨ERR_OK, chip', hwrite, fun _ => ?_, fun x hx => ?_⟩
    · rw [hcells]
      exact lies_overlay
    · rw [hcells]
      exact overlay_outside (by rwa [hsrc])

/-- Two bytes at the beginning of the second sector of the erased flash. -/
theorem flashWrite_faithful_pair :
    let ans : Answers := ⟨fun _ => none, fun _ => true⟩
    let chip : Chip := ⟨fun _ => 0xFF, 0, 0⟩
    (∀ src : List UInt8, src.length = (2 : UInt32).toNat →
        Faithful flashInit ans chip 0 src 0x80002000 2) ↔
      ((2 : UInt32) = 0 ∨ Rejected flashInit 0x80002000 2) ∨
        Smooth flashInit ans chip 0 0x80002000 2 :=
  flashWrite_faithful_iff (by decide) (fun _ _ _ => rfl)

/-- One byte, 0x12, to the erased flash: `ERR_OK` is returned, and 0 is written
over the byte and over the one behind it. -/
theorem flashWrite_loses_byte :
    ∃ chip', flashWrite flashInit ⟨fun _ => none, fun _ => true⟩ ⟨fun _ => 0xFF, 0, 0⟩ 0 [0x12]
        0x80002000 1 = .ok (ERR_OK, chip') ∧
      chip'.cells 0x80002000 = 0 ∧ chip'.cells 0x80002001 = 0 := by
  have haccept : ¬ Rejected flashInit 0x80002000 1 := by
    unfold Rejected
    decide +kernel
  refine ⟨buffChip ⟨fun _ => none, fun _ => true⟩ [0x12] 0x80002000 1 ⟨fun _ => 0xFF, 0, 0⟩,
    ?_, ?_, ?_⟩
  · rw [flashWrite_accepted (by decide) haccept, writeBuff_eq, if_neg (by decide)]
    rfl
  · decide
  · decide

end

end Envm
