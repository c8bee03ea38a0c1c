import Cnu680.Flash.Erase

/-! # Writing an Image

`fuze_image` reads the file behind its header of 64 bytes in pieces of
1024, and takes the first piece of another size for the last one. If the
size of the file is a multiple of 1024 it expects no such piece at all,
but because of the header there is one.

The main result is `fuzeImage_writes_iff`. -/

open Framework List

namespace Cflash

/-! ## The reads of a file -/

/-- The pieces of a list of a given size, the last one as long as it is. -/
def chunks (n : Nat) (l : List UInt8) : List (List UInt8) :=
  (List.range ((l.length + n - 1) / n)).map fun k => (l.drop (n * k)).take n

/-- The reads of a file, from behind the header on, when none of them fails. -/
def imageReads (image : List UInt8) : List Read := (chunks 1024 (image.drop 64)).map .data

variable {bs : List UInt8} {d : Device}

theorem chunks_of_ne_nil {l : List UInt8} (h : l ≠ []) :
    chunks 1024 l = l.take 1024 :: chunks 1024 (l.drop 1024) := by
  have hpos : 0 < l.length := length_pos_iff.mpr h
  have hcount : (l.length + 1024 - 1) / 1024 = ((l.drop 1024).length + 1024 - 1) / 1024 + 1 := by
    rw [length_drop]
    omega
  unfold chunks
  rw [hcount, range_succ_eq_map, map_cons, map_map]
  congr 1
  · apply map_congr_left
    intro k _
    simp [drop_drop, Nat.mul_add, Nat.add_comm]

/-! ## Which reads the loop accepts -/

/-- How many of the reads before the end of the file returned something else
than a full buffer. -/
def shortReads (rs : List Read) : Nat :=
  ((rs.map Read.len).takeWhile (· ≠ 0)).countP (· ≠ buffSize)

theorem buffSize_ne_zero : buffSize ≠ 0 := by decide

theorem shortReads_cons (r : Read) (rs : List Read) :
    shortReads (r :: rs) =
      if r.len = 0 then 0 else shortReads rs + if r.len ≠ buffSize then 1 else 0 := by
  by_cases hzero : r.len = 0
  · simp [shortReads, hzero]
  · by_cases hfull : r.len = buffSize
    · simp [shortReads, hfull, buffSize_ne_zero]
    · simp [shortReads, hzero, hfull]

theorem toNat_len_data (h : bs.length ≤ 1024) : (Read.data bs).len.toNat = bs.length :=
  Nat.mod_eq_of_lt (by show bs.length < 2 ^ 32; omega)

theorem len_data_eq_zero_iff (h : bs.length ≤ 1024) : (Read.data bs).len = 0 ↔ bs.length = 0 := by
  rw [← UInt32.toNat_inj, toNat_len_data h]
  rfl

theorem len_data_eq_buffSize_iff (h : bs.length ≤ 1024) :
    (Read.data bs).len = buffSize ↔ bs.length = 1024 := by
  rw [← UInt32.toNat_inj, toNat_len_data h]
  rfl

theorem shortReads_chunks (l : List UInt8) :
    shortReads ((chunks 1024 l).map .data) = if l.length % 1024 = 0 then 0 else 1 := by
  induction hlen : l.length using Nat.strong_induction_on generalizing l with
  | _ n ih =>
    subst hlen
    by_cases hnil : l = []
    · subst hnil
      rfl
    · have hpos : 0 < l.length := length_pos_iff.mpr hnil
      have htake : (l.take 1024).length ≤ 1024 := length_take_le 1024 l
      have hrest := ih (l.drop 1024).length (by rw [length_drop]; omega) (l.drop 1024) rfl
      rw [chunks_of_ne_nil hnil, map_cons, shortReads_cons, hrest]
      simp only [ne_eq, len_data_eq_zero_iff htake, len_data_eq_buffSize_iff htake,
        length_take, length_drop]
      split_ifs <;> omega

/-! ## What the loop does with its reads -/

section
variable {answer : Nat → Option (UInt8 × UInt8)} {buffer : Nat → UInt8} {length : UInt32}
  {program : Nat → Nat → Option (UInt8 × UInt8)} {coolSize : Bool} {r : Read} {rs : List Read}
  {k errorFlag : Nat} {d : Device} {w : Int × Device} {e t : Ended}

theorem loopCount_eq (size : Nat) : loopCount size = (size + 1) / 2 := by
  unfold loopCount
  split_ifs <;> omega

/-- What a byte holds after its halfword was programmed. -/
def burnt (answer : Option (UInt8 × UInt8)) (j : Nat) (old new : UInt8) : UInt8 :=
  match answer with
  | none => old &&& new
  | some w => if j % 2 = 0 then w.1 else w.2

theorem programHalves_apply (base : Nat) (src : Nat → UInt8) (n : Nat) (m : Nat → UInt8) (x : Nat) :
    programHalves answer base src n m x =
      if base ≤ x ∧ x < base + 2 * n then
        burnt (answer ((x - base) / 2)) (x - base) (m x) (src (x - base))
      else m x := by
  induction n generalizing x with
  | zero => exact (if_neg (by omega)).symm
  | succ n ih =>
    have hlo := ih (base + 2 * n)
    have hhi := ih (base + 2 * n + 1)
    rw [if_neg (by omega)] at hlo hhi
    unfold programHalves programHalf
    rw [hlo, hhi]
    by_cases hx : x = base + 2 * n
    · rw [if_pos hx, if_pos (by omega), hx, Nat.add_sub_cancel_left,
        Nat.mul_div_cancel_left n Nat.two_pos]
      cases answer n <;> simp [burnt]
    · by_cases hx' : x = base + 2 * n + 1
      · rw [if_neg hx, if_pos hx', if_pos (by omega), hx',
          show base + 2 * n + 1 - base = 2 * n + 1 by omega, show (2 * n + 1) / 2 = n by omega]
        cases answer n <;> simp [burnt]
      · rw [if_neg hx, if_neg hx', ih]
        by_cases hin : base ≤ x ∧ x < base + 2 * n
        · rw [if_pos hin, if_pos (by omega)]
        · rw [if_neg hin, if_neg (by omega)]

theorem flashCompareData_eq (base : Nat) (src : Nat → UInt8) (size : Nat) (m : Nat → UInt8) :
    flashCompareData base src size m =
      if ∀ j < 2 * (size / 2), m (base + j) = src j then 1 else -1 := by
  unfold flashCompareData
  congr 1
  simp only [all_eq_true, mem_range, Bool.and_eq_true, beq_iff_eq, eq_iff_iff]
  constructor
  · intro h j hj
    obtain ⟨hlo, hhi⟩ := h (j / 2) (by omega)
    rcases Nat.mod_two_eq_zero_or_one j with heven | hodd
    · have hj' : 2 * (j / 2) = j := by omega
      rwa [hj'] at hlo
    · have hj' : 2 * (j / 2) + 1 = j := by omega
      rwa [Nat.add_assoc, hj'] at hhi
  · intro h i hi
    exact ⟨h (2 * i) (by omega), h (2 * i + 1) (by omega)⟩

/-- What a `device_write` that gets to programming does: whole halfwords are
compared, and the address moves if they are equal. -/
structure Programs (answer : Nat → Option (UInt8 × UInt8)) (buffer : Nat → UInt8)
    (length : UInt32) (d : Device) (w : Int × Device) : Prop where
  flash : ∀ j < length.toNat, w.2.flash (d.fid.uiWriteAddr.toNat + j) =
    burnt (answer (j / 2)) j (d.flash (d.fid.uiWriteAddr.toNat + j)) (buffer j)
  rest : ∀ x, x < d.fid.uiWriteAddr.toNat ∨
    d.fid.uiWriteAddr.toNat + 2 * loopCount length.toNat ≤ x → w.2.flash x = d.flash x
  equal : (∀ j < 2 * (length.toNat / 2), w.2.flash (d.fid.uiWriteAddr.toNat + j) = buffer j) →
    w.1 = length.toNat ∧ w.2.irq = d.irq ∧
      w.2.fid = { d.fid with uiWriteAddr := d.fid.uiWriteAddr + length }
  differs : (¬ ∀ j < 2 * (length.toNat / 2), w.2.flash (d.fid.uiWriteAddr.toNat + j) = buffer j) →
    w.1 = -EFAULT ∧ w.2.irq = false ∧ w.2.fid = d.fid

theorem deviceWrite_cases {left : Nat} (h : deviceWrite left answer buffer length d = .ok w) :
    ((left ≠ 0 ∨ d.fid.uiCurSectNum > d.fid.flashMaxSectorNum) ∧ w.1 = -EFAULT ∧
        w.2.irq = d.irq ∧ w.2.fid = d.fid ∧ w.2.flash = d.flash) ∨
      (left = 0 ∧ ¬ d.fid.uiCurSectNum > d.fid.flashMaxSectorNum ∧
        Programs answer buffer length d w) := by
  unfold deviceWrite at h
  dsimp only at h
  split_ifs at h with hpage hleft hsect hover
  · cases h
    exact .inl ⟨.inl hleft, rfl, rfl, rfl, rfl⟩
  · cases h
    exact .inl ⟨.inr hsect, rfl, rfl, rfl, rfl⟩
  · have hzero : left = 0 := not_not.mp hleft
    subst hzero
    refine .inr ⟨rfl, hsect, ?_⟩
    unfold flashProgram at h
    split at h
    · cases h
    · next rc flash hprogram =>
      split_ifs at hprogram with hodd
      cases hprogram
      have hcount := loopCount_eq length.toNat
      have hsmall : length.toNat ≤ pageSize := by omega
      have hcopied : copied 0 length = length.toNat := by
        refine if_pos (UInt32.lt_iff_toNat_lt.mpr (Nat.lt_of_le_of_lt hsmall ?_))
        decide
      obtain ⟨src, hsrceq, hsrc⟩ : ∃ src : Nat → UInt8,
          src = (fun j => if j < copied 0 length then buffer j else d.page j) ∧
          ∀ j < length.toNat, src j = buffer j :=
        ⟨_, rfl, fun j hj => if_pos (by omega)⟩
      obtain ⟨flash, hflasheq, hflash, hrest⟩ : ∃ flash : Nat → UInt8,
          flash = programHalves answer d.fid.uiWriteAddr.toNat src (loopCount length.toNat)
            d.flash ∧
          (∀ j < length.toNat, flash (d.fid.uiWriteAddr.toNat + j) =
            burnt (answer (j / 2)) j (d.flash (d.fid.uiWriteAddr.toNat + j)) (buffer j)) ∧
          ∀ x, x < d.fid.uiWriteAddr.toNat ∨
            d.fid.uiWriteAddr.toNat + 2 * loopCount length.toNat ≤ x → flash x = d.flash x := by
        refine ⟨_, rfl, fun j hj => ?_, fun x hx => ?_⟩
        · rw [programHalves_apply, if_pos (by omega), Nat.add_sub_cancel_left, hsrc j hj]
        · rw [programHalves_apply, if_neg (by omega)]
      have hcompare : (∀ j < 2 * (length.toNat / 2),
            flash (d.fid.uiWriteAddr.toNat + j) = src j) ↔
          ∀ j < 2 * (length.toNat / 2), flash (d.fid.uiWriteAddr.toNat + j) = buffer j := by
        refine forall₂_congr fun j hj => ?_
        rw [hsrc j (by omega)]
      rw [← hsrceq, ← hflasheq, flashCompareData_eq] at h
      by_cases hequal : ∀ j < 2 * (length.toNat / 2),
          flash (d.fid.uiWriteAddr.toNat + j) = buffer j
      · rw [if_pos (hcompare.mpr hequal), if_neg (by decide)] at h
        cases h
        exact ⟨hflash, hrest, fun _ => ⟨rfl, rfl, rfl⟩, fun hne => absurd hequal hne⟩
      · rw [if_neg (mt hcompare.mp hequal), if_pos (by decide)] at h
        cases h
        exact ⟨hflash, hrest, fun heq => absurd heq hequal, fun _ => ⟨rfl, rfl, rfl⟩⟩

theorem deviceWrite_ok (buffer : Nat → UInt8) {length : UInt32} (d : Device)
    (heven : d.fid.uiWriteAddr.toNat % 2 = 0) (hlen : length.toNat ≤ pageSize) :
    ∃ w, deviceWrite 0 answer buffer length d = .ok w := by
  have hcopied : copied 0 length ≤ pageSize := by
    unfold copied
    split_ifs
    · exact hlen
    · decide
  unfold deviceWrite
  dsimp only
  rw [if_neg (Nat.not_lt.mpr hcopied), if_neg (not_not.mpr rfl)]
  split_ifs with hsect hover
  · exact ⟨_, rfl⟩
  · omega
  · unfold flashProgram
    rw [if_neg (by omega)]
    dsimp only
    split_ifs <;> exact ⟨_, rfl⟩

theorem ofInt_toNat (x : UInt32) : UInt32.ofInt (x.toNat : Int) = x := by
  have hx := x.toNat_lt
  apply UInt32.toNat_inj.mp
  show ((x.toNat : Int) % 2 ^ 32).toNat % 2 ^ 32 = x.toNat
  omega

/-- The loop never takes the result for an error: it is the length or
`-EFAULT`. -/
theorem deviceWrite_ne_zero (hlength : length ≠ 0)
    (h : deviceWrite 0 answer buffer length d = .ok w) : UInt32.ofInt w.1 ≠ 0 := by
  have hfault : UInt32.ofInt (-EFAULT) ≠ 0 := by decide
  rcases deviceWrite_cases h with ⟨-, hrc, -⟩ | ⟨-, -, hprog⟩
  · rwa [hrc]
  · by_cases hequal : ∀ j < 2 * (length.toNat / 2),
        w.2.flash (d.fid.uiWriteAddr.toNat + j) = buffer j
    · rwa [(hprog.equal hequal).1, ofInt_toNat]
    · rwa [(hprog.differs hequal).1]

theorem fuzeLoop_cons (h : fuzeLoop program coolSize (r :: rs) k errorFlag d = .ok e) :
    (r.len = 0 ∧ e = ⟨true, d, []⟩) ∨
      (r.len ≠ 0 ∧ (r.len ≠ buffSize ∧ coolSize = true ∨ nextFlag r errorFlag > 1) ∧
        e = ⟨false, d, []⟩) ∨
      (r.len ≠ 0 ∧ ¬ (r.len ≠ buffSize ∧ coolSize = true) ∧ ¬ nextFlag r errorFlag > 1 ∧
        ∃ w t, deviceWrite 0 (program k) r.buffer r.len d = .ok w ∧
          fuzeLoop program coolSize rs (k + 1) (nextFlag r errorFlag) w.2 = .ok t ∧
          e = ⟨t.eof, t.device, ⟨r.bytes, d, w.1, w.2⟩ :: t.written⟩) := by
  unfold fuzeLoop at h
  split_ifs at h with hzero hcool hflag
  · exact .inl ⟨hzero, (Except.ok.inj h).symm⟩
  · exact .inr (.inl ⟨hzero, .inl hcool, (Except.ok.inj h).symm⟩)
  · exact .inr (.inl ⟨hzero, .inr hflag, (Except.ok.inj h).symm⟩)
  · obtain ⟨w, hw, hafter⟩ := bind_eq_ok.mp h
    unfold afterWrite at hafter
    rw [if_neg (deviceWrite_ne_zero hzero hw)] at hafter
    obtain ⟨t, ht, he⟩ := map_eq_ok.mp hafter
    exact .inr (.inr ⟨hzero, hcool, hflag, w, t, hw, ht, he.symm⟩)

theorem fuzeLoop_eof (hflag : errorFlag ≤ 1)
    (h : fuzeLoop program coolSize rs k errorFlag d = .ok e) :
    e.eof = true ↔ errorFlag + shortReads rs ≤ 1 ∧ (coolSize = true → shortReads rs = 0) := by
  induction rs generalizing k errorFlag d e with
  | nil =>
    obtain rfl : (⟨true, d, []⟩ : Ended) = e := Except.ok.inj h
    exact iff_of_true rfl ⟨hflag, fun _ => rfl⟩
  | cons r rs ih =>
    rw [shortReads_cons]
    rcases fuzeLoop_cons h with ⟨hzero, rfl⟩ | ⟨hzero, hout, rfl⟩ |
      ⟨hzero, hcool, hnext, w, t, hw, ht, rfl⟩
    · exact iff_of_true rfl ⟨by rw [if_pos hzero]; exact hflag, fun _ => if_pos hzero⟩
    · rw [if_neg hzero]
      refine iff_of_false (by simp) ?_
      rintro ⟨hle, hshort⟩
      rcases hout with ⟨hne, hcool⟩ | hnext
      · have := hshort hcool
        rw [if_pos hne] at this
        omega
      · unfold nextFlag at hnext
        split_ifs at hnext hle with hne <;> omega
    · rw [if_neg hzero]
      have hih := ih (by omega) ht
      unfold nextFlag at hih hnext
      by_cases hne : r.len ≠ buffSize
      · have hbool : coolSize ≠ true := fun hc => hcool ⟨hne, hc⟩
        rw [if_pos hne] at hih hnext ⊢
        show t.eof = true ↔ _
        rw [hih]
        constructor
        all_goals
          rintro ⟨hle, -⟩
          exact ⟨by omega, fun hc => absurd hc hbool⟩
      · rw [if_neg hne] at hih ⊢
        exact hih

/-! ## Programming clear flash -/

theorem deviceWrite_good (buffer : Nat → UInt8) (length : UInt32) {a : Nat}
    (haddr : d.fid.uiWriteAddr.toNat = a) (heven : a % 2 = 0) (hlen : length.toNat ≤ 1024)
    (hsect : ¬ d.fid.uiCurSectNum > d.fid.flashMaxSectorNum)
    (hclear : ∀ x, a ≤ x → x < a + 2 * loopCount length.toNat → d.flash x = 0xFF) :
    ∃ d', deviceWrite 0 (fun _ => none) buffer length d = .ok (length.toNat, d') ∧
      d'.fid = { d.fid with uiWriteAddr := d.fid.uiWriteAddr + length } ∧
      (∀ j < length.toNat, d'.flash (a + j) = buffer j) ∧
      ∀ x, x < a ∨ a + 2 * loopCount length.toNat ≤ x → d'.flash x = d.flash x := by
  subst haddr
  have hcount := loopCount_eq length.toNat
  obtain ⟨w, hw⟩ := @deviceWrite_ok (fun _ => none) buffer length d heven
    (Nat.le_trans hlen (by decide))
  rcases deviceWrite_cases hw with ⟨hno | hno, -⟩ | ⟨-, -, hprog⟩
  · exact absurd rfl hno
  · exact absurd hno hsect
  · have hwritten : ∀ j < length.toNat,
        w.2.flash (d.fid.uiWriteAddr.toNat + j) = buffer j := by
      intro j hj
      rw [hprog.flash j hj, hclear _ (by omega) (by omega)]
      exact UInt8.neg_one_and
    obtain ⟨hrc, -, hfid⟩ := hprog.equal fun j hj => hwritten j (by omega)
    exact ⟨w.2, by rw [hw, ← hrc], hfid, hwritten, hprog.rest⟩

theorem fuzeLoop_step (hzero : r.len ≠ 0) (hcool : ¬ (r.len ≠ buffSize ∧ coolSize = true))
    (hflag : ¬ nextFlag r errorFlag > 1) (hw : deviceWrite 0 (program k) r.buffer r.len d = .ok w)
    (ht : fuzeLoop program coolSize rs (k + 1) (nextFlag r errorFlag) w.2 = .ok t) :
    fuzeLoop program coolSize (r :: rs) k errorFlag d =
      .ok ⟨t.eof, t.device, ⟨r.bytes, d, w.1, w.2⟩ :: t.written⟩ := by
  unfold fuzeLoop
  rw [if_neg hzero, if_neg hcool, if_neg hflag, hw, ok_bind]
  unfold afterWrite
  rw [if_neg (deviceWrite_ne_zero hzero hw), ht]
  rfl

/-- The loop on the rest of a file, when the flash for it is clear: every piece
lands behind the one before, and only the last can be short. -/
theorem fuzeLoop_good {l : List UInt8} {k : Nat} {a : Nat} (haddr : d.fid.uiWriteAddr.toNat = a)
    (heven : a % 2 = 0) (hroom : a + l.length < 2 ^ 32)
    (hsect : ¬ d.fid.uiCurSectNum > d.fid.flashMaxSectorNum)
    (hclear : ∀ x, a ≤ x → x < a + l.length + 1 → d.flash x = 0xFF) :
    ∃ e, fuzeLoop (fun _ _ => none) false ((chunks 1024 l).map .data) k 0 d = .ok e ∧
      e.eof = true ∧ (∀ j, j < l.length → l[j]? = some (e.device.flash (a + j))) ∧
      ∀ x < a, e.device.flash x = d.flash x := by
  induction hlen : l.length using Nat.strong_induction_on generalizing l k d a with
  | _ n ih =>
    subst hlen
    by_cases hnil : l = []
    · subst hnil
      exact ⟨⟨true, d, []⟩, rfl, rfl, fun j hj => absurd hj (Nat.not_lt_zero j), fun x _ => rfl⟩
    · have hpos : 0 < l.length := length_pos_iff.mpr hnil
      have hlength : (l.take 1024).length = min 1024 l.length := length_take
      have htoNat : (Read.data (l.take 1024)).len.toNat = min 1024 l.length := by
        rw [toNat_len_data (by omega), hlength]
      have hcount := loopCount_eq (Read.data (l.take 1024)).len.toNat
      obtain ⟨d', hw, hfid, hwritten, hkeep⟩ :=
        deviceWrite_good (Read.data (l.take 1024)).buffer (Read.data (l.take 1024)).len haddr heven
          (by omega) hsect (fun x hle hlt => hclear x hle (by omega))
      have hpiece : ∀ j < min 1024 l.length, l[j]? = some (d'.flash (a + j)) := by
        intro j hj
        rw [hwritten j (by omega)]
        show l[j]? = some ((l.take 1024).getD j 0)
        rw [getD_eq_getElem?_getD, List.getElem?_take_of_lt (by omega),
          List.getElem?_eq_getElem (by omega)]
        rfl
      have hzero : (Read.data (l.take 1024)).len ≠ 0 := by
        rw [ne_eq, len_data_eq_zero_iff (by omega)]
        omega
      rw [chunks_of_ne_nil hnil, map_cons]
      by_cases hfull : 1024 ≤ l.length
      · have hlen : (Read.data (l.take 1024)).len = buffSize :=
          (len_data_eq_buffSize_iff (by omega)).mpr (by omega)
        have hflag : nextFlag (Read.data (l.take 1024)) 0 = 0 := if_neg (by simp [hlen])
        have haddr' : d'.fid.uiWriteAddr.toNat = a + 1024 := by
          rw [hfid, UInt32.toNat_add, haddr, htoNat]
          exact (Nat.mod_eq_of_lt (by omega)).trans (by omega)
        have hdrop : (l.drop 1024).length = l.length - 1024 := length_drop
        obtain ⟨e, hrun, heof, hrest, hbefore⟩ := ih (l.drop 1024).length (by omega) haddr'
          (by omega) (k := k + 1) (by omega) (by rw [hfid]; exact hsect)
          (fun x hle hlt => by
            rw [hkeep x (by omega)]
            exact hclear x (by omega) (by omega)) rfl
        refine ⟨_, fuzeLoop_step hzero (by simp) (by omega) hw (by rw [hflag]; exact hrun), heof,
          fun j hj => ?_, fun x hx => ?_⟩
        · by_cases hj' : j < 1024
          · show l[j]? = some (e.device.flash (a + j))
            rw [hbefore (a + j) (by omega)]
            exact hpiece j (by omega)
          · have h := hrest (j - 1024) (by omega)
            rw [List.getElem?_drop] at h
            rwa [show 1024 + (j - 1024) = j by omega,
              show a + 1024 + (j - 1024) = a + j by omega] at h
        · show e.device.flash x = d.flash x
          rw [hbefore x (by omega)]
          exact hkeep x (by omega)
      · have hflag : nextFlag (Read.data (l.take 1024)) 0 = 1 := by
          refine if_pos ?_
          rw [ne_eq, len_data_eq_buffSize_iff (by omega)]
          omega
        have hend : chunks 1024 (l.drop 1024) = [] := by
          rw [drop_of_length_le (by omega)]
          rfl
        rw [hend]
        refine ⟨_, fuzeLoop_step hzero (by simp) (by omega) hw rfl, rfl, fun j hj => ?_,
          fun x hx => hkeep x (by omega)⟩
        exact hpiece j (by omega)

/-- The loop behind the last sector: nothing is programmed. -/
theorem fuzeLoop_blocked (hsect : d.fid.uiCurSectNum > d.fid.flashMaxSectorNum)
    (h : fuzeLoop program coolSize rs k errorFlag d = .ok e) : e.device.flash = d.flash := by
  induction rs generalizing k errorFlag d e with
  | nil =>
    obtain rfl : (⟨true, d, []⟩ : Ended) = e := Except.ok.inj h
    rfl
  | cons r rs ih =>
    rcases fuzeLoop_cons h with ⟨-, rfl⟩ | ⟨-, -, rfl⟩ | ⟨-, -, -, w, t, hw, ht, rfl⟩
    · rfl
    · rfl
    · rcases deviceWrite_cases hw with ⟨-, -, -, hfid, hflash⟩ | ⟨-, hfits, -⟩
      · exact (ih (by rw [hfid]; exact hsect) ht).trans hflash
      · exact absurd hsect hfits

end

/-! ## The whole image -/

theorem not_tooLarge_iff (n : UInt32) : ¬ tooLarge n ↔ 64 ≤ n.toNat ∧ n.toNat ≤ 0x1E0040 := by
  have hn := n.toNat_lt
  unfold tooLarge
  rw [UInt32.lt_iff_toNat_lt, UInt32.toNat_sub]
  show ¬ 0x1E0000 < (2 ^ 32 - 64 + n.toNat) % 2 ^ 32 ↔ _
  omega

theorem sectorNum_eq (n : UInt32) : sectorNum n = (n.toNat + 65535) / 65536 := by
  have hdiv : (n / (64 * 1024)).toNat = n.toNat / 65536 := UInt32.toNat_div ..
  have hmod : n % (64 * 1024) ≠ 0 ↔ n.toNat % 65536 ≠ 0 := by
    rw [ne_eq, ← UInt32.toNat_inj, UInt32.toNat_mod]
    rfl
  unfold sectorNum
  rw [hdiv]
  simp only [hmod]
  split_ifs <;> omega

/-- `fuze_image` on a chip that does what it is told: the sectors are erased,
and the loop follows. -/
theorem fuzeImage_good {c : Chip} (h : Fresh c d) {n : UInt32} (hn : ¬ tooLarge n)
    (reads : List Read) :
    ∃ d', Wiped c c.first (sectorNum n) { d with mask := 0x800000 } d' ∧
      fuzeImage c.sizes Answers.good (some ⟨n, reads⟩) d =
        (fuzeLoop (fun _ _ => none) (n.toNat % 1024 = 0) reads 0 0 d').map fuzeEnd := by
  have hat : At c c.first { d with mask := 0x800000 } := ⟨h.at.table, h.at.cur⟩
  have hfirst : c.first ≤ 33 := by cases c <;> decide
  have hsize := (not_tooLarge_iff n).mp hn
  have hsectors := sectorNum_eq n
  obtain ⟨d', hrun, hwiped⟩ := eraseSectors_good (sectorNum n) 0 hat (by omega)
  refine ⟨d', hwiped, ?_⟩
  unfold fuzeImage
  dsimp only
  rw [if_neg hn]
  show (eraseSectors c.sizes (fun _ => none) (sectorNum n) 0 { d with mask := 0x800000 } >>= _) = _
  rw [hrun]
  rfl

/-- With the good chip, the image is written: `fuze_image` returns 1 and the
chip holds what comes after the header. -/
def WritesImage (c : Chip) (d : Device) (image : List UInt8) : Prop :=
  ∃ u, fuzeImage c.sizes Answers.good
      (some ⟨UInt32.ofNat image.length, imageReads image⟩) d = .ok u ∧
    u.ret = 1 ∧
    ∀ j, 64 + j < image.length → image[64 + j]? = some (u.device.flash (0x20000 + j))

theorem fuzeEnd_flash (e : Ended) : (fuzeEnd e).device.flash = e.device.flash := by
  unfold fuzeEnd
  split_ifs <;> rfl

theorem fuzeEnd_ret (e : Ended) : (fuzeEnd e).ret = 1 ↔ e.eof = true := by
  unfold fuzeEnd
  split_ifs with heof
  · exact iff_of_true rfl heof
  · exact iff_of_false (by simp [ENOTTY]) heof

section
variable {c : Chip} {d d' : Device} {n : UInt32} {m : Nat} {image : List UInt8}

/-- The sectors that were erased for an image are clear, as far as the chip has
them. -/
theorem Wiped.clear_image (h : Wiped c c.first m d d') {x : Nat} (hle : 0x20000 ≤ x)
    (hlt : x < 0x20000 + 0x10000 * m) (hchip : x < sectorStart c.sizes c.sectors) :
    d'.flash x = 0xFF := by
  have hfirst := c.first_lt_sectors
  rw [c.sectorStart_image hfirst.le (Nat.le_refl _)] at hchip
  have hsect : c.first + (x - 0x20000) / 0x10000 < c.sectors := by omega
  refine h.wiped (c.first + (x - 0x20000) / 0x10000) x (by omega) (by omega) hsect ?_
  rw [sectorAt_eq_some_iff]
  refine ⟨hsect, ?_⟩
  rw [c.sectorStart_image (by omega) (by omega), c.sectorStart_image (by omega) (by omega)]
  omega

theorem Wiped.uiWriteAddr (h : Wiped c c.first m { d with mask := 0x800000 } d')
    (hfresh : Fresh c d) : d'.fid.uiWriteAddr = 0x20000 := by
  rw [h.frame]
  exact hfresh.image.1

theorem Wiped.blocked_iff (h : Wiped c c.first m { d with mask := 0x800000 } d')
    (hfresh : Fresh c d) :
    d'.fid.uiCurSectNum > d'.fid.flashMaxSectorNum ↔ c.sectors < c.first + m := by
  have hmax : d'.fid.flashMaxSectorNum = d.fid.flashMaxSectorNum := by
    rw [h.frame]
  rw [hmax, gt_iff_lt, UInt32.lt_iff_toNat_lt, hfresh.image.2, h.pos.cur]

theorem writesImage_of_fits (h : Fresh c d) (hn : ¬ tooLarge n) (hlength : image.length = n.toNat)
    (hmod : n.toNat % 1024 ≠ 0) (hfits : c.first + sectorNum n ≤ c.sectors) :
    WritesImage c d image := by
  have hsize : UInt32.ofNat image.length = n := by
    rw [hlength]
    exact UInt32.ofNat_toNat
  have hsectors := sectorNum_eq n
  have hbound := (not_tooLarge_iff n).mp hn
  have hdrop : (image.drop 64).length = n.toNat - 64 := by rw [length_drop, hlength]
  obtain ⟨d', hwiped, hrun⟩ := fuzeImage_good h hn (imageReads image)
  have haddr : d'.fid.uiWriteAddr.toNat = 0x20000 := by rw [hwiped.uiWriteAddr h]; rfl
  have hend : sectorStart c.sizes c.sectors = 0x20000 + 0x10000 * (c.sectors - c.first) :=
    c.sectorStart_image c.first_lt_sectors.le (Nat.le_refl _)
  obtain ⟨e, hloop, heof, hwritten, -⟩ := fuzeLoop_good (l := image.drop 64) (k := 0) haddr
    (by decide) (by omega) (by rw [hwiped.blocked_iff h]; omega)
    (fun x hle hlt => hwiped.clear_image hle (by omega) (by omega))
  refine ⟨fuzeEnd e, ?_, (fuzeEnd_ret e).mpr heof, fun j hj => ?_⟩
  · rw [hsize, hrun, decide_eq_false hmod]
    show (fuzeLoop _ _ ((chunks 1024 (image.drop 64)).map .data) 0 0 d').map fuzeEnd = _
    rw [hloop]
    rfl
  · rw [fuzeEnd_flash, ← List.getElem?_drop]
    exact hwritten j (by omega)

theorem WritesImage.exists_loop (h : Fresh c d) (hn : ¬ tooLarge n)
    (hlength : image.length = n.toNat) (hw : WritesImage c d image) :
    ∃ d' e, Wiped c c.first (sectorNum n) { d with mask := 0x800000 } d' ∧
      fuzeLoop (fun _ _ => none) (n.toNat % 1024 = 0) (imageReads image) 0 0 d' = .ok e ∧
      e.eof = true ∧
      ∀ j, 64 + j < image.length → image[64 + j]? = some (e.device.flash (0x20000 + j)) := by
  have hsize : UInt32.ofNat image.length = n := by
    rw [hlength]
    exact UInt32.ofNat_toNat
  obtain ⟨d', hwiped, hrun⟩ := fuzeImage_good h hn (imageReads image)
  obtain ⟨u, hu, hret, hwritten⟩ := hw
  rw [hsize, hrun] at hu
  obtain ⟨e, hloop, rfl⟩ := map_eq_ok.mp hu
  rw [fuzeEnd_flash] at hwritten
  exact ⟨d', e, hwiped, hloop, (fuzeEnd_ret e).mp hret, hwritten⟩

/-- An image whose size is a multiple of 1024 is given up before its last
piece, which is 64 bytes too short. -/
theorem not_writesImage_of_multiple (h : Fresh c d) (hn : ¬ tooLarge n)
    (hlength : image.length = n.toNat) (hmod : n.toNat % 1024 = 0) : ¬ WritesImage c d image := by
  intro hw
  have hbound := (not_tooLarge_iff n).mp hn
  obtain ⟨d', e, -, hloop, heof, -⟩ := hw.exists_loop h hn hlength
  obtain ⟨-, hshort⟩ := (fuzeLoop_eof (Nat.zero_le 1) hloop).mp heof
  have hnone := hshort (decide_eq_true hmod)
  rw [imageReads, shortReads_chunks, length_drop, hlength, if_neg (by omega)] at hnone
  cases hnone

/-- If the chip has too few sectors, nothing is programmed at all: where the
image begins the flash is clear. -/
theorem not_writesImage_of_blocked (h : Fresh c d) (hn : ¬ tooLarge n)
    (hblocked : c.sectors < c.first + sectorNum n) :
    ¬ WritesImage c d (List.replicate n.toNat 0) := by
  intro hw
  have hbound := (not_tooLarge_iff n).mp hn
  have hsectors := sectorNum_eq n
  have hfirst := c.first_lt_sectors
  obtain ⟨d', e, hwiped, hloop, -, hwritten⟩ := hw.exists_loop h hn length_replicate
  have hclear : d'.flash 0x20000 = 0xFF := by
    refine hwiped.clear_image (Nat.le_refl _) (by omega) ?_
    rw [c.sectorStart_image hfirst.le (Nat.le_refl _)]
    omega
  have hlong : 64 < n.toNat := by omega
  have hbyte := hwritten 0 (by rw [length_replicate]; exact hlong)
  rw [fuzeLoop_blocked ((hwiped.blocked_iff h).mpr hblocked) hloop,
    List.getElem?_replicate_of_lt hlong] at hbyte
  exact absurd ((Option.some.inj hbyte).trans hclear) (by decide)

end

/-- **Writing an image**: on a freshly opened device whose chip does what it is
told, every image of an accepted size is written whole exactly when the
size is no multiple of 1024 and the chip has the sectors that are erased
for it. -/
theorem fuzeImage_writes_iff (c : Chip) (d : Device) (h : Fresh c d) (n : UInt32)
    (hn : ¬ tooLarge n) :
    (∀ image : List UInt8, image.length = n.toNat → WritesImage c d image) ↔
      n.toNat % 1024 ≠ 0 ∧ c.first + sectorNum n ≤ c.sectors := by
  constructor
  · intro hall
    constructor
    · intro hmod
      exact not_writesImage_of_multiple h hn List.length_replicate hmod
        (hall (List.replicate n.toNat 0) List.length_replicate)
    · by_contra hfits
      exact not_writesImage_of_blocked h hn (by omega)
        (hall (List.replicate n.toNat 0) List.length_replicate)
  · rintro ⟨hmod, hfits⟩ image hlength
    exact writesImage_of_fits h hn hlength hmod hfits

/-- Every image of 3000 bytes, three pieces, is written to an AM29LV160. -/
theorem fuzeImage_writes_pieces :
    Fresh .am29lv160bb opened160 ∧ ¬ tooLarge 3000 ∧
      ∀ image : List UInt8, image.length = (3000 : UInt32).toNat →
        WritesImage .am29lv160bb opened160 image :=
  ⟨fresh_opened160, by decide,
    (fuzeImage_writes_iff .am29lv160bb opened160 fresh_opened160 3000 (by decide)).mpr (by decide)⟩

/-- No image of 1024 bytes is, and no image of zeros that is one byte larger
than thirty sectors. -/
theorem fuzeImage_gives_up :
    ¬ tooLarge 1024 ∧ ¬ WritesImage .am29lv160bb opened160 (List.replicate 1024 0) ∧
      ¬ tooLarge 0x1E0001 ∧ ¬ WritesImage .am29lv160bb opened160 (List.replicate 0x1E0001 0) := by
  refine ⟨by decide, ?_, by decide, ?_⟩
  · have hlength : (List.replicate 1024 (0 : UInt8)).length = (1024 : UInt32).toNat :=
      List.length_replicate
    exact not_writesImage_of_multiple fresh_opened160 (by decide) hlength (by decide)
  · exact not_writesImage_of_blocked fresh_opened160 (n := 0x1E0001) (by decide) (by decide)

end Cflash
