import Mathlib.Tactic.Common

/-! # The CRC of the Environment

`crc32` of `drivers/char/envm-s3c2510_4M.c`: a table of 256 words, eight
bytes in each round of the first loop and one in each round of the second.

* `crc32`: the two loops as the source has them.
* `crc32_eq_foldl`: they take the bytes one after the other.
* `crcStep_eq_bitSteps`: a word of the table is what eight bits of the
  polynomial come to.
* `crcStep_injective`: a byte maps different registers to different
  registers, so a difference in the first bytes is not lost
  (`crc32_ne_of_prefix`). -/

namespace Envm

/-- `crc_table`. -/
def crcTable : List UInt32 := [
  0x00000000, 0x77073096, 0xee0e612c, 0x990951ba, 0x076dc419, 0x706af48f, 0xe963a535, 0x9e6495a3,
  0x0edb8832, 0x79dcb8a4, 0xe0d5e91e, 0x97d2d988, 0x09b64c2b, 0x7eb17cbd, 0xe7b82d07, 0x90bf1d91,
  0x1db71064, 0x6ab020f2, 0xf3b97148, 0x84be41de, 0x1adad47d, 0x6ddde4eb, 0xf4d4b551, 0x83d385c7,
  0x136c9856, 0x646ba8c0, 0xfd62f97a, 0x8a65c9ec, 0x14015c4f, 0x63066cd9, 0xfa0f3d63, 0x8d080df5,
  0x3b6e20c8, 0x4c69105e, 0xd56041e4, 0xa2677172, 0x3c03e4d1, 0x4b04d447, 0xd20d85fd, 0xa50ab56b,
  0x35b5a8fa, 0x42b2986c, 0xdbbbc9d6, 0xacbcf940, 0x32d86ce3, 0x45df5c75, 0xdcd60dcf, 0xabd13d59,
  0x26d930ac, 0x51de003a, 0xc8d75180, 0xbfd06116, 0x21b4f4b5, 0x56b3c423, 0xcfba9599, 0xb8bda50f,
  0x2802b89e, 0x5f058808, 0xc60cd9b2, 0xb10be924, 0x2f6f7c87, 0x58684c11, 0xc1611dab, 0xb6662d3d,
  0x76dc4190, 0x01db7106, 0x98d220bc, 0xefd5102a, 0x71b18589, 0x06b6b51f, 0x9fbfe4a5, 0xe8b8d433,
  0x7807c9a2, 0x0f00f934, 0x9609a88e, 0xe10e9818, 0x7f6a0dbb, 0x086d3d2d, 0x91646c97, 0xe6635c01,
  0x6b6b51f4, 0x1c6c6162, 0x856530d8, 0xf262004e, 0x6c0695ed, 0x1b01a57b, 0x8208f4c1, 0xf50fc457,
  0x65b0d9c6, 0x12b7e950, 0x8bbeb8ea, 0xfcb9887c, 0x62dd1ddf, 0x15da2d49, 0x8cd37cf3, 0xfbd44c65,
  0x4db26158, 0x3ab551ce, 0xa3bc0074, 0xd4bb30e2, 0x4adfa541, 0x3dd895d7, 0xa4d1c46d, 0xd3d6f4fb,
  0x4369e96a, 0x346ed9fc, 0xad678846, 0xda60b8d0, 0x44042d73, 0x33031de5, 0xaa0a4c5f, 0xdd0d7cc9,
  0x5005713c, 0x270241aa, 0xbe0b1010, 0xc90c2086, 0x5768b525, 0x206f85b3, 0xb966d409, 0xce61e49f,
  0x5edef90e, 0x29d9c998, 0xb0d09822, 0xc7d7a8b4, 0x59b33d17, 0x2eb40d81, 0xb7bd5c3b, 0xc0ba6cad,
  0xedb88320, 0x9abfb3b6, 0x03b6e20c, 0x74b1d29a, 0xead54739, 0x9dd277af, 0x04db2615, 0x73dc1683,
  0xe3630b12, 0x94643b84, 0x0d6d6a3e, 0x7a6a5aa8, 0xe40ecf0b, 0x9309ff9d, 0x0a00ae27, 0x7d079eb1,
  0xf00f9344, 0x8708a3d2, 0x1e01f268, 0x6906c2fe, 0xf762575d, 0x806567cb, 0x196c3671, 0x6e6b06e7,
  0xfed41b76, 0x89d32be0, 0x10da7a5a, 0x67dd4acc, 0xf9b9df6f, 0x8ebeeff9, 0x17b7be43, 0x60b08ed5,
  0xd6d6a3e8, 0xa1d1937e, 0x38d8c2c4, 0x4fdff252, 0xd1bb67f1, 0xa6bc5767, 0x3fb506dd, 0x48b2364b,
  0xd80d2bda, 0xaf0a1b4c, 0x36034af6, 0x41047a60, 0xdf60efc3, 0xa867df55, 0x316e8eef, 0x4669be79,
  0xcb61b38c, 0xbc66831a, 0x256fd2a0, 0x5268e236, 0xcc0c7795, 0xbb0b4703, 0x220216b9, 0x5505262f,
  0xc5ba3bbe, 0xb2bd0b28, 0x2bb45a92, 0x5cb36a04, 0xc2d7ffa7, 0xb5d0cf31, 0x2cd99e8b, 0x5bdeae1d,
  0x9b64c2b0, 0xec63f226, 0x756aa39c, 0x026d930a, 0x9c0906a9, 0xeb0e363f, 0x72076785, 0x05005713,
  0x95bf4a82, 0xe2b87a14, 0x7bb12bae, 0x0cb61b38, 0x92d28e9b, 0xe5d5be0d, 0x7cdcefb7, 0x0bdbdf21,
  0x86d3d2d4, 0xf1d4e242, 0x68ddb3f8, 0x1fda836e, 0x81be16cd, 0xf6b9265b, 0x6fb077e1, 0x18b74777,
  0x88085ae6, 0xff0f6a70, 0x66063bca, 0x11010b5c, 0x8f659eff, 0xf862ae69, 0x616bffd3, 0x166ccf45,
  0xa00ae278, 0xd70dd2ee, 0x4e048354, 0x3903b3c2, 0xa7672661, 0xd06016f7, 0x4969474d, 0x3e6e77db,
  0xaed16a4a, 0xd9d65adc, 0x40df0b66, 0x37d83bf0, 0xa9bcae53, 0xdebb9ec5, 0x47b2cf7f, 0x30b5ffe9,
  0xbdbdf21c, 0xcabac28a, 0x53b39330, 0x24b4a3a6, 0xbad03605, 0xcdd70693, 0x54de5729, 0x23d967bf,
  0xb3667a2e, 0xc4614ab8, 0x5d681b02, 0x2a6f2b94, 0xb40bbe37, 0xc30c8ea1, 0x5a05df1b, 0x2d02ef8d]

/-- The register after one byte. -/
def crcStep (crc : UInt32) (b : UInt8) : UInt32 :=
  crcTable.getD ((crc ^^^ b.toUInt32) &&& 0xff).toNat 0 ^^^ (crc >>> 8)

/-- `DO1`: the register and what is left of the buffer. -/
def DO1 (s : UInt32 × List UInt8) : UInt32 × List UInt8 := (crcStep s.1 (s.2.headD 0), s.2.tail)

def DO2 (s : UInt32 × List UInt8) : UInt32 × List UInt8 := DO1 (DO1 s)

def DO4 (s : UInt32 × List UInt8) : UInt32 × List UInt8 := DO2 (DO2 s)

def DO8 (s : UInt32 × List UInt8) : UInt32 × List UInt8 := DO4 (DO4 s)

/-- The second loop of `crc32`. -/
def crcRest : Nat → UInt32 × List UInt8 → UInt32 × List UInt8
  | 0, s => s
  | len + 1, s => crcRest len (DO1 s)

/-- The first loop of `crc32`, and the second one behind it. -/
def crcLoop : Nat → UInt32 × List UInt8 → UInt32 × List UInt8
  | len + 8, s => crcLoop len (DO8 s)
  | len, s => crcRest len s

def crc32 (crc : UInt32) (buf : List UInt8) (len : Nat) : UInt32 :=
  (crcLoop len (crc ^^^ 0xffffffff, buf)).1 ^^^ 0xffffffff

/-! ## Byte by byte -/

theorem crcRest_eq (len : Nat) (crc : UInt32) (buf : List UInt8) (h : len ≤ buf.length) :
    crcRest len (crc, buf) = ((buf.take len).foldl crcStep crc, buf.drop len) := by
  induction len generalizing crc buf with
  | zero => rfl
  | succ len ih =>
    cases buf with
    | nil => cases h
    | cons b buf => exact ih (crcStep crc b) buf (Nat.le_of_succ_le_succ h)

theorem DO8_eq_crcRest (s : UInt32 × List UInt8) : DO8 s = crcRest 8 s := rfl

theorem crcLoop_eq (len : Nat) (crc : UInt32) (buf : List UInt8) (h : len ≤ buf.length) :
    crcLoop len (crc, buf) = ((buf.take len).foldl crcStep crc, buf.drop len) := by
  induction len using Nat.strongRecOn generalizing crc buf with
  | ind len ih =>
    by_cases hlen : 8 ≤ len
    · obtain ⟨n, rfl⟩ := Nat.exists_eq_add_of_le' hlen
      have hrest : n ≤ (buf.drop 8).length := by
        rw [List.length_drop]
        omega
      rw [crcLoop, DO8_eq_crcRest, crcRest_eq 8 crc buf (by omega), ih n (by omega) _ _ hrest,
        ← List.foldl_append, List.drop_drop, Nat.add_comm n 8, ← List.take_add]
    · rw [crcLoop.eq_2 len _ (by omega)]
      exact crcRest_eq len crc buf h

theorem crc32_eq_foldl (crc : UInt32) (buf : List UInt8) :
    crc32 crc buf buf.length = buf.foldl crcStep (crc ^^^ 0xffffffff) ^^^ 0xffffffff := by
  rw [crc32, crcLoop_eq _ _ _ (Nat.le_refl _), List.take_length]

/-! ## Bit by bit -/

/-- One bit of the reflected CRC-32. -/
def bitStep (crc : UInt32) : UInt32 :=
  if crc &&& 1 = 1 then (crc >>> 1) ^^^ 0xedb88320 else crc >>> 1

def bitSteps : Nat → UInt32 → UInt32
  | 0, crc => crc
  | n + 1, crc => bitSteps n (bitStep crc)

/-- The CRC-32 without a table, inverted before and after. -/
def bitwiseCrc (crc : UInt32) (buf : List UInt8) : UInt32 :=
  buf.foldl (fun crc b => bitSteps 8 (crc ^^^ b.toUInt32)) (crc ^^^ 0xffffffff) ^^^ 0xffffffff

theorem crcTable_eq : crcTable = (List.range 256).map fun i => bitSteps 8 (UInt32.ofNat i) := by
  decide +kernel

theorem crcIndex_lt (w : UInt32) : (w &&& 0xff).toNat < 256 := by
  rw [UInt32.toNat_and]
  exact Nat.lt_of_le_of_lt Nat.and_le_right (by decide)

theorem and_one_eq_iff (x : UInt32) : x &&& 1 = 1 ↔ x.toBitVec.getLsbD 0 = true := by
  rw [← UInt32.toBitVec_inj, UInt32.toBitVec_and]
  constructor
  · intro h
    simpa using congrArg (fun w => w.getLsbD 0) h
  · intro h
    apply BitVec.eq_of_getLsbD_eq
    intro k _
    cases k with
    | zero => simpa using h
    | succ k => simp

/-- The bits move down by one. The polynomial comes in if the one that leaves
was set. -/
theorem bitStep_bit (x : UInt32) (k : Nat) : (bitStep x).toBitVec.getLsbD k =
    (x.toBitVec.getLsbD (1 + k) ^^ (x.toBitVec.getLsbD 0 && (0xedb88320#32).getLsbD k)) := by
  unfold bitStep
  split
  · next h =>
    rw [and_one_eq_iff] at h
    rw [h]
    simp
  · next h =>
    rw [and_one_eq_iff, Bool.not_eq_true] at h
    rw [h]
    simp

theorem bitStep_xor (x : UInt32) {y : UInt32} (hy : y.toBitVec.getLsbD 0 = false) :
    bitStep (x ^^^ y) = bitStep x ^^^ (y >>> 1) := by
  have hlow : (x ^^^ y).toBitVec.getLsbD 0 = x.toBitVec.getLsbD 0 := by
    rw [UInt32.toBitVec_xor, BitVec.getLsbD_xor, hy, Bool.xor_false]
  rw [← UInt32.toBitVec_inj]
  apply BitVec.eq_of_getLsbD_eq
  intro k _
  have hshift : (y >>> 1).toBitVec.getLsbD k = y.toBitVec.getLsbD (1 + k) := by simp
  rw [bitStep_bit, hlow, UInt32.toBitVec_xor, UInt32.toBitVec_xor, BitVec.getLsbD_xor,
    BitVec.getLsbD_xor, bitStep_bit, hshift, Bool.xor_right_comm]

theorem bitSteps_xor (n : Nat) (x : UInt32) {y : UInt32}
    (hy : ∀ k < n, y.toBitVec.getLsbD k = false) :
    bitSteps n (x ^^^ y) = bitSteps n x ^^^ ⟨y.toBitVec >>> n⟩ := by
  induction n generalizing x y with
  | zero => rfl
  | succ n ih =>
    rw [bitSteps, bitStep_xor x (hy 0 (by omega)), ih, bitSteps, Nat.add_comm n,
      BitVec.shiftRight_add]
    · rfl
    · intro k hk
      simpa [Nat.add_comm] using hy (k + 1) (by omega)

theorem bitSteps_eight (w : UInt32) :
    bitSteps 8 w = crcTable.getD (w &&& 0xff).toNat 0 ^^^ (w >>> 8) := by
  have hmask : ∀ k, (255#32).getLsbD k = decide (k < 8) := by
    intro k
    by_cases hk : k < 32
    · exact (by decide : ∀ k < 32, (255#32).getLsbD k = decide (k < 8)) k hk
    · rw [BitVec.getLsbD_of_ge _ _ (by omega), decide_eq_false (by omega)]
  have htable : bitSteps 8 (w &&& 0xff) = crcTable.getD (w &&& 0xff).toNat 0 := by
    rw [crcTable_eq, List.getD_eq_getElem?_getD, List.getElem?_map,
      List.getElem?_range (crcIndex_lt w), Option.map_some, Option.getD_some, UInt32.ofNat_toNat]
  have hrest : (⟨(w ^^^ (w &&& 0xff)).toBitVec >>> 8⟩ : UInt32) = w >>> 8 := by
    rw [← UInt32.toBitVec_inj]
    apply BitVec.eq_of_getLsbD_eq
    intro k _
    have hhigh : (255#32).getLsbD (8 + k) = false := by rw [hmask, decide_eq_false (by omega)]
    simp [hhigh]
  have hw : w = (w &&& 0xff) ^^^ (w ^^^ (w &&& 0xff)) := by
    rw [UInt32.xor_comm w, ← UInt32.xor_assoc, UInt32.xor_self, UInt32.zero_xor]
  conv_lhs => rw [hw]
  rw [bitSteps_xor 8, htable, hrest]
  intro k hk
  simp [hmask, hk]

theorem crcStep_eq_bitSteps (crc : UInt32) (b : UInt8) :
    crcStep crc b = bitSteps 8 (crc ^^^ b.toUInt32) := by
  rw [bitSteps_eight, crcStep]
  congr 1
  rw [← UInt32.toBitVec_inj]
  apply BitVec.eq_of_getLsbD_eq
  intro k _
  simp

/-- **The CRC-32.** The table and the unrolled loop compute what the polynomial
does bit by bit, and the CRC of one buffer after another is that of both. -/
theorem crc32_eq_bitwise (crc : UInt32) (a b : List UInt8) :
    crc32 crc a a.length = bitwiseCrc crc a ∧
      crc32 (crc32 crc a a.length) b b.length = crc32 crc (a ++ b) (a ++ b).length := by
  have hstep : crcStep = fun crc b => bitSteps 8 (crc ^^^ b.toUInt32) :=
    funext fun crc => funext (crcStep_eq_bitSteps crc)
  constructor
  · rw [crc32_eq_foldl, hstep, bitwiseCrc]
  · -- the inversion after the first buffer undoes the one before the second
    rw [crc32_eq_foldl, crc32_eq_foldl crc a, crc32_eq_foldl crc (a ++ b), List.foldl_append,
      UInt32.xor_assoc, UInt32.xor_self, UInt32.xor_zero]

/-! ## Differences are kept -/

theorem bitStep_injective {x y : UInt32} (h : bitStep x = bitStep y) : x = y := by
  have hbits : ∀ k, (x.toBitVec.getLsbD (1 + k) ^^
      (x.toBitVec.getLsbD 0 && (0xedb88320#32).getLsbD k)) =
      (y.toBitVec.getLsbD (1 + k) ^^ (y.toBitVec.getLsbD 0 && (0xedb88320#32).getLsbD k)) := by
    intro k
    rw [← bitStep_bit, ← bitStep_bit, h]
  -- the highest bit of the polynomial tells which bit has left
  have hlow : x.toBitVec.getLsbD 0 = y.toBitVec.getLsbD 0 := by simpa using hbits 31
  rw [← UInt32.toBitVec_inj]
  apply BitVec.eq_of_getLsbD_eq
  intro k _
  cases k with
  | zero => exact hlow
  | succ k =>
    rw [Nat.add_comm]
    exact Bool.xor_left_inj.mp (hlow ▸ hbits k)

theorem bitSteps_injective (n : Nat) {x y : UInt32} (h : bitSteps n x = bitSteps n y) : x = y := by
  induction n generalizing x y with
  | zero => exact h
  | succ n ih => exact bitStep_injective (ih h)

theorem crcStep_injective {crc crc' : UInt32} {b : UInt8} (h : crcStep crc b = crcStep crc' b) :
    crc = crc' := by
  rw [crcStep_eq_bitSteps, crcStep_eq_bitSteps] at h
  exact (UInt32.xor_left_inj _).mp (bitSteps_injective 8 h)

theorem foldl_crcStep_injective {crc crc' : UInt32} (bs : List UInt8)
    (h : bs.foldl crcStep crc = bs.foldl crcStep crc') : crc = crc' := by
  induction bs generalizing crc crc' with
  | nil => exact h
  | cons b bs ih => exact crcStep_injective (ih h)

/-- Buffers with the same end and different registers before it have different
CRCs. -/
theorem crc32_ne_of_prefix {pre pre' : List UInt8} (bs : List UInt8)
    (h : pre.foldl crcStep 0xffffffff ≠ pre'.foldl crcStep 0xffffffff) :
    crc32 0 (pre ++ bs) (pre ++ bs).length ≠ crc32 0 (pre' ++ bs) (pre' ++ bs).length := by
  intro heq
  rw [crc32_eq_foldl, crc32_eq_foldl, UInt32.xor_left_inj, List.foldl_append,
    List.foldl_append] at heq
  exact h (foldl_crcStep_injective bs heq)

end Envm
