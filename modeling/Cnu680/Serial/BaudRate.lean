import Mathlib.Data.Nat.Bitwise
import Cnu680.Framework.Rounding
import Cnu680.Serial.Uart

/-! # Baud Rates

`change_speed` looks the rate of a line up in a table, by the speed bits
of `c_cflag`, and computes the divisor for it. -/

open Framework

namespace Serial

/-! ### The speed bits -/

def CBAUDEX : UInt32 := 0x1000

/-- `B0` to `B4000000`, each with the rate that it denotes. -/
def speeds : List (UInt32 × Nat) :=
  [(0x0000, 0), (0x0001, 50), (0x0002, 75), (0x0003, 110), (0x0004, 134), (0x0005, 150),
    (0x0006, 200), (0x0007, 300), (0x0008, 600), (0x0009, 1200), (0x000a, 1800),
    (0x000b, 2400), (0x000c, 4800), (0x000d, 9600), (0x000e, 19200), (0x000f, 38400),
    (0x1001, 57600), (0x1002, 115200), (0x1003, 230400), (0x1004, 460800),
    (0x1005, 500000), (0x1006, 576000), (0x1007, 921600), (0x1008, 1000000),
    (0x1009, 1152000), (0x100a, 1500000), (0x100b, 2000000), (0x100c, 2500000),
    (0x100d, 3000000), (0x100e, 3500000), (0x100f, 4000000)]

/-- The rate that the speed bits denote. `CBAUDEX` alone denotes none. -/
def rateOf (cflag : UInt32) : Option Nat := speeds.lookup (cflag &&& CBAUD)

/-! ### The computation -/

inductive SpeedError where
  /-- The index is past the end of the table. -/
  | outside
  | divByZero
  deriving DecidableEq, Repr

/-- The rates of `baud_table`, with the sentinel at its end. -/
def baudTable : List Int :=
  [0, 50, 75, 110, 134, 150, 200, 300, 600, 1200, 1800, 2400, 4800, 9600, 19200, 38400,
    57600, 115200, 230400, 460800, 500000, 576000, 921600, 1000000, -1]

def tableIndex (cflag : UInt32) : Nat :=
  let index := cflag &&& CBAUD
  if index &&& CBAUDEX ≠ 0 then ((index &&& ~~~CBAUDEX) + (CBAUD &&& ~~~CBAUDEX)).toNat
  else index.toNat

/-- `UART_CLOCK`. -/
def uartClock (armClk : UInt32) : UInt32 := armClk / 32

def calcCD (armClk br : UInt32) : Except SpeedError UInt32 :=
  if br = 0 then .error .divByZero
  else .ok (((uartClock armClk + br / 2) / br - 1) <<< 4)

/-- What `change_speed` writes to `brgr`. -/
def speedRegister (armClk cflag : UInt32) : Except SpeedError UInt32 :=
  match baudTable[tableIndex cflag]? with
  | none => .error .outside
  | some rate => calcCD armClk (UInt32.ofInt rate)

/-- The line is set to the rate that its speed bits denote: with an index of a
rate, without a division by zero, and with a divisor that is nearest to
the quotient of clock and rate. -/
def SetsRate (armClk cflag : UInt32) : Prop :=
  tableIndex cflag < baudTable.length - 1 ∧
    ∃ rate, rateOf cflag = some rate ∧ ∃ d : Nat, 1 ≤ d ∧
      Nearest d (uartClock armClk).toNat rate ∧
      speedRegister armClk cflag = .ok (UInt32.ofNat (d - 1) <<< 4)

/-! ### The index -/

/-- The values of the speed bits. -/
def speedBits : List UInt32 :=
  (List.range 16).map UInt32.ofNat ++ (List.range 16).map fun k => UInt32.ofNat (0x1000 + k)

theorem and_cbaud_mem (cflag : UInt32) : cflag &&& CBAUD ∈ speedBits := by
  -- the mask is one bit, and four bits at the low end
  have hnat : (cflag &&& CBAUD).toNat =
      (cflag.toNat.testBit 12).toNat * 2 ^ 12 ||| cflag.toNat % 2 ^ 4 := by
    have hmask : CBAUD.toNat = 2 ^ 12 ||| (2 ^ 4 - 1) := by decide
    rw [UInt32.toNat_and, hmask, Nat.and_or_distrib_left, Nat.and_two_pow,
      Nat.and_two_pow_sub_one_eq_mod]
  have hlow : cflag.toNat % 2 ^ 4 < 16 := Nat.mod_lt _ (by decide)
  have hvalue : ∀ high : Bool, ∀ low < 16,
      UInt32.ofNat (high.toNat * 2 ^ 12 ||| low) ∈ speedBits := by decide
  have hmem := hvalue (cflag.toNat.testBit 12) _ hlow
  rwa [← hnat, UInt32.ofNat_toNat] at hmem

/-- For the speeds up to `B1000000`, `B0` apart, the entry of the table is the
rate that the bits denote. For the others there is no rate in the table. -/
theorem table_spec :
    speedBits.all (fun bits => match rateOf bits with
      | none => true
      | some rate =>
        if 0 < rate ∧ rate ≤ 1000000 then
          tableIndex bits < baudTable.length - 1 ∧ baudTable[tableIndex bits]? = some (rate : Int)
        else baudTable.length - 1 ≤ tableIndex bits ∨ baudTable[tableIndex bits]? = some 0) =
      true := by
  decide

section
variable {cflag : UInt32} {rate : Nat}

theorem rateOf_and_cbaud (cflag : UInt32) : rateOf (cflag &&& CBAUD) = rateOf cflag := by
  unfold rateOf
  rw [UInt32.and_assoc, UInt32.and_self]

theorem tableIndex_and_cbaud (cflag : UInt32) :
    tableIndex (cflag &&& CBAUD) = tableIndex cflag := by
  unfold tableIndex
  rw [UInt32.and_assoc, UInt32.and_self]

theorem table_of_supported (hrate : rateOf cflag = some rate) (hpos : 0 < rate)
    (hle : rate ≤ 1000000) :
    tableIndex cflag < baudTable.length - 1 ∧
      baudTable[tableIndex cflag]? = some (rate : Int) := by
  have h := List.all_eq_true.mp table_spec _ (and_cbaud_mem cflag)
  simpa [rateOf_and_cbaud, tableIndex_and_cbaud, hrate, hpos, hle] using h

theorem table_of_unsupported (hrate : rateOf cflag = some rate)
    (h : ¬ (0 < rate ∧ rate ≤ 1000000)) :
    baudTable.length - 1 ≤ tableIndex cflag ∨ baudTable[tableIndex cflag]? = some 0 := by
  have hall := List.all_eq_true.mp table_spec _ (and_cbaud_mem cflag)
  rw [rateOf_and_cbaud, hrate, tableIndex_and_cbaud] at hall
  simpa only [if_neg h, decide_eq_true_eq] using hall

end

/-! ### The divisor -/

theorem ofInt_natCast (n : Nat) : UInt32.ofInt n = UInt32.ofNat n := by
  apply UInt32.toNat.inj
  simp only [UInt32.ofInt, UInt32.toNat_ofNat']
  omega

theorem sub_one_eq {a : UInt32} (h : 1 ≤ a.toNat) : a - 1 = UInt32.ofNat (a.toNat - 1) := by
  have hle : (1 : UInt32) ≤ a := UInt32.le_iff_toNat_le.mpr h
  apply UInt32.toNat.inj
  rw [UInt32.toNat_sub_of_le _ _ hle, UInt32.toNat_ofNat_of_lt']
  · rfl
  · exact Nat.lt_of_le_of_lt (Nat.sub_le _ _) a.toNat_lt

theorem calcCD_eq {armClk : UInt32} {rate : Nat} (hpos : 0 < rate) (hle : rate ≤ 1000000)
    (hclk : rate ≤ 2 * (uartClock armClk).toNat) :
    calcCD armClk (UInt32.ofNat rate) =
      .ok (UInt32.ofNat (roundDiv (uartClock armClk).toNat rate - 1) <<< 4) := by
  have hrate : (UInt32.ofNat rate).toNat = rate :=
    UInt32.toNat_ofNat_of_lt' (Nat.lt_of_le_of_lt hle (by decide))
  have hne : UInt32.ofNat rate ≠ 0 := by
    intro h
    have hzero := congrArg UInt32.toNat h
    rw [hrate] at hzero
    exact absurd hzero (by simpa using hpos.ne')
  have hclock : (uartClock armClk).toNat < 2 ^ 27 := by
    have := armClk.toNat_lt
    simp only [uartClock, UInt32.toNat_div, UInt32.reduceToNat]
    omega
  have hround := one_le_roundDiv hpos hclk
  have hquot : ((uartClock armClk + UInt32.ofNat rate / 2) / UInt32.ofNat rate).toNat =
      roundDiv (uartClock armClk).toNat rate := by
    have hsum : (uartClock armClk + UInt32.ofNat rate / 2).toNat =
        (uartClock armClk).toNat + rate / 2 := by
      rw [UInt32.toNat_add, UInt32.toNat_div, hrate]
      exact Nat.mod_eq_of_lt (by simp only [UInt32.reduceToNat]; omega)
    rw [UInt32.toNat_div, hsum, hrate]
    rfl
  unfold calcCD
  rw [if_neg hne, sub_one_eq (hquot ▸ hround), hquot]

/-- For every value of `c_cflag` and every clock, `change_speed` sets the rate
that the speed bits denote iff they denote one from 50 to 1000000 and the
clock is at least half of it. -/
theorem sets_rate_iff (armClk cflag : UInt32) :
    SetsRate armClk cflag ↔ ∃ rate, rateOf cflag = some rate ∧ 0 < rate ∧ rate ≤ 1000000 ∧
      rate ≤ 2 * (uartClock armClk).toNat := by
  constructor
  · rintro ⟨hindex, rate, hrate, d, hd, hnearest, hreg⟩
    have hsupported : 0 < rate ∧ rate ≤ 1000000 := by
      by_contra hnot
      rcases table_of_unsupported hrate hnot with hout | hzero
      · omega
      · -- `B0` divides by zero
        unfold speedRegister at hreg
        rw [hzero] at hreg
        cases hreg
    exact ⟨rate, hrate, hsupported.1, hsupported.2,
      hnearest.le_two_mul hsupported.1 (by exact_mod_cast hd)⟩
  · rintro ⟨rate, hrate, hpos, hle, hclk⟩
    obtain ⟨hindex, hentry⟩ := table_of_supported hrate hpos hle
    refine ⟨hindex, rate, hrate, _, one_le_roundDiv hpos hclk, nearest_roundDiv hpos, ?_⟩
    unfold speedRegister
    rw [hentry]
    dsimp only
    rw [ofInt_natCast, calcCD_eq hpos hle hclk]

/-- With a system clock of 133 MHz: the entry for `B1152000` is the sentinel,
which gives a divisor of 0 for a quotient of 3.6; there is no entry for
`B1500000`; and `B0` divides by zero. -/
theorem speed_not_set :
    (rateOf (CS8 ||| 0x1009) = some 1152000 ∧ baudTable[tableIndex (CS8 ||| 0x1009)]? = some (-1) ∧
      speedRegister 133000000 (CS8 ||| 0x1009) = .ok 0xfffffff0) ∧
      speedRegister 133000000 (CS8 ||| 0x100a) = .error .outside ∧
      speedRegister 133000000 CS8 = .error .divByZero := by
  decide

end Serial
