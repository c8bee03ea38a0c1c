import Cnu680.Framework.Words
import Cnu680.Serial.Uart

/-! # Line Settings

`change_speed` writes the line settings of the control register field by
field, most of them by setting bits that nothing clears again. Whether the
register says what the last setting asked for therefore depends on the
settings before it: the main theorem says on which. -/

open Framework

namespace Serial

/-! ### The fields -/

/-- The fields of the control register that a `termios` denotes. -/
structure Line where
  wordLength : UInt32
  stop : UInt32
  parity : UInt32
  hardwareFlow : UInt32
  softwareFlow : UInt32
  deriving DecidableEq, Repr

/-- The fields of a control register. -/
def lineOf (cr : UInt32) : Line where
  wordLength := cr &&& U_WL
  stop := cr &&& U_STB
  parity := cr &&& U_PMD
  hardwareFlow := cr &&& U_HFEN
  softwareFlow := cr &&& U_SFEN

def CharSize.wordLength : CharSize → UInt32
  | .cs5 => 0
  | .cs6 => U_WL6
  | .cs7 => U_WL7
  | .cs8 => U_WL8

def Termios.stop (t : Termios) : UInt32 := if t.cflag &&& CSTOPB ≠ 0 then U_STB else 0

def Termios.parity (t : Termios) : UInt32 :=
  if t.cflag &&& PARENB ≠ 0 then
    if t.cflag &&& PARODD = 0 then U_EVEN_PMD else U_ODD_PMD
  else 0

def Termios.hardware (t : Termios) : UInt32 := if t.cflag &&& CRTSCTS ≠ 0 then U_HFEN else 0

/-- Software flow control is asked for in `c_iflag`. -/
def Termios.asksSoftwareFlow (t : Termios) : Bool := t.iflag &&& (IXON ||| IXOFF) ≠ 0

/-- What a setting denotes by itself. -/
def Termios.line (t : Termios) : Line where
  wordLength := t.size.wordLength
  stop := t.stop
  parity := t.parity
  hardwareFlow := t.hardware
  softwareFlow := if t.asksSoftwareFlow then U_SFEN else 0

/-- The bits that say how the transmitter and the receiver are served. -/
def MODES : UInt32 := U_TMODE ||| U_RMODE

/-! ### What one setting does to each field -/

section

variable (t : Termios) (cr : UInt32)

theorem setStop_eq : setStop t cr = cr ||| t.stop := by
  unfold setStop Termios.stop
  split <;> simp

theorem setParity_eq : setParity t cr = cr ||| t.parity := by
  unfold setParity Termios.parity
  split
  · split <;> rfl
  · simp

/-- With the flow control come the outputs it starts from. -/
def Termios.hardwareBits (t : Termios) : UInt32 :=
  if t.cflag &&& CRTSCTS ≠ 0 then U_HFEN ||| U_DTR ||| U_RTS else 0

theorem setHardwareFlow_eq : setHardwareFlow t cr = cr ||| t.hardwareBits := by
  unfold setHardwareFlow Termios.hardwareBits
  split <;> simp

/-- What `change_speed` sets for software flow control. -/
def Termios.software (t : Termios) : UInt32 := if t.softwareFlow then U_SFEN else 0

theorem setSoftwareFlow_eq : setSoftwareFlow t cr = cr ||| t.software := by
  unfold setSoftwareFlow Termios.software
  split <;> simp

/-- The bits that are set for a setting, apart from the word length. -/
def Termios.bits (t : Termios) : UInt32 :=
  t.stop ||| (t.parity ||| (t.hardwareBits ||| t.software))

theorem controlOf_eq : controlOf t cr = setSize t cr ||| t.bits := by
  unfold controlOf Termios.bits
  rw [setSoftwareFlow_eq, setHardwareFlow_eq, setParity_eq, setStop_eq]
  simp only [UInt32.or_assoc]

theorem stop_cases : t.stop = U_STB ∨ t.stop = 0 := by
  unfold Termios.stop
  split <;> simp

theorem parity_cases : t.parity = U_EVEN_PMD ∨ t.parity = U_ODD_PMD ∨ t.parity = 0 := by
  unfold Termios.parity
  split
  · split <;> simp
  · simp

theorem hardware_cases :
    (t.hardware = U_HFEN ∧ t.hardwareBits = U_HFEN ||| U_DTR ||| U_RTS) ∨
      (t.hardware = 0 ∧ t.hardwareBits = 0) := by
  unfold Termios.hardware Termios.hardwareBits
  split <;> simp

theorem software_cases : t.software = U_SFEN ∨ t.software = 0 := by
  unfold Termios.software
  split <;> simp

theorem bits_fields :
    t.bits &&& U_WL = 0 ∧ t.bits &&& U_STB = t.stop ∧ t.bits &&& U_PMD = t.parity ∧
      t.bits &&& U_HFEN = t.hardware ∧ t.bits &&& U_SFEN = t.software ∧
      t.bits &&& MODES = 0 := by
  unfold Termios.bits
  rcases stop_cases t with h₁ | h₁ <;> rcases parity_cases t with h₂ | h₂ | h₂ <;>
    rcases hardware_cases t with ⟨h₃, h₄⟩ | ⟨h₃, h₄⟩ <;> rcases software_cases t with h₅ | h₅ <;>
    rw [h₁, h₂, h₃, h₄, h₅] <;> decide

theorem setSize_wordLength :
    setSize t cr &&& U_WL =
      if t.size = .cs5 then 0 else cr &&& U_WL ||| t.size.wordLength := by
  unfold setSize
  cases t.size with
  | cs5 =>
    dsimp only
    rw [if_pos rfl, UInt32.and_assoc]
    exact UInt32.and_zero
  | cs6 | cs7 | cs8 => exact or_field _ _ _

theorem setSize_field {m : UInt32} (hmask : U_WL5 &&& m = m) (hbits : U_WL &&& m = 0) :
    setSize t cr &&& m = cr &&& m := by
  have hword : ∀ w, w &&& U_WL = w → (cr ||| w) &&& m = cr &&& m := by
    intro w hw
    have hzero : w &&& m = 0 := by rw [← hw, UInt32.and_assoc, hbits, UInt32.and_zero]
    rw [or_field, hzero, UInt32.or_zero]
  unfold setSize
  cases t.size with
  | cs5 => exact (UInt32.and_assoc _ _ _).trans (by rw [hmask])
  | cs6 | cs7 | cs8 => exact hword _ (by decide)

theorem controlOf_wordLength :
    controlOf t cr &&& U_WL =
      if t.size == .cs5 then 0 else cr &&& U_WL ||| t.size.wordLength := by
  rw [controlOf_eq, or_field, (bits_fields t).1, UInt32.or_zero, setSize_wordLength]
  simp only [beq_iff_eq]

theorem controlOf_field {m : UInt32} (hmask : U_WL5 &&& m = m) (hbits : U_WL &&& m = 0) :
    controlOf t cr &&& m = cr &&& m ||| t.bits &&& m := by
  rw [controlOf_eq, or_field, setSize_field t cr hmask hbits]

theorem controlOf_stop : controlOf t cr &&& U_STB = cr &&& U_STB ||| t.stop := by
  rw [controlOf_field t cr (by decide) (by decide), (bits_fields t).2.1]

theorem controlOf_parity : controlOf t cr &&& U_PMD = cr &&& U_PMD ||| t.parity := by
  rw [controlOf_field t cr (by decide) (by decide), (bits_fields t).2.2.1]

theorem controlOf_hardware : controlOf t cr &&& U_HFEN = cr &&& U_HFEN ||| t.hardware := by
  rw [controlOf_field t cr (by decide) (by decide), (bits_fields t).2.2.2.1]

theorem controlOf_software : controlOf t cr &&& U_SFEN = cr &&& U_SFEN ||| t.software := by
  rw [controlOf_field t cr (by decide) (by decide), (bits_fields t).2.2.2.2.1]

theorem controlOf_modes : controlOf t cr &&& MODES = cr &&& MODES := by
  rw [controlOf_field t cr (by decide) (by decide), (bits_fields t).2.2.2.2.2, UInt32.or_zero]

end

/-! ### Runs of settings -/

@[simp] theorem changeSpeed_cr (u : Usart) (t : Termios) :
    (u.changeSpeed t).cr = controlOf t u.cr := by
  unfold Usart.changeSpeed Usart.rxStart Usart.txStart Usart.rxStop Usart.txStop
  dsimp only
  split <;> split <;> rfl

theorem foldl_changeSpeed_cr (u : Usart) (ts : List Termios) :
    (ts.foldl Usart.changeSpeed u).cr = ts.foldl (fun cr t => controlOf t cr) u.cr := by
  induction ts generalizing u with
  | nil => rfl
  | cons t ts ih => rw [List.foldl_cons, List.foldl_cons, ih, changeSpeed_cr]

theorem startupControl_line (fifo : Bool) (t : Termios) :
    lineOf (startupControl fifo t) = ⟨0, 0, 0, 0, 0⟩ := by
  unfold startupControl
  split
  · cases fifo <;> decide
  · rfl

/-- The control register after `startup` and the settings that follow it:
that of the settings from the first on, applied to what `startup` sets. -/
theorem startup_cr (u : Usart) (fifo : Bool) (t : Termios) (ts : List Termios) :
    (ts.foldl Usart.changeSpeed (u.startup fifo t)).cr =
      (t :: ts).foldl (fun cr t => controlOf t cr) (startupControl fifo t) := by
  rw [foldl_changeSpeed_cr]
  unfold Usart.startup
  rw [changeSpeed_cr, List.foldl_cons]

theorem foldl_controlOf_modes (ts : List Termios) (cr : UInt32) :
    ts.foldl (fun cr t => controlOf t cr) cr &&& MODES = cr &&& MODES := by
  induction ts generalizing cr with
  | nil => rfl
  | cons t ts ih => rw [List.foldl_cons, ih, controlOf_modes]

/-- The settings since the last five-bit one, the last first. -/
def sinceFive (ts : List Termios) : List Termios := since (fun t => t.size == .cs5) ts

/-- What the settings must be for the register to say what the last of them,
`t`, denotes. -/
structure Settles (t : Termios) (ts : List Termios) : Prop where
  /-- No length since the last five-bit setting has a bit that the last has not. -/
  wordLength : ∀ e ∈ sinceFive ts, Within e.size.wordLength t.size.wordLength
  /-- No setting asked for a second stop bit that the last does not ask for. -/
  stop : ∀ e ∈ ts, Within e.stop t.stop
  parity : ∀ e ∈ ts, Within e.parity t.parity
  hardwareFlow : ∀ e ∈ ts, Within e.hardware t.hardware
  /-- Some setting had a bit of `IXON | IXOFF` in `c_cflag` just if the last
      has one in `c_iflag`. -/
  softwareFlow : ts.any Termios.softwareFlow = t.asksSoftwareFlow

section

variable {cr : UInt32} {ts : List Termios} {t : Termios}

theorem wordLength_eq_iff (hcr : cr &&& U_WL = 0) (ts : List Termios) (t : Termios) :
    (ts ++ [t]).foldl (fun cr t => controlOf t cr) cr &&& U_WL = t.size.wordLength ↔
      ∀ e ∈ sinceFive (ts ++ [t]), Within e.size.wordLength t.size.wordLength := by
  rw [foldl_field (fun cr t => controlOf_wordLength t cr) hcr]
  show union ((sinceFive (ts ++ [t])).map _) = _ ↔ _
  have hsince : sinceFive (ts ++ [t]) = if t.size == .cs5 then [] else t :: sinceFive ts :=
    since_concat ts t
  by_cases hsize : t.size = .cs5
  · -- Nothing counts but the last, which clears the length.
    rw [hsince, hsize]
    simp [CharSize.wordLength]
  · have hmem : t ∈ sinceFive (ts ++ [t]) := by simp [hsince, hsize]
    rw [union_eq_iff (List.mem_map_of_mem hmem), List.forall_mem_map]

theorem software_eq_iff (hcr : cr &&& U_SFEN = 0) (ts : List Termios) (t : Termios) :
    ts.foldl (fun cr t => controlOf t cr) cr &&& U_SFEN = t.line.softwareFlow ↔
      ts.any Termios.softwareFlow = t.asksSoftwareFlow := by
  have hset : U_SFEN ≠ 0 := by decide
  rw [foldl_field_eq (fun cr t => controlOf_software t cr), hcr, UInt32.zero_or]
  show union (ts.map fun t => if t.softwareFlow then U_SFEN else 0) =
    (if t.asksSoftwareFlow then U_SFEN else 0) ↔ _
  rw [union_map_ite]
  cases ts.any Termios.softwareFlow <;> cases t.asksSoftwareFlow <;> simp [hset, hset.symm]

theorem line_eq_iff (hcr : lineOf cr = ⟨0, 0, 0, 0, 0⟩) (ts : List Termios) (t : Termios) :
    lineOf ((ts ++ [t]).foldl (fun cr t => controlOf t cr) cr) = t.line ↔
      Settles t (ts ++ [t]) := by
  obtain ⟨hlength, hstop, hparity, hhardware, hsoftware⟩ :
      cr &&& U_WL = 0 ∧ cr &&& U_STB = 0 ∧ cr &&& U_PMD = 0 ∧ cr &&& U_HFEN = 0 ∧
        cr &&& U_SFEN = 0 := by
    simpa only [lineOf, Line.mk.injEq] using hcr
  have hmem : t ∈ ts ++ [t] := List.mem_concat_self
  have hlength' := wordLength_eq_iff hlength ts t
  have hstop' := foldl_field_eq_iff (fun cr t => controlOf_stop t cr) hstop hmem
  have hparity' := foldl_field_eq_iff (fun cr t => controlOf_parity t cr) hparity hmem
  have hhardware' := foldl_field_eq_iff (fun cr t => controlOf_hardware t cr) hhardware hmem
  have hsoftware' := software_eq_iff hsoftware (ts ++ [t]) t
  constructor
  · intro h
    unfold lineOf Termios.line at h
    rw [Line.mk.injEq] at h
    obtain ⟨h₁, h₂, h₃, h₄, h₅⟩ := h
    exact ⟨hlength'.mp h₁, hstop'.mp h₂, hparity'.mp h₃, hhardware'.mp h₄, hsoftware'.mp h₅⟩
  · intro h
    unfold lineOf
    rw [hlength'.mpr h.wordLength, hstop'.mpr h.stop, hparity'.mpr h.parity,
      hhardware'.mpr h.hardwareFlow, hsoftware'.mpr h.softwareFlow]
    rfl

end

/-- From what `startup` sets, whatever settings are then applied, the
interrupt modes stay as they are, and the line settings are those of the
last setting alone iff the settings settle. -/
theorem line_settings_iff (u : Usart) (fifo : Bool) (t : Termios) (ts : List Termios) :
    let v := ts.foldl Usart.changeSpeed (u.startup fifo t)
    let last := (t :: ts).getLast (List.cons_ne_nil t ts)
    v.cr &&& MODES = startupControl fifo t &&& MODES ∧
      (lineOf v.cr = last.line ↔ Settles last (t :: ts)) := by
  intro v last
  have hcr : v.cr = (t :: ts).foldl (fun cr t => controlOf t cr) (startupControl fifo t) :=
    startup_cr u fifo t ts
  have hlast : (t :: ts).dropLast ++ [last] = t :: ts :=
    List.dropLast_concat_getLast (List.cons_ne_nil t ts)
  rw [hcr]
  constructor
  · exact foldl_controlOf_modes _ _
  · rw [← hlast]
    exact line_eq_iff (startupControl_line fifo t) _ last

/-- An eight-bit line that is set to seven bits stays at eight, and `IXON` in
`c_iflag` does not turn software flow control on. -/
theorem line_settings_kept :
    let u : Usart := ⟨0, 0, 0, 0, false, true⟩
    let eight : Termios := ⟨0, CS8 ||| 0xd, 0x11, 0x13⟩
    let seven : Termios := ⟨0, CS7 ||| 0xd, 0x11, 0x13⟩
    let flow : Termios := ⟨IXON, CS8 ||| 0xd, 0x11, 0x13⟩
    (lineOf ([seven].foldl Usart.changeSpeed (u.startup true eight)).cr).wordLength = U_WL8 ∧
      seven.line.wordLength = U_WL7 ∧
      (lineOf (u.startup true flow).cr).softwareFlow = 0 ∧ flow.line.softwareFlow = U_SFEN := by
  decide

end Serial
