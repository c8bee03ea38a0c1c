import Mathlib.Data.List.TakeWhile
import Cnu680.Sercd.Frames

/-! # sercd: the signature of a client

A client may send its signature, which `HandleCPCCommand` copies to
`SigStr[]` to log it:

`strncpy(SigStr, (char *) &Command[4], MAX(CSize - 6, sizeof(SigStr) - 1))`

The larger of the two lengths is taken where the smaller was meant. So 254
bytes are copied whatever has been received, or what is in front of a NUL.
`Command` is `IACCommand[]`, which ends in the IAC SE of the command and
behind that holds what earlier commands have left, or lies behind the array.

`Handover.Carries.string` says what is copied. The text of the client is
always followed by IAC SE, and the copy never ends in front of `CSize`.
-/

open Framework

namespace Sercd

/-! ### `strncpy` -/

/-- The bytes in front of the first NUL, of the `n` bytes at an address. -/
def textAt (src : Nat → UInt8) (n : Nat) : List UInt8 :=
  ((List.range n).map src).takeWhile (· ≠ 0)

/-- `strncpy(dst, src, n)`: the rest of the `n` bytes is set to NUL. -/
def strncpy (dst : List UInt8) (src : Nat → UInt8) (n : Nat) : Except Fault (List UInt8) :=
  if n ≤ dst.length then
    .ok (textAt src n ++ List.replicate (n - (textAt src n).length) 0 ++ dst.drop n)
  else .error .outOfBounds

/-- The number of bytes that `strncpy` reads: the NUL is one of them. -/
def strncpyReads (src : Nat → UInt8) (n : Nat) : Nat := min n ((textAt src n).length + 1)

/-- The string in an array, if it ends there. -/
def cString (array : List UInt8) : Option (List UInt8) :=
  if 0 ∈ array then some (array.takeWhile (· ≠ 0)) else none

/-! ### The calls of `HandleIACCommand` -/

/-- A call of `HandleIACCommand`, with the state it is made in. -/
structure Handover where
  g : Globals
  cmd : Command
  CSize : Nat

def Action.handovers (g : Globals) : Action → List Handover
  | .handle cmd CSize => [⟨g, cmd, CSize⟩]
  | _ => []

/-- The calls that `EscRedirectChar` makes for a stream of bytes. -/
def handovers : Globals → List UInt8 → Except Fault (List Handover)
  | _, [] => .ok []
  | g, C :: rest => do
    let (p, a) ← parse g.isDo g.parser C
    let cs ← handovers (a.after { g with parser := p }) rest
    return a.handovers { g with parser := p } ++ cs

/-- What the copy finds in memory: `SigStr[]` as it is before, and the bytes
behind `IACCommand[]`. -/
structure Stack where
  sigStr : Vector UInt8 255
  behind : Nat → UInt8

namespace Handover
variable (m : Stack) (c : Handover)

/-- `Command[i]`, also behind the array. -/
def byte (i : Nat) : UInt8 :=
  if h : i < TmpStrLen then c.cmd.get ⟨i, h⟩ else m.behind (i - TmpStrLen)

/-- `MAX(CSize - 6, sizeof(SigStr) - 1)`; a signature has at least 6 bytes. -/
def length : Nat := max (c.CSize - 6) (255 - 1)

/-- The call is that of a client signature: the COM-PORT option has been agreed
on, and the signature is not void. -/
def IsClientSignature : Prop :=
  c.cmd.verb = TNSB ∧
    ((c.g.tnstate c.cmd.option).is_will ∨ (c.g.tnstate c.cmd.option).is_do) ∧
    c.cmd.option = TNCOM_PORT_OPTION ∧ c.cmd.parm = TNCAS_SIGNATURE ∧ c.CSize ≠ 6

instance : Decidable c.IsClientSignature := inferInstanceAs (Decidable (_ ∧ _))

/-- `SigStr[]` after the copy. -/
def clientSignature : Option (Except Fault (List UInt8)) :=
  if c.IsClientSignature then
    some (strncpy m.sigStr.toList (fun i => c.byte m (4 + i)) c.length)
  else none

/-- The places of `Command` that the copy reads. -/
def reads : List Nat :=
  (List.range (strncpyReads (fun i => c.byte m (4 + i)) c.length)).map (4 + ·)

end Handover

/-! ### The call for a signature -/

/-- A signature as a client sends it. -/
def signatureFrame (s : List UInt8) : List UInt8 :=
  [TNIAC, TNSB, TNCOM_PORT_OPTION, TNCAS_SIGNATURE] ++ doubled s ++ [TNIAC, TNSE]

theorem handovers_nil_of_commands {a : Action} (h : a.commands = []) (g : Globals) :
    a.handovers g = [] := by
  cases a with
  | nothing => rfl
  | toDevice C => rfl
  | handle cmd CSize => cases h

theorem handovers_of_receive {g : Globals} {bs : List UInt8} {r : Fed} (h : receive g bs = .ok r)
    (hnone : r.commands = []) (rest : List UInt8) :
    handovers g (bs ++ rest) = handovers r.g rest := by
  induction bs generalizing g r with
  | nil =>
    cases h
    rfl
  | cons C bs ih =>
    obtain ⟨⟨p, a⟩, hparse, h⟩ := bind_eq_ok.mp h
    obtain ⟨r', hr', h⟩ := bind_eq_ok.mp h
    cases h
    obtain ⟨ha, hr⟩ := List.append_eq_nil_iff.mp hnone
    rw [List.cons_append, handovers, hparse, ok_bind]
    dsimp only
    rw [ih hr' hr, handovers_nil_of_commands ha]
    cases handovers r'.g rest <;> rfl

theorem handovers_complete {g : Globals} {C : UInt8} {p : Parser} {cmd : Command} {CSize : Nat}
    (h : parse g.isDo g.parser C = .ok (p, .handle cmd CSize)) :
    handovers g [C] = .ok [⟨{ g with parser := p }, cmd, CSize⟩] := by
  rw [handovers, h]
  rfl

/-- A signature that fits into `IACCommand[]` is handed over whole, in front of
whatever else is there. -/
theorem handovers_signature {g : Globals} (hp : g.parser.iacEscape = .IACNormal) {s : List UInt8}
    (hs : s.length ≤ 249) :
    ∃ c, handovers g (signatureFrame s) = .ok [c] ∧ c.CSize = s.length + 6 ∧
      c.g.tnstate = g.tnstate ∧
      c.cmd.toList.take c.CSize =
        [TNIAC, TNSB, TNCOM_PORT_OPTION, TNCAS_SIGNATURE] ++ s ++ [TNIAC, TNSE] := by
  have hl : IsSignature [TNIAC, TNSB, TNCOM_PORT_OPTION, TNCAS_SIGNATURE] := ⟨rfl, rfl⟩
  have htext := (staysIn_sub₄ hp TNCOM_PORT_OPTION TNCAS_SIGNATURE).signature_text hl s
  obtain ⟨p, hrec, hholds, hsig⟩ := htext.signature_iac (hl.append s)
  have hbyte := parseByte_signature g.isDo hholds (hl.append s) TNSE
  simp only [parseSignature, hsig, if_neg (show TNSE ≠ TNIAC by decide)] at hbyte
  have hq : ((p.storeIfRoom TNIAC).storeIfRoom TNSE).Holds
      ([TNIAC, TNSB, TNCOM_PORT_OPTION, TNCAS_SIGNATURE] ++ s ++ [TNIAC, TNSE]) := by
    simpa using (hholds.storeIfRoom TNIAC).storeIfRoom TNSE
  have hframe : signatureFrame s =
      [TNIAC, TNSB, TNCOM_PORT_OPTION, TNCAS_SIGNATURE] ++ doubled s ++ [TNIAC] ++ [TNSE] := by
    simp [signatureFrame]
  have hlast := handovers_complete (g := { g with parser := p }) (parse_of_byte hbyte)
  have hhanded := (handovers_of_receive hrec rfl [TNSE]).trans hlast
  rw [← hframe] at hhanded
  refine ⟨_, hhanded, ?_, rfl, ?_⟩
  · show ((p.storeIfRoom TNIAC).storeIfRoom TNSE).iacPos = _
    rw [hq.pos]
    simp [TmpStrLen]
    omega
  · show ((p.storeIfRoom TNIAC).storeIfRoom TNSE).iacCommand.toList.take
      ((p.storeIfRoom TNIAC).storeIfRoom TNSE).iacPos = _
    rw [hq.stored]
    apply List.take_of_length_le
    simp [TmpStrLen]
    omega

/-! ### What is copied -/

theorem textAt_of_text {src : Nat → UInt8} {n : Nat} {l : List UInt8} (hn : l.length ≤ n)
    (hl : ∀ (i : Nat) (h : i < l.length), src i = l[i]) (hnul : 0 ∉ l) :
    textAt src n = l ++ textAt (fun i => src (l.length + i)) (n - l.length) := by
  have hsplit : (List.range n).map src =
      l ++ (List.range (n - l.length)).map fun i => src (l.length + i) := by
    have hfirst : (List.range l.length).map src = l := by
      apply List.ext_getElem
      · simp
      · intro i hi _
        simp only [List.length_map, List.length_range] at hi
        simp [hl i hi]
    rw [show n = l.length + (n - l.length) by omega, List.range_add, List.map_append, hfirst,
      List.map_map, Nat.add_sub_cancel_left]
    rfl
  unfold textAt
  rw [hsplit]
  apply List.takeWhile_append_of_pos
  intro b hb
  simp only [decide_eq_true_eq]
  rintro rfl
  exact hnul hb

section
variable {m : Stack} {c : Handover} {s : List UInt8}

/-- The signature `s` has been received, in front of whatever else is there. -/
structure Handover.Carries (c : Handover) (s : List UInt8) : Prop where
  size : c.CSize = s.length + 6
  room : s.length ≤ 249
  cmd : c.cmd.toList.take c.CSize =
    [TNIAC, TNSB, TNCOM_PORT_OPTION, TNCAS_SIGNATURE] ++ s ++ [TNIAC, TNSE]
  agreed : (c.g.tnstate TNCOM_PORT_OPTION).is_will ∨ (c.g.tnstate TNCOM_PORT_OPTION).is_do

theorem Handover.Carries.get (h : c.Carries s) {i : Nat} (hi : i < c.CSize) (hT : i < TmpStrLen) :
    some (c.cmd.get ⟨i, hT⟩) =
      ([TNIAC, TNSB, TNCOM_PORT_OPTION, TNCAS_SIGNATURE] ++ s ++ [TNIAC, TNSE])[i]? := by
  rw [← h.cmd, List.getElem?_take_of_lt hi]
  simp [hT]
  rfl

theorem Handover.Carries.isClientSignature (h : c.Carries s) (hs : 1 ≤ s.length) :
    c.IsClientSignature := by
  have hsize := h.size
  have h1 : c.cmd.verb = TNSB := Option.some.inj (h.get (i := 1) (by omega) (by decide))
  have h2 : c.cmd.option = TNCOM_PORT_OPTION :=
    Option.some.inj (h.get (i := 2) (by omega) (by decide))
  have h3 : c.cmd.parm = TNCAS_SIGNATURE := Option.some.inj (h.get (i := 3) (by omega) (by decide))
  refine ⟨h1, ?_, h2, h3, by omega⟩
  rw [h2]
  exact h.agreed

/-- What lies behind the command, up to a NUL. -/
def Handover.residue (m : Stack) (c : Handover) : List UInt8 :=
  textAt (fun i => c.byte m (c.CSize + i)) (258 - c.CSize)

/-- **What is copied**: the text of the client, IAC SE, and what lies behind
the command. -/
theorem Handover.Carries.text (h : c.Carries s) (hnul : 0 ∉ s) :
    textAt (fun i => c.byte m (4 + i)) c.length = s ++ [TNIAC, TNSE] ++ c.residue m := by
  have hsize := h.size
  have hroom := h.room
  have hlength : c.length = 254 := by
    unfold Handover.length
    omega
  have hbytes : ∀ (i : Nat) (hi : i < (s ++ [TNIAC, TNSE]).length),
      c.byte m (4 + i) = (s ++ [TNIAC, TNSE])[i] := by
    intro i hi
    have hi' : i < s.length + 2 := by simpa using hi
    have hT : 4 + i < TmpStrLen := by
      simp only [TmpStrLen]
      omega
    have hget := h.get (i := 4 + i) (by omega) hT
    rw [List.append_assoc, List.getElem?_append_right (by simp)] at hget
    simp only [List.length_cons, List.length_nil, Nat.zero_add, Nat.reduceAdd,
      Nat.add_sub_cancel_left, List.getElem?_eq_getElem hi, Option.some.injEq] at hget
    rw [Handover.byte, dif_pos hT, hget]
  have hnul' : 0 ∉ s ++ [TNIAC, TNSE] := by
    intro h0
    rcases List.mem_append.mp h0 with h0 | h0
    · exact hnul h0
    · exact absurd h0 (by decide)
  rw [hlength, textAt_of_text (by simp; omega) hbytes hnul']
  unfold Handover.residue
  congr 2
  · funext i
    congr 1
    simp
    omega
  · simp
    omega

/-- `SigStr[]` after the copy: its last byte is never written. -/
theorem Handover.Carries.clientSignature (h : c.Carries s) (hs : 1 ≤ s.length) (hnul : 0 ∉ s) :
    c.clientSignature m = some (.ok (s ++ [TNIAC, TNSE] ++ c.residue m ++
      List.replicate (254 - (s ++ [TNIAC, TNSE] ++ c.residue m).length) 0 ++
      m.sigStr.toList.drop 254)) := by
  have hsize := h.size
  have hroom := h.room
  have hlength : c.length = 254 := by
    unfold Handover.length
    omega
  unfold Handover.clientSignature strncpy
  rw [if_pos (h.isClientSignature hs), if_pos (by simp [hlength]), h.text hnul, hlength]

theorem zero_notMem_textAt (src : Nat → UInt8) (n : Nat) : 0 ∉ textAt src n := by
  intro h
  have hne := List.mem_takeWhile_imp h
  simp at hne

theorem cString_append {l : List UInt8} (h : 0 ∉ l) (rest : List UInt8) :
    cString (l ++ rest) = (cString rest).map (l ++ ·) := by
  have hpos : ∀ b ∈ l, decide (b ≠ 0) = true := by
    intro b hb
    simp only [decide_eq_true_eq]
    rintro rfl
    exact h hb
  unfold cString
  rw [List.takeWhile_append_of_pos hpos]
  by_cases hrest : 0 ∈ rest
  · rw [if_pos (List.mem_append_right _ hrest), if_pos hrest]
    rfl
  · rw [if_neg (fun hmem => (List.mem_append.mp hmem).elim h hrest), if_neg hrest]
    rfl

/-- **The string that is built**, where the array has a NUL at all. -/
theorem Handover.Carries.string (h : c.Carries s) (hs : 1 ≤ s.length) (hnul : 0 ∉ s) :
    ∃ array, c.clientSignature m = some (.ok array) ∧
      cString array =
        if s.length + 2 + (c.residue m).length < 254 ∨ 0 ∈ m.sigStr.toList.drop 254 then
          some (s ++ [TNIAC, TNSE] ++ c.residue m)
        else none := by
  obtain ⟨x, hx⟩ : ∃ x, m.sigStr.toList.drop 254 = [x] := List.length_eq_one_iff.mp (by simp)
  have hL : 0 ∉ s ++ [TNIAC, TNSE] ++ c.residue m := by
    rw [← h.text hnul]
    exact zero_notMem_textAt _ _
  refine ⟨_, h.clientSignature hs hnul, ?_⟩
  rw [List.append_assoc _ (List.replicate _ _), cString_append hL, hx]
  have hlen : (s ++ [TNIAC, TNSE] ++ c.residue m).length =
      s.length + 2 + (c.residue m).length := by
    simp only [List.length_append, List.length_cons, List.length_nil]
  rw [hlen]
  cases hk : 254 - (s.length + 2 + (c.residue m).length) with
  | zero =>
    -- no room for a NUL: the last byte decides
    by_cases h0 : x = 0
    · rw [if_pos (by simp [h0]), h0]
      simp [cString]
    · rw [if_neg (by simp [Ne.symm h0]; omega)]
      simp [cString, Ne.symm h0]
  | succ k =>
    rw [if_pos (by omega)]
    simp [cString, List.replicate_succ]

end

/-! ### The signature of a client -/

/-- The string in `SigStr[]` is the signature, and ends in the array. -/
def Handover.Exact (m : Stack) (s : List UInt8) (c : Handover) : Prop :=
  ∃ array, c.clientSignature m = some (.ok array) ∧ cString array = some s

/-- No byte of `Command` at or behind `CSize` is read. -/
def Handover.StaysInside (m : Stack) (c : Handover) : Prop := ∀ i ∈ c.reads m, i < c.CSize

theorem Handover.Carries.not_exact {m : Stack} {c : Handover} {s : List UInt8} (h : c.Carries s)
    (hs : 1 ≤ s.length) (hnul : 0 ∉ s) : ¬ c.Exact m s := by
  rintro ⟨array, harray, hstring⟩
  obtain ⟨array', harray', hstring'⟩ := h.string (m := m) hs hnul
  obtain rfl : array = array' := by
    rw [harray'] at harray
    cases harray
    rfl
  rw [hstring'] at hstring
  split at hstring
  · have hlen := congrArg List.length (Option.some.inj hstring)
    simp only [List.length_append, List.length_cons, List.length_nil] at hlen
    omega
  · cases hstring

theorem Handover.Carries.not_staysInside {m : Stack} {c : Handover} {s : List UInt8}
    (h : c.Carries s) (hnul : 0 ∉ s) : ¬ c.StaysInside m := by
  intro hin
  have hroom := h.room
  have hsize := h.size
  have hread : s.length + 2 < strncpyReads (fun i => c.byte m (4 + i)) c.length := by
    unfold strncpyReads
    rw [h.text hnul]
    unfold Handover.length
    simp only [List.length_append, List.length_cons, List.length_nil]
    omega
  have hlt := hin (4 + (s.length + 2)) (List.mem_map_of_mem (List.mem_range.mpr hread))
  omega

/-- **No signature is extracted.** Whatever commands have been received before,
and whatever is in memory: the string that is built is not the signature of
the client, and bytes behind the command are read. -/
theorem client_signature_never_extracted (m : Stack) (g : Globals)
    (hp : g.parser.iacEscape = .IACNormal)
    (hagreed : (g.tnstate TNCOM_PORT_OPTION).is_will ∨ (g.tnstate TNCOM_PORT_OPTION).is_do)
    (s : List UInt8) (hs : 1 ≤ s.length) (hroom : s.length ≤ 249) (hnul : 0 ∉ s) :
    ∃ c, handovers g (signatureFrame s) = .ok [c] ∧ ¬ c.Exact m s ∧ ¬ c.StaysInside m := by
  obtain ⟨c, hhanded, hsize, htn, hcmd⟩ := handovers_signature hp hroom
  have hcarries : c.Carries s := ⟨hsize, hroom, hcmd, by rw [htn]; exact hagreed⟩
  exact ⟨c, hhanded, hcarries.not_exact hs hnul, hcarries.not_staysInside hnul⟩

/-- The COM-PORT option has just been agreed on. -/
def agreedGlobals : Globals :=
  (initialGlobals default).setTn TNCOM_PORT_OPTION fun _ => { is_do := true }

/-- Memory of which nothing has been used. -/
def clearStack : Stack := ⟨Vector.replicate 255 0, fun _ => 0⟩

theorem client_signature_never_extracted_a :
    ∃ c, handovers agreedGlobals (signatureFrame [0x61]) = .ok [c] ∧ ¬ c.Exact clearStack [0x61] ∧
      ¬ c.StaysInside clearStack :=
  client_signature_never_extracted clearStack agreedGlobals rfl (.inr rfl) [0x61] (by decide)
    (by decide) (by decide)

/-- The string that each call builds. -/
def stringsBuilt (m : Stack) (g : Globals) (bs : List UInt8) :
    Except Fault (List (Option (List UInt8))) :=
  (handovers g bs).map fun cs => cs.map fun c =>
    match c.clientSignature m with
    | some (.ok array) => cString array
    | _ => none

/-- Of the signature `e`, received after `abcd`, the string that is built is
`e` IAC SE `d` IAC SE. -/
theorem client_signature_residue :
    stringsBuilt clearStack agreedGlobals
        (signatureFrame [0x61, 0x62, 0x63, 0x64] ++ signatureFrame [0x65]) =
      .ok [some [0x61, 0x62, 0x63, 0x64, TNIAC, TNSE],
        some [0x65, TNIAC, TNSE, 0x64, TNIAC, TNSE]] := by
  decide +kernel

end Sercd
