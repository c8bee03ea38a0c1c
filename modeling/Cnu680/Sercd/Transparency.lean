import Cnu680.Sercd.Feed

/-! # sercd: data transparency

What `EscWriteChar` writes, `EscRedirectChar` reads back.

The writer stuffs a NUL after a CR, the reader swallows it; each of
them keeps a last byte of its own. The two agree because the last byte
of an encoding is the byte that is encoded, so that after each byte the
reader has last received what the writer has last written
(`receive_escapeChar`).
-/

open Framework

namespace Sercd

/-! ### One byte through both -/

/-- **Simulation step**: from equal last bytes, the encoding of a byte is
read as that byte, and the last bytes are equal again. -/
theorem receive_escapeChar {g : Globals} (hp : g.parser.iacEscape = .IACNormal) (C : UInt8) :
    receive g (escapeChar g.isDo g.parser.last C) =
      .ok ⟨{ g with parser := { g.parser with last := C } }, [C], []⟩ := by
  unfold escapeChar
  split
  · next hC =>
    rw [hC]
    exact receive_iac_iac hp
  · next hC =>
    split
    · next hstuff =>
      -- the stuffed NUL is swallowed, and is the last byte when C comes
      have hkeep : ¬ (g.isDo = false ∧ C = 0x00 ∧ (0x00 : UInt8) = 0x0D) := by
        rintro ⟨-, -, h⟩
        exact absurd h (by decide)
      rw [receive_cons_nothing _ (parse_normal_swallow hp hstuff.2.1 hstuff.2.2)]
      exact receive_data (g := { g with parser := { g.parser with last := 0x00 } }) hp hC hkeep
    · next hplain =>
      have hkeep : ¬ (g.isDo = false ∧ C = 0x00 ∧ g.parser.last = 0x0D) := by
        rintro ⟨hb, rfl, hlast⟩
        exact hplain ⟨by decide, hb, hlast⟩
      exact receive_data hp hC hkeep

theorem receive_escape {g : Globals} (hp : g.parser.iacEscape = .IACNormal) (d : List UInt8) :
    receive g (escape g.isDo g.parser.last d) =
      .ok ⟨{ g with parser := { g.parser with last := d.getLastD g.parser.last } }, d, []⟩ := by
  induction d generalizing g with
  | nil => rfl
  | cons C d ih =>
    have hrest := ih (g := { g with parser := { g.parser with last := C } }) hp
    have h := receive_append_ok (receive_escapeChar hp C) hrest
    rw [List.getLastD_cons]
    exact h

/-! ### The theorem -/

/-- **Data transparency**: from the initial escape state and the initial
parser, with BINARY on or off on both sides, what `EscWriteChar` writes
for any bytes is read by `EscRedirectChar` as exactly those bytes, and
the parser is back in its normal status. -/
theorem data_transparency (w r : Globals) (hw : w.escLast = 0) (hr : r.parser = initialParser)
    (hmode : w.isWill = r.isDo) (d : List (UInt8 × ByteSink)) :
    ∃ w' out, emit w d = .ok (w', out) ∧
      ∀ wire : List (UInt8 × Sinks), wire.map Prod.fst = out →
        ∃ r', feed r wire = .ok r' ∧ r'.toDevice = d.map Prod.fst ∧
          r'.g.parser.iacEscape = .IACNormal := by
  refine ⟨_, _, emit_eq w d, ?_⟩
  intro wire hwire
  have hnormal : r.parser.iacEscape = .IACNormal := by rw [hr]; rfl
  have hlast : r.parser.last = w.escLast := by rw [hw, hr]; rfl
  have h := receive_escape hnormal (d.map Prod.fst)
  rw [← hmode, hlast] at h
  exact ⟨_, by rw [feed_eq, hwire, h], rfl, hnormal⟩

theorem data_transparency_cr_nul_iac :
    ∃ w' out, emit (initialGlobals default)
        ([0x0D, 0x00, 0xFF, 0x0D, 0x0A].map fun C => (C, default)) = .ok (w', out) ∧
      ∀ wire : List (UInt8 × Sinks), wire.map Prod.fst = out →
        ∃ r', feed (initialGlobals default) wire = .ok r' ∧
          r'.toDevice = ([0x0D, 0x00, 0xFF, 0x0D, 0x0A].map fun C => (C, (default : ByteSink))).map
            Prod.fst ∧
          r'.g.parser.iacEscape = .IACNormal :=
  data_transparency (initialGlobals default) (initialGlobals default) rfl rfl rfl _

end Sercd
