import Cnu680.Env.Append

/-! # Reading What Was Set

`getenv` after `setenv`. On an environment `getenv` is a search in the
list of entries, so a call of `setenv` is seen as what it does to the list.

* `entryFound`, `valueText`: what stands where `getenv` points.
* `setenv_getenv_iff`: exactly when a successful call is seen by a later
  `getenv` and by no other one. The key of an entry ends at its last `=`,
  so a value with a `=` in it is never found. -/

open Framework List

namespace Envm

/-- The string that begins at an index. -/
def text (data : Data) (p : Nat) : List UInt8 :=
  (List.range (nulFrom data p - p)).map fun k => getEnvChar data (p + k)

/-- The text at the address that `getenv` returns: `=` and the value. -/
def valueText (data : Data) (name : List UInt8) : Except Fault (Option (List UInt8)) :=
  getenv data name >>= fun val => .ok (val.map (text data))

/-- The whole entry that `getenv` found. -/
def entryFound (data : Data) (name : List UInt8) : Except Fault (Option (List UInt8)) :=
  getenv data name >>= fun val => .ok (val.map fun p => text data (p - name.length))

/-! ## On an environment -/

section
variable {data : Data} {es : List (List UInt8)}

theorem text_eq {s : List UInt8} {p : Nat} (hlies : Lies data p (s ++ [0])) (hz : 0 ∉ s)
    (hfits : p + s.length < dataSize) : text data p = s := by
  rw [text, nulFrom_entry hlies hz hfits, Nat.add_sub_cancel_left]
  exact map_getEnvChar (lies_append_iff.mp hlies).1 (by omega)

theorem locate_find (es : List (List UInt8)) (name : List UInt8) :
    (es.find? (fun e => key e = some name) = none ∧ locate name es 0 = none) ∨
    ∃ es₁ e es₂, es = es₁ ++ e :: es₂ ∧ key e = some name ∧
      es.find? (fun e => key e = some name) = some e ∧
      locate name es 0 = some ((pack 0 es₁).length, (pack 0 es₁).length + e.length) := by
  cases hlocate : locate name es 0 with
  | none =>
    refine .inl ⟨?_, rfl⟩
    rw [List.find?_eq_none]
    intro e he
    simpa using locate_eq_none_iff.mp hlocate e he
  | some p =>
    obtain ⟨es₁, e, es₂, rfl, hkey, hbefore, rfl⟩ := locate_eq_some_iff.mp hlocate
    refine .inr ⟨es₁, e, es₂, rfl, hkey, ?_, by rw [Nat.zero_add]⟩
    rw [List.find?_eq_some_iff_append]
    refine ⟨decide_eq_true hkey, es₁, es₂, rfl, fun e' he' => ?_⟩
    simpa using hbefore e' he'

theorem getenv_environment (h : Environment data es) (name : List UInt8) :
    entryFound data name = .ok (es.find? fun e => key e = some name) ∧
      valueText data name =
        .ok ((es.find? fun e => key e = some name).map fun e => e.drop name.length) := by
  unfold entryFound valueText
  rw [getenv_block name h.toBlock h.head]
  rcases locate_find es name with ⟨hfind, hlocate⟩ | ⟨es₁, e, es₂, rfl, hkey, hfind, hlocate⟩
  · rw [hfind, hlocate]
    exact ⟨rfl, rfl⟩
  · rw [hfind, hlocate]
    obtain ⟨v, rfl, hv⟩ := key_eq_some_iff.mp hkey
    obtain ⟨-, hz⟩ := h.packable _ (mem_append_right _ mem_cons_self)
    have hfits := h.fits
    rw [pack_append, length_append, length_pack_cons, length_append] at hfits
    have hlies := (lies_append_iff.mp h.lies).1
    rw [pack_append, lies_append_iff, lies_pack_cons_iff, Nat.zero_add] at hlies
    obtain ⟨-, hbytes, -⟩ := hlies
    have hentry : text data (pack 0 es₁).length = name ++ EQ :: v :=
      text_eq hbytes hz (by rw [length_append]; omega)
    have hvalue : text data ((pack 0 es₁).length + name.length) = EQ :: v := by
      rw [append_assoc, lies_append_iff] at hbytes
      exact text_eq hbytes.2 (fun hmem => hz (mem_append_right _ hmem)) (by omega)
    constructor
    · show Except.ok (some (text data ((pack 0 es₁).length + name.length - name.length))) = _
      rw [Nat.add_sub_cancel, hentry]
    · show Except.ok (some (text data ((pack 0 es₁).length + name.length))) =
        .ok (some ((name ++ EQ :: v).drop name.length))
      rw [hvalue, drop_left]

end

/-! ## The list of entries after a call -/

section
variable {es : List (List UInt8)} {name v other : List UInt8}

theorem find_others (hother : other ≠ name) :
    (others name es).find? (fun e => key e = some other) =
      es.find? fun e => key e = some other := by
  by_cases hpresent : Present name es
  · obtain ⟨e, es₁, es₂, hbefore, hkey, rfl, herase⟩ := exists_of_eraseP
      hpresent.choose_spec.1 (p := fun e => key e = some name)
      (decide_eq_true hpresent.choose_spec.2)
    have hne : key e ≠ some other := by
      intro heq
      rw [decide_eq_true_eq.mp hkey] at heq
      exact hother (Option.some.inj heq).symm
    rw [others, herase, List.find?_append, List.find?_append, List.find?_cons_of_neg]
    simpa using hne
  · rw [others_of_not_present hpresent]

theorem key_entry_iff : key (name ++ EQ :: v) = some name ↔ EQ ∉ v := by
  rw [key_eq_some_iff]
  constructor
  · rintro ⟨v', heq, hv'⟩
    rw [append_cancel_left_eq, List.cons.injEq] at heq
    rw [heq.2]
    exact hv'
  · intro hv
    exact ⟨v, rfl, hv⟩

/-- The new entry is found unless another one of the name stands before it. -/
theorem find_entry_iff :
    (others name es ++ [name ++ EQ :: v]).find? (fun e => key e = some name) =
        some (name ++ EQ :: v) ↔
      EQ ∉ v ∧ ∀ e, (others name es).find? (fun e => key e = some name) = some e →
        e = name ++ EQ :: v := by
  rw [List.find?_append]
  constructor
  · intro hfind
    have hkey : key (name ++ EQ :: v) = some name := by
      rw [← List.find?_append] at hfind
      simpa using List.find?_some hfind
    refine ⟨key_entry_iff.mp hkey, fun e he => ?_⟩
    rw [he] at hfind
    exact Option.some.inj hfind
  · rintro ⟨hv, hsecond⟩
    cases hfind : (others name es).find? (fun e => key e = some name) with
    | some e =>
      rw [hsecond e hfind]
      rfl
    | none =>
      rw [Option.none_or, List.find?_cons_of_pos]
      exact decide_eq_true (key_entry_iff.mpr hv)

theorem find_entry_of_ne (hv : EQ ∉ v) (hother : other ≠ name) :
    (others name es ++ [name ++ EQ :: v]).find? (fun e => key e = some other) =
      es.find? fun e => key e = some other := by
  rw [List.find?_append, List.find?_cons_of_neg, List.find?_nil, Option.or_none, find_others hother]
  rw [decide_eq_true_eq, key_entry_iff.mpr hv]
  exact fun heq => hother (Option.some.inj heq).symm

end

/-! ## A successful call -/

section
variable {b b' : Board} {es : List (List UInt8)} {name v : List UInt8}

theorem entryText_single : entryText name [v] = name ++ EQ :: v := by
  rw [entryText, argsText, argsText, append_nil]

theorem setenv_eq_ok (h : Environment b.envData es) (hmark : v ≠ deleteMark)
    (hset : setenv b name v = .ok (0, b')) :
    ∃ data off, Environment data (others name es) ∧ (es = [] → data = b.envData) ∧
      (es ≠ [] → others name es = [] → data 1 = 0) ∧ appendOffset data = .ok off ∧
      off + ((name ++ EQ :: v).length + 2) ≤ dataSize ∧
      b'.envData = overlay data off (name ++ EQ :: v ++ [0, 0]) := by
  obtain ⟨honce, hfree⟩ := setenv_block h.toBlock h.head name v
  by_cases hguard : setOnce name ∧ Present name es
  · rw [honce hguard] at hset
    cases hset
  obtain ⟨data, hleft, hsame, hend, -, happend⟩ := hfree hguard
  rw [happend hmark] at hset
  cases hoff : appendOffset data with
  | error fault =>
    rw [appendEntry, hoff] at hset
    cases hset
  | ok off =>
    obtain ⟨hover, hroom⟩ := appendEntry_eq (b := { b with envData := data }) name v hoff
    by_cases hlong : dataSize < entryLen name [v]
    · rw [hover hlong] at hset
      cases hset
    obtain ⟨hinside, houtside⟩ := hroom (by omega)
    by_cases hfits : off + entryLen name [v] ≤ dataSize
    · rw [hinside hfits] at hset
      rw [entryLen_eq, entryText_single] at hfits
      refine ⟨data, off, h.others hleft, hsame, hend, hoff, hfits, ?_⟩
      have hboard := congrArg Board.envData (Prod.mk.inj (Except.ok.inj hset)).2
      rw [refresh_envData, entryText_single] at hboard
      exact hboard.symm
    · rw [houtside (by omega)] at hset
      cases hset

/-- The entries after a successful call, if the end of an empty environment was
marked by two NULs. -/
theorem environment_after (h : Environment b.envData es) (hname : 0 ∉ name) (hv : 0 ∉ v)
    (hmark : v ≠ deleteMark) (hset : setenv b name v = .ok (0, b'))
    (hclosed : es = [] → b.envData 1 = 0) :
    Environment b'.envData (others name es ++ [name ++ EQ :: v]) := by
  obtain ⟨data, off, henv, hsame, hend, hoff, hfits, hdata⟩ := setenv_eq_ok h hmark hset
  have hclosed' : others name es = [] → data 1 = 0 := by
    by_cases hnil : es = []
    · rw [hsame hnil]
      exact fun _ => hclosed hnil
    · exact hend hnil
  obtain rfl : (pack 0 (others name es)).length = off :=
    Except.ok.inj ((appendOffset_block henv.toBlock hclosed').symm.trans hoff)
  have hpack : Packable 0 (name ++ EQ :: v) := entryText_single ▸ packable_entryText hname hv
  rw [hdata]
  refine ⟨henv.toBlock.append hpack hfits, fun e he => ?_⟩
  rcases mem_append.mp he with hmem | hmem
  · exact henv.assigned e hmem
  · rw [mem_singleton.mp hmem]
    exact mem_append_right _ mem_cons_self

theorem environment_hidden (h : Environment b.envData []) (hmark : v ≠ deleteMark)
    (hset : setenv b name v = .ok (0, b')) (hsecond : b.envData 1 ≠ 0) :
    Environment b'.envData [] := by
  obtain ⟨data, off, henv, hsame, -, hoff, -, hdata⟩ := setenv_eq_ok h hmark hset
  rw [← hsame rfl] at hsecond
  have hpos := appendOffset_pos hsecond hoff
  rw [hdata]
  refine ⟨⟨⟨henv.lies.overlay (.inr ?_), henv.packable⟩, henv.fits⟩, henv.assigned⟩
  show 0 + 1 ≤ off
  exact hpos

/-- After a call that returned 0, `getenv` finds the new entry and everything
else as before exactly when the value has no `=`, no second entry of the
name stands before the new one, and the end of an empty environment was
marked by two NULs. -/
theorem setenv_getenv_iff (h : Environment b.envData es) (hname : 0 ∉ name) (hv : 0 ∉ v)
    (hmark : v ≠ deleteMark) (hset : setenv b name v = .ok (0, b')) :
    (entryFound b'.envData name = .ok (some (name ++ EQ :: v)) ∧
      ∀ other, other ≠ name → valueText b'.envData other = valueText b.envData other) ↔
    EQ ∉ v ∧
      (∀ e, (others name es).find? (fun e => key e = some name) = some e →
        e = name ++ EQ :: v) ∧
      (es = [] → b.envData 1 = 0) := by
  by_cases hclosed : es = [] → b.envData 1 = 0
  · have hafter := environment_after h hname hv hmark hset hclosed
    rw [(getenv_environment hafter name).1, Except.ok.injEq, find_entry_iff]
    constructor
    · rintro ⟨⟨hv', hsecond⟩, -⟩
      exact ⟨hv', hsecond, hclosed⟩
    · rintro ⟨hv', hsecond, -⟩
      refine ⟨⟨hv', hsecond⟩, fun other hother => ?_⟩
      rw [(getenv_environment hafter other).2, (getenv_environment h other).2,
        find_entry_of_ne hv' hother]
  · refine iff_of_false ?_ (fun hcond => hclosed hcond.2.2)
    obtain ⟨rfl, hsecond⟩ := Classical.not_imp.mp hclosed
    have hafter := environment_hidden h hmark hset hsecond
    rintro ⟨hfound, -⟩
    rw [(getenv_environment hafter name).1] at hfound
    cases hfound

theorem setenv_ok (h : Environment b.envData es) (hfree : ¬ setOnce name) (hmark : v ≠ deleteMark)
    (hclosed : es = [] → b.envData 1 = 0)
    (hfits : (pack 0 (others name es)).length + (name.length + v.length + 3) ≤ dataSize) :
    ∃ b', setenv b name v = .ok (0, b') := by
  obtain ⟨data, hleft, hsame, hend, -, happend⟩ := (setenv_block h.toBlock h.head name v).2
    (fun hboth => hfree hboth.1)
  have hoff := appendOffset_block hleft fun hnil => by
    by_cases hempty : es = []
    · rw [hsame hempty]
      exact hclosed hempty
    · exact hend hempty hnil
  have hentry : entryLen name [v] = name.length + v.length + 3 := by
    simp only [entryLen]
    omega
  have hwrite := ((appendEntry_eq (b := { b with envData := data }) name v hoff).2 (by omega)).1
    (by omega)
  exact ⟨_, (happend hmark).trans hwrite⟩

/-- `a=1` and `b=2`: `a` is set to `3`, and `b` stays. -/
theorem setenv_getenv_plain :
    ∃ b', setenv ⟨0, stored [[0x61, EQ, 0x31], [0x62, EQ, 0x32]], [], 0, 0⟩ [0x61] [0x33] =
        .ok (0, b') ∧
      entryFound b'.envData [0x61] = .ok (some ([0x61] ++ EQ :: [0x33])) ∧
      ∀ other, other ≠ [0x61] → valueText b'.envData other =
        valueText (stored [[0x61, EQ, 0x31], [0x62, EQ, 0x32]]) other := by
  have henv : Environment (stored [[0x61, EQ, 0x31], [0x62, EQ, 0x32]])
      [[0x61, EQ, 0x31], [0x62, EQ, 0x32]] :=
    environment_stored (by simp [Packable, EQ]) (by decide)
  obtain ⟨b', hset⟩ := @setenv_ok ⟨0, _, [], 0, 0⟩ _ [0x61] [0x33] henv (by decide) (by decide)
    (by simp) (by decide)
  refine ⟨b', hset, (setenv_getenv_iff henv (by decide) (by decide) (by decide) hset).mpr
    ⟨by decide, fun e he => ?_, by simp⟩⟩
  have hnone : (others [0x61] [[0x61, EQ, 0x31], [0x62, EQ, 0x32]]).find?
      (fun e => key e = some [0x61]) = none := by decide
  cases hnone.symm.trans he

/-- `a` is set to `b=c`: the call returns 0, and `a` is not there. -/
theorem setenv_loses_value :
    ∃ b', setenv ⟨0, stored [], [], 0, 0⟩ [0x61] [0x62, EQ, 0x63] = .ok (0, b') ∧
      entryFound b'.envData [0x61] = .ok none := by
  have henv : Environment (stored []) [] := environment_stored (by simp) (by decide)
  obtain ⟨b', hset⟩ := @setenv_ok ⟨0, stored [], [], 0, 0⟩ [] [0x61] [0x62, EQ, 0x63] henv
    (by decide) (by decide) (fun _ => rfl) (by decide)
  have hafter := environment_after henv (by decide) (by decide) (by decide) hset (fun _ => rfl)
  exact ⟨b', hset, (getenv_environment hafter [0x61]).1⟩

end

end Envm
