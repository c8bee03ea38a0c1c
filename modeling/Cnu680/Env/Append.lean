import Cnu680.Env.Setenv

/-! # The Environment Stays in its Array

What the appending part of `_do_setenv` writes, and what a call of
`setenv` does to an environment.

* `writeEntry_eq`: the new entry and the two NULs behind it, or a byte
  outside of the array.
* `setenv_block`: the outcome of a call.
* `setenv_stays_inside_iff`: exactly when the call leaves a block inside
  of the array. The test for an overflow compares the length of the entry
  with the size of the whole array, not with what is left of it. -/

open Framework List

namespace Envm

/-! ## The text of an entry -/

/-- The arguments, each with its separator before it. -/
def argsText (sep : UInt8) : List (List UInt8) → List UInt8
  | [] => []
  | val :: args => sep :: val ++ argsText 0x20 args

def entryText (name : List UInt8) (args : List (List UInt8)) : List UInt8 :=
  name ++ argsText EQ args

theorem length_argsText (sep : UInt8) (name : List UInt8) (args : List (List UInt8)) :
    entryLen name args = name.length + (argsText sep args).length + 2 := by
  induction args generalizing sep with
  | nil => rfl
  | cons val args ih =>
    rw [entryLen, ih 0x20, argsText, length_append, length_cons]
    omega

theorem entryLen_eq (name : List UInt8) (args : List (List UInt8)) :
    entryLen name args = (entryText name args).length + 2 := by
  rw [length_argsText EQ, entryText, length_append]

section
variable {data : Data} {env : Nat}

theorem write_eq {i : Nat} {b : UInt8} : write data i b =
    if i < dataSize then .ok (overlay data i [b]) else .error .writeOutside := rfl

theorem writeString_eq (s : List UInt8) : writeString data env s =
    if env + s.length < dataSize then .ok (overlay data env (s ++ [0]), env + s.length)
    else .error .writeOutside := by
  induction s generalizing data env with
  | nil =>
    rw [writeString, write_eq, length_nil, Nat.add_zero]
    split_ifs <;> rfl
  | cons b s ih =>
    rw [writeString, write_eq, length_cons]
    by_cases hin : env < dataSize
    · rw [if_pos hin, ok_bind, ih, Nat.add_right_comm, Nat.add_assoc]
      rfl
    · rw [if_neg hin, if_neg (by omega)]
      rfl

theorem writeArgs_eq (sep : UInt8) (t : List UInt8) (args : List (List UInt8))
    (hin : env + t.length < dataSize) :
    writeArgs (overlay data env (t ++ [0])) (env + t.length) sep args =
      if env + (t ++ argsText sep args).length < dataSize then
        .ok (overlay data env (t ++ argsText sep args ++ [0]),
          env + (t ++ argsText sep args).length)
      else .error .writeOutside := by
  induction args generalizing t sep with
  | nil =>
    rw [argsText, append_nil, if_pos hin]
    rfl
  | cons val args ih =>
    have hover : overlay (overlay data env (t ++ [0])) (env + t.length) [sep] =
        overlay data env (t ++ [sep]) := by
      rw [overlay_append, overlay_append]
      exact overlay_update_self
    have hnext : env + t.length + 1 = env + (t ++ [sep]).length := by
      rw [length_append, length_singleton, Nat.add_assoc]
    have htext : t ++ argsText sep (val :: args) = t ++ sep :: val ++ argsText 0x20 args := by
      rw [argsText, append_assoc, cons_append]
    rw [writeArgs, write_eq, if_pos hin, ok_bind, hover, writeString_eq, hnext, ← overlay_append,
      htext]
    by_cases hval : env + (t ++ [sep]).length + val.length < dataSize
    · have hlen : env + (t ++ sep :: val).length < dataSize := by
        simp only [length_append, length_cons, length_nil] at hval ⊢
        omega
      have hend : env + (t ++ [sep]).length + val.length = env + (t ++ sep :: val).length := by
        simp only [length_append, length_cons, length_nil]
        omega
      rw [if_pos hval, ok_bind, hend, show t ++ [sep] ++ (val ++ [0]) = t ++ sep :: val ++ [0] by
        simp]
      exact ih 0x20 (t ++ sep :: val) hlen
    · have hlen : ¬ env + (t ++ sep :: val ++ argsText 0x20 args).length < dataSize := by
        simp only [length_append, length_cons, length_nil] at hval ⊢
        omega
      rw [if_neg hval, if_neg hlen]
      rfl

theorem overlay_nuls (t : List UInt8) :
    overlay (overlay data env (t ++ [0])) (env + t.length + 1) [0] =
      overlay data env (t ++ [0, 0]) := by
  calc overlay (overlay data env (t ++ [0])) (env + t.length + 1) [0]
      = overlay (overlay data env (t ++ [0])) (env + (t ++ [0]).length) [0] := by
        rw [length_append, length_singleton, Nat.add_assoc]
    _ = overlay data env (t ++ [0] ++ [0]) := overlay_append.symm
    _ = overlay data env (t ++ [0, 0]) := by rw [append_assoc, singleton_append]

theorem writeEntry_eq (name : List UInt8) (args : List (List UInt8)) :
    writeEntry data env name args =
      if env + entryLen name args ≤ dataSize then
        .ok (overlay data env (entryText name args ++ [0, 0]))
      else .error .writeOutside := by
  rw [writeEntry, writeString_eq, entryLen_eq, entryText]
  by_cases hname : env + name.length < dataSize
  · rw [if_pos hname, ok_bind]
    dsimp only
    rw [writeArgs_eq EQ name args hname]
    by_cases htext : env + (name ++ argsText EQ args).length < dataSize
    · rw [if_pos htext, ok_bind]
      dsimp only
      rw [write_eq]
      by_cases hin : env + (name ++ argsText EQ args).length + 1 < dataSize
      · rw [if_pos hin, if_pos (by omega), overlay_nuls]
      · rw [if_neg hin, if_neg (by omega)]
    · rw [if_neg htext, if_neg (by omega)]
      rfl
  · rw [length_append, if_neg hname, if_neg (by omega)]
    rfl

end

/-! ## Behind the last entry -/

section
variable {data : Data} {es : List (List UInt8)}

/-- The scan stops at the NUL of the last entry. Without an entry it stops at
the first byte only if the second one is NUL too. -/
theorem appendOffset_block (h : Block data es) (hend : es = [] → data 1 = 0) :
    appendOffset data = .ok (pack 0 es).length := by
  have hfits := h.fits
  have hnul := h.end_eq
  unfold appendOffset
  cases hes : es with
  | nil =>
    subst hes
    have hfirst : firstFrom (fun k => data k = 0 ∧ data (k + 1) = 0) (dataSize - 1) 0 = some 0 := by
      rw [firstFrom_eq_some_iff]
      refine ⟨Nat.le_refl 0, by decide, decide_eq_true ⟨hnul, hend rfl⟩, fun k _ hlt => ?_⟩
      exact absurd hlt (Nat.not_lt_zero k)
    rw [hfirst]
    rfl
  | cons e es' =>
    rw [← hes]
    obtain ⟨hne, -⟩ := h.packable e (hes ▸ mem_cons_self)
    have hsize : 1 < (pack 0 es).length := by
      have := length_pos_iff.mpr hne
      rw [hes, length_pack_cons]
      omega
    have hlast : data ((pack 0 es).length - 1) = 0 := by
      obtain ⟨es₁, e', hsnoc⟩ : ∃ es₁ e', es = es₁ ++ [e'] := by
        have hnil : es ≠ [] := hes ▸ cons_ne_nil _ _
        exact ⟨es.dropLast, es.getLast hnil, (dropLast_concat_getLast hnil).symm⟩
      have hlies := h.lies
      rw [hsnoc, pack_append, pack_cons, pack, append_assoc, append_assoc,
        lies_append_iff, lies_append_iff, cons_append, lies_cons_iff] at hlies
      rw [hsnoc, pack_append, length_append, length_pack_cons]
      simpa [pack] using hlies.2.2.1
    have hfirst : firstFrom (fun k => data k = 0 ∧ data (k + 1) = 0) (dataSize - 1) 0 =
        some ((pack 0 es).length - 1) := by
      rw [firstFrom_eq_some_iff]
      refine ⟨Nat.zero_le _, by omega, decide_eq_true ⟨hlast, ?_⟩, fun k hle hlt => ?_⟩
      · rw [Nat.sub_add_cancel (by omega), hnul]
      · exact decide_eq_false (not_double h.packable (lies_append_iff.mp h.lies).1 hle (by omega))
    rw [hfirst]
    dsimp only
    rw [if_pos (by omega), Nat.sub_add_cancel (by omega)]

theorem appendOffset_pos {off : Nat} (hend : data 1 ≠ 0) (hoff : appendOffset data = .ok off) :
    0 < off := by
  unfold appendOffset at hoff
  cases hfirst : firstFrom (fun k => data k = 0 ∧ data (k + 1) = 0) (dataSize - 1) 0 with
  | none =>
    rw [hfirst] at hoff
    cases hoff
  | some env =>
    rw [hfirst] at hoff
    obtain ⟨-, -, hnuls, -⟩ := firstFrom_eq_some_iff.mp hfirst
    have henv : 0 < env := by
      apply Nat.pos_of_ne_zero
      rintro rfl
      exact hend (decide_eq_true_eq.mp hnuls).2
    dsimp only at hoff
    rw [if_pos henv] at hoff
    have := Except.ok.inj hoff
    omega

theorem Block.append (h : Block data es) {t : List UInt8} (ht : Packable 0 t)
    (hfits : (pack 0 es).length + (t.length + 2) ≤ dataSize) :
    Block (overlay data (pack 0 es).length (t ++ [0, 0])) (es ++ [t]) := by
  have hlies := (lies_append_iff.mp h.lies).1
  have hpack : pack 0 (es ++ [t]) ++ [0] = pack 0 es ++ (t ++ [0, 0]) := by
    rw [pack_append, pack_cons, pack, append_assoc, append_assoc, cons_append, nil_append]
  refine ⟨⟨?_, fun e he => ?_⟩, ?_⟩
  · rw [hpack, lies_append_iff, Nat.zero_add]
    exact ⟨hlies.overlay (.inr (by omega)), lies_overlay⟩
  · rcases mem_append.mp he with hmem | hmem
    · exact h.packable e hmem
    · rw [mem_singleton.mp hmem]
      exact ht
  · have hlen := congrArg List.length hpack
    simp only [length_append, length_cons, length_nil] at hlen ⊢
    omega

end

/-! ## A call on a block -/

/-- An entry of the name is there. -/
def Present (name : List UInt8) (es : List (List UInt8)) : Prop := ∃ e ∈ es, key e = some name

/-- The entries without the first one of the name. -/
def others (name : List UInt8) (es : List (List UInt8)) : List (List UInt8) :=
  es.eraseP fun e => key e = some name

theorem others_of_not_present {name : List UInt8} {es : List (List UInt8)}
    (h : ¬ Present name es) : others name es = es := by
  apply eraseP_of_forall_not
  intro e he
  rw [decide_eq_true_eq]
  exact fun hkey => h ⟨e, he, hkey⟩

theorem others_append {name e : List UInt8} {es₁ es₂ : List (List UInt8)} (hkey : key e = some name)
    (hbefore : ∀ e' ∈ es₁, key e' ≠ some name) : others name (es₁ ++ e :: es₂) = es₁ ++ es₂ := by
  rw [others, eraseP_append_right, eraseP_cons_of_pos (by simpa using hkey)]
  intro e' he'
  simpa using hbefore e' he'

section
variable {b : Board} {es : List (List UInt8)} {name v : List UInt8}

theorem Environment.others {data data' : Data} (h : Environment data es)
    (hblock : Block data' (others name es)) : Environment data' (others name es) :=
  ⟨hblock, fun e he => h.assigned e (mem_of_mem_eraseP he)⟩

theorem deleteFound_block (h : Block b.envData es) (name : List UInt8) :
    ∃ data, deleteFound b.envData (locate name es 0) = .ok data ∧ Block data (others name es) ∧
      (es = [] → data = b.envData) ∧ (es ≠ [] → others name es = [] → data 1 = 0) := by
  cases hlocate : locate name es 0 with
  | none =>
    have hnone : others name es = es := by
      apply others_of_not_present
      rintro ⟨e, he, hkey⟩
      exact locate_eq_none_iff.mp hlocate e he hkey
    rw [hnone]
    exact ⟨b.envData, rfl, h, fun _ => rfl, fun hne hnil => absurd hnil hne⟩
  | some p =>
    obtain ⟨es₁, e, es₂, rfl, hkey, hbefore, rfl⟩ := locate_eq_some_iff.mp hlocate
    obtain ⟨hblock, hend⟩ := h.delete
    rw [others_append hkey hbefore]
    refine ⟨_, ?_, hblock, fun hnil => ?_, fun _ => hend⟩
    · rw [Nat.zero_add]
      exact deleteEntry_eq h rfl
    · simp at hnil

theorem locate_isSome_iff {i : Nat} : (locate name es i).isSome = true ↔ Present name es := by
  rw [← not_iff_not, Bool.not_eq_true, Option.isSome_eq_false_iff, Option.isNone_iff_eq_none,
    locate_eq_none_iff, Present]
  simp only [not_exists, not_and]

theorem setenv_of_doSetenv {x : Except Fault (Int × Board)}
    (h : ∀ args, doSetenv b name args = x) : setenv b name v = x := by
  rw [setenv, h, h, ite_self]

/-- What a call does to a block: a variable that is set once is left alone;
otherwise its entry goes, and a new one is appended if there is a value. -/
theorem setenv_block (h : Block b.envData es) (hhead : ∀ e ∈ es.head?, EQ ∈ e)
    (name v : List UInt8) :
    (setOnce name ∧ Present name es → setenv b name v = .ok (-1, b)) ∧
    (¬ (setOnce name ∧ Present name es) → ∃ data, Block data (others name es) ∧
      (es = [] → data = b.envData) ∧ (es ≠ [] → others name es = [] → data 1 = 0) ∧
      (v = deleteMark → setenv b name v = .ok (0, ({ b with envData := data } : Board).updateCrc)) ∧
      (v ≠ deleteMark → setenv b name v = appendEntry { b with envData := data } name v [])) := by
  have hsearch := search_block name h hhead
  constructor
  · rintro ⟨honce, hpresent⟩
    apply setenv_of_doSetenv
    intro args
    rw [doSetenv, hsearch, ok_bind, if_pos ⟨locate_isSome_iff.mpr hpresent, honce⟩]
  · intro hfree
    have hguard : ¬ ((locate name es 0).isSome = true ∧ setOnce name) := by
      rintro ⟨hsome, honce⟩
      exact hfree ⟨honce, locate_isSome_iff.mp hsome⟩
    obtain ⟨data, hdelete, hblock, hsame, hend⟩ := deleteFound_block h name
    refine ⟨data, hblock, hsame, hend, fun hv => ?_, fun hv => ?_⟩
    · rw [setenv, if_pos hv, doSetenv, hsearch, ok_bind, if_neg hguard, hdelete]
      rfl
    · rw [setenv, if_neg hv, doSetenv, hsearch, ok_bind, if_neg hguard, hdelete]
      rfl

theorem refresh_envData (b : Board) (name s : List UInt8) :
    (b.refresh name s).envData = b.envData := by
  unfold Board.refresh
  split_ifs <;> rfl

/-- Behind the scan: the message, the new entry, or a byte outside. -/
theorem appendEntry_eq (name v : List UInt8) {off : Nat} (hoff : appendOffset b.envData = .ok off) :
    (dataSize < entryLen name [v] → appendEntry b name v [] = .ok (-1, b)) ∧
    (entryLen name [v] ≤ dataSize →
      (off + entryLen name [v] ≤ dataSize → appendEntry b name v [] =
        .ok (0, ({ b with envData := overlay b.envData off (entryText name [v] ++ [0, 0]) } :
          Board).updateCrc.refresh name v)) ∧
      (dataSize < off + entryLen name [v] →
        appendEntry b name v [] = .error .writeOutside)) := by
  refine ⟨fun hover => ?_, fun hlen => ⟨fun hfits => ?_, fun hout => ?_⟩⟩
  · rw [appendEntry, hoff, ok_bind, if_pos hover]
  · rw [appendEntry, hoff, ok_bind, if_neg (by omega), writeEntry_eq, if_pos hfits]
    rfl
  · rw [appendEntry, hoff, ok_bind, if_neg (by omega), writeEntry_eq, if_neg (by omega)]
    rfl

theorem packable_entryText (hname : 0 ∉ name) (hv : 0 ∉ v) : Packable 0 (entryText name [v]) := by
  refine ⟨?_, ?_⟩
  · simp [entryText, argsText]
  · simp [entryText, argsText, hname, hv, EQ]

theorem block_overlay {data : Data} {off : Nat} {t : List UInt8} (h : Block data es)
    (ht : Packable 0 t) (hoff : appendOffset data = .ok off)
    (hfits : off + (t.length + 2) ≤ dataSize) :
    ∃ es', Block (overlay data off (t ++ [0, 0])) es' := by
  by_cases hend : es = [] → data 1 = 0
  · obtain rfl : (pack 0 es).length = off :=
      Except.ok.inj ((appendOffset_block h hend).symm.trans hoff)
    exact ⟨_, h.append ht hfits⟩
  · obtain ⟨rfl, hsecond⟩ := Classical.not_imp.mp hend
    have hpos := appendOffset_pos hsecond hoff
    refine ⟨[], ⟨h.lies.overlay (.inr ?_), h.packable⟩, h.fits⟩
    show 0 + 1 ≤ off
    exact hpos

/-- The call leaves a block inside of the array exactly when it only deletes,
refuses to overwrite, reports the overflow, or finds room behind the
entries that are left. -/
theorem setenv_stays_inside_iff (h : Environment b.envData es) (hname : 0 ∉ name) (hv : 0 ∉ v) :
    (∃ r b' es', setenv b name v = .ok (r, b') ∧ Block b'.envData es') ↔
      v = deleteMark ∨ setOnce name ∧ Present name es ∨
      ∃ off, (if es = [] then appendOffset b.envData
          else .ok (pack 0 (others name es)).length) = .ok off ∧
        (dataSize < name.length + v.length + 3 ∨
          off + (name.length + v.length + 3) ≤ dataSize) := by
  have hlen : entryLen name [v] = name.length + v.length + 3 := by
    simp only [entryLen]
    omega
  rw [← hlen]
  obtain ⟨honce, hfree⟩ := setenv_block h.toBlock h.head name v
  by_cases hguard : setOnce name ∧ Present name es
  · exact iff_of_true ⟨-1, b, es, honce hguard, h.toBlock⟩ (.inr (.inl hguard))
  obtain ⟨data, hleft, hsame, hend, hdelete, happend⟩ := hfree hguard
  by_cases hmark : v = deleteMark
  · exact iff_of_true ⟨0, _, _, hdelete hmark, hleft⟩ (.inl hmark)
  have hoffset : (if es = [] then appendOffset b.envData
      else .ok (pack 0 (others name es)).length) = appendOffset data := by
    by_cases hnil : es = []
    · rw [if_pos hnil, hsame hnil]
    · rw [if_neg hnil, appendOffset_block hleft (hend hnil)]
  rw [happend hmark, hoffset]
  simp only [hmark, hguard, false_or]
  cases hoff : appendOffset data with
  | error fault =>
    have herror : appendEntry { b with envData := data } name v [] = .error fault := by
      rw [appendEntry, hoff]
      rfl
    simp [herror]
  | ok off =>
    obtain ⟨hover, hroom⟩ := appendEntry_eq (b := { b with envData := data }) name v hoff
    by_cases hlong : dataSize < entryLen name [v]
    · exact iff_of_true ⟨-1, _, _, hover hlong, hleft⟩ ⟨off, rfl, .inl hlong⟩
    obtain ⟨hinside, houtside⟩ := hroom (by omega)
    by_cases hfits : off + entryLen name [v] ≤ dataSize
    · obtain ⟨es', hblock⟩ := block_overlay hleft (packable_entryText hname hv) hoff
        (by rwa [entryLen_eq] at hfits)
      refine iff_of_true ⟨0, _, es', hinside hfits, ?_⟩ ⟨off, rfl, .inr hfits⟩
      rw [refresh_envData]
      exact hblock
    · rw [houtside (by omega)]
      refine iff_of_false ?_ ?_
      · rintro ⟨r, b', es', herror, -⟩
        cases herror
      · rintro ⟨off', hsome, hlong' | hfits'⟩
        · exact hlong hlong'
        · obtain rfl := Except.ok.inj hsome
          exact hfits hfits'

/-- Behind `a=1` there is room for `c=3`. -/
theorem setenv_stays_inside_small :
    let b : Board := ⟨0, stored [[0x61, EQ, 0x31]], [], 0, 0⟩
    (∃ r b' es', setenv b [0x63] [0x33] = .ok (r, b') ∧ Block b'.envData es') ↔
      ([0x33] : List UInt8) = deleteMark ∨ setOnce [0x63] ∧ Present [0x63] [[0x61, EQ, 0x31]] ∨
      ∃ off, (if [[0x61, EQ, 0x31]] = [] then appendOffset b.envData
          else .ok (pack 0 (others [0x63] [[0x61, EQ, 0x31]])).length) = .ok off ∧
        (dataSize < 1 + 1 + 3 ∨ off + (1 + 1 + 3) ≤ dataSize) :=
  setenv_stays_inside_iff (environment_stored (by simp [Packable, EQ]) (by decide)) (by decide)
    (by decide)

theorem setenv_full {x : List UInt8} (hz : 0 ∉ x) (heq : EQ ∉ x) (hlen : x.length + 4 = dataSize) :
    Environment (stored [0x61 :: EQ :: x]) [0x61 :: EQ :: x] ∧
      setenv ⟨0, stored [0x61 :: EQ :: x], [], 0, 0⟩ [0x63] [0x33] = .error .writeOutside := by
  have hsize : (pack 0 [0x61 :: EQ :: x]).length = x.length + 3 := by
    rw [length_pack_cons]
    rfl
  have henv : Environment (stored [0x61 :: EQ :: x]) [0x61 :: EQ :: x] := by
    refine environment_stored ?_ (by omega)
    intro e he
    rw [mem_singleton.mp he]
    refine ⟨⟨cons_ne_nil _ _, ?_⟩, by simp⟩
    simp [EQ, hz]
  have hkey : key (0x61 :: EQ :: x) = some [0x61] := key_eq_some_iff.mpr ⟨x, rfl, heq⟩
  have habsent : ¬ Present [0x63] [0x61 :: EQ :: x] := by
    rintro ⟨e, he, hkey'⟩
    rw [mem_singleton.mp he, hkey] at hkey'
    exact absurd hkey' (by decide)
  obtain ⟨data, hdata, -, -, -, happend⟩ := (setenv_block
    (b := ⟨0, stored [0x61 :: EQ :: x], [], 0, 0⟩) henv.toBlock henv.head [0x63] [0x33]).2
    (fun h => habsent h.2)
  rw [others_of_not_present habsent] at hdata
  have hoff := appendOffset_block hdata (fun hnil => absurd hnil (cons_ne_nil _ _))
  refine ⟨henv, (happend (by decide)).trans ?_⟩
  refine ((appendEntry_eq (b := ⟨0, data, [], 0, 0⟩) [0x63] [0x33] hoff).2 (by decide)).2 ?_
  rw [hsize]
  simp only [entryLen, length_cons, length_nil]
  omega

/-- `a=` and 8184 characters fill the array, and the next variable is written
behind it. -/
theorem setenv_leaves_array :
    Environment (stored [0x61 :: EQ :: List.replicate 8184 0x78])
        [0x61 :: EQ :: List.replicate 8184 0x78] ∧
      setenv ⟨0, stored [0x61 :: EQ :: List.replicate 8184 0x78], [], 0, 0⟩ [0x63] [0x33] =
        .error .writeOutside :=
  setenv_full (fun h => absurd (List.eq_of_mem_replicate h) (by decide))
    (fun h => absurd (List.eq_of_mem_replicate h) (by decide))
    (by rw [List.length_replicate]; decide)

end

end Envm
