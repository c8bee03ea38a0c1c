import Cnu680.Env.Append

/-! # Any Contents

`getenv` and `setenv` on an array that nobody has checked: an erased
flash, entries without a `=`, no end. Whatever it holds, it is a row of
entries with an empty one behind it (`Block`) or with bytes up to the end
of the array (`Open`).

* `getenv_ok_iff`: `getenv` reads through `get_env_char` and never leaves
  the array, but without a `=` in the first entry `envmatch` searches
  backwards for ever.
* `contents_safe_iff`: exactly when both calls come back and read nothing
  outside. -/

open Framework List

namespace Envm

/-- The first entry has a `=`. -/
def Marked (data : Data) : Prop := ∃ j < dataSize, data j = EQ ∧ ∀ k ≤ j, data k ≠ 0

/-- Two NULs follow each other inside the array. -/
def DoubleNul (data : Data) : Prop := ∃ k, k + 1 < dataSize ∧ data k = 0 ∧ data (k + 1) = 0

/-- An entry of the name, with its NUL, stands behind others in the array. -/
def Found (name : List UInt8) (data : Data) : Prop :=
  ∃ es e, Lies data 0 (pack 0 (es ++ [e])) ∧ (∀ e' ∈ es ++ [e], Packable 0 e') ∧
    (pack 0 (es ++ [e])).length ≤ dataSize ∧ key e = some name

/-- The array begins with entries, and the last one has no NUL. -/
structure Open (data : Data) (es : List (List UInt8)) : Prop where
  lies : Lies data 0 (pack 0 es)
  packable : ∀ e ∈ es, Packable 0 e
  fits : (pack 0 es).length ≤ dataSize
  rest : ∀ j, (pack 0 es).length ≤ j → j < dataSize → data j ≠ 0

theorem block_or_open (data : Data) : ∃ es, Block data es ∨ Open data es := by
  obtain ⟨es, hpack, hlies, hfits, hend⟩ := exists_pack data 0 (Nat.zero_le dataSize)
  rw [Nat.zero_add] at hfits hend
  refine ⟨es, ?_⟩
  rcases hend with ⟨hlt, hnul⟩ | hrest
  · refine .inl ⟨⟨lies_append_iff.mpr ⟨hlies, ?_⟩, hpack⟩, hlt⟩
    rw [Nat.zero_add]
    exact lies_cons_iff.mpr ⟨hnul, lies_nil⟩
  · exact .inr ⟨hlies, hpack, hfits, hrest⟩

section
variable {data : Data} {es : List (List UInt8)} {name : List UInt8}

/-! ## getenv -/

theorem le_nulFrom (data : Data) (i : Nat) : i ≤ nulFrom data i := by
  unfold nulFrom
  cases hfirst : firstFrom (fun j => data j = 0) (dataSize - i) i with
  | none => exact Nat.le_max_left _ _
  | some k => exact (firstFrom_eq_some_iff.mp hfirst).1

theorem envmatch_ok_iff (name : List UInt8) (i : Nat) :
    (∃ r, envmatch data name i = .ok r) ↔ ∃ j ≤ nulFrom data i, getEnvChar data j = EQ := by
  unfold envmatch
  cases hlast : lastBelow (fun j => getEnvChar data j = EQ) (nulFrom data i + 1) with
  | none =>
    rw [lastBelow_eq_none_iff] at hlast
    refine iff_of_false (by simp) ?_
    rintro ⟨j, hj, heq⟩
    exact of_decide_eq_false (hlast j (by omega)) heq
  | some p =>
    obtain ⟨hlt, heq, -⟩ := lastBelow_eq_some_iff.mp hlast
    refine iff_of_true ?_ ⟨p, by omega, of_decide_eq_true heq⟩
    dsimp only
    split_ifs <;> exact ⟨_, rfl⟩

theorem getenvLoop_ok (fuel : Nat) {i j : Nat} (hj : j < i) (heq : getEnvChar data j = EQ) :
    ∃ r, getenvLoop data name fuel i = .ok r := by
  induction fuel generalizing i with
  | zero => exact ⟨_, rfl⟩
  | succ fuel ih =>
    have hle := le_nulFrom data i
    rw [getenvLoop]
    split_ifs
    · exact ⟨_, rfl⟩
    · obtain ⟨r, hmatch⟩ := (envmatch_ok_iff name i).mpr ⟨j, by omega, heq⟩
      rw [hmatch, ok_bind]
      cases r with
      | some val => exact ⟨_, rfl⟩
      | none => exact ih (by omega)

theorem lt_nulFrom_iff {j : Nat} (hj : j < dataSize) :
    j < nulFrom data 0 ↔ ∀ k ≤ j, data k ≠ 0 := by
  unfold nulFrom
  cases hfirst : firstFrom (fun j => data j = 0) (dataSize - 0) 0 with
  | none =>
    rw [firstFrom_eq_none_iff] at hfirst
    refine iff_of_true (Nat.lt_of_lt_of_le hj (Nat.le_max_right _ _)) fun k hk => ?_
    exact of_decide_eq_false (hfirst k (Nat.zero_le k) (by omega))
  | some n =>
    obtain ⟨-, -, hnul, hbefore⟩ := firstFrom_eq_some_iff.mp hfirst
    show j < n ↔ _
    constructor
    · intro hlt k hk
      exact of_decide_eq_false (hbefore k (Nat.zero_le k) (by omega))
    · intro hall
      by_contra hge
      exact hall n (by omega) (of_decide_eq_true hnul)

theorem marked_iff : Marked data ↔ ∃ j ≤ nulFrom data 0, getEnvChar data j = EQ := by
  constructor
  · rintro ⟨j, hj, heq, hall⟩
    refine ⟨j, Nat.le_of_lt ((lt_nulFrom_iff hj).mpr hall), ?_⟩
    rw [getEnvChar_of_lt hj, heq]
  · rintro ⟨j, hle, heq⟩
    have hj : j < dataSize := by
      by_contra hge
      rw [getEnvChar, if_neg hge] at heq
      exact absurd heq (by decide)
    rw [getEnvChar_of_lt hj] at heq
    refine ⟨j, hj, heq, fun k hk => ?_⟩
    by_cases hkj : k = j
    · rw [hkj, heq]
      decide
    · exact (lt_nulFrom_iff (by omega : k < dataSize)).mp (by omega) k (Nat.le_refl k)

theorem dataSize_succ : dataSize = dataSize - 1 + 1 := by decide

theorem getenv_ok_iff (data : Data) (name : List UInt8) :
    (∃ r, getenv data name = .ok r) ↔ data 0 = 0 ∨ Marked data := by
  rw [getenv, dataSize_succ, getenvLoop, getEnvChar_of_lt (by decide)]
  by_cases hfirst : data 0 = 0
  · rw [if_pos hfirst]
    exact iff_of_true ⟨_, rfl⟩ (.inl hfirst)
  rw [if_neg hfirst, or_iff_right hfirst]
  constructor
  · rintro ⟨r, hr⟩
    obtain ⟨r', hmatch, -⟩ := bind_eq_ok.mp hr
    exact marked_iff.mpr ((envmatch_ok_iff name 0).mp ⟨r', hmatch⟩)
  · intro hmarked
    obtain ⟨r, hmatch⟩ := (envmatch_ok_iff name 0).mpr (marked_iff.mp hmarked)
    obtain ⟨j, hle, heq⟩ := marked_iff.mp hmarked
    rw [hmatch, ok_bind]
    cases r with
    | some val => exact ⟨_, rfl⟩
    | none => exact getenvLoop_ok _ (Nat.lt_succ_of_le hle) heq

/-! ## setenv -/

theorem anchored_of_marked (hmarked : data 0 = 0 ∨ Marked data) (hlies : Lies data 0 (pack 0 es))
    (hpack : ∀ e ∈ es, Packable 0 e) : ∀ e ∈ es.head?, EQ ∈ e := by
  cases es with
  | nil => simp
  | cons e es =>
    intro e' he'
    obtain rfl := Option.some.inj he'
    have hne := hlies.first_ne (hpack e mem_cons_self)
    obtain ⟨j, -, heq, hall⟩ := hmarked.resolve_left hne
    rw [pack_cons, lies_append_iff, lies_cons_iff] at hlies
    have hj : j < 0 + e.length := by
      by_contra hge
      exact hall (0 + e.length) (by omega) hlies.2.1
    exact heq ▸ hlies.1.mem (Nat.zero_le j) hj

/-- The scan for the end stays inside exactly if two NULs are there. -/
theorem appendOffset_ok_iff : (∃ off, appendOffset data = .ok off) ↔ DoubleNul data := by
  unfold appendOffset
  cases hfirst : firstFrom (fun k => data k = 0 ∧ data (k + 1) = 0) (dataSize - 1) 0 with
  | none =>
    rw [firstFrom_eq_none_iff] at hfirst
    refine iff_of_false (by simp) ?_
    rintro ⟨k, hlt, hnuls⟩
    exact of_decide_eq_false (hfirst k (Nat.zero_le k) (by omega)) hnuls
  | some k =>
    obtain ⟨-, hlt, hnuls, -⟩ := firstFrom_eq_some_iff.mp hfirst
    exact iff_of_true ⟨_, rfl⟩ ⟨k, by omega, of_decide_eq_true hnuls⟩

theorem Block.doubleNul (h : Block data es) (hne : es ≠ []) : DoubleNul data :=
  appendOffset_ok_iff.mp ⟨_, appendOffset_block h fun hnil => absurd hnil hne⟩

theorem Open.not_doubleNul (h : Open data es) : ¬ DoubleNul data := by
  rintro ⟨k, hlt, hnuls⟩
  by_cases hin : k + 1 < (pack 0 es).length
  · exact not_double h.packable h.lies (Nat.zero_le k) (by omega) hnuls
  · exact h.rest (k + 1) (by omega) hlt hnuls.2

/-- Without an end the search leaves the array, unless it finds the name
before. -/
theorem search_open (name : List UInt8) (h : Open data es) (hhead : ∀ e ∈ es.head?, EQ ∈ e) :
    search data name =
      match locate name es 0 with
      | some p => .ok (some p)
      | none => .error .readOutside := by
  rw [search_entries name h.lies h.packable h.fits hhead]
  cases locate name es 0 with
  | some p => rfl
  | none =>
    dsimp only
    cases dataSize - es.length with
    | zero => rfl
    | succ fuel =>
      rw [searchLoop]
      by_cases hin : (pack 0 es).length < dataSize
      · have hnone : firstFrom (fun j => data j = 0) (dataSize - (pack 0 es).length)
            (pack 0 es).length = none := by
          rw [firstFrom_eq_none_iff]
          intro k hle hlt
          exact decide_eq_false (h.rest k hle (by omega))
        rw [read_of_lt hin, ok_bind, if_neg (h.rest _ (Nat.le_refl _) hin), hnone]
      · rw [read, if_neg hin]
        rfl

/-- Without two NULs the moving down never stops inside. -/
theorem copyDown_open (fuel : Nat) {env nxt : Nat} (hno : ∀ k, nxt ≤ k → k + 1 < dataSize →
    ¬ (data k = 0 ∧ data (k + 1) = 0)) (henv : env < nxt) :
    copyDown fuel data env nxt = .error .readOutside := by
  induction fuel generalizing data env nxt with
  | zero => rfl
  | succ fuel ih =>
    rw [copyDown]
    by_cases hin : nxt < dataSize
    · have hkeep : ∀ x, nxt ≤ x → Function.update data env (data nxt) x = data x := fun x hx =>
        Function.update_of_ne (by omega) _ _
      have hrest : copyDown fuel (Function.update data env (data nxt)) (env + 1) (nxt + 1) =
          .error .readOutside := by
        apply ih _ (by omega)
        intro k hk hlt
        rw [hkeep k (by omega), hkeep (k + 1) (by omega)]
        exact hno k (by omega) hlt
      rw [read_of_lt hin, ok_bind, write_of_lt (by omega), ok_bind, hrest]
      by_cases hnul : data nxt = 0
      · rw [if_pos hnul]
        by_cases hlast : nxt + 1 < dataSize
        · have hne : ¬ data (nxt + 1) = 0 := fun hnext =>
            hno nxt (Nat.le_refl _) hlast ⟨hnul, hnext⟩
          rw [read_of_lt hlast, hkeep (nxt + 1) (by omega), ok_bind, if_neg hne]
        · rw [read, if_neg hlast]
          rfl
      · rw [if_neg hnul]
    · rw [read, if_neg hin]
      rfl

theorem deleteEntry_open (h : Open data es) {p : Nat × Nat} (hp : locate name es 0 = some p) :
    deleteEntry data p.1 p.2 = .error .readOutside := by
  obtain ⟨es₁, e, es₂, rfl, -, -, rfl⟩ := locate_eq_some_iff.mp hp
  have hlies := h.lies
  rw [pack_append, lies_append_iff, pack_cons, lies_append_iff, lies_cons_iff] at hlies
  have hnul := hlies.2.2.1
  have hno : ∀ k, k + 1 < dataSize → ¬ (data k = 0 ∧ data (k + 1) = 0) := fun k hlt hnuls =>
    h.not_doubleNul ⟨k, hlt, hnuls⟩
  unfold deleteEntry closeGap
  dsimp only
  by_cases hin : 0 + (pack 0 es₁).length + e.length + 1 < dataSize
  · have hne : ¬ data (0 + (pack 0 es₁).length + e.length + 1) = 0 := fun hnext =>
      hno _ hin ⟨hnul, hnext⟩
    rw [read_of_lt hin, ok_bind, if_neg hne, copyDown_open _ (fun k _ => hno k) (by omega)]
    rfl
  · rw [read, if_neg hin]
    rfl

theorem search_found (hfound : Found name data) (hmarked : data 0 = 0 ∨ Marked data) :
    ∃ p, search data name = .ok (some p) := by
  obtain ⟨es, e, hlies, hpack, hfits, hkey⟩ := hfound
  have hhead := anchored_of_marked hmarked hlies hpack
  rw [search_entries name hlies hpack hfits hhead]
  cases hlocate : locate name (es ++ [e]) 0 with
  | some p => exact ⟨p, rfl⟩
  | none => exact absurd hkey (locate_eq_none_iff.mp hlocate e (mem_append_right _
      mem_cons_self))

theorem Open.found (h : Open data es) {p : Nat × Nat} (hp : locate name es 0 = some p) :
    Found name data := by
  obtain ⟨es₁, e, es₂, rfl, hkey, -, -⟩ := locate_eq_some_iff.mp hp
  have hsplit : es₁ ++ e :: es₂ = (es₁ ++ [e]) ++ es₂ := by simp
  have hlies := h.lies
  have hfits := h.fits
  rw [hsplit, pack_append] at hlies hfits
  rw [length_append] at hfits
  refine ⟨es₁, e, (lies_append_iff.mp hlies).1, fun e' he' => h.packable e' ?_, by omega, hkey⟩
  rw [hsplit]
  exact mem_append_left _ he'

theorem Open.found_iff (h : Open data es) (hmarked : data 0 = 0 ∨ Marked data) :
    Found name data ↔ ∃ p, locate name es 0 = some p := by
  constructor
  · intro hfound
    obtain ⟨p, hsearch⟩ := search_found hfound hmarked
    rw [search_open name h (anchored_of_marked hmarked h.lies h.packable)] at hsearch
    cases hlocate : locate name es 0 with
    | some p => exact ⟨p, rfl⟩
    | none =>
      rw [hlocate] at hsearch
      cases hsearch
  · rintro ⟨p, hp⟩
    exact h.found hp

theorem Open.first_ne_zero (h : Open data es) : data 0 ≠ 0 := by
  cases es with
  | nil => exact h.rest 0 (Nat.le_refl 0) (by decide)
  | cons e es => exact h.lies.first_ne (h.packable e mem_cons_self)

theorem Found.first_ne_zero (h : Found name data) : data 0 ≠ 0 := by
  obtain ⟨es, e, hlies, hpack, -, -⟩ := h
  cases es with
  | nil => exact hlies.first_ne (hpack e mem_cons_self)
  | cons e' es => exact hlies.first_ne (hpack e' mem_cons_self)

end

/-! ## Both calls -/

section
variable {b : Board} {es : List (List UInt8)} {name v : List UInt8}

/-- A call neither reads outside of the array nor runs for ever. -/
def Returns (x : Except Fault (Int × Board)) : Prop :=
  x ≠ .error .readOutside ∧ x ≠ .error .endless

theorem returns_ok (r : Int × Board) : Returns (.ok r) := by
  constructor
  all_goals
    intro herror
    cases herror

theorem not_returns_readOutside : ¬ Returns (.error .readOutside) := fun h => h.1 rfl

theorem returns_append_iff : Returns (appendEntry b name v []) ↔ DoubleNul b.envData := by
  rw [← appendOffset_ok_iff]
  cases hoff : appendOffset b.envData with
  | error fault =>
    have hfault : fault = .readOutside := by
      unfold appendOffset at hoff
      split at hoff
      · exact (Except.error.inj hoff).symm
      · cases hoff
    rw [appendEntry, hoff, hfault]
    exact iff_of_false not_returns_readOutside (by simp)
  | ok off =>
    refine iff_of_true ?_ ⟨off, rfl⟩
    obtain ⟨hover, hroom⟩ := appendEntry_eq name v hoff
    by_cases hlong : dataSize < entryLen name [v]
    · rw [hover hlong]
      exact returns_ok _
    obtain ⟨hinside, houtside⟩ := hroom (by omega)
    by_cases hfits : off + entryLen name [v] ≤ dataSize
    · rw [hinside hfits]
      exact returns_ok _
    · rw [houtside (by omega)]
      exact ⟨by simp, by simp⟩

/-- On a block only the scan for the end of an empty environment can leave the
array. -/
theorem returns_block_iff (h : Block b.envData es) (hhead : ∀ e ∈ es.head?, EQ ∈ e) :
    Returns (setenv b name v) ↔ DoubleNul b.envData ∨ es = [] ∧ v = deleteMark := by
  obtain ⟨honce, hfree⟩ := setenv_block h hhead name v
  by_cases hguard : setOnce name ∧ Present name es
  · obtain ⟨e, he, -⟩ := hguard.2
    rw [honce hguard]
    exact iff_of_true (returns_ok _) (.inl (h.doubleNul (ne_nil_of_mem he)))
  obtain ⟨data, hleft, hsame, hend, hdelete, happend⟩ := hfree hguard
  by_cases hmark : v = deleteMark
  · rw [hdelete hmark]
    refine iff_of_true (returns_ok _) ?_
    by_cases hnil : es = []
    · exact .inr ⟨hnil, hmark⟩
    · exact .inl (h.doubleNul hnil)
  · rw [happend hmark, returns_append_iff, iff_false_intro hmark, and_false, or_false]
    by_cases hnil : es = []
    · rw [hsame hnil]
    · refine iff_of_true ?_ (h.doubleNul hnil)
      exact appendOffset_ok_iff.mp ⟨_, appendOffset_block hleft (hend hnil)⟩

/-- Without an end only a variable that must not be overwritten keeps the call
inside. -/
theorem returns_open_iff (h : Open b.envData es) (hhead : ∀ e ∈ es.head?, EQ ∈ e) :
    Returns (setenv b name v) ↔ setOnce name ∧ ∃ p, locate name es 0 = some p := by
  have hsearch := search_open name h hhead
  cases hlocate : locate name es 0 with
  | none =>
    rw [hlocate] at hsearch
    have hdo : ∀ args, doSetenv b name args = .error .readOutside := fun args => by
      rw [doSetenv, hsearch]
      rfl
    rw [setenv_of_doSetenv hdo]
    exact iff_of_false not_returns_readOutside (by simp)
  | some p =>
    rw [hlocate] at hsearch
    by_cases honce : setOnce name
    · have hdo : ∀ args, doSetenv b name args = .ok (-1, b) := fun args => by
        rw [doSetenv, hsearch, ok_bind, if_pos ⟨rfl, honce⟩]
      rw [setenv_of_doSetenv hdo]
      exact iff_of_true (returns_ok _) ⟨honce, p, rfl⟩
    · have hdo : ∀ args, doSetenv b name args = .error .readOutside := fun args => by
        rw [doSetenv, hsearch, ok_bind, if_neg (fun hboth => honce hboth.2), deleteFound,
          deleteEntry_open h hlocate]
        rfl
      rw [setenv_of_doSetenv hdo]
      exact iff_of_false not_returns_readOutside (fun hboth => honce hboth.1)

/-- Both calls come back and read nothing outside exactly if there is no entry
or the first one has a `=`, and the end is marked by two NULs, or is not
looked for. -/
theorem contents_safe_iff (b : Board) (name v : List UInt8) :
    ((∃ r, getenv b.envData name = .ok r) ∧ Returns (setenv b name v)) ↔
      (b.envData 0 = 0 ∨ Marked b.envData) ∧
        (DoubleNul b.envData ∨ (b.envData 0 = 0 ∧ v = deleteMark) ∨
          (setOnce name ∧ Found name b.envData)) := by
  rw [getenv_ok_iff]
  refine and_congr_right fun hmarked => ?_
  obtain ⟨es, hblock | hopen⟩ := block_or_open b.envData
  · have hlies := (lies_append_iff.mp hblock.lies).1
    have hhead := anchored_of_marked hmarked hlies hblock.packable
    rw [returns_block_iff hblock hhead]
    by_cases hnil : es = []
    · have hzero : b.envData 0 = 0 := by
        have := hblock.end_eq
        rwa [hnil] at this
      have hnone : ¬ Found name b.envData := fun hfound => hfound.first_ne_zero hzero
      simp only [hnil, hzero, hnone, true_and, and_false, or_false]
    · have hnuls := hblock.doubleNul hnil
      exact iff_of_true (.inl hnuls) (.inl hnuls)
  · have hhead := anchored_of_marked hmarked hopen.lies hopen.packable
    rw [returns_open_iff hopen hhead, ← hopen.found_iff hmarked]
    simp only [hopen.not_doubleNul, hopen.first_ne_zero, false_and, false_or]

/-- In an erased flash `getenv` searches for ever, and `setenv` leaves the
array. -/
theorem erased_not_safe :
    (∀ name, getenv (fun _ => 0xFF) name = .error .endless) ∧
      ∀ name v, setenv ⟨0, fun _ => 0xFF, [], 0, 0⟩ name v = .error .readOutside := by
  constructor
  · intro name
    have hnone : ∀ n, lastBelow (fun j => getEnvChar (fun _ => 0xFF) j = EQ) n = none := by
      intro n
      rw [lastBelow_eq_none_iff]
      intro k _
      apply decide_eq_false
      unfold getEnvChar
      split_ifs
      · show ¬ (0xFF : UInt8) = EQ
        decide
      · decide
    rw [getenv, dataSize_succ, getenvLoop, getEnvChar_of_lt (by decide), if_neg (by decide),
      envmatch, hnone]
    rfl
  · intro name v
    have hopen : Open (fun _ => 0xFF) [] :=
      ⟨lies_nil, fun e he => absurd he List.not_mem_nil, Nat.zero_le _, fun j _ _ => by decide⟩
    apply setenv_of_doSetenv
    intro args
    rw [doSetenv, search_open name hopen (by simp)]
    rfl

end

end Envm
