import Cnu680.Framework.Cells
import Cnu680.Framework.Exec

/-! # The Environment Block

`drivers/char/envm-s3c2510_4M.c` keeps the settings of the boot loader in
an array of bytes: entries `name=value`, each ended by a NUL, and an empty
entry at the end. `envmatch` compares a name with the entry at an index,
`getenv` looks for the entry of a name, and the first loop of
`_do_setenv` does the same with raw pointers.

* `envmatch`, `getenv`, `search`: as the source has them, on any contents
  of the array.
* `Block data es`: the array holds the entries `es`. On a block the
  searches find the first entry whose key is the name (`search_block`,
  `getenv_block`); the key is what stands before the *last* `=`. -/

open Framework List

namespace Envm

/-- `CFG_ENV_SIZE`, and the size of `data` in `env_t`. -/
def CFG_ENV_SIZE : Nat := 0x2000
def dataSize : Nat := CFG_ENV_SIZE - 4

/-- The bytes of `bi_env_data`; only those below `dataSize` are there. -/
abbrev Data := Nat → UInt8

/-- `=`. -/
def EQ : UInt8 := 0x3D

/-- Why a call does not come back, or not as it should. -/
inductive Fault where
  | readOutside
  | writeOutside
  /-- A loop that never ends. -/
  | endless
  deriving DecidableEq

/-! ## Searching -/

/-- `get_env_char`. -/
def getEnvChar (data : Data) (index : Nat) : UInt8 := if index < dataSize then data index else 0

/-- The first index from `i` on at which `get_env_char` returns NUL. -/
def nulFrom (data : Data) (i : Nat) : Nat :=
  (firstFrom (fun j => data j = 0) (dataSize - i) i).getD (max i dataSize)

/-- `envmatch`: the index behind the name. The search for `=` goes backwards
from the NUL and does not stop at the beginning of the entry; below index 0
there is none to be found. -/
def envmatch (data : Data) (s1 : List UInt8) (i2 : Nat) : Except Fault (Option Nat) :=
  match lastBelow (fun j => getEnvChar data j = EQ) (nulFrom data i2 + 1) with
  | none => .error .endless
  | some eq =>
    if (s1.length : Int) ≠ eq - i2 then .ok none
    else if s1 = (List.range s1.length).map fun k => getEnvChar data (i2 + k) then
      .ok (some (i2 + s1.length))
    else .ok none

/-- The loop of `getenv`. -/
def getenvLoop (data : Data) (name : List UInt8) : Nat → Nat → Except Fault (Option Nat)
  | 0, _ => .ok none
  | fuel + 1, i =>
    if getEnvChar data i = 0 then .ok none
    else
      envmatch data name i >>= fun
        | some val => .ok (some val)
        | none => getenvLoop data name fuel (nulFrom data i + 1)

/-- `getenv`: the index in `data` of the address it returns, which is that of
the `=`. Every round goes on by two bytes at least. -/
def getenv (data : Data) (name : List UInt8) : Except Fault (Option Nat) :=
  getenvLoop data name dataSize 0

/-- `*(data + i)`. -/
def read (data : Data) (i : Nat) : Except Fault UInt8 :=
  if i < dataSize then .ok (data i) else .error .readOutside

/-- The first loop of `_do_setenv`: the beginning of the entry and its NUL. -/
def searchLoop (data : Data) (name : List UInt8) : Nat → Nat → Except Fault (Option (Nat × Nat))
  | 0, _ => .error .readOutside
  | fuel + 1, env =>
    read data env >>= fun c =>
      if c = 0 then .ok none
      else
        match firstFrom (fun j => data j = 0) (dataSize - env) env with
        | none => .error .readOutside
        | some nxt =>
          envmatch data name env >>= fun
            | some _ => .ok (some (env, nxt))
            | none => searchLoop data name fuel (nxt + 1)

def search (data : Data) (name : List UInt8) : Except Fault (Option (Nat × Nat)) :=
  searchLoop data name dataSize 0

/-! ## Blocks -/

/-- The array holds the entries, inside of it. -/
structure Block (data : Data) (es : List (List UInt8)) : Prop extends Packed 0 data es where
  fits : (pack 0 es).length + 1 ≤ dataSize

/-- An entry cut at its last `=`. -/
def cut : List UInt8 → Option (List UInt8 × List UInt8)
  | [] => none
  | b :: e =>
    match cut e with
    | some (k, v) => some (b :: k, v)
    | none => if b = EQ then some ([], e) else none

/-- The key of an entry: what stands before its last `=`. -/
def key (e : List UInt8) : Option (List UInt8) := (cut e).map Prod.fst

theorem cut_eq_none_iff {e : List UInt8} : cut e = none ↔ EQ ∉ e := by
  induction e with
  | nil => simp [cut]
  | cons b e ih =>
    rw [cut, mem_cons, not_or]
    cases hcut : cut e with
    | some kv =>
      rw [hcut] at ih
      refine iff_of_false (by simp) fun h => ?_
      exact absurd (ih.mpr h.2) (by simp)
    | none =>
      by_cases hb : b = EQ
      · simp [hb]
      · simp [hb, ih.mp hcut, Ne.symm hb]

theorem cut_eq_some_iff {e k v : List UInt8} : cut e = some (k, v) ↔ e = k ++ EQ :: v ∧ EQ ∉ v := by
  induction e generalizing k with
  | nil => simp [cut]
  | cons b e ih =>
    rw [cut]
    cases hcut : cut e with
    | some kv =>
      rw [hcut] at ih
      cases k with
      | nil =>
        -- There is a `=` further on.
        refine iff_of_false (by simp) ?_
        rintro ⟨heq, hv⟩
        obtain ⟨-, rfl⟩ := List.cons.inj heq
        rw [cut_eq_none_iff.mpr hv] at hcut
        cases hcut
      | cons b' k =>
        have hih := ih (k := k)
        rw [cons_append, List.cons.injEq, and_assoc, ← hih]
        simp only [Option.some.injEq, List.cons.injEq, Prod.ext_iff]
        tauto
    | none =>
      have hnone : EQ ∉ e := cut_eq_none_iff.mp hcut
      dsimp only
      by_cases hb : b = EQ
      · rw [if_pos hb]
        constructor
        · intro h
          obtain ⟨rfl, rfl⟩ := Prod.mk.inj (Option.some.inj h)
          exact ⟨by rw [hb]; rfl, hnone⟩
        · rintro ⟨heq, hv⟩
          cases k with
          | nil =>
            obtain ⟨-, rfl⟩ := List.cons.inj heq
            rfl
          | cons b' k =>
            obtain ⟨-, rfl⟩ := List.cons.inj heq
            simp at hnone
      · rw [if_neg hb]
        refine iff_of_false (by simp) ?_
        rintro ⟨heq, -⟩
        cases k with
        | nil => exact hb (List.cons.inj heq).1
        | cons b' k =>
          obtain ⟨-, rfl⟩ := List.cons.inj heq
          simp at hnone

theorem key_eq_some_iff {e k : List UInt8} : key e = some k ↔ ∃ v, e = k ++ EQ :: v ∧ EQ ∉ v := by
  simp only [key, Option.map_eq_some_iff, Prod.exists, cut_eq_some_iff, exists_and_right,
    exists_eq_right]

/-- Where the first entry with the key lies, if there is one: its beginning and
its NUL. -/
def locate (name : List UInt8) : List (List UInt8) → Nat → Option (Nat × Nat)
  | [], _ => none
  | e :: es, i =>
    if key e = some name then some (i, i + e.length) else locate name es (i + e.length + 1)

/-! ### One entry -/

section
variable {data : Data} {e k v s : List UInt8} {i : Nat}

theorem getEnvChar_of_lt (h : i < dataSize) : getEnvChar data i = data i := if_pos h

theorem firstFrom_entry (hlies : Lies data i (e ++ [0])) (hz : 0 ∉ e)
    (hfits : i + e.length < dataSize) :
    firstFrom (fun j => data j = 0) (dataSize - i) i = some (i + e.length) := by
  rw [lies_append_iff, lies_cons_iff] at hlies
  obtain ⟨hentry, hnul, -⟩ := hlies
  rw [firstFrom_eq_some_iff]
  refine ⟨Nat.le_add_right _ _, by omega, decide_eq_true hnul, fun j hle hlt => ?_⟩
  apply decide_eq_false
  intro hj
  exact hz (hj ▸ hentry.mem hle hlt)

theorem nulFrom_entry (hlies : Lies data i (e ++ [0])) (hz : 0 ∉ e)
    (hfits : i + e.length < dataSize) : nulFrom data i = i + e.length := by
  rw [nulFrom, firstFrom_entry hlies hz hfits]
  rfl

theorem lastBelow_entry (hlies : Lies data i (e ++ [0])) (hcut : cut e = some (k, v))
    (hfits : i + e.length < dataSize) :
    lastBelow (fun j => getEnvChar data j = EQ) (i + e.length + 1) = some (i + k.length) := by
  obtain ⟨rfl, hv⟩ := cut_eq_some_iff.mp hcut
  rw [lies_append_iff, lies_append_iff, lies_cons_iff, lies_cons_iff] at hlies
  obtain ⟨⟨-, heq, hvalue⟩, hnul, -⟩ := hlies
  simp only [length_append, length_cons] at hfits hnul ⊢
  rw [lastBelow_eq_some_iff]
  refine ⟨by omega, ?_, fun j hlt hle => ?_⟩
  · rw [getEnvChar_of_lt (by omega)]
    exact decide_eq_true heq
  · apply decide_eq_false
    rw [getEnvChar_of_lt (by omega)]
    intro hj
    by_cases hend : j = i + (k.length + (v.length + 1))
    · rw [hend, hnul] at hj
      exact absurd hj (by decide)
    · exact hv (hj ▸ hvalue.mem (by omega) (by omega))

theorem map_getEnvChar (hlies : Lies data i k) (hfits : i + k.length ≤ dataSize) :
    ((List.range k.length).map fun j => getEnvChar data (i + j)) = k := by
  apply ext_getElem
  · simp
  · intro j hj hj'
    rw [getElem_map, getElem_range, getEnvChar_of_lt (by omega)]
    exact hlies.get hj'

theorem envmatch_entry (hlies : Lies data i (e ++ [0])) (hz : 0 ∉ e)
    (hcut : cut e = some (k, v)) (hfits : i + e.length < dataSize) :
    envmatch data s i = .ok (if key e = some s then some (i + s.length) else none) := by
  have hkey : key e = some s ↔ k = s := by simp [key, hcut]
  obtain ⟨rfl, -⟩ := cut_eq_some_iff.mp hcut
  have hk : Lies data i k := by
    rw [lies_append_iff, lies_append_iff] at hlies
    exact hlies.1.1
  simp only [length_append] at hfits
  unfold envmatch
  rw [nulFrom_entry hlies hz (by simpa using hfits),
    lastBelow_entry hlies hcut (by simpa using hfits)]
  dsimp only
  by_cases hlen : s.length = k.length
  · have hmap : s = (List.range s.length).map (fun j => getEnvChar data (i + j)) ↔ k = s := by
      rw [hlen, map_getEnvChar hk (by omega)]
      exact eq_comm
    rw [if_neg (by omega)]
    simp only [hkey, hmap]
    split_ifs <;> rfl
  · have hne : ¬ k = s := fun h => hlen (by rw [h])
    rw [if_pos (by omega), if_neg (fun h => hne (hkey.mp h))]

theorem envmatch_no_eq (hlies : Lies data i (e ++ [0])) (hz : 0 ∉ e) (heq : EQ ∉ e)
    (hfits : i + e.length < dataSize) :
    ((∃ j < i, data j = EQ) → envmatch data s i = .ok none) ∧
      ((∀ j < i, data j ≠ EQ) → envmatch data s i = .error .endless) := by
  have hnul := nulFrom_entry hlies hz hfits
  rw [lies_append_iff, lies_cons_iff] at hlies
  obtain ⟨hentry, hterm, -⟩ := hlies
  have hnone : ∀ j, i ≤ j → j < i + e.length + 1 →
      decide (getEnvChar data j = EQ) = false := by
    intro j hle hlt
    apply decide_eq_false
    rw [getEnvChar_of_lt (by omega)]
    intro hj
    by_cases hend : j = i + e.length
    · rw [hend, hterm] at hj
      exact absurd hj (by decide)
    · exact heq (hj ▸ hentry.mem hle (by omega))
  unfold envmatch
  rw [hnul]
  cases hlast : lastBelow (fun j => getEnvChar data j = EQ) (i + e.length + 1) with
  | none =>
    rw [lastBelow_eq_none_iff] at hlast
    refine ⟨?_, fun _ => rfl⟩
    rintro ⟨j, hj, hdata⟩
    have := hlast j (by omega)
    rw [getEnvChar_of_lt (by omega), hdata] at this
    cases this
  | some p =>
    obtain ⟨hlt, hp, -⟩ := lastBelow_eq_some_iff.mp hlast
    have hbefore : p < i := by
      by_contra hge
      have := hnone p (by omega) (by omega)
      rw [hp] at this
      cases this
    constructor
    · intro _
      dsimp only
      rw [if_pos (by omega)]
    · intro hall
      rw [getEnvChar_of_lt (by omega), decide_eq_true_eq] at hp
      exact absurd hp (hall p hbefore)

end

/-! ### A row of entries -/

/-- A `=` will be found: before the entries, or in the first of them. -/
def Anchored (data : Data) (es : List (List UInt8)) (i : Nat) : Prop :=
  (∃ j < i, data j = EQ) ∨ ∀ e ∈ es.head?, EQ ∈ e

section
variable {data : Data} {e name : List UInt8} {es : List (List UInt8)} {i : Nat}

theorem Anchored.tail (h : Anchored data (e :: es) i) (hlies : Lies data i e) :
    Anchored data es (i + e.length + 1) := by
  rcases h with ⟨j, hj, hdata⟩ | hhead
  · exact .inl ⟨j, by omega, hdata⟩
  · obtain ⟨k, hk, hget⟩ := getElem_of_mem (hhead e rfl)
    refine .inl ⟨i + k, by omega, ?_⟩
    rw [hlies.get hk, hget]

theorem envmatch_anchored (hanchor : Anchored data (e :: es) i) (hlies : Lies data i (e ++ [0]))
    (hz : 0 ∉ e) (hfits : i + e.length < dataSize) :
    envmatch data name i = .ok (if key e = some name then some (i + name.length) else none) := by
  cases hcut : cut e with
  | some kv => exact envmatch_entry hlies hz hcut hfits
  | none =>
    have heq : EQ ∉ e := cut_eq_none_iff.mp hcut
    have hkey : key e ≠ some name := by simp [key, hcut]
    rw [if_neg hkey]
    rcases hanchor with hbefore | hhead
    · exact (envmatch_no_eq hlies hz heq hfits).1 hbefore
    · exact absurd (hhead e rfl) heq

theorem searchLoop_entries (name : List UInt8) (fuel : Nat)
    (hlies : Lies data i (pack 0 es)) (hpack : ∀ e ∈ es, Packable 0 e)
    (hfits : i + (pack 0 es).length ≤ dataSize) (hanchor : Anchored data es i) :
    searchLoop data name (es.length + fuel) i =
      match locate name es i with
      | some p => .ok (some p)
      | none => searchLoop data name fuel (i + (pack 0 es).length) := by
  induction es generalizing i with
  | nil =>
    rw [length_nil, Nat.zero_add]
    rfl
  | cons e es ih =>
    have hchar := hlies.first_ne (hpack e mem_cons_self)
    obtain ⟨-, hz⟩ := hpack e mem_cons_self
    rw [length_pack_cons] at hfits ⊢
    obtain ⟨hentry, hrest⟩ := lies_pack_cons_iff.mp hlies
    have hbytes : Lies data i e := (lies_append_iff.mp hentry).1
    have hfirst : read data i = .ok (data i) := if_pos (by omega)
    have hloop := ih hrest (fun e' he' => hpack e' (mem_cons_of_mem _ he')) (by omega)
      (hanchor.tail hbytes)
    rw [length_cons, Nat.add_right_comm, searchLoop, hfirst, ok_bind, if_neg hchar,
      firstFrom_entry hentry hz (by omega)]
    dsimp only
    rw [envmatch_anchored hanchor hentry hz (by omega), ok_bind, locate]
    by_cases hkey : key e = some name
    · rw [if_pos hkey, if_pos hkey]
    · rw [if_neg hkey, if_neg hkey]
      dsimp only
      rw [hloop, Nat.add_assoc i, Nat.add_assoc i]

theorem getenvLoop_entries (name : List UInt8) (fuel : Nat)
    (hlies : Lies data i (pack 0 es)) (hpack : ∀ e ∈ es, Packable 0 e)
    (hfits : i + (pack 0 es).length ≤ dataSize) (hanchor : Anchored data es i) :
    getenvLoop data name (es.length + fuel) i =
      match locate name es i with
      | some p => .ok (some (p.1 + name.length))
      | none => getenvLoop data name fuel (i + (pack 0 es).length) := by
  induction es generalizing i with
  | nil =>
    rw [length_nil, Nat.zero_add]
    rfl
  | cons e es ih =>
    obtain ⟨-, hz⟩ := hpack e mem_cons_self
    have hchar : getEnvChar data i ≠ 0 := by
      rw [getEnvChar_of_lt (by rw [length_pack_cons] at hfits; omega)]
      exact hlies.first_ne (hpack e mem_cons_self)
    rw [length_pack_cons] at hfits ⊢
    obtain ⟨hentry, hrest⟩ := lies_pack_cons_iff.mp hlies
    have hbytes : Lies data i e := (lies_append_iff.mp hentry).1
    have hloop := ih hrest (fun e' he' => hpack e' (mem_cons_of_mem _ he')) (by omega)
      (hanchor.tail hbytes)
    rw [length_cons, Nat.add_right_comm, getenvLoop, if_neg hchar,
      envmatch_anchored hanchor hentry hz (by omega), ok_bind, locate,
      nulFrom_entry hentry hz (by omega)]
    by_cases hkey : key e = some name
    · rw [if_pos hkey, if_pos hkey]
    · rw [if_neg hkey, if_neg hkey]
      dsimp only
      rw [hloop, Nat.add_assoc i, Nat.add_assoc i]

theorem locate_eq_some_iff {p : Nat × Nat} :
    locate name es i = some p ↔
      ∃ es₁ e es₂, es = es₁ ++ e :: es₂ ∧ key e = some name ∧
        (∀ e' ∈ es₁, key e' ≠ some name) ∧
        p = (i + (pack 0 es₁).length, i + (pack 0 es₁).length + e.length) := by
  induction es generalizing i with
  | nil => simp [locate]
  | cons e es ih =>
    rw [locate]
    by_cases hkey : key e = some name
    · rw [if_pos hkey]
      constructor
      · intro h
        refine ⟨[], e, es, rfl, hkey, fun e' he' => ?_, (Option.some.inj h).symm⟩
        cases he'
      · rintro ⟨es₁, e', es₂, heq, -, hbefore, rfl⟩
        cases es₁ with
        | nil =>
          obtain ⟨rfl, -⟩ := List.cons.inj heq
          rfl
        | cons e₁ es₁ =>
          obtain ⟨rfl, -⟩ := List.cons.inj heq
          exact absurd hkey (hbefore e mem_cons_self)
    · rw [if_neg hkey, ih]
      constructor
      · rintro ⟨es₁, e', es₂, rfl, hkey', hbefore, rfl⟩
        refine ⟨e :: es₁, e', es₂, rfl, hkey', fun e₁ he₁ => ?_, ?_⟩
        · rcases mem_cons.mp he₁ with rfl | hmem
          · exact hkey
          · exact hbefore e₁ hmem
        · rw [length_pack_cons, Prod.mk.injEq]
          omega
      · rintro ⟨es₁, e', es₂, heq, hkey', hbefore, rfl⟩
        cases es₁ with
        | nil =>
          obtain ⟨rfl, -⟩ := List.cons.inj heq
          exact absurd hkey' hkey
        | cons e₁ es₁ =>
          obtain ⟨rfl, rfl⟩ := List.cons.inj heq
          refine ⟨es₁, e', es₂, rfl, hkey', fun e₂ he₂ => hbefore e₂ (mem_cons_of_mem _ he₂), ?_⟩
          rw [length_pack_cons, Prod.mk.injEq]
          omega

theorem locate_eq_none_iff : locate name es i = none ↔ ∀ e ∈ es, key e ≠ some name := by
  induction es generalizing i with
  | nil => simp [locate]
  | cons e es ih =>
    rw [locate, forall_mem_cons]
    by_cases hkey : key e = some name
    · rw [if_pos hkey]
      exact iff_of_false (by simp) fun h => h.1 hkey
    · rw [if_neg hkey, ih]
      exact (and_iff_right hkey).symm

end

/-! ### A whole block -/

section
variable {data : Data} {es : List (List UInt8)} (name : List UInt8)

theorem Block.end_eq (h : Block data es) : data (pack 0 es).length = 0 := by
  have hend := (lies_append_iff.mp h.lies).2
  rw [Nat.zero_add, lies_cons_iff] at hend
  exact hend.1

theorem Block.length_lt (h : Block data es) : es.length < dataSize := by
  have hle := length_le_length_pack 0 es
  have hfits := h.fits
  omega

theorem search_entries (hlies : Lies data 0 (pack 0 es)) (hpack : ∀ e ∈ es, Packable 0 e)
    (hfits : (pack 0 es).length ≤ dataSize) (heq : ∀ e ∈ es.head?, EQ ∈ e) :
    search data name =
      match locate name es 0 with
      | some p => .ok (some p)
      | none => searchLoop data name (dataSize - es.length) (pack 0 es).length := by
  have hlen := length_le_length_pack 0 es
  have hloop := searchLoop_entries name (dataSize - es.length) hlies hpack (by omega) (.inr heq)
  rwa [Nat.add_sub_cancel' (by omega), Nat.zero_add] at hloop

theorem search_block (h : Block data es) (heq : ∀ e ∈ es.head?, EQ ∈ e) :
    search data name = .ok (locate name es 0) := by
  have hlen := h.length_lt
  have hfits := h.fits
  rw [search_entries name (lies_append_iff.mp h.lies).1 h.packable (by omega) heq]
  cases locate name es 0 with
  | some p => rfl
  | none =>
    have hread : read data (pack 0 es).length = .ok 0 := by
      rw [read, if_pos (by omega), h.end_eq]
    dsimp only
    rw [show dataSize - es.length = dataSize - es.length - 1 + 1 by omega, searchLoop, hread]
    rfl

theorem getenv_block (h : Block data es) (heq : ∀ e ∈ es.head?, EQ ∈ e) :
    getenv data name = .ok ((locate name es 0).map fun p => p.1 + name.length) := by
  have hlen := h.length_lt
  have hfits := h.fits
  have hloop := getenvLoop_entries name (dataSize - es.length - 1 + 1)
    (lies_append_iff.mp h.lies).1 h.packable (by omega) (.inr heq)
  rw [show es.length + (dataSize - es.length - 1 + 1) = dataSize by omega] at hloop
  unfold getenv
  rw [hloop]
  cases locate name es 0 with
  | some p => rfl
  | none =>
    have hchar : getEnvChar data (0 + (pack 0 es).length) = 0 := by
      rw [getEnvChar_of_lt (by omega), Nat.zero_add, h.end_eq]
    show getenvLoop data name (dataSize - es.length - 1 + 1) (0 + (pack 0 es).length) = _
    rw [getenvLoop, if_pos hchar]
    rfl

end

end Envm
