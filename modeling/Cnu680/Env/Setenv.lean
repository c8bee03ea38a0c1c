import Cnu680.Env.Block
import Cnu680.Env.Crc

/-! # Setting a Variable

`setenv` and `_do_setenv` of `drivers/char/envm-s3c2510_4M.c`. An entry of
the name is deleted, by moving the entries behind it down, and the new
entry is written at the end, which is found by its two NULs. The bytes are
written without a test whether they are still in the array.

* `deleteEntry`, `appendOffset`, `writeEntry`: the parts of `_do_setenv`.
* `deletion_drops_entry`: on an environment the deletion leaves exactly
  the other entries. -/

open Framework List

namespace Envm

/-- The fields of `bd_t` that `_do_setenv` works on, and `load_addr`. -/
@[ext]
structure Board where
  envCrc : UInt32
  envData : Data
  enetaddr : List UInt8
  ipAddr : UInt32
  loadAddr : UInt32

/-- `*(data + i) = b`. -/
def write (data : Data) (i : Nat) (b : UInt8) : Except Fault Data :=
  if i < dataSize then .ok (Function.update data i b) else .error .writeOutside

/-! ## Deleting -/

/-- The loop that moves what is behind the deleted entry down. It returns with
`env` at the last NUL it wrote. -/
def copyDown : Nat → Data → Nat → Nat → Except Fault (Data × Nat)
  | 0, _, _, _ => .error .readOutside
  | fuel + 1, data, env, nxt =>
    read data nxt >>= fun c =>
      write data env c >>= fun data =>
        if c = 0 then
          read data (nxt + 1) >>= fun c' =>
            if c' = 0 then .ok (data, env) else copyDown fuel data (env + 1) (nxt + 1)
        else copyDown fuel data (env + 1) (nxt + 1)

/-- The two ways to close the gap. -/
def closeGap (data : Data) (env nxt : Nat) : Except Fault (Data × Nat) :=
  read data nxt >>= fun c =>
    if c = 0 then
      if 0 < env then .ok (data, env - 1) else write data env 0 >>= fun data => .ok (data, env)
    else copyDown dataSize data env nxt

/-- The deletion part of `_do_setenv`: the entry from `env` to its NUL at `nxt`. -/
def deleteEntry (data : Data) (env nxt : Nat) : Except Fault Data :=
  closeGap data env (nxt + 1) >>= fun p => write p.1 (p.2 + 1) 0

/-- `Delete any existing definition`. -/
def deleteFound (data : Data) : Option (Nat × Nat) → Except Fault Data
  | none => .ok data
  | some (env, nxt) => deleteEntry data env nxt

/-! ## Appending -/

/-- The scan for the end, and where the new entry begins. -/
def appendOffset (data : Data) : Except Fault Nat :=
  match firstFrom (fun k => data k = 0 ∧ data (k + 1) = 0) (dataSize - 1) 0 with
  | none => .error .readOutside
  | some env => .ok (if 0 < env then env + 1 else env)

/-- `strlen(name) + 2`, and one more than its length for each argument. -/
def entryLen (name : List UInt8) : List (List UInt8) → Nat
  | [] => name.length + 2
  | arg :: args => entryLen name args + arg.length + 1

/-- A string and its NUL, with `env` at the NUL afterwards. -/
def writeString (data : Data) (env : Nat) : List UInt8 → Except Fault (Data × Nat)
  | [] => write data env 0 >>= fun data => .ok (data, env)
  | b :: s => write data env b >>= fun data => writeString data (env + 1) s

/-- The values: a separator over the last NUL, and the string. -/
def writeArgs (data : Data) (env : Nat) (sep : UInt8) :
    List (List UInt8) → Except Fault (Data × Nat)
  | [] => .ok (data, env)
  | val :: args =>
    write data env sep >>= fun data =>
      writeString data (env + 1) val >>= fun p => writeArgs p.1 p.2 0x20 args

def writeEntry (data : Data) (env : Nat) (name : List UInt8) (args : List (List UInt8)) :
    Except Fault Data :=
  writeString data env name >>= fun p =>
    writeArgs p.1 p.2 EQ args >>= fun p => write p.1 (p.2 + 1) 0

/-! ## Variables the board keeps itself -/

/-- The value of a character that `isxdigit` accepts. -/
def xdigit (c : UInt8) : Option UInt32 :=
  if 0x30 ≤ c ∧ c ≤ 0x39 then some (c - 0x30).toUInt32
  else if 0x41 ≤ c ∧ c ≤ 0x46 then some ((c - 0x41).toUInt32 + 10)
  else if 0x61 ≤ c ∧ c ≤ 0x66 then some ((c - 0x61).toUInt32 + 10)
  else none

/-- `simple_strtoul` with a base: the number and what is behind it. -/
def simpleStrtoul (base : UInt32) : List UInt8 → UInt32 → UInt32 × List UInt8
  | [], result => (result, [])
  | c :: cp, result =>
    match xdigit c with
    | none => (result, c :: cp)
    | some value =>
      if value < base then simpleStrtoul base cp (result * base + value) else (result, c :: cp)

/-- Numbers with one character between each two. -/
def numbers (base : UInt32) : Nat → List UInt8 → List UInt32
  | 0, _ => []
  | n + 1, s =>
    (simpleStrtoul base s 0).1 :: numbers base n (simpleStrtoul base s 0).2.tail

def ethaddr : List UInt8 := [0x65, 0x74, 0x68, 0x61, 0x64, 0x64, 0x72]
def serialNumber : List UInt8 := [0x73, 0x65, 0x72, 0x69, 0x61, 0x6C, 0x23]
def ipaddr : List UInt8 := [0x69, 0x70, 0x61, 0x64, 0x64, 0x72]
def loadaddr : List UInt8 := [0x6C, 0x6F, 0x61, 0x64, 0x61, 0x64, 0x64, 0x72]

/-- `Some variables should be updated`. -/
def Board.refresh (b : Board) (name s : List UInt8) : Board :=
  if name = ethaddr then { b with enetaddr := (numbers 16 6 s).map UInt32.toUInt8 }
  else if name = ipaddr then
    { b with ipAddr := (numbers 10 4 s).foldl (fun a val => a <<< 8 ||| (val &&& 0xFF)) 0 }
  else if name = loadaddr then { b with loadAddr := (simpleStrtoul 16 s 0).1 }
  else b

/-! ## The whole call -/

/-- The bytes of `bi_env_data`. -/
def bytes (data : Data) : List UInt8 := (List.range dataSize).map data

/-- `Update CRC`. -/
def Board.updateCrc (b : Board) : Board :=
  { b with envCrc := crc32 0 (bytes b.envData) dataSize }

/-- `Ethernet Address and serial# can be set only once`. -/
def setOnce (name : List UInt8) : Prop := name = serialNumber ∨ name = ethaddr

instance (name : List UInt8) : Decidable (setOnce name) := inferInstanceAs (Decidable (_ ∨ _))

/-- `Append new definition at the end`. -/
def appendEntry (b : Board) (name arg : List UInt8) (args : List (List UInt8)) :
    Except Fault (Int × Board) :=
  appendOffset b.envData >>= fun env =>
    if dataSize < entryLen name (arg :: args) then .ok (-1, b)
    else
      writeEntry b.envData env name (arg :: args) >>= fun data =>
        .ok (0, ({ b with envData := data } : Board).updateCrc.refresh name arg)

/-- `_do_setenv`: what it returns, and the board afterwards. `args` are the
arguments behind the name. -/
def doSetenv (b : Board) (name : List UInt8) (args : List (List UInt8)) :
    Except Fault (Int × Board) :=
  search b.envData name >>= fun oldval =>
    if oldval.isSome = true ∧ setOnce name then .ok (-1, b)
    else
      deleteFound b.envData oldval >>= fun data =>
        match args with
        | [] => .ok (0, ({ b with envData := data } : Board).updateCrc)
        | arg :: args => appendEntry { b with envData := data } name arg args

/-- `-`. -/
def deleteMark : List UInt8 := [0x2D]

def setenv (b : Board) (varname varvalue : List UInt8) : Except Fault (Int × Board) :=
  if varvalue = deleteMark then doSetenv b varname [] else doSetenv b varname [varvalue]

/-- An environment: entries with a `=`. -/
structure Environment (data : Data) (es : List (List UInt8)) : Prop extends Block data es where
  assigned : ∀ e ∈ es, EQ ∈ e

/-- The entries in an array that was cleared before. -/
def stored (es : List (List UInt8)) : Data := overlay (fun _ => 0) 0 (pack 0 es ++ [0])

theorem environment_stored {es : List (List UInt8)} (h : ∀ e ∈ es, Packable 0 e ∧ EQ ∈ e)
    (hfits : (pack 0 es).length + 1 ≤ dataSize) : Environment (stored es) es where
  lies := lies_overlay
  packable e he := (h e he).1
  fits := hfits
  assigned e he := (h e he).2

/-! ## The deletion moves the entries -/

section
variable {data : Data} {e l : List UInt8} {es es₁ es₂ : List (List UInt8)} {env nxt : Nat}

theorem read_of_lt {i : Nat} (h : i < dataSize) : read data i = .ok (data i) := if_pos h

theorem write_of_lt {i : Nat} {b : UInt8} (h : i < dataSize) :
    write data i b = .ok (Function.update data i b) := if_pos h

theorem copyDown_text (fuel : Nat) (hlies : Lies data nxt l) (hz : 0 ∉ l) (henv : env < nxt)
    (hfits : nxt + l.length ≤ dataSize) :
    copyDown (l.length + fuel) data env nxt =
      copyDown fuel (overlay data env l) (env + l.length) (nxt + l.length) := by
  induction l generalizing data env nxt with
  | nil =>
    rw [length_nil, Nat.zero_add]
    rfl
  | cons b l ih =>
    obtain ⟨hb, hrest⟩ := lies_cons_iff.mp hlies
    rw [length_cons] at hfits
    have hne : b ≠ 0 := fun h => hz (h ▸ mem_cons_self)
    rw [length_cons, Nat.add_right_comm, copyDown, read_of_lt (by omega), hb, ok_bind,
      write_of_lt (by omega), ok_bind, if_neg hne,
      ih (hrest.update (.inl (by omega)) b) (fun h => hz (mem_cons_of_mem _ h)) (by omega)
        (by omega), overlay_cons]
    simp only [Nat.add_assoc, Nat.add_comm 1]

theorem copyDown_entries (fuel : Nat) (hlies : Lies data nxt (pack 0 es ++ [0]))
    (hpack : ∀ e ∈ es, Packable 0 e) (hne : es ≠ []) (henv : env < nxt)
    (hfits : nxt + (pack 0 es).length < dataSize) :
    copyDown ((pack 0 es).length + fuel) data env nxt =
      .ok (overlay data env (pack 0 es), env + (pack 0 es).length - 1) := by
  induction es generalizing data env nxt fuel with
  | nil => exact absurd rfl hne
  | cons e es ih =>
    obtain ⟨-, hz⟩ := hpack e mem_cons_self
    rw [length_pack_cons] at hfits ⊢
    rw [pack_cons, append_assoc, cons_append, lies_append_iff, lies_cons_iff] at hlies
    obtain ⟨hentry, hnul, hrest⟩ := hlies
    have hnul' : overlay data env e (nxt + e.length) = 0 := by
      rw [overlay_outside (by omega), hnul]
    have hrest' : Lies (Function.update (overlay data env e) (env + e.length) 0)
        (nxt + e.length + 1) (pack 0 es ++ [0]) :=
      (hrest.overlay (.inl (by omega))).update (.inl (by omega)) 0
    rw [show e.length + 1 + (pack 0 es).length + fuel = e.length + ((pack 0 es).length + fuel + 1)
      by omega, copyDown_text _ hentry hz henv (by omega), copyDown, read_of_lt (by omega), hnul',
      ok_bind, write_of_lt (by omega), ok_bind, if_pos rfl, read_of_lt (by omega), ok_bind,
      pack_cons, overlay_append, overlay_cons]
    cases es with
    | nil =>
      rw [pack, nil_append, lies_cons_iff] at hrest'
      rw [if_pos hrest'.1]
      rfl
    | cons e' es =>
      obtain ⟨hne', hz'⟩ := hpack e' (mem_cons_of_mem _ mem_cons_self)
      have hfirst : Function.update (overlay data env e) (env + e.length) 0
          (nxt + e.length + 1) ≠ 0 := by
        rw [pack_cons, append_assoc, lies_append_iff] at hrest'
        have hpos : 0 < e'.length := length_pos_iff.mpr hne'
        exact fun h => hz' (h ▸ hrest'.1.mem (Nat.le_refl _) (by omega))
      rw [if_neg hfirst, ih fuel hrest' (fun e'' he'' => hpack e'' (mem_cons_of_mem _ he''))
        (cons_ne_nil _ _) (by omega) (by omega)]
      rw [show env + e.length + 1 + (pack 0 (e' :: es)).length - 1 =
        env + (e.length + 1 + (pack 0 (e' :: es)).length) - 1 by omega]

/-- What the deletion writes: the entries behind the deleted one, in its place.
For the only entry there is nothing before it whose NUL could be kept. -/
def remains (es₁ es₂ : List (List UInt8)) : List UInt8 :=
  if es₁ = [] ∧ es₂ = [] then [0, 0] else pack 0 es₂ ++ [0]

theorem deleteEntry_eq (h : Block data (es₁ ++ e :: es₂)) (henv : env = (pack 0 es₁).length) :
    deleteEntry data env (env + e.length) = .ok (overlay data env (remains es₁ es₂)) := by
  have hlies := h.lies
  have hfits := h.fits
  obtain ⟨hne, -⟩ := h.packable e (mem_append_right _ mem_cons_self)
  have hpos : 0 < e.length := length_pos_iff.mpr hne
  rw [pack_append, length_append, length_pack_cons, ← henv] at hfits
  rw [pack_append, pack_cons, append_assoc, append_assoc, cons_append,
    lies_append_iff, lies_append_iff, lies_cons_iff, Nat.zero_add, ← henv] at hlies
  obtain ⟨-, -, -, hrest⟩ := hlies
  unfold deleteEntry closeGap
  rw [read_of_lt (by omega), ok_bind]
  cases es₂ with
  | nil =>
    rw [pack, nil_append, lies_cons_iff] at hrest
    rw [if_pos hrest.1]
    by_cases hfirst : es₁ = []
    · have hzero : env = 0 := by rw [henv, hfirst]; rfl
      rw [hzero, if_neg (Nat.lt_irrefl 0), write_of_lt (i := 0) (by decide), remains,
        if_pos ⟨hfirst, rfl⟩]
      exact write_of_lt (i := 1) (by decide)
    · have hbefore : 0 < env := by
        have := length_le_length_pack 0 es₁
        have := length_pos_iff.mpr hfirst
        omega
      rw [if_pos hbefore, ok_bind, remains, if_neg (fun hboth => hfirst hboth.1)]
      dsimp only
      rw [Nat.sub_add_cancel hbefore, write_of_lt (by omega)]
      rfl
  | cons e' es =>
    have hpack : ∀ e'' ∈ e' :: es, Packable 0 e'' := fun e'' he'' =>
      h.packable e'' (mem_append_right _ (mem_cons_of_mem _ he''))
    have hchar : data (env + e.length + 1) ≠ 0 :=
      (lies_append_iff.mp hrest).1.first_ne (hpack e' mem_cons_self)
    have hsize : 0 < (pack 0 (e' :: es)).length := by
      rw [length_pack_cons]
      omega
    have hloop := copyDown_entries (dataSize - (pack 0 (e' :: es)).length) hrest hpack
      (cons_ne_nil _ _) (by omega : env < env + e.length + 1) (by omega)
    rw [Nat.add_sub_cancel' (by omega)] at hloop
    rw [if_neg hchar, hloop, ok_bind, remains, if_neg (fun hboth => cons_ne_nil _ _ hboth.2)]
    dsimp only
    rw [Nat.sub_add_cancel (by omega), write_of_lt (by omega), overlay_append]
    rfl

theorem mem_of_mem_rest {e' : List UInt8} (h : e' ∈ es₁ ++ es₂) : e' ∈ es₁ ++ e :: es₂ :=
  ((sublist_cons_self e es₂).append_left es₁).subset h

/-- What is left is a block of the other entries. Without any its second byte is
NUL as well. -/
theorem Block.delete (h : Block data (es₁ ++ e :: es₂)) :
    Block (overlay data (pack 0 es₁).length (remains es₁ es₂)) (es₁ ++ es₂) ∧
      (es₁ ++ es₂ = [] → overlay data (pack 0 es₁).length (remains es₁ es₂) 1 = 0) := by
  have hfits := h.fits
  rw [pack_append, length_append, length_pack_cons] at hfits
  have hlies := h.lies
  rw [pack_append, append_assoc, lies_append_iff, Nat.zero_add] at hlies
  refine ⟨⟨⟨?_, fun e' he' => h.packable e' (mem_of_mem_rest he')⟩, ?_⟩, fun hnil => ?_⟩
  · rw [pack_append, append_assoc, lies_append_iff, Nat.zero_add]
    refine ⟨hlies.1.overlay (.inr (by omega)), ?_⟩
    have hwritten : Lies (overlay data (pack 0 es₁).length (remains es₁ es₂)) (pack 0 es₁).length
        (remains es₁ es₂) := lies_overlay
    by_cases hboth : es₁ = [] ∧ es₂ = []
    · rw [remains, if_pos hboth, lies_cons_iff] at hwritten
      rw [remains, if_pos hboth, hboth.2]
      exact lies_cons_iff.mpr ⟨hwritten.1, lies_nil⟩
    · rw [remains, if_neg hboth] at hwritten ⊢
      exact hwritten
  · rw [pack_append, length_append]
    omega
  · have hboth := append_eq_nil_iff.mp hnil
    rw [remains, if_pos hboth, hboth.1]
    rfl

end

/-! ## Deleting a variable -/

theorem Environment.head {data : Data} {es : List (List UInt8)} (h : Environment data es) :
    ∀ e ∈ es.head?, EQ ∈ e := by
  intro e he
  exact h.assigned e (mem_of_mem_head? he)

/-- If the search found an entry of a name that may be deleted, it is the first
one with this key, and the deletion leaves the environment of the other
entries in their order. A call that only deletes returns 0 and leaves it
so. -/
theorem deletion_drops_entry {b : Board} {es : List (List UInt8)} {name : List UInt8}
    {env nxt : Nat} (h : Environment b.envData es)
    (hfound : search b.envData name = .ok (some (env, nxt))) :
    ∃ k, ∃ hk : k < es.length,
      env = (pack 0 (es.take k)).length ∧ nxt = env + es[k].length ∧
      key es[k] = some name ∧ (∀ e ∈ es.take k, key e ≠ some name) ∧
      ∃ data, deleteEntry b.envData env nxt = .ok data ∧ Environment data (es.eraseIdx k) ∧
        (¬ setOnce name → setenv b name deleteMark =
          .ok (0, { b with envData := data, envCrc := crc32 0 (bytes data) dataSize })) := by
  have hhead := h.head
  rw [search_block name h.toBlock hhead] at hfound
  have hlocate := Except.ok.inj hfound
  obtain ⟨es₁, e, es₂, rfl, hkey, hbefore, hp⟩ := locate_eq_some_iff.mp hlocate
  obtain ⟨rfl, rfl⟩ := Prod.mk.inj hp
  have hget : (es₁ ++ e :: es₂)[es₁.length]? = some e := by simp
  have hk : es₁.length < (es₁ ++ e :: es₂).length := by simp
  have herase : (es₁ ++ e :: es₂).eraseIdx es₁.length = es₁ ++ es₂ := by
    rw [List.eraseIdx_append_of_length_le (Nat.le_refl _), Nat.sub_self, List.eraseIdx_cons_zero]
  rw [List.getElem?_eq_getElem hk] at hget
  have hentry := Option.some.inj hget
  have hdelete := deleteEntry_eq h.toBlock (Nat.zero_add _)
  refine ⟨es₁.length, hk, ?_⟩
  rw [hentry, List.take_left, herase]
  refine ⟨Nat.zero_add _, rfl, hkey, hbefore, _, hdelete,
    ⟨?_, fun e' he' => h.assigned e' (mem_of_mem_rest he')⟩, fun hname => ?_⟩
  · rw [Nat.zero_add]
    exact h.toBlock.delete.1
  · rw [setenv, if_pos rfl, doSetenv, search_block name h.toBlock hhead, ok_bind, hlocate,
      if_neg (fun hboth => hname hboth.2), deleteFound, hdelete]
    rfl

/-- `b=2` is the second of the three entries `a=1`, `b=2`, `c=3`. -/
theorem deletion_drops_second :
    let es : List (List UInt8) := [[0x61, EQ, 0x31], [0x62, EQ, 0x32], [0x63, EQ, 0x33]]
    let b : Board := ⟨0, stored es, [], 0, 0⟩
    search b.envData [0x62] = .ok (some (4, 7)) ∧
      ∃ k, ∃ hk : k < es.length,
        4 = (pack 0 (es.take k)).length ∧ 7 = 4 + es[k].length ∧
        key es[k] = some [0x62] ∧ (∀ e ∈ es.take k, key e ≠ some [0x62]) ∧
        ∃ data, deleteEntry b.envData 4 7 = .ok data ∧ Environment data (es.eraseIdx k) ∧
          (¬ setOnce [0x62] → setenv b [0x62] deleteMark =
            .ok (0, { b with envData := data, envCrc := crc32 0 (bytes data) dataSize })) := by
  intro es b
  have henv : Environment b.envData es :=
    environment_stored (by simp [es, Packable, EQ]) (by decide)
  have hfound : search b.envData [0x62] = .ok (some (4, 7)) :=
    search_block [0x62] henv.toBlock (by simp [es])
  exact ⟨hfound, deletion_drops_entry henv hfound⟩

end Envm
