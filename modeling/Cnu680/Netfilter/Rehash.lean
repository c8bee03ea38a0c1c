import Cnu680.Framework.Links
import Cnu680.Netfilter.Conntrack
import Mathlib.Data.List.FinRange
import Mathlib.Data.List.Pairwise
import Mathlib.Data.UInt

/-! # Rehash

`rehash_conntracks` of `ip_conntrack_core.c`, in the build for
`CONFIG_S3C2510_NAPI`, on the memory in which the hash lists are linked:
the buckets of `ip_conntrack_hash`, the local list `conntracks` and the
entries all hold a `list_head`. `list_add`, `list_del` and `list_del_init`
are `Links.add`, `Links.del` and `Links.delInit`.

From each bucket the function takes what follows the head, as if it were
the only entry. The other entries of the bucket are lost, and where the
bucket is empty it is the head itself that is put on the list. So the
table survives only if every bucket has exactly one entry. -/

open Framework Function List

namespace Conntrack

/-- `ip_conntrack_htable_bits`, which is the `fls` of a positive size. -/
structure HtableBits where
  bits : UInt32
  pos : 0 < bits
  lt : bits < 32

def HtableBits.config (c : HtableBits) : Config := ⟨c.bits, 0, []⟩

def HtableBits.htableSize (c : HtableBits) : Nat := 1 <<< c.bits.toNat

theorem HtableBits.htableSize_ne_zero (c : HtableBits) : c.htableSize ≠ 0 := by
  simp [HtableBits.htableSize, Nat.one_shiftLeft]

instance (c : HtableBits) : NeZero c.htableSize := ⟨c.htableSize_ne_zero⟩

theorem hashLong_lt (c : HtableBits) (val : UInt32) :
    (hashLong val c.bits).toNat < c.htableSize := by
  have hpos : 0 < c.bits.toNat := c.pos
  have hlt : c.bits.toNat < 32 := c.lt
  have hsub : (32 - c.bits).toNat = 32 - c.bits.toNat :=
    UInt32.toNat_sub_of_le _ _ (Nat.le_of_lt c.lt)
  unfold hashLong HtableBits.htableSize
  rw [UInt32.toNat_shiftRight, hsub, Nat.mod_eq_of_lt (by omega), Nat.one_shiftLeft,
    Nat.shiftRight_eq_div_pow, Nat.div_lt_iff_lt_mul (Nat.two_pow_pos _), ← Nat.pow_add]
  have h32 : c.bits.toNat + (32 - c.bits.toNat) = 32 := by omega
  rw [h32]
  exact UInt32.toNat_lt _

def hashConntrack (c : HtableBits) (hashBase : UInt32) (tuple : Tuple) : Fin c.htableSize :=
  ⟨({ Table.empty with hashBase := hashBase }.hashConntrack c.config tuple).toNat,
    hashLong_lt c _⟩

/-- Where there is a `list_head`. -/
inductive Addr (n : Nat) where
  /-- `ip_conntrack_hash[i]`. -/
  | bucket (i : Fin n)
  /-- The list on which the entries wait. -/
  | conntracks
  | entry (node : Node)
  deriving DecidableEq

structure HashTable (c : HtableBits) where
  links : Links (Addr c.htableSize)
  /-- The tuple of each entry. -/
  tuple : Node → Tuple
  hashBase : UInt32
  secsBetweenRehash : UInt32
  minNextRehash : UInt32

/-- What the memory holds behind a `list_head` that is not in an entry, where
a tuple is expected. -/
abbrev Stray (n : Nat) := Links (Addr n) → Addr n → Tuple

inductive RehashFault where
  /-- A `NULL` link is followed. -/
  | null
  /-- The loop is still running. -/
  | running
  deriving DecidableEq, Repr

def orNull {α : Type} : Option α → Except RehashFault α
  | none => .error .null
  | some a => .ok a

namespace HashTable

variable {n : Nat} {b : Fin n → List Node} {i : Fin n} {node : Node} {is : List (Fin n)}

/-- The first loop, for one bucket. -/
def strip (m : Links (Addr n)) (i : Fin n) : Except RehashFault (Links (Addr n)) := do
  let l ← orNull (m.next (.bucket i))
  let m ← orNull (m.delInit (.bucket i))
  orNull (m.add l .conntracks)

/-- The body of the second loop. -/
def moveBack (hash : Links (Addr n) → Addr n → Fin n) (m : Links (Addr n)) (l : Addr n) :
    Except RehashFault (Links (Addr n)) := do
  let m ← orNull (m.del l)
  orNull (m.add l (.bucket (hash m l)))

/-- The second loop, for so many rounds. -/
def addBack (hash : Links (Addr n) → Addr n → Fin n) :
    Nat → Links (Addr n) → Except RehashFault (Links (Addr n))
  | 0, _ => .error .running
  | fuel + 1, m => do
    let l ← orNull (m.next .conntracks)
    if l = .conntracks then .ok m
    else
      let m ← moveBack hash m l
      addBack hash fuel m

variable {c : HtableBits}

/-- `h->tuple`. -/
def tupleAt (t : HashTable c) (stray : Stray c.htableSize) (m : Links (Addr c.htableSize)) :
    Addr c.htableSize → Tuple
  | .entry node => t.tuple node
  | a => stray m a

/-- `hash_conntrack(&h->tuple)`, of whatever the list holds. -/
def hashAt (t : HashTable c) (hashBase : UInt32) (stray : Stray c.htableSize)
    (m : Links (Addr c.htableSize)) (a : Addr c.htableSize) : Fin c.htableSize :=
  hashConntrack c hashBase (t.tupleAt stray m a)

def HZ : UInt32 := 100

def ULONG_MAX : UInt32 := 0xffffffff

def rehashConntracks (t : HashTable c) (newHashBase jiffies : UInt32)
    (stray : Stray c.htableSize) (fuel : Nat) : Except RehashFault (HashTable c) := do
  let m ← run strip (t.links.init .conntracks) (List.finRange c.htableSize)
  let hashBase := t.hashBase ^^^ newHashBase
  let m ← addBack (t.hashAt hashBase stray) fuel m
  let secs :=
    if t.secsBetweenRehash < ULONG_MAX / 2 / HZ then t.secsBetweenRehash * 2
    else t.secsBetweenRehash
  .ok { t with
    links := m
    hashBase := hashBase
    secsBetweenRehash := secs
    minNextRehash := jiffies + secs * HZ }

/-- `LIST_FIND`, from an element on. -/
def listFind (t : HashTable c) (stray : Stray c.htableSize) (head : Addr c.htableSize)
    (tuple : Tuple) :
    Nat → Addr c.htableSize → Except RehashFault (Option (Addr c.htableSize))
  | 0, _ => .error .running
  | fuel + 1, a => do
    let a ← orNull (t.links.next a)
    if a = head then .ok none
    else if t.tupleAt stray t.links a = tuple then .ok (some a)
    else t.listFind stray head tuple fuel a

/-- `__ip_conntrack_find`. -/
def find (t : HashTable c) (stray : Stray c.htableSize) (fuel : Nat) (tuple : Tuple) :
    Except RehashFault (Option (Addr c.htableSize)) :=
  let head := .bucket (hashConntrack c t.hashBase tuple)
  t.listFind stray head tuple fuel head

/-- The heads and the entries of the buckets. -/
def Members (b : Fin n → List Node) : Set (Addr n) :=
  {a | a ≠ .conntracks ∧ ∀ node, a = .entry node → ∃ i, node ∈ b i}

/-- The lists are well formed, and the entries of the buckets are these, each
once. -/
structure Holds (t : HashTable c) (b : Fin c.htableSize → List Node) : Prop where
  ring : ∀ i, Trail t.links.next (.bucket i) ((b i).map .entry) (.bucket i)
  linked : Linked t.links (Members b)
  nodup : ((List.finRange c.htableSize).flatMap b).Nodup

/-- The rehash ends, with the same entries, each in the bucket of its hash,
where it is found. -/
def Preserves (t : HashTable c) (b : Fin c.htableSize → List Node)
    (newHashBase jiffies : UInt32) (stray : Stray c.htableSize) : Prop :=
  ∃ fuel t' b', t.rehashConntracks newHashBase jiffies stray fuel = .ok t' ∧ t'.Holds b' ∧
    ((List.finRange c.htableSize).flatMap b').Perm ((List.finRange c.htableSize).flatMap b) ∧
    (∀ i, ∀ node ∈ b' i, hashConntrack c t'.hashBase (t'.tuple node) = i) ∧
    ∀ i, ∀ node ∈ b i, ∃ fuel found, t'.find stray fuel (t.tuple node) = .ok (some (.entry found)) ∧
      t'.tuple found = t.tuple node

/-! ## The first loop -/

section

variable {m : Links (Addr n)} {done : List (Fin n)}

/-- What the first loop takes from a bucket. -/
def first (b : Fin n → List Node) (i : Fin n) : Addr n :=
  match b i with
  | [] => .bucket i
  | node :: _ => .entry node

/-- What is still linked of a bucket. -/
def kept (b : Fin n → List Node) (done : List (Fin n)) (i : Fin n) : List Node :=
  if i ∈ done then (b i).take 1 else b i

/-- The heads, and the entries that are still linked. -/
def Live (b : Fin n → List Node) (done : List (Fin n)) : Set (Addr n) :=
  {a | ∀ node, a = .entry node → ∃ i, node ∈ kept b done i}

/-- The entries of the buckets are distinct. -/
structure Distinct (b : Fin n → List Node) : Prop where
  nodup : ∀ i, (b i).Nodup
  disjoint : ∀ {i j node}, node ∈ b i → node ∈ b j → i = j

theorem distinct_of_nodup (h : ((List.finRange n).flatMap b).Nodup) : Distinct b := by
  rw [nodup_flatMap] at h
  refine ⟨fun i => h.1 i (mem_finRange i), fun {i j node} hi hj => ?_⟩
  by_contra hne
  have hsymm : Std.Symm (Function.onFun List.Disjoint b) := ⟨fun _ _ hd => hd.symm⟩
  exact h.2.forall (mem_finRange i) (mem_finRange j) hne hi hj

/-- The buckets in `done` are stripped. -/
structure Stripped (b : Fin n → List Node) (m : Links (Addr n)) (done : List (Fin n)) : Prop where
  linked : Linked m (Live b done)
  waiting : Trail m.next .conntracks (done.map (first b)) .conntracks
  alone : ∀ i ∈ done, b i ≠ [] → m.next (.bucket i) = some (.bucket i)
  ring : ∀ i ∉ done, Trail m.next (.bucket i) ((b i).map .entry) (.bucket i)

theorem kept_subset (b : Fin n → List Node) (done : List (Fin n)) (i : Fin n) :
    kept b done i ⊆ b i := by
  unfold kept
  split
  · exact take_subset 1 (b i)
  · exact List.Subset.refl (b i)

theorem conntracks_mem_live : .conntracks ∈ Live b done := fun _ h => by cases h

theorem bucket_mem_live (i : Fin n) : .bucket i ∈ Live b done := fun _ h => by cases h

theorem entry_mem_live : .entry node ∈ Live b done ↔ ∃ i, node ∈ kept b done i :=
  ⟨fun h => h node rfl, fun h _ e => Addr.entry.inj e ▸ h⟩

/-- The ring of a bucket. -/
def ringOf (b : Fin n → List Node) (i : Fin n) : List (Addr n) := .bucket i :: (b i).map .entry

theorem first_mem_ringOf (i : Fin n) : first b i ∈ ringOf b i := by
  unfold first ringOf
  cases h : b i <;> simp

theorem ringOf_disjoint (hb : Distinct b) {i j : Fin n} {a : Addr n} (hi : a ∈ ringOf b i)
    (hj : a ∈ ringOf b j) : i = j := by
  unfold ringOf at hi hj
  cases a with
  | bucket k => simp_all
  | conntracks => simp at hi
  | entry node => exact hb.disjoint (by simpa using hi) (by simpa using hj)

theorem next_bucket (h : Trail m.next (.bucket i) ((b i).map .entry) (.bucket i)) :
    m.next (.bucket i) = some (first b i) := by
  unfold first
  cases hbi : b i with
  | nil => rw [hbi] at h; exact h
  | cons node rest => rw [hbi] at h; exact h.1

theorem entry_mem_live_cons (hb : Distinct b) (hi : i ∉ done) :
    .entry node ∈ Live b (i :: done) ↔
      node ∈ (b i).take 1 ∨ .entry node ∈ Live b done ∧ node ∉ b i := by
  have hkept : ∀ j, j ≠ i → kept b (i :: done) j = kept b done j := fun j hj => by
    simp [kept, hj]
  rw [entry_mem_live, entry_mem_live]
  constructor
  · rintro ⟨j, hj⟩
    by_cases hji : j = i
    · subst hji
      exact .inl (by simpa [kept] using hj)
    · rw [hkept j hji] at hj
      exact .inr ⟨⟨j, hj⟩, fun hmem => hji (hb.disjoint (kept_subset b done j hj) hmem)⟩
  · rintro (hmem | ⟨⟨j, hj⟩, hmem⟩)
    · exact ⟨i, by simpa [kept] using hmem⟩
    · have hji : j ≠ i := fun e => hmem (e ▸ kept_subset b done j hj)
      exact ⟨j, (hkept j hji).symm ▸ hj⟩

/-- Once the head is taken out of its ring, what else is linked is linked
without the rest of the ring. -/
theorem exists_linked_first (hb : Distinct b) (hi : i ∉ done)
    (hlive : Linked m (Live b done \ {.bucket i}))
    (hring : Linked m ({a | a ∈ ringOf b i} \ {.bucket i})) (hself : Linked m {.bucket i}) :
    ∃ T, Linked m T ∧ .conntracks ∈ T ∧ first b i ∉ T ∧
      insert (first b i) T = Live b (i :: done) := by
  have hrest := hlive.diff hring
  unfold first
  cases hbi : b i with
  | nil =>
    refine ⟨_, hrest, ?_, fun hmem => hmem.1.2 rfl, ?_⟩
    · simp [conntracks_mem_live, ringOf]
    · ext a
      cases a with
      | bucket j => simp [bucket_mem_live, ringOf, hbi]
      | conntracks => simp [conntracks_mem_live, ringOf]
      | entry node => simp [entry_mem_live_cons hb hi, ringOf, hbi]
  | cons node rest =>
    refine ⟨_, hrest.union hself, ?_, ?_, ?_⟩
    · simp [conntracks_mem_live, ringOf]
    · simp [ringOf, hbi]
    · ext a
      cases a with
      | bucket j => simp [bucket_mem_live, ringOf, hbi, eq_or_ne]
      | conntracks => simp [conntracks_mem_live, ringOf]
      | entry x => simp [entry_mem_live_cons hb hi, ringOf, hbi]

theorem Stripped.step (hs : Stripped b m done) (hb : Distinct b) (hi : i ∉ done) :
    ∃ m', strip m i = .ok m' ∧ Stripped b m' (i :: done) := by
  have htrail := hs.ring i hi
  have hring := (htrail.linked hs.linked (bucket_mem_live i)).1
  obtain ⟨m₁, p, y, hdel, hp, -, hy, hring₁, hself, hnext₁⟩ := hring.delInit mem_cons_self
  obtain ⟨m₁', -, -, hdel', -, -, -, hlive₁, -⟩ := hs.linked.delInit (bucket_mem_live i)
  obtain rfl : m₁ = m₁' := Option.some.inj (hdel.symm.trans hdel')
  obtain ⟨T, hT, hconntracks, hfirst, hlive⟩ := exists_linked_first hb hi hlive₁ hring₁ hself
  obtain ⟨m₂, z, hadd, hz, hlinked, hnext₂⟩ := hT.add hconntracks hfirst
  -- outside the ring, only the link of `conntracks` changes
  have hout₁ : ∀ a ∉ ringOf b i, m₁.next a = m.next a := by
    intro a ha
    have hap : a ≠ p := fun e => ha (e ▸ hp)
    have hai : a ≠ .bucket i := fun e => ha (e ▸ mem_cons_self)
    rw [hnext₁, update_of_ne hai, update_of_ne hap]
  have hout₂ : ∀ a ∉ ringOf b i, a ≠ .conntracks → m₂.next a = m.next a := by
    intro a ha hac
    have haf : a ≠ first b i := fun e => ha (e ▸ first_mem_ringOf i)
    rw [hnext₂, update_of_ne hac, update_of_ne haf, hout₁ a ha]
  have hother : ∀ j, j ≠ i → ∀ a ∈ ringOf b j, a ∉ ringOf b i ∧ a ≠ .conntracks := by
    intro j hji a ha
    refine ⟨fun hmem => hji (ringOf_disjoint hb ha hmem), ?_⟩
    rintro rfl
    simp [ringOf] at ha
  have hne : ∀ j ∈ done, j ≠ i := fun j hj e => hi (e ▸ hj)
  refine ⟨m₂, by simp [strip, orNull, next_bucket htrail, hdel, hadd], hlive ▸ hlinked, ?_, ?_, ?_⟩
  · rw [hnext₂, map_cons]
    have hwaiting : ∀ a ∈ done.map (first b), a ∉ ringOf b i ∧ a ≠ .conntracks := by
      intro a ha
      obtain ⟨j, hj, rfl⟩ := mem_map.mp ha
      exact hother j (hne j hj) _ (first_mem_ringOf j)
    have hc : .conntracks ∉ ringOf b i := by simp [ringOf]
    refine Trail.push (hs.waiting.congr fun a ha => ?_) ?_ ?_ hz
    · rcases mem_cons.mp ha with rfl | ha
      · exact hout₁ _ hc
      · exact hout₁ a (hwaiting a ha).1
    · exact fun hmem => (hwaiting _ hmem).2 rfl
    · intro hmem
      rcases mem_cons.mp hmem with e | hmem
      · exact hc (e ▸ first_mem_ringOf i)
      · exact (hwaiting _ hmem).1 (first_mem_ringOf i)
  · intro j hj hbj
    rcases mem_cons.mp hj with rfl | hj
    · have hfirst : Addr.bucket j ≠ first b j := by
        unfold first
        cases hb' : b j with
        | nil => exact absurd hb' hbj
        | cons node rest => simp
      have hconntracks : Addr.bucket j ≠ .conntracks := by simp
      rw [hnext₂, update_of_ne hconntracks, update_of_ne hfirst, hnext₁, update_self]
    · obtain ⟨hout, hc⟩ := hother j (hne j hj) (.bucket j) mem_cons_self
      rw [hout₂ _ hout hc]
      exact hs.alone j hj hbj
  · intro j hj
    have hji : j ≠ i := fun e => hj (e ▸ mem_cons_self)
    refine (hs.ring j fun hmem => hj (mem_cons_of_mem i hmem)).congr fun a ha => ?_
    exact hout₂ a (hother j hji a ha).1 (hother j hji a ha).2

theorem run_strip (hs : Stripped b m done) (hb : Distinct b) (hnodup : is.Nodup)
    (hdisjoint : ∀ i ∈ is, i ∉ done) :
    ∃ m', run strip m is = .ok m' ∧ Stripped b m' (is.reverse ++ done) := by
  induction is generalizing m done with
  | nil => exact ⟨m, rfl, hs⟩
  | cons i is ih =>
    obtain ⟨hi, hnodup⟩ := nodup_cons.mp hnodup
    obtain ⟨m₁, hstrip, hs₁⟩ := hs.step hb (hdisjoint i mem_cons_self)
    have hdisjoint₁ : ∀ j ∈ is, j ∉ i :: done := by
      intro j hj hmem
      rcases mem_cons.mp hmem with rfl | hmem
      · exact hi hj
      · exact hdisjoint j (mem_cons_of_mem i hj) hmem
    obtain ⟨m', hrun, hs'⟩ := ih hs₁ hnodup hdisjoint₁
    refine ⟨m', ?_, ?_⟩
    · rw [run_cons, hstrip, ok_bind]
      exact hrun
    · rw [reverse_cons, append_assoc]
      exact hs'

end

/-! ## The second loop -/

section

variable {hash : Links (Addr n) → Addr n → Fin n} {m m' : Links (Addr n)}
  {S : Set (Addr n)} {l : Addr n} {done : List (Fin n)}

/-- Not part of an entry. -/
def IsHead (a : Addr n) : Prop := ∀ node, a ≠ .entry node

/-- Two heads are in one ring. -/
def Joined (m : Links (Addr n)) : Prop :=
  ∃ a b, IsHead a ∧ IsHead b ∧ a ≠ b ∧ Leads m.next a b

theorem isHead_bucket (i : Fin n) : IsHead (.bucket i) := fun _ => by simp

theorem isHead_conntracks : IsHead (n := n) .conntracks := fun _ => by simp

/-- A round keeps the links and does not part heads: an element that is moved
gets into the ring of a bucket. -/
theorem moveBack_ok (h : moveBack hash m l = .ok m') (hS : Linked m S)
    (hheads : ∀ a, IsHead a → a ∈ S) (hl : l ∈ S) : Linked m' S ∧ (Joined m → Joined m') := by
  obtain ⟨m₁, p, y, hdel, hp, hpl, hly, hS₁, hnext₁⟩ := hS.del hl
  unfold moveBack at h
  rw [hdel, orNull, ok_bind] at h
  by_cases hself : l = .bucket (hash m₁ l)
  · -- the links of an element that is taken out are `NULL`
    have hnull : m₁.next (.bucket (hash m₁ l)) = none := by
      rw [← hself, hnext₁, update_self]
    simp [Links.add, hnull, orNull] at h
  · have hmem : .bucket (hash m₁ l) ∈ S \ {l} :=
      ⟨hheads _ (isHead_bucket _), fun e => hself e.symm⟩
    have hout : l ∉ S \ {l} := fun hmem => hmem.2 rfl
    obtain ⟨m₂, z, hadd, hz, hS₂, hnext₂⟩ := hS₁.add hmem hout
    rw [hadd] at h
    obtain rfl : m₂ = m' := Except.ok.inj h
    have hinsert : insert l (S \ {l}) = S := Set.insert_sdiff_self_of_mem hl
    refine ⟨hinsert ▸ hS₂, fun hjoined => ?_⟩
    by_cases hhead : IsHead l
    · refine ⟨_, l, isHead_bucket (hash m₁ l), hhead, fun e => hself e.symm, .single ?_⟩
      rw [hnext₂, update_self]
    · obtain ⟨a, b, ha, hb, hab, hleads⟩ := hjoined
      have hal : a ≠ l := fun e => hhead (e ▸ ha)
      have hbl : b ≠ l := fun e => hhead (e ▸ hb)
      refine ⟨a, b, ha, hb, hab, ?_⟩
      rw [hnext₂]
      refine Leads.add (S := S \ {l}) ?_ hS₁ ⟨hheads a ha, hal⟩ hout hz
      rw [hnext₁]
      exact hleads.del hS (hheads a ha) hp hpl hly hal hbl

theorem addBack_ok {fuel : Nat} (h : addBack hash fuel m = .ok m') (hS : Linked m S)
    (hheads : ∀ a, IsHead a → a ∈ S) :
    Linked m' S ∧ (Joined m → Joined m') ∧ m'.next .conntracks = some .conntracks := by
  induction fuel generalizing m with
  | zero => cases h
  | succ fuel ih =>
    unfold addBack at h
    obtain ⟨l, hl, hlS⟩ : ∃ l, m.next .conntracks = some l ∧ l ∈ S := by
      obtain ⟨l, hlS, hl, -⟩ := hS.next _ (hheads _ isHead_conntracks)
      exact ⟨l, hl, hlS⟩
    rw [hl, orNull, ok_bind] at h
    split at h
    · next hc =>
      obtain rfl : m = m' := Except.ok.inj h
      exact ⟨hS, id, hc ▸ hl⟩
    · obtain ⟨m₁, hmove, hrest⟩ := bind_eq_ok.mp h
      obtain ⟨hS₁, hjoined₁⟩ := moveBack_ok hmove hS hheads hlS
      obtain ⟨hS', hjoined', hempty⟩ := ih hrest hS₁
      exact ⟨hS', fun hj => hjoined' (hjoined₁ hj), hempty⟩

/-! ### A list of entries -/

variable {h : Node → Fin n} {waiting : List Node}

/-- Some entries are in their buckets, and others wait. -/
structure Sorting (S : Set (Addr n)) (h : Node → Fin n) (m : Links (Addr n))
    (b : Fin n → List Node) (waiting : List Node) : Prop where
  linked : Linked m S
  ring : ∀ i, Trail m.next (.bucket i) ((b i).map .entry) (.bucket i)
  waits : Trail m.next .conntracks (waiting.map .entry) .conntracks
  nodup : (waiting ++ (List.finRange n).flatMap b).Nodup
  hashed : ∀ i, ∀ node ∈ b i, h node = i

theorem flatMap_update_perm (hnodup : is.Nodup) {k : Fin n} (hk : k ∈ is) (node : Node) :
    (is.flatMap (update b k (node :: b k))).Perm (node :: is.flatMap b) := by
  induction is with
  | nil => cases hk
  | cons i is ih =>
    obtain ⟨hi, hnodup⟩ := nodup_cons.mp hnodup
    rw [flatMap_cons, flatMap_cons]
    rcases mem_cons.mp hk with rfl | hk
    · have hrest : is.flatMap (update b k (node :: b k)) = is.flatMap b := by
        refine flatMap_congr fun j hj => ?_
        have hjk : j ≠ k := fun e => hi (e ▸ hj)
        rw [update_of_ne hjk]
      rw [update_self, hrest, cons_append]
    · have hik : i ≠ k := fun e => hi (e ▸ hk)
      rw [update_of_ne hik]
      exact ((ih hnodup hk).append_left (b i)).trans perm_middle

theorem Sorting.step (hs : Sorting S h m b (node :: waiting)) (hheads : ∀ a, IsHead a → a ∈ S)
    (hhash : ∀ m, hash m (.entry node) = h node) :
    ∃ m', moveBack hash m (.entry node) = .ok m' ∧
      Sorting S h m' (update b (h node) (node :: b (h node))) waiting := by
  have hnodup : node ∉ waiting ++ (List.finRange n).flatMap b := (nodup_cons.mp hs.nodup).1
  have hwaiting : node ∉ waiting := fun hmem => hnodup (mem_append_left _ hmem)
  have hbucket : ∀ i, node ∉ b i := fun i hmem =>
    hnodup (mem_append_right _ (mem_flatMap.mpr ⟨i, mem_finRange i, hmem⟩))
  have hc : .conntracks ∈ S := hheads _ isHead_conntracks
  have hnext : m.next .conntracks = some (.entry node) := hs.waits.1
  have hnode : .entry node ∈ S := (hs.linked.next_mem hc hnext).1
  obtain ⟨m₁, p, y, hdel, hp, hpl, hly, hS₁, hnext₁⟩ := hs.linked.del hnode
  obtain rfl : p = .conntracks := hs.linked.prev_unique hp hc hpl hnext
  have hout : Addr.entry node ∉ S \ {.entry node} := fun hmem => hmem.2 rfl
  have hk : .bucket (h node) ∈ S \ {.entry node} := ⟨hheads _ (isHead_bucket _), by simp⟩
  obtain ⟨m₂, z, hadd, hz, hS₂, hnext₂⟩ := hS₁.add hk hout
  -- only the links of the entry and of the two heads change
  have hsame₁ : ∀ a, a ≠ .entry node → a ≠ .conntracks → m₁.next a = m.next a := by
    intro a ha hac
    rw [hnext₁, update_of_ne ha, update_of_ne hac]
  have hsame₂ : ∀ a, a ≠ .entry node → a ≠ .bucket (h node) → m₂.next a = m₁.next a := by
    intro a ha hab
    rw [hnext₂, update_of_ne hab, update_of_ne ha]
  have hring₁ : ∀ i, Trail m₁.next (.bucket i) ((b i).map .entry) (.bucket i) := by
    intro i
    refine (hs.ring i).congr fun a ha => hsame₁ a ?_ ?_
    · rintro rfl
      exact hbucket i (by simpa using ha)
    · rintro rfl
      simp at ha
  refine ⟨m₂, by simp [moveBack, hdel, orNull, hhash, hadd], ?_, ?_, ?_, ?_, ?_⟩
  · rw [← Set.insert_sdiff_self_of_mem hnode]
    exact hS₂
  · intro i
    by_cases hi : i = h node
    · subst hi
      rw [update_self, map_cons, hnext₂]
      exact (hring₁ (h node)).push (by simp) (by simpa using hbucket (h node)) hz
    · rw [update_of_ne hi]
      refine (hring₁ i).congr fun a ha => hsame₂ a ?_ ?_
      · rintro rfl
        exact hbucket i (by simpa using ha)
      · rintro rfl
        exact hi (by simpa [eq_comm] using ha)
  · have hpop : Trail m₁.next .conntracks (waiting.map .entry) .conntracks := by
      rw [hnext₁]
      exact hs.waits.pop (by simp) (by simpa using hwaiting) hly
    refine hpop.congr fun a ha => hsame₂ a ?_ ?_
    · rintro rfl
      exact hwaiting (by simpa using ha)
    · rintro rfl
      simp at ha
  · have hperm :=
      flatMap_update_perm (b := b) (nodup_finRange n) (mem_finRange (h node)) node
    exact ((hperm.append_left waiting).trans perm_middle).nodup_iff.mpr hs.nodup
  · intro i x hx
    by_cases hi : i = h node
    · subst hi
      rw [update_self] at hx
      rcases mem_cons.mp hx with rfl | hx
      · rfl
      · exact hs.hashed _ x hx
    · rw [update_of_ne hi] at hx
      exact hs.hashed i x hx

theorem Sorting.addBack (hs : Sorting S h m b waiting) (hheads : ∀ a, IsHead a → a ∈ S)
    (hhash : ∀ m node, hash m (.entry node) = h node) :
    ∃ m' b', addBack hash (waiting.length + 1) m = .ok m' ∧ Sorting S h m' b' [] ∧
      ((List.finRange n).flatMap b').Perm (waiting ++ (List.finRange n).flatMap b) := by
  induction waiting generalizing m b with
  | nil =>
    have hempty : m.next .conntracks = some .conntracks := hs.waits
    exact ⟨m, b, by simp [HashTable.addBack, hempty, orNull], hs, List.Perm.refl _⟩
  | cons node waiting ih =>
    obtain ⟨m₁, hmove, hs₁⟩ := hs.step hheads fun m => hhash m node
    obtain ⟨m', b', hrun, hs', hperm⟩ := ih hs₁
    have hnext : m.next .conntracks = some (.entry node) := hs.waits.1
    refine ⟨m', b', ?_, hs', ?_⟩
    · rw [length_cons, HashTable.addBack, hnext, orNull, ok_bind, if_neg (by simp), hmove,
        ok_bind]
      exact hrun
    · refine hperm.trans (((flatMap_update_perm (nodup_finRange n)
        (mem_finRange _) node).append_left waiting).trans ?_)
      exact perm_middle

theorem mem_live_of_isHead {a : Addr n} (ha : IsHead a) : a ∈ Live b done :=
  fun node e => absurd e (ha node)

theorem Stripped.joined (hs : Stripped b m done) (hi : i ∈ done) (hbi : b i = []) : Joined m := by
  refine ⟨.conntracks, .bucket i, isHead_conntracks, isHead_bucket i, by simp, ?_⟩
  have hfirst : first b i = .bucket i := by simp [first, hbi]
  exact hs.waiting.leads (hfirst ▸ mem_map_of_mem hi)

theorem not_mem_live_of_second (hb : Distinct b) (hi : i ∈ done) {node second : Node}
    {rest : List Node} (hbi : b i = node :: second :: rest) : .entry second ∉ Live b done := by
  intro hmem
  obtain ⟨j, hj⟩ := entry_mem_live.mp hmem
  have hsecond : second ∈ b i := by simp [hbi]
  obtain rfl : j = i := hb.disjoint (kept_subset b done j hj) hsecond
  have heq : second = node := by simpa [kept, hi, hbi] using hj
  have hnodup := hb.nodup j
  simp [hbi, heq] at hnodup

theorem flatMap_nothing (n : Nat) : (List.finRange n).flatMap (fun _ => ([] : List Node)) = [] :=
  flatMap_eq_nil_iff.mpr fun _ _ => rfl

theorem Stripped.sorting {node : Fin n → Node} (hs : Stripped (fun i => [node i]) m done)
    (hall : ∀ i, i ∈ done) (hnodup : (done.map node).Nodup) (h : Node → Fin n) :
    Sorting (Live (fun i => [node i]) done) h m (fun _ => []) (done.map node) where
  linked := hs.linked
  ring i := hs.alone i (hall i) (by simp)
  waits := by
    rw [map_map]
    exact hs.waiting
  nodup := by
    rw [flatMap_nothing, append_nil]
    exact hnodup
  hashed i x hx := by cases hx

end

/-! ## The table -/

section

variable {t t' : HashTable c} {b b' : Fin c.htableSize → List Node} {stray : Stray c.htableSize}

theorem listFind_of_mem {i : Fin c.htableSize} {l : List Node} (hnode : node ∈ l)
    {a : Addr c.htableSize} (htrail : Trail t.links.next a (l.map .entry) (.bucket i)) :
    ∃ fuel found, t.listFind stray (.bucket i) (t.tuple node) fuel a = .ok (some (.entry found)) ∧
      t.tuple found = t.tuple node := by
  induction l generalizing a with
  | nil => cases hnode
  | cons x l ih =>
    have hnext : t.links.next a = some (.entry x) := htrail.1
    have hhead : Addr.entry x ≠ .bucket i := by simp
    by_cases htuple : t.tuple x = t.tuple node
    · refine ⟨1, x, ?_, htuple⟩
      rw [listFind, hnext, orNull, ok_bind, if_neg hhead]
      exact if_pos htuple
    · have hmem : node ∈ l :=
        (mem_cons.mp hnode).resolve_left fun e => htuple (e ▸ rfl)
      obtain ⟨fuel, found, hfind, hfound⟩ := ih hmem htrail.2
      refine ⟨fuel + 1, found, ?_, hfound⟩
      rw [listFind, hnext, orNull, ok_bind, if_neg hhead]
      exact (if_neg htuple).trans hfind

theorem Holds.stripped (h : t.Holds b) : Stripped b (t.links.init .conntracks) [] where
  linked := by
    have hunion := (h.linked.set (fun hmem => hmem.1 rfl) (some .conntracks)
      (some .conntracks)).union (linked_init t.links .conntracks)
    refine (?_ : Live b [] = _) ▸ hunion
    ext a
    cases a <;> simp [Live, Members, kept]
  waiting := by simp [Links.init, Links.setNext, Links.setPrev]
  alone i hi := by cases hi
  ring i _ := by
    refine (h.ring i).congr fun a ha => update_of_ne ?_ _ _
    rintro rfl
    simp at ha

theorem Holds.strip (h : t.Holds b) :
    ∃ m, run HashTable.strip (t.links.init .conntracks) (List.finRange c.htableSize) = .ok m ∧
      Stripped b m (List.finRange c.htableSize).reverse := by
  obtain ⟨m, hrun, hs⟩ := run_strip h.stripped (distinct_of_nodup h.nodup)
    (nodup_finRange c.htableSize) fun _ _ hmem => by cases hmem
  rw [append_nil] at hs
  exact ⟨m, hrun, hs⟩

theorem rehashConntracks_eq {m m' : Links (Addr c.htableSize)} {newHashBase : UInt32} {fuel : Nat}
    (hstrip : run HashTable.strip (t.links.init .conntracks) (List.finRange c.htableSize) = .ok m)
    (hback : addBack (t.hashAt (t.hashBase ^^^ newHashBase) stray) fuel m = .ok m')
    (jiffies : UInt32) :
    ∃ t', t.rehashConntracks newHashBase jiffies stray fuel = .ok t' ∧ t'.links = m' ∧
      t'.hashBase = t.hashBase ^^^ newHashBase ∧ t'.tuple = t.tuple := by
  unfold rehashConntracks
  rw [hstrip, ok_bind]
  dsimp only
  rw [hback, ok_bind]
  exact ⟨_, rfl, rfl, rfl, rfl⟩

theorem Holds.not_joined (h : t.Holds b) (hempty : t.links.next .conntracks = some .conntracks) :
    ¬ Joined t.links := by
  rintro ⟨a, a', ha, ha', hne, hleads⟩
  cases a with
  | bucket i =>
    rcases mem_cons.mp ((h.ring i).mem_of_leads hleads) with e | hmem
    · exact hne e.symm
    · obtain ⟨node, -, e⟩ := mem_map.mp hmem
      exact ha' node e.symm
  | conntracks =>
    have htrail : Trail t.links.next .conntracks [] .conntracks := hempty
    exact hne (mem_singleton.mp (htrail.mem_of_leads hleads)).symm
  | entry node => exact ha node rfl

theorem Holds.length_eq_one (h : t.Holds b) {newHashBase jiffies : UInt32}
    (hp : t.Preserves b newHashBase jiffies stray) (i : Fin c.htableSize) : (b i).length = 1 := by
  obtain ⟨fuel, t', b', hrun, h', hperm, -, -⟩ := hp
  obtain ⟨m, hstrip, hs⟩ := h.strip
  unfold rehashConntracks at hrun
  rw [hstrip, ok_bind] at hrun
  obtain ⟨m', hback, heq⟩ := bind_eq_ok.mp hrun
  have hlinks : t'.links = m' := by
    rw [← Except.ok.inj heq]
  have hheads : ∀ a, IsHead a → a ∈ Live b (List.finRange c.htableSize).reverse :=
    fun _ => mem_live_of_isHead
  obtain ⟨hlinked, hjoined, hempty⟩ := addBack_ok hback hs.linked hheads
  rw [← hlinks] at hlinked hjoined hempty
  have hi : i ∈ (List.finRange c.htableSize).reverse :=
    mem_reverse.mpr (mem_finRange i)
  cases hbi : b i with
  | nil => exact absurd (hjoined (hs.joined hi hbi)) (h'.not_joined hempty)
  | cons node rest =>
    cases rest with
    | nil => rfl
    | cons second rest =>
      have hmem : second ∈ (List.finRange c.htableSize).flatMap b' :=
        hperm.mem_iff.mpr (mem_flatMap.mpr ⟨i, mem_finRange i, by simp [hbi]⟩)
      obtain ⟨k, -, hk⟩ := mem_flatMap.mp hmem
      exact absurd (((h'.ring k).linked hlinked (hheads _ (isHead_bucket k))).2 _ (by simp [hk]))
        (not_mem_live_of_second (distinct_of_nodup h.nodup) hi hbi)

theorem Sorting.holds {h : Node → Fin c.htableSize} {done : List (Fin c.htableSize)}
    (hs : Sorting (Live b done) h t.links b' [])
    (hmem : ∀ node, (∃ i, node ∈ kept b done i) ↔ ∃ i, node ∈ b' i) : t.Holds b' where
  ring := hs.ring
  linked := by
    have hempty : Trail t.links.next .conntracks [] .conntracks := hs.waits
    have hdiff := hs.linked.diff (hempty.linked hs.linked conntracks_mem_live).1
    have hset : Members b' = Live b done \ {a | a ∈ [.conntracks]} := by
      ext a
      simp [Members, Live, hmem, and_comm]
    rw [hset]
    exact hdiff
  nodup := hs.nodup

theorem Holds.preserves (h : t.Holds b) (hone : ∀ i, (b i).length = 1)
    (newHashBase jiffies : UInt32) : t.Preserves b newHashBase jiffies stray := by
  choose node hnode using fun i => length_eq_one_iff.mp (hone i)
  obtain rfl : b = fun i => [node i] := funext hnode
  obtain ⟨m, hstrip, hs⟩ := h.strip
  have hall : ∀ i, i ∈ (List.finRange c.htableSize).reverse :=
    fun i => mem_reverse.mpr (mem_finRange i)
  have hentries : ((List.finRange c.htableSize).reverse.map node).Perm
      ((List.finRange c.htableSize).flatMap fun i => [node i]) := by
    rw [← map_eq_flatMap]
    exact (reverse_perm _).map node
  have hsorting := hs.sorting hall (hentries.nodup_iff.mpr h.nodup)
    fun x => hashConntrack c (t.hashBase ^^^ newHashBase) (t.tuple x)
  have hhash : ∀ m x, t.hashAt (t.hashBase ^^^ newHashBase) stray m (.entry x) =
      hashConntrack c (t.hashBase ^^^ newHashBase) (t.tuple x) := fun _ _ => rfl
  obtain ⟨m', b', hback, hs', hperm⟩ := hsorting.addBack (fun _ => mem_live_of_isHead) hhash
  obtain ⟨t', hrun, rfl, hbase, htuple⟩ := rehashConntracks_eq hstrip hback jiffies
  rw [← hbase, ← htuple] at hs'
  rw [flatMap_nothing, append_nil] at hperm
  replace hperm := hperm.trans hentries
  have hmem : ∀ x, (∃ i, x ∈ [node i]) ↔ ∃ i, x ∈ b' i := fun x => by
    simpa using (hperm.mem_iff (a := x)).symm
  refine ⟨_, t', b', hrun, hs'.holds fun x => ?_, hperm, hs'.hashed, ?_⟩
  · simpa [kept, hall] using hmem x
  · intro i x hx
    obtain ⟨k, hk⟩ := (hmem x).mp ⟨i, hx⟩
    have hring := hs'.ring k
    rw [← hs'.hashed k x hk] at hring hk
    rw [← htuple]
    exact listFind_of_mem hk hring

/-- **Rehash**: the table survives if and only if every bucket has exactly one
entry. -/
theorem rehash_preserves_iff (h : t.Holds b) (newHashBase jiffies : UInt32)
    (stray : Stray c.htableSize) :
    t.Preserves b newHashBase jiffies stray ↔ ∀ i, (b i).length = 1 :=
  ⟨h.length_eq_one, fun hone => h.preserves hone newHashBase jiffies⟩

/-- Two buckets. -/
def oneBit : HtableBits := ⟨1, by decide, by decide⟩

/-- An entry of the connection to an address. -/
def towards (k : Nat) : Node := ⟨k, .original⟩

def towardsTuple (node : Node) : Tuple :=
  ⟨0xc0a80001, 1024, 0xc0a80003 + node.ct.toUInt32, 80, 6⟩

/-- Nothing lies behind the heads. -/
def noStray : Stray oneBit.htableSize := fun _ _ => ⟨0, 0, 0, 0, 0⟩

/-- One entry in each bucket. -/
def oneEach (i : Fin oneBit.htableSize) : List Node := [towards i]

def oneEachLink : Addr oneBit.htableSize → Option (Addr oneBit.htableSize)
  | .bucket i => some (.entry (towards i))
  | .conntracks => none
  | .entry node => some (.bucket (if node.ct = 0 then 0 else 1))

def oneEachTable : HashTable oneBit := ⟨⟨oneEachLink, oneEachLink⟩, towardsTuple, 0, 1, 0⟩

theorem holds_oneEach : oneEachTable.Holds oneEach := by
  have hback : ∀ i : Fin oneBit.htableSize, (if i = 0 then 0 else 1) = i := by decide
  have hlink : ∀ a ∈ Members oneEach, ∃ a' ∈ Members oneEach,
      oneEachLink a = some a' ∧ oneEachLink a' = some a := by
    rintro a ⟨hc, hentry⟩
    cases a with
    | bucket i =>
      refine ⟨.entry (towards i), ⟨by simp, ?_⟩, rfl, ?_⟩
      · intro node e
        exact ⟨i, by simp [oneEach, Addr.entry.inj e]⟩
      · simp [oneEachLink, towards, hback]
    | conntracks => exact absurd rfl hc
    | entry node =>
      obtain ⟨i, hi⟩ := hentry node rfl
      obtain rfl : node = towards i := mem_singleton.mp hi
      refine ⟨.bucket i, ⟨by simp, by simp⟩, ?_, rfl⟩
      simp [oneEachLink, towards, hback]
  refine ⟨fun i => ⟨rfl, ?_⟩, ⟨hlink, hlink⟩, by decide⟩
  simp [oneEachTable, oneEachLink, towards, hback]

theorem rehash_preserves_one_each : oneEachTable.Preserves oneEach 1 0 noStray :=
  (rehash_preserves_iff holds_oneEach 1 0 noStray).mpr fun _ => rfl

/-- Two entries in the first bucket, and one in the other. -/
def crowded (i : Fin oneBit.htableSize) : List Node :=
  if i = 0 then [towards 0, towards 1] else [towards 2]

def crowdedTable : HashTable oneBit where
  links :=
    { next
        | .bucket i => some (.entry (towards (if i = 0 then 0 else 2)))
        | .conntracks => none
        | .entry node => some
          (if node.ct = 0 then .entry (towards 1) else .bucket (if node.ct = 1 then 0 else 1))
      prev
        | .bucket i => some (.entry (towards (if i = 0 then 1 else 2)))
        | .conntracks => none
        | .entry node => some
          (if node.ct = 1 then .entry (towards 0) else .bucket (if node.ct = 0 then 0 else 1)) }
  tuple := towardsTuple
  hashBase := 0
  secsBetweenRehash := 1
  minNextRehash := 0

def crowdedMembers : List (Addr oneBit.htableSize) :=
  [.bucket 0, .bucket 1, .entry (towards 0), .entry (towards 1), .entry (towards 2)]

theorem holds_crowded : crowdedTable.Holds crowded := by
  have hcases : ∀ i : Fin oneBit.htableSize, i = 0 ∨ i = 1 := by decide
  have hset : Members crowded = {a | a ∈ crowdedMembers} := by
    ext a
    cases a with
    | bucket i => rcases hcases i with rfl | rfl <;> simp [Members, crowdedMembers]
    | conntracks => simp [Members, crowdedMembers]
    | entry node =>
      have hexists : (∃ i, node ∈ crowded i) ↔ node ∈ crowded 0 ∨ node ∈ crowded 1 := by
        constructor
        · rintro ⟨i, hi⟩
          rcases hcases i with rfl | rfl
          · exact .inl hi
          · exact .inr hi
        · exact fun h => h.elim (fun h => ⟨0, h⟩) fun h => ⟨1, h⟩
      have hone : (1 : Fin oneBit.htableSize) ≠ 0 := by decide
      simp only [Members, Set.mem_ofPred_eq, Addr.entry.injEq, forall_eq', hexists]
      simp [crowded, crowdedMembers, hone, or_assoc]
  have hnext : ∀ x ∈ crowdedMembers, ∃ y ∈ crowdedMembers,
      crowdedTable.links.next x = some y ∧ crowdedTable.links.prev y = some x := by decide
  have hprev : ∀ y ∈ crowdedMembers, ∃ x ∈ crowdedMembers,
      crowdedTable.links.prev y = some x ∧ crowdedTable.links.next x = some y := by decide
  refine ⟨fun i => ?_, hset ▸ ⟨hnext, hprev⟩, by decide⟩
  rcases hcases i with rfl | rfl
  · exact ⟨rfl, rfl, rfl⟩
  · exact ⟨rfl, rfl⟩

/-- The second entry of the first bucket was found, and is not found any more. -/
theorem rehash_loses_entry :
    crowdedTable.Holds crowded ∧
      crowdedTable.find noStray 3 (towardsTuple (towards 1)) =
        .ok (some (.entry (towards 1))) ∧
      ∃ t, crowdedTable.rehashConntracks 1 0 noStray 3 = .ok t ∧
        t.find noStray 3 (towardsTuple (towards 1)) = .ok none :=
  ⟨holds_crowded, rfl, _, rfl, rfl⟩

end


end HashTable

end Conntrack
