import Cnu680.Framework.Exec

/-! # Connection Tracking

The connection table of `ip_conntrack_core.c`, in the build for
`CONFIG_S3C2510_NAPI`: connections are allocated for packets that belong
to none, enter the hash table when their first packet is confirmed, and
are freed with their last reference. References are held by the timer of
a connection in the table, by each packet, and by each connection that
was expected because of it.

Connections are known by numbers that are not used again. Of what a rehash
leaves of the hash lists nothing is said: from then on they may be found
to be anything, at any time. -/

open Framework Function

namespace Conntrack

/-! ### Tuples -/

/-- What tells one connection from another. -/
structure Tuple where
  srcIp : UInt32
  /-- `src.u.all`, the protocol's part of the source. -/
  srcAll : UInt32
  dstIp : UInt32
  dstAll : UInt64
  protonum : UInt16
  deriving DecidableEq, Repr

/-- The tuples agree where the mask says so. -/
def tupleMaskCmp (t tuple mask : Tuple) : Bool :=
  (t.srcIp ^^^ tuple.srcIp) &&& mask.srcIp = 0 ∧ (t.dstIp ^^^ tuple.dstIp) &&& mask.dstIp = 0 ∧
    (t.srcAll ^^^ tuple.srcAll) &&& mask.srcAll = 0 ∧
    (t.dstAll ^^^ tuple.dstAll) &&& mask.dstAll = 0 ∧
    (t.protonum ^^^ tuple.protonum) &&& mask.protonum = 0

/-- A protocol, with the result of its `new` for the packet at hand. -/
structure Protocol where
  /-- Fills in the protocol's part of the inverse of the second tuple. -/
  invertTuple : Tuple → Tuple → Option Tuple
  new : Bool

def invertTuple (protocol : Protocol) (orig : Tuple) : Option Tuple :=
  protocol.invertTuple ⟨orig.dstIp, 0, orig.srcIp, 0, orig.protonum⟩ orig

/-- A helper, for the connections whose reply tuple matches it. -/
structure Helper where
  tuple : Tuple
  mask : Tuple
  /-- How long its expectations last, or 0. -/
  timeout : UInt32
  deriving DecidableEq, Repr

structure Config where
  /-- `ip_conntrack_htable_bits`. -/
  bits : UInt32
  /-- `ip_conntrack_max`. -/
  max : Nat
  helpers : List Helper

def GOLDEN_RATIO_PRIME : UInt32 := 0x9e370001

def hashLong (val bits : UInt32) : UInt32 := (val * GOLDEN_RATIO_PRIME) >>> (32 - bits)

/-! ### The table -/

inductive Dir where
  | original | reply
  deriving DecidableEq, Repr

/-- A connection. It is freed with its last reference. -/
structure Ct where
  /-- `ct_general.use`. -/
  use : Nat
  use_pos : 0 < use
  orig : Tuple
  reply : Tuple
  /-- `IPS_ASSURED`. -/
  assured : Bool
  /-- It is in the hash table. -/
  confirmed : Bool
  /-- The timer is pending. -/
  timer : Bool
  /-- The connection because of which it was expected. -/
  master : Option Nat
  helper : Option Helper
  deriving Repr

def Ct.tuple (c : Ct) : Dir → Tuple
  | .original => c.orig
  | .reply => c.reply

/-- Take a reference. -/
def Ct.hold (c : Ct) : Ct := { c with use := c.use + 1, use_pos := Nat.succ_pos _ }

/-- Give up a reference, unless it is the last. -/
def Ct.drop (c : Ct) : Option Ct :=
  if h : 1 < c.use then some { c with use := c.use - 1, use_pos := Nat.sub_pos_of_lt h } else none

theorem drop_hold (c : Ct) : c.hold.drop = some c := by
  have hpos := c.use_pos
  unfold Ct.drop Ct.hold
  dsimp only
  rw [dif_pos (by omega)]
  rfl

/-- A `tuplehash`, one of the two by which a connection is in the hash table. -/
structure Node where
  ct : Nat
  dir : Dir
  deriving DecidableEq, Repr

/-- An expectation that nothing has come for yet. -/
structure Expect where
  tuple : Tuple
  mask : Tuple
  expectant : Nat
  /-- The timer is pending. -/
  timer : Bool
  deriving DecidableEq, Repr

structure Table where
  /-- The connections that are allocated. -/
  cts : Nat → Option Ct
  next : Nat
  hashBase : UInt32
  /-- `ip_conntrack_hash`. -/
  chains : UInt32 → List Node
  /-- `ip_conntrack_expect_list`. -/
  expects : List Expect
  /-- `ip_conntrack_count`. -/
  count : Int
  /-- How many packets refer to each connection. -/
  skbs : Nat → Nat
  /-- There has been a rehash. -/
  rehashed : Bool

def Table.empty : Table := ⟨fun _ => none, 0, 0, fun _ => [], [], 0, fun _ => 0, false⟩

def Table.hashConntrack (cfg : Config) (t : Table) (tuple : Tuple) : UInt32 :=
  let hash := t.hashBase ^^^ (tuple.srcAll + (tuple.dstAll.toUInt32 <<< 16))
  let hash := hash ^^^ tuple.dstIp
  let hash := hash ^^^ ((tuple.srcIp <<< 13) ||| (tuple.srcIp >>> 19))
  hashLong hash cfg.bits

inductive Fault where
  /-- Memory that has been freed, or `NULL`, is used. -/
  | dangling
  /-- Connections are the masters of each other. -/
  | cycle
  deriving DecidableEq, Repr

def Table.get (t : Table) (id : Nat) : Except Fault Ct :=
  match t.cts id with
  | none => .error .dangling
  | some c => .ok c

def Table.set (t : Table) (id : Nat) (c : Ct) : Table :=
  { t with cts := update t.cts id (some c) }

/-- Return the connection to the slab. -/
def Table.free (t : Table) (id : Nat) : Table :=
  { t with cts := update t.cts id none, count := t.count - 1 }

section
variable {t : Table} {id j : Nat} {c : Ct}

@[simp] theorem next_set : (t.set id c).next = t.next := rfl

@[simp] theorem cts_set_self : (t.set id c).cts id = some c := update_self ..

theorem cts_set_ne (h : j ≠ id) : (t.set id c).cts j = t.cts j := update_of_ne h ..

@[simp] theorem next_free : (t.free id).next = t.next := rfl

@[simp] theorem count_free : (t.free id).count = t.count - 1 := rfl

@[simp] theorem cts_free_self : (t.free id).cts id = none := update_self ..

theorem cts_free_ne (h : j ≠ id) : (t.free id).cts j = t.cts j := update_of_ne h ..

theorem set_set (d : Ct) : (t.set id c).set id d = t.set id d := by
  simp [Table.set]

theorem set_eq_self (h : t.cts id = some c) : t.set id c = t := by
  rw [Table.set, ← h, update_eq_self]

theorem get_eq_ok : t.get id = .ok c ↔ t.cts id = some c := by
  unfold Table.get
  cases t.cts id <;> simp

end

/-! ### References -/

/-- `ip_conntrack_put`, and with the last reference `destroy_conntrack`, which
gives up the one to the master. -/
def Table.putFrom : Nat → Nat → Table → Except Fault Table
  | 0, _, _ => .error .cycle
  | fuel + 1, id, t => do
    let c ← t.get id
    match c.drop with
    | some c => .ok (t.set id c)
    | none =>
      match c.master with
      | none => .ok (t.free id)
      | some master => (Table.putFrom fuel master t).map fun t => t.free id

/-- There are no more masters than connections. -/
def Table.put (t : Table) (id : Nat) : Except Fault Table := Table.putFrom (t.next + 1) id t

/-- Delete the expectations of the connection, apart from those whose timer
has gone off. -/
def Table.removeExpectations (t : Table) (id : Nat) (c : Ct) : Except Fault Table :=
  if ∀ e ∈ t.expects, e.expectant ≠ id then .ok t
  else
    match c.helper with
    | none => .error .dangling
    | some h =>
      .ok { t with expects := t.expects.filter fun e =>
        e.expectant ≠ id ∨ (h.timeout ≠ 0 ∧ e.timer = false) }

/-- Take the connection from both hash lists. `list_del` leaves NULL there, so
that it looks unconfirmed again. -/
def Table.unlink (t : Table) (id : Nat) (c : Ct) : Table :=
  { t.set id { c with confirmed := false } with
    chains := fun k => (t.chains k).filter fun node => node.ct ≠ id }

def Table.deathByTimeout (t : Table) (id : Nat) : Except Fault Table := do
  let c ← t.get id
  let t ← (t.unlink id c).removeExpectations id c
  t.put id

/-! ### Looking for connections -/

/-- `LIST_FIND`. -/
def listFind (cmp : Node → Except Fault Bool) : List Node → Except Fault (Option Node)
  | [] => .ok none
  | node :: nodes => do
    if ← cmp node then .ok (some node) else listFind cmp nodes

def Table.tupleCmp (t : Table) (tuple : Tuple) (node : Node) : Except Fault Bool := do
  let c ← t.get node.ct
  .ok (c.tuple node.dir = tuple)

/-- `__ip_conntrack_find`. -/
def Table.find (cfg : Config) (t : Table) (tuple : Tuple) : Except Fault (Option Node) :=
  listFind (t.tupleCmp tuple) (t.chains (t.hashConntrack cfg tuple))

def Table.unreplied (t : Table) (node : Node) : Except Fault Bool := do
  let c ← t.get node.ct
  .ok (¬ c.assured)

/-- Drop a connection of the chain that is not assured: whether one was
dropped. -/
def Table.earlyDrop (t : Table) (chain : UInt32) : Except Fault (Bool × Table) := do
  match ← listFind t.unreplied (t.chains chain) with
  | none => .ok (false, t)
  | some node =>
    let c ← t.get node.ct
    -- `del_timer` says whether the timer was pending
    if c.timer then
      let t ← (t.set node.ct { c.hold with timer := false }).deathByTimeout node.ct
      let t ← t.put node.ct
      .ok (true, t)
    else
      let t ← (t.set node.ct c.hold).put node.ct
      .ok (false, t)

/-! ### New connections -/

def ENOMEM : Nat := 12

inductive InitResult where
  | conntrack (id : Nat)
  | null
  /-- `ERR_PTR(-errno)`. -/
  | err (errno : Nat)
  deriving DecidableEq, Repr

/-- A packet, with what the functions that `init_conntrack` calls answer. -/
structure Packet where
  tuple : Tuple
  protocol : Protocol
  /-- `kmem_cache_alloc` finds memory. -/
  alloc : Bool
  /-- `net_ratelimit`. -/
  ratelimit : Bool

/-- Whether an expectation is for the tuple. -/
def expectCmp (tuple : Tuple) (e : Expect) : Bool := tupleMaskCmp tuple e.tuple e.mask

/-- The connection because of which the tuple is expected, and a reference to
it. -/
def Table.expected (t : Table) (tuple : Tuple) : Except Fault (Option Nat × Table) :=
  match t.expects.find? (expectCmp tuple) with
  | none => .ok (none, t)
  | some e => do
    let c ← t.get e.expectant
    match c.helper with
    | none => .error .dangling
    | some h =>
      -- an expectation whose timer has gone off is dying
      if h.timeout ≠ 0 ∧ e.timer = false then .ok (none, t)
      else if c.confirmed then
        .ok (some e.expectant,
          { t.set e.expectant c.hold with expects := t.expects.eraseP (expectCmp tuple) })
      else
        -- its timer has been stopped all the same
        let e := { e with timer := e.timer && h.timeout = 0 }
        .ok (none, { t with expects := t.expects.set (t.expects.findIdx (expectCmp tuple)) e })

/-- `init_conntrack` behind the test for the limit. -/
def Table.create (cfg : Config) (pkt : Packet) (t : Table) : Except Fault (InitResult × Table) :=
  match invertTuple pkt.protocol pkt.tuple with
  | none => .ok (.null, t)
  | some reply =>
    if pkt.alloc = false then .ok (.err ENOMEM, t)
    else if pkt.protocol.new = false then .ok (.null, t)
    else do
      let helper :=
        if t.expects.any (expectCmp pkt.tuple) then none
        else cfg.helpers.find? fun h => tupleMaskCmp reply h.tuple h.mask
      let (master, t) ← t.expected pkt.tuple
      let c : Ct := ⟨1, Nat.one_pos, pkt.tuple, reply, false, false, false, master, helper⟩
      .ok (.conntrack t.next, { t.set t.next c with
        next := t.next + 1
        count := t.count + 1
        skbs := update t.skbs t.next 1 })

/-- The table is full. -/
def Table.Full (cfg : Config) (t : Table) : Prop := cfg.max ≠ 0 ∧ (cfg.max : Int) ≤ t.count

instance (cfg : Config) (t : Table) : Decidable (t.Full cfg) :=
  inferInstanceAs (Decidable (_ ∧ _))

def Table.initConntrack (cfg : Config) (pkt : Packet) (t : Table) :
    Except Fault (InitResult × Table) :=
  if t.Full cfg then do
    let (dropped, t) ← t.earlyDrop (t.hashConntrack cfg pkt.tuple)
    -- what is left of the message that the table is full
    if dropped = false ∧ pkt.ratelimit then .ok (.err ENOMEM, t)
    else t.create cfg pkt
  else t.create cfg pkt

/-- `resolve_normal_ct`: the packet refers to the connection it belongs to, or
to a new one. -/
def Table.resolveNormalCt (cfg : Config) (pkt : Packet) (t : Table) : Except Fault Table := do
  match ← t.find cfg pkt.tuple with
  | some node =>
    let c ← t.get node.ct
    .ok { t.set node.ct c.hold with
      skbs := update t.skbs node.ct (t.skbs node.ct + 1) }
  | none => (t.initConntrack cfg pkt).map Prod.snd

/-! ### Runs -/

/-- `rehash_conntracks`. What it makes of the lists is left open: they are
given by `Event.lists`. -/
def Table.rehashConntracks (t : Table) : Table := { t with rehashed := true }

/-- `__ip_conntrack_confirm`. `late` is whether it is time for another
rehash. -/
def Table.confirm (cfg : Config) (t : Table) (id : Nat) (c : Ct) (late : Bool) :
    Except Fault Table := do
  let hash := t.hashConntrack cfg c.orig
  let replHash := t.hashConntrack cfg c.reply
  match ← listFind (t.tupleCmp c.orig) (t.chains hash) with
  | some _ => .ok t
  | none =>
    match ← listFind (t.tupleCmp c.reply) (t.chains replHash) with
    | some _ => .ok t
    | none =>
      let count := (t.chains hash).length + (t.chains replHash).length
      let chains := update t.chains hash (⟨id, .original⟩ :: t.chains hash)
      let chains := update chains replHash (⟨id, .reply⟩ :: chains replHash)
      let t := { t.set id { c.hold with confirmed := true, timer := true } with chains := chains }
      .ok (if cfg.max >>> cfg.bits.toNat < count / 64 ∧ late then t.rehashConntracks else t)

inductive Event where
  /-- A packet comes. -/
  | packet (pkt : Packet)
  /-- A packet of the connection goes out. -/
  | confirm (id : Nat) (late : Bool)
  /-- A packet of the connection is freed. -/
  | release (id : Nat)
  /-- The connection is assured by a packet of it. -/
  | assure (id : Nat)
  /-- The timer of the connection goes off. -/
  | timeout (id : Nat)
  /-- The helper of the connection expects another one. -/
  | expect (tuple mask : Tuple) (id : Nat)
  /-- The timer of the expectation goes off. -/
  | expectTimeout (k : Nat)
  /-- After a rehash, these are the hash lists. -/
  | lists (hashBase : UInt32) (chains : UInt32 → List Node)

/-- One step. What cannot happen in a state does nothing. -/
def Table.step (cfg : Config) (t : Table) : Event → Except Fault Table
  | .packet pkt => t.resolveNormalCt cfg pkt
  | .confirm id late => do
    if t.skbs id = 0 then .ok t
    else
      let c ← t.get id
      if c.confirmed then .ok t else t.confirm cfg id c late
  | .release id =>
    if t.skbs id = 0 then .ok t
    else Table.put { t with skbs := update t.skbs id (t.skbs id - 1) } id
  | .assure id => do
    if t.skbs id = 0 then .ok t
    else
      let c ← t.get id
      .ok (t.set id { c with assured := true })
  | .timeout id =>
    match t.cts id with
    | none => .ok t
    | some c =>
      if c.timer then (t.set id { c with timer := false }).deathByTimeout id else .ok t
  | .expect tuple mask id => do
    if t.skbs id = 0 then .ok t
    else
      let c ← t.get id
      match c.helper with
      | none => .ok t
      | some h => .ok { t with expects := ⟨tuple, mask, id, h.timeout ≠ 0⟩ :: t.expects }
  | .expectTimeout k =>
    .ok (if (t.expects[k]?.map Expect.timer) = some true then
      { t with expects := t.expects.eraseIdx k } else t)
  | .lists hashBase chains =>
    .ok (if t.rehashed then { t with hashBase := hashBase, chains := chains } else t)

end Conntrack
