import Cnu680.Sercd.Connection

/-! # sercd: room in the buffers

Before it waits, the loop looks at the room in `ToNetBuf` for each event
on its own. The handlers then run one after the other, and what the
first of them queue takes from the room that the later ones were armed
for.

* The reads ask for no more bytes than there is room for at that
  moment, so `EscWriteChar` and `EscRedirectChar` never meet a full
  buffer. The notification of the modem state does not look again.
* `ReadFromNet` may find the room it was armed for gone, and then asks
  for no byte at all.
-/

open Framework List

namespace Sercd

/-! ### Adding to a queue -/

variable {out : List UInt8} {a : Relay} {x : Relay.Streams}

theorem Queue.put_ok {q : Queue} (h : out.length ≤ q.room) :
    q.put out = .ok { q with bytes := q.bytes ++ out } := if_pos h

theorem Queue.put_eq_ok {q q' : Queue} (h : q.put out = .ok q') :
    out.length ≤ q.room ∧ q' = { q with bytes := q.bytes ++ out } := by
  unfold Queue.put at h
  split at h
  · next hle =>
    cases h
    exact ⟨hle, rfl⟩
  · cases h

theorem Queue.put_assert_iff (q : Queue) (out : List UInt8) :
    q.put out = .error .assertFailed ↔ ¬ out.length ≤ q.room := by
  unfold Queue.put
  split
  · next hle => simp [hle]
  · next hle => simp [hle]

theorem Queue.room_put {q q' : Queue} (h : q.put out = .ok q') : q.room = q'.room + out.length := by
  obtain ⟨hle, rfl⟩ := Queue.put_eq_ok h
  simp only [Queue.room, length_append] at hle ⊢
  omega

/-! ### Bytes from the network -/

/-- The parser does not use a buffer: all it may do wrong is leave
`IACCommand[]`. -/
theorem parse_error {binary : Bool} {p : Parser} {C : UInt8} {e : Fault}
    (h : parse binary p C = .error e) : e = .outOfBounds := by
  have hstore : ∀ {p : Parser} {e : Fault}, p.store C = .error e → e = .outOfBounds := by
    intro p e h
    unfold Parser.store at h
    split at h <;> cases h
    rfl
  rcases bind_eq_error.mp h with hbyte | ⟨x, -, hret⟩
  · unfold parseByte at hbyte
    split at hbyte
    · split at hbyte
      · cases hbyte
      · split at hbyte <;> cases hbyte
    · split at hbyte <;> cases hbyte
    · -- only the two branches that store without a test can fail
      have hcounted : ∀ n, parseCounted n p C = .error e → e = .outOfBounds := by
        intro n hn
        rcases bind_eq_error.mp hn with hs | ⟨x, -, hret⟩
        · exact hstore hs
        · cases hret
      split at hbyte
      · split at hbyte
        · rcases bind_eq_error.mp hbyte with hs | ⟨x, -, hret⟩
          · exact hstore hs
          · cases hret
        · split at hbyte
          · cases hbyte
          · exact hcounted _ hbyte
      · exact hcounted _ hbyte
  · cases hret

/-- A byte from the network takes at most 514 bytes of room to the network
and one to the device. -/
theorem redirect_room {x y : Relay.Streams} {C : UInt8} (h : Relay.redirect x C = .ok y) :
    x.2.1.room ≤ y.2.1.room + 514 ∧ x.2.2.room ≤ y.2.2.room + 1 := by
  obtain ⟨p, act, -, hnet, hdev, -⟩ := Relay.redirect_ok h
  have hn := Queue.room_put hnet
  have hd := Queue.room_put hdev
  have hnl := act.toNet_length { x.1 with parser := p }
  have hdl := act.toDev_length
  omega

theorem redirect_ne_assert (C : UInt8) (hnet : 514 ≤ x.2.1.room)
    (hdev : 1 ≤ x.2.2.room) : Relay.redirect x C ≠ .error .assertFailed := by
  intro h
  rcases bind_eq_error.mp h with hp | ⟨⟨p, act⟩, -, h⟩
  · cases parse_error hp
  have hnl := act.toNet_length { x.1 with parser := p }
  have hdl := act.toDev_length
  rcases bind_eq_error.mp h with hn | ⟨toNet, -, h⟩
  · exact (Queue.put_assert_iff _ _).mp hn (by omega)
  rcases bind_eq_error.mp h with hd | ⟨toDev, -, h⟩
  · exact (Queue.put_assert_iff _ _).mp hd (by omega)
  · cases h

theorem run_redirect_ne_assert {d : List UInt8} (hnet : 516 * d.length ≤ x.2.1.room)
    (hdev : d.length ≤ x.2.2.room) : run Relay.redirect x d ≠ .error .assertFailed := by
  induction d generalizing x with
  | nil => simp
  | cons C d ih =>
    intro h
    simp only [length_cons] at hnet hdev
    rcases bind_eq_error.mp h with hC | ⟨y, hy, hrest⟩
    · exact redirect_ne_assert C (by omega) (by omega) hC
    · have hroom := redirect_room hy
      exact ih (by omega) (by omega) hrest

/-! ### The handlers that look at the room -/

section
variable (a : Relay) (i : Inputs)

theorem devCount_toNat : a.devCount.toNat = min 512 (a.toNet.room / 2) := by
  simp only [Relay.devCount, UInt32.toNat_ofNat']
  omega

theorem netCount_toNat : a.netCount.toNat = min (min 512 (a.toNet.room / 516)) a.toDev.room := by
  simp only [Relay.netCount, UInt32.toNat_ofNat']
  omega

theorem devRead_fits :
    (escape a.g.isWill a.g.escLast (i.devRead.data a.devCount)).length ≤ a.toNet.room := by
  have hlen := escape_length a.g.isWill a.g.escLast (i.devRead.data a.devCount)
  have hread := read_data_length i.devRead a.devCount
  rw [devCount_toNat] at hread
  omega

theorem deviceIn_eq :
    a.deviceIn i =
      if a.deviceFd.isNone then .error (.fault .nullPointer)
      else if i.devRead.data a.devCount = [] then
        .ok (.continue (a.record (.readFromDev a.devCount i.devRead)).drop)
      else .ok (.next { a.record (.readFromDev a.devCount i.devRead) with
        g := { a.g with escLast := (i.devRead.data a.devCount).getLastD a.g.escLast }
        toNet := { a.toNet with
          bytes := a.toNet.bytes ++
            escape a.g.isWill a.g.escLast (i.devRead.data a.devCount) } }) := by
  unfold Relay.deviceIn
  dsimp only
  rw [Queue.put_ok (devRead_fits a i)]
  rfl

theorem socketIn_ne_assert : a.socketIn i ≠ .error (.fault .assertFailed) := by
  have hread := read_data_length i.netRead a.netCount
  rw [netCount_toNat] at hread
  -- each byte that is asked for has 516 bytes of room
  have hrun : run Relay.redirect (a.g, a.toNet, a.toDev) (i.netRead.data a.netCount) ≠
      .error .assertFailed :=
    run_redirect_ne_assert (by dsimp only; omega) (by dsimp only; omega)
  unfold Relay.socketIn
  by_cases hin : a.inSocketFd.isNone
  · simp [hin]
  by_cases hd : i.netRead.data a.netCount = []
  · simp [hin, hd]
  by_cases hdev : a.deviceFd.isNone
  · simp [hin, hd, hdev]
  · simp only [hin, hd, hdev, Bool.false_eq_true, if_false]
    intro h
    rcases bind_eq_error.mp h with hstop | ⟨x, -, hret⟩
    · exact hrun (stopOn_eq_error.mp hstop)
    · cases hret

theorem handle_ne_assert {k : Stage} (hk : k ≠ .modemState) :
    a.handle i k ≠ .error (.fault .assertFailed) := by
  match k with
  | .deviceIn =>
    rw [Relay.handle, deviceIn_eq]
    split_ifs <;> simp
  | .deviceOut =>
    rw [Relay.handle, Relay.deviceOut]
    split_ifs <;> simp
  | .socketOut =>
    rw [Relay.handle, Relay.socketOut]
    split_ifs <;> simp
  | .socketIn => exact socketIn_ne_assert a i
  | .socketConnect =>
    rw [Relay.handle, Relay.socketConnect]
    cases i.csock <;> split_ifs <;> simp
  | .openDevice =>
    rw [Relay.handle, Relay.openDevice]
    cases i.openFd <;> split_ifs <;> simp
  | .modemState => exact absurd rfl hk

end

/-! ### What the earlier handlers do -/

/-- A byte from the network, with the replies so far. -/
def Relay.answer (x : Globals × List UInt8) (C : UInt8) : Except Fault (Globals × List UInt8) :=
  parse x.1.isDo x.1.parser C >>= fun (p, act) =>
    .ok (act.after { x.1 with parser := p }, x.2 ++ act.toNet { x.1 with parser := p })

/-- Unless a buffer is full, the bytes are answered as if there were none. -/
theorem run_redirect_cases (x : Relay.Streams) (d l : List UInt8) :
    run Relay.redirect x d = .error .assertFailed ∨
      (∃ e, run Relay.redirect x d = .error e ∧ run Relay.answer (x.1, l) d = .error e) ∨
      ∃ y out, run Relay.redirect x d = .ok y ∧
        run Relay.answer (x.1, l) d = .ok (y.1, l ++ out) ∧
        y.2.1.bytes = x.2.1.bytes ++ out := by
  induction d generalizing x l with
  | nil => exact .inr (.inr ⟨x, [], rfl, by rw [append_nil]; rfl, (append_nil _).symm⟩)
  | cons C d ih =>
    simp only [run_cons, Relay.redirect, Relay.answer]
    match parse x.1.isDo x.1.parser C with
    | .error e => exact .inr (.inl ⟨e, rfl, rfl⟩)
    | .ok (p, act) =>
      simp only [ok_bind]
      by_cases hnet : (act.toNet { x.1 with parser := p }).length ≤ x.2.1.room
      · by_cases hdev : act.toDev.length ≤ x.2.2.room
        · rw [Queue.put_ok hnet, Queue.put_ok hdev]
          rcases ih (act.after { x.1 with parser := p }, { x.2.1 with bytes := _ }, _)
            (l ++ act.toNet { x.1 with parser := p }) with h | h | ⟨y, out, hy, hans, hbytes⟩
          · exact .inl h
          · exact .inr (.inl h)
          · rw [append_assoc] at hans hbytes
            exact .inr (.inr ⟨y, _, hy, hans, hbytes⟩)
        · rw [Queue.put_ok hnet, (Queue.put_assert_iff _ _).mpr hdev]
          exact .inl rfl
      · rw [(Queue.put_assert_iff _ _).mpr hnet]
        exact .inl rfl

/-- The handlers before the one for the modem state. -/
def earlier : List Stage :=
  [.deviceIn, .deviceOut, .socketOut, .socketIn, .socketConnect, .openDevice]

namespace Relay

/-- The bytes that the device adds in an iteration. -/
def encoded (a : Relay) (selret : Events) (i : Inputs) : List UInt8 :=
  if selret.deviceIn then escape a.g.isWill a.g.escLast (i.devRead.data a.devCount) else []

/-- The bytes to the network after that. -/
def queued (a : Relay) (selret : Events) (i : Inputs) : Queue :=
  { a.toNet with bytes := a.toNet.bytes ++ a.encoded selret i }

/-- The number of them that `WriteToNet` accepts in the iteration. -/
def drained (a : Relay) (selret : Events) (i : Inputs) : Nat :=
  if selret.socketOut then i.netWrite.accepted (a.queued selret i).offered.length else 0

/-- The queues when the client is read. -/
def netLeft (a : Relay) (selret : Events) (i : Inputs) : Queue :=
  if selret.socketOut then
    (a.queued selret i).pop (i.netWrite.accepted (a.queued selret i).offered.length)
  else a.queued selret i

def devLeft (a : Relay) (selret : Events) (i : Inputs) : Queue :=
  if selret.deviceOut then a.toDev.pop (i.devWrite.accepted a.toDev.offered.length) else a.toDev

/-- The bytes of the client that are read, as many as there is room for. -/
def heard (a : Relay) (selret : Events) (i : Inputs) : List UInt8 :=
  if selret.socketIn then
    i.netRead.data (netCount { a with
      toNet := a.netLeft selret i, toDev := a.devLeft selret i })
  else []

/-- The state in which they are handled. -/
def hearing (a : Relay) (selret : Events) (i : Inputs) : Globals :=
  let g := (a.observe i).g
  if selret.deviceIn then { g with escLast := (i.devRead.data a.devCount).getLastD g.escLast }
  else g

/-- A call of the iteration drops the client. -/
def Drops (a : Relay) (selret : Events) (i : Inputs) : Prop :=
  selret.deviceIn = true ∧ i.devRead.data a.devCount = [] ∨
    selret.deviceOut = true ∧ i.devWrite.accepted a.toDev.offered.length = 0 ∨
    selret.socketOut = true ∧ i.netWrite.accepted (a.queued selret i).offered.length = 0 ∨
    selret.socketIn = true ∧ a.heard selret i = []

/-- If the client is to be notified of the modem state, and the bytes from the
device and the replies of the iteration are more than `WriteToNet` has
taken, they leave room for the notification. -/
def NotifyRoom (a : Relay) (i : Inputs) : Prop :=
  ∀ selret, a.select i = .ok selret → selret.modemstate = true → ¬ a.Drops selret i →
    ∀ g out, run answer (a.hearing selret i, []) (a.heard selret i) = .ok (g, out) → g.Notifies →
      a.drained selret i < (a.encoded selret i).length + out.length →
        g.notification.length + (a.encoded selret i).length + out.length ≤
          a.toNet.room + a.drained selret i

/-- A state in the middle of the iteration, with the descriptors it began
with. -/
def midway (a : Relay) (g : Globals) (toNet toDev : Queue) (trace : List Event) : Relay :=
  { a with g := g, toNet := toNet, toDev := toDev, trace := trace }

section
variable {a : Relay} (selret : Events) (i : Inputs)

/-! Each handler goes on, or drops the client. -/

theorem exec_deviceIn_eq (hdev : a.deviceFd.isSome) :
    ∃ tr t, exec selret i .deviceIn (a.observe i) =
      if selret.deviceIn = true ∧ i.devRead.data a.devCount = [] then .ok (.continue t)
      else .ok (.next (a.midway (a.hearing selret i) (a.queued selret i) a.toDev tr)) := by
  have hsome := Option.isNone_eq_false_iff.mpr hdev
  unfold exec hearing queued encoded
  cases hflag : selret.deviceIn
  · exact ⟨_, a, by simp [Events.reports, hflag]; rfl⟩
  · exact ⟨_, _, by simp [Events.reports, hflag, handle, deviceIn_eq, observe, hsome]; rfl⟩

variable {g : Globals} {q r : Queue} {tr : List Event}

theorem exec_deviceOut_eq (hdev : a.deviceFd.isSome) :
    ∃ tr' t, exec selret i .deviceOut (a.midway g q a.toDev tr) =
      if selret.deviceOut = true ∧ i.devWrite.accepted a.toDev.offered.length = 0 then
        .ok (.continue t)
      else .ok (.next (a.midway g q (a.devLeft selret i) tr')) := by
  have hsome := Option.isNone_eq_false_iff.mpr hdev
  unfold exec devLeft
  cases hflag : selret.deviceOut
  · exact ⟨_, a, by simp [Events.reports, hflag]; rfl⟩
  · exact ⟨_, _, by simp [Events.reports, hflag, handle, deviceOut, midway, hsome]; rfl⟩

theorem exec_socketOut_eq (hout : selret.socketOut = true → a.outSocketFd.isSome) :
    ∃ tr' t, exec selret i .socketOut (a.midway g (a.queued selret i) r tr) =
      if selret.socketOut = true ∧
          i.netWrite.accepted (a.queued selret i).offered.length = 0 then .ok (.continue t)
      else .ok (.next (a.midway g (a.netLeft selret i) r tr')) := by
  unfold exec netLeft
  cases hflag : selret.socketOut
  · exact ⟨_, a, by simp [Events.reports, hflag]; rfl⟩
  · have hsome := Option.isNone_eq_false_iff.mpr (hout hflag)
    exact ⟨_, _, by simp [Events.reports, hflag, handle, socketOut, midway, hsome]; rfl⟩

theorem exec_socketIn_eq (hdev : a.deviceFd.isSome) (hin : a.inSocketFd.isSome) :
    ∃ tr' t, exec selret i .socketIn (a.midway g (a.netLeft selret i) (a.devLeft selret i) tr) =
      if selret.socketIn = true ∧ a.heard selret i = [] then .ok (.continue t)
      else stopOn (run redirect (g, a.netLeft selret i, a.devLeft selret i)
        (a.heard selret i)) >>= fun x => .ok (.next (a.midway x.1 x.2.1 x.2.2 tr')) := by
  have hsome := Option.isNone_eq_false_iff.mpr hdev
  have hsome' := Option.isNone_eq_false_iff.mpr hin
  unfold exec heard
  cases hflag : selret.socketIn
  · exact ⟨_, a, by simp [Events.reports, hflag]; rfl⟩
  · exact ⟨_, _, by
      simp [Events.reports, hflag, handle, socketIn, midway, netCount, hsome, hsome']; rfl⟩

/-- With a client whose port is open nobody is let in, and nothing opened. -/
theorem exec_idle (hdev : a.deviceFd.isSome) (hin : a.inSocketFd.isSome)
    (hout : a.outSocketFd.isSome) (hl : selret.socketConnect = true → a.lSocketFd.isSome) :
    pipeline (exec selret i) [.socketConnect, .openDevice] a = .ok (.next a) := by
  have hconnect : exec selret i .socketConnect a = .ok (.next a) := by
    unfold exec
    split
    · next hflag =>
      have hsome := Option.isNone_eq_false_iff.mpr (hl hflag)
      cases hc : i.csock <;> simp [handle, socketConnect, hsome, hc, hin, hout]
    · rfl
  have hopen : exec selret i .openDevice a = .ok (.next a) := by
    simp [exec, Events.reports, handle, openDevice, Option.isNone_eq_false_iff.mpr hdev]
  rw [pipeline_cons, hconnect, ok_bind]
  dsimp only
  rw [pipeline_cons, hopen]
  rfl

/-- Up to the modem state, an iteration with an open port drops the client, or
handles its bytes. -/
theorem earlier_cases {selret : Events} {i : Inputs} (hsel : a.select i = .ok selret)
    (hdev : a.deviceFd.isSome) (hin : a.inSocketFd.isSome) (hout : a.outSocketFd.isSome) :
    a.Drops selret i ∧ (∃ t, pipeline (exec selret i) earlier (a.observe i) = .ok (.continue t)) ∨
      ¬ a.Drops selret i ∧ ∃ tr, pipeline (exec selret i) earlier (a.observe i) =
        stopOn (run redirect (a.hearing selret i, a.netLeft selret i, a.devLeft selret i)
          (a.heard selret i)) >>= fun x => .ok (.next (a.midway x.1 x.2.1 x.2.2 tr)) := by
  have hl : selret.socketConnect = true → a.lSocketFd.isSome := by
    rw [select_armed hsel]
    simp only [Events.inter, armed, Bool.and_eq_true]
    exact And.left
  unfold Drops earlier
  obtain ⟨tr, t, hb⟩ := exec_deviceIn_eq selret i hdev
  rw [pipeline_cons, hb]
  by_cases hread : selret.deviceIn = true ∧ i.devRead.data a.devCount = []
  · rw [if_pos hread]
    exact .inl ⟨.inl hread, t, rfl⟩
  obtain ⟨tr, t, hc⟩ := exec_deviceOut_eq selret i hdev
  rw [if_neg hread, ok_bind]
  dsimp only
  rw [pipeline_cons, hc]
  by_cases hwrite : selret.deviceOut = true ∧ i.devWrite.accepted a.toDev.offered.length = 0
  · rw [if_pos hwrite]
    exact .inl ⟨.inr (.inl hwrite), t, rfl⟩
  obtain ⟨tr, t, hd⟩ := exec_socketOut_eq selret i fun _ => hout
  rw [if_neg hwrite, ok_bind]
  dsimp only
  rw [pipeline_cons, hd]
  by_cases hdrain : selret.socketOut = true ∧
    i.netWrite.accepted (a.queued selret i).offered.length = 0
  · rw [if_pos hdrain]
    exact .inl ⟨.inr (.inr (.inl hdrain)), t, rfl⟩
  obtain ⟨tr, t, he⟩ := exec_socketIn_eq selret i hdev hin
  rw [if_neg hdrain, ok_bind]
  dsimp only
  rw [pipeline_cons, he]
  by_cases hhear : selret.socketIn = true ∧ a.heard selret i = []
  · rw [if_pos hhear]
    exact .inl ⟨.inr (.inr (.inr hhear)), t, rfl⟩
  rw [if_neg hhear, bind_assoc]
  refine .inr ⟨by rintro (h | h | h | h) <;> contradiction, tr, ?_⟩
  congr 1
  funext x
  exact exec_idle (a := a.midway x.1 x.2.1 x.2.2 tr) selret i hdev hin hout hl

end

end Relay

/-! ### The handler that does not -/

theorem stages_eq : stages = earlier ++ [.modemState] := rfl

theorem earlier_ne_assert (selret : Events) (i : Inputs) (a : Relay) :
    pipeline (Relay.exec selret i) earlier a ≠ .error (.fault .assertFailed) := by
  apply pipeline_ne_error (I := fun _ => True) (fun _ _ _ _ _ _ => trivial) ?_ trivial
  intro k hk a _
  have hne : k ≠ .modemState := by
    rintro rfl
    simp [earlier] at hk
  unfold Relay.exec
  split
  · exact handle_ne_assert a i hne
  · simp

theorem modemState_assert_iff (a : Relay) :
    a.modemState = .error (.fault .assertFailed) ↔
      a.deviceFd.isSome ∧ a.g.Notifies ∧ ¬ a.g.notification.length ≤ a.toNet.room := by
  unfold Relay.modemState
  by_cases hdev : a.deviceFd.isNone
  · have hnone : ¬ a.deviceFd.isSome := by simpa using hdev
    simp [hdev, hnone]
  have hsome := isSome_of_not_isNone hdev
  by_cases hnotify : a.g.Notifies
  · simp only [hdev, hnotify, hsome, Bool.false_eq_true, if_false, if_true, true_and]
    -- the only thing that can fail is putting the notification
    rw [← Queue.put_assert_iff, ← stopOn_eq_error, bind_eq_error]
    constructor
    · rintro (h | ⟨q, -, hret⟩)
      · exact h
      · cases hret
    · exact .inl
  · simp [hdev, hnotify]

theorem select_ne_fault (a : Relay) (i : Inputs) (f : Fault) : a.select i ≠ .error (.fault f) := by
  unfold Relay.select
  split
  · simp
  · split <;> simp

/-- The handlers meet a full buffer exactly when the last of them does. -/
theorem handlers_assert_iff (selret : Events) (i : Inputs) (a : Relay) :
    pipeline (Relay.exec selret i) stages a = .error (.fault .assertFailed) ↔
      ∃ t, pipeline (Relay.exec selret i) earlier a = .ok (.next t) ∧ selret.modemstate = true ∧
        t.modemState = .error (.fault .assertFailed) := by
  -- the last handler on its own, under its test
  have hlast : ∀ t : Relay, pipeline (Relay.exec selret i) [.modemState] t =
      .error (.fault .assertFailed) ↔
        selret.modemstate = true ∧ t.modemState = .error (.fault .assertFailed) := by
    intro t
    show (Relay.exec selret i .modemState t >>= _) = _ ↔ _
    by_cases hflag : selret.modemstate = true
    · have hexec : Relay.exec selret i .modemState t = t.modemState := if_pos hflag
      rw [hexec, bind_eq_error]
      simp only [hflag, true_and]
      constructor
      · rintro (h | ⟨f, -, hf⟩)
        · exact h
        · cases f <;> cases hf
      · exact .inl
    · have hexec : Relay.exec selret i .modemState t = .ok (.next t) := if_neg hflag
      simp [hexec, hflag, pipeline]
  rw [stages_eq, pipeline_append]
  constructor
  · intro h
    -- the handlers before it do not fail so, and if one of them ends the round it is not run
    rcases bind_eq_error.mp h with hearlier | ⟨f, hf, h⟩
    · exact absurd hearlier (earlier_ne_assert selret i a)
    · cases f with
      | «continue» t => cases h
      | next t => exact ⟨t, hf, (hlast t).mp h⟩
  · rintro ⟨t, ht, h⟩
    rw [ht]
    exact (hlast t).mpr h

theorem length_netLeft (a : Relay) (selret : Events) (i : Inputs) :
    (a.netLeft selret i).bytes.length + a.drained selret i =
      a.toNet.bytes.length + (a.encoded selret i).length := by
  have hlen : (a.queued selret i).bytes.length =
      a.toNet.bytes.length + (a.encoded selret i).length := length_append
  unfold Relay.netLeft Relay.drained
  split
  · have hacc := write_accepted_le i.netWrite (a.queued selret i).offered.length
    have hoff : (a.queued selret i).offered.length ≤ (a.queued selret i).bytes.length :=
      length_take_le' _ _
    simp only [Queue.pop, length_drop]
    omega
  · exact hlen

theorem armed_modemstate {i : Inputs} {selret : Events} (hsel : a.select i = .ok selret)
    (hflag : selret.modemstate = true) : a.deviceFd.isSome ∧ 8 ≤ a.toNet.room := by
  rw [Relay.select_armed hsel] at hflag
  simp only [Events.inter, Relay.armed, Bool.and_eq_true, decide_eq_true_iff] at hflag
  exact ⟨hflag.1.1.1.1, hflag.1.2⟩

theorem notification_length (g : Globals) : 0 < g.notification.length ∧ g.notification.length ≤ 8 :=
  ⟨Nat.succ_pos _, cpcFrame_length g.isWill g.escLast TNASC_NOTIFY_MODEMSTATE [_]⟩

/-- An iteration meets a full buffer exactly when the notification finds too
little room. -/
theorem iteration_assert_iff (i : Inputs)
    (hconn : a.deviceFd.isSome → a.inSocketFd.isSome ∧ a.outSocketFd.isSome) :
    a.iteration i = .error (.fault .assertFailed) ↔ ¬ a.NotifyRoom i := by
  unfold Relay.iteration
  constructor
  · intro h hfits
    rcases bind_eq_error.mp h with hsel | ⟨selret, hsel, h⟩
    · exact select_ne_fault a i _ hsel
    by_cases hnone : selret = {}
    · rw [if_pos hnone] at h
      cases h
    rw [if_neg hnone] at h
    rcases bind_eq_error.mp h with hrun | ⟨f, -, hret⟩
    · obtain ⟨t, ht, hflag, hmodem⟩ := (handlers_assert_iff selret i _).mp hrun
      obtain ⟨-, hnotify, hfull⟩ := (modemState_assert_iff t).mp hmodem
      obtain ⟨hdev, hroom⟩ := armed_modemstate hsel hflag
      rcases Relay.earlier_cases hsel hdev (hconn hdev).1 (hconn hdev).2 with
        ⟨-, t', ht'⟩ | ⟨hstays, tr, heq⟩
      · cases ht'.symm.trans ht
      obtain ⟨x, hx, hret⟩ := bind_eq_ok.mp (heq.symm.trans ht)
      cases hret
      -- the client's bytes were handled, with the replies of `answer`
      rcases run_redirect_cases (a.hearing selret i, a.netLeft selret i, a.devLeft selret i)
        (a.heard selret i) [] with h | ⟨e, h, -⟩ | ⟨y, out, h, hans, hbytes⟩
      · cases h.symm.trans (stopOn_eq_ok.mp hx)
      · cases h.symm.trans (stopOn_eq_ok.mp hx)
      cases h.symm.trans (stopOn_eq_ok.mp hx)
      have hle := hfits selret hsel hflag hstays _ _ hans hnotify
      have hlen := length_netLeft a selret i
      have hnotif := notification_length x.1
      simp only [Relay.midway, Queue.room, hbytes, length_append, nil_append] at *
      omega
    · cases hret
  · intro hfits
    simp only [Relay.NotifyRoom, not_forall] at hfits
    obtain ⟨selret, hsel, hflag, hstays, g, out, hans, hnotify, -, hfull⟩ := hfits
    obtain ⟨hdev, hroom⟩ := armed_modemstate hsel hflag
    have hne : selret ≠ {} := by
      intro hempty
      rw [hempty] at hflag
      cases hflag
    rcases Relay.earlier_cases hsel hdev (hconn hdev).1 (hconn hdev).2 with
      ⟨hdrops, -⟩ | ⟨-, tr, heq⟩
    · exact absurd hdrops hstays
    rcases run_redirect_cases (a.hearing selret i, a.netLeft selret i, a.devLeft selret i)
      (a.heard selret i) [] with h | ⟨e, -, h⟩ | ⟨y, out', h, hans', hbytes⟩
    · rw [h] at heq
      exact absurd heq (earlier_ne_assert selret i _)
    · cases h.symm.trans hans
    cases hans'.symm.trans hans
    rw [h] at heq
    have hrun := (handlers_assert_iff selret i (a.observe i)).mpr
      ⟨_, heq, hflag, (modemState_assert_iff _).mpr ⟨hdev, hnotify, ?_⟩⟩
    · rw [hsel, ok_bind, if_neg hne, hrun]
      rfl
    · have hlen := length_netLeft a selret i
      have hnotif := notification_length y.1
      simp only [Relay.midway, Queue.room, hbytes, length_append, nil_append] at *
      omega

/-! ### The loop -/

section
variable {s : Main} {i : Inputs}

/-- **`AddToBuffer` is never called on a full buffer, but for the
notification of the modem state**: a run fails the assertion exactly
when it comes to an iteration that notifies and whose bytes from the
device and replies leave no room for that. -/
theorem loop_keeps_room_iff (cfg : Config) (mem : Memory) (mode : Mode) (is : List Inputs)
    (his : ∀ i ∈ is, i.NoBlock) :
    mainLoop cfg mem mode is ≠ .error (.fault .assertFailed) ↔
      ∀ s, start cfg mem mode = .ok s → Along iteration (fun s i => s.view.NotifyRoom i) s is := by
  obtain ⟨s, hs, hr⟩ := (start_refines cfg mem mode).ok_right rfl
  -- one iteration fails exactly when its notification does not fit
  have hrun : run iteration s is ≠ .error (.fault .assertFailed) ↔
      Along iteration (fun s i => s.view.NotifyRoom i) s is := by
    refine run_ne_error_iff (I := fun s => s.Inv ∧ s.Connected) (P := Inputs.NoBlock) ?_ ?_ his
      ⟨hr.inv, (start_connected hs).1⟩
    · intro s i s' h hi hs
      obtain ⟨a, -, hr⟩ := (iteration_refines hi ⟨h.1, rfl⟩).ok_left hs
      exact ⟨hr.inv, iteration_connected h.2 hs⟩
    · intro s i h hi
      rw [(iteration_refines hi ⟨h.1, rfl⟩).error_iff, iteration_assert_iff]
      exact fun hdev => ⟨h.2.device hdev, h.1.device hdev⟩
  unfold mainLoop
  rw [hs, ok_bind, hrun]
  constructor
  · intro h s' hs'
    cases hs'
    exact h
  · intro h
    exact h s rfl

end

/-- A session in which the device fills more than a half of the buffer: the
port is opened while 17 bytes wait to be written, then 512 bytes 0xFF
arrive, which are doubled. 1006 bytes of room are left. -/
def filling : List Inputs :=
  [{ ready := { socketOut := true }, netWrite := .room 1, openFd := some 3 },
   { ready := { deviceIn := true }, devRead := .bytes (List.replicate 512 0xFF) }]

theorem loop_keeps_room_filling :
    mainLoop default default .inetd filling ≠ .error (.fault .assertFailed) ∧
    ∀ s, start default default .inetd = .ok s →
      Along iteration (fun s i => s.view.NotifyRoom i) s filling := by
  have hfilling : ∀ i ∈ filling, i.NoBlock := by decide
  have hrun : mainLoop default default .inetd filling ≠ .error (.fault .assertFailed) := by
    obtain ⟨s, t, hs, ht, -⟩ := run_of_relay .inetd (fun a => a.toNet.room = 1006) hfilling
      (by decide +kernel)
    unfold mainLoop
    rw [hs, ok_bind, ht]
    simp
  exact ⟨hrun, (loop_keeps_room_iff default default .inetd filling hfilling).mp hrun⟩

/-- Then 503 bytes 0xFF arrive, and CTS changes: the bytes take all the room
that the notification was armed for. -/
theorem notification_overflows :
    mainLoop default default .inetd (filling ++
        [{ ready := { deviceIn := true, modemstate := true },
           devRead := .bytes (List.replicate 503 0xFF), lines := fun _ => TIOCM_CTS }]) =
      .error (.fault .assertFailed) := by
  refine ((mainLoop_refines default default .inetd (by decide)).error_iff _).mpr ?_
  refine (map_eq_error (f := fun _ => ())).mp ?_
  decide +kernel

/-! ### The counts of the reads -/

/-- A read is asked for a byte at least, so that a result of 0 is the end of
the file. -/
def Event.FairRead : Event → Prop
  | .readFromDev count got => 1 ≤ count.toNat ∧ (got.value count = 0 → got = .bytes [])
  | .readFromNet count got => 1 ≤ count.toNat ∧ (got.value count = 0 → got = .bytes [])
  | _ => True

theorem eof_of_value {count : UInt32} {got : ReadResult} (h : 1 ≤ count.toNat)
    (hv : got.value count = 0) : got = .bytes [] := by
  match got with
  | .fail e => cases hv
  | .bytes l =>
    have hlen : (l.take count.toNat).length = 0 := Int.ofNat_eq_zero.mp hv
    match l with
    | [] => rfl
    | C :: l =>
      rw [length_take, length_cons] at hlen
      omega

namespace Relay

/-- All reads so far were asked for a byte at least. -/
def ReadsFair (a : Relay) : Prop := ∀ e ∈ a.trace, e.FairRead

theorem ReadsFair.push {a b : Relay} {e : Event} (h : a.ReadsFair)
    (hb : b.trace = a.trace ++ [e]) (he : e.FairRead) : b.ReadsFair := by
  intro e' he'
  rw [hb] at he'
  rcases mem_append.mp he' with hold | hnew
  · exact h e' hold
  · cases mem_singleton.mp hnew
    exact he

theorem ReadsFair.drop (h : a.ReadsFair) : a.drop.ReadsFair := h.push rfl trivial

/-- If `ReadFromNet` is called, the bytes read from the device before it and
the bytes written to the network before it leave the room it was armed
for. -/
def ReadRoom (a : Relay) (i : Inputs) : Prop :=
  ∀ selret, a.select i = .ok selret → selret.socketIn = true →
    516 + (a.encoded selret i).length ≤ a.toNet.room + a.drained selret i

section
variable {a t : Relay} {i : Inputs} {selret : Events} {f : Flow Relay}

theorem deviceIn_readsFair (ha : a.ReadsFair) (hroom : 2 ≤ a.toNet.room)
    (h : a.deviceIn i = .ok f) : f.state.ReadsFair := by
  have hcount : 1 ≤ a.devCount.toNat := by
    rw [devCount_toNat]
    omega
  have hread : (Event.readFromDev a.devCount i.devRead).FairRead := ⟨hcount, eof_of_value hcount⟩
  obtain ⟨-, ⟨-, rfl⟩ | ⟨-, q, -, rfl⟩⟩ := deviceIn_ok h
  · exact (ha.push (b := a.record _) rfl hread).drop
  · exact ha.push rfl hread

theorem socketIn_readsFair (ha : a.ReadsFair) (hnet : 516 ≤ a.toNet.room)
    (hdev : 1 ≤ a.toDev.room) (h : a.socketIn i = .ok f) : f.state.ReadsFair := by
  have hcount : 1 ≤ a.netCount.toNat := by
    rw [netCount_toNat]
    omega
  have hread : (Event.readFromNet a.netCount i.netRead).FairRead := ⟨hcount, eof_of_value hcount⟩
  obtain ⟨-, ⟨-, rfl⟩ | ⟨-, -, x, -, rfl⟩⟩ := socketIn_ok h
  · exact (ha.push (b := a.record _) rfl hread).drop
  · exact ha.push rfl hread

theorem handle_readsFair {k : Stage} (hk : k ≠ .deviceIn) (hk' : k ≠ .socketIn)
    (ha : a.ReadsFair) (h : a.handle i k = .ok f) : f.state.ReadsFair := by
  match k with
  | .deviceIn => exact absurd rfl hk
  | .socketIn => exact absurd rfl hk'
  | .deviceOut =>
    obtain ⟨-, ⟨-, rfl⟩ | ⟨-, rfl⟩⟩ := deviceOut_ok h
    · exact (ha.push (b := a.record (.writeToDev _ _)) rfl trivial).drop
    · exact ha.push rfl trivial
  | .socketOut =>
    obtain ⟨-, ⟨-, rfl⟩ | ⟨-, rfl⟩⟩ := socketOut_ok h
    · exact (ha.push (b := a.record (.writeToNet _ _)) rfl trivial).drop
    · exact ha.push rfl trivial
  | .socketConnect =>
    obtain ⟨-, rfl | ⟨-, csock, rfl⟩⟩ := socketConnect_ok h
    · exact ha
    · exact ha.push rfl trivial
  | .openDevice =>
    obtain rfl | ⟨-, rfl | ⟨fd, rfl⟩⟩ := openDevice_ok h
    · exact ha
    · exact ha.drop
    · exact ha.push rfl trivial
  | .modemState =>
    obtain ⟨-, ⟨-, q, -, rfl⟩ | ⟨-, rfl⟩⟩ := modemState_ok h
    · exact ha.push rfl trivial
    · exact ha.push rfl trivial

theorem exec_readsFair {ks : List Stage} (hdev : Stage.deviceIn ∉ ks) (hnet : Stage.socketIn ∉ ks) :
    ∀ k ∈ ks, ∀ a f, ReadsFair a → exec selret i k a = .ok f → f.state.ReadsFair := by
  intro k hk a f ha h
  rcases exec_ok h with ⟨-, h⟩ | ⟨-, rfl⟩
  · exact handle_readsFair (fun he => hdev (he ▸ hk)) (fun he => hnet (he ▸ hk)) ha h
  · exact ha

theorem room_at_socketIn {b : Relay} (hsel : a.select i = .ok selret)
    (hflag : selret.socketIn = true) (hroom : a.ReadRoom i) (hlen : a.toNet.bytes.length ≤ 2047)
    (hb : exec selret i .deviceIn (a.observe i) = .ok (.next b))
    (ht : pipeline (exec selret i) [.deviceOut, .socketOut] b = .ok (.next t)) :
    516 ≤ t.toNet.room ∧ 1 ≤ t.toDev.room := by
  have hle := hroom selret hsel hflag
  have hleft := length_netLeft a selret i
  have hout : selret.socketOut = true → a.outSocketFd.isSome := by
    rw [select_armed hsel]
    simp only [Events.inter, armed, Bool.and_eq_true]
    exact fun h => h.1.1
  obtain ⟨hdev, hdevRoom⟩ : a.deviceFd.isSome ∧ 1 ≤ a.toDev.room := by
    rw [select_armed hsel] at hflag
    simp only [Events.inter, armed, Bool.and_eq_true, decide_eq_true_iff] at hflag
    exact hflag.1.1.1
  obtain ⟨tr, u, hb'⟩ := exec_deviceIn_eq selret i hdev
  rcases result_eq_ok (hb'.symm.trans hb) with ⟨-, h⟩ | ⟨-, h⟩ <;> cases h
  obtain ⟨c, hc, ht⟩ := pipeline_cons_eq_next.mp ht
  obtain ⟨tr, u, hc'⟩ := exec_deviceOut_eq selret i hdev
  rcases result_eq_ok (hc'.symm.trans hc) with ⟨-, h⟩ | ⟨-, h⟩ <;> cases h
  obtain ⟨d, hd, ht⟩ := pipeline_cons_eq_next.mp ht
  obtain ⟨tr, u, hd'⟩ := exec_socketOut_eq selret i hout
  rcases result_eq_ok (hd'.symm.trans hd) with ⟨-, h⟩ | ⟨-, h⟩ <;> cases h
  cases ht
  show 516 ≤ (a.netLeft selret i).room ∧ 1 ≤ (a.devLeft selret i).room
  have hdrop : a.toDev.room ≤ (a.devLeft selret i).room := by
    unfold devLeft
    split
    · simp only [Queue.room, Queue.pop, length_drop]
      omega
    · exact Nat.le_refl _
  simp only [Queue.room] at *
  omega

theorem readRoom_of_separate (h : i.ready.deviceIn = false ∨ i.ready.socketIn = false) :
    a.ReadRoom i := by
  intro selret hsel hflag
  rw [select_armed hsel] at hflag ⊢
  simp only [Events.inter, armed, Bool.and_eq_true, decide_eq_true_iff] at hflag
  rcases h with hdev | hnet
  · have hencoded : a.encoded (a.armed.inter i.ready) i = [] := by
      unfold encoded
      rw [if_neg (by simp [Events.inter, hdev])]
    rw [hencoded]
    exact Nat.le_trans hflag.1.2 (Nat.le_add_right _ _)
  · rw [hnet] at hflag
    exact absurd hflag.2 (by decide)

/-- **In an iteration that leaves the room, every read is asked for a byte
at least.** -/
theorem passes_readsFair (ha : a.ReadsFair) (hlen : a.toNet.bytes.length ≤ 2047)
    (hsel : a.select i = .ok selret) (hroom : a.ReadRoom i)
    (h : Passes (exec selret i) stages (a.observe i) t) : t.ReadsFair := by
  have hobs : (a.observe i).ReadsFair := ha.push rfl trivial
  have hdevIn : ∀ f, exec selret i .deviceIn (a.observe i) = .ok f → f.state.ReadsFair := by
    intro f hf
    rcases exec_ok hf with ⟨hflag, hf⟩ | ⟨-, rfl⟩
    · rw [select_armed hsel] at hflag
      simp only [Events.reports, Events.inter, armed, Bool.and_eq_true, decide_eq_true_iff] at hflag
      exact deviceIn_readsFair hobs hflag.1.1.2 hf
    · exact hobs
  -- the round up to the first read, between the reads, and after them
  cases h with
  | here => exact hobs
  | stop _ h => exact hdevIn _ h
  | @step _ _ _ b _ hb hrest =>
    have hbfair := hdevIn _ hb
    have hsplit : Passes (exec selret i) ([Stage.deviceOut, .socketOut] ++
      [.socketIn, .socketConnect, .openDevice, .modemState]) b t := hrest
    rcases passes_append hsplit with hp | ⟨c, hc, hp⟩
    · exact passes_invariant (exec_readsFair (by decide) (by decide)) hbfair hp
    have hcfair : c.ReadsFair :=
      pipeline_invariant (exec_readsFair (by decide) (by decide)) hbfair hc
    have hsockIn : ∀ f, exec selret i .socketIn c = .ok f → f.state.ReadsFair := by
      intro f hf
      rcases exec_ok hf with ⟨hflag, hf⟩ | ⟨-, rfl⟩
      · have hroom' := room_at_socketIn hsel hflag hroom hlen hb hc
        exact socketIn_readsFair hcfair hroom'.1 hroom'.2 hf
      · exact hcfair
    cases hp with
    | here => exact hcfair
    | stop _ h => exact hsockIn _ h
    | step hd hrest =>
      exact passes_invariant (exec_readsFair (by decide) (by decide)) (hsockIn _ hd) hrest

end

end Relay

/-- The call of a read from the network. -/
def Event.netRead : Event → Option (UInt32 × ReadResult)
  | .readFromNet count got => some (count, got)
  | _ => none

/-- The session that fills the buffer, with 503 more bytes 0xFF and a byte
from the client in one iteration. -/
def starved : List Inputs :=
  filling ++ [{ ready := { deviceIn := true, socketIn := true },
                devRead := .bytes (List.replicate 503 0xFF), netRead := .bytes [97] }]

/-- **Reads are asked for a byte at least**, in every state that a run
passes through, if every iteration of it that reads from the network
leaves the room that the read was armed for. -/
theorem loop_reads_fair (cfg : Config) (mem : Memory) (mode : Mode) (is : List Inputs) (s t : Main)
    (his : ∀ i ∈ is, i.NoBlock) (hs : start cfg mem mode = .ok s)
    (hroom : Along iteration (fun s i => s.view.ReadRoom i) s is) (ht : Visits s is t) :
    ∀ e ∈ t.trace, e.FairRead := by
  obtain ⟨a, ha, hr⟩ := (start_refines cfg mem mode).ok_left hs
  cases ha
  have hfair : s.view.ReadsFair := by
    intro e he
    rw [hr.view, start_trace] at he
    cases he
  refine visits_invariant (P := Relay.ReadsFair) ?_ his hr.inv hfair hroom ht
  intro s i selret b hs hC hsel hb
  exact Relay.passes_readsFair hs (contents_length_le s.toNetBuf) hsel hC hb

/-- A session in which the client sends one byte. -/
def oneByte : List Inputs :=
  [{ ready := { socketOut := true }, netWrite := .room 18, openFd := some 3 },
   { ready := { socketIn := true }, netRead := .bytes [97] }]

theorem loop_reads_fair_one_byte :
    ∃ s t, start default default .inetd = .ok s ∧ run iteration s oneByte = .ok t ∧
      t.trace.filterMap Event.netRead = [(3, .bytes [97])] ∧ ∀ e ∈ t.trace, e.FairRead := by
  have hone : ∀ i ∈ oneByte, i.NoBlock := by decide
  have hsep : ∀ i ∈ oneByte, i.ready.deviceIn = false ∨ i.ready.socketIn = false := by decide
  obtain ⟨s, t, hs, ht, hreads⟩ := run_of_relay .inetd
    (fun a => a.trace.filterMap Event.netRead = [(3, .bytes [97])]) hone (by decide +kernel)
  have hroom : Along iteration (fun s i => s.view.ReadRoom i) s oneByte :=
    along_of_forall fun i hi s => Relay.readRoom_of_separate (hsep i hi)
  exact ⟨s, t, hs, ht, hreads,
    loop_reads_fair default default .inetd oneByte s t hone hs hroom (visits_of_run ht)⟩

/-- In the session that fills the buffer, 503 bytes 0xFF and a byte from the
client arrive together. `ReadFromNet` is asked for 0 bytes, returns 0,
and the client is dropped. -/
theorem read_asked_for_nothing :
    ∃ s t, start default default .inetd = .ok s ∧ run iteration s starved = .ok t ∧
      t.trace.filterMap Event.netRead = [(0, .bytes [97])] ∧ t.inSocketFd = none := by
  exact run_of_relay .inetd
    (fun a => a.trace.filterMap Event.netRead = [(0, .bytes [97])] ∧ a.inSocketFd = none)
    (by decide) (by decide +kernel)

end Sercd
