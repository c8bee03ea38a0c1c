import Cnu680.Sercd.Feed
import Cnu680.Sercd.Relay

/-! # sercd: option negotiation

The telnet options over the whole history of a connection. What the six
flags of an option mean is a matter of the requests received so far:
`Settled h g` says so, and every request keeps it.

A request that changes nothing must not be acknowledged, or two parties
that acknowledge each other never stop. DONT and WONT look at `is_will`
and `is_do` before they answer. WILL and DO look only at whether an own
request is outstanding, so a WILL for an option that is already on is
answered with DO.
-/

open Framework

namespace Sercd

/-! ### The calls of a stream -/

/-- A call of `HandleIACCommand`. -/
structure Call where
  before : Globals
  verb : UInt8
  option : UInt8
  /-- The bytes that were added to the buffer to the network. -/
  reply : List UInt8
  after : Globals

/-- The call that an action makes. -/
def Action.call (before : Globals) (reply : List UInt8) (after : Globals) : Action → List Call
  | .handle cmd _ => [⟨before, Command.verb cmd, Command.option cmd, reply, after⟩]
  | _ => []

/-- `EscRedirectChar` on each byte of a stream: the calls of
`HandleIACCommand` that it makes. -/
def calls : Globals → List (UInt8 × Sinks) → List Call
  | _, [] => []
  | g, (C, B) :: rest =>
    match parse g.isDo g.parser C, escRedirectChar g B.sock.buf B.dev.buf C with
    | .ok (p, a), .ok (g', SockB, _) =>
      a.call { g with parser := p } (added B.sock.buf SockB) g' ++ calls g' rest
    | _, _ => []

/-- What is asked of a call: no acknowledgement of a request that changes
nothing, and none of an answer to a request of our own, which is taken
down. -/
structure Call.Quiet (c : Call) : Prop where
  will : c.verb = TNWILL → (c.before.tnstate c.option).is_do = true → c.reply = []
  doRequest : c.verb = TNDO → (c.before.tnstate c.option).is_will = true → c.reply = []
  wont : c.verb = TNWONT → (c.before.tnstate c.option).is_do = false → c.reply = []
  dont : c.verb = TNDONT → (c.before.tnstate c.option).is_will = false → c.reply = []
  answerDo : c.verb = TNWILL ∨ c.verb = TNWONT → (c.before.tnstate c.option).sent_do = true →
    c.reply = [] ∧
      (Agreed c.option → (c.after.tnstate c.option).is_do = decide (c.verb = TNWILL))
  answerWill : c.verb = TNDO ∨ c.verb = TNDONT → (c.before.tnstate c.option).sent_will = true →
    c.reply = [] ∧
      (Agreed c.option → (c.after.tnstate c.option).is_will = decide (c.verb = TNDO))

/-! ### Requests that renew what stands -/

/-- A request: its verb and its option. -/
abbrev Request := UInt8 × UInt8

def Call.request (c : Call) : Request := (c.verb, c.option)

/-- What stands for option `o` after the requests `h`: whether the last one
that was `yes` or `no` was `yes`. -/
def stands (yes no o : UInt8) (h : List Request) : Bool :=
  h.foldl (fun b r =>
    if r.2 = o then if r.1 = yes then true else if r.1 = no then false else b else b) false

/-- A WILL or a DO, for an option that is agreed to, that says what stands
already. -/
def Renews (h : List Request) (r : Request) : Prop :=
  Agreed r.2 ∧
    (r.1 = TNWILL ∧ stands TNWILL TNWONT r.2 h = true ∨
      r.1 = TNDO ∧ stands TNDO TNDONT r.2 h = true)

/-- After the requests `h`, none of those that follow is a renewal. -/
def NoRenewal : List Request → List Request → Prop
  | _, [] => True
  | h, r :: rest => ¬ Renews h r ∧ NoRenewal (h ++ [r]) rest

instance (h : List Request) (r : Request) : Decidable (Renews h r) := by
  unfold Renews
  infer_instance

instance decidableNoRenewal : (h rest : List Request) → Decidable (NoRenewal h rest)
  | _, [] => .isTrue trivial
  | h, r :: rest =>
    have := decidableNoRenewal (h ++ [r]) rest
    inferInstanceAs (Decidable (¬ Renews h r ∧ NoRenewal (h ++ [r]) rest))

theorem stands_snoc (yes no o : UInt8) (h : List Request) (r : Request) :
    stands yes no o (h ++ [r]) =
      if r.2 = o then if r.1 = yes then true else if r.1 = no then false else stands yes no o h
      else stands yes no o h := by
  simp [stands]

/-! ### When a request is answered -/

section
variable (g : Globals) (cmd : Command) (CSize : Nat)

theorem toNet_handle :
    (Action.handle cmd CSize).toNet g =
      (iacBranch g cmd CSize).2.bytes (iacBranch g cmd CSize).1 := rfl

theorem will_unanswered (h : cmd[1] = TNWILL) :
    (Action.handle cmd CSize).toNet g = [] ↔
      Agreed cmd[2] ∧ (g.tnstate cmd[2]).sent_do = true := by
  rw [toNet_handle, iacBranch, h, if_neg (by decide), if_pos rfl]
  unfold willBranch
  by_cases hagreed : Agreed cmd[2]
  · rw [if_pos hagreed]
    dsimp only
    rw [tnstate_enable]
    cases (g.tnstate cmd[2]).sent_do <;> simp [Reply.bytes, hagreed]
  · rw [if_neg hagreed]
    simp [Reply.bytes, hagreed]

theorem do_unanswered (h : cmd[1] = TNDO) :
    (Action.handle cmd CSize).toNet g = [] ↔
      Agreed cmd[2] ∧ (g.tnstate cmd[2]).sent_will = true := by
  rw [toNet_handle, iacBranch, h, if_neg (by decide), if_neg (by decide), if_pos rfl]
  unfold doBranch
  by_cases hagreed : Agreed cmd[2]
  · rw [if_pos hagreed]
    dsimp only
    rw [tnstate_enable]
    cases (g.tnstate cmd[2]).sent_will <;> simp [Reply.bytes, hagreed]
  · rw [if_neg hagreed]
    simp [Reply.bytes, hagreed]

theorem dont_unanswered (h : cmd[1] = TNDONT) :
    (Action.handle cmd CSize).toNet g = [] ↔ (g.tnstate cmd[2]).is_will = false := by
  rw [toNet_handle, iacBranch, h, if_neg (by decide), if_neg (by decide), if_neg (by decide),
    if_pos rfl]
  unfold dontBranch
  cases (g.tnstate cmd[2]).is_will <;> simp [Reply.bytes]

theorem wont_unanswered (h : cmd[1] = TNWONT) :
    (Action.handle cmd CSize).toNet g = [] ↔ (g.tnstate cmd[2]).is_do = false := by
  rw [toNet_handle, iacBranch, h, if_neg (by decide), if_neg (by decide), if_neg (by decide),
    if_neg (by decide), if_pos rfl]
  unfold wontBranch
  cases (g.tnstate cmd[2]).is_do <;> simp [Reply.bytes]

end

/-! ### The flags and the history

An option has two sides with the same rules: what the client does, where
WILL and WONT meet `is_do` and `sent_do`, and what we do, where DO and
DONT meet `is_will` and `sent_will`. -/

/-- What the flags of one side say after the requests `h`: an option is on
if it is one we agree to and the last request about it was `yes`; a
request of our own is outstanding only for an option that we agree to
and that is off. -/
structure Side (yes no : UInt8) (is sent : UInt8 → Bool) (h : List Request) : Prop where
  is_eq (o : UInt8) : is o = (decide (Agreed o) && stands yes no o h)
  sent_off (o : UInt8) : sent o = true → Agreed o ∧ is o = false

/-- How a request changes the flags of one side. -/
structure Side.Step (yes no : UInt8) (is sent is' sent' : UInt8 → Bool) (verb o : UInt8) :
    Prop where
  on : verb = yes → is' o = decide (Agreed o) ∧ sent' o = false
  off : verb = no → is' o = false ∧ sent' o = false
  keep : verb ≠ yes → verb ≠ no → is' o = is o ∧ sent' o = sent o
  other (o' : UInt8) : o' ≠ o → is' o' = is o' ∧ sent' o' = sent o'

section
variable {yes no : UInt8} {is sent is' sent' : UInt8 → Bool} {h : List Request} {verb o : UInt8}

theorem Side.request (hs : Side yes no is sent h) (hne : no ≠ yes)
    (hstep : Side.Step yes no is sent is' sent' verb o) :
    Side yes no is' sent' (h ++ [(verb, o)]) := by
  -- an option that the request does not touch
  have hsame : ∀ o', is' o' = is o' ∧ sent' o' = sent o' →
      stands yes no o' (h ++ [(verb, o)]) = stands yes no o' h →
      is' o' = (decide (Agreed o') && stands yes no o' (h ++ [(verb, o)])) ∧
      (sent' o' = true → Agreed o' ∧ is' o' = false) := by
    rintro o' ⟨his, hsent⟩ hstands
    rw [his, hsent, hstands]
    exact ⟨hs.is_eq o', hs.sent_off o'⟩
  have hall : ∀ o', is' o' = (decide (Agreed o') && stands yes no o' (h ++ [(verb, o)])) ∧
      (sent' o' = true → Agreed o' ∧ is' o' = false) := by
    intro o'
    by_cases ho : o' = o
    · subst ho
      by_cases hyes : verb = yes
      · obtain ⟨his, hsent⟩ := hstep.on hyes
        rw [hyes, his, hsent, stands_snoc, if_pos rfl, if_pos rfl]
        simp
      by_cases hno : verb = no
      · obtain ⟨his, hsent⟩ := hstep.off hno
        rw [hno, his, hsent, stands_snoc, if_pos rfl, if_neg hne, if_pos rfl]
        simp
      · exact hsame o' (hstep.keep hyes hno)
          (by rw [stands_snoc, if_neg hyes, if_neg hno, ite_self])
    · exact hsame o' (hstep.other o' ho) (by rw [stands_snoc, if_neg fun heq => ho heq.symm])
  exact ⟨fun o' => (hall o').1, fun o' => (hall o').2⟩

/-- The requests of one side that are to be passed over in silence are,
unless the request is a renewal. -/
theorem Side.quiet_iff (hs : Side yes no is sent h) (hne : no ≠ yes)
    (hstep : Side.Step yes no is sent is' sent' verb o) {reply : List UInt8}
    (hyes : verb = yes → (reply = [] ↔ Agreed o ∧ sent o = true))
    (hno : verb = no → (reply = [] ↔ is o = false)) :
    ((verb = yes → is o = true → reply = []) ∧ (verb = no → is o = false → reply = []) ∧
      (verb = yes ∨ verb = no → sent o = true →
        reply = [] ∧ (Agreed o → is' o = decide (verb = yes)))) ↔
    ¬ (Agreed o ∧ verb = yes ∧ stands yes no o h = true) := by
  constructor
  · rintro ⟨hquiet, -, -⟩ ⟨hagreed, hverb, hstands⟩
    -- the option is on, so no request of our own is outstanding
    have his : is o = true := by
      rw [hs.is_eq, hstands]
      simpa using hagreed
    have hsent := ((hyes hverb).mp (hquiet hverb his)).2
    rw [(hs.sent_off o hsent).2] at his
    cases his
  · intro hrenew
    refine ⟨?_, fun hverb hoff => (hno hverb).mpr hoff, ?_⟩
    · intro hverb hon
      rw [hs.is_eq, Bool.and_eq_true, decide_eq_true_iff] at hon
      exact absurd ⟨hon.1, hverb, hon.2⟩ hrenew
    · rintro (hverb | hverb) hsent
      · obtain ⟨hagreed, -⟩ := hs.sent_off o hsent
        refine ⟨(hyes hverb).mpr ⟨hagreed, hsent⟩, fun _ => ?_⟩
        rw [(hstep.on hverb).1, decide_eq_true hagreed, decide_eq_true hverb]
      · refine ⟨(hno hverb).mpr (hs.sent_off o hsent).2, fun _ => ?_⟩
        rw [(hstep.off hverb).1, hverb, decide_eq_false hne]

end

/-- The flags say what the history `h` of requests says. -/
structure Settled (h : List Request) (g : Globals) : Prop where
  theirs : Side TNWILL TNWONT (fun o => (g.tnstate o).is_do) (fun o => (g.tnstate o).sent_do) h
  ours : Side TNDO TNDONT (fun o => (g.tnstate o).is_will) (fun o => (g.tnstate o).sent_will) h

theorem negotiating_tnstate (g : Globals) (o : UInt8) :
    g.negotiating.tnstate o =
      { sent_will :=
          decide (o = TN_TRANSMIT_BINARY ∨ o = TN_ECHO ∨ o = TN_SUPPRESS_GO_AHEAD)
        sent_do :=
          decide (o = TN_TRANSMIT_BINARY ∨ o = TN_SUPPRESS_GO_AHEAD ∨ o = TNCOM_PORT_OPTION) } := by
  unfold Globals.negotiating
  -- the four options that the initial options name, then any other
  by_cases hbin : o = TN_TRANSMIT_BINARY
  · subst hbin
    rfl
  by_cases hecho : o = TN_ECHO
  · subst hecho
    rfl
  by_cases hsga : o = TN_SUPPRESS_GO_AHEAD
  · subst hsga
    rfl
  by_cases hcom : o = TNCOM_PORT_OPTION
  · subst hcom
    rfl
  · simp only [setTn_tnstate, hbin, hecho, hsga, hcom, if_false, or_self, decide_false]
    rfl

theorem settled_negotiating (g : Globals) : Settled [] g.negotiating := by
  refine ⟨⟨?_, ?_⟩, ⟨?_, ?_⟩⟩
  · -- nothing has been received, and what was sent are requests for options we agree to
    intro o
    rw [negotiating_tnstate, stands]
    simp
  · intro o h
    rw [negotiating_tnstate] at h ⊢
    refine ⟨?_, rfl⟩
    rcases of_decide_eq_true h with h | h | h
    · exact .inr (.inl h)
    · exact .inr (.inr (.inr h))
    · exact .inl h
  · intro o
    rw [negotiating_tnstate, stands]
    simp
  · intro o h
    rw [negotiating_tnstate] at h ⊢
    exact ⟨.inr (of_decide_eq_true h), rfl⟩

section
variable {g g' : Globals} {verb o : UInt8}

section
variable (hg' : ∀ o', g'.tnstate o' = if o' = o then (g.tnstate o).after verb o else g.tnstate o')
include hg'

theorem step_theirs :
    Side.Step TNWILL TNWONT (fun o => (g.tnstate o).is_do) (fun o => (g.tnstate o).sent_do)
      (fun o => (g'.tnstate o).is_do) (fun o => (g'.tnstate o).sent_do) verb o := by
  have hself := hg' o
  rw [if_pos rfl] at hself
  refine ⟨?_, ?_, ?_, ?_⟩
  · rintro rfl
    exact ⟨by rw [hself]; rfl, by rw [hself]; rfl⟩
  · rintro rfl
    exact ⟨by rw [hself]; rfl, by rw [hself]; rfl⟩
  · intro hwill hwont
    rw [hself, TnState.after, if_neg hwill]
    split
    · exact ⟨rfl, rfl⟩
    · split <;> exact ⟨rfl, rfl⟩
  · intro o' hne
    rw [hg' o', if_neg hne]
    exact ⟨rfl, rfl⟩

theorem step_ours :
    Side.Step TNDO TNDONT (fun o => (g.tnstate o).is_will) (fun o => (g.tnstate o).sent_will)
      (fun o => (g'.tnstate o).is_will) (fun o => (g'.tnstate o).sent_will) verb o := by
  have hself := hg' o
  rw [if_pos rfl] at hself
  refine ⟨?_, ?_, ?_, ?_⟩
  · rintro rfl
    exact ⟨by rw [hself]; rfl, by rw [hself]; rfl⟩
  · rintro rfl
    exact ⟨by rw [hself]; rfl, by rw [hself]; rfl⟩
  · intro hdo hdont
    rw [hself, TnState.after, if_neg hdo, if_neg hdont]
    split
    · exact ⟨rfl, rfl⟩
    · split <;> exact ⟨rfl, rfl⟩
  · intro o' hne
    rw [hg' o', if_neg hne]
    exact ⟨rfl, rfl⟩

end

theorem Settled.request {h : List Request} (hs : Settled h g)
    (hg' : ∀ o', g'.tnstate o' = if o' = o then (g.tnstate o).after verb o else g.tnstate o') :
    Settled (h ++ [(verb, o)]) g' :=
  ⟨hs.theirs.request (by decide) (step_theirs hg'), hs.ours.request (by decide) (step_ours hg')⟩

end

/-! ### A call, and a stream -/

variable {g : Globals}

/-- A call of `HandleIACCommand` is quiet unless its request is a renewal. -/
theorem quiet_iff {h : List Request} (hs : Settled h g) (cmd : Command) (CSize : Nat) :
    Call.Quiet ⟨g, cmd[1], cmd[2], (Action.handle cmd CSize).toNet g,
      (Action.handle cmd CSize).after g⟩ ↔ ¬ Renews h (cmd[1], cmd[2]) := by
  have hafter := fun o' => iacBranch_tnstate g o' cmd CSize
  -- each side has its two verbs, and no request is of both
  have htheirs := hs.theirs.quiet_iff (by decide) (step_theirs hafter)
    (will_unanswered g cmd CSize) (wont_unanswered g cmd CSize)
  have hours := hs.ours.quiet_iff (by decide) (step_ours hafter)
    (do_unanswered g cmd CSize) (dont_unanswered g cmd CSize)
  constructor
  · rintro ⟨hwill, hdo, hwont, hdont, hansDo, hansWill⟩ ⟨hagreed, hrenew | hrenew⟩
    · exact htheirs.mp ⟨hwill, hwont, hansDo⟩ ⟨hagreed, hrenew⟩
    · exact hours.mp ⟨hdo, hdont, hansWill⟩ ⟨hagreed, hrenew⟩
  · intro hno
    obtain ⟨hwill, hwont, hansDo⟩ := htheirs.mpr fun hr => hno ⟨hr.1, .inl hr.2⟩
    obtain ⟨hdo, hdont, hansWill⟩ := hours.mpr fun hr => hno ⟨hr.1, .inr hr.2⟩
    exact ⟨hwill, hdo, hwont, hdont, hansDo, hansWill⟩

/-- With the room that the main loop makes sure of, the calls are those of
the actions. -/
theorem calls_cons {C : UInt8} {p : Parser} {a : Action}
    (hparse : parse g.isDo g.parser C = .ok (p, a)) (B : Sinks) (rest : List (UInt8 × Sinks)) :
    calls g ((C, B) :: rest) =
      a.call { g with parser := p } (a.toNet { g with parser := p })
          (a.after { g with parser := p }) ++
        calls (a.after { g with parser := p }) rest := by
  -- the loop reads only if the answers to what it reads have room
  have hnet : (a.toNet { g with parser := p }).length ≤ B.sock.buf.room :=
    Nat.le_trans (a.toNet_length _) (Nat.le_trans (by decide) B.sock.room)
  have hdev : a.toDev.length ≤ B.dev.buf.room := Nat.le_trans a.toDev_length B.dev.room
  obtain ⟨S, hS, -, -, hc⟩ := addBytes_ok B.sock.valid hnet
  obtain ⟨D, hD, -⟩ := addBytes_ok B.dev.valid hdev
  have hredirect : escRedirectChar g B.sock.buf B.dev.buf C =
      .ok (a.after { g with parser := p }, S, D) := by
    rw [escRedirectChar_eq, hparse, ok_bind]
    simp only [hS, hD, ok_bind]
  rw [calls, hparse, hredirect]
  dsimp only
  rw [added_of_contents hc]

theorem calls_fault {C : UInt8} {f : Fault} (hparse : parse g.isDo g.parser C = .error f)
    (B : Sinks) (rest : List (UInt8 × Sinks)) : calls g ((C, B) :: rest) = [] := by
  rw [calls, hparse]

/-- From a state in which the flags say what the history says, the calls of a
stream are quiet exactly if none of its requests is a renewal. -/
theorem calls_quiet_iff {h : List Request} (hs : Settled h g) (l : List (UInt8 × Sinks)) :
    (∀ c ∈ calls g l, c.Quiet) ↔ NoRenewal h ((calls g l).map Call.request) := by
  induction l generalizing h g with
  | nil => simp [calls, NoRenewal]
  | cons CB rest ih =>
    obtain ⟨C, B⟩ := CB
    match hparse : parse g.isDo g.parser C with
    | .error f =>
      rw [calls_fault hparse]
      simp [NoRenewal]
    | .ok (p, a) =>
      rw [calls_cons hparse]
      -- the parser plays no part in the flags
      have hs' : Settled h { g with parser := p } := ⟨hs.theirs, hs.ours⟩
      cases a with
      | nothing | toDevice => exact ih hs'
      | handle cmd CSize =>
        -- the request is added to the history, and the flags go with it
        have hafter : Settled (h ++ [(cmd[1], cmd[2])])
            ((Action.handle cmd CSize).after { g with parser := p }) :=
          hs'.request fun o' => iacBranch_tnstate { g with parser := p } o' cmd CSize
        simp only [Action.call, List.cons_append, List.nil_append, List.forall_mem_cons,
          List.map_cons, Call.request, NoRenewal]
        exact and_congr (quiet_iff hs' cmd CSize) (ih hafter)

/-- **No acknowledgement of what stands**: on every stream of bytes received
after the initial options, the calls of `HandleIACCommand` pass over in
silence what changes nothing, and take down the answers to our own
requests, exactly if the stream repeats no WILL (no DO) for an option we
agree to without a WONT (a DONT) in between. -/
theorem negotiation_quiet_iff {g₀ g : Globals} {B B' : BufferType}
    (hstart : sendTelnetInitialOptions (initTelnetStateMachine g₀) B = .ok (g, B'))
    (l : List (UInt8 × Sinks)) :
    (∀ c ∈ calls g l, c.Quiet) ↔ NoRenewal [] ((calls g l).map Call.request) := by
  have hg : g = g₀.negotiating := by
    rw [sendTelnetInitialOptions_emits] at hstart
    obtain ⟨B'', -, heq⟩ := bind_eq_ok.mp hstart
    cases heq
    rfl
  rw [hg]
  exact calls_quiet_iff (settled_negotiating g₀) l

/-- Each byte with empty buffers. -/
def onWire (bs : List UInt8) : List (UInt8 × Sinks) := bs.map fun C => (C, default)

/-- WILL BINARY answers the request of the initial options, and WILL ECHO
after WONT ECHO is not a renewal. -/
def settlingBytes : List UInt8 :=
  [TNIAC, TNWILL, TN_TRANSMIT_BINARY, TNIAC, TNWONT, TN_ECHO, TNIAC, TNWILL, TN_ECHO]

theorem negotiation_quiet_settling :
    ∃ g B', sendTelnetInitialOptions (initTelnetStateMachine (initialGlobals default))
        (initBuffer default) = .ok (g, B') ∧
      ((calls g (onWire settlingBytes)).map Call.request).length = 3 ∧
      ∀ c ∈ calls g (onWire settlingBytes), c.Quiet := by
  obtain ⟨B', hsend, -⟩ := sendTelnetInitialOptions_ok (initialGlobals default) default
  have hrequests : (calls (initialGlobals default).negotiating (onWire settlingBytes)).map
      Call.request = [(TNWILL, TN_TRANSMIT_BINARY), (TNWONT, TN_ECHO), (TNWILL, TN_ECHO)] := by
    decide +kernel
  refine ⟨_, B', hsend, by rw [hrequests]; rfl, ?_⟩
  rw [negotiation_quiet_iff hsend, hrequests]
  decide

/-- WILL BINARY twice: the second one, when `is_do` is set, is answered with
DO BINARY. -/
theorem renewed_will_acknowledged :
    ∃ g B', sendTelnetInitialOptions (initTelnetStateMachine (initialGlobals default))
        (initBuffer default) = .ok (g, B') ∧
      ∃ c ∈ calls g (onWire [TNIAC, TNWILL, TN_TRANSMIT_BINARY, TNIAC, TNWILL,
          TN_TRANSMIT_BINARY]),
        c.verb = TNWILL ∧ (c.before.tnstate c.option).is_do = true ∧
          c.reply = [TNIAC, TNDO, TN_TRANSMIT_BINARY] ∧ ¬ c.Quiet := by
  obtain ⟨B', hsend, -⟩ := sendTelnetInitialOptions_ok (initialGlobals default) default
  refine ⟨_, B', hsend, ?_⟩
  obtain ⟨c, hc, hverb, his, hreply⟩ : ∃ c ∈ calls (initialGlobals default).negotiating
      (onWire [TNIAC, TNWILL, TN_TRANSMIT_BINARY, TNIAC, TNWILL, TN_TRANSMIT_BINARY]),
        c.verb = TNWILL ∧ (c.before.tnstate c.option).is_do = true ∧
          c.reply = [TNIAC, TNDO, TN_TRANSMIT_BINARY] := by
    decide +kernel
  refine ⟨c, hc, hverb, his, hreply, ?_⟩
  intro hquiet
  rw [hquiet.will hverb his] at hreply
  cases hreply

end Sercd
