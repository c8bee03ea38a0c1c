import Cnu680.Sercd.Parser

/-! # sercd: the declared number of bytes

With each function that writes to a buffer, `sercd.c` declares how many
bytes a call adds at most; the main loop waits for that much room. A call
adds bytes that do not depend on the buffer (`Sender.WithinBudget`), and no
more of them than declared, with one exception: `SendTelnetInitialOptions`
sends six options and declares three. -/

open Framework

namespace Sercd

abbrev sendTelnetInitialOptions_bytes : UInt32 := sendTelnetOption_bytes * 3

/-- A call of a function with a `.._bytes` macro. -/
inductive Sender where
  | escWriteChar (C : UInt8)
  | sendTelnetOption (Command Option : UInt8)
  | sendTelnetInitialOptions
  | sendSignature (Sig : CString) (hlen : Sig.strlen ≤ 255)
  | sendBaudRate (BR : UInt32)
  | sendCPCByteCommand (Command Parm : UInt8)
  | handleCPCCommand (cmd : Command) (CSize : Nat)
  | handleIACCommand (cmd : Command) (CSize : Nat)
  | escRedirectChar (C : UInt8)

/-- Only the buffer to the network has been written to. -/
def toSock {α : Type} (DevB : BufferType) (r : Except Fault (α × BufferType)) :
    Except Fault (BufferType × BufferType) :=
  r.map fun x => (x.2, DevB)

/-- The two buffers after the call. -/
def Sender.call (g : Globals) (SockB DevB : BufferType) :
    Sender → Except Fault (BufferType × BufferType)
  | .escWriteChar C => toSock DevB (Sercd.escWriteChar g C SockB)
  | .sendTelnetOption Command Option => toSock DevB (Sercd.sendTelnetOption Command Option SockB)
  | .sendTelnetInitialOptions => toSock DevB (Sercd.sendTelnetInitialOptions g SockB)
  | .sendSignature Sig _ => toSock DevB (Sercd.sendSignature g Sig SockB)
  | .sendBaudRate BR => toSock DevB (Sercd.sendBaudRate g BR SockB)
  | .sendCPCByteCommand Command Parm =>
    toSock DevB (Sercd.sendCPCByteCommand g Command Parm SockB)
  | .handleCPCCommand cmd CSize => toSock DevB (Sercd.handleCPCCommand g cmd CSize SockB)
  | .handleIACCommand cmd CSize => toSock DevB (Sercd.handleIACCommand g cmd CSize SockB)
  | .escRedirectChar C => (Sercd.escRedirectChar g SockB DevB C).map fun x => x.2

/-- The macros: the bytes to the network and to the device. -/
def Sender.bytes : Sender → UInt32 × UInt32
  | .escWriteChar _ => (escWriteChar_bytes, 0)
  | .sendTelnetOption _ _ => (sendTelnetOption_bytes, 0)
  | .sendTelnetInitialOptions => (sendTelnetInitialOptions_bytes, 0)
  | .sendSignature _ _ => (sendSignature_bytes, 0)
  | .sendBaudRate _ => (sendBaudRate_bytes, 0)
  | .sendCPCByteCommand _ _ => (sendCPCByteCommand_bytes, 0)
  | .handleCPCCommand _ _ => (handleCPCCommand_bytes, 0)
  | .handleIACCommand _ _ => (handleIACCommand_bytes, 0)
  | .escRedirectChar _ => (escRedirectChar_bytes_SockB, escRedirectChar_bytes_DevB)

/-- The call adds the bytes `net` and `dev` to the buffers, and no more than
declared. -/
def Sender.WithinBudget (g : Globals) (c : Sender) : Prop :=
  ∃ net dev : List UInt8, net.length ≤ c.bytes.1.toNat ∧ dev.length ≤ c.bytes.2.toNat ∧
    ∀ SockB DevB, c.call g SockB DevB =
      addBytes SockB net >>= fun SockB' => addBytes DevB dev >>= fun DevB' => .ok (SockB', DevB')

section
variable {g : Globals} {c : Sender}

theorem Sender.WithinBudget.of_emits {α : Type} {m : BufM α} {x : α} {out : List UInt8}
    (hcall : ∀ SockB DevB, c.call g SockB DevB = toSock DevB (m SockB))
    (h : Emits addToBuffer m x out) (hlen : out.length ≤ c.bytes.1.toNat) : c.WithinBudget g := by
  refine ⟨out, [], hlen, Nat.zero_le _, fun SockB DevB => ?_⟩
  rw [hcall, toSock, h SockB, addBytes]
  cases run addToBuffer SockB out <;> rfl

theorem Sender.WithinBudget.of_reply {r : Reply} {g' : Globals}
    (hcall : ∀ SockB DevB, c.call g SockB DevB = toSock DevB (r.send g' SockB))
    (hlen : 514 ≤ c.bytes.1.toNat) : c.WithinBudget g :=
  .of_emits hcall (Reply.send_emits g' r) (Nat.le_trans (Reply.bytes_length g' r) hlen)

theorem Sender.withinBudget_escRedirectChar (hp : g.parser.Inv) (C : UInt8) :
    (Sender.escRedirectChar C).WithinBudget g := by
  obtain ⟨p, a, hparse, -, -⟩ := parse_inv hp g.isDo C
  refine ⟨a.toNet { g with parser := p }, a.toDev, ?_, a.toDev_length, fun SockB DevB => ?_⟩
  · exact Nat.le_trans (a.toNet_length _) (show 514 ≤ escRedirectChar_bytes_SockB.toNat by decide)
  · rw [Sender.call, escRedirectChar_eq, hparse, ok_bind]
    dsimp only
    cases addBytes SockB (a.toNet { g with parser := p }) with
    | error e => rfl
    | ok SockB' => cases addBytes DevB a.toDev <;> rfl

theorem Sender.not_withinBudget_initialOptions (g : Globals) :
    ¬ Sender.sendTelnetInitialOptions.WithinBudget g := by
  rintro ⟨net, dev, hnet, -, hcall⟩
  have hsix : Emits addToBuffer (Sercd.sendTelnetInitialOptions g) _ _ :=
    (sendTelnetOption_emits _ _).bind ((sendTelnetOption_emits _ _).bind
      ((sendTelnetOption_emits _ _).bind ((sendTelnetOption_emits _ _).bind
        ((sendTelnetOption_emits _ _).bind ((sendTelnetOption_emits _ _).bind (Emits.pure _))))))
  -- an empty buffer has room for them
  have hroom := room_initBuffer default
  have hnine : net.length ≤ 9 := hnet
  obtain ⟨B, hB, -, -, hcontents⟩ :=
    addBytes_ok (valid_initBuffer default) (show net.length ≤ _ by omega)
  obtain ⟨B', hB', -, hcontents'⟩ :=
    emits_ok hsix (valid_initBuffer default) (by rw [hroom]; decide)
  have h := hcall (initBuffer default) default
  rw [Sender.call, hB', hB, ok_bind] at h
  obtain ⟨D, -, heq⟩ := bind_eq_ok.mp h.symm
  cases heq
  have hlen := congrArg List.length (hcontents.symm.trans hcontents')
  simp only [List.length_append, List.length_cons, List.length_nil] at hlen
  omega

/-- **The declared numbers of bytes.** In every state of the escaping, of the
negotiation and of the parser, every call but that of
`SendTelnetInitialOptions` adds at most the number of bytes declared. -/
theorem output_budgets_iff (hp : ∃ ms as, parseAll initialParser ms = .ok (g.parser, as)) :
    c.WithinBudget g ↔ c ≠ .sendTelnetInitialOptions := by
  constructor
  · rintro h rfl
    exact Sender.not_withinBudget_initialOptions g h
  · intro hne
    match c with
    | .escWriteChar C =>
      exact .of_emits (fun _ _ => rfl) (escWriteChar_emits g C) (escapeChar_length ..).2
    | .sendTelnetOption Command Option =>
      exact .of_emits (fun _ _ => rfl) (sendTelnetOption_emits Command Option) (Nat.le_refl 3)
    | .sendTelnetInitialOptions => exact absurd rfl hne
    | .sendSignature Sig hlen =>
      refine .of_emits (fun _ _ => rfl) (sendSignature_emits g Sig hlen) ?_
      exact Nat.le_trans (cpcFrame_length ..) (Nat.add_le_add_left (Nat.mul_le_mul_left 2 hlen) 6)
    | .sendBaudRate BR =>
      exact .of_emits (fun _ _ => rfl) (sendBaudRate_emits g BR) (cpcFrame_length ..)
    | .sendCPCByteCommand Command Parm =>
      exact .of_emits (fun _ _ => rfl) (sendCPCByteCommand_emits g Command Parm)
        (cpcFrame_length ..)
    | .handleCPCCommand cmd CSize =>
      exact .of_reply (fun _ _ => rfl) (show 514 ≤ handleCPCCommand_bytes.toNat by decide)
    | .handleIACCommand cmd CSize =>
      exact .of_reply (fun _ _ => rfl) (show 514 ≤ handleIACCommand_bytes.toNat by decide)
    | .escRedirectChar C =>
      obtain ⟨ms, as, hms⟩ := hp
      obtain ⟨p, as', hp', hinv, -⟩ := parseAll_inv initialParser_inv ms
      cases hms.symm.trans hp'
      exact Sender.withinBudget_escRedirectChar hinv C

end

/-- A client asks for the signature, up to the IAC before the SE. -/
def askSignature : List (Bool × UInt8) :=
  [TNIAC, TNSB, TNCOM_PORT_OPTION, TNCAS_SIGNATURE, TNIAC].map (false, ·)

/-- It has agreed to port control. -/
def asked (p : Parser) : Globals :=
  { (initialGlobals default).setTn TNCOM_PORT_OPTION fun st => { st with is_will := true } with
    parser := p }

/-- The SE is answered with the signature, in 18 bytes. -/
theorem output_budgets_signature :
    ∃ p as B, parseAll initialParser askSignature = .ok (p, as) ∧
      (Sender.escRedirectChar TNSE).call (asked p) (initBuffer default) default = .ok B ∧
      B.1.contents.length = 18 ∧ (Sender.escRedirectChar TNSE).WithinBudget (asked p) := by
  obtain ⟨⟨p, as⟩, B, hp, hcall, hlen⟩ : ∃ x B, parseAll initialParser askSignature = .ok x ∧
      (Sender.escRedirectChar TNSE).call (asked x.1) (initBuffer default) default = .ok B ∧
      B.1.contents.length = 18 := by
    decide +kernel
  exact ⟨p, as, B, hp, hcall, hlen, (output_budgets_iff ⟨askSignature, as, hp⟩).mpr (by simp)⟩

/-- The negotiation of a new connection: 18 bytes, and 9 declared. -/
theorem initial_options_over_budget :
    (∃ ms as, parseAll initialParser ms = .ok ((initialGlobals default).parser, as)) ∧
      ¬ Sender.sendTelnetInitialOptions.WithinBudget (initialGlobals default) :=
  ⟨⟨[], [], rfl⟩, Sender.not_withinBudget_initialOptions _⟩

end Sercd
