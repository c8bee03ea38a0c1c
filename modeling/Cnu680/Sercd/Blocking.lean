import Cnu680.Sercd.MainLoop

/-! # sercd: calls that would block

The sockets and the device are non-blocking, and `IOResultError` lets a
result of -1 with EWOULDBLOCK through as no error. The handlers then go
on with `iobytes = -1`:

* the two loops compare it, converted to unsigned, with `i`, so they run
  past the end of `readbuf`;
* the two calls of `BufferPopBytes` convert it to 2^32 - 1, which moves
  the read position one byte back.
-/

open Framework

namespace Sercd

/-- What a step that did nothing leaves as it was. -/
structure Unchanged (s t : Main) : Prop where
  devRdPos : t.toDevBuf.rdPos = s.toDevBuf.rdPos
  devWrPos : t.toDevBuf.wrPos = s.toDevBuf.wrPos
  devBytes : t.toDevBuf.contents = s.toDevBuf.contents
  netRdPos : t.toNetBuf.rdPos = s.toNetBuf.rdPos
  netWrPos : t.toNetBuf.wrPos = s.toNetBuf.wrPos
  netBytes : t.toNetBuf.contents = s.toNetBuf.contents
  parser : t.g.parser = s.g.parser
  tnstate : t.g.tnstate = s.g.tnstate

/-- The step comes to an end and changes nothing. -/
def ChangesNothing (s : Main) (r : Except Halt (Flow Main)) : Prop :=
  ∃ f, r = .ok f ∧ Unchanged s f.state

theorem not_changesNothing_of_error {s : Main} {r : Except Halt (Flow Main)}
    (h : ∃ e, r = .error e) : ¬ ChangesNothing s r := by
  rintro ⟨f, hf, -⟩
  obtain ⟨e, he⟩ := h
  rw [he] at hf
  cases hf

theorem ioResultError_block : ioResultError (-1) EWOULDBLOCK = false := rfl

/-! ### Reads -/

theorem toNat_ofInt_neg_one : (UInt32.ofInt (-1)).toNat = 4294967295 := rfl

/-- A loop over `readbuf` that is told to go on to 2^32 - 1 stops the
process: at the latest with `readbuf[512]`. -/
theorem run_readbuf_block {σ : Type} (step : σ → UInt8 → Except Fault σ)
    (readbuf : Vector UInt8 512) (s : σ) :
    ∃ e, run (fun x i => readAt readbuf i >>= fun C => step x C) s
      (List.range (UInt32.ofInt (-1)).toNat) = .error e := by
  have hmem : 512 ∈ List.range (UInt32.ofInt (-1)).toNat := by
    rw [List.mem_range, toNat_ofInt_neg_one]
    omega
  refine run_error_of_mem hmem fun x => ⟨.outOfBounds, ?_⟩
  have hread : readAt readbuf 512 = .error .outOfBounds := dif_neg (by omega)
  rw [hread]
  rfl

theorem deviceIn_block (s : Main) (i : Inputs) :
    ∃ e, deviceIn { i with devRead := .fail EWOULDBLOCK } s = .error e := by
  unfold deviceIn
  by_cases hdev : s.deviceFd.isNone
  · rw [if_pos hdev]
    exact ⟨_, rfl⟩
  · rw [if_neg hdev]
    -- -1 is no error, so the loop runs, over what was in `readbuf` before
    obtain ⟨e, he⟩ := run_readbuf_block
      (fun (x : Globals × BufferType) C => escWriteChar x.1 C x.2) (fill s.readbuf [])
      (s.g, s.toNetBuf)
    refine ⟨.fault e, ?_⟩
    have hloop : escWriteLoop (fill s.readbuf []) s.g s.toNetBuf (UInt32.ofInt (-1)) =
        .error e := he
    simp only [ReadResult.value, ReadResult.data, ReadResult.errno, ioResultError_block,
      Main.record, hloop]
    rfl

theorem socketIn_block (s : Main) (i : Inputs) :
    ∃ e, socketIn { i with netRead := .fail EWOULDBLOCK } s = .error e := by
  unfold socketIn
  by_cases hin : s.inSocketFd.isNone
  · rw [if_pos hin]
    exact ⟨_, rfl⟩
  rw [if_neg hin]
  by_cases hdev : s.deviceFd.isNone
  · refine ⟨.fault .nullPointer, ?_⟩
    simp only [ReadResult.value, ReadResult.errno, ioResultError_block, Main.record, hdev]
    rfl
  · obtain ⟨e, he⟩ := run_readbuf_block
      (fun (x : Globals × BufferType × BufferType) C => escRedirectChar x.1 x.2.1 x.2.2 C)
      (fill s.readbuf []) (s.g, s.toNetBuf, s.toDevBuf)
    refine ⟨.fault e, ?_⟩
    have hloop : escRedirectLoop (fill s.readbuf []) s.g s.toNetBuf s.toDevBuf
        (UInt32.ofInt (-1)) = .error e := he
    simp only [ReadResult.value, ReadResult.data, ReadResult.errno, ioResultError_block,
      Main.record, hdev, hloop]
    rfl

/-! ### Writes -/

theorem bufferPopBytes_block (B : BufferType) :
    (bufferPopBytes B (UInt32.ofInt (-1))).rdPos ≠ B.rdPos := by
  intro h
  have hnat := congrArg UInt32.toNat h
  have hlt := B.rdPos.toNat_lt
  simp only [bufferPopBytes, UInt32.toNat_mod, UInt32.toNat_add, UInt32.reduceToNat,
    toNat_ofInt_neg_one] at hnat
  omega

theorem deviceOut_block (s : Main) (i : Inputs) :
    ¬ ChangesNothing s (deviceOut { i with devWrite := .fail EWOULDBLOCK } s) := by
  unfold deviceOut
  by_cases hdev : s.deviceFd.isNone
  · rw [if_pos hdev]
    exact not_changesNothing_of_error ⟨_, rfl⟩
  · rw [if_neg hdev]
    rintro ⟨f, hf, hsame⟩
    cases hf
    exact bufferPopBytes_block s.toDevBuf hsame.devRdPos

theorem socketOut_block (s : Main) (i : Inputs) :
    ¬ ChangesNothing s (socketOut { i with netWrite := .fail EWOULDBLOCK } s) := by
  unfold socketOut
  by_cases hout : s.outSocketFd.isNone
  · rw [if_pos hout]
    exact not_changesNothing_of_error ⟨_, rfl⟩
  · rw [if_neg hout]
    rintro ⟨f, hf, hsame⟩
    cases hf
    exact bufferPopBytes_block s.toNetBuf hsame.netRdPos

/-- **No call that would block changes nothing**, whatever the state: the
reads stop the process, the writes move a read position. -/
theorem blocked_call_changes_state (s : Main) (i : Inputs) :
    ¬ ChangesNothing s (deviceIn { i with devRead := .fail EWOULDBLOCK } s) ∧
    ¬ ChangesNothing s (deviceOut { i with devWrite := .fail EWOULDBLOCK } s) ∧
    ¬ ChangesNothing s (socketOut { i with netWrite := .fail EWOULDBLOCK } s) ∧
    ¬ ChangesNothing s (socketIn { i with netRead := .fail EWOULDBLOCK } s) :=
  ⟨not_changesNothing_of_error (deviceIn_block s i), deviceOut_block s i, socketOut_block s i,
    not_changesNothing_of_error (socketIn_block s i)⟩

/-- A process started by `inetd` has 18 bytes to write. The first write
would block: one byte more is then queued, from the end of the array,
and will be sent before them. -/
theorem blocked_write_queues_stale_byte :
    (mainLoop default default .inetd []).map
        (fun s => (s.toNetBuf.rdPos, s.toNetBuf.wrPos, s.toNetBuf.contents.length)) =
      .ok (0, 18, 18) ∧
    (mainLoop default default .inetd
        [{ ready := { socketOut := true }, netWrite := .fail EWOULDBLOCK, openFd := some 3 }]).map
        (fun s => (s.toNetBuf.rdPos, s.toNetBuf.wrPos, s.toNetBuf.contents.length)) =
      .ok (2047, 18, 19) := by
  decide +kernel

end Sercd
