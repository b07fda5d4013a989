import HttpExchange.Proofs.Transaction
import HttpExchange.Proofs.Writing

set_option autoImplicit false

/-! # Requests on the wire

A send writes its message, the composed header with the body behind it, flushes, and only then
reads. `Sent message writes rest answer` names the four ways in which this can end: a write is
refused, the flush fails, the response header gives an answer, or it gives none. Whatever ends a
send early also closes the connection. From this the main statement `sendRequest_wire` says what
the peer may have of the request at each of these points. -/

namespace HttpExchange.Client

variable {σ : Type}

/-- What a send puts on the wire: the composed header, and the body behind it. -/
def message (k : Client σ) (body : Option Bytes) : Bytes := k.header.written ++ body.getD []

/-- The calls of a send that ends with the answer: the writes, and the rest behind them. -/
inductive Sent (message : Bytes) (writes : List Call) : List Call → Except Error Nat → Prop
  | refused {e : Error} (h : WritesOut message writes (.error e)) (closing : Except Fault Unit) :
      Sent message writes [.close closing] (.error e)
  | unflushed (h : WritesOut message writes (.ok ())) (f : Fault) (closing : Except Fault Unit) :
      Sent message writes [.flush (.error f), .close closing] (.error .send)
  /-- The response header was read. -/
  | answered (h : WritesOut message writes (.ok ())) {reads : List Call}
      (hreads : ∀ call ∈ reads, call.IsRead) (status : Nat) :
      Sent message writes (.flush (.ok ()) :: reads) (.ok status)
  /-- There was no response header, or it was not acceptable. -/
  | unanswered (h : WritesOut message writes (.ok ())) {reads : List Call}
      (hreads : ∀ call ∈ reads, call.IsRead) (e : Error) (closing : Except Fault Unit) :
      Sent message writes (.flush (.ok ()) :: (reads ++ [.close closing])) (.error e)

variable [Transport σ]

/-! ## The calls of a send -/

/-- Transmitting a request writes its message out, and flushes if that succeeds. -/
theorem transmit_calls (k : Client (Logged σ)) (body : Option Bytes) :
    ∃ writes l,
      (∃ e, WritesOut (k.message body) writes (.error e) ∧
        l.calls = k.connection.calls ++ writes ∧
        k.transmit body = (.error e, { k with connection := l })) ∨
      (WritesOut (k.message body) writes (.ok ()) ∧
        ((∃ f, l.calls = k.connection.calls ++ writes ++ [.flush (.error f)] ∧
            k.transmit body = (.error .send, { k with connection := l })) ∨
          (l.calls = k.connection.calls ++ writes ++ [.flush (.ok ())] ∧
            k.transmit body = (.ok (), { k with connection := l, stage := .awaiting })))) := by
  obtain ⟨header, hheader, hwrites⟩ := writeAll_calls k.connection k.header.written
  unfold transmit message
  rcases h₁ : writeAll k.connection k.header.written with ⟨e | _, l₁⟩
  · -- a header that is cut off keeps the body off the wire
    rw [h₁] at hheader hwrites
    exact ⟨header, l₁, .inl ⟨e, hwrites.error_append _, hheader, rfl⟩⟩
  · -- header and body count as one message from here on
    rw [h₁] at hheader hwrites
    obtain ⟨payload, hpayload, hwrites'⟩ := writeAll_calls l₁ (body.getD [])
    have hall := hwrites.append hwrites'
    rcases h₂ : writeAll l₁ (body.getD []) with ⟨e | _, l₂⟩
    · rw [h₂] at hpayload hall
      refine ⟨header ++ payload, l₂, .inl ⟨e, hall, ?_, ?_⟩⟩
      · rw [hpayload, hheader, List.append_assoc]
      · simp only [h₂]
    · rw [h₂] at hpayload hall
      rcases h₃ : Transport.flush l₂ with ⟨f | _, l₃⟩
      · refine ⟨header ++ payload, l₃, .inr ⟨hall, .inl ⟨f, ?_, ?_⟩⟩⟩
        · rw [(Logged.of_note h₃).2, hpayload, hheader, List.append_assoc _ header]
        · simp only [h₂, h₃]
      · refine ⟨header ++ payload, l₃, .inr ⟨hall, .inr ⟨?_, ?_⟩⟩⟩
        · rw [(Logged.of_note h₃).2, hpayload, hheader, List.append_assoc _ header]
        · simp only [h₂, h₃]

/-- A send that fails closes the connection, and leaves the handle closed. -/
theorem Ready.closes {k k₁ : Client (Logged σ)} (hready : k.Ready) {body : Option Bytes} {e : Error}
    (h : k.transact body = (.error e, k₁)) (hopen : k₁.stage ≠ .closed) :
    ∃ closing, (k.sendRequest body).2.connection.calls = k₁.connection.calls ++ [.close closing] ∧
      (k.sendRequest body).1 = .error e ∧ (k.sendRequest body).2.state = .closed := by
  rw [hready.sendRequest_error h, release_open hopen]
  exact ⟨_, (Logged.of_note rfl).2, rfl, rfl⟩

/-- All that a send does to its connection. -/
theorem Ready.sendRequest_calls {k : Client (Logged σ)} (hready : k.Ready) (body : Option Bytes) :
    ∃ writes rest, (k.sendRequest body).2.connection.calls = k.connection.calls ++ writes ++ rest ∧
      Sent (k.message body) writes rest (k.sendRequest body).1 ∧
      ∀ e, (k.sendRequest body).1 = .error e → (k.sendRequest body).2.state = .closed := by
  have hopen : k.stage ≠ .closed := by simp [hready.1]
  obtain ⟨writes, l, ⟨e, hwrites, hl, htransmit⟩ |
    ⟨hwrites, ⟨f, hl, htransmit⟩ | ⟨hl, htransmit⟩⟩⟩ :=
    k.transmit_calls body
  · obtain ⟨closing, hcalls, hanswer, hstate⟩ :=
      hready.closes (transact_of_unsent htransmit) hopen
    refine ⟨writes, [.close closing], ?_, ?_, fun _ _ => hstate⟩
    · rw [hcalls, hl]
    · rw [hanswer]
      exact .refused hwrites closing
  · obtain ⟨closing, hcalls, hanswer, hstate⟩ :=
      hready.closes (transact_of_unsent htransmit) hopen
    refine ⟨writes, [.flush (.error f), .close closing], ?_, ?_, fun _ _ => hstate⟩
    · rw [hcalls, hl, List.append_assoc _ [_]]
      rfl
    · rw [hanswer]
      exact .unflushed hwrites f closing
  · -- the request is out, and what is left to do is to read the response header
    obtain ⟨header, l', hsteps, hread⟩ :=
      awaitHead_outcome { k with connection := l, stage := .awaiting }
    obtain ⟨reads, hreads, hall⟩ := hsteps.calls
    rcases hread with ⟨head, hhead⟩ | ⟨e, hhead⟩
    · have hsend := hready.sendRequest_ok ((transact_of_sent htransmit).trans hhead)
      refine ⟨writes, .flush (.ok ()) :: reads, ?_, ?_, ?_⟩
      · rw [hsend]
        show l'.calls = _
        rw [hreads, hl, List.append_assoc _ [_]]
        rfl
      · rw [hsend]
        exact .answered hwrites hall head.status
      · intro e he
        rw [hsend] at he
        cases he
    · obtain ⟨closing, hcalls, hanswer, hstate⟩ :=
        hready.closes ((transact_of_sent htransmit).trans hhead) (by simp)
      refine ⟨writes, .flush (.ok ()) :: (reads ++ [.close closing]), ?_, ?_, fun _ _ => hstate⟩
      · rw [hcalls]
        show l'.calls ++ _ = _
        rw [hreads, hl]
        simp
      · rw [hanswer]
        exact .unanswered hwrites hall e closing

/-! ## What the calls tell -/

namespace Sent

variable {message : Bytes} {writes rest : List Call} {answer : Except Error Nat}

theorem writesOut (h : Sent message writes rest answer) :
    ∃ written, WritesOut message writes written := by
  cases h with
  | refused h => exact ⟨_, h⟩
  | unflushed h => exact ⟨_, h⟩
  | answered h => exact ⟨_, h⟩
  | unanswered h => exact ⟨_, h⟩

/-- The writes are over when something else is done. -/
theorem not_isWrite (h : Sent message writes rest answer) : ∀ call ∈ rest, ¬ call.IsWrite := by
  have hreads : ∀ {reads : List Call}, (∀ call ∈ reads, call.IsRead) →
      ∀ call ∈ reads, ¬ call.IsWrite := by
    intro reads hreads call hcall hwrite
    cases call with
    | write data n => exact hreads _ hcall
    | _ => exact hwrite
  cases h with
  | refused _ closing => simp [Call.IsWrite]
  | unflushed _ f closing => simp [Call.IsWrite]
  | answered _ hall => exact List.forall_mem_cons.2 ⟨id, hreads hall⟩
  | unanswered _ hall =>
      refine List.forall_mem_cons.2 ⟨id, List.forall_mem_append.2 ⟨hreads hall, ?_⟩⟩
      simp [Call.IsWrite]

/-- Nothing is read before the whole message is on the wire and flushed. -/
theorem of_read (h : Sent message writes rest answer) {room : Nat} {got : Except Fault Bytes}
    (hread : .read room got ∈ rest) :
    onWire writes = message ∧
      ∃ later, rest = .flush (.ok ()) :: later ∧ ∀ call ∈ later, call.IsRead ∨ call.IsClose := by
  cases h with
  | refused _ closing => simp at hread
  | unflushed _ f closing => simp at hread
  | answered hw hall =>
      exact ⟨hw.of_ok.1, _, rfl, fun call hcall => .inl (hall call hcall)⟩
  | unanswered hw hall =>
      refine ⟨hw.of_ok.1, _, rfl, List.forall_mem_append.2
        ⟨fun call hcall => .inl (hall call hcall), ?_⟩⟩
      simp [Call.IsClose]

/-- A refused write ends the send with a part of the message on the wire. -/
theorem of_refusal (h : Sent message writes rest answer) {call : Call} (hcall : call ∈ writes)
    (hrefused : call.IsRefusal) :
    onWire writes <+: message ∧ onWire writes ≠ message ∧ (∀ call ∈ rest, call.IsClose) ∧
      answer = .error .send := by
  have hnot : ¬ WritesOut message writes (.ok ()) := fun hw => hw.of_ok.2 call hcall hrefused
  cases h with
  | refused hw closing =>
      obtain ⟨rfl, hshort, -⟩ := hw.of_error
      exact ⟨hw.onWire_prefix (List.prefix_refl writes), hshort, by simp [Call.IsClose], rfl⟩
  | unflushed hw => exact absurd hw hnot
  | answered hw => exact absurd hw hnot
  | unanswered hw => exact absurd hw hnot

/-- A failed flush ends the send with the whole message on the wire. -/
theorem of_flush (h : Sent message writes rest answer) {f : Fault}
    (hflush : .flush (.error f) ∈ rest) :
    onWire writes = message ∧ (∀ room got, .read room got ∉ rest) ∧ answer = .error .send := by
  cases h with
  | refused _ closing => simp at hflush
  | unflushed hw f closing => exact ⟨hw.of_ok.1, by simp, rfl⟩
  | answered _ hall =>
      exact absurd (hall (.flush (.error f)) (by simpa using hflush)) id
  | unanswered _ hall =>
      exact absurd (hall (.flush (.error f)) (by simpa using hflush)) id

end Sent

/-- **Requests on the wire.** A send that is not refused writes its message, the composed header
and then the body, with at most as many writes as there are bytes and none of them empty. If it
reads at all, then the whole message is on the wire and one flush behind it has succeeded. If a
write is refused, then a part of the message is missing from its end, nothing is flushed or read,
and the send fails with the handle closed. If the flush fails, then the whole message is on the
wire, nothing is read, and the send fails in the same way. -/
theorem sendRequest_wire {k : Client (Logged σ)} (hready : k.Ready) (body : Option Bytes) :
    ∃ writes rest, (k.sendRequest body).2.connection.calls = k.connection.calls ++ writes ++ rest ∧
      (∀ call ∈ writes, ∃ data answer, call = .write data answer ∧ data ≠ []) ∧
      (∀ call ∈ rest, ¬ call.IsWrite) ∧
      writes.length ≤ k.header.used + (body.getD []).length ∧
      ((∃ room got, .read room got ∈ rest) →
        onWire writes = k.header.written ++ body.getD [] ∧
        ∃ later, rest = .flush (.ok ()) :: later ∧ ∀ call ∈ later, call.IsRead ∨ call.IsClose) ∧
      ((∃ call ∈ writes, call.IsRefusal) →
        onWire writes <+: k.header.written ++ body.getD [] ∧
        onWire writes ≠ k.header.written ++ body.getD [] ∧ (∀ call ∈ rest, call.IsClose) ∧
        (k.sendRequest body).1 = .error .send ∧ (k.sendRequest body).2.state = .closed) ∧
      ((∃ f, .flush (.error f) ∈ rest) →
        onWire writes = k.header.written ++ body.getD [] ∧ (∀ room got, .read room got ∉ rest) ∧
        (k.sendRequest body).1 = .error .send ∧ (k.sendRequest body).2.state = .closed) := by
  obtain ⟨writes, rest, hcalls, hsent, hclosed⟩ := hready.sendRequest_calls body
  obtain ⟨written, hwrites⟩ := hsent.writesOut
  refine ⟨writes, rest, hcalls, hwrites.offers, hsent.not_isWrite, ?_, ?_, ?_, ?_⟩
  · have hlength := hwrites.length_le
    rwa [message, List.length_append] at hlength
  · rintro ⟨room, got, hread⟩
    exact hsent.of_read hread
  · rintro ⟨call, hcall, hrefused⟩
    obtain ⟨hpart, hshort, hrest, hanswer⟩ := hsent.of_refusal hcall hrefused
    exact ⟨hpart, hshort, hrest, hanswer, hclosed _ hanswer⟩
  · rintro ⟨f, hflush⟩
    obtain ⟨hwhole, hreads, hanswer⟩ := hsent.of_flush hflush
    exact ⟨hwhole, hreads, hanswer, hclosed _ hanswer⟩

/-- A client that has composed three bytes, over a connection that accepts two at a time. -/
def haltingClient (writesOk flushesOk : Option Nat) : Client (Logged Script) :=
  { readyClient with connection := ⟨{ okClient.connection with
      behaviour := { writeLimit := some 2, writesOk := writesOk, flushesOk := flushesOk } }, []⟩ }

/-- A request in three short writes, one whose last write is refused, and one whose flush fails. -/
theorem sendRequest_wire_halting :
    let body := some (Text.encode "ab")
    let sent := (haltingClient none none).sendRequest body
    let cut := (haltingClient (some 2) none).sendRequest body
    let unflushed := (haltingClient none (some 0)).sendRequest body
    (∀ writesOk flushesOk, (haltingClient writesOk flushesOk).Ready) ∧
    (∃ writes later, sent.2.connection.calls = writes ++ .flush (.ok ()) :: later ∧
      onWire writes = Text.encode "GETab" ∧ .read 1 (.ok [72]) ∈ later) ∧
    (∃ writes rest, cut.2.connection.calls = writes ++ rest ∧
      .write (Text.encode "ab") (.error .writeError) ∈ writes ∧
      onWire writes <+: Text.encode "GETab" ∧ onWire writes ≠ Text.encode "GETab" ∧
      cut.1 = .error .send ∧ cut.2.state = .closed) ∧
    ∃ writes rest, unflushed.2.connection.calls = writes ++ rest ∧
      .flush (.error .writeError) ∈ rest ∧ onWire writes = Text.encode "GETab" ∧
      unflushed.1 = .error .send ∧ unflushed.2.state = .closed := by
  intro body sent cut unflushed
  have hready : ∀ writesOk flushesOk, (haltingClient writesOk flushesOk).Ready := by
    intro writesOk flushesOk
    exact ⟨rfl, by show readyClient.header.used ≠ 0; decide +kernel⟩
  have hmessage : ∀ writesOk flushesOk,
      (haltingClient writesOk flushesOk).header.written ++ body.getD [] = Text.encode "GETab" := by
    intro writesOk flushesOk
    show readyClient.header.written ++ Text.encode "ab" = _
    decide +kernel
  refine ⟨hready, ?_, ?_, ?_⟩
  · obtain ⟨writes, rest, hcalls, hwrites, -, -, hread, -⟩ :=
      sendRequest_wire (hready none none) body
    have hmem : .read 1 (.ok [72]) ∈ sent.2.connection.calls := by decide +kernel
    rw [hcalls, List.mem_append] at hmem
    have hrest : .read 1 (.ok [72]) ∈ rest := by
      refine hmem.resolve_left fun h => ?_
      obtain ⟨data, n, hcall, -⟩ := hwrites _ h
      cases hcall
    obtain ⟨hwire, later, rfl, -⟩ := hread ⟨1, .ok [72], hrest⟩
    rw [hmessage] at hwire
    exact ⟨writes, later, hcalls, hwire, by simpa using hrest⟩
  · obtain ⟨writes, rest, hcalls, -, hrest, -, -, hrefused, -⟩ :=
      sendRequest_wire (hready (some 2) none) body
    have hmem : .write (Text.encode "ab") (.error .writeError) ∈ cut.2.connection.calls := by
      decide +kernel
    rw [hcalls, List.mem_append] at hmem
    have hwrites : .write (Text.encode "ab") (.error .writeError) ∈ writes :=
      hmem.resolve_right fun h => hrest _ h trivial
    obtain ⟨hpart, hshort, -, hanswer, hstate⟩ := hrefused ⟨_, hwrites, trivial⟩
    rw [hmessage] at hpart hshort
    exact ⟨writes, rest, hcalls, hwrites, hpart, hshort, hanswer, hstate⟩
  · obtain ⟨writes, rest, hcalls, hwrites, -, -, -, -, hflush⟩ :=
      sendRequest_wire (hready none (some 0)) body
    have hmem : .flush (.error .writeError) ∈ unflushed.2.connection.calls := by decide +kernel
    rw [hcalls, List.mem_append] at hmem
    have hrest : .flush (.error .writeError) ∈ rest := by
      refine hmem.resolve_left fun h => ?_
      obtain ⟨data, n, hcall, -⟩ := hwrites _ h
      cases hcall
    obtain ⟨hwire, -, hanswer, hstate⟩ := hflush ⟨.writeError, hrest⟩
    rw [hmessage] at hwire
    exact ⟨writes, rest, hcalls, hrest, hwire, hanswer, hstate⟩

end HttpExchange.Client
