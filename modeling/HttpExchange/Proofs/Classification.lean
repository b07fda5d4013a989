import HttpExchange.Proofs.Arrivals
import HttpExchange.Proofs.Transmission

set_option autoImplicit false

/-! # The errors of a request

A send fails in one of four ways, and each has its error. What the transmission of the request met
is in the log of its calls, and what the reading of the response header meets is in what arrives
behind it; together they tell the answer (`sendRequest_classified`). The size of the header storage
has a say only in what can be interpreted, so a fault in the part of a section that does not fit
counts like any other. -/

namespace HttpExchange

def Call.FailsToSend (call : Call) : Prop := call.IsRefusal ∨ ∃ f, call = .flush (.error f)

namespace Client

variable {σ : Type} [Transport σ]

/-- The calls of a transmission are writes and a flush, and it fails if one of them does. -/
theorem transmit_sent (k : Client (Logged σ)) (body : Option Bytes) :
    ∃ sent, (k.transmit body).2.connection.calls = k.connection.calls ++ sent ∧
      (∀ call ∈ sent, call.IsSend) ∧
      ((k.transmit body).1 = .error .send ∧ (∃ call ∈ sent, call.FailsToSend) ∨
        (k.transmit body).1 = .ok () ∧ ∀ call ∈ sent, ¬ call.FailsToSend) := by
  have hsends : ∀ {message writes answer}, WritesOut message writes answer →
      ∀ call ∈ writes, call.IsSend := by
    intro message writes answer h call hcall
    obtain ⟨data, n, rfl, -⟩ := h.offers call hcall
    trivial
  have hnone : ∀ {message writes}, WritesOut message writes (.ok ()) →
      ∀ call ∈ writes, ¬ call.FailsToSend := by
    rintro message writes h call hcall (hrefused | ⟨f, rfl⟩)
    · exact h.of_ok.2 call hcall hrefused
    · obtain ⟨data, n, hwrite, -⟩ := h.offers _ hcall
      cases hwrite
  obtain ⟨writes, l, ⟨e, hwrites, hl, htransmit⟩ |
    ⟨hwrites, ⟨f, hl, htransmit⟩ | ⟨hl, htransmit⟩⟩⟩ :=
    k.transmit_calls body
  · obtain ⟨rfl, -, call, hcall, hrefused⟩ := hwrites.of_error
    rw [htransmit]
    exact ⟨writes, hl, hsends hwrites, .inl ⟨rfl, call, hcall, .inl hrefused⟩⟩
  · rw [htransmit]
    refine ⟨writes ++ [.flush (.error f)], ?_, ?_, .inl ⟨rfl, _, ?_, .inr ⟨f, rfl⟩⟩⟩
    · rw [hl, List.append_assoc]
    · exact List.forall_mem_append.2 ⟨hsends hwrites, by simp [Call.IsSend]⟩
    · simp
  · rw [htransmit]
    refine ⟨writes ++ [.flush (.ok ())], ?_, ?_, .inr ⟨rfl, ?_⟩⟩
    · rw [hl, List.append_assoc]
    · exact List.forall_mem_append.2 ⟨hsends hwrites, by simp [Call.IsSend]⟩
    · exact List.forall_mem_append.2
        ⟨hnone hwrites, by simp [Call.FailsToSend, Call.IsRefusal]⟩

/-- Behind the transmission a send reads, and closes if it fails. -/
theorem Ready.sendRequest_later {k : Client (Logged σ)} (hready : k.Ready) (body : Option Bytes) :
    ∃ later, (k.sendRequest body).2.connection.calls =
        (k.transmit body).2.connection.calls ++ later ∧
      ∀ call ∈ later, call.IsRead ∨ call.IsClose := by
  obtain ⟨l, -, htransmit | ⟨e, htransmit⟩⟩ := k.transmit_outcome hready body
  · -- the request is out, and the response header is read
    obtain ⟨header, l', hsteps, ⟨head, hhead⟩ | ⟨e, hhead⟩⟩ :=
      awaitHead_outcome { k with connection := l, stage := .awaiting }
    · obtain ⟨reads, hreads, hall⟩ := hsteps.calls
      rw [htransmit, hready.sendRequest_ok ((transact_of_sent htransmit).trans hhead)]
      exact ⟨reads, hreads, fun call hcall => .inl (hall call hcall)⟩
    · obtain ⟨reads, hreads, hall⟩ := hsteps.calls
      obtain ⟨closing, hcalls, -⟩ :=
        hready.closes ((transact_of_sent htransmit).trans hhead) (by simp)
      refine ⟨reads ++ [.close closing], ?_, ?_⟩
      · rw [hcalls, htransmit]
        show l'.calls ++ _ = _
        rw [hreads, List.append_assoc]
      · exact List.forall_mem_append.2
          ⟨fun call hcall => .inl (hall call hcall), by simp [Call.IsClose]⟩
  · obtain ⟨closing, hcalls, -⟩ := hready.closes (transact_of_unsent htransmit) (by simp [hready.1])
    refine ⟨[.close closing], ?_, by simp [Call.IsClose]⟩
    rw [hcalls, htransmit]

theorem awaitHead_answer (k : Client σ) :
    k.awaitHead.1 = (readHead k.header k.connection).1.map ResponseHead.status := by
  unfold awaitHead
  rcases readHead k.header k.connection with ⟨e | head, header, c⟩ <;> rfl

theorem Ready.sendRequest_unsent {k : Client σ} (hready : k.Ready) {body : Option Bytes} {e : Error}
    (h : (k.transmit body).1 = .error e) : (k.sendRequest body).1 = .error e := by
  rcases htransmit : k.transmit body with ⟨e' | _, k'⟩
  · rw [htransmit] at h
    cases h
    rw [hready.sendRequest_error (transact_of_unsent htransmit)]
  · rw [htransmit] at h
    cases h

/-- A send that is transmitted is answered to what arrives behind it. -/
theorem Ready.sendRequest_answers {k : Client (Logged σ)} (hready : k.Ready) {body : Option Bytes}
    (h : (k.transmit body).1 = .ok ()) :
    ∃ answer, Answers k.header.capacity (arrivals (k.transmit body).2.connection) answer ∧
      (k.sendRequest body).1 = answer.map ResponseHead.status := by
  obtain ⟨l, -, htransmit | ⟨e, htransmit⟩⟩ := k.transmit_outcome hready body
  · refine ⟨(readHead k.header l).1, ?_, ?_⟩
    · rw [htransmit]
      exact readHead_answers k.header l
    · rw [← awaitHead_answer { k with connection := l, stage := .awaiting }]
      rcases hhead : awaitHead { k with connection := l, stage := .awaiting } with ⟨e | status, k'⟩
      · rw [hready.sendRequest_error ((transact_of_sent htransmit).trans hhead)]
      · rw [hready.sendRequest_ok ((transact_of_sent htransmit).trans hhead)]
  · rw [htransmit] at h
    cases h

/-- **The errors of a request.** Let a send be accepted, over any connection. It fails with `send`
exactly if one of its writes is refused or its flush fails. Otherwise it fails with `timeout`
exactly if a timeout comes in front of the blank line of the response header; with
`transportClosed` exactly if another fault comes there, or the peer closes without a word; and
otherwise, with the section ended by its blank line or by a close behind some bytes, it fails with
`parse` exactly if the lines that the header storage keeps have no status code or no framing, and
answers their status code if they have both. Every error leaves the handle closed. -/
theorem sendRequest_classified {k : Client (Logged σ)} (hready : k.Ready) (body : Option Bytes) :
    let answer := (k.sendRequest body).1
    let got := arrivals (k.transmit body).2.connection
    let legible := Legible k.header.capacity got.bytes
    (∃ sent later, (k.transmit body).2.connection.calls = k.connection.calls ++ sent ∧
      (k.sendRequest body).2.connection.calls = k.connection.calls ++ sent ++ later ∧
      (∀ call ∈ sent, call.IsSend) ∧ (∀ call ∈ later, call.IsRead ∨ call.IsClose) ∧
      (answer = .error .send ↔ ∃ call ∈ sent, call.FailsToSend)) ∧
    (answer ≠ .error .send →
      (answer = .error .timeout ↔ got.BreaksOff .timeout) ∧
      (answer = .error .transportClosed ↔
        (∃ f, f ≠ .timeout ∧ got.BreaksOff f) ∨ got = ⟨[], none⟩) ∧
      (answer ≠ .error .timeout → answer ≠ .error .transportClosed →
        ((afterBlankLine? got.bytes).isSome ∨ got.fault? = none ∧ got.bytes ≠ []) ∧
        (answer = .error .parse ↔ ∀ status framing, ¬ legible status framing) ∧
        ∀ status, answer = .ok status ↔ ∃ framing, legible status framing)) ∧
    ∀ e, answer = .error e → (k.sendRequest body).2.state = .closed := by
  intro answer got legible
  have hroom : k.header.capacity ≠ 0 := by
    have := hready.2
    simp only [HeaderBuffer.capacity]
    omega
  obtain ⟨-, -, -, -, hclosed⟩ := hready.sendRequest_calls body
  obtain ⟨sent, hsent, hsends, htransmit⟩ := k.transmit_sent body
  obtain ⟨later, hlater, hreads⟩ := hready.sendRequest_later body
  rw [hsent] at hlater
  rcases htransmit with ⟨hunsent, hfails⟩ | ⟨htransmit, hnone⟩
  · -- the request did not go out, so nothing is said of what arrives
    have hanswer : answer = .error .send := hready.sendRequest_unsent hunsent
    exact ⟨⟨sent, later, hsent, hlater, hsends, hreads, iff_of_true hanswer hfails⟩,
      fun hne => absurd hanswer hne, hclosed⟩
  · -- the request is out, and the answer is what reading a head makes of what arrives
    obtain ⟨reply, hreply, hanswer⟩ := hready.sendRequest_answers htransmit
    have herror : ∀ e, answer = .error e ↔ reply = .error e := by
      intro e
      rw [show answer = _ from hanswer]
      cases reply <;> simp [Except.map]
    have hsend : answer ≠ .error .send := fun h => hreply.ne_send ((herror _).1 h)
    have hfails : ¬ ∃ call ∈ sent, call.FailsToSend := fun ⟨call, hcall, h⟩ => hnone call hcall h
    refine ⟨⟨sent, later, hsent, hlater, hsends, hreads, iff_of_false hsend hfails⟩,
      fun _ => ⟨(herror _).trans hreply.timeout_iff,
        (herror _).trans (hreply.closed_iff hroom), ?_⟩,
      hclosed⟩
    intro htimeout hgone
    obtain ⟨hover, ⟨hparse, hlines⟩ | ⟨head, hhead, hlines⟩⟩ :=
      hreply.of_through (fun h => htimeout ((herror _).2 h)) (fun h => hgone ((herror _).2 h)) hroom
    · have hanswer' : answer = .error .parse := (herror _).2 hparse
      refine ⟨hover, iff_of_true hanswer' hlines, fun status => ?_⟩
      rw [hanswer']
      exact iff_of_false (by simp) fun ⟨framing, h⟩ => hlines status framing h
    · have hanswer' : answer = .ok head.status := by
        rw [show answer = _ from hanswer, hhead]
        rfl
      rw [hanswer']
      refine ⟨hover, iff_of_false (by simp) fun h => h _ _ hlines, fun status => ?_⟩
      constructor
      · intro h
        cases h
        exact ⟨head.framing, hlines⟩
      · rintro ⟨framing, h⟩
        exact hlines.1.symm.trans h.1

/-- A client whose peer begins a header of which 64 bytes of storage hold two lines and a part of
the third, and goes on with these steps. -/
def overlongClient (steps : List Script.Step) : Client (Logged Script) :=
  { readyClient with connection := ⟨{ steps := .data (Text.encode
      "HTTP/1.1 200 OK\r\nContent-Length: 2\r\nX-Long: 0123456789012345678901234567\r\n") ::
      steps }, []⟩ }

/-- The rest of the header breaks off with a timeout, with another fault within the blank line, not
before the blank line, or with a close. -/
theorem sendRequest_classified_overlong :
    let answer := fun steps => ((overlongClient steps).sendRequest none).1
    (∀ steps, (overlongClient steps).Ready) ∧
    answer [.data (Text.encode "Y: 1"), .fault .timeout] = .error .timeout ∧
    answer [.data [13], .fault .readError] = .error .transportClosed ∧
    answer [.data [13, 10], .fault .timeout] = .ok 200 ∧ answer [] = .ok 200 := by
  intro answer
  have hready : ∀ steps, (overlongClient steps).Ready :=
    fun steps => ⟨rfl, by show readyClient.header.used ≠ 0; decide +kernel⟩
  have hcapacity : ∀ steps, (overlongClient steps).header.capacity = 64 := by
    intro steps
    show readyClient.header.capacity = 64
    decide +kernel
  -- writing leaves the steps alone, and they tell what arrives
  have harrivals : ∀ {steps}, ((overlongClient steps).transmit none).2.connection.inner.steps =
      (overlongClient steps).connection.inner.steps →
      arrivals ((overlongClient steps).transmit none).2.connection =
        Script.ahead (overlongClient steps).connection.inner.steps := by
    intro steps h
    rw [arrivals_logged]
    exact Script.arrivals_eq h
  refine ⟨hready, ?_, ?_, ?_, ?_⟩
  · obtain ⟨-, hclasses, -⟩ :=
      sendRequest_classified (hready [.data (Text.encode "Y: 1"), .fault .timeout]) none
    refine (hclasses (by decide +kernel)).1.2 ?_
    rw [harrivals (by decide +kernel)]
    exact ⟨rfl, by decide +kernel⟩
  · obtain ⟨-, hclasses, -⟩ := sendRequest_classified (hready [.data [13], .fault .readError]) none
    refine (hclasses (by decide +kernel)).2.1.2 (.inl ⟨.readError, by decide, ?_⟩)
    rw [harrivals (by decide +kernel)]
    exact ⟨rfl, by decide +kernel⟩
  · obtain ⟨-, hclasses, -⟩ :=
      sendRequest_classified (hready [.data [13, 10], .fault .timeout]) none
    obtain ⟨-, -, hover⟩ := hclasses (by decide +kernel)
    obtain ⟨-, -, hok⟩ := hover (by decide +kernel) (by decide +kernel)
    refine (hok 200).2 ⟨.contentLength 2, ?_⟩
    rw [hcapacity, harrivals (by decide +kernel)]
    exact ⟨by decide +kernel, by decide +kernel⟩
  · obtain ⟨-, hclasses, -⟩ := sendRequest_classified (hready []) none
    obtain ⟨-, -, hover⟩ := hclasses (by decide +kernel)
    obtain ⟨-, -, hok⟩ := hover (by decide +kernel) (by decide +kernel)
    refine (hok 200).2 ⟨.contentLength 2, ?_⟩
    rw [hcapacity, harrivals (by decide +kernel)]
    exact ⟨by decide +kernel, by decide +kernel⟩

end Client

end HttpExchange
