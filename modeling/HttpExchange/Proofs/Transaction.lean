import HttpExchange.Proofs.AnnouncedLength
import HttpExchange.Proofs.ClientRuns
import HttpExchange.Proofs.Conduct

set_option autoImplicit false

/-! # One transaction for each client

A send is refused, or it offers the composed header to the connection and ends with a head or with
the release of the connection (`sendRequest_outcome`). A receive is refused, or it is one read of
the body (`receive_outcome`). What is refused leaves the client as it was, its connection included,
so that at most one send of a client touches the connection (`one_transaction`). -/

namespace HttpExchange.Client

variable {σ : Type} [Transport σ]

/-! ## Sending -/

/-- Nothing was sent yet, and something is composed. -/
def Ready (k : Client σ) : Prop := k.stage = .composing ∧ k.header.used ≠ 0

/-- The composed header was offered to the connection first. What was done behind that led to `c`
and did not close it. -/
def Offers (k : Client σ) (c : σ) : Prop :=
  ∃ answer c₁, Transport.write k.connection k.header.written = (answer, c₁) ∧
    Steps (¬ ·.IsClose) c₁ c

theorem Offers.append {k : Client σ} {c c' : σ} (h : k.Offers c) (h' : Steps Call.IsRead c c') :
    k.Offers c' := by
  obtain ⟨answer, c₁, hw, hsteps⟩ := h
  exact ⟨answer, c₁, hw, hsteps.append (h'.imp Call.IsRead.not_isClose)⟩

theorem transmit_outcome (k : Client σ) (hready : k.Ready) (body : Option Bytes) :
    ∃ c, k.Offers c ∧
      (k.transmit body = (.ok (), { k with connection := c, stage := .awaiting }) ∨
        ∃ e, k.transmit body = (.error e, { k with connection := c })) := by
  have hcomposed : k.header.written ≠ [] := fun h => hready.2 (congrArg List.length h)
  obtain ⟨answer, c₁, hw, hheader⟩ := writeAll_offers k.connection hcomposed
  -- the first write is an offer of the header, whatever is done behind it
  have hoffers : ∀ {c}, Steps Call.IsSend (writeAll k.connection k.header.written).2 c →
      k.Offers c := by
    intro c h
    exact ⟨answer, c₁, hw, ((hheader.imp Call.IsWrite.isSend).append h).imp Call.IsSend.not_isClose⟩
  unfold transmit
  rcases h₁ : writeAll k.connection k.header.written with ⟨_ | _, c₂⟩
  · rw [h₁] at hoffers
    exact ⟨c₂, hoffers (.nil c₂), .inr ⟨_, rfl⟩⟩
  · rw [h₁] at hoffers
    have hbody := (steps_writeAll c₂ (body.getD [])).imp Call.IsWrite.isSend
    simp only
    rcases h₂ : writeAll c₂ (body.getD []) with ⟨_ | _, c₃⟩
    · rw [h₂] at hbody
      exact ⟨c₃, hoffers hbody, .inr ⟨_, rfl⟩⟩
    · rw [h₂] at hbody
      simp only
      rcases h₃ : Transport.flush c₃ with ⟨_ | _, c₄⟩
      · exact ⟨c₄, hoffers (hbody.append (.flush trivial h₃ (.nil c₄))), .inr ⟨_, rfl⟩⟩
      · exact ⟨c₄, hoffers (hbody.append (.flush trivial h₃ (.nil c₄))), .inl rfl⟩

theorem awaitHead_outcome (k : Client σ) :
    ∃ header c, Steps Call.IsRead k.connection c ∧
      ((∃ head, k.awaitHead = (.ok head.status, { k with
          header := header
          connection := c
          stage := .answered head (.ofFraming head.framing) false })) ∨
        ∃ e, k.awaitHead = (.error e, { k with header := header, connection := c })) := by
  have hsteps := steps_readHead k.header k.connection
  unfold awaitHead
  generalize readHead k.header k.connection = got at hsteps ⊢
  rcases got with ⟨e | head, header, c⟩
  · exact ⟨header, c, hsteps, .inr ⟨e, rfl⟩⟩
  · exact ⟨header, c, hsteps, .inl ⟨head, rfl⟩⟩

theorem release_open {k : Client σ} (h : k.stage ≠ .closed) :
    k.release = (some (Transport.close k.connection).1, { k with
      host := ""
      path := ""
      connection := (Transport.close k.connection).2
      stage := .closed }) := by
  unfold release
  split
  next hclosed => exact absurd hclosed h
  next => rfl

theorem release_closed {k : Client σ} (h : k.stage = .closed) : k.release = (none, k) := by
  rw [release, h]

theorem transact_of_sent {k k₁ : Client σ} {body : Option Bytes}
    (h : k.transmit body = (.ok (), k₁)) : k.transact body = k₁.awaitHead := by
  rw [transact, h]

theorem transact_of_unsent {k k₁ : Client σ} {body : Option Bytes} {e : Error}
    (h : k.transmit body = (.error e, k₁)) : k.transact body = (.error e, k₁) := by
  rw [transact, h]

theorem sendRequest_refused {k : Client σ} (h : ¬ k.Ready) (body : Option Bytes) :
    k.sendRequest body = (.error .parameter, k) := by
  rw [sendRequest, if_pos]
  by_cases hstage : k.stage = .composing
  · exact .inr (by_contra fun hused => h ⟨hstage, hused⟩)
  · exact .inl hstage

section Ready

variable {k : Client σ} (hready : k.Ready) {body : Option Bytes} {k₁ : Client σ}
include hready

theorem Ready.sendRequest_ok {status : Nat} (h : k.transact body = (.ok status, k₁)) :
    k.sendRequest body = (.ok status, k₁) := by
  rw [sendRequest, if_neg (by simp [hready.1, hready.2]), h]

theorem Ready.sendRequest_error {e : Error} (h : k.transact body = (.error e, k₁)) :
    k.sendRequest body = (.error e, k₁.release.2) := by
  rw [sendRequest, if_neg (by simp [hready.1, hready.2]), h]

end Ready

/-- All that a send can do: it is refused without effect, or it offers the composed header and then
ends with a head, or with an error and the release of the connection. -/
theorem sendRequest_outcome (k : Client σ) (body : Option Bytes) :
    (¬ k.Ready ∧ k.sendRequest body = (.error .parameter, k)) ∨
    (k.Ready ∧ ∃ header c, k.Offers c ∧
      ((∃ head, k.sendRequest body = (.ok head.status, { k with
          header := header
          connection := c
          stage := .answered head (.ofFraming head.framing) false })) ∨
        ∃ e, k.sendRequest body = (.error e, { k with
          host := ""
          path := ""
          header := header
          connection := (Transport.close c).2
          stage := .closed }))) := by
  by_cases hready : k.Ready
  · refine .inr ⟨hready, ?_⟩
    obtain ⟨c, hoffers, hsent | ⟨e, hsent⟩⟩ := k.transmit_outcome hready body
    · obtain ⟨header, c', hreads, ⟨head, hanswer⟩ | ⟨e, hanswer⟩⟩ :=
        awaitHead_outcome { k with connection := c, stage := .awaiting }
      · exact ⟨header, c', hoffers.append hreads, .inl
          ⟨head, hready.sendRequest_ok ((transact_of_sent hsent).trans hanswer)⟩⟩
      · refine ⟨header, c', hoffers.append hreads, .inr ⟨e, ?_⟩⟩
        rw [hready.sendRequest_error ((transact_of_sent hsent).trans hanswer),
          release_open (by simp)]
    · refine ⟨k.header, c, hoffers, .inr ⟨e, ?_⟩⟩
      rw [hready.sendRequest_error (transact_of_unsent hsent),
        release_open (by simp [hready.1])]
  · exact .inl ⟨hready, sendRequest_refused hready body⟩

/-! ## Receiving -/

/-- A receive behind the response header is one read of the body. -/
theorem receive_answered {k : Client σ} {head : ResponseHead} {body : BodyReader}
    {streaming : Bool} (h : k.stage = .answered head body streaming) (mode : Mode) (room : Nat) :
    k.receive mode room = ((body.read mode room k.connection).1, { k with
      connection := (body.read mode room k.connection).2.2
      stage := .answered head (body.read mode room k.connection).2.1
        (streaming || (body.read mode room k.connection).1.toOption.isSome) }) := by
  rw [receive, h]
  rcases hgot : body.read mode room k.connection with ⟨e | piece, body', c⟩
  · simp [hgot, Except.toOption]
  · simp [hgot, Except.toOption]

/-- Before the response header and after the release there is nothing to receive. -/
theorem receive_unanswered {k : Client σ} (h : k.response? = none) (mode : Mode) (room : Nat) :
    k.receive mode room = (.error .parameter, k) := by
  unfold receive
  split
  next hstage => simp [response?, hstage] at h
  next => rfl

/-- All that a receive can do: it is refused without effect, or it is one read of the body. -/
theorem receive_outcome (k : Client σ) (mode : Mode) (room : Nat) :
    (k.response? = none ∧ k.receive mode room = (.error .parameter, k)) ∨
    ∃ head body streaming, k.stage = .answered head body streaming ∧
      k.receive mode room = ((body.read mode room k.connection).1, { k with
        connection := (body.read mode room k.connection).2.2
        stage := .answered head (body.read mode room k.connection).2.1
          (streaming || (body.read mode room k.connection).1.toOption.isSome) }) := by
  by_cases hnone : k.response? = none
  · exact .inl ⟨hnone, receive_unanswered hnone mode room⟩
  · cases hstage : k.stage with
    | answered head body streaming =>
        exact .inr ⟨head, body, streaming, rfl, receive_answered hstage mode room⟩
    | _ => exact absurd (by simp [response?, hstage]) hnone

theorem receive_no_room (k : Client σ) (mode : Mode) :
    k.receive mode 0 = (.error .parameter, k) := by
  unfold receive
  split
  next hstage =>
    rw [BodyReader.read_no_room]
    simp [← hstage]
  next => rfl

/-! ## The calls of a send -/

/-- What was done to the connection is at the end of its log, the offer of the header first. -/
theorem Offers.calls {k : Client (Logged σ)} {l : Logged σ} (h : k.Offers l) :
    ∃ answer more, l.calls = k.connection.calls ++ .write k.header.written answer :: more ∧
      ∀ call ∈ more, ¬ call.IsClose := by
  obtain ⟨answer, l₁, hw, hsteps⟩ := h
  obtain ⟨more, hmore, hall⟩ := hsteps.calls
  have hwrite : l₁.calls = k.connection.calls ++ [.write k.header.written answer] :=
    (Logged.of_note hw).2
  exact ⟨answer, more, by simp [hmore, hwrite], hall⟩

/-- A send that is not refused is seen by the connection. -/
theorem Ready.calls_sendRequest_ne {k : Client (Logged σ)} (h : k.Ready) (body : Option Bytes) :
    (k.sendRequest body).2.connection.calls ≠ k.connection.calls := by
  obtain ⟨hrefused, -⟩ | ⟨-, header, l, hoffers, hsend⟩ := k.sendRequest_outcome body
  · exact absurd h hrefused
  · obtain ⟨answer, more, hcalls, -⟩ := hoffers.calls
    intro hsame
    have hlength := congrArg List.length hsame
    rcases hsend with ⟨head, hsend⟩ | ⟨e, hsend⟩
    · rw [hsend, hcalls] at hlength
      simp at hlength
    · have hclose : (Transport.close l).2.calls = l.calls ++ [_] := (Logged.of_note rfl).2
      rw [hsend, hclose, hcalls] at hlength
      simp at hlength

/-! ## Runs -/

/-- No operation leads back to the composing of a request. -/
theorem Op.stage_apply_ne {k : Client σ} (h : k.stage ≠ .composing) (op : Op) :
    (op.apply k).stage ≠ .composing := by
  cases op with
  | edit e => exact h
  | send body =>
      have hrefused : k.sendRequest body = (.error .parameter, k) :=
        sendRequest_refused (fun hready => h hready.1) body
      rw [apply, hrefused]
      exact h
  | receive mode room =>
      obtain ⟨-, hreceive⟩ | ⟨head, body, streaming, -, hreceive⟩ := k.receive_outcome mode room
      · rw [apply, hreceive]
        exact h
      · rw [apply, hreceive]
        simp

theorem stage_run_ne {k : Client σ} (h : k.stage ≠ .composing) (ops : List Op) :
    (k.run ops).stage ≠ .composing := by
  induction ops generalizing k with
  | nil => exact h
  | cons op ops ih => exact ih (op.stage_apply_ne h)

/-- A send that is not refused leaves the composing behind. -/
theorem Ready.stage_sendRequest_ne {k : Client σ} (h : k.Ready) (body : Option Bytes) :
    (k.sendRequest body).2.stage ≠ .composing := by
  obtain ⟨hrefused, -⟩ | ⟨-, header, c, -, ⟨head, hsend⟩ | ⟨e, hsend⟩⟩ := k.sendRequest_outcome body
  · exact absurd h hrefused
  · rw [hsend]
    simp
  · rw [hsend]
    simp

/-- **One transaction, and no effect of what is refused.** A send touches the connection, or it is a
parameter error and leaves the client as it was, its connection with all that was done to it
included. Once a send has touched the connection, every later one is refused, whatever comes in
between. A receive without a response header, behind the release or without room is refused in the
same way. No receive at all changes the header storage, the head, the host or the path; the state
changes only to the streaming of the body, and only if the receive succeeds. -/
theorem one_transaction (k : Client (Logged σ)) :
    (∀ body, k.sendRequest body = (.error .parameter, k) ∨
      (k.sendRequest body).2.connection.calls ≠ k.connection.calls) ∧
    (∀ body ops again, (k.sendRequest body).2.connection.calls ≠ k.connection.calls →
      (k.run (.send body :: ops)).sendRequest again =
        (.error .parameter, k.run (.send body :: ops))) ∧
    (∀ mode room, (k.state ≠ .headersReceived ∧ k.state ≠ .bodyStreaming) ∨ room = 0 →
      k.receive mode room = (.error .parameter, k)) ∧
    ∀ mode room, let got := k.receive mode room
      got.2.header = k.header ∧ got.2.response? = k.response? ∧ got.2.host = k.host ∧
      got.2.path = k.path ∧
      got.2.state = if got.1.toOption.isSome then .bodyStreaming else k.state := by
  refine ⟨fun body => ?_, fun body ops again htouched => ?_, fun mode room h => ?_,
    fun mode room => ?_⟩
  · by_cases hready : k.Ready
    · exact .inr (hready.calls_sendRequest_ne body)
    · exact .inl (sendRequest_refused hready body)
  · have hready : k.Ready := by
      -- a send that was refused would have touched nothing
      by_contra hrefused
      rw [sendRequest_refused hrefused] at htouched
      exact htouched rfl
    have hstage : (k.run (.send body :: ops)).stage ≠ .composing :=
      stage_run_ne (hready.stage_sendRequest_ne body) ops
    exact sendRequest_refused (fun hagain => hstage hagain.1) again
  · rcases h with ⟨hheaders, hstreaming⟩ | rfl
    · apply receive_unanswered
      cases hstage : k.stage with
      | answered head body streaming =>
          cases streaming <;> simp [state, hstage] at hheaders hstreaming
      | _ => simp [response?, hstage]
    · exact k.receive_no_room mode
  · obtain ⟨-, hreceive⟩ | ⟨head, body, streaming, hstage, hreceive⟩ := k.receive_outcome mode room
    · rw [hreceive]
      exact ⟨rfl, rfl, rfl, rfl, rfl⟩
    · rw [hreceive]
      refine ⟨rfl, by simp [response?, hstage], rfl, rfl, ?_⟩
      cases (body.read mode room k.connection).1 <;> simp [state, hstage, Except.toOption]

def readyClient : Client (Logged Script) :=
  ((ofTarget "host" "/" false (⟨okClient.connection, []⟩ : Logged Script) okClient.header).compose
    (·.appendBytes (Text.encode "GET"))).2

theorem one_transaction_ready :
    let k := readyClient.run [.send none, .receive .normal 8]
    (readyClient.sendRequest none).2.connection.calls ≠ readyClient.connection.calls ∧
    k.sendRequest (some [0]) = (.error .parameter, k) ∧
    (readyClient.state ≠ .headersReceived ∧ readyClient.state ≠ .bodyStreaming) ∧
    readyClient.receive .chunked 4 = (.error .parameter, readyClient) ∧
    k.receive .chunked 0 = (.error .parameter, k) := by
  intro k
  obtain ⟨hsend, hagain, hreceive, -⟩ := one_transaction readyClient
  have htouched : (readyClient.sendRequest none).2.connection.calls ≠
      readyClient.connection.calls := by
    refine (hsend none).resolve_left fun hrefused => ?_
    have hok : (readyClient.sendRequest none).1 = .ok 200 := by decide +kernel
    rw [hrefused] at hok
    cases hok
  have hstate : readyClient.state ≠ .headersReceived ∧ readyClient.state ≠ .bodyStreaming := by
    decide
  exact ⟨htouched, hagain none [.receive .normal 8] (some [0]) htouched, hstate,
    hreceive .chunked 4 (.inl hstate), (one_transaction k).2.2.1 .chunked 0 (.inr rfl)⟩

end HttpExchange.Client
