import HttpExchange.Handle
import HttpExchange.Proofs.Transaction

set_option autoImplicit false

/-! # Handles and clients

A client is a handle whose fields are told by the stage of its exchange (`Client.toHandle`). A new
handle is such a client, and the operations stay among them: each answers on the fields what it
answers on the stage, and leaves the fields of what it leaves there. So whatever is done with a
handle, it is a client (`run_new_toHandle`), and the exits for a state without its fields are not
taken.

Only the end of a handle shows a difference. A release keeps the response head of a handle, and a
client forgets it (`release_toHandle`); but what a failed send releases has no response, so that no
operation meets a handle that is not a client. -/

namespace HttpExchange

variable {σ : Type}

/-! ## Operations on the fields -/

namespace Handle

def apply [Transport σ] (h : Handle σ) : Client.Op → Handle σ
  | .edit e => (h.compose e.apply).2
  | .send body => (h.sendRequest body).2
  | .receive mode room => (h.receive mode room).2

def run [Transport σ] (h : Handle σ) (ops : List Client.Op) : Handle σ := ops.foldl apply h

variable [Transport σ] {h : Handle σ} {c c₁ : σ}

section Transact

variable {body : Option Bytes} (hc : h.connection = some c)
include hc

theorem transact_unwritten {e : Error}
    (hw : writeRequest h.header.written body c = (.error e, c₁)) :
    h.transact body = (.error e, { h with connection := some c₁ }) := by
  simp only [transact, hc, hw]

variable {header : HeaderBuffer} {c₂ : σ}
  (hw : writeRequest h.header.written body c = (.ok (), c₁))
include hw

theorem transact_unanswered {e : Error} (hr : readHead h.header c₁ = (.error e, header, c₂)) :
    h.transact body = (.error e, { h with
      state := .requestSent
      header := header
      connection := some c₂ }) := by
  simp only [transact, hc, hw, hr]

theorem transact_answered {head : ResponseHead}
    (hr : readHead h.header c₁ = (.ok head, header, c₂)) :
    h.transact body = (.ok head.status, { h with
      header := header
      connection := some c₂
      body := some (.ofFraming head.framing)
      head := some head
      state := .headersReceived }) := by
  simp only [transact, hc, hw, hr]

end Transact

section Receive

variable {mode : Mode} {room : Nat} {r r₁ : BodyReader}
  (hstate : h.state = .headersReceived ∨ h.state = .bodyStreaming) (hc : h.connection = some c)
  (hbody : h.body = some r)
include hstate hc hbody

theorem receive_failed {e : Error} (hread : r.read mode room c = (.error e, r₁, c₁)) :
    h.receive mode room = (.error e, { h with connection := some c₁, body := some r₁ }) := by
  rw [receive, if_neg (by rwa [← not_or, not_not])]
  simp only [hc, hbody, hread]

theorem receive_piece {piece : Bytes} (hread : r.read mode room c = (.ok piece, r₁, c₁)) :
    h.receive mode room = (.ok piece, { h with
      connection := some c₁
      body := some r₁
      state := .bodyStreaming }) := by
  rw [receive, if_neg (by rwa [← not_or, not_not])]
  simp only [hc, hbody, hread]

end Receive

end Handle

namespace Client

/-! ## The fields of a client -/

/-- The fields of a client: those of its target and its storage, and what its stage tells of the
others. -/
def toHandle (k : Client σ) : Handle σ where
  host := k.host
  path := k.path
  secure := k.secure
  connection := if k.stage = .closed then none else some k.connection
  header := k.header
  head := k.response?
  body := k.body?
  state := k.state
  released := if k.stage = .closed then some k.connection else none

theorem connection_toHandle {k : Client σ} (h : k.stage ≠ .closed) :
    k.toHandle.connection = some k.connection :=
  if_neg h

theorem connection_toHandle_closed {k : Client σ} (h : k.stage = .closed) :
    k.toHandle.connection = none :=
  if_pos h

theorem released_toHandle {k : Client σ} (h : k.stage = .closed) :
    k.toHandle.released = some k.connection :=
  if_pos h

/-- What the state tells of the stage: there are two states for each of two stages, and which one it
is tells something else. -/
theorem state_stage (k : Client σ) :
    (k.state = .connected ∨ k.state = .secured ↔ k.stage = .composing) ∧
    (k.state = .requestSent ↔ k.stage = .awaiting) ∧
    (k.state = .headersReceived ∨ k.state = .bodyStreaming ↔
      ∃ head body streaming, k.stage = .answered head body streaming) ∧
    (k.state = .closed ↔ k.stage = .closed) := by
  unfold state
  cases k.stage with
  | composing => cases k.secure <;> simp
  | awaiting => simp
  | answered head body streaming => cases streaming <;> simp
  | closed => simp

/-! ## Construction and composition -/

theorem toHandle_ofTarget (host path : String) (secure : Bool) (c : σ) (header : HeaderBuffer) :
    (ofTarget host path secure c header).toHandle = .ofTarget host path secure c header :=
  rfl

theorem compose_toHandle {α : Type} (k : Client σ) (edit : HeaderBuffer → α × HeaderBuffer) :
    k.toHandle.compose edit = ((k.compose edit).1, (k.compose edit).2.toHandle) :=
  rfl

variable [Transport σ]

theorem new_toHandle (uri : String) (c : σ) (storage : Bytes) :
    Handle.new uri c storage = (new uri c storage).map toHandle := by
  unfold Handle.new new
  cases Uri.parse uri with
  | error e => rfl
  | ok u =>
      cases ht : u.target with
      | error e => simp only [Except.bind, Except.map, ht]
      | ok target => simp only [Except.bind, Except.map, ht, toHandle_ofTarget]

/-! ## Sending -/

/-- A client writes a request as a handle does, and goes on with the connection that is left. -/
theorem transmit_cases (k : Client σ) (body : Option Bytes) :
    (∃ c, Handle.writeRequest k.header.written body k.connection = (.ok (), c) ∧
      k.transmit body = (.ok (), { k with connection := c, stage := .awaiting })) ∨
    ∃ e c, Handle.writeRequest k.header.written body k.connection = (.error e, c) ∧
      k.transmit body = (.error e, { k with connection := c }) := by
  -- a client writes no bytes for a body that is not there
  have hbody : ∀ c : σ, body.elim (.ok (), c) (writeAll c) = writeAll c (body.getD []) := by
    intro c
    cases body with
    | none => exact (writeAll_nil c).symm
    | some data => rfl
  unfold Handle.writeRequest transmit
  rcases writeAll k.connection k.header.written with ⟨e | _, c₁⟩
  · exact .inr ⟨e, c₁, rfl, rfl⟩
  · simp only [hbody]
    rcases writeAll c₁ (body.getD []) with ⟨e | _, c₂⟩
    · exact .inr ⟨e, c₂, rfl, rfl⟩
    · simp only
      rcases Transport.flush c₂ with ⟨f | _, c₃⟩
      · exact .inr ⟨.send, c₃, rfl, rfl⟩
      · exact .inl ⟨c₃, rfl, rfl⟩

/-- A transaction sets, field by field, what a client has in its next stage. If it fails, there is
no response. -/
theorem transact_toHandle {k : Client σ} (h : k.stage = .composing) (body : Option Bytes) :
    k.toHandle.transact body = ((k.transact body).1, (k.transact body).2.toHandle) ∧
      ∀ e, (k.transact body).1 = .error e → (k.transact body).2.response? = none := by
  obtain ⟨host, path, secure, c, header, stage⟩ := k
  obtain rfl : stage = .composing := h
  set k : Client σ := ⟨host, path, secure, c, header, .composing⟩
  have hc : k.toHandle.connection = some c := rfl
  obtain ⟨c₁, hw, ht⟩ | ⟨e, c₁, hw, ht⟩ := k.transmit_cases body
  · rcases hr : readHead header c₁ with ⟨e | head, header', c₂⟩
    · have hk : k.transact body = (.error e, ⟨host, path, secure, c₂, header', .awaiting⟩) := by
        simp only [transact_of_sent ht, awaitHead, hr, k]
      rw [Handle.transact_unanswered hc hw hr, hk]
      exact ⟨rfl, fun _ _ => rfl⟩
    · have hk : k.transact body = (.ok head.status,
          ⟨host, path, secure, c₂, header', .answered head (.ofFraming head.framing) false⟩) := by
        simp only [transact_of_sent ht, awaitHead, hr, k]
      rw [Handle.transact_answered hc hw hr, hk]
      exact ⟨rfl, nofun⟩
  · rw [Handle.transact_unwritten hc hw, transact_of_unsent ht]
    exact ⟨rfl, fun _ _ => rfl⟩

/-- A release sets the fields that a client has in its last stage, and the response head stays. -/
theorem release_toHandle (k : Client σ) :
    k.toHandle.release = (k.release.1, { k.release.2.toHandle with head := k.response? }) := by
  by_cases h : k.stage = .closed
  · rw [release_closed h, Handle.release, connection_toHandle_closed h]
    rfl
  · rw [release_open h, Handle.release, connection_toHandle h]
    simp [toHandle, h, body?, state]

theorem release_toHandle_of_none {k : Client σ} (h : k.response? = none) :
    k.toHandle.release = (k.release.1, k.release.2.toHandle) := by
  have hnone : k.release.2.toHandle.head = none := k.response?_release
  rw [release_toHandle, h, ← hnone]

theorem sendRequest_toHandle (k : Client σ) (body : Option Bytes) :
    k.toHandle.sendRequest body = ((k.sendRequest body).1, (k.sendRequest body).2.toHandle) := by
  have hstate : k.toHandle.state ≠ .connected ∧ k.toHandle.state ≠ .secured ↔
      k.stage ≠ .composing := by
    rw [← not_or, ne_eq, not_iff_not]
    exact k.state_stage.1
  unfold Handle.sendRequest
  by_cases hstage : k.stage = .composing
  · rw [if_neg (fun h => hstate.1 h hstage)]
    by_cases hused : k.header.used = 0
    · -- nothing is composed
      rw [sendRequest_refused (fun h => h.2 hused)]
      exact if_pos hused
    · have hready : k.Ready := ⟨hstage, hused⟩
      obtain ⟨htransact, hnone⟩ := transact_toHandle hstage body
      rw [show k.toHandle.header = k.header from rfl, if_neg hused, htransact]
      rcases ht : k.transact body with ⟨e | status, k₁⟩
      · -- the send fails before there is a response, so that the release clears all
        rw [ht] at hnone
        rw [hready.sendRequest_error ht]
        simp only [release_toHandle_of_none (hnone e rfl)]
      · rw [hready.sendRequest_ok ht]
  · rw [if_pos (hstate.2 hstage), sendRequest_refused (fun h => hstage h.1)]

/-! ## Receiving -/

theorem receive_toHandle (k : Client σ) (mode : Mode) (room : Nat) :
    k.toHandle.receive mode room =
      ((k.receive mode room).1, (k.receive mode room).2.toHandle) := by
  obtain ⟨host, path, secure, c, header, stage⟩ := k
  cases stage with
  | composing => cases secure <;> rfl
  | awaiting => rfl
  | answered head body streaming =>
      set k : Client σ := ⟨host, path, secure, c, header, .answered head body streaming⟩
      have hstate : k.toHandle.state = .headersReceived ∨ k.toHandle.state = .bodyStreaming := by
        obtain ⟨-, -, hanswered, -⟩ := k.state_stage
        exact hanswered.2 ⟨head, body, streaming, rfl⟩
      have hc : k.toHandle.connection = some c := rfl
      have hbody : k.toHandle.body = some body := rfl
      rcases hread : body.read mode room c with ⟨e | piece, body', c'⟩
      · have hk : k.receive mode room =
            (.error e, ⟨host, path, secure, c', header, .answered head body' streaming⟩) := by
          simp only [receive, k, hread]
        rw [Handle.receive_failed hstate hc hbody hread, hk]
        rfl
      · have hk : k.receive mode room =
            (.ok piece, ⟨host, path, secure, c', header, .answered head body' true⟩) := by
          simp only [receive, k, hread]
        rw [Handle.receive_piece hstate hc hbody hread, hk]
        rfl
  | closed => rfl

/-! ## Runs -/

theorem apply_toHandle (k : Client σ) (op : Op) : k.toHandle.apply op = (op.apply k).toHandle := by
  cases op with
  | edit e => exact congrArg Prod.snd (k.compose_toHandle e.apply)
  | send body => exact congrArg Prod.snd (k.sendRequest_toHandle body)
  | receive mode room => exact congrArg Prod.snd (k.receive_toHandle mode room)

/-- Operations on the fields of a client lead to the fields of what they lead the client to. -/
theorem run_toHandle (k : Client σ) (ops : List Op) :
    k.toHandle.run ops = (k.run ops).toHandle := by
  induction ops generalizing k with
  | nil => rfl
  | cons op ops ih =>
      calc k.toHandle.run (op :: ops) = (k.toHandle.apply op).run ops := rfl
        _ = (op.apply k).toHandle.run ops := by rw [apply_toHandle]
        _ = (k.run (op :: ops)).toHandle := ih (op.apply k)

/-! ## The end of a handle -/

theorem stage_release (k : Client σ) : k.release.2.stage = .closed := by
  by_cases h : k.stage = .closed
  · rwa [release_closed h]
  · rw [release_open h]

/-- Dropping a handle leaves the connection that dropping its client leaves. -/
theorem drop_toHandle (k : Client σ) : k.toHandle.drop = some k.drop := by
  rw [Handle.drop, release_toHandle]
  exact released_toHandle k.stage_release

/-- Closing a handle answers what closing its client answers, and leaves the same connection. -/
theorem close_toHandle (k : Client σ) : k.toHandle.close = (k.close.1, some k.close.2) := by
  have hk : k.release.2.stage = .closed := k.stage_release
  -- the drop behind the release finds no connection in either of them
  have hdrop : Handle.drop { k.release.2.toHandle with head := k.response? } =
      some k.release.2.connection := by
    rw [Handle.drop, Handle.release]
    simp only [connection_toHandle_closed hk, released_toHandle hk]
  have hclose : k.close.2 = k.release.2.connection := by
    show k.release.2.drop = k.release.2.connection
    rw [Client.drop, release_closed hk]
  rw [Handle.close, release_toHandle, hclose, ← hdrop]
  rfl

/-- **Handles are clients.** Whatever is done with a new handle, it has the fields of a client that
was built alike and that the same was done with. The two answer each operation alike, and their end
leaves the same connection. -/
theorem run_new_toHandle {uri : String} {c : σ} {storage : Bytes} {h : Handle σ}
    (hnew : Handle.new uri c storage = .ok h) (ops : List Op) :
    ∃ k, new uri c storage = .ok k ∧
      let h' := h.run ops
      let k' := k.run ops
      h' = k'.toHandle ∧
      (∀ body, (h'.sendRequest body).1 = (k'.sendRequest body).1) ∧
      (∀ mode room, (h'.receive mode room).1 = (k'.receive mode room).1) ∧
      h'.close = (k'.close.1, some k'.close.2) ∧ h'.drop = some k'.drop := by
  rw [new_toHandle] at hnew
  cases hk : new uri c storage with
  | error r =>
      rw [hk] at hnew
      cases hnew
  | ok k =>
      rw [hk] at hnew
      cases hnew
      refine ⟨k, rfl, k.run_toHandle ops, ?_⟩
      rw [run_toHandle]
      refine ⟨fun body => ?_, fun mode room => ?_, close_toHandle _, drop_toHandle _⟩
      · rw [sendRequest_toHandle]
      · rw [receive_toHandle]

end Client

end HttpExchange
