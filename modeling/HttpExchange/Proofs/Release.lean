import HttpExchange.Proofs.Transaction

set_option autoImplicit false

/-! # The release of a connection

A connection that was handed to a client is closed once, and nothing is done to it behind that.
The log of the connection and the handle agree at every time (`Accounted`): a handle that is not
closed has never closed its connection, and behind the release the close is the last call in the
log. Only a send can lead from the one to the other (`Op.stage_apply_closed_iff`), and what ends a
handle closes a connection only if it is still held. So every life of a connection ends with its
only close (`released_once`), whether that succeeds or not. -/

namespace HttpExchange

variable {σ : Type}

/-! ## Logs -/

def Unclosed (calls : List Call) : Prop := ∀ call ∈ calls, ¬ call.IsClose

/-- The last call closes the connection, and no call before it does. -/
def ClosedOnce (calls : List Call) : Prop :=
  ∃ before answer, calls = before ++ [.close answer] ∧ Unclosed before

theorem ClosedOnce.not_unclosed {calls : List Call} (h : ClosedOnce calls) : ¬ Unclosed calls := by
  obtain ⟨before, answer, rfl, -⟩ := h
  intro hunclosed
  exact hunclosed (.close answer) (by simp) trivial

theorem Unclosed.append {calls calls' : List Call} (h : Unclosed calls) (h' : Unclosed calls') :
    Unclosed (calls ++ calls') :=
  List.forall_mem_append.2 ⟨h, h'⟩

theorem Unclosed.concat {calls : List Call} {call : Call} (h : Unclosed calls)
    (hcall : ¬ call.IsClose) : Unclosed (calls ++ [call]) :=
  h.append (List.forall_mem_singleton.2 hcall)

theorem Unclosed.steps [Transport σ] {l l' : Logged σ} (h : Unclosed l.calls)
    (hsteps : Steps (¬ ·.IsClose) l l') : Unclosed l'.calls := by
  obtain ⟨more, hmore, hall⟩ := hsteps.calls
  rw [hmore]
  exact List.forall_mem_append.2 ⟨h, hall⟩

theorem Unclosed.close [Transport σ] {l : Logged σ} (h : Unclosed l.calls) :
    ClosedOnce (Transport.close l).2.calls :=
  ⟨l.calls, _, (Logged.of_note rfl).2, h⟩

namespace Client

/-! ## Handles -/

/-- The log of the connection agrees with the handle. -/
structure Accounted (k : Client (Logged σ)) : Prop where
  held : k.stage ≠ .closed → Unclosed k.connection.calls
  released : k.stage = .closed → ClosedOnce k.connection.calls

theorem accounted_of_held {k : Client (Logged σ)} (hstage : k.stage ≠ .closed)
    (h : Unclosed k.connection.calls) : k.Accounted :=
  ⟨fun _ => h, fun hclosed => absurd hclosed hstage⟩

theorem Accounted.unclosed_iff {k : Client (Logged σ)} (h : k.Accounted) :
    Unclosed k.connection.calls ↔ k.stage ≠ .closed :=
  ⟨fun hunclosed hclosed => (h.released hclosed).not_unclosed hunclosed, h.held⟩

variable [Transport σ]

/-- A release closes the connection, unless that was done before. -/
theorem Accounted.release {k : Client (Logged σ)} (h : k.Accounted) :
    ClosedOnce k.release.2.connection.calls ∧ k.release.2.stage = .closed := by
  by_cases hstage : k.stage = .closed
  · rw [release_closed hstage]
    exact ⟨h.released hstage, hstage⟩
  · rw [release_open hstage]
    exact ⟨(h.held hstage).close, rfl⟩

theorem Accounted.drop {k : Client (Logged σ)} (h : k.Accounted) : ClosedOnce k.drop.calls :=
  h.release.1

/-- Closing a handle drops it too, and that finds nothing left to release. -/
theorem Accounted.close {k : Client (Logged σ)} (h : k.Accounted) : ClosedOnce k.close.2.calls := by
  obtain ⟨hlog, hstage⟩ := h.release
  have hclose : k.close.2 = k.release.2.drop := rfl
  rw [hclose, Client.drop, release_closed hstage]
  exact hlog

/-! ## Operations -/

/-- An operation closes a handle only if it is a send that was not refused and that fails. -/
theorem Op.stage_apply_closed_iff (k : Client σ) (op : Op) :
    (op.apply k).stage = .closed ↔ k.stage = .closed ∨
      ∃ body e, op = .send body ∧ k.Ready ∧ (k.sendRequest body).1 = .error e := by
  cases op with
  | edit e => simp [apply, compose]
  | send body =>
      show (k.sendRequest body).2.stage = .closed ↔ _
      obtain ⟨hrefused, hsend⟩ | ⟨hready, header, c, -, ⟨head, hsend⟩ | ⟨e, hsend⟩⟩ :=
        k.sendRequest_outcome body
      · simp [hsend, hrefused]
      · simp [hsend, hready.1]
      · simp [hsend, hready]
  | receive mode room =>
      show (k.receive mode room).2.stage = .closed ↔ _
      obtain ⟨-, hreceive⟩ | ⟨head, body, streaming, hk, hreceive⟩ := k.receive_outcome mode room
      · simp [hreceive]
      · simp [hreceive, hk]

/-- An operation keeps the account. -/
theorem Accounted.apply {k : Client (Logged σ)} (h : k.Accounted) (op : Op) :
    (op.apply k).Accounted := by
  cases op with
  | edit e => exact ⟨h.held, h.released⟩
  | send body =>
      show (k.sendRequest body).2.Accounted
      obtain ⟨-, hsend⟩ | ⟨hready, header, l, hoffers, hsend⟩ := k.sendRequest_outcome body
      · rwa [hsend]
      · -- up to its end the send does not close the connection
        obtain ⟨answer, more, hcalls, hmore⟩ := hoffers.calls
        have hunclosed : Unclosed l.calls := by
          rw [hcalls]
          exact List.forall_mem_append.2
            ⟨h.held (by simp [hready.1]), List.forall_mem_cons.2 ⟨id, hmore⟩⟩
        rcases hsend with ⟨head, hsend⟩ | ⟨e, hsend⟩
        · rw [hsend]
          exact accounted_of_held (by simp) hunclosed
        · rw [hsend]
          exact ⟨fun hstage => absurd rfl hstage, fun _ => hunclosed.close⟩
  | receive mode room =>
      show (k.receive mode room).2.Accounted
      obtain ⟨-, hreceive⟩ | ⟨head, body, streaming, hk, hreceive⟩ := k.receive_outcome mode room
      · rwa [hreceive]
      · rw [hreceive]
        have hreads := body.steps_read mode room k.connection
        exact accounted_of_held (by simp)
          ((h.held (by simp [hk])).steps (hreads.imp Call.IsRead.not_isClose))

theorem Accounted.run {k : Client (Logged σ)} (h : k.Accounted) (ops : List Op) :
    (k.run ops).Accounted := by
  induction ops generalizing k with
  | nil => exact h
  | cons op ops ih => exact ih (h.apply op)

theorem accounted_of_new {uri : String} {c : σ} {storage : Bytes} {k : Client (Logged σ)}
    (h : new uri ⟨c, []⟩ storage = .ok k) : k.Accounted := by
  obtain ⟨hconnection, -, hstage⟩ := new_ok h
  apply accounted_of_held
  · simp [hstage]
  · simp [hconnection, Unclosed]

/-- A refused construction closes the connection and does nothing else to it. -/
theorem released_of_new {uri : String} {c : σ} {storage : Bytes} {r : Refusal (Logged σ)}
    (h : new uri ⟨c, []⟩ storage = .error r) :
    ∃ l answer, r.released = some l ∧ l.calls = [.close answer] := by
  unfold new at h
  split at h
  next =>
    cases h
    exact ⟨_, _, rfl, (Logged.of_note rfl).2⟩
  next =>
    split at h
    next =>
      cases h
      exact ⟨_, _, rfl, (Logged.of_note rfl).2⟩
    next => cases h

/-- **A connection is released once.** If the construction of a client is refused, the connection
is closed, and that is all that was done to it. Otherwise, after any operations, dropping the
client and closing it leave a log whose last call is its only close, whatever that was answered
with: so nothing is done to the connection behind a close, and a handle that a failed send has
released is not released again. Before its end, the connection has been closed if and only if the
handle is in its closed state, and the only operation that closes it is a send that is not refused
and fails. -/
theorem released_once (uri : String) (c : σ) (storage : Bytes) :
    (∀ r, new uri (⟨c, []⟩ : Logged σ) storage = .error r →
      ∃ l answer, r.released = some l ∧ l.calls = [.close answer]) ∧
    ∀ k, new uri (⟨c, []⟩ : Logged σ) storage = .ok k → ∀ ops : List Op, let k' := k.run ops
      ClosedOnce k'.drop.calls ∧ ClosedOnce k'.close.2.calls ∧
      (Unclosed k'.connection.calls ↔ k'.state ≠ .closed) ∧
      ∀ op : Op, Unclosed k'.connection.calls →
        (¬ Unclosed (op.apply k').connection.calls ↔
          ∃ body e, op = .send body ∧ k'.Ready ∧ (k'.sendRequest body).1 = .error e) := by
  refine ⟨fun r h => released_of_new h, fun k hnew ops => ?_⟩
  intro k'
  have hk' : k'.Accounted := (accounted_of_new hnew).run ops
  refine ⟨hk'.drop, hk'.close, ?_, fun op hunclosed => ?_⟩
  · -- the account is about the stage, and the stage is closed when the state is
    rw [hk'.unclosed_iff, ne_eq, ne_eq, not_iff_not]
    unfold state
    cases k'.stage with
    | composing => cases k'.secure <;> simp
    | answered head body streaming => cases streaming <;> simp
    | _ => simp
  · rw [(hk'.apply op).unclosed_iff, not_not, Op.stage_apply_closed_iff,
      or_iff_right (hk'.unclosed_iff.1 hunclosed)]

/-- A connection whose peer has closed already and that cannot be closed properly. -/
def abandoned : Script := { steps := [], behaviour := { closeFails := true } }

def abandonedClient : Client (Logged Script) :=
  ofTarget "host" "/" true ⟨abandoned, []⟩ (.ofStorage (List.replicate 8 0))

theorem released_once_abandoned :
    let k := abandonedClient.run [.edit (.appendBytes (Text.encode "GET"))]
    let k' := abandonedClient.run
      [.edit (.appendBytes (Text.encode "GET")), .send none, .send none, .receive .normal 4]
    (∃ l answer, new "ftp://host/" (⟨abandoned, []⟩ : Logged Script) [] =
        .error ⟨.invalidUri, some l⟩ ∧ l.calls = [.close answer]) ∧
    new "https://host/" ⟨abandoned, []⟩ (List.replicate 8 0) = .ok abandonedClient ∧
    Unclosed k.connection.calls ∧ k.Ready ∧ (k.sendRequest none).1 = .error .transportClosed ∧
    ¬ Unclosed (k.sendRequest none).2.connection.calls ∧
    ¬ Unclosed k'.connection.calls ∧ ClosedOnce k'.close.2.calls := by
  intro k k'
  have hrefused : new "ftp://host/" (⟨abandoned, []⟩ : Logged Script) [] =
      .error ⟨.invalidUri, some (Transport.close (⟨abandoned, []⟩ : Logged Script)).2⟩ := rfl
  have hnew : new "https://host/" (⟨abandoned, []⟩ : Logged Script) (List.replicate 8 0) =
      .ok abandonedClient := rfl
  obtain ⟨l, answer, hl, hcalls⟩ := (released_once "ftp://host/" abandoned []).1 _ hrefused
  have hlife := (released_once "https://host/" abandoned (List.replicate 8 0)).2 _ hnew
  have hready : k.Ready := ⟨rfl, by decide +kernel⟩
  have hfails : (k.sendRequest none).1 = .error .transportClosed := by decide +kernel
  obtain ⟨-, -, hclosed, hsend⟩ := hlife [.edit (.appendBytes (Text.encode "GET"))]
  obtain ⟨-, hclose, hclosed', -⟩ := hlife
    [.edit (.appendBytes (Text.encode "GET")), .send none, .send none, .receive .normal 4]
  have hunclosed : Unclosed k.connection.calls := hclosed.2 (by decide +kernel)
  exact ⟨⟨l, answer, by rw [hrefused, ← hl], hcalls⟩, hnew, hunclosed, hready, hfails,
    (hsend (.send none) hunclosed).2 ⟨none, _, rfl, hready, hfails⟩,
    fun h => hclosed'.1 h (by decide +kernel), hclose⟩

end Client

end HttpExchange
