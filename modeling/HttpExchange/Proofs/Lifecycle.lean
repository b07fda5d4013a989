import HttpExchange.Connect
import HttpExchange.Proofs.Refinement
import HttpExchange.Proofs.Release

set_option autoImplicit false

/-! # The lifecycle of a handle

A handle can hold any state beside any fields. What is kept together is told by the client that it
is (`Client.toHandle`): a client of a target has its host and path as long as it has its connection,
and its count of the bytes still to come fits its response (`Sound`). One operation keeps this: a
send by what it can do at all (`sendRequest_outcome`), a receive because a read of the body takes
bytes off what is still to come and does nothing else to the count (`BodyReader.remaining_read`).
With the account of the connection this gives what the fields of a handle show in each state
(`run_consistent`). -/

namespace HttpExchange

/-! ## Bodies -/

namespace BodyReader

/-- The bytes still to come are counted if their number was told, and then there are no more of
them than were told. -/
def Within (framing : Framing) (r : BodyReader) : Prop :=
  (r.remaining = none ↔ framing = .chunked) ∧
  ∀ n, framing = .contentLength n → ∃ left, r.remaining = some left ∧ left ≤ n

theorem within_ofFraming (framing : Framing) : (ofFraming framing).Within framing := by
  cases framing with
  | contentLength n => exact ⟨by simp [ofFraming], by simp [ofFraming]⟩
  | chunked => exact ⟨by simp [ofFraming], nofun⟩

/-- Only the count of the bytes still to come matters, and that it does not grow. -/
theorem Within.of_map {framing : Framing} {r r' : BodyReader} (h : r.Within framing) {n : Nat}
    (hr : r'.remaining = r.remaining.map (· - n)) : r'.Within framing := by
  refine ⟨?_, ?_⟩
  · rw [hr, Option.map_eq_none_iff]
    exact h.1
  · intro m hm
    obtain ⟨left, hleft, hle⟩ := h.2 m hm
    rw [hr, hleft]
    exact ⟨left - n, rfl, by omega⟩

variable {σ : Type} [Transport σ]

theorem remaining_readNormal (r : BodyReader) (room : Nat) (c : σ) :
    ∃ n, (r.readNormal room c).2.1.remaining = r.remaining.map (· - n) := by
  -- a read that gives bytes takes their number off, every other one leaves the count
  have hsame : r.remaining = r.remaining.map (· - 0) := by simp
  unfold readNormal
  split
  · exact ⟨0, hsame⟩
  · split
    next => exact ⟨0, hsame⟩
    next => split <;> exact ⟨0, hsame⟩
    next b bs c' hr => exact ⟨bs.length + 1, rfl⟩

theorem remaining_readSized (r : BodyReader) (size room : Nat) (c : σ) :
    (r.readSized size room c).2.1.remaining = r.remaining := by
  unfold readSized
  split
  · split <;> rfl
  · split <;> rfl

theorem remaining_readChunk (r : BodyReader) (room : Nat) (c : σ) :
    (r.readChunk room c).2.1.remaining = r.remaining := by
  unfold readChunk
  split
  · exact remaining_readSized _ _ _ _
  · split
    · rfl
    · exact remaining_readSized _ _ _ _

/-- A read takes a number of bytes off those still to come, if they are counted. -/
theorem remaining_read (r : BodyReader) (mode : Mode) (room : Nat) (c : σ) :
    ∃ n, (r.read mode room c).2.1.remaining = r.remaining.map (· - n) := by
  have hsame : r.remaining = r.remaining.map (· - 0) := by simp
  unfold BodyReader.read
  by_cases hroom : room = 0
  · rw [if_pos hroom]
    exact ⟨0, hsame⟩
  · rw [if_neg hroom]
    by_cases hfin : r.finished = true
    · rw [if_pos hfin]
      exact ⟨0, hsame⟩
    · rw [if_neg hfin]
      cases mode with
      | normal => exact r.remaining_readNormal room c
      | chunked => exact ⟨0, (r.remaining_readChunk room c).trans hsame⟩

theorem Within.read {framing : Framing} {r : BodyReader} (h : r.Within framing) (mode : Mode)
    (room : Nat) (c : σ) : (r.read mode room c).2.1.Within framing := by
  obtain ⟨n, hn⟩ := r.remaining_read mode room c
  exact h.of_map hn

end BodyReader

namespace Client

/-! ## Clients of a target -/

variable {σ : Type}

/-- The fields of a client of the target `u` fit its stage. -/
structure Sound (u : Uri) (k : Client σ) : Prop where
  secure : k.secure = u.scheme.isSecure
  stage : k.stage ≠ .awaiting
  body : ∀ head body streaming, k.stage = .answered head body streaming → body.Within head.framing
  target : k.stage ≠ .closed → k.host = u.authority ∧ k.path = u.path
  cleared : k.stage = .closed → k.host = "" ∧ k.path = ""

variable [Transport σ]

/-- A client that connects by itself is one that took over the connection it got. -/
theorem new_of_connect {net : Network} {uri : String} {port : Option Nat} {storage : Bytes}
    {options : Options} {k : Client Socket} (h : connect net uri port storage options = .ok k) :
    new uri k.connection storage = .ok k := by
  unfold connect at h
  split at h
  · cases h
  · split at h
    next => cases h
    next u hu =>
      split at h
      next => cases h
      next host path ht =>
        split at h
        next => cases h
        next socket hs =>
          cases h
          simp [new, hu, ht, ofTarget]

theorem sound_of_new {uri : String} {c : σ} {storage : Bytes} {k : Client σ}
    (h : new uri c storage = .ok k) : ∃ u, Uri.parse uri = .ok u ∧ k.Sound u := by
  obtain ⟨u, hu, rfl⟩ := new_eq_ok h
  exact ⟨u, hu, rfl, nofun, nofun, fun _ => ⟨rfl, rfl⟩, nofun⟩

theorem Sound.apply {u : Uri} {k : Client σ} (h : k.Sound u) (op : Op) : (op.apply k).Sound u := by
  cases op with
  | edit e => exact ⟨h.secure, h.stage, h.body, h.target, h.cleared⟩
  | send body =>
      show (k.sendRequest body).2.Sound u
      obtain ⟨-, hsend⟩ | ⟨hready, header, c, -, ⟨head, hsend⟩ | ⟨e, hsend⟩⟩ :=
        k.sendRequest_outcome body
      · rw [hsend]
        exact h
      · rw [hsend]
        refine ⟨h.secure, nofun, ?_, fun _ => h.target (by simp [hready.1]), nofun⟩
        intro head' body' streaming hstage
        cases hstage
        exact BodyReader.within_ofFraming head.framing
      · rw [hsend]
        exact ⟨h.secure, nofun, nofun, fun hopen => absurd rfl hopen, fun _ => ⟨rfl, rfl⟩⟩
  | receive mode room =>
      show (k.receive mode room).2.Sound u
      obtain ⟨-, hreceive⟩ | ⟨head, body, streaming, hk, hreceive⟩ := k.receive_outcome mode room
      · rw [hreceive]
        exact h
      · rw [hreceive]
        refine ⟨h.secure, nofun, ?_, fun _ => h.target (by simp [hk]), nofun⟩
        intro head' body' streaming' hstage
        cases hstage
        exact (h.body head body streaming hk).read mode room k.connection

theorem Sound.run {u : Uri} {k : Client σ} (h : k.Sound u) (ops : List Op) :
    (k.run ops).Sound u := by
  induction ops generalizing k with
  | nil => exact h
  | cons op ops ih => exact ih (h.apply op)

end Client

/-! ## What the fields show -/

namespace Handle

variable {σ : Type}

def Holds (h : Handle (Logged σ)) : Prop :=
  h.released = none ∧ ∃ l, h.connection = some l ∧ Unclosed l.calls

def LetGo (h : Handle (Logged σ)) : Prop :=
  h.connection = none ∧ ∃ l, h.released = some l ∧ ClosedOnce l.calls

/-- The fields of a handle of the target `u` fit its state. -/
structure Consistent (u : Uri) (h : Handle (Logged σ)) : Prop where
  /-- No caller meets the handle while the response header is being read. -/
  state : h.state ≠ .requestSent
  /-- While a request is composed, the connection is there and nothing is known of a response. -/
  composing : h.state = .connected ∨ h.state = .secured →
    h.Holds ∧ h.head = none ∧ h.body = none ∧ (h.state = .secured ↔ u.scheme = .https)
  /-- With the response header, the connection is there, and the count of the bytes still to come
  fits what the header told. -/
  answered : h.state = .headersReceived ∨ h.state = .bodyStreaming →
    h.Holds ∧ ∃ head body, h.head = some head ∧ h.body = some body ∧ body.Within head.framing
  /-- Behind the release nothing is left. -/
  closed : h.state = .closed →
    h.LetGo ∧ h.head = none ∧ h.body = none ∧ h.host = "" ∧ h.path = ""
  /-- Before the release the target stands as it was given. -/
  target : h.state ≠ .closed → h.host = u.authority ∧ h.path = u.path

end Handle

namespace Client

variable {σ : Type}

theorem Accounted.holds {k : Client (Logged σ)} (h : k.Accounted) (hstage : k.stage ≠ .closed) :
    k.toHandle.Holds :=
  ⟨if_neg hstage, k.connection, connection_toHandle hstage, h.held hstage⟩

theorem Accounted.letGo {k : Client (Logged σ)} (h : k.Accounted) (hstage : k.stage = .closed) :
    k.toHandle.LetGo :=
  ⟨connection_toHandle_closed hstage, k.connection, released_toHandle hstage, h.released hstage⟩

/-- While a request is composed, the scheme tells which of the two states it is. -/
theorem Sound.state_secured_iff {u : Uri} {k : Client (Logged σ)} (h : k.Sound u)
    (hstage : k.stage = .composing) : k.state = .secured ↔ u.scheme = .https := by
  rw [state, hstage, h.secure]
  cases u.scheme with
  | http => simp [Scheme.isSecure]
  | https => simp [Scheme.isSecure]

/-- The fields of a client show each in its own way how far the exchange has come. -/
theorem Sound.consistent {u : Uri} {k : Client (Logged σ)} (h : k.Sound u) (hacc : k.Accounted) :
    k.toHandle.Consistent u := by
  have hhead : k.toHandle.head = k.response? := rfl
  have hbody : k.toHandle.body = k.body? := rfl
  obtain ⟨hcomposing, hawaiting, hanswered, hclosed⟩ := k.state_stage
  constructor
  case state =>
    intro hstate
    exact h.stage (hawaiting.1 hstate)
  case composing =>
    intro hstate
    have hk : k.stage = .composing := hcomposing.1 hstate
    rw [response?, hk] at hhead
    rw [body?, hk] at hbody
    exact ⟨hacc.holds (by simp [hk]), hhead, hbody, h.state_secured_iff hk⟩
  case answered =>
    intro hstate
    obtain ⟨head, body, streaming, hk⟩ := hanswered.1 hstate
    rw [response?, hk] at hhead
    rw [body?, hk] at hbody
    exact ⟨hacc.holds (by simp [hk]), head, body, hhead, hbody, h.body head body streaming hk⟩
  case closed =>
    intro hstate
    have hk : k.stage = .closed := hclosed.1 hstate
    rw [response?, hk] at hhead
    rw [body?, hk] at hbody
    exact ⟨hacc.letGo hk, hhead, hbody, h.cleared hk⟩
  case target =>
    intro hstate
    exact h.target fun hk => hstate (hclosed.2 hk)

end Client

namespace Handle

variable {σ : Type} [Transport σ]

/-- **The lifecycle of a handle.** After any operations on a new handle, whatever its connection
answers, the fields of the handle fit its state. -/
theorem run_consistent {uri : String} {c : σ} {storage : Bytes} {h : Handle (Logged σ)}
    (hnew : new uri ⟨c, []⟩ storage = .ok h) (ops : List Client.Op) :
    ∃ u, Uri.parse uri = .ok u ∧ (h.run ops).Consistent u := by
  obtain ⟨k, hk, hrun, -⟩ := Client.run_new_toHandle hnew ops
  obtain ⟨u, hu, hsound⟩ := Client.sound_of_new hk
  refine ⟨u, hu, ?_⟩
  rw [hrun]
  exact (hsound.run ops).consistent ((Client.accounted_of_new hk).run ops)

/-- A response whose body is being read, and one that never came. -/
theorem run_consistent_streaming_closed :
    (∃ h, new "http://host/" (⟨Client.okClient.connection, []⟩ : Logged Script)
        (List.replicate 64 0) = .ok h ∧
      let h' := h.run [.edit (.appendBytes (Text.encode "GET")), .send none, .receive .normal 1]
      h'.state = .bodyStreaming ∧ ∃ u, Uri.parse "http://host/" = .ok u ∧ h'.Consistent u) ∧
    ∃ h, new "https://host/" (⟨Client.abandoned, []⟩ : Logged Script) (List.replicate 8 0) =
        .ok h ∧
      let h' := h.run [.edit (.appendBytes (Text.encode "GET")), .send none, .receive .normal 1]
      h'.state = .closed ∧ ∃ u, Uri.parse "https://host/" = .ok u ∧ h'.Consistent u :=
  ⟨⟨_, rfl, by decide +kernel, run_consistent (c := Client.okClient.connection) rfl _⟩,
    _, rfl, by decide +kernel, run_consistent (c := Client.abandoned) rfl _⟩

end Handle

end HttpExchange
