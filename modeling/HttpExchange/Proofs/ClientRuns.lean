import HttpExchange.Client
import HttpExchange.Proofs.CapturedTable
import HttpExchange.Proofs.Composition

set_option autoImplicit false

/-! # Runs of operations on a client

What a caller does with a client is a list of operations: edits of the header storage, which are
allowed in every state, sends and receives. Looking at the client changes nothing, and closing or
dropping it ends the handle, so these are not among them.

The index of a captured response gives its lines as ranges of positions in the storage, and the
storage stays open to edits. An operation captures a response, or keeps the index that is there and
takes nothing off the written part unless it is a reset (`Op.apply_cases`). So the ranges stand
within the storage always, and within its written part as long as nobody resets it after the capture
(`run_index`); a reset then leaves ranges without bytes (`run_index_reset`).
-/

namespace HttpExchange.Client

variable {σ : Type}

/-! ## An index within the storage -/

/-- The index of the response, if it is known, gives ranges within the first `n` positions. -/
def IndexWithin (k : Client σ) (n : Nat) : Prop :=
  ∀ head, k.response? = some head → ∀ r ∈ head.lines, r.start ≤ r.stop ∧ r.stop ≤ n

theorem indexWithin_of_none {k : Client σ} (h : k.response? = none) (n : Nat) :
    k.IndexWithin n := by
  intro head hhead
  rw [h] at hhead
  cases hhead

theorem IndexWithin.mono {k k' : Client σ} {n n' : Nat} (h : k.IndexWithin n)
    (hresponse : k'.response? = k.response?) (hle : n ≤ n') : k'.IndexWithin n' := by
  intro head hhead r hr
  obtain ⟨hstart, hstop⟩ := h head (hresponse ▸ hhead) r hr
  exact ⟨hstart, Nat.le_trans hstop hle⟩

variable [Transport σ]

/-! ## Operations -/

inductive Op
  | edit (e : HeaderBuffer.Edit)
  | send (body : Option Bytes)
  | receive (mode : Mode) (room : Nat)
  deriving DecidableEq

def Op.apply (k : Client σ) : Op → Client σ
  | .edit e => (k.compose e.apply).2
  | .send body => (k.sendRequest body).2
  | .receive mode room => (k.receive mode room).2

def run (k : Client σ) (ops : List Op) : Client σ := ops.foldl Op.apply k

/-- The client that is built over a connection: one for the target, with an empty storage. -/
theorem new_eq_ok {uri : String} {c : σ} {storage : Bytes} {k : Client σ}
    (h : new uri c storage = .ok k) :
    ∃ u, Uri.parse uri = .ok u ∧
      k = ofTarget u.authority u.path u.scheme.isSecure c (.ofStorage storage) := by
  unfold new at h
  split at h
  next => cases h
  next u hu =>
    split at h
    next => cases h
    next host path ht =>
      cases h
      unfold Uri.target at ht
      split at ht
      · cases ht
        exact ⟨u, hu, rfl⟩
      · cases ht

/-- A new client has written nothing and heard nothing. -/
theorem new_ok {uri : String} {c : σ} {storage : Bytes} {k : Client σ}
    (h : new uri c storage = .ok k) :
    k.connection = c ∧ k.header = .ofStorage storage ∧ k.stage = .composing := by
  obtain ⟨u, -, rfl⟩ := new_eq_ok h
  exact ⟨rfl, rfl, rfl⟩

/-! ## The size of the storage -/

theorem header_transmit (k : Client σ) (body : Option Bytes) :
    (k.transmit body).2.header = k.header := by
  unfold transmit
  split
  · rfl
  · split
    · rfl
    · split <;> rfl

theorem header_release (k : Client σ) : k.release.2.header = k.header := by
  unfold release
  split <;> rfl

theorem header_receive (k : Client σ) (mode : Mode) (room : Nat) :
    (k.receive mode room).2.header = k.header := by
  unfold receive
  split
  · split <;> rfl
  · rfl

theorem capacity_awaitHead (k : Client σ) :
    k.awaitHead.2.header.capacity = k.header.capacity := by
  have hread := capacity_readHead k.header k.connection
  unfold awaitHead
  split
  next h => rwa [h] at hread
  next h => rwa [h] at hread

theorem capacity_sendRequest (k : Client σ) (body : Option Bytes) :
    (k.sendRequest body).2.header.capacity = k.header.capacity := by
  have htransact : (k.transact body).2.header.capacity = k.header.capacity := by
    have hheader := k.header_transmit body
    unfold transact
    generalize k.transmit body = sent at hheader ⊢
    rcases sent with ⟨_ | _, k₁⟩
    · exact congrArg HeaderBuffer.capacity hheader
    · exact k₁.capacity_awaitHead.trans (congrArg HeaderBuffer.capacity hheader)
  unfold sendRequest
  split
  next => rfl
  next =>
    split
    next h => rwa [h] at htransact
    next h =>
      rw [h] at htransact
      rw [header_release]
      exact htransact

theorem Op.capacity_apply (k : Client σ) (op : Op) :
    (op.apply k).header.capacity = k.header.capacity := by
  cases op with
  | edit e => exact e.capacity_apply k.header
  | send body => exact k.capacity_sendRequest body
  | receive mode room => exact congrArg HeaderBuffer.capacity (k.header_receive mode room)

theorem capacity_run (k : Client σ) (ops : List Op) :
    (k.run ops).header.capacity = k.header.capacity := by
  induction ops generalizing k with
  | nil => rfl
  | cons op ops ih => exact (ih (op.apply k)).trans (op.capacity_apply k)

/-! ## What becomes of the index -/

theorem response?_release (k : Client σ) : k.release.2.response? = none := by
  unfold release
  split
  next h => simp only [response?, h]
  next => rfl

theorem response?_receive (k : Client σ) (mode : Mode) (room : Nat) :
    (k.receive mode room).2.response? = k.response? := by
  unfold receive
  split
  next h => split <;> simp only [response?, h]
  next => rfl

theorem index_awaitHead {k k' : Client σ} {status : Nat} (h : k.awaitHead = (.ok status, k')) :
    k'.IndexWithin k'.header.used := by
  unfold awaitHead at h
  split at h
  next => cases h
  next head header c hread =>
    cases h
    intro head' hhead
    cases hhead
    exact readHead_index hread

/-- A send changes nothing, or the index is new afterwards or there is none. -/
theorem sendRequest_cases (k : Client σ) (body : Option Bytes) :
    (k.sendRequest body).2 = k ∨
      (k.sendRequest body).2.IndexWithin (k.sendRequest body).2.header.used := by
  unfold sendRequest
  split
  next => exact .inl rfl
  next =>
    refine .inr ?_
    split
    next status k' htransact =>
      unfold transact at htransact
      split at htransact
      next => cases htransact
      next => exact index_awaitHead htransact
    next e k' htransact => exact indexWithin_of_none k'.response?_release _

/-- An operation captures a response or ends the exchange, or it keeps the response that is there
and, unless it is a reset, what is written. -/
theorem Op.apply_cases (op : Op) (k : Client σ) :
    (op.apply k).IndexWithin (op.apply k).header.used ∨
      (op.apply k).response? = k.response? ∧
        (op ≠ .edit .reset → k.header.used ≤ (op.apply k).header.used) := by
  cases op with
  | edit e =>
      refine .inr ⟨rfl, fun hreset => ?_⟩
      have he : e ≠ .reset := fun he => hreset (congrArg Op.edit he)
      exact (e.extends he k.header).used_le
  | send body =>
      rcases k.sendRequest_cases body with hsame | hindex
      · exact .inr ⟨congrArg response? hsame, fun _ => Nat.le_of_eq (by rw [apply, hsame])⟩
      · exact .inl hindex
  | receive mode room =>
      refine .inr ⟨k.response?_receive mode room, fun _ => ?_⟩
      exact Nat.le_of_eq (congrArg HeaderBuffer.used (k.header_receive mode room)).symm

/-- Whatever is done, the index stays within the storage. -/
theorem indexWithin_capacity_run {k : Client σ} (h : k.IndexWithin k.header.capacity)
    (ops : List Op) : (k.run ops).IndexWithin (k.run ops).header.capacity := by
  induction ops generalizing k with
  | nil => exact h
  | cons op ops ih =>
      refine ih (k := op.apply k) ?_
      rcases op.apply_cases k with hindex | ⟨hresponse, -⟩
      · exact hindex.mono rfl (Nat.le_add_right _ _)
      · exact h.mono hresponse (op.capacity_apply k).ge

/-- The index stays within the written part, if nothing is reset while there is one. -/
theorem indexWithin_used_run {k : Client σ} (h : k.IndexWithin k.header.used) {ops : List Op}
    (hreset : ∀ front back, ops = front ++ .edit .reset :: back → (k.run front).response? = none) :
    (k.run ops).IndexWithin (k.run ops).header.used := by
  induction ops generalizing k with
  | nil => exact h
  | cons op ops ih =>
      refine ih (k := op.apply k) ?_ fun front back hops => ?_
      · rcases op.apply_cases k with hindex | ⟨hresponse, hused⟩
        · exact hindex
        · by_cases hop : op = .edit .reset
          · -- there is no response yet, and a reset brings none
            have hnone : k.response? = none := hreset [] ops (by rw [hop]; rfl)
            exact indexWithin_of_none (hresponse.trans hnone) _
          · exact h.mono hresponse (hused hop)
      · exact hreset (op :: front) back (by rw [hops]; rfl)

/-- **Where the index of a response stands.** After any operations on a new client, the ranges of a
captured response stand within its storage. If no reset came after the capture, then they stand
within the written part, so that every line can be looked up. -/
theorem run_index {uri : String} {c : σ} {storage : Bytes} {k : Client σ}
    (hnew : new uri c storage = .ok k) (ops : List Op) {head : ResponseHead}
    (hhead : (k.run ops).response? = some head) :
    (∀ r ∈ head.lines, r.start ≤ r.stop ∧ r.stop ≤ storage.length) ∧
    ((∀ front back, ops = front ++ .edit .reset :: back → (k.run front).response? = none) →
      ∀ r ∈ head.lines, r.stop ≤ (k.run ops).header.used) := by
  obtain ⟨-, hheader, hstage⟩ := new_ok hnew
  have hfresh : k.response? = none := by rw [response?, hstage]
  have hstorage : k.header.capacity = storage.length := by
    rw [hheader]
    exact Nat.zero_add _
  constructor
  · rw [← hstorage, ← k.capacity_run ops]
    exact indexWithin_capacity_run (indexWithin_of_none hfresh _) ops head hhead
  · intro hreset r hr
    exact (indexWithin_used_run (indexWithin_of_none hfresh _) hreset head hhead r hr).2

/-- A client whose peer answers with two bytes of body. -/
def okClient : Client Script :=
  ofTarget "host" "/" false
    { steps := [.data (Text.encode "HTTP/1.1 200 OK\r\nContent-Length: 2\r\n\r\nOK")] }
    (.ofStorage (List.replicate 64 0))

/-- A request that is composed anew before it is sent, and an edit behind the response. -/
def recomposed : List Op :=
  [.edit (.requestLine .get "/old"), .edit .reset, .edit (.requestLine .get "/"), .edit .endHeaders,
    .send none, .receive .normal 8, .edit (.appendBytes (Text.encode "!"))]

theorem run_index_recomposed :
    new "http://host/" okClient.connection (List.replicate 64 0) = .ok okClient ∧
    (∀ front back, recomposed = front ++ .edit .reset :: back →
      (okClient.run front).response? = none) ∧
    ∃ head, (okClient.run recomposed).response? = some head ∧
      head.lines = [⟨0, 15⟩, ⟨16, 33⟩] ∧
      ∀ r ∈ head.lines, r.stop ≤ (okClient.run recomposed).header.used := by
  have hnew : new "http://host/" okClient.connection (List.replicate 64 0) = .ok okClient := rfl
  have hreset : ∀ front back, recomposed = front ++ .edit .reset :: back →
      (okClient.run front).response? = none := by
    intro front back h
    rcases front with _ | ⟨op, _ | ⟨op', front⟩⟩
    · rfl
    · obtain rfl := (List.cons.inj h).1
      decide +kernel
    · -- there is no second reset
      have hmem : Op.edit .reset ∈ recomposed.drop 2 := by
        rw [h]
        exact List.mem_append_right front List.mem_cons_self
      exact absurd hmem (by decide +kernel)
  have hhead : (okClient.run recomposed).response? =
      some ⟨200, .contentLength 2, true, [⟨0, 15⟩, ⟨16, 33⟩]⟩ := by decide +kernel
  exact ⟨hnew, hreset, _, hhead, rfl, (run_index hnew recomposed hhead).2 hreset⟩

/-- A reset behind the response leaves ranges without bytes. -/
theorem run_index_reset :
    let k := okClient.run [.edit (.appendBytes (Text.encode "GET")), .send none, .edit .reset]
    new "http://host/" okClient.connection (List.replicate 64 0) = .ok okClient ∧
    ∃ head, k.response? = some head ∧ head.lines = [⟨0, 15⟩, ⟨16, 33⟩] ∧ k.header.used = 0 := by
  intro k
  have hhead : k.response? = some ⟨200, .contentLength 2, true, [⟨0, 15⟩, ⟨16, 33⟩]⟩ := by
    decide +kernel
  exact ⟨rfl, _, hhead, rfl, rfl⟩

end HttpExchange.Client
