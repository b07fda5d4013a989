import HttpExchange.Proofs.EndOfBody
import HttpExchange.Proofs.Memory.Body
import HttpExchange.Proofs.Memory.Head

set_option autoImplicit false

/-! # Requests served in memory

A caller reads lines into buffers of its own, heads into the header storage, and bodies piece by
piece, in any order: the readers are public, and nothing makes a caller use them in the order of a
response. `serve` answers such requests by the plain readers, `serveIn` by the readers in memory,
one after another on one connection.

Every position, part and difference that a reader in memory uses is checked, and a request that
fails one check has no answer. `serves_in_range` says that all requests are answered, whatever the
peer sends, and answered as by the plain readers. The law of connections that this rests on is that
a read gives at most what was asked for. The other law, that a connection has finitely many bytes to
give, is not needed: a peer that never stops is watched for as many bytes as one likes, and until it
has given these every read gives what the peer gives (`serveAllIn_watched`).
-/

namespace HttpExchange.Memory

/-! ## Requests -/

inductive Request
  | line (out : Bytes)
  | head
  /-- Start on a body. -/
  | body (framing : Framing)
  /-- Read the next piece of the body into a buffer of the caller. -/
  | piece (mode : Mode) (out : Bytes)

inductive Answer
  /-- A line, and the caller's buffer with it. -/
  | line (result : Except Error Line) (out : Bytes)
  | head (result : Except Error ResponseHead)
  | body
  /-- The part of the caller's buffer that holds the piece. -/
  | piece (result : Except Error Bytes)

/-- What the readers work on: header storage of the type `μ`, the progress of a body and the
connection. -/
structure Endpoint (μ σ : Type) where
  header : μ
  body : BodyReader
  connection : σ

variable {σ : Type}

def Endpoint.inMemory (e : Endpoint HeaderBuffer σ) : Endpoint Storage σ :=
  ⟨.ofBuffer e.header, e.body, e.connection⟩

variable [Transport σ]

def serve (e : Endpoint HeaderBuffer σ) : Request → Answer × Endpoint HeaderBuffer σ
  | .line out =>
      let (line, out, c) := readLine e.connection out
      (.line line out, { e with connection := c })
  | .head =>
      let (head, b, c) := readHead e.header e.connection
      (.head head, { e with header := b, connection := c })
  | .body framing => (.body, { e with body := .ofFraming framing })
  | .piece mode out =>
      let (piece, r, c) := e.body.read mode out.length e.connection
      (.piece piece, { e with body := r, connection := c })

def serveAll (e : Endpoint HeaderBuffer σ) :
    List Request → List Answer × Endpoint HeaderBuffer σ
  | [] => ([], e)
  | request :: requests =>
      let (answer, e) := serve e request
      let (answers, e) := serveAll e requests
      (answer :: answers, e)

def serveIn (e : Endpoint Storage σ) : Request → Option (Answer × Endpoint Storage σ)
  | .line out => do
      let (line, out, c) ← lineIn out 0 e.connection
      some (.line line out, { e with connection := c })
  | .head => do
      let (head, m, c) ← headIn e.header e.connection
      some (.head head, { e with header := m, connection := c })
  | .body framing => some (.body, { e with body := .ofFraming framing })
  | .piece mode out => do
      let (result, r, out, c) ← readIn e.body mode out e.connection
      match result with
      | .error error => some (.piece (.error error), { e with body := r, connection := c })
      | .ok length => do
          let piece ← slice? out 0 length
          some (.piece (.ok piece), { e with body := r, connection := c })

def serveAllIn (e : Endpoint Storage σ) :
    List Request → Option (List Answer × Endpoint Storage σ)
  | [] => some ([], e)
  | request :: requests => do
      let (answer, e) ← serveIn e request
      let (answers, e) ← serveAllIn e requests
      some (answer :: answers, e)

/-! ## Answers in range -/

/-- The lengths and positions in an answer stay within the memory they go to: the buffer that comes
with the request, or header storage of the given capacity. -/
inductive InRange (capacity : Nat) : Request → Answer → Prop
  /-- A line has its CR behind it in the buffer, which keeps its size. -/
  | line {out after : Bytes} {result : Except Error Line} (hsize : after.length = out.length)
      (hcomplete : ∀ n, result = .ok (.complete n) → n + 1 ≤ out.length) :
      InRange capacity (.line out) (.line result after)
  /-- The ranges of the index are in the storage. -/
  | head {result : Except Error ResponseHead}
      (hlines : ∀ head, result = .ok head →
        ∀ r ∈ head.lines, r.start ≤ r.stop ∧ r.stop ≤ capacity) :
      InRange capacity .head (.head result)
  | body {framing : Framing} : InRange capacity (.body framing) .body
  | piece {mode : Mode} {out : Bytes} {result : Except Error Bytes}
      (hfits : ∀ piece, result = .ok piece → piece.length ≤ out.length) :
      InRange capacity (.piece mode out) (.piece result)

theorem length_readLine (c : σ) (out : Bytes) : (readLine c out).2.1.length = out.length :=
  length_stored false out c

theorem serve_capacity (e : Endpoint HeaderBuffer σ) (request : Request) :
    (serve e request).2.header.capacity = e.header.capacity := by
  cases request with
  | line out => rfl
  | head => exact capacity_readHead e.header e.connection
  | body framing => rfl
  | piece mode out => rfl

theorem serve_inRange (e : Endpoint HeaderBuffer σ) (request : Request) :
    InRange e.header.capacity request (serve e request).1 := by
  cases request with
  | line out =>
      exact .line (length_readLine e.connection out) fun n hn => readLine_complete hn
  | head =>
      refine .head ?_
      intro head hhead r hr
      have hcapacity := capacity_readHead e.header e.connection
      obtain ⟨hle, hstop⟩ := readHead_index (Prod.ext hhead rfl) r hr
      refine ⟨hle, ?_⟩
      rw [← hcapacity]
      exact Nat.le_trans hstop (Nat.le_add_right _ _)
  | body framing => exact .body
  | piece mode out => exact .piece (e.body.definite_read mode out.length e.connection).length_le

/-! ## All requests are answered -/

/-- **A request is answered in memory** as by the plain readers. -/
theorem serveIn_eq (e : Endpoint HeaderBuffer σ) (request : Request) :
    serveIn e.inMemory request = some ((serve e request).1, (serve e request).2.inMemory) := by
  cases request with
  | line out =>
      simp only [serveIn, Endpoint.inMemory, lineIn_eq, Option.bind_eq_bind, Option.bind_some]
      rfl
  | head =>
      simp only [serveIn, Endpoint.inMemory, headIn_eq, Option.bind_eq_bind, Option.bind_some]
      rfl
  | body framing => rfl
  | piece mode out =>
      obtain ⟨after, hread, hlength, hafter⟩ := readIn_fills e.body mode out e.connection
      simp only [serveIn, serve, Endpoint.inMemory, hread, Option.bind_eq_bind, Option.bind_some]
      cases hresult : (e.body.read mode out.length e.connection).1 with
      | error error => rfl
      | ok piece =>
          have hfits : piece.length ≤ after.length :=
            hlength ▸ (e.body.definite_read mode out.length e.connection).length_le piece hresult
          have hfront : slice? after 0 piece.length = some piece := by
            rw [slice?_zero hfits, hafter piece hresult, List.take_left]
          simp only [Except.map, hfront, Option.bind_some]

theorem serveAllIn_eq (requests : List Request) (e : Endpoint HeaderBuffer σ) :
    serveAllIn e.inMemory requests =
      some ((serveAll e requests).1, (serveAll e requests).2.inMemory) := by
  induction requests generalizing e with
  | nil => rfl
  | cons request requests ih =>
      rw [serveAllIn, serveIn_eq]
      simp only [Option.bind_eq_bind, Option.bind_some, ih]
      rfl

theorem serveAll_capacity (requests : List Request) (e : Endpoint HeaderBuffer σ) :
    (serveAll e requests).2.header.capacity = e.header.capacity := by
  induction requests generalizing e with
  | nil => rfl
  | cons request requests ih => exact (ih (serve e request).2).trans (serve_capacity e request)

theorem serveAll_inRange (requests : List Request) (e : Endpoint HeaderBuffer σ) :
    List.Forall₂ (InRange e.header.capacity) requests (serveAll e requests).1 := by
  induction requests generalizing e with
  | nil => exact .nil
  | cons request requests ih =>
      have hrest := ih (serve e request).2
      rw [serve_capacity] at hrest
      exact .cons (serve_inRange e request) hrest

/-- **No request makes an access out of range**, whatever the peer sends and whatever the sizes of
the buffers and of the storage are: all requests are answered in memory, by the plain answers, which
stay within the buffers and the storage. -/
theorem serves_in_range (requests : List Request) (e : Endpoint HeaderBuffer σ) :
    serveAllIn e.inMemory requests =
        some ((serveAll e requests).1, (serveAll e requests).2.inMemory) ∧
      (serveAll e requests).2.header.capacity = e.header.capacity ∧
      List.Forall₂ (InRange e.header.capacity) requests (serveAll e requests).1 :=
  ⟨serveAllIn_eq requests e, serveAll_capacity requests e, serveAll_inRange requests e⟩

/-! ## Connections without an end

A connection has finitely many bytes to give, and the loop that skips a section ends by that law. A
peer that never stops is met as well. Requests do nothing but read, and what they have read until a
number of bytes is given they read in the same way from a connection that gives these and then
fails. -/

/-- Something to read from, with or without an end. -/
class Source (σ : Type) where
  /-- Reads at most the given number of bytes. -/
  read : σ → Nat → Except Fault Bytes × σ
  /-- A read gives at most as many bytes as were asked for. -/
  length_le : ∀ {c : σ} {room : Nat} {bs : Bytes} {c' : σ},
    read c room = (.ok bs, c') → bs.length ≤ room

/-- A source until it has given so many bytes more. -/
structure Watched (σ : Type) where
  source : σ
  left : Nat

namespace Watched

variable {σ : Type} [Source σ]

/-- Reads from the source. A read that gives more than what is left fails. -/
def read (w : Watched σ) (room : Nat) : Except Fault Bytes × Watched σ :=
  match Source.read w.source room with
  | (.error f, c) => (.error f, ⟨c, w.left⟩)
  | (.ok bs, c) =>
      if bs.length ≤ w.left then (.ok bs, ⟨c, w.left - bs.length⟩) else (.error .readError, ⟨c, 0⟩)

theorem of_read {w w' : Watched σ} {room : Nat} {bs : Bytes} (h : w.read room = (.ok bs, w')) :
    Source.read w.source room = (.ok bs, w'.source) ∧ w'.left + bs.length = w.left := by
  unfold read at h
  split at h
  next => cases h
  next hread =>
    split at h
    next hle =>
      cases h
      exact ⟨hread, Nat.sub_add_cancel hle⟩
    next => cases h

instance : Transport (Watched σ) where
  read := read
  write w data := (.ok data.length, w)
  flush w := (.ok (), w)
  close w := (.ok (), w)
  supply := left
  read_length_le h := Source.length_le (of_read h).1
  supply_read h := Nat.le_of_eq (of_read h).2
  write_le_length h := by
    cases h
    exact Nat.le_refl _

end Watched

/-- What reads for so many bytes each give. -/
def answers {τ : Type} (read : τ → Nat → Except Fault Bytes × τ) (c : τ) :
    List Nat → List (Except Fault Bytes)
  | [] => []
  | room :: rooms => (read c room).1 :: answers read (read c room).2 rooms

def given : Except Fault Bytes → Nat
  | .ok bs => bs.length
  | .error _ => 0

/-- Until the bytes are given, reads give what the source gives. -/
theorem answers_watched {σ : Type} [Source σ] (rooms : List Nat) (c : σ) (left : Nat)
    (h : ((answers Source.read c rooms).map given).sum ≤ left) :
    answers Transport.read (⟨c, left⟩ : Watched σ) rooms = answers Source.read c rooms := by
  induction rooms generalizing c left with
  | nil => rfl
  | cons room rooms ih =>
      rw [answers, List.map_cons, List.sum_cons] at h
      rw [answers, answers]
      rcases hread : Source.read c room with ⟨f | bs, c'⟩
      · have hwatched : Transport.read (⟨c, left⟩ : Watched σ) room = (.error f, ⟨c', left⟩) := by
          simp [Transport.read, Watched.read, hread]
        rw [hread, given, Nat.zero_add] at h
        rw [hwatched, ih c' left h]
      · rw [hread, given] at h
        have hle : bs.length ≤ left := Nat.le_trans (Nat.le_add_right _ _) h
        have hwatched : Transport.read (⟨c, left⟩ : Watched σ) room =
            (.ok bs, ⟨c', left - bs.length⟩) := by
          simp [Transport.read, Watched.read, hread, hle]
        rw [hwatched, ih c' (left - bs.length) (Nat.le_sub_of_add_le' h)]

theorem length_answers {τ : Type} (read : τ → Nat → Except Fault Bytes × τ) (c : τ)
    (rooms : List Nat) : (answers read c rooms).length = rooms.length := by
  induction rooms generalizing c with
  | nil => rfl
  | cons room rooms ih => exact congrArg (· + 1) (ih (read c room).2)

theorem take_answers {τ : Type} (read : τ → Nat → Except Fault Bytes × τ) (c : τ)
    (rooms : List Nat) (n : Nat) :
    (answers read c rooms).take n = answers read c (rooms.take n) := by
  induction rooms generalizing c n with
  | nil => simp [answers]
  | cons room rooms ih =>
      cases n with
      | zero => rfl
      | succ n => rw [answers, List.take_succ_cons, List.take_succ_cons, answers, ih]

/-- The log of a connection that was only read from tells the rooms of the reads and what they
gave. -/
theorem reads_of_steps {τ : Type} [Transport τ] {l l' : Logged τ} (h : Steps Call.IsRead l l') :
    ∃ rooms, l'.calls =
      l.calls ++ List.zipWith Call.read rooms (answers Transport.read l.inner rooms) := by
  induction h with
  | nil l => exact ⟨[], (List.append_nil l.calls).symm⟩
  | @read l _ _ room answer hp hr _ ih =>
      obtain ⟨rooms, hrooms⟩ := ih
      obtain ⟨hinner, hcalls⟩ := Logged.of_note hr
      refine ⟨room :: rooms, ?_⟩
      rw [hrooms, hcalls, answers, hinner, List.zipWith_cons_cons, List.append_assoc]
      rfl
  | write hp => exact hp.elim
  | flush hp => exact hp.elim
  | close hp => exact hp.elim

theorem steps_serve {τ : Type} [Transport τ] (e : Endpoint HeaderBuffer τ) (request : Request) :
    Steps Call.IsRead e.connection (serve e request).2.connection := by
  cases request with
  | line out => exact steps_readLine e.connection out
  | head => exact steps_readHead e.header e.connection
  | body framing => exact .nil e.connection
  | piece mode out => exact e.body.steps_read mode out.length e.connection

theorem steps_serveAll {τ : Type} [Transport τ] (requests : List Request)
    (e : Endpoint HeaderBuffer τ) :
    Steps Call.IsRead e.connection (serveAll e requests).2.connection := by
  induction requests generalizing e with
  | nil => exact .nil e.connection
  | cons request requests ih => exact (steps_serve e request).append (ih (serve e request).2)

/-- **Requests on a source without an end.** On a source that is watched for `left` bytes, all
requests are answered in memory, by the plain answers. They come about by reads alone, and up to any
of these reads the source gives the same in its own right, unless it has given more than `left`
bytes by then. -/
theorem serveAllIn_watched {σ : Type} [Source σ] (requests : List Request) (header : HeaderBuffer)
    (body : BodyReader) (c : σ) (left : Nat) :
    let e : Endpoint HeaderBuffer (Logged (Watched σ)) := ⟨header, body, ⟨⟨c, left⟩, []⟩⟩
    let e' := (serveAll e requests).2
    serveAllIn e.inMemory requests = some ((serveAll e requests).1, e'.inMemory) ∧
      ∃ rooms : List Nat, e'.connection.calls.length = rooms.length ∧
        ∀ n, ((answers Source.read c (rooms.take n)).map given).sum ≤ left →
          e'.connection.calls.take n =
            List.zipWith Call.read (rooms.take n) (answers Source.read c (rooms.take n)) := by
  intro e e'
  refine ⟨serveAllIn_eq requests e, ?_⟩
  obtain ⟨rooms, hcalls⟩ := reads_of_steps (steps_serveAll requests e)
  rw [show e.connection.calls = [] from rfl, List.nil_append] at hcalls
  refine ⟨rooms, ?_, fun n hn => ?_⟩
  · rw [hcalls, List.length_zipWith, length_answers, Nat.min_self]
  · calc e'.connection.calls.take n
        = List.zipWith Call.read (rooms.take n)
            (answers Transport.read (⟨c, left⟩ : Watched σ) (rooms.take n)) := by
          rw [hcalls, List.take_zipWith, take_answers]
      _ = List.zipWith Call.read (rooms.take n) (answers Source.read c (rooms.take n)) := by
          rw [answers_watched (rooms.take n) c left hn]

end HttpExchange.Memory
