import HttpExchange.Calls
import HttpExchange.Proofs.Chunks

set_option autoImplicit false

/-! # A body of announced length

Bounded reads of a body whose length was announced, on a connection that may give any number of
bytes at a time, fail or close at every read. The reader keeps a balance: what was delivered and
what is still to come add up to the announced length. One read keeps it and delivers what it took
off the connection (`Balanced.read`), so every run of reads does (`Balanced.readMany`), whatever
reads fail in between. Such a run takes no more bytes than were announced, so it does not matter
here that a connection has finitely many bytes to give.
-/

namespace HttpExchange

def bytesOf {ε : Type} (answer : Except ε Bytes) : Bytes := answer.toOption.getD []

def Call.got : Call → Bytes
  | .read _ answer => bytesOf answer
  | _ => []

namespace BodyReader

variable {σ : Type} [Transport σ]

theorem flatten_delivered_cons (answer : Except Error Bytes) (answers : List (Except Error Bytes)) :
    (delivered (answer :: answers)).flatten = bytesOf answer ++ (delivered answers).flatten := by
  cases answer <;> rfl

/-- What a read of the connection is answered with while bytes are to come. A close of the peer is
an error then, as a fault is. -/
def answerOf : Except Fault Bytes → Except Error Bytes
  | .error f => .error (.ofFault f)
  | .ok [] => .error .transportClosed
  | .ok (b :: bs) => .ok (b :: bs)

@[simp] theorem bytesOf_answerOf (answer : Except Fault Bytes) :
    bytesOf (answerOf answer) = bytesOf answer := by
  rcases answer with f | _ | ⟨b, bs⟩ <;> rfl

theorem answerOf_ne_end (answer : Except Fault Bytes) : answerOf answer ≠ .ok [] := by
  rcases answer with f | _ | ⟨b, bs⟩ <;> simp [answerOf]

/-! ## One read -/

theorem read_no_room (r : BodyReader) (mode : Mode) (c : σ) :
    r.read mode 0 c = (.error .parameter, r, c) :=
  if_pos rfl

section Left

variable {r : BodyReader} {left : Nat} (hleft : r.remaining = some left) {room : Nat}
  (hroom : 0 < room) (c : σ)
include hleft hroom

/-- With nothing left the end is reported without a read. -/
theorem read_ended (hend : r.finished = true ∨ left = 0) :
    r.read .normal room c = (.ok [], { r with finished := true }, c) := by
  unfold BodyReader.read
  rw [if_neg (Nat.ne_of_gt hroom)]
  by_cases hfin : r.finished = true
  · rw [if_pos hfin, ← hfin]
  · obtain rfl := hend.resolve_left hfin
    rw [if_neg hfin]
    exact if_pos hleft

/-- With bytes left one read asks for no more than these, and takes what it gives off them. -/
theorem read_expecting (hfin : r.finished = false) (hpos : 0 < left) {got : Except Fault Bytes}
    {c' : σ} (hgot : Transport.read c (min left room) = (got, c')) :
    r.read .normal room c =
      (answerOf got, { r with remaining := some (left - (bytesOf got).length) }, c') := by
  have hne : left ≠ 0 := Nat.ne_of_gt hpos
  have hsame : ({ r with remaining := some left } : BodyReader) = r := by rw [← hleft]
  unfold BodyReader.read
  rw [if_neg (Nat.ne_of_gt hroom), if_neg (by simp [hfin])]
  rcases got with f | _ | ⟨b, bs⟩ <;>
    simp [readNormal, hleft, hne, hgot, answerOf, bytesOf, Except.toOption, hsame]

end Left

/-! ## The balance -/

/-- The reader has delivered `data` of a body of `n` bytes. -/
structure Balanced (n : Nat) (data : Bytes) (r : BodyReader) : Prop where
  length_le : data.length ≤ n
  remaining : r.remaining = some (n - data.length)
  finished : r.finished = true → data.length = n

theorem balanced_ofFraming (n : Nat) : Balanced n [] (ofFraming (.contentLength n)) :=
  ⟨Nat.zero_le n, rfl, nofun⟩

section Run

variable {n : Nat} {data : Bytes} {r : BodyReader} (h : Balanced n data r)
include h

/-- All that one read can do: refuse an empty buffer, report the end behind the last byte, or ask
the connection for bytes that are still to come. -/
theorem Balanced.read_cases {room : Nat} {c c' : σ} {answer : Except Error Bytes}
    {r' : BodyReader} (hread : r.read .normal room c = (answer, r', c')) :
    (room = 0 ∧ answer = .error .parameter ∧ r' = r ∧ c' = c) ∨
    (0 < room ∧ data.length = n ∧ answer = .ok [] ∧ r' = { r with finished := true } ∧ c' = c) ∨
    (0 < room ∧ data.length < n ∧ ∃ got,
      Transport.read c (min (n - data.length) room) = (got, c') ∧ answer = answerOf got ∧
      r' = { r with remaining := some (n - data.length - (bytesOf got).length) }) := by
  rcases Nat.eq_zero_or_pos room with rfl | hroom
  · rw [read_no_room] at hread
    cases hread
    exact .inl ⟨rfl, rfl, rfl, rfl⟩
  rcases Nat.lt_or_eq_of_le h.length_le with hmore | hall
  · rcases hgot : Transport.read c (min (n - data.length) room) with ⟨got, c₁⟩
    have hfin : r.finished = false := by
      rw [Bool.eq_false_iff]
      exact fun hfin => absurd (h.finished hfin) (Nat.ne_of_lt hmore)
    rw [read_expecting h.remaining hroom c hfin (Nat.sub_pos_of_lt hmore) hgot] at hread
    cases hread
    exact .inr (.inr ⟨hroom, hmore, got, rfl, rfl, rfl⟩)
  · rw [read_ended h.remaining hroom c (.inr (Nat.sub_eq_zero_of_le hall.ge))] at hread
    cases hread
    exact .inr (.inl ⟨hroom, hall, rfl, rfl, rfl⟩)

/-- One read delivers what it takes off the connection, and keeps the balance. -/
theorem Balanced.read {room : Nat} {l l' : Logged σ} {answer : Except Error Bytes}
    {r' : BodyReader} (hread : r.read .normal room l = (answer, r', l')) :
    Balanced n (data ++ bytesOf answer) r' ∧
    l'.calls.flatMap Call.got = l.calls.flatMap Call.got ++ bytesOf answer := by
  rcases h.read_cases hread with ⟨-, rfl, rfl, rfl⟩ | ⟨-, hall, rfl, rfl, rfl⟩ |
    ⟨-, hmore, got, hgot, rfl, rfl⟩
  · simpa [bytesOf, Except.toOption] using h
  · simp only [bytesOf, Except.toOption, Option.getD_some, List.append_nil]
    exact ⟨⟨h.length_le, h.remaining, fun _ => hall⟩, trivial⟩
  · obtain ⟨hinner, hcalls⟩ := Logged.of_note hgot
    rw [bytesOf_answerOf]
    -- no more was asked for than is left, so nothing is lost in the subtraction
    have hle : (bytesOf got).length ≤ n - data.length := by
      cases got with
      | error f => exact Nat.zero_le _
      | ok bs => exact Nat.le_trans (Transport.read_length_le hinner) (Nat.min_le_left _ _)
    refine ⟨⟨?_, ?_, fun hfin => ?_⟩, ?_⟩
    · rw [List.length_append]
      omega
    · rw [List.length_append, Nat.sub_add_eq]
    · exact absurd (h.finished hfin) (Nat.ne_of_lt hmore)
    · simp [hcalls, Call.got]

/-- A read that fails changes nothing. -/
theorem Balanced.read_error {room : Nat} {c c' : σ} {e : Error} {r' : BodyReader}
    (hread : r.read .normal room c = (.error e, r', c')) : r' = r := by
  rcases h.read_cases hread with ⟨-, -, rfl, -⟩ | ⟨-, -, hanswer, -⟩ | ⟨-, -, got, -, hgot, rfl⟩
  · rfl
  · cases hanswer
  · rw [← bytesOf_answerOf, ← hgot]
    exact congrArg (fun left => { r with remaining := left }) h.remaining.symm

/-- A run of reads delivers what it takes off the connection, and keeps the balance. -/
theorem Balanced.readMany {rooms : List Nat} {l l' : Logged σ} {answers : List (Except Error Bytes)}
    {r' : BodyReader} (hrun : readMany (rooms.map (.normal, ·)) r l = (answers, r', l')) :
    Balanced n (data ++ (delivered answers).flatten) r' ∧
    l'.calls.flatMap Call.got = l.calls.flatMap Call.got ++ (delivered answers).flatten := by
  induction rooms generalizing data r l answers with
  | nil =>
      cases hrun
      simpa [delivered] using h
  | cons room rooms ih =>
      rcases hread : r.read .normal room l with ⟨answer, r₁, l₁⟩
      rcases hrest : BodyReader.readMany (rooms.map (.normal, ·)) r₁ l₁ with ⟨answers₁, rl⟩
      rw [List.map_cons, readMany_cons hread, hrest] at hrun
      cases hrun
      obtain ⟨hbal, hgot⟩ := h.read hread
      rw [flatten_delivered_cons, ← List.append_assoc, ← List.append_assoc, ← hgot]
      exact ih hbal hrest

end Run

/-- **A body of announced length is delivered exactly, across any interruption.** After bounded
reads of any rooms, `data` was delivered: it is what the connection gave, and no more than the `n`
bytes announced. A further read that fails changes nothing. A read with room answers with the end if
and only if all was delivered, and then leaves the connection alone; until then it asks for no more
than is left and hands on what it gets, except that the close of the peer is an error. -/
theorem readMany_announced (c : σ) (n : Nat) (rooms : List Nat) (room : Nat) :
    let run := readMany (rooms.map (.normal, ·)) (ofFraming (.contentLength n)) (Logged.mk c [])
    let data := (delivered run.1).flatten
    let next := run.2.1.read .normal room run.2.2
    run.2.2.calls.flatMap Call.got = data ∧
    data.length ≤ n ∧ run.2.1.remaining = some (n - data.length) ∧
    (∀ e, next.1 = .error e → next.2.1 = run.2.1 ∧ next.2.2.calls.flatMap Call.got = data) ∧
    (0 < room → (next.1 = .ok [] ↔ data.length = n)) ∧
    (next.1 = .ok [] → next.2.2 = run.2.2) ∧
    (0 < room → data.length < n →
      let got := Transport.read run.2.2 (min (n - data.length) room)
      next.1 = answerOf got.1 ∧ next.2.2 = got.2) := by
  intro run data next
  have hrun : readMany (rooms.map (.normal, ·)) (ofFraming (.contentLength n)) (Logged.mk c []) =
      (run.1, run.2.1, run.2.2) := rfl
  have hnext : run.2.1.read .normal room run.2.2 = (next.1, next.2.1, next.2.2) := rfl
  obtain ⟨hbal, hgot⟩ := (balanced_ofFraming n).readMany hrun
  have hcases := hbal.read_cases hnext
  refine ⟨hgot, hbal.length_le, hbal.remaining, ?_, ?_, ?_, ?_⟩
  · -- an error leaves the reader as it was, and took nothing off the connection
    intro e he
    rw [he] at hnext
    refine ⟨hbal.read_error hnext, ?_⟩
    rw [(hbal.read hnext).2, hgot]
    exact List.append_nil _
  · intro hroom
    rcases hcases with ⟨rfl, -⟩ | ⟨-, hall, hend, -⟩ | ⟨-, hmore, got, -, hanswer, -⟩
    · exact absurd hroom (Nat.lt_irrefl 0)
    · exact iff_of_true hend hall
    · exact iff_of_false (hanswer ▸ answerOf_ne_end got) (Nat.ne_of_lt hmore)
  · -- the end is told without a read
    intro hend
    rcases hcases with ⟨-, -, -, hl⟩ | ⟨-, -, -, -, hl⟩ | ⟨-, -, got, -, hanswer, -⟩
    · exact hl
    · exact hl
    · exact absurd (hanswer.symm.trans hend) (answerOf_ne_end got)
  · intro hroom hmore got
    rcases hcases with ⟨rfl, -⟩ | ⟨-, hall, -⟩ | ⟨-, -, got', hread, hanswer, -⟩
    · exact absurd hroom (Nat.lt_irrefl 0)
    · exact absurd hall (Nat.ne_of_lt hmore)
    · have hsame : got = (got', next.2.2) := hread
      rw [hsame]
      exact ⟨hanswer, rfl⟩

/-- A peer that pauses within a body and then closes before its end. -/
def abandonedBody : Script where
  steps := [.data (Text.encode "Wi"), .fault .timeout, .data (Text.encode "k")]

theorem readMany_announced_abandoned :
    let run := readMany ([1, 4, 4, 4].map (.normal, ·)) (ofFraming (.contentLength 4))
      (Logged.mk abandonedBody [])
    let next := run.2.1.read .normal 4 run.2.2
    run.1 = [.ok (Text.encode "W"), .ok (Text.encode "i"), .error .timeout,
      .ok (Text.encode "k")] ∧
    run.2.1.remaining = some 1 ∧ 0 < 4 ∧ (delivered run.1).flatten.length < 4 ∧
    next.1 = .error .transportClosed ∧ next.2.1 = run.2.1 := by
  intro run next
  have hlen : (delivered run.1).flatten.length = 3 := by decide +kernel
  have hroom : 0 < 4 := by decide
  obtain ⟨-, -, hleft, hfail, -, -, hmore⟩ := readMany_announced abandonedBody 4 [1, 4, 4, 4] 4
  obtain ⟨hanswer, -⟩ := hmore hroom (hlen ▸ by decide)
  have hclosed : next.1 = .error .transportClosed := hanswer.trans (by decide +kernel)
  refine ⟨by decide +kernel, hleft.trans ?_, hroom, by omega, hclosed, (hfail _ hclosed).1⟩
  exact congrArg (fun m => some (4 - m)) hlen

end BodyReader
end HttpExchange
