import HttpExchange.Proofs.Exchange

set_option autoImplicit false

/-! # Chunks that do not fit

A chunk that is longer than the room of a chunked read is refused and kept: the reader remembers
the size that was announced, and the connection stands behind the size line. Whatever the
connection does, a refused read therefore changes nothing that a later chunked read can see
(`read_behind_refusal`), so a run of reads answers as if the refused ones had not been made
(`readMany_kept`). Over a body in chunks the refused reads are those whose room is smaller than the
next chunk (`Awaits.readMany`), and the client around the body keeps its state at each of them.
-/

namespace HttpExchange

open Ascii

variable {σ : Type} [Transport σ]

/-! ## Where a refusal comes from -/

theorem Error.ofFault_ne_bufferFull (f : Fault) : Error.ofFault f ≠ .bufferFull := by
  cases f <;> simp [Error.ofFault]

theorem readExact_ne_bufferFull {c c' : σ} {n : Nat} {e : Error}
    (h : readExact c n = (.error e, c')) : e ≠ .bufferFull := by
  fun_induction readExact c n generalizing e c' with
  | case1 => cases h
  | case2 _ _ f =>
      cases h
      exact Error.ofFault_ne_bufferFull f
  | case3 =>
      cases h
      decide
  | case4 => cases h
  | case5 _ _ _ _ _ _ _ _ hmore ih =>
      cases h
      exact ih hmore

theorem readChunkSize_ne_bufferFull {c c' : σ} {e : Error}
    (h : readChunkSize c = (.error e, c')) : e ≠ .bufferFull := by
  unfold readChunkSize at h
  simp only at h
  split at h
  next f _ =>
    cases h
    exact Error.ofFault_ne_bufferFull f
  next =>
    cases h
    decide
  next =>
    cases h
    decide
  next =>
    split at h
    · cases h
    · cases h
      decide

theorem readChunkData_ne_bufferFull {c c' : σ} {size : Nat} {e : Error}
    (h : readChunkData c size = (.error e, c')) : e ≠ .bufferFull := by
  unfold readChunkData at h
  split at h
  next hpiece =>
    cases h
    exact readExact_ne_bufferFull hpiece
  next =>
    split at h
    next hending =>
      cases h
      exact readExact_ne_bufferFull hending
    next =>
      obtain ⟨h, -⟩ := Prod.mk.inj h
      split at h
      · cases h
      · cases h
        decide

theorem skipSection_ne_bufferFull {pos : Position} {c c' : σ} {e : Error}
    (h : skipSection pos c = (.error e, c')) : e ≠ .bufferFull := by
  obtain ⟨-, -, f, -, -, rfl, -⟩ := skipSection_error h
  exact Error.ofFault_ne_bufferFull f

namespace BodyReader

/-- Behind a size line, a read is refused if and only if the chunk is longer than the room. -/
theorem readSized_refused {r : BodyReader} {size room : Nat} {c : σ}
    (h : (r.readSized size room c).1 = .error .bufferFull) :
    room < size ∧
      r.readSized size room c = (.error .bufferFull, { r with pendingChunk := some size }, c) := by
  unfold readSized at h ⊢
  by_cases hzero : size = 0
  · -- the trailer of the last chunk is skipped without a refusal
    rw [if_pos hzero] at h
    split at h
    next hskip => exact absurd (Except.error.inj h) (skipSection_ne_bufferFull hskip)
    next => cases h
  · rw [if_neg hzero] at h ⊢
    by_cases hlong : room < size
    · rw [if_pos hlong]
      exact ⟨hlong, rfl⟩
    · rw [if_neg hlong] at h
      rcases hdata : readChunkData c size with ⟨e | piece, c'⟩
      · rw [hdata] at h
        exact absurd (Except.error.inj h) (readChunkData_ne_bufferFull hdata)
      · rw [hdata] at h
        cases h

/-! ## A refused read -/

/-- The size of the next chunk is `size`, and `c'` is the connection behind its size line: the line
was read before, or it is there to be read. -/
def Announced (r : BodyReader) (c : σ) (size : Nat) (c' : σ) : Prop :=
  r.finished = false ∧
    ((r.pendingChunk = some size ∧ c' = c) ∨
      (r.pendingChunk = none ∧ readChunkSize c = (.ok size, c')))

section Announced

variable {r : BodyReader} {c c' : σ} {size room : Nat}

/-- A chunked read goes on behind the size line, no matter when that line was read. -/
theorem Announced.read (h : r.Announced c size c') (hroom : 0 < room) :
    r.read .chunked room c = { r with pendingChunk := none }.readSized size room c' := by
  obtain ⟨hfin, ⟨hpending, rfl⟩ | ⟨hpending, hsize⟩⟩ := h
  · rw [BodyReader.read, if_neg (Nat.ne_of_gt hroom), if_neg (by simp [hfin])]
    simp only [readChunk, hpending]
  · rw [BetweenChunks.read_of_size ⟨hpending, hfin⟩ hroom hsize]
    congr 1
    cases r
    cases hpending
    rfl

/-- The size is kept for the next read. -/
theorem Announced.keep (h : r.Announced c size c') :
    { r with pendingChunk := some size }.Announced c' size c' :=
  ⟨h.1, .inl ⟨rfl, rfl⟩⟩

/-- All that a refused read can have done: it has read the size line, unless that was read before,
and it keeps a size for which there was not enough room. -/
theorem read_refused (hroom : 0 < room)
    (h : (r.read .chunked room c).1 = .error .bufferFull) :
    ∃ size c', r.Announced c size c' ∧ room < size ∧
      r.read .chunked room c = (.error .bufferFull, { r with pendingChunk := some size }, c') := by
  by_cases hfin : r.finished = true
  · rw [BodyReader.read, if_neg (Nat.ne_of_gt hroom), if_pos hfin] at h
    cases h
  obtain ⟨size, c', hsize⟩ : ∃ size c', r.Announced c size c' := by
    have hopen : r.finished = false := Bool.eq_false_iff.2 hfin
    cases hpending : r.pendingChunk with
    | some size => exact ⟨size, c, hopen, .inl ⟨hpending, rfl⟩⟩
    | none =>
        rcases hread : readChunkSize c with ⟨e | size, c'⟩
        · rw [BetweenChunks.read_of_error ⟨hpending, hopen⟩ hroom hread] at h
          exact absurd (Except.error.inj h) (readChunkSize_ne_bufferFull hread)
        · exact ⟨size, c', hopen, .inr ⟨hpending, hread⟩⟩
  rw [hsize.read hroom] at h ⊢
  obtain ⟨hlong, heq⟩ := readSized_refused h
  exact ⟨size, c', hsize, hlong, heq⟩

/-- A refused read changes nothing that a later chunked read can see. -/
theorem read_behind_refusal (hroom : 0 < room)
    (h : (r.read .chunked room c).1 = .error .bufferFull) {again : Nat} (hagain : 0 < again) :
    (r.read .chunked room c).2.1.read .chunked again (r.read .chunked room c).2.2 =
      r.read .chunked again c := by
  obtain ⟨size, c', hsize, -, heq⟩ := read_refused hroom h
  rw [heq, hsize.keep.read hagain, hsize.read hagain]

/-- A read that is refused right behind a refused one does nothing at all. -/
theorem read_refused_again (hroom : 0 < room)
    (h : (r.read .chunked room c).1 = .error .bufferFull) {again : Nat} (hagain : 0 < again)
    (h' : (r.read .chunked again c).1 = .error .bufferFull) :
    (r.read .chunked room c).2.1.read .chunked again (r.read .chunked room c).2.2 =
      r.read .chunked room c := by
  rw [read_behind_refusal hroom h hagain]
  obtain ⟨size, c', hsize, -, heq⟩ := read_refused hroom h
  rw [hsize.read hagain] at h' ⊢
  rw [heq, (readSized_refused h').2]

end Announced

/-! ## Runs without the refused reads -/

def lacksRoom : Except Error Bytes → Bool
  | .error .bufferFull => true
  | _ => false

theorem lacksRoom_iff {answer : Except Error Bytes} :
    lacksRoom answer = true ↔ answer = .error .bufferFull := by
  constructor
  · intro h
    unfold lacksRoom at h
    split at h
    · rfl
    · cases h
  · rintro rfl
    rfl

/-- The reads that were not refused, by their rooms and their answers. -/
def kept (rooms : List Nat) (answers : List (Except Error Bytes)) : List Nat :=
  ((rooms.zip answers).filter (!lacksRoom ·.2)).map Prod.fst

/-- A refused read has not succeeded. -/
theorem any_isSome_kept (answers : List (Except Error Bytes)) :
    (answers.filter (!lacksRoom ·)).any (·.toOption.isSome) =
      answers.any (·.toOption.isSome) := by
  rw [List.any_filter]
  congr 1
  funext answer
  by_cases hlacks : lacksRoom answer = true
  · rw [lacksRoom_iff.1 hlacks]
    rfl
  · simp [hlacks]

/-- Two readers, each with its connection, answer every chunked read in the same way and are the
same afterwards. -/
def Interchangeable (r r' : BodyReader) (c c' : σ) : Prop :=
  ∀ room, 0 < room → r.read .chunked room c = r'.read .chunked room c'

/-- A run of chunked reads without its refused ones gives all its other answers, and leaves behind
what later reads cannot tell from what the run leaves behind. -/
theorem readMany_kept {rooms : List Nat} (hrooms : ∀ room ∈ rooms, 0 < room) {r r' : BodyReader}
    {c c' : σ} (h : Interchangeable r' r c' c) :
    let run := readMany (rooms.map (.chunked, ·)) r c
    let fewer := readMany ((kept rooms run.1).map (.chunked, ·)) r' c'
    fewer.1 = run.1.filter (!lacksRoom ·) ∧
      Interchangeable fewer.2.1 run.2.1 fewer.2.2 run.2.2 := by
  induction rooms generalizing r r' c c' with
  | nil => exact ⟨rfl, h⟩
  | cons room rooms ih =>
      obtain ⟨hpos, hrooms'⟩ := List.forall_mem_cons.1 hrooms
      rcases hread : r.read .chunked room c with ⟨answer, r₁, c₁⟩
      rw [List.map_cons, readMany_cons hread]
      by_cases hlacks : lacksRoom answer = true
      · -- the read is left out: `r'` and `c'` stay as they are
        obtain rfl := lacksRoom_iff.1 hlacks
        have hbehind : Interchangeable r' r₁ c' c₁ := by
          intro again hagain
          have hrefused : (r.read .chunked room c).1 = .error .bufferFull := by rw [hread]
          have hseen : r₁.read .chunked again c₁ = r.read .chunked again c := by
            simpa only [hread] using read_behind_refusal hpos hrefused hagain
          exact (h again hagain).trans hseen.symm
        simpa [kept, hlacks] using ih hrooms' hbehind
      · have hsame : r'.read .chunked room c' = (answer, r₁, c₁) := (h room hpos).trans hread
        simpa [kept, hlacks, readMany_cons hsame] using ih hrooms' fun _ _ => rfl

/-! ## A body in chunks -/

/-- The answer of a read with `room` bytes of room if these chunks are to come. -/
def offer : List Bytes → Nat → Except Error Bytes
  | [], _ => .ok []
  | piece :: _, room => if room < piece.length then .error .bufferFull else .ok piece

/-- The chunks that are to come behind such a read: one that was refused stays in front. -/
def behind : List Bytes → Nat → List Bytes
  | [], _ => []
  | piece :: pieces, room => if room < piece.length then piece :: pieces else pieces

def offered : List Bytes → List Nat → List (Except Error Bytes)
  | _, [] => []
  | pieces, room :: rooms => offer pieces room :: offered (behind pieces room) rooms

/-- The reader stands in front of a body of these chunks, or behind the end of all of them. -/
inductive InFront (width : Nat) : List Bytes → BodyReader → σ → Prop
  | body {pieces : List Bytes} {s rest : Bytes} {r : BodyReader} {c : σ} (hr : r.BetweenChunks)
      (hc : Delivers c s) (h : ChunkedBody width pieces s rest) : InFront width pieces r c
  | ended {r : BodyReader} {c : σ} (hr : r.finished = true) : InFront width [] r c

/-- These chunks are to come, no matter whether the first of them was refused before. -/
def Awaits (width : Nat) (pieces : List Bytes) (r : BodyReader) (c : σ) : Prop :=
  ∃ r₀ c₀, Interchangeable r₀ r c₀ c ∧ InFront width pieces r₀ c₀

theorem InFront.awaits {width : Nat} {pieces : List Bytes} {r : BodyReader} {c : σ}
    (h : InFront width pieces r c) : Awaits width pieces r c :=
  ⟨r, c, fun _ _ => rfl, h⟩

section Chunked

variable {width : Nat} (hword : width < Numeral.lengthBound)
include hword

/-- A read in front of these chunks answers with the first of them if there is room for it. -/
theorem InFront.read {pieces : List Bytes} {r : BodyReader} {c : σ}
    (h : InFront width pieces r c) {room : Nat} (hroom : 0 < room) :
    (r.read .chunked room c).1 = offer pieces room ∧
      Awaits width (behind pieces room) (r.read .chunked room c).2.1
        (r.read .chunked room c).2.2 := by
  cases h with
  | ended hfin =>
      rw [BodyReader.read, if_neg (Nat.ne_of_gt hroom), if_pos hfin]
      exact ⟨rfl, (InFront.ended hfin).awaits⟩
  | body hr hc hbody =>
      cases hbody with
      | last hline =>
          obtain ⟨c', hread, -⟩ := read_last hr hline hroom hc
          rw [hread]
          exact ⟨rfl, (InFront.ended rfl).awaits⟩
      | @chunk line piece t _ pieces hline hpos hwidth hrest =>
          have hsize : piece.length < Numeral.lengthBound := Nat.lt_of_le_of_lt hwidth hword
          by_cases hlong : room < piece.length
          · -- the chunk does not fit: its size is kept, and the next read sees it as this one did
            obtain ⟨c₁, ht, -⟩ := (chunk_eq line piece t ▸ hc : Delivers c _).takes
            have hread := hr.read_of_size hroom (readChunkSize_of_takes hline hsize ht)
            have hrefused : (r.read .chunked room c).1 = .error .bufferFull := by
              rw [hread, readSized, if_neg (by omega), if_pos hlong]
            rw [hrefused, offer, behind, if_pos hlong, if_pos hlong]
            exact ⟨rfl, r, c, fun again hagain => (read_behind_refusal hroom hrefused hagain).symm,
              .body hr hc (.chunk hline hpos hwidth hrest)⟩
          · obtain ⟨c', hread, hd⟩ := read_chunk hr hline hpos (Nat.le_of_not_lt hlong) hsize hc
            rw [hread, offer, behind, if_neg hlong, if_neg hlong]
            exact ⟨rfl, (InFront.body hr hd hrest).awaits⟩

theorem Awaits.read {pieces : List Bytes} {r : BodyReader} {c : σ} (h : Awaits width pieces r c)
    {room : Nat} (hroom : 0 < room) :
    (r.read .chunked room c).1 = offer pieces room ∧
      Awaits width (behind pieces room) (r.read .chunked room c).2.1
        (r.read .chunked room c).2.2 := by
  obtain ⟨r₀, c₀, hsame, hfront⟩ := h
  rw [← hsame room hroom]
  exact hfront.read hword hroom

theorem Awaits.readMany {rooms : List Nat} (hrooms : ∀ room ∈ rooms, 0 < room)
    {pieces : List Bytes} {r : BodyReader} {c : σ} (h : Awaits width pieces r c) :
    let run := BodyReader.readMany (rooms.map (.chunked, ·)) r c
    run.1 = offered pieces rooms ∧ Awaits width (rooms.foldl behind pieces) run.2.1 run.2.2 := by
  induction rooms generalizing pieces r c with
  | nil => exact ⟨rfl, h⟩
  | cons room rooms ih =>
      obtain ⟨hpos, hrooms'⟩ := List.forall_mem_cons.1 hrooms
      rcases hread : r.read .chunked room c with ⟨answer, r₁, c₁⟩
      obtain ⟨hanswer, hnext⟩ := h.read hword hpos
      rw [hread] at hanswer hnext
      obtain ⟨hanswers, hlast⟩ := ih hrooms' hnext
      rw [List.map_cons, readMany_cons hread]
      refine ⟨?_, hlast⟩
      rw [hanswers, show answer = offer pieces room from hanswer, offered]

end Chunked

end BodyReader

/-! ## Receives of a client -/

namespace Client

/-- A receive that fails leaves the state as it was. -/
theorem state_receive_error {k : Client σ} {mode : Mode} {room : Nat} {e : Error}
    (h : (k.receive mode room).1 = .error e) : (k.receive mode room).2.state = k.state := by
  obtain ⟨-, heq⟩ | ⟨head, body, streaming, hstage, heq⟩ := k.receive_outcome mode room
  · rw [heq]
  · rw [heq] at h ⊢
    simp only at h
    simp [state, hstage, h, Except.toOption]

end Client

/-! ## Nothing is lost -/

namespace BodyReader

/-- **A chunk that does not fit loses nothing.** Chunked reads of a body in chunks, each with some
room, are refused if and only if their room is smaller than the next chunk, which then stays the
next one; the others give the chunks in order and then the end of the body. Behind a refused read
another one without enough room does nothing at all, and so nothing to the connection. The run
without its refused reads has the same other answers, and what it leaves behind answers every later
read in the same way, with the same effect. A client that reads the body through receives gets these
answers; no refused receive changes its state, and neither do all of them together. -/
theorem readMany_oversized {c : σ} {s rest : Bytes} {width : Nat} {pieces : List Bytes}
    (hc : Delivers c s) (h : ChunkedBody width pieces s rest) (hword : width < Numeral.lengthBound)
    (framing : Framing) {rooms : List Nat} (hrooms : ∀ room ∈ rooms, 0 < room) :
    let run := readMany (rooms.map (.chunked, ·)) (ofFraming framing) c
    let fewerRooms := kept rooms run.1
    let fewer := readMany (fewerRooms.map (.chunked, ·)) (ofFraming framing) c
    run.1 = offered pieces rooms ∧
    (∀ piece later, rooms.foldl behind pieces = piece :: later →
      ∀ room again, 0 < room → 0 < again → room < piece.length → again < piece.length →
      let next := run.2.1.read .chunked room run.2.2
      next.1 = .error .bufferFull ∧ next.2.1.read .chunked again next.2.2 = next) ∧
    fewer.1 = run.1.filter (!lacksRoom ·) ∧
    (∀ room, 0 < room →
      fewer.2.1.read .chunked room fewer.2.2 = run.2.1.read .chunked room run.2.2) ∧
    ∀ k : Client σ, k.connection = c →
      (∃ head streaming, k.stage = .answered head (ofFraming framing) streaming) →
      let got := k.receiveMany .chunked rooms
      let gotFewer := k.receiveMany .chunked fewerRooms
      got.1 = run.1 ∧ gotFewer.1 = fewer.1 ∧ gotFewer.2.state = got.2.state ∧
      ∀ room, (got.2.receive .chunked room).1 = .error .bufferFull →
        (got.2.receive .chunked room).2.state = got.2.state := by
  intro run fewerRooms fewer
  have hawaits : Awaits width pieces (ofFraming framing) c :=
    (InFront.body (betweenChunks_ofFraming framing) hc h).awaits
  obtain ⟨hanswers, hlast⟩ := hawaits.readMany hword hrooms
  obtain ⟨hfewer, hsame⟩ := readMany_kept hrooms fun room _ => Eq.refl
    ((ofFraming framing).read .chunked room c)
  refine ⟨hanswers, ?_, hfewer, hsame, ?_⟩
  · intro piece later hpieces room again hpos hpos' hlong hlong' next
    rw [hpieces] at hlast
    have hnext := (hlast.read hword hpos).1
    have hagain := (hlast.read hword hpos').1
    rw [offer, if_pos hlong] at hnext
    rw [offer, if_pos hlong'] at hagain
    exact ⟨hnext, read_refused_again hpos hnext hpos' hagain⟩
  · -- the state of a client tells whether some read has succeeded, and refused ones have not
    rintro k rfl ⟨head, streaming, hstage⟩ got gotFewer
    have hgot : got = _ := Client.receiveMany_eq hstage .chunked rooms
    have hgotFewer : gotFewer = _ :=
      Client.receiveMany_eq hstage .chunked fewerRooms
    refine ⟨by rw [hgot], by rw [hgotFewer], ?_, fun room => Client.state_receive_error⟩
    have hok : fewer.1.any (·.toOption.isSome) = run.1.any (·.toOption.isSome) :=
      (congrArg (List.any · _) hfewer).trans (any_isSome_kept run.1)
    rw [hgot, hgotFewer]
    exact congrArg (if streaming || · then State.bodyStreaming else .headersReceived) hok

def wikipediaBody : Script where
  steps := [.data (Text.encode "4\r\nWiki\r\n5\r\nped"), .data (Text.encode "ia\r\n0\r\n\r\n")]

def wikipediaClient : Client Script :=
  { Client.ofTarget "host" "/" false wikipediaBody (.zeroed 0) with
    stage := .answered ⟨200, .chunked, true, []⟩ (ofFraming .chunked) false }

theorem readMany_oversized_wikipedia :
    let run := readMany ([3, 4, 2].map (.chunked, ·)) (ofFraming .chunked) wikipediaBody
    let fewer := readMany ((kept [3, 4, 2] run.1).map (.chunked, ·)) (ofFraming .chunked)
      wikipediaBody
    let next := run.2.1.read .chunked 4 run.2.2
    let got := wikipediaClient.receiveMany .chunked [3, 4, 2]
    Delivers wikipediaBody wikipediaBody.stream ∧
    ChunkedBody 5 [Text.encode "Wiki", Text.encode "pedia"] wikipediaBody.stream [] ∧
    5 < Numeral.lengthBound ∧ (∀ room ∈ [3, 4, 2], 0 < room) ∧
    run.1 = [.error .bufferFull, .ok (Text.encode "Wiki"), .error .bufferFull] ∧
    kept [3, 4, 2] run.1 = [4] ∧ fewer.1 = [.ok (Text.encode "Wiki")] ∧
    fewer.2.1.read .chunked 5 fewer.2.2 = run.2.1.read .chunked 5 run.2.2 ∧
    next.1 = .error .bufferFull ∧ next.2.1.read .chunked 1 next.2.2 = next ∧
    got.1 = run.1 ∧ (got.2.receive .chunked 1).1 = .error .bufferFull ∧
    (got.2.receive .chunked 1).2.state = got.2.state := by
  intro run fewer next got
  have hd : Delivers wikipediaBody wikipediaBody.stream :=
    Script.Steady.delivers (by decide +kernel)
  have hwiki : SizeLine (Text.encode "4") (Text.encode "Wiki").length :=
    ⟨by decide +kernel, by decide +kernel, [4], by decide +kernel, by decide, by decide +kernel⟩
  have hpedia : SizeLine (Text.encode "5") (Text.encode "pedia").length :=
    ⟨by decide +kernel, by decide +kernel, [5], by decide +kernel, by decide, by decide +kernel⟩
  have hzero : SizeLine (Text.encode "0") 0 :=
    ⟨by decide +kernel, by decide +kernel, [0], by decide +kernel, by decide, by decide +kernel⟩
  have hbody : ChunkedBody 5 [Text.encode "Wiki", Text.encode "pedia"] wikipediaBody.stream [] := by
    have hstream : wikipediaBody.stream = Text.encode "4" ++ crlf ++ Text.encode "Wiki" ++ crlf ++
        (Text.encode "5" ++ crlf ++ Text.encode "pedia" ++ crlf ++
          (Text.encode "0" ++ crlf ++ crlf)) := by decide +kernel
    have hrest : [] = (afterBlankLine? crlf).getD [] := by decide +kernel
    rw [hstream, hrest]
    refine .chunk hwiki ?_ ?_ (.chunk hpedia ?_ ?_ (.last hzero)) <;> decide +kernel
  have hword : 5 < Numeral.lengthBound := by decide
  have hrooms : ∀ room ∈ [3, 4, 2], 0 < room := by decide
  obtain ⟨hanswers, hagain, hfewer, hsame, hclient⟩ :=
    readMany_oversized hd hbody hword .chunked hrooms
  have hlast : [3, 4, 2].foldl behind [Text.encode "Wiki", Text.encode "pedia"] =
      [Text.encode "pedia"] := by decide +kernel
  obtain ⟨hnext, hstays⟩ := hagain _ _ hlast 4 1 (by decide) (by decide) (by decide +kernel)
    (by decide +kernel)
  obtain ⟨hgot, -, -, hrefused⟩ := hclient wikipediaClient rfl ⟨_, _, rfl⟩
  have hfull : (got.2.receive .chunked 1).1 = .error .bufferFull := by decide +kernel
  exact ⟨hd, hbody, hword, hrooms, hanswers.trans (by decide +kernel), by decide +kernel,
    hfewer.trans (by decide +kernel), hsame 5 (by decide), hnext, hstays, hgot, hfull,
    hrefused 1 hfull⟩

end BodyReader

end HttpExchange
