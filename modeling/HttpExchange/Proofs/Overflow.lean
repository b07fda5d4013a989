import HttpExchange.Proofs.Composition

set_option autoImplicit false

/-! # Overflow of the header storage

What a formatting writes fits piece by piece until one piece does not (`FirstUnfit`). A formatting
without such a piece ends by itself, well or with a failure of its own (`format_of_fits`). With one,
the storage is full from there on, no later write succeeds, and all that is open is whether the
formatting takes note of it (`format_of_unfit`). So an overflow is reported unless the piece that
did not fit and all behind it are written by a value that does not look at what its writes answer
(`append_answer`), and then it is not reported at all (`append_unreported`). Texts that are fixed
take note always (`Edit.answer_fixed`).
-/

namespace HttpExchange

/-- What the piece writes where there is room; a failure writes nothing. -/
def Piece.bytes : Piece → Bytes
  | .text s => Text.encode s
  | .softText s => Text.encode s
  | .failure => []

/-- Whether formatting goes on behind the piece if it could not be written. -/
def Piece.isSoft : Piece → Bool
  | .softText _ => true
  | _ => false

namespace HeaderBuffer

/-! ## The first piece that does not fit -/

/-- `piece` is the first of the pieces that does not fit: those in front of it are texts that take
their space off the `room` free bytes, and what they leave is too little for it. Behind it stand the
pieces `back`. -/
inductive FirstUnfit : Nat → List Piece → Piece → List Piece → Prop
  | here {room : Nat} {piece : Piece} {back : List Piece} (h : room < piece.bytes.length) :
      FirstUnfit room (piece :: back) piece back
  | behind {room : Nat} {first piece : Piece} {pieces back : List Piece} (hfirst : first ≠ .failure)
      (hfits : first.bytes.length ≤ room)
      (h : FirstUnfit (room - first.bytes.length) pieces piece back) :
      FirstUnfit room (first :: pieces) piece back

/-- Some piece that is written into `room` free bytes does not fit in the space left. -/
def Overflows (room : Nat) (pieces : List Piece) : Prop :=
  ∃ piece back, FirstUnfit room pieces piece back

/-- The piece that does not fit and all behind it go on as if they had been written. -/
def Unnoticed (room : Nat) (pieces : List Piece) : Prop :=
  ∃ piece back, FirstUnfit room pieces piece back ∧ (piece :: back).all Piece.isSoft = true

theorem Unnoticed.overflows {room : Nat} {pieces : List Piece} (h : Unnoticed room pieces) :
    Overflows room pieces := by
  obtain ⟨piece, back, hunfit, -⟩ := h
  exact ⟨piece, back, hunfit⟩

theorem FirstUnfit.unique {room : Nat} {pieces back back' : List Piece} {piece piece' : Piece}
    (h : FirstUnfit room pieces piece back) (h' : FirstUnfit room pieces piece' back') :
    piece' = piece ∧ back' = back := by
  induction h with
  | here hlong =>
      cases h' with
      | here => exact ⟨rfl, rfl⟩
      | behind _ hfits _ => omega
  | behind _ hfits _ ih =>
      cases h' with
      | here hlong => omega
      | behind _ _ h' => exact ih h'

theorem FirstUnfit.unnoticed_iff {room : Nat} {pieces back : List Piece} {piece : Piece}
    (h : FirstUnfit room pieces piece back) :
    Unnoticed room pieces ↔ (piece :: back).all Piece.isSoft = true := by
  constructor
  · rintro ⟨piece', back', h', hsoft⟩
    obtain ⟨rfl, rfl⟩ := h.unique h'
    exact hsoft
  · intro hsoft
    exact ⟨piece, back, h, hsoft⟩

/-- Formattings in which every write is taken note of have no unnoticed overflow. -/
theorem not_unnoticed_of_hard {room : Nat} {pieces : List Piece}
    (hhard : ∀ s, .softText s ∉ pieces) : ¬ Unnoticed room pieces := by
  rintro ⟨piece, back, hunfit, hsoft⟩
  have hmem : piece ∈ pieces := by
    clear hsoft
    induction hunfit with
    | here => exact List.mem_cons_self
    | behind _ _ _ ih =>
        refine List.mem_cons_of_mem _ (ih fun s hs => ?_)
        exact hhard s (List.mem_cons_of_mem _ hs)
  cases piece with
  | softText s => exact hhard s hmem
  | text s => simp [Piece.isSoft] at hsoft
  | failure => simp [Piece.isSoft] at hsoft

/-! ## How a formatting ends -/

/-- A text that fits is written, and formatting goes on behind it. -/
theorem format_cons_of_fits {b : HeaderBuffer} {piece : Piece} (hpiece : piece ≠ .failure)
    (hfits : piece.bytes.length ≤ b.remaining) (rest : List Piece) :
    b.format false (piece :: rest) = (b.push piece.bytes).format false rest := by
  cases piece with
  | text s =>
      have hfits' : (Text.encode s).length ≤ b.remaining := hfits
      simp only [format, appendBytes, if_pos hfits', Bool.false_eq_true, if_false, Piece.bytes]
  | softText s =>
      have hfits' : (Text.encode s).length ≤ b.remaining := hfits
      simp only [format, appendBytes, if_pos hfits', Bool.false_eq_true, if_false, Piece.bytes]
  | failure => exact absurd rfl hpiece

/-- Behind an overflow a formatting ends well only if nothing in it looks at its writes. -/
theorem format_overflowed_eq (b : HeaderBuffer) (pieces : List Piece) :
    b.format true pieces = ⟨pieces.all Piece.isSoft, true, b⟩ := by
  induction pieces with
  | nil => rfl
  | cons piece rest ih =>
      cases piece with
      | text s => rfl
      | failure => rfl
      | softText s =>
          show b.format true rest = _
          rw [ih]
          rfl

/-- With a piece that does not fit, the storage is filled up and the overflow is known. -/
theorem format_of_unfit {b : HeaderBuffer} {pieces back : List Piece} {piece : Piece}
    (h : FirstUnfit b.remaining pieces piece back) :
    (b.format false pieces).finished = (piece :: back).all Piece.isSoft ∧
    (b.format false pieces).overflowed = true ∧
    (b.format false pieces).buffer.used = b.used + b.remaining := by
  generalize hroom : b.remaining = room at h
  induction h generalizing b with
  | @here room piece back hlong =>
      -- the piece is cut, and fills the space that was left
      subst hroom
      have hused : (b.push piece.bytes).used = b.used + b.remaining := by
        rw [used, push_written, List.length_append, List.length_take, used]
        omega
      cases piece with
      | failure => exact absurd hlong (Nat.not_lt_zero _)
      | text s =>
          have hlong' : ¬ (Text.encode s).length ≤ b.remaining := Nat.not_le.2 hlong
          simp only [format, appendBytes, if_neg hlong', Bool.false_eq_true, if_false]
          exact ⟨rfl, trivial, hused⟩
      | softText s =>
          have hlong' : ¬ (Text.encode s).length ≤ b.remaining := Nat.not_le.2 hlong
          simp only [format, appendBytes, if_neg hlong', Bool.false_eq_true, if_false,
            format_overflowed_eq]
          exact ⟨rfl, trivial, hused⟩
  | @behind room first piece pieces back hfirst hfits _ ih =>
      subst hroom
      obtain ⟨hfinished, hoverflowed, hused⟩ := ih (b.remaining_push first.bytes)
      rw [format_cons_of_fits hfirst hfits]
      refine ⟨hfinished, hoverflowed, ?_⟩
      rw [hused, used_push_of_fits hfits]
      omega

/-- Without a piece that does not fit, only a failure of its own keeps a formatting from its end,
and at the end everything is written. -/
theorem format_of_fits {b : HeaderBuffer} {pieces : List Piece}
    (h : ¬ Overflows b.remaining pieces) :
    ((b.format false pieces).finished = true ↔ .failure ∉ pieces) ∧
    (b.format false pieces).overflowed = false ∧
    (.failure ∉ pieces →
      (b.format false pieces).buffer.used = b.used + (pieces.flatMap Piece.bytes).length) := by
  induction pieces generalizing b with
  | nil => exact ⟨by simp [format], rfl, fun _ => rfl⟩
  | cons piece rest ih =>
      by_cases hpiece : piece = .failure
      · subst hpiece
        simp [format]
      · have hfits : piece.bytes.length ≤ b.remaining := by
          by_contra hlong
          exact h ⟨piece, rest, .here (Nat.not_le.1 hlong)⟩
        -- a piece behind that does not fit would be one of the whole list
        have hrest : ¬ Overflows (b.push piece.bytes).remaining rest := by
          rw [remaining_push]
          rintro ⟨later, back, hlater⟩
          exact h ⟨later, back, .behind hpiece hfits hlater⟩
        have hmem : Piece.failure ∉ piece :: rest ↔ Piece.failure ∉ rest := by
          simp [Ne.symm hpiece]
        obtain ⟨hfinished, hoverflowed, hused⟩ := ih hrest
        rw [format_cons_of_fits hpiece hfits, hmem]
        refine ⟨hfinished, hoverflowed, fun hnone => ?_⟩
        rw [hused hnone, used_push_of_fits hfits, List.flatMap_cons, List.length_append]
        omega

/-! ## What is answered -/

theorem append_of_fits {b : HeaderBuffer} {pieces : List Piece}
    (h : ¬ Overflows b.remaining pieces) :
    (b.append pieces).1 =
      if .failure ∈ pieces then .error .parameter
      else .ok (pieces.flatMap Piece.bytes).length := by
  obtain ⟨hfinished, hoverflowed, hused⟩ := format_of_fits h
  by_cases hfailure : Piece.failure ∈ pieces
  · have hstopped : ¬ (b.format false pieces).finished = true :=
      fun hend => hfinished.1 hend hfailure
    simp only [append, if_neg hstopped, hoverflowed, if_pos hfailure, Bool.false_eq_true, if_false]
  · have hend : (b.format false pieces).finished = true := hfinished.2 hfailure
    simp only [append, if_pos hend, if_neg hfailure, hused hfailure, Nat.add_sub_cancel_left]

theorem append_of_unfit {b : HeaderBuffer} {pieces back : List Piece} {piece : Piece}
    (h : FirstUnfit b.remaining pieces piece back) :
    (b.append pieces).1 =
      if (piece :: back).all Piece.isSoft then .ok b.remaining else .error .bufferFull := by
  obtain ⟨hfinished, hoverflowed, hused⟩ := format_of_unfit h
  simp only [append, hfinished, hoverflowed, hused, Nat.add_sub_cancel_left, if_true]

/-! ## Fixed texts -/

/-- Without a failure among the pieces all of them are written, and one of them does not fit if they
do not fit together. -/
theorem overflows_iff_of_no_failure {room : Nat} {pieces : List Piece}
    (hnone : .failure ∉ pieces) :
    Overflows room pieces ↔ room < (pieces.flatMap Piece.bytes).length := by
  constructor
  · rintro ⟨piece, back, hunfit⟩
    -- the failures behind the piece do not matter in this direction
    clear hnone
    induction hunfit with
    | here hlong =>
        rw [List.flatMap_cons, List.length_append]
        omega
    | behind _ _ _ ih =>
        rw [List.flatMap_cons, List.length_append]
        omega
  · intro hlong
    induction pieces generalizing room with
    | nil => exact absurd hlong (Nat.not_lt_zero room)
    | cons piece rest ih =>
        have hpiece : piece ≠ .failure := fun h => hnone (h ▸ List.mem_cons_self)
        have hrest : .failure ∉ rest := fun h => hnone (List.mem_cons_of_mem _ h)
        by_cases hfits : piece.bytes.length ≤ room
        · rw [List.flatMap_cons, List.length_append] at hlong
          have hlong' : room - piece.bytes.length < (rest.flatMap Piece.bytes).length := by omega
          obtain ⟨later, back, hlater⟩ := ih hrest hlong'
          exact ⟨later, back, .behind hpiece hfits hlater⟩
        · exact ⟨piece, rest, .here (Nat.not_le.1 hfits)⟩

/-- Texts that all take note of their writes answer as one text does. -/
theorem append_texts (b : HeaderBuffer) (ss : List String) :
    (b.append (ss.map .text)).1 = (b.appendBytes (ss.flatMap Text.encode)).1 := by
  have hhard : ∀ s, Piece.softText s ∉ ss.map .text := by simp
  have hnone : Piece.failure ∉ ss.map .text := by simp
  have hbytes : (ss.map Piece.text).flatMap Piece.bytes = ss.flatMap Text.encode := by
    rw [List.flatMap_map]
    rfl
  have hoverflows : Overflows b.remaining (ss.map .text) ↔
      ¬ (ss.flatMap Text.encode).length ≤ b.remaining := by
    rw [overflows_iff_of_no_failure hnone, hbytes, Nat.not_le]
  by_cases hfits : (ss.flatMap Text.encode).length ≤ b.remaining
  · rw [append_of_fits fun h => hoverflows.1 h hfits, if_neg hnone, hbytes, appendBytes,
      if_pos hfits]
  · obtain ⟨piece, back, hunfit⟩ := hoverflows.2 hfits
    have hnoticed : ¬ (piece :: back).all Piece.isSoft = true :=
      fun hsoft => not_unnoticed_of_hard hhard ⟨piece, back, hunfit, hsoft⟩
    rw [append_of_unfit hunfit, if_neg hnoticed, appendBytes, if_neg hfits]

/-- A call that writes a fixed text answers its length, or `bufferFull` if it does not fit. -/
theorem Edit.answer_fixed {e : Edit} (hreset : e ≠ .reset) (happend : ∀ pieces, e ≠ .append pieces)
    (b : HeaderBuffer) :
    (e.apply b).1 =
      if (e.writes b.remaining).length ≤ b.remaining then .ok (e.writes b.remaining).length
      else .error .bufferFull := by
  cases e with
  | appendBytes bs => rfl
  | endHeaders => rfl
  | reset => exact absurd rfl hreset
  | append pieces => exact absurd rfl (happend pieces)
  | requestLine method path =>
      have htexts : (requestLine method path).writes b.remaining =
          [method.token, " ", path, " HTTP/1.1\r\n"].flatMap Text.encode := by simp [writes]
      rw [htexts]
      exact b.append_texts [method.token, " ", path, " HTTP/1.1\r\n"]
  | field name value =>
      have htexts : (field name value).writes b.remaining =
          [name, ": ", value, "\r\n"].flatMap Text.encode := by simp [writes]
      rw [htexts]
      exact b.append_texts [name, ": ", value, "\r\n"]

/-! ## All answers -/

/-- All that a formatting can be answered with. -/
theorem append_cases (b : HeaderBuffer) (pieces : List Piece) :
    (Overflows b.remaining pieces ∧ Unnoticed b.remaining pieces ∧
      (b.append pieces).1 = .ok b.remaining) ∨
    (Overflows b.remaining pieces ∧ ¬ Unnoticed b.remaining pieces ∧
      (b.append pieces).1 = .error .bufferFull) ∨
    (¬ Overflows b.remaining pieces ∧ .failure ∈ pieces ∧
      (b.append pieces).1 = .error .parameter) ∨
    (¬ Overflows b.remaining pieces ∧ .failure ∉ pieces ∧
      (b.append pieces).1 = .ok (pieces.flatMap Piece.bytes).length) := by
  by_cases hover : Overflows b.remaining pieces
  · obtain ⟨piece, back, hunfit⟩ := id hover
    rw [hunfit.unnoticed_iff, append_of_unfit hunfit]
    by_cases hsoft : (piece :: back).all Piece.isSoft = true
    · exact .inl ⟨hover, hsoft, if_pos hsoft⟩
    · exact .inr (.inl ⟨hover, hsoft, if_neg hsoft⟩)
  · rw [append_of_fits hover]
    by_cases hfailure : Piece.failure ∈ pieces
    · exact .inr (.inr (.inl ⟨hover, hfailure, if_pos hfailure⟩))
    · exact .inr (.inr (.inr ⟨hover, hfailure, if_neg hfailure⟩))

/-- **Overflow is reported exactly if the formatting takes note of it.** A formatting is answered
with `bufferFull` if and only if some piece of it did not fit in the space left, unless that piece
and all behind it go on as if they had been written; with a parameter error if and only if every
piece fitted and the formatting failed of itself; and with success if and only if every piece fitted
and the formatting did not fail, and then the answer is the length of all pieces, or if an overflow
went unnoticed, and then it is the space that was left. No overflow goes unnoticed where every write
is looked at. A call that writes a fixed text answers its length, or `bufferFull` if the text does
not fit. -/
theorem append_answer (b : HeaderBuffer) (pieces : List Piece) :
    let answer := (b.append pieces).1
    (answer = .error .bufferFull ↔
      Overflows b.remaining pieces ∧ ¬ Unnoticed b.remaining pieces) ∧
    (answer = .error .parameter ↔ ¬ Overflows b.remaining pieces ∧ .failure ∈ pieces) ∧
    (∀ n, answer = .ok n ↔
      (¬ Overflows b.remaining pieces ∧ .failure ∉ pieces ∧
        n = (pieces.flatMap Piece.bytes).length) ∨
      (Unnoticed b.remaining pieces ∧ n = b.remaining)) ∧
    ((∀ s, .softText s ∉ pieces) → ¬ Unnoticed b.remaining pieces) ∧
    ∀ e : Edit, e ≠ .reset → (∀ pieces, e ≠ .append pieces) →
      (e.apply b).1 =
        if (e.writes b.remaining).length ≤ b.remaining then .ok (e.writes b.remaining).length
        else .error .bufferFull := by
  intro answer
  -- the four cases exclude each other, so each decides all the answers
  have hfixed := fun (e : Edit) hreset happend => e.answer_fixed hreset happend b
  rcases b.append_cases pieces with ⟨hover, hhidden, h⟩ | ⟨hover, hnoticed, h⟩ |
    ⟨hover, hfailure, h⟩ | ⟨hover, hnone, h⟩
  · refine ⟨?_, ?_, ?_, not_unnoticed_of_hard, hfixed⟩ <;>
      simp [answer, h, hover, hhidden, eq_comm]
  · refine ⟨?_, ?_, ?_, not_unnoticed_of_hard, hfixed⟩ <;>
      simp [answer, h, hover, hnoticed]
  · have hnoticed : ¬ Unnoticed b.remaining pieces := fun hhidden => hover hhidden.overflows
    refine ⟨?_, ?_, ?_, not_unnoticed_of_hard, hfixed⟩ <;>
      simp [answer, h, hover, hnoticed, hfailure]
  · have hnoticed : ¬ Unnoticed b.remaining pieces := fun hhidden => hover hhidden.overflows
    refine ⟨?_, ?_, ?_, not_unnoticed_of_hard, hfixed⟩ <;>
      simp [answer, h, hover, hnoticed, hnone, eq_comm]

/-- An overflow of a value that looks at its writes, one that only an empty text behind it takes
note of, a failure in front of what would not fit, and a field that does not fit. -/
theorem append_answer_cut :
    let b := zeroed 4
    let hard := [Piece.text "ab", .text "cde"]
    (∀ s, .softText s ∉ hard) ∧ ¬ Unnoticed b.remaining hard ∧
    (b.append hard).1 = .error .bufferFull ∧
    (b.append [.text "ab", .softText "cde", .text ""]).1 = .error .bufferFull ∧
    (b.append [.text "ab", .failure, .softText "cde"]).1 = .error .parameter ∧
    Edit.field "A" "b" ≠ .reset ∧ (∀ pieces, Edit.field "A" "b" ≠ .append pieces) ∧
    ((Edit.field "A" "b").apply b).1 = .error .bufferFull := by
  intro b hard
  have hhard : ∀ s, .softText s ∉ hard := by simp [hard]
  have hover : Overflows b.remaining hard :=
    ⟨.text "cde", [], .behind (by decide) (by decide +kernel) (.here (by decide +kernel))⟩
  have hlate : FirstUnfit b.remaining [.text "ab", .softText "cde", .text ""] (.softText "cde")
      [.text ""] := .behind (by decide) (by decide +kernel) (.here (by decide +kernel))
  have hreset : Edit.field "A" "b" ≠ .reset := by decide
  have happend : ∀ pieces, Edit.field "A" "b" ≠ .append pieces := nofun
  obtain ⟨hfull, -, -, hnoticed, hfixed⟩ := append_answer b hard
  obtain ⟨hfull', -⟩ := append_answer b [.text "ab", .softText "cde", .text ""]
  refine ⟨hhard, hnoticed hhard, hfull.2 ⟨hover, hnoticed hhard⟩, hfull'.2 ⟨⟨_, _, hlate⟩, ?_⟩,
    by decide +kernel, hreset, happend, (hfixed _ hreset happend).trans (by decide +kernel)⟩
  rw [hlate.unnoticed_iff]
  decide

/-- An overflow that no one takes note of is not reported. -/
theorem append_unreported :
    let b := zeroed 4
    Overflows b.remaining [.softText "abcdef"] ∧
    (b.append [.softText "abcdef"]).1 = .ok 4 ∧
    (b.append [.softText "abcdef"]).1 ≠ .error .bufferFull := by
  intro b
  exact ⟨⟨.softText "abcdef", [], .here (by decide +kernel)⟩, by decide +kernel, by decide +kernel⟩

end HeaderBuffer
end HttpExchange
