import HttpExchange.Proofs.AnnouncedLength

set_option autoImplicit false

/-! # How a body is delivered

Runs of reads on one connection, each with its own room. A body of announced length comes in
pieces that follow one another without a gap (`readMany_normal`), a chunked one chunk by chunk
(`readMany_chunked`); the reads behind the last piece answer with the end of the body, and the
connection is then left behind the body.
-/

namespace HttpExchange.BodyReader

variable {σ : Type} [Transport σ]

/-- Once the end was reported, reads report it again and leave the connection alone. -/
theorem readMany_finished {r : BodyReader} (hr : r.finished = true) (mode : Mode)
    {rooms : List Nat} (hrooms : ∀ room ∈ rooms, 0 < room) (c : σ) :
    readMany (rooms.map (mode, ·)) r c = (List.replicate rooms.length (.ok []), r, c) := by
  induction rooms with
  | nil => rfl
  | cons room rooms ih =>
      obtain ⟨hpos, hrooms'⟩ := List.forall_mem_cons.1 hrooms
      have hread : r.read mode room c = (.ok [], r, c) := by
        unfold read
        rw [if_neg (Nat.ne_of_gt hpos), if_pos hr]
      rw [List.map_cons, readMany_cons hread, ih hrooms']
      rfl

/-- Chunked reads, each with room for every chunk, answer with the chunks in order and then with
the end of the body. -/
theorem readMany_chunked {r : BodyReader} (hr : r.BetweenChunks) {c : σ} {s rest : Bytes}
    {width : Nat} {pieces : List Bytes} (hc : Delivers c s) (h : ChunkedBody width pieces s rest)
    (hword : width < Numeral.lengthBound) {rooms : List Nat}
    (hrooms : ∀ room ∈ rooms, 0 < room ∧ ∀ piece ∈ pieces, piece.length ≤ room) :
    ∃ r' c', readMany (rooms.map (.chunked, ·)) r c =
        ((pieces.take rooms.length).map .ok ++
          List.replicate (rooms.length - pieces.length) (.ok []), r', c') ∧
      (pieces.length < rooms.length → Delivers c' rest) := by
  induction h generalizing c rooms with
  | last hline =>
      cases rooms with
      | nil => exact ⟨r, c, by simp [readMany], by simp⟩
      | cons room rooms =>
          obtain ⟨⟨hpos, -⟩, hrooms'⟩ := List.forall_mem_cons.1 hrooms
          -- the end is reported, and reported again by every later read
          obtain ⟨c', hread, hd⟩ := read_last hr hline hpos hc
          have hend := readMany_finished (r := { r with finished := true }) rfl .chunked
            (fun m hm => (hrooms' m hm).1) c'
          refine ⟨{ r with finished := true }, c', ?_, fun _ => hd⟩
          rw [List.map_cons, readMany_cons hread, hend]
          rfl
  | @chunk line piece t rest pieces hline hpos hwidth _ ih =>
      cases rooms with
      | nil => exact ⟨r, c, by simp [readMany], by simp⟩
      | cons room rooms =>
          obtain ⟨⟨-, hroom⟩, hrooms'⟩ := List.forall_mem_cons.1 hrooms
          obtain ⟨c₁, hread, hd⟩ :=
            read_chunk hr hline hpos (hroom piece List.mem_cons_self)
              (Nat.lt_of_le_of_lt hwidth hword) hc
          have hfit : ∀ m ∈ rooms, 0 < m ∧ ∀ p ∈ pieces, p.length ≤ m := by
            intro m hm
            obtain ⟨hmpos, hmfit⟩ := hrooms' m hm
            exact ⟨hmpos, (List.forall_mem_cons.1 hmfit).2⟩
          obtain ⟨r', c', hrun, hend⟩ := ih hd hfit
          refine ⟨r', c', ?_, fun hlt => hend (by simpa using hlt)⟩
          rw [List.map_cons, readMany_cons hread, hrun]
          simp

/-- One read of a body of announced length gives a front part of it. -/
theorem read_normal {c : σ} {body rest : Bytes} {room : Nat} (hc : Delivers c (body ++ rest))
    (hroom : 0 < room) (hbody : body ≠ []) :
    ∃ piece more c', piece ≠ [] ∧ body = piece ++ more ∧
      (ofFraming (.contentLength body.length)).read .normal room c =
        (.ok piece, ofFraming (.contentLength more.length), c') ∧ Delivers c' (more ++ rest) := by
  have hlen : 0 < body.length := List.length_pos_iff.2 hbody
  obtain ⟨bs, t, c', hr, hs, hnil, hle, hd⟩ := hc.read (show 0 < min body.length room by omega)
  have hne : bs ≠ [] := fun h => hbody (List.append_eq_nil_iff.1 (hnil h)).1
  -- the read stays within the body, since no more than its length was asked for
  obtain ⟨more, rfl⟩ : bs <+: body := by
    refine List.prefix_of_prefix_length_le ⟨t, hs.symm⟩ (List.prefix_append body rest) ?_
    omega
  obtain rfl : more ++ rest = t := by simpa using hs
  refine ⟨bs, more, c', hne, rfl, ?_, hd⟩
  obtain ⟨b, bs, rfl⟩ := List.exists_cons_of_ne_nil hne
  rw [read_expecting rfl hroom c rfl hlen hr]
  simp [answerOf, bytesOf, Except.toOption, ofFraming]

/-- Reads of a body of announced length answer with pieces of it, in order and without a gap, and
then with its end. -/
theorem readMany_normal {c : σ} {body rest : Bytes} (hc : Delivers c (body ++ rest))
    {rooms : List Nat} (hrooms : ∀ room ∈ rooms, 0 < room) :
    ∃ (pieces : List Bytes) (m : Nat) (r' : BodyReader) (c' : σ),
      readMany (rooms.map (.normal, ·)) (ofFraming (.contentLength body.length)) c =
        (pieces.map .ok ++ List.replicate m (.ok []), r', c') ∧
      (∀ piece ∈ pieces, piece ≠ []) ∧ pieces.flatten <+: body ∧
      (m ≠ 0 → pieces.flatten = body ∧ Delivers c' rest) := by
  induction rooms generalizing c body with
  | nil => exact ⟨[], 0, _, c, rfl, by simp, by simp, by simp⟩
  | cons room rooms ih =>
      obtain ⟨hpos, hrooms'⟩ := List.forall_mem_cons.1 hrooms
      by_cases hbody : body = []
      · -- nothing is left: the end is reported without a read
        subst hbody
        have hread : (ofFraming (.contentLength 0)).read .normal room c =
            (.ok [], { ofFraming (.contentLength 0) with finished := true }, c) :=
          read_ended rfl hpos c (.inr rfl)
        have hend := readMany_finished (r := { ofFraming (.contentLength 0) with finished := true })
          rfl .normal hrooms' c
        refine ⟨[], rooms.length + 1, { ofFraming (.contentLength 0) with finished := true }, c,
          ?_, by simp, by simp, fun _ => ⟨rfl, hc⟩⟩
        rw [List.map_cons, List.length_nil, readMany_cons hread, hend]
        rfl
      · -- a front part comes, and the other reads are those of a shorter body
        obtain ⟨piece, more, c₁, hpiece, rfl, hread, hd⟩ := read_normal hc hpos hbody
        obtain ⟨pieces, m, r', c', hrun, hne, hfront, hend⟩ := ih hd hrooms'
        refine ⟨piece :: pieces, m, r', c', ?_, ?_, ?_, ?_⟩
        · rw [List.map_cons, readMany_cons hread, hrun]
          rfl
        · exact List.forall_mem_cons.2 ⟨hpiece, hne⟩
        · rw [List.flatten_cons]
          exact (List.prefix_append_right_inj piece).2 hfront
        · intro hm
          obtain ⟨hall, hd'⟩ := hend hm
          exact ⟨by rw [List.flatten_cons, hall], hd'⟩

end HttpExchange.BodyReader
