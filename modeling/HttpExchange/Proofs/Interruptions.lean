import HttpExchange.Proofs.Delivery

set_option autoImplicit false

/-! # Timeouts within a chunked body

A chunked read that times out keeps nothing of what it took: neither the part of a size line nor
the size of a chunk whose bytes it was reading. So reading goes on correctly behind a timeout only
if it struck where nothing had been taken, in front of a size line. `Resumable s t` names these
places of a stream `s` by what is left there; the places behind the whole body are among them.

With timeouts in these places only, each read gives the next chunk, or the end, or a timeout that
changes nothing (`read_chunk_or_timeout`, `read_last_or_timeout`), so runs of reads that are
repeated after every timeout deliver the body (`readMany_resumes`). A timeout within a chunk is
enough to have bytes of the body taken for a size line (`not_resumes_within_chunk`).
-/

namespace HttpExchange.BodyReader

open Ascii

variable {σ : Type} [Transport σ]

/-! ## Where reading can be resumed -/

/-- Of the stream `s`, which begins with a chunked body, `t` is left in front of a chunk or of the
last chunk, or behind the blank line of the trailer. -/
inductive Resumable : Bytes → Bytes → Prop
  | front (s : Bytes) : Resumable s s
  | chunk {line piece s t : Bytes} (hline : SizeLine line piece.length) (hpos : 1 ≤ piece.length)
      (h : Resumable s t) : Resumable (line ++ crlf ++ piece ++ crlf ++ s) t
  | behind {line trailer rest t : Bytes} (hline : SizeLine line 0)
      (hblank : afterBlankLine? trailer = some rest) (ht : t <:+ rest) :
      Resumable (line ++ crlf ++ trailer) t

theorem Resumable.suffix {s t : Bytes} (h : Resumable s t) : t <:+ s := by
  induction h with
  | front s => exact List.suffix_rfl
  | chunk _ _ _ ih => exact ih.trans (List.suffix_append _ _)
  | behind _ hblank ht =>
      exact (ht.trans (afterBlankLine?_suffix hblank)).trans (List.suffix_append _ _)

/-- With a chunk in front, the stream can be resumed there or behind the chunk. -/
theorem Resumable.of_chunk {line piece s t : Bytes} (hline : SizeLine line piece.length)
    (hpos : 1 ≤ piece.length) (h : Resumable (line ++ crlf ++ piece ++ crlf ++ s) t) :
    t = line ++ crlf ++ piece ++ crlf ++ s ∨ Resumable s t := by
  generalize hs : line ++ crlf ++ piece ++ crlf ++ s = u at h
  cases h with
  | front => exact .inl rfl
  | chunk hline' hpos' h =>
      rw [chunk_eq, chunk_eq] at hs
      obtain ⟨hlen, hs'⟩ := hline.front_inj hline' hs
      rw [List.append_assoc, List.append_assoc] at hs'
      obtain ⟨-, hrest⟩ := List.append_inj hs' hlen
      obtain rfl := List.append_cancel_left hrest
      exact .inr h
  | behind hline' =>
      rw [chunk_eq] at hs
      obtain ⟨hlen, -⟩ := hline.front_inj hline' hs
      omega

/-- With the last chunk in front, the stream can be resumed there or behind its trailer. -/
theorem Resumable.of_last {line trailer t : Bytes} (hline : SizeLine line 0)
    (h : Resumable (line ++ crlf ++ trailer) t) :
    t = line ++ crlf ++ trailer ∨ ∃ rest, afterBlankLine? trailer = some rest ∧ t <:+ rest := by
  generalize hs : line ++ crlf ++ trailer = u at h
  cases h with
  | front => exact .inl rfl
  | chunk hline' hpos' h =>
      rw [chunk_eq] at hs
      obtain ⟨hlen, -⟩ := hline.front_inj hline' hs
      omega
  | @behind _ trailer' rest _ hline' hblank ht =>
      obtain ⟨-, rfl⟩ := hline.front_inj hline' hs
      exact .inr ⟨rest, hblank, ht⟩

/-- The peer sends `s` and then closes; reads time out only where reading can be resumed. -/
def PausesBetweenChunks (c : σ) (s : Bytes) : Prop := Pauses (Resumable s) c s

/-- The size line in front can be taken, or the first read of it times out. Behind the line, the
stream pauses only where `q` holds, if this covers the other places to resume. -/
theorem PausesBetweenChunks.size_line {c : σ} {line v : Bytes} {q : Bytes → Prop}
    (hc : PausesBetweenChunks c (line ++ crlf ++ v))
    (hplaces : ∀ t, Resumable (line ++ crlf ++ v) t → t = line ++ crlf ++ v ∨ q t)
    (hq : ∀ t, q t → t.length ≤ v.length) :
    (∃ c', Transport.read c 1 = (.error .timeout, c') ∧
      PausesBetweenChunks c' (line ++ crlf ++ v)) ∨
    ∃ c', Takes c (line ++ crlf) c' ∧ Pauses q c' v := by
  obtain ⟨b, u, hu⟩ : ∃ b u, line ++ crlf = b :: u := List.exists_cons_of_ne_nil (by simp [crlf])
  rw [hu] at hc hplaces ⊢
  have hquiet : Quiet (Resumable (b :: u ++ v)) u v :=
    .of_front_or_behind fun t ht => (hplaces t ht).imp_right (hq t)
  rcases Pauses.takes_or_pause hc hquiet with htimeout | ⟨c', ht, hv⟩
  · exact .inl htimeout
  · refine .inr ⟨c', ht, hv.imp fun t hle hp => (hplaces t hp).resolve_left ?_⟩
    rintro rfl
    simp only [List.length_append, List.length_cons] at hle
    omega

/-! ## One read -/

section Read

variable {r : BodyReader} (hr : r.BetweenChunks) {c : σ} {line : Bytes} {room : Nat}
include hr

/-- With a chunk in front, a read gives the chunk, or it times out and can be repeated. -/
theorem BetweenChunks.read_chunk_or_timeout {piece s : Bytes} (hline : SizeLine line piece.length)
    (hpos : 1 ≤ piece.length) (hroom : piece.length ≤ room)
    (hword : piece.length < Numeral.lengthBound)
    (hc : PausesBetweenChunks c (line ++ crlf ++ piece ++ crlf ++ s)) :
    (∃ c', r.read .chunked room c = (.error .timeout, r, c') ∧
      PausesBetweenChunks c' (line ++ crlf ++ piece ++ crlf ++ s)) ∨
    ∃ c', r.read .chunked room c = (.ok piece, r, c') ∧ PausesBetweenChunks c' s := by
  have hplaces : ∀ t, Resumable (line ++ crlf ++ piece ++ crlf ++ s) t →
      t = line ++ crlf ++ piece ++ crlf ++ s ∨ Resumable s t :=
    fun t ht => ht.of_chunk hline hpos
  rw [chunk_eq] at hc hplaces ⊢
  have hbehind : ∀ t, Resumable s t → t.length ≤ (piece ++ crlf ++ s).length :=
    fun t ht => (ht.suffix.trans (List.suffix_append _ s)).length_le
  rcases hc.size_line hplaces hbehind with ⟨c', htimeout, hc'⟩ | ⟨c₁, ht, hd⟩
  · exact .inl ⟨c', hr.read_of_error (Nat.lt_of_lt_of_le hpos hroom)
      (readChunkSize_of_fault htimeout), hc'⟩
  · -- between the size line and what follows the chunk no place is resumable
    have hquiet : Quiet (Resumable s) (piece ++ crlf) s := by
      intro w hne _ hp
      have hlen := hp.suffix.length_le
      rw [List.length_append] at hlen
      exact hne (List.eq_nil_of_length_eq_zero (by omega))
    exact .inr (hr.read_data hline hpos hroom hword ht hd hquiet)

/-- With the last chunk in front, a read gives the end of the body, or it times out and can be
repeated. -/
theorem BetweenChunks.read_last_or_timeout {trailer : Bytes} (hline : SizeLine line 0)
    (hroom : 0 < room) (hc : PausesBetweenChunks c (line ++ crlf ++ trailer)) :
    (∃ c', r.read .chunked room c = (.error .timeout, r, c') ∧
      PausesBetweenChunks c' (line ++ crlf ++ trailer)) ∨
    ∃ c', r.read .chunked room c = (.ok [], { r with finished := true }, c') := by
  have hbehind : ∀ t, (∃ rest, afterBlankLine? trailer = some rest ∧ t <:+ rest) →
      t.length ≤ trailer.length := by
    rintro t ⟨rest, hblank, ht⟩
    exact (ht.trans (afterBlankLine?_suffix hblank)).length_le
  rcases hc.size_line (fun t ht => ht.of_last hline) hbehind with ⟨c', htimeout, hc'⟩ | ⟨c₁, ht, hd⟩
  · exact .inl ⟨c', hr.read_of_error hroom (readChunkSize_of_fault htimeout), hc'⟩
  · -- a pause in the trailer stands behind its blank line, which was read by then
    obtain ⟨c', hskip, -⟩ := @skipSection_pauses _ _ _ .lineStart _ _ hd (by
      rintro u t rfl ⟨rest, hblank, x, rfl⟩
      exact Option.isSome_of_eq_some (afterBlankLine?_of_append hblank))
    exact .inr ⟨c', hr.read_trailer hline hroom ht hskip⟩

end Read

/-! ## Reads in a row -/

/-- The answers are those of reads that have the pieces still to give: the pieces in order and then
ends, with timeouts in between. -/
inductive Delivering : List Bytes → List (Except Error Bytes) → Prop
  | stop (pieces : List Bytes) : Delivering pieces []
  | timeout {pieces : List Bytes} {answers : List (Except Error Bytes)}
      (h : Delivering pieces answers) : Delivering pieces (.error .timeout :: answers)
  | piece {piece : Bytes} {pieces : List Bytes} {answers : List (Except Error Bytes)}
      (h : Delivering pieces answers) : Delivering (piece :: pieces) (.ok piece :: answers)
  | ends (n : Nat) : Delivering [] (List.replicate n (.ok []))

section Delivering

variable {pieces : List Bytes} {answers : List (Except Error Bytes)} (h : Delivering pieces answers)
include h

theorem Delivering.eq_timeout {e : Error} (he : .error e ∈ answers) : e = .timeout := by
  induction h with
  | stop => cases he
  | timeout _ ih =>
      rcases List.mem_cons.1 he with he | he
      · exact Except.error.inj he
      · exact ih he
  | piece _ ih => exact ih ((List.mem_cons.1 he).resolve_left nofun)
  | ends n => cases List.eq_of_mem_replicate he

/-- Ends are delivered only behind all of the pieces. -/
theorem Delivering.delivered_eq :
    ∃ k m, delivered answers = pieces.take k ++ List.replicate m [] ∧
      (m ≠ 0 → pieces.length ≤ k) := by
  induction h with
  | stop pieces => exact ⟨0, 0, by simp [delivered], by simp⟩
  | timeout _ ih => exact ih
  | @piece piece pieces answers _ ih =>
      obtain ⟨k, m, hk, hm⟩ := ih
      refine ⟨k + 1, m, ?_, fun h0 => Nat.succ_le_succ (hm h0)⟩
      change piece :: delivered answers = _
      rw [hk]
      rfl
  | ends n =>
      refine ⟨0, n, ?_, fun _ => Nat.le_refl 0⟩
      induction n with
      | zero => rfl
      | succ n ih => exact congrArg ([] :: ·) ih

end Delivering

/-- Chunked reads, repeated after timeouts, give the chunks in order and then the end. -/
theorem readMany_delivering {width : Nat} (hword : width < Numeral.lengthBound) {r : BodyReader}
    (hr : r.BetweenChunks) {c : σ} {s rest : Bytes} {pieces : List Bytes}
    (h : ChunkedBody width pieces s rest) (hc : PausesBetweenChunks c s) {rooms : List Nat}
    (hrooms : ∀ room ∈ rooms, 0 < room ∧ ∀ piece ∈ pieces, piece.length ≤ room) :
    Delivering pieces (readMany (rooms.map (.chunked, ·)) r c).1 := by
  induction rooms generalizing c s pieces with
  | nil => exact .stop pieces
  | cons room rooms ih =>
      obtain ⟨⟨hpos, hfit⟩, hrooms'⟩ := List.forall_mem_cons.1 hrooms
      rw [List.map_cons]
      cases h with
      | last hline =>
          rcases hr.read_last_or_timeout hline hpos hc with ⟨c', hread, hc'⟩ | ⟨c', hread⟩
          · rw [readMany_cons hread]
            exact (ih (.last hline) hc' hrooms').timeout
          · have hend := readMany_finished (r := { r with finished := true }) rfl .chunked
              (fun m hm => (hrooms' m hm).1) c'
            rw [readMany_cons hread, hend]
            exact .ends (rooms.length + 1)
      | @chunk line piece t _ pieces hline hone hwidth h =>
          have hlong := Nat.lt_of_le_of_lt hwidth hword
          have hroom := hfit piece List.mem_cons_self
          rcases hr.read_chunk_or_timeout hline hone hroom hlong hc with
            ⟨c', hread, hc'⟩ | ⟨c', hread, hc'⟩
          · -- a pause in front of the chunk leaves the reader where it was
            rw [readMany_cons hread]
            exact (ih (.chunk hline hone hwidth h) hc' hrooms').timeout
          · rw [readMany_cons hread]
            refine (ih h hc' fun m hm => ?_).piece
            obtain ⟨hmpos, hmfit⟩ := hrooms' m hm
            exact ⟨hmpos, (List.forall_mem_cons.1 hmfit).2⟩

/-- **Chunked reading goes on behind a timeout between chunks.** If the stream begins with a chunked
body and pauses only in front of a size line or behind the body, and if every read has room for
every chunk, then no read of a new reader fails otherwise than with the timeout of a pause. The
reads that succeed give the chunks in order, so that what was delivered is always a front part of
the body, and they give the end only behind the last chunk. -/
theorem readMany_resumes {width : Nat} (hword : width < Numeral.lengthBound) {c : σ}
    {s rest : Bytes} {pieces : List Bytes} (h : ChunkedBody width pieces s rest)
    (hc : PausesBetweenChunks c s) (framing : Framing) {rooms : List Nat}
    (hrooms : ∀ room ∈ rooms, 0 < room ∧ ∀ piece ∈ pieces, piece.length ≤ room) :
    let answers := (readMany (rooms.map (.chunked, ·)) (ofFraming framing) c).1
    (∀ e, .error e ∈ answers → e = .timeout) ∧
    (delivered answers).flatten <+: pieces.flatten ∧
    ∃ k m, delivered answers = pieces.take k ++ List.replicate m [] ∧
      (m ≠ 0 → pieces.length ≤ k) := by
  intro answers
  have hrun := readMany_delivering hword (betweenChunks_ofFraming framing) h hc hrooms
  obtain ⟨k, m, hk, hm⟩ := hrun.delivered_eq
  refine ⟨fun e he => hrun.eq_timeout he, ?_, k, m, hk, hm⟩
  refine ⟨(pieces.drop k).flatten, ?_⟩
  have hempty : (List.replicate m ([] : Bytes)).flatten = [] := by simp
  calc (delivered answers).flatten ++ (pieces.drop k).flatten
      = (pieces.take k).flatten ++ (pieces.drop k).flatten := by
        rw [hk, List.flatten_append, hempty, List.append_nil]
    _ = pieces.flatten := by rw [← List.flatten_append, List.take_append_drop]

/-- A body of one chunk that pauses in front of both of its size lines and behind its end. -/
def pausedWiki : Script where
  steps := [.fault .timeout, .data (Text.encode "4\r\nWi"), .data (Text.encode "ki\r\n"),
    .fault .timeout, .data (Text.encode "0\r\n\r\n"), .fault .timeout]

theorem readMany_resumes_paused_wiki :
    let rooms := [8, 4, 8, 8]
    let answers := (readMany (rooms.map (.chunked, ·)) (ofFraming .chunked) pausedWiki).1
    8 < Numeral.lengthBound ∧ ChunkedBody 8 [Text.encode "Wiki"] pausedWiki.stream [] ∧
    PausesBetweenChunks pausedWiki pausedWiki.stream ∧
    (∀ room ∈ rooms, 0 < room ∧ ∀ piece ∈ [Text.encode "Wiki"], piece.length ≤ room) ∧
    answers = [.error .timeout, .ok (Text.encode "Wiki"), .error .timeout, .ok []] ∧
    (delivered answers).flatten <+: Text.encode "Wiki" := by
  intro rooms answers
  have hsize : SizeLine (Text.encode "4") (Text.encode "Wiki").length :=
    ⟨by decide +kernel, by decide +kernel, [4], by decide +kernel, by decide, by decide +kernel⟩
  have hzero : SizeLine (Text.encode "0") 0 :=
    ⟨by decide +kernel, by decide +kernel, [0], by decide +kernel, by decide, by decide +kernel⟩
  have hlast : Text.encode "0" ++ crlf ++ Text.encode "\r\n" = Text.encode "0\r\n\r\n" := by
    decide +kernel
  have hstream : pausedWiki.stream = Text.encode "4" ++ crlf ++ Text.encode "Wiki" ++ crlf ++
      (Text.encode "0" ++ crlf ++ Text.encode "\r\n") := by decide +kernel
  have hblank : afterBlankLine? (Text.encode "\r\n") = some [] := by decide +kernel
  have hrest : ([] : Bytes) = (afterBlankLine? (Text.encode "\r\n")).getD [] := by rw [hblank]; rfl
  have hbody : ChunkedBody 8 [Text.encode "Wiki"] pausedWiki.stream [] := by
    rw [hstream, hrest]
    exact .chunk hsize (by decide +kernel) (by decide +kernel) (.last hzero)
  have hpauses : PausesBetweenChunks pausedWiki pausedWiki.stream := by
    refine Script.PausesAt.pauses ⟨rfl, .front _, by decide +kernel, by decide +kernel, rfl, ?_,
      by decide +kernel, rfl, ?_, trivial⟩
    · rw [hstream]
      refine .chunk hsize (by decide +kernel) ?_
      rw [hlast]
      exact .front _
    · rw [hstream]
      refine .chunk hsize (by decide +kernel) ?_
      exact .behind hzero hblank List.suffix_rfl
  have hword : 8 < Numeral.lengthBound := by decide
  have hrooms : ∀ room ∈ rooms, 0 < room ∧ ∀ piece ∈ [Text.encode "Wiki"], piece.length ≤ room := by
    decide +kernel
  obtain ⟨-, hfront, -⟩ := readMany_resumes hword hbody hpauses .chunked hrooms
  exact ⟨hword, hbody, hpauses, hrooms, by decide +kernel, by simpa using hfront⟩

/-- A body of one chunk that pauses between the size line and the bytes of the chunk. -/
def tornChunk : Script where
  steps := [.data (Text.encode "b\r\n"), .fault .timeout,
    .data (Text.encode "1\r\nZ\r\n0\r\n\r\n"), .data (Text.encode "\r\n0\r\n\r\n")]

/-- Behind such a pause the bytes of the chunk are read as size lines, and what is delivered is no
part of the body. -/
theorem not_resumes_within_chunk :
    let payload := Text.encode "1\r\nZ\r\n0\r\n\r\n"
    let answers := (readMany ([16, 16, 16].map (.chunked, ·)) (ofFraming .chunked) tornChunk).1
    ChunkedBody 16 [payload] tornChunk.stream [] ∧
    Pauses (fun _ => True) tornChunk tornChunk.stream ∧
    answers = [.error .timeout, .ok (Text.encode "Z"), .ok []] ∧
    ¬ (delivered answers).flatten <+: payload := by
  intro payload answers
  have hsize : SizeLine (Text.encode "b") payload.length :=
    ⟨by decide +kernel, by decide +kernel, [11], by decide +kernel, by decide, by decide +kernel⟩
  have hzero : SizeLine (Text.encode "0") 0 :=
    ⟨by decide +kernel, by decide +kernel, [0], by decide +kernel, by decide, by decide +kernel⟩
  refine ⟨?_, ?_, by decide +kernel, by decide +kernel⟩
  · have hstream : tornChunk.stream = Text.encode "b" ++ crlf ++ payload ++ crlf ++
        (Text.encode "0" ++ crlf ++ Text.encode "\r\n") := by decide +kernel
    have hrest : ([] : Bytes) = (afterBlankLine? (Text.encode "\r\n")).getD [] := by decide +kernel
    rw [hstream, hrest]
    exact .chunk hsize (by decide +kernel) (by decide +kernel) (.last hzero)
  · exact Script.PausesAt.pauses ⟨by decide +kernel, rfl, trivial, by decide +kernel,
      by decide +kernel, trivial⟩

end HttpExchange.BodyReader
