import HttpExchange.Body
import HttpExchange.Proofs.Reading

set_option autoImplicit false

/-! # The chunked grammar

`ChunkedBody room pieces s rest` says that `s` begins with a chunked body whose chunks are
`pieces`, none of them longer than `room`, and that `rest` is what follows the body. Reading
chunks accepts exactly this grammar. It is shown read by read: what a read that succeeds has found
on the connection (`read_chunked_sound`), and what a read gives if a chunk or the last chunk is
there (`read_chunk`, `read_last`). -/

namespace HttpExchange

open Ascii

variable {σ : Type} [Transport σ]

/-! ## The grammar -/

def HexNumeral (bs : Bytes) (n : Nat) : Prop :=
  ∃ digits, bs.mapM hexDigit? = some digits ∧ digits ≠ [] ∧ Numeral.value 16 digits = n

/-- A line, without its terminator, that announces `n` bytes: a numeral, with blanks around it,
up to the first semicolon. -/
structure SizeLine (line : Bytes) (n : Nat) : Prop where
  unbroken : Unbroken line
  length_le : line.length ≤ 127
  numeral : HexNumeral (trim (line.takeWhile (· != semicolon))) n

/-- `s` begins with a chunked body of these chunks, and `rest` follows it. The trailer goes up
to its blank line, or to the end of `s` if it has none. -/
inductive ChunkedBody (room : Nat) : List Bytes → Bytes → Bytes → Prop
  | last {line trailer : Bytes} (hline : SizeLine line 0) :
      ChunkedBody room [] (line ++ crlf ++ trailer) ((afterBlankLine? trailer).getD [])
  | chunk {line piece s rest : Bytes} {pieces : List Bytes} (hline : SizeLine line piece.length)
      (hpos : 1 ≤ piece.length) (hroom : piece.length ≤ room)
      (h : ChunkedBody room pieces s rest) :
      ChunkedBody room (piece :: pieces) (line ++ crlf ++ piece ++ crlf ++ s) rest

/-- A chunk and what follows it, split behind its size line. -/
theorem chunk_eq (line piece s : Bytes) :
    line ++ crlf ++ piece ++ crlf ++ s = line ++ crlf ++ (piece ++ crlf ++ s) := by
  simp only [List.append_assoc]

theorem ChunkedBody.piece_ne_nil {room : Nat} {pieces : List Bytes} {s rest : Bytes}
    (h : ChunkedBody room pieces s rest) : ∀ piece ∈ pieces, piece ≠ [] := by
  induction h with
  | last => simp
  | chunk hline hpos _ _ ih => exact List.forall_mem_cons.2 ⟨List.ne_nil_of_length_pos hpos, ih⟩

/-! ## Size lines -/

/-- A chunk size is read exactly or refused. -/
theorem parseChunkSize_eq_some_iff {line : Bytes} {n : Nat} :
    parseChunkSize line = some n ↔
      HexNumeral (trim (line.takeWhile (· != semicolon))) n ∧ n < Numeral.lengthBound := by
  have hbound : 0 < Numeral.lengthBound := by decide
  rw [parseChunkSize, Numeral.hexadecimal?, Option.bind_eq_some_iff]
  simp only [Numeral.readBelow_eq_some_iff (by decide : 0 < 16) hbound]
  constructor
  · rintro ⟨digits, hd, hne, hv, hlt⟩
    exact ⟨⟨digits, hd, hne, hv⟩, hlt⟩
  · rintro ⟨⟨digits, hd, hne, hv⟩, hlt⟩
    exact ⟨digits, hd, hne, hv, hlt⟩

theorem HexNumeral.unique {bs : Bytes} {m n : Nat} (hm : HexNumeral bs m) (hn : HexNumeral bs n) :
    m = n := by
  obtain ⟨digits, hd, -, rfl⟩ := hm
  obtain ⟨digits', hd', -, rfl⟩ := hn
  rw [hd] at hd'
  rw [Option.some.inj hd']

/-- A stream begins with one size line at most. -/
theorem SizeLine.front_inj {line line' x x' : Bytes} {m n : Nat} (hm : SizeLine line m)
    (hn : SizeLine line' n) (h : line ++ crlf ++ x = line' ++ crlf ++ x') : m = n ∧ x = x' := by
  have hx := afterLine?_line hm.unbroken x
  rw [h, afterLine?_line hn.unbroken] at hx
  obtain rfl := Option.some.inj hx
  obtain rfl : line = line' := by simpa using h
  exact ⟨hm.numeral.unique hn.numeral, rfl⟩

theorem readChunkSize_sound {c c' : σ} {s : Bytes} {n : Nat} (hc : Delivers c s)
    (h : readChunkSize c = (.ok n, c')) :
    ∃ line t, SizeLine line n ∧ s = line ++ crlf ++ t ∧ Delivers c' t := by
  unfold readChunkSize at h
  simp only at h
  split at h
  next => cases h
  next => cases h
  next => cases h
  next hstop =>
    -- the line ended in its terminator, since every other stop is an error
    obtain ⟨line, t, hline, hu, rfl, hd⟩ := delivers_feed.byteFeed.gather_crlf hc hstop
    have hlen := gather_stored_length_le false maxChunkLine c
    rw [hline] at h hlen
    rw [List.dropLast_concat] at h
    split at h
    next size hsize =>
      cases h
      refine ⟨line, t, ⟨hu, ?_, (parseChunkSize_eq_some_iff.1 hsize).1⟩, rfl, hd⟩
      simp [maxChunkLine] at hlen
      omega
    next => cases h

/-- A size line that can be taken is read. -/
theorem readChunkSize_of_takes {c c' : σ} {line : Bytes} {n : Nat} (hline : SizeLine line n)
    (hn : n < Numeral.lengthBound) (ht : Takes c (line ++ crlf) c') :
    readChunkSize c = (.ok n, c') := by
  have hlen : line.length < maxChunkLine := Nat.lt_succ_of_le hline.length_le
  have hg : gather false maxChunkLine c = ⟨.crlf, line ++ [cr], c'⟩ :=
    gather_line (p := []) ht hline.unbroken (by simp) hlen
  rw [readChunkSize, hg]
  simp [parseChunkSize_eq_some_iff.2 ⟨hline.numeral, hn⟩]

/-- Where the first byte of a size line cannot be read, nothing is. -/
theorem readChunkSize_of_fault {c c' : σ} {f : Fault}
    (hr : Transport.read c 1 = (.error f, c')) :
    readChunkSize c = (.error (.ofFault f), c') := by
  have hg : gather false maxChunkLine c = ⟨.fault f, [], c'⟩ := by
    rw [show maxChunkLine = 127 + 1 from rfl, gather, hr]
  rw [readChunkSize, hg]

/-! ## Exact reads -/

theorem readExact_sound {c c' : σ} {s bs : Bytes} {n : Nat} (hc : Delivers c s)
    (h : readExact c n = (.ok bs, c')) : ∃ t, s = bs ++ t ∧ Delivers c' t := by
  fun_induction readExact c n generalizing s bs with
  | case1 c =>
      cases h
      exact ⟨s, rfl, hc⟩
  | case2 => cases h
  | case3 => cases h
  | case4 c n b ds c₁ hr more c₂ hm ih =>
      -- a short read, and the rest of the bytes behind it
      cases h
      obtain ⟨-, t, rfl, hd⟩ := delivers_feed.read_ok hc (Nat.succ_pos n) hr
      obtain ⟨t', rfl, hd'⟩ := ih hd hm
      exact ⟨t', by simp, hd'⟩
  | case5 => cases h

theorem readExact_complete {pause : Bytes → Prop} {c : σ} {bs t : Bytes}
    (hc : Pauses pause c (bs ++ t)) (hq : Quiet pause bs t) :
    ∃ c', readExact c bs.length = (.ok bs, c') ∧ Pauses pause c' t := by
  induction hn : bs.length using Nat.strongRecOn generalizing c bs with
  | ind n ih =>
      cases bs with
      | nil =>
          subst hn
          exact ⟨c, readExact_zero c, hc⟩
      | cons b bs =>
          rcases hc.read (Nat.succ_pos bs.length) with ⟨hp, -⟩ | ⟨p, t', c₁, hr, hs, hnil, hle, hd⟩
          · exact absurd hp (hq (b :: bs) (List.cons_ne_nil b bs) List.suffix_rfl)
          cases p with
          | nil => cases hnil rfl
          | cons b' p =>
              obtain ⟨rfl, hs'⟩ : b = b' ∧ bs ++ t = p ++ t' := by simpa using hs
              -- a read gives no more than was asked for, so it ends within `bs`
              have hp : p <+: bs ++ t := ⟨t', hs'.symm⟩
              have hlen : p.length ≤ bs.length := by simpa using hle
              obtain ⟨q, rfl⟩ := List.prefix_of_prefix_length_le hp (List.prefix_append bs t) hlen
              obtain rfl : q ++ t = t' := by simpa using hs'
              have hq' : Quiet pause q t := @Quiet.of_append_right _ (b :: p) q t hq
              obtain ⟨c', hrest, hd'⟩ := ih q.length (by simp at hn; omega) hd hq' rfl
              refine ⟨c', ?_, hd'⟩
              subst hn
              rw [List.length_cons, readExact, hr]
              simp only [List.length_append, Nat.add_sub_cancel_left, hrest, List.cons_append]

theorem length_readChunkData {c c' : σ} {size : Nat} {bs : Bytes}
    (h : readChunkData c size = (.ok bs, c')) : bs.length = size := by
  unfold readChunkData at h
  split at h
  next => cases h
  next h₁ =>
    split at h
    next => cases h
    next =>
      obtain ⟨h, -⟩ := Prod.mk.inj h
      split at h
      · cases h
        exact readExact_length h₁
      · cases h

theorem readChunkData_sound {c c' : σ} {s bs : Bytes} {n : Nat} (hc : Delivers c s)
    (h : readChunkData c n = (.ok bs, c')) :
    bs.length = n ∧ ∃ t, s = bs ++ crlf ++ t ∧ Delivers c' t := by
  unfold readChunkData at h
  split at h
  next => cases h
  next piece c₁ h₁ =>
    split at h
    next => cases h
    next ending c₂ h₂ =>
      obtain ⟨h, rfl⟩ := Prod.mk.inj h
      split at h
      next hend =>
        cases h
        obtain ⟨t, rfl, hd⟩ := readExact_sound hc h₁
        obtain ⟨t', rfl, hd'⟩ := readExact_sound hd h₂
        exact ⟨readExact_length h₁, t', by rw [hend, List.append_assoc], hd'⟩
      next => cases h

theorem readChunkData_complete {pause : Bytes → Prop} {c : σ} {bs t : Bytes}
    (hc : Pauses pause c (bs ++ crlf ++ t)) (hq : Quiet pause (bs ++ crlf) t) :
    ∃ c', readChunkData c bs.length = (.ok bs, c') ∧ Pauses pause c' t := by
  rw [List.append_assoc] at hc
  obtain ⟨c₁, h₁, hd⟩ := readExact_complete hc hq.of_append_left
  obtain ⟨c₂, h₂, hd'⟩ := readExact_complete hd hq.of_append_right
  exact ⟨c₂, by rw [readChunkData, h₁]; simp [h₂], hd'⟩

/-! ## One read of a body -/

namespace BodyReader

/-- The reader stands between two chunks: none is pending, and the end was not reported. -/
def BetweenChunks (r : BodyReader) : Prop := r.pendingChunk = none ∧ r.finished = false

/-- A new reader stands in front of the first chunk, however the body was announced. -/
theorem betweenChunks_ofFraming (framing : Framing) : (ofFraming framing).BetweenChunks := by
  cases framing <;> exact ⟨rfl, rfl⟩

section BetweenChunks

variable {r : BodyReader} (hr : r.BetweenChunks) {room : Nat} (hroom : 0 < room)
include hr hroom

theorem BetweenChunks.read_of_size {c c' : σ} {size : Nat} (h : readChunkSize c = (.ok size, c')) :
    r.read .chunked room c = r.readSized size room c' := by
  obtain ⟨hpending, hfinished⟩ := hr
  rw [read, if_neg (Nat.ne_of_gt hroom), if_neg (by simp [hfinished])]
  simp only [readChunk, hpending, h]

theorem BetweenChunks.read_of_error {c c' : σ} {e : Error} (h : readChunkSize c = (.error e, c')) :
    r.read .chunked room c = (.error e, r, c') := by
  obtain ⟨hpending, hfinished⟩ := hr
  rw [read, if_neg (Nat.ne_of_gt hroom), if_neg (by simp [hfinished])]
  simp only [readChunk, hpending, h]

end BetweenChunks

/-- What a chunked read that succeeds has found on the connection: a chunk, or the last chunk
with its trailer. -/
theorem read_chunked_sound {r r' : BodyReader} (hr : r.BetweenChunks) {c c' : σ} {s piece : Bytes}
    {room : Nat} (hc : Delivers c s) (hroom : 0 < room)
    (h : r.read .chunked room c = (.ok piece, r', c')) :
    (piece = [] ∧ ∃ line t, SizeLine line 0 ∧ s = line ++ crlf ++ t ∧
      Delivers c' ((afterBlankLine? t).getD [])) ∨
    (1 ≤ piece.length ∧ piece.length ≤ room ∧ r' = r ∧
      ∃ line t, SizeLine line piece.length ∧ s = line ++ crlf ++ piece ++ crlf ++ t ∧
        Delivers c' t) := by
  cases hsize : readChunkSize c with
  | mk answer c₁ =>
      cases answer with
      | error e =>
          rw [hr.read_of_error hroom hsize] at h
          cases h
      | ok size =>
          rw [hr.read_of_size hroom hsize, readSized] at h
          obtain ⟨line, t, hline, rfl, hd⟩ := readChunkSize_sound hc hsize
          split at h
          next hzero =>
            -- the last chunk: its trailer is skipped up to the blank line
            subst hzero
            obtain ⟨c₂, hskip, hd'⟩ := skipSection_delivers .lineStart hd
            rw [hskip] at h
            cases h
            exact .inl ⟨rfl, line, t, hline, rfl, hd'⟩
          next hzero =>
            split at h
            next => cases h
            next hfits =>
              cases hdata : readChunkData c₁ size with
              | mk result c₂ =>
                  rw [hdata] at h
                  cases h
                  obtain ⟨rfl, t', rfl, hd'⟩ := readChunkData_sound hd hdata
                  refine .inr ⟨by omega, by omega, rfl, line, t', hline, by simp, hd'⟩

/-- The read of a chunk whose size line can be taken, if no pause stands behind that line. -/
theorem BetweenChunks.read_data {pause : Bytes → Prop} {r : BodyReader} (hr : r.BetweenChunks)
    {c c₁ : σ} {line piece t : Bytes} {room : Nat} (hline : SizeLine line piece.length)
    (hpos : 1 ≤ piece.length) (hroom : piece.length ≤ room)
    (hword : piece.length < Numeral.lengthBound) (ht : Takes c (line ++ crlf) c₁)
    (hc : Pauses pause c₁ (piece ++ crlf ++ t)) (hq : Quiet pause (piece ++ crlf) t) :
    ∃ c', r.read .chunked room c = (.ok piece, r, c') ∧ Pauses pause c' t := by
  obtain ⟨c', hdata, hd⟩ := readChunkData_complete hc hq
  have hsize := readChunkSize_of_takes hline hword ht
  refine ⟨c', ?_, hd⟩
  rw [hr.read_of_size (Nat.lt_of_lt_of_le hpos hroom) hsize, readSized, if_neg (by omega),
    if_neg (by omega), hdata]

/-- The read of the last chunk, if its size line can be taken and its trailer be skipped. -/
theorem BetweenChunks.read_trailer {r : BodyReader} (hr : r.BetweenChunks) {c c₁ c' : σ}
    {line : Bytes} {room : Nat} {found : Bool} (hline : SizeLine line 0) (hroom : 0 < room)
    (ht : Takes c (line ++ crlf) c₁) (hskip : skipSection .lineStart c₁ = (.ok found, c')) :
    r.read .chunked room c = (.ok [], { r with finished := true }, c') := by
  have hsize := readChunkSize_of_takes hline (by decide) ht
  rw [hr.read_of_size hroom hsize, readSized, if_pos rfl, hskip]

/-- The read of a chunk that is there. -/
theorem read_chunk {r : BodyReader} (hr : r.BetweenChunks) {c : σ} {line piece t : Bytes}
    {room : Nat} (hline : SizeLine line piece.length) (hpos : 1 ≤ piece.length)
    (hroom : piece.length ≤ room) (hword : piece.length < Numeral.lengthBound)
    (hc : Delivers c (line ++ crlf ++ piece ++ crlf ++ t)) :
    ∃ c', r.read .chunked room c = (.ok piece, r, c') ∧ Delivers c' t := by
  rw [chunk_eq] at hc
  obtain ⟨c₁, ht, hd⟩ := hc.takes
  obtain ⟨c', hread, hd'⟩ := hr.read_data hline hpos hroom hword ht (delivers_iff_pauses.1 hd)
    fun _ _ _ => id
  exact ⟨c', hread, delivers_iff_pauses.2 hd'⟩

/-- The read of the last chunk and its trailer. -/
theorem read_last {r : BodyReader} (hr : r.BetweenChunks) {c : σ} {line t : Bytes} {room : Nat}
    (hline : SizeLine line 0) (hroom : 0 < room) (hc : Delivers c (line ++ crlf ++ t)) :
    ∃ c', r.read .chunked room c = (.ok [], { r with finished := true }, c') ∧
      Delivers c' ((afterBlankLine? t).getD []) := by
  obtain ⟨c₁, ht, hd⟩ := hc.takes
  obtain ⟨c', hskip, hd'⟩ := skipSection_delivers .lineStart hd
  exact ⟨c', hr.read_trailer hline hroom ht hskip, hd'⟩

/-! ## Reads in a row -/

/-- Reads one after another, each with its mode and its room: their answers, and the reader and
the connection afterwards. Reading goes on after errors. -/
def readMany : List (Mode × Nat) → BodyReader → σ →
    List (Except Error Bytes) × BodyReader × σ
  | [], r, c => ([], r, c)
  | (mode, room) :: reads, r, c =>
      match r.read mode room c with
      | (answer, r, c) =>
          match readMany reads r c with
          | (answers, r, c) => (answer :: answers, r, c)

theorem readMany_cons {mode : Mode} {room : Nat} {reads : List (Mode × Nat)} {r r₁ : BodyReader}
    {c c₁ : σ} {answer : Except Error Bytes} (h : r.read mode room c = (answer, r₁, c₁)) :
    readMany ((mode, room) :: reads) r c =
      (answer :: (readMany reads r₁ c₁).1, (readMany reads r₁ c₁).2) := by
  rw [readMany, h]

theorem length_readMany (reads : List (Mode × Nat)) (r : BodyReader) (c : σ) :
    (readMany reads r c).1.length = reads.length := by
  induction reads generalizing r c with
  | nil => rfl
  | cons read reads ih =>
      obtain ⟨mode, room⟩ := read
      rw [readMany_cons rfl, List.length_cons, ih, List.length_cons]

def delivered (answers : List (Except Error Bytes)) : List Bytes :=
  answers.filterMap Except.toOption

/-- Reads that answer with pieces and then the end of the body have followed the grammar. -/
theorem chunkedBody_of_readMany {r : BodyReader} (hr : r.BetweenChunks) {c : σ} {s : Bytes}
    {room : Nat} {pieces : List Bytes} (hc : Delivers c s) (hroom : 0 < room)
    (hne : ∀ piece ∈ pieces, piece ≠ [])
    (hrun : (readMany (List.replicate (pieces.length + 1) (.chunked, room)) r c).1 =
      pieces.map .ok ++ [.ok []]) :
    ∃ rest, ChunkedBody room pieces s rest := by
  induction pieces generalizing c s with
  | nil =>
      cases hread : r.read .chunked room c with
      | mk answer rc =>
          rw [List.length_nil, List.replicate_succ, readMany_cons hread] at hrun
          obtain rfl := (List.cons.inj hrun).1
          rcases read_chunked_sound hr hc hroom hread with ⟨-, line, t, hline, rfl, -⟩ | ⟨hpos, -⟩
          · exact ⟨_, .last hline⟩
          · exact absurd hpos (by simp)
  | cons piece pieces ih =>
      cases hread : r.read .chunked room c with
      | mk answer rc =>
          obtain ⟨r', c'⟩ := rc
          rw [List.length_cons, List.replicate_succ, readMany_cons hread] at hrun
          obtain ⟨rfl, hrun'⟩ := List.cons.inj hrun
          obtain ⟨hpiece, hne'⟩ := List.forall_mem_cons.1 hne
          -- the first read found a chunk, since an empty piece would have been the end
          obtain ⟨hpos, hle, rfl, line, t, hline, rfl, hd⟩ :=
            (read_chunked_sound hr hc hroom hread).resolve_left fun h => hpiece h.1
          obtain ⟨rest, hrest⟩ := ih hd hne' hrun'
          exact ⟨rest, .chunk hline hpos hle hrest⟩

/-- Where the grammar is followed, the reads answer with its pieces and then the end. -/
theorem readMany_of_chunkedBody {r : BodyReader} (hr : r.BetweenChunks) {c : σ} {s rest : Bytes}
    {room : Nat} {pieces : List Bytes} (hroom : 0 < room) (hword : room < Numeral.lengthBound)
    (hc : Delivers c s) (h : ChunkedBody room pieces s rest) :
    ∃ c', readMany (List.replicate (pieces.length + 1) (.chunked, room)) r c =
        (pieces.map .ok ++ [.ok []], { r with finished := true }, c') ∧ Delivers c' rest := by
  induction h generalizing c with
  | last hline =>
      obtain ⟨c', hread, hd⟩ := read_last hr hline hroom hc
      exact ⟨c', by simp [readMany_cons hread, readMany], hd⟩
  | chunk hline hpos hle _ ih =>
      obtain ⟨c₁, hread, hd⟩ := read_chunk hr hline hpos hle (Nat.lt_of_le_of_lt hle hword) hc
      obtain ⟨c', hrun, hd'⟩ := ih hd
      refine ⟨c', ?_, hd'⟩
      rw [List.length_cons, List.replicate_succ, readMany_cons hread, hrun]
      rfl

/-- **The chunk decoder accepts exactly the chunked grammar.** Chunked reads of a new reader, with
`room` bytes of room, a length in memory, give non-empty pieces and then the end of the body if and
only if the stream begins with a chunked body of these pieces. The connection is then left right
behind that body. -/
theorem readMany_chunked_iff {c : σ} {s : Bytes} (hc : Delivers c s) (framing : Framing)
    {room : Nat} (hroom : 1 ≤ room) (hword : room < Numeral.lengthBound) (pieces : List Bytes) :
    let run := readMany (List.replicate (pieces.length + 1) (.chunked, room)) (ofFraming framing) c
    ((∀ piece ∈ pieces, piece ≠ []) ∧ run.1 = pieces.map .ok ++ [.ok []] ↔
        ∃ rest, ChunkedBody room pieces s rest) ∧
      ∀ rest, ChunkedBody room pieces s rest → Delivers run.2.2 rest := by
  intro run
  have hr := betweenChunks_ofFraming framing
  have hrun : ∀ rest, ChunkedBody room pieces s rest →
      run.1 = pieces.map .ok ++ [.ok []] ∧ Delivers run.2.2 rest := by
    intro rest h
    obtain ⟨c', hanswers, hd⟩ := readMany_of_chunkedBody hr hroom hword hc h
    simp only [run, hanswers]
    exact ⟨trivial, hd⟩
  refine ⟨⟨?_, ?_⟩, fun rest h => (hrun rest h).2⟩
  · rintro ⟨hne, hanswers⟩
    exact chunkedBody_of_readMany hr hc hroom hne hanswers
  · rintro ⟨rest, h⟩
    exact ⟨h.piece_ne_nil, (hrun rest h).1⟩

/-- A chunked body in three pieces: an extension, a padded zero, a trailer, and bytes behind. -/
def wikiBody : Script where
  steps := [.data (Text.encode "4;a=b\r\nWi"), .data (Text.encode "ki\r\n 00 \r"),
    .data (Text.encode "\nX: y\r\n\r\nrest")]

theorem readMany_chunked_iff_wiki :
    let run := readMany [(.chunked, 4), (.chunked, 4)] (ofFraming .chunked) wikiBody
    Delivers wikiBody wikiBody.stream ∧ 1 ≤ 4 ∧ 4 < Numeral.lengthBound ∧
    ChunkedBody 4 [Text.encode "Wiki"] wikiBody.stream (Text.encode "rest") ∧
    run.1 = [.ok (Text.encode "Wiki"), .ok []] ∧ Delivers run.2.2 (Text.encode "rest") := by
  intro run
  have hd : Delivers wikiBody wikiBody.stream := Script.Steady.delivers (by decide +kernel)
  have hsize : SizeLine (Text.encode "4;a=b") (Text.encode "Wiki").length :=
    ⟨by decide +kernel, by decide +kernel, [4], by decide +kernel, by decide, by decide +kernel⟩
  have hzero : SizeLine (Text.encode " 00 ") 0 :=
    ⟨by decide +kernel, by decide +kernel, [0, 0], by decide +kernel, by decide, by decide +kernel⟩
  have hbody : ChunkedBody 4 [Text.encode "Wiki"] wikiBody.stream (Text.encode "rest") := by
    have hstream : wikiBody.stream = Text.encode "4;a=b" ++ crlf ++ Text.encode "Wiki" ++ crlf ++
        (Text.encode " 00 " ++ crlf ++ Text.encode "X: y\r\n\r\nrest") := by decide +kernel
    have hrest : Text.encode "rest" =
        (afterBlankLine? (Text.encode "X: y\r\n\r\nrest")).getD [] := by decide +kernel
    rw [hstream, hrest]
    exact .chunk hsize (by decide +kernel) (by decide +kernel) (.last hzero)
  have hroom : 1 ≤ 4 := by decide
  have hword : 4 < Numeral.lengthBound := by decide
  obtain ⟨haccepts, hleft⟩ := readMany_chunked_iff hd .chunked hroom hword [Text.encode "Wiki"]
  exact ⟨hd, hroom, hword, hbody, (haccepts.2 ⟨_, hbody⟩).2, hleft _ hbody⟩

end BodyReader

end HttpExchange
