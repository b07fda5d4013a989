import HttpExchange.Proofs.Delivery
import HttpExchange.Proofs.HeaderLines

set_option autoImplicit false

/-! # Responses as they are written

A `Response` is written as its header section and its `Payload`, which is either plain, with its
length announced, or chunked. Reading a written response gives its status and its framing
(`readHead_response`) and then its body (`readMany_payload`), whatever follows it on the connection.
-/

namespace HttpExchange

open Ascii

variable {σ : Type} [Transport σ]

/-! ## Bodies -/

/-- A chunk: the line that announces its size, and its bytes. -/
structure Chunk where
  sizeLine : Bytes
  data : Bytes

def Chunk.text (c : Chunk) : Bytes := c.sizeLine ++ crlf ++ c.data ++ crlf

/-- A body, in one of the forms in which it is written. -/
inductive Payload
  /-- The bytes alone. -/
  | plain (bytes : Bytes)
  /-- Chunks, then a size line that announces no bytes, then the lines of a trailer. -/
  | chunked (chunks : List Chunk) (lastLine : Bytes) (trailer : List Bytes)

namespace Payload

def body : Payload → Bytes
  | plain bytes => bytes
  | chunked chunks _ _ => (chunks.map Chunk.data).flatten

def framing : Payload → Framing
  | plain bytes => .contentLength bytes.length
  | chunked _ _ _ => .chunked

def mode : Payload → Mode
  | plain _ => .normal
  | chunked _ _ _ => .chunked

def text : Payload → Bytes
  | plain bytes => bytes
  | chunked chunks lastLine trailer =>
      chunks.flatMap Chunk.text ++ lastLine ++ crlf ++ sectionText trailer

/-- Lengths fit a word, size lines announce what follows them, and trailer lines are lines. -/
def Valid : Payload → Prop
  | plain bytes => bytes.length < Numeral.lengthBound
  | chunked chunks lastLine trailer =>
      (∀ c ∈ chunks, SizeLine c.sizeLine c.data.length ∧ c.data ≠ [] ∧
        c.data.length < Numeral.lengthBound) ∧
      SizeLine lastLine 0 ∧ ∀ l ∈ trailer, l ≠ [] ∧ Unbroken l

/-- `room` bytes hold every chunk. A plain body fits any room. -/
def Fits (room : Nat) : Payload → Prop
  | plain _ => True
  | chunked chunks _ _ => ∀ c ∈ chunks, c.data.length ≤ room

instance (room : Nat) (p : Payload) : Decidable (p.Fits room) :=
  match p with
  | plain _ => isTrue trivial
  | chunked chunks _ _ => inferInstanceAs (Decidable (∀ c ∈ chunks, c.data.length ≤ room))

/-- The pieces may be the first ones in which the body is delivered: a plain body comes in any
pieces that are not empty, a chunked one chunk by chunk. -/
def Pieces (p : Payload) (pieces : List Bytes) : Prop :=
  match p with
  | plain bytes => (∀ piece ∈ pieces, piece ≠ []) ∧ pieces.flatten <+: bytes
  | chunked chunks _ _ => pieces <+: chunks.map Chunk.data

/-- The most pieces in which the body is delivered: single bytes, or the chunks. -/
def mostPieces : Payload → Nat
  | plain bytes => bytes.length
  | chunked chunks _ _ => chunks.length

theorem length_le_flatten {pieces : List Bytes} (h : ∀ piece ∈ pieces, piece ≠ []) :
    pieces.length ≤ pieces.flatten.length := by
  induction pieces with
  | nil => exact Nat.le_refl 0
  | cons piece pieces ih =>
      obtain ⟨hne, hpieces⟩ := List.forall_mem_cons.1 h
      have hpos : 0 < piece.length := List.length_pos_iff.2 hne
      have := ih hpieces
      rw [List.flatten_cons, List.length_append, List.length_cons]
      omega

theorem Pieces.length_le {p : Payload} {pieces : List Bytes} (h : p.Pieces pieces) :
    pieces.length ≤ p.mostPieces := by
  cases p with
  | plain bytes => exact Nat.le_trans (length_le_flatten h.1) h.2.length_le
  | chunked chunks lastLine trailer =>
      have hle := List.IsPrefix.length_le h
      rwa [List.length_map] at hle

/-- A chunked body that is written follows the chunked grammar. -/
theorem chunkedBody_text {chunks : List Chunk} {lastLine : Bytes} {trailer : List Bytes}
    (h : (chunked chunks lastLine trailer).Valid) (rest : Bytes) :
    ChunkedBody (Numeral.lengthBound - 1) (chunks.map Chunk.data)
      ((chunked chunks lastLine trailer).text ++ rest) rest := by
  -- the grammar is built from the end: the last chunk first, then one chunk at a time
  obtain ⟨hchunks, hlast, htrailer⟩ := h
  induction chunks with
  | nil =>
      have hrest := afterBlankLine?_sectionText htrailer rest
      have hbody := @ChunkedBody.last (Numeral.lengthBound - 1) lastLine
        (sectionText trailer ++ rest) hlast
      rw [hrest] at hbody
      simpa [text] using hbody
  | cons c chunks ih =>
      obtain ⟨⟨hline, hne, hword⟩, hchunks'⟩ := List.forall_mem_cons.1 hchunks
      have hbody := ih hchunks'
      have hpos : 1 ≤ c.data.length := List.length_pos_iff.2 hne
      have := ChunkedBody.chunk hline hpos (by omega) hbody
      simpa [text, Chunk.text] using this

/-- Reads of a body that is written deliver it and stop behind it. -/
theorem readMany_payload {c : σ} {p : Payload} {rest : Bytes} (hp : p.Valid)
    (hc : Delivers c (p.text ++ rest)) {rooms : List Nat}
    (hrooms : ∀ room ∈ rooms, 0 < room ∧ p.Fits room) :
    ∃ (pieces : List Bytes) (m : Nat) (r' : BodyReader) (c' : σ),
      BodyReader.readMany (rooms.map (p.mode, ·)) (.ofFraming p.framing) c =
        (pieces.map .ok ++ List.replicate m (.ok []), r', c') ∧
      p.Pieces pieces ∧ (m ≠ 0 → pieces.flatten = p.body ∧ Delivers c' rest) := by
  cases p with
  | plain bytes =>
      obtain ⟨pieces, m, r', c', hrun, hne, hfront, hend⟩ :=
        BodyReader.readMany_normal hc fun room hroom => (hrooms room hroom).1
      exact ⟨pieces, m, r', c', hrun, ⟨hne, hfront⟩, hend⟩
  | chunked chunks lastLine trailer =>
      have hrooms' : ∀ room ∈ rooms, 0 < room ∧
          ∀ piece ∈ chunks.map Chunk.data, piece.length ≤ room := by
        intro room hroom
        refine ⟨(hrooms room hroom).1, fun piece hpiece => ?_⟩
        obtain ⟨chunk, hchunk, rfl⟩ := List.mem_map.1 hpiece
        exact (hrooms room hroom).2 chunk hchunk
      obtain ⟨r', c', hrun, hend⟩ := BodyReader.readMany_chunked
        (BodyReader.betweenChunks_ofFraming .chunked) hc (chunkedBody_text hp rest) (by decide)
        hrooms'
      -- an end was reported, so there was a read for each chunk
      refine ⟨_, _, r', c', hrun, List.take_prefix _ _, fun hm => ?_⟩
      have hlt : (chunks.map Chunk.data).length < rooms.length := by omega
      rw [List.take_of_length_le (Nat.le_of_lt hlt)]
      exact ⟨rfl, hend hlt⟩

end Payload

/-! ## Whole responses -/

/-- A field that has nothing to do with the length of the body. -/
structure Field.Plain (f : Field) : Prop where
  colon_not_mem : colon ∉ f.name
  unbroken : Unbroken f.line
  not_sameLetters : ∀ name ∈ ["Content-Length", "Transfer-Encoding"],
    sameLetters f.name (Text.encode name) = false

instance (f : Field) : Decidable f.Plain :=
  decidable_of_iff
    (colon ∉ f.name ∧ Unbroken f.line ∧ ∀ name ∈ ["Content-Length", "Transfer-Encoding"],
      sameLetters f.name (Text.encode name) = false)
    ⟨fun ⟨h₁, h₂, h₃⟩ => ⟨h₁, h₂, h₃⟩, fun h => ⟨h.1, h.2, h.3⟩⟩

theorem Field.Plain.value?_eq_none {f : Field} (h : f.Plain) {name : String}
    (hname : name ∈ ["Content-Length", "Transfer-Encoding"]) :
    Headers.value? (Text.encode name) f.line = none := by
  have hcolon : ∀ n ∈ ["Content-Length", "Transfer-Encoding"], colon ∉ Text.encode n := by
    decide +kernel
  rw [value?_line (hcolon name hname) h.colon_not_mem, h.not_sameLetters name hname]
  rfl

/-- A response. The field that announces its body stands between the other fields. -/
structure Response where
  status : Nat
  reason : Bytes
  before : List Field
  after : List Field
  payload : Payload

namespace Response

def lines (r : Response) : List Bytes :=
  statusLine r.status r.reason :: r.before.map Field.line ++
    r.payload.framing.field.line :: r.after.map Field.line

def text (r : Response) : Bytes := sectionText r.lines ++ r.payload.text

/-- The status fits a word, the lines are lines, and the body is announced once. -/
structure Valid (r : Response) : Prop where
  status_lt : r.status < Numeral.shortBound
  unbroken : Unbroken (statusLine r.status r.reason)
  fields : ∀ f ∈ r.before ++ r.after, f.Plain
  payload : r.payload.Valid

variable {r : Response}

theorem unbroken_framing_line (framing : Framing) : Unbroken framing.field.line := by
  apply unbroken_of_not_mem
  cases framing with
  | chunked => decide +kernel
  | contentLength n =>
      have hname : cr ∉ Text.encode "Content-Length" := by decide +kernel
      have hvalue : cr ∉ Text.encode n.repr := by
        intro h
        have := isDigit_encode_repr h
        simp [isDigit, digit?, cr] at this
      simp only [Framing.field, Field.line, List.mem_append, List.mem_cons]
      rintro (h | h | h | h)
      · exact hname h
      · exact absurd h (by decide)
      · exact absurd h (by decide)
      · exact hvalue h

theorem Valid.lines (hr : r.Valid) : ∀ l ∈ r.lines, l ≠ [] ∧ Unbroken l := by
  have hfield : ∀ fs : List Field, (∀ f ∈ fs, f.Plain) → ∀ l ∈ fs.map Field.line,
      l ≠ [] ∧ Unbroken l := by
    intro fs hfs l hl
    obtain ⟨f, hf, rfl⟩ := List.mem_map.1 hl
    exact ⟨f.line_ne_nil, (hfs f hf).unbroken⟩
  intro l hl
  rcases List.mem_append.1 hl with hl | hl
  · rcases List.mem_cons.1 hl with rfl | hl
    · exact ⟨statusLine_ne_nil _ _, hr.unbroken⟩
    · exact hfield _ (fun f hf => hr.fields f (List.mem_append_left _ hf)) l hl
  · rcases List.mem_cons.1 hl with rfl | hl
    · exact ⟨Field.line_ne_nil _, unbroken_framing_line _⟩
    · exact hfield _ (fun f hf => hr.fields f (List.mem_append_right _ hf)) l hl

/-- The status line tells the status. -/
theorem Valid.parseStatus_lines (hr : r.Valid) : parseStatus (table r.lines) = .ok r.status := by
  show parseStatus (table (statusLine r.status r.reason :: (r.before.map Field.line ++ _))) = _
  rw [table_cons, parseStatus_append_null, if_pos (statusToken_infix_statusLine _ _)]
  exact parseStatus_statusLine hr.status_lt r.reason

/-- No line but one has to do with the length of the body. -/
theorem Valid.value?_eq_none (hr : r.Valid) {name : String}
    (hname : name ∈ ["Content-Length", "Transfer-Encoding"]) :
    ∀ l ∈ (statusLine r.status r.reason :: r.before.map Field.line) ++ r.after.map Field.line,
      Headers.value? (Text.encode name) l = none := by
  have hhead : ∀ n ∈ ["Content-Length", "Transfer-Encoding"],
      ∃ b, (Text.encode n).head? = some b ∧ lower b ≠ lower 72 := by
    intro n hn
    rcases List.mem_pair.1 hn with rfl | rfl
    · exact ⟨67, by decide +kernel, by decide⟩
    · exact ⟨84, by decide +kernel, by decide⟩
  intro l hl
  rw [List.cons_append, ← List.map_append] at hl
  rcases List.mem_cons.1 hl with rfl | hl
  · obtain ⟨b, hb, hne⟩ := hhead name hname
    exact value?_statusLine hb hne r.status r.reason
  · obtain ⟨f, hf, rfl⟩ := List.mem_map.1 hl
    exact (hr.fields f hf).value?_eq_none hname

/-- The lines tell how the body is framed. -/
theorem Valid.parseFraming_lines (hr : r.Valid) :
    parseFraming (.ofLines r.lines) = .ok r.payload.framing := by
  have hlength : ∀ n, r.payload.framing = .contentLength n → n < Numeral.lengthBound := by
    intro n hn
    have hvalid := hr.payload
    cases hp : r.payload with
    | plain bytes =>
        rw [hp] at hn hvalid
        cases hn
        exact hvalid
    | chunked chunks lastLine trailer =>
        rw [hp] at hn
        cases hn
  exact parseFraming_field hlength fun l hl name hname => hr.value?_eq_none hname l hl

/-- The header section of a response that is written is read whole, if the storage and the index
have room for it. -/
theorem readHead_response {buffer : HeaderBuffer} {c : σ} {rest : Bytes} (hr : r.Valid)
    (hc : Delivers c (r.text ++ rest)) (hlines : r.lines.length ≤ maxHeaderLines)
    (hroom : (table r.lines).length < buffer.capacity) :
    ∃ head buffer' c', readHead buffer c = (.ok head, buffer', c') ∧ head.status = r.status ∧
      head.framing = r.payload.framing ∧ head.complete = true ∧
      Delivers c' (r.payload.text ++ rest) := by
  rw [text, List.append_assoc] at hc
  obtain ⟨head, buffer', c', hread, hstatus, hframing, hcomplete, -, hd⟩ :=
    readHead_sectionText hr.lines hr.parseStatus_lines hr.parseFraming_lines hlines hroom hc
  exact ⟨head, buffer', c', hread, hstatus, hframing, hcomplete, hd⟩

end Response

end HttpExchange
