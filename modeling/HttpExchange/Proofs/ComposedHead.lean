import HttpExchange.Proofs.Composition
import HttpExchange.Proofs.HeaderLines

set_option autoImplicit false

/-! # Heads that are composed and read back

A head that is composed in the header storage, a status line and fields behind it, is the text of
its lines (`run_composeHead`). When it is sent and read, a name without a colon is looked up as the
value of the first field that has the name, up to the case of ASCII letters (`get?_headLines`,
`readHead_composed`). The two sides of the storage agree because a value is written behind one space
and read without it, and because nothing that is written looks like the end of a line. -/

namespace HttpExchange

open Ascii

/-! ## Fields as text -/

structure TextField where
  name : String
  value : String
  deriving DecidableEq

namespace TextField

def field (f : TextField) : Field := ⟨Text.encode f.name, Text.encode f.value⟩

def named (name : String) (f : TextField) : Bool :=
  f.name.toList.map Char.toLower == name.toList.map Char.toLower

/-- The name ends at the colon behind it, the field at its terminator, and the value is not blank
at its end. A lone LF does no harm. -/
structure Valid (f : TextField) : Prop where
  colon_not_mem : ':' ∉ f.name.toList
  name_unbroken : '\r' ∉ f.name.toList
  value_unbroken : '\r' ∉ f.value.toList
  value_end : ∀ c, f.value.toList.getLast? = some c → Text.isBlank c = false

variable {f : TextField}

/-- What is written for the field is its line and the terminator. -/
theorem encode_line (f : TextField) :
    Text.encode (f.name ++ ": " ++ f.value ++ "\r\n") = f.field.line ++ crlf := by
  have hcolon : Text.encode ": " = [colon, space] := by decide +kernel
  have hend : Text.encode "\r\n" = crlf := by decide +kernel
  simp [hcolon, hend, field, Field.line]

theorem Valid.unbroken (h : f.Valid) : Unbroken f.field.line := by
  have hname : cr ∉ Text.encode f.name := fun hmem =>
    h.name_unbroken (Text.mem_toList_of_mem_encode (by decide) hmem)
  have hvalue : cr ∉ Text.encode f.value := fun hmem =>
    h.value_unbroken (Text.mem_toList_of_mem_encode (by decide) hmem)
  apply unbroken_of_not_mem
  simp only [field, Field.line, List.mem_append, List.mem_cons, not_or]
  exact ⟨hname, by decide, by decide, hvalue⟩

/-- The line gives the value to the name of the field, and no other name a value. -/
theorem Valid.value?_line (h : f.Valid) {name : String} (hname : ':' ∉ name.toList) :
    Headers.value? (Text.encode name) f.field.line =
      if f.named name then some f.value else none := by
  have hcolon : ∀ s : String, ':' ∉ s.toList → colon ∉ Text.encode s := fun s hs hmem =>
    hs (Text.mem_toList_of_mem_encode (by decide) hmem)
  have hvalue : Headers.valueText? (space :: Text.encode f.value) = some f.value := by
    rw [valueText?_encode, Text.trimEnd_of_getLast h.value_end, String.ofList_toList]
  have hline := @HttpExchange.value?_line (Text.encode name) f.field (hcolon name hname)
    (hcolon f.name h.colon_not_mem)
  have hnamed : sameLetters f.field.name (Text.encode name) = true ↔ f.named name = true := by
    rw [named, beq_iff_eq]
    exact Text.sameLetters_encode_iff
  rw [hline, if_congr hnamed rfl rfl]
  exact congrArg (fun value => if f.named name then value else none) hvalue

end TextField

/-! ## Heads -/

variable {fields : List TextField}

def headLines (fields : List TextField) : List Bytes :=
  statusLine 200 (Text.encode "OK") :: fields.map (·.field.line)

def composeHead (fields : List TextField) : List HeaderBuffer.Edit :=
  .appendBytes (Text.encode "HTTP/1.1 200 OK\r\n") ::
    fields.map (fun f => .field f.name f.value) ++ [.endHeaders]

/-- The first `Content-Length` among the fields is the decimal form of `n`, which fits a word. -/
def Announces (fields : List TextField) (n : Nat) : Prop :=
  ∃ f, fields.find? (·.named "Content-Length") = some f ∧ f.value ≠ "" ∧
    (∀ c ∈ f.value.toList, c.isDigit = true) ∧ Nat.ofDigitChars 10 f.value.toList 0 = n ∧
    n < Numeral.lengthBound

theorem encode_statusLine :
    Text.encode "HTTP/1.1 200 OK\r\n" = statusLine 200 (Text.encode "OK") ++ crlf := by
  decide +kernel

/-- Composed fields are written as their lines. -/
theorem run_fields (b : HeaderBuffer) (fields : List TextField) :
    b.run (fields.map fun f => .field f.name f.value) =
      b.push ((fields.map (·.field.line)).flatMap (· ++ crlf)) := by
  induction fields generalizing b with
  | nil => exact b.push_nil.symm
  | cons f fields ih =>
      have hfield : (HeaderBuffer.Edit.apply (.field f.name f.value) b).2 =
          b.push (f.field.line ++ crlf) := by
        rw [HeaderBuffer.Edit.apply_eq_push (by simp), HeaderBuffer.Edit.writes, f.encode_line]
      calc b.run ((f :: fields).map fun f => .field f.name f.value)
          = (b.push (f.field.line ++ crlf)).run (fields.map fun f => .field f.name f.value) := by
            rw [← hfield]
            rfl
        _ = b.push (((f :: fields).map (·.field.line)).flatMap (· ++ crlf)) := by
            rw [ih, ← HeaderBuffer.push_append]
            rfl

/-- A head that is composed is the text of its lines, as far as it fits. -/
theorem run_composeHead (b : HeaderBuffer) (fields : List TextField) :
    b.run (composeHead fields) = b.push (sectionText (headLines fields)) := by
  calc b.run (composeHead fields)
      = ((b.push (Text.encode "HTTP/1.1 200 OK\r\n")).run
          (fields.map fun f => .field f.name f.value)).push crlf := by
        rw [composeHead, HeaderBuffer.run_append]
        rfl
    _ = b.push (sectionText (headLines fields)) := by
        rw [run_fields, encode_statusLine, ← HeaderBuffer.push_append,
          ← HeaderBuffer.push_append]
        rfl

theorem line_of_mem_headLines (h : ∀ f ∈ fields, f.Valid) :
    ∀ l ∈ headLines fields, l ≠ [] ∧ Unbroken l := by
  intro l hl
  rcases List.mem_cons.1 hl with rfl | hl
  · exact ⟨statusLine_ne_nil _ _, by decide +kernel⟩
  · obtain ⟨f, hf, rfl⟩ := List.mem_map.1 hl
    exact ⟨f.field.line_ne_nil, (h f hf).unbroken⟩

/-- A name without a colon is looked up as the first field of that name. -/
theorem get?_headLines (h : ∀ f ∈ fields, f.Valid) {name : String} (hname : ':' ∉ name.toList) :
    (Headers.ofLines (headLines fields)).get? name =
      (fields.find? (·.named name)).map TextField.value := by
  have hstatus : Headers.value? (Text.encode name) (statusLine 200 (Text.encode "OK")) = none :=
    value?_eq_none_of_no_colon (by decide +kernel)
  rw [Headers.get?, Headers.lines_ofLines, headLines, List.findSome?_cons, hstatus]
  simp only
  induction fields with
  | nil => rfl
  | cons f fields ih =>
      obtain ⟨hf, hfields⟩ := List.forall_mem_cons.1 h
      rw [List.map_cons, List.findSome?_cons, hf.value?_line hname, List.find?_cons]
      cases f.named name with
      | true => rfl
      | false => exact ih hfields

theorem parseStatus_headLines (fields : List TextField) :
    parseStatus (table (headLines fields)) = .ok 200 := by
  rw [headLines, table_cons, parseStatus_append_null, if_pos (statusToken_infix_statusLine _ _)]
  exact parseStatus_statusLine (by decide) _

theorem parseFraming_headLines {n : Nat} (h : ∀ f ∈ fields, f.Valid) (hn : Announces fields n) :
    parseFraming (.ofLines (headLines fields)) = .ok (.contentLength n) := by
  obtain ⟨f, hfind, hne, hdigit, rfl, hbound⟩ := hn
  rw [parseFraming_eq_contentLength_iff, get?_headLines h (by decide), hfind]
  exact ⟨f.value, rfl, leadingNumber?_digits hdigit hne hbound⟩

variable {σ : Type} [Transport σ]

/-- **Fields are read back.** Let a head be composed in storage that holds it, with a first
`Content-Length` that is a decimal number, and let a connection deliver it, and anything behind it.
Reading it into storage with room for its lines succeeds, and a name without a colon is then looked
up as the value of the first field of that name, in any case of its letters, or as none if there is
no such field. -/
theorem readHead_composed {storage rest : Bytes} {buffer : HeaderBuffer} {c : σ} {n : Nat}
    (hfields : ∀ f ∈ fields, f.Valid) (hn : Announces fields n)
    (hstorage : (sectionText (headLines fields)).length ≤ storage.length)
    (hslots : fields.length + 1 ≤ maxHeaderLines)
    (hroom : (table (headLines fields)).length < buffer.capacity)
    (hc : Delivers c
      (((HeaderBuffer.ofStorage storage).run (composeHead fields)).written ++ rest)) :
    ∃ head buffer' c', readHead buffer c = (.ok head, buffer', c') ∧ head.status = 200 ∧
      head.framing = .contentLength n ∧ head.complete = true ∧ Delivers c' rest ∧
      ∀ name : String, ':' ∉ name.toList → (head.headers buffer').get? name =
        (fields.find? (·.named name)).map TextField.value := by
  -- nothing of the head was cut off, so its bytes are the text of a section
  have hwritten : ((HeaderBuffer.ofStorage storage).run (composeHead fields)).written =
      sectionText (headLines fields) := by
    rw [run_composeHead]
    exact HeaderBuffer.push_written_of_fits hstorage
  rw [hwritten] at hc
  have hlength : (headLines fields).length ≤ maxHeaderLines := by simpa [headLines] using hslots
  obtain ⟨head, buffer', c', hread, hstatus, hframing, hcomplete, hlines, hd⟩ :=
    readHead_sectionText (line_of_mem_headLines hfields) (parseStatus_headLines fields)
      (parseFraming_headLines hfields hn) hlength hroom hc
  refine ⟨head, buffer', c', hread, hstatus, hframing, hcomplete, hd, fun name hname => ?_⟩
  rw [← get?_headLines hfields hname]
  exact get?_congr (hlines.trans (Headers.lines_ofLines _).symm) name

/-- Fields of which some names begin alike or differ in case only, with values that begin with a
space, hold a colon, are empty or are not ASCII, and two lengths. -/
def tracedFields : List TextField :=
  [⟨"X-Trace-Id", "7"⟩, ⟨"X-Trace", " a: b"⟩, ⟨"x-tRACE", "c"⟩, ⟨"Empty", ""⟩,
    ⟨"content-LENGTH", "002"⟩, ⟨"Content-Length", "none"⟩, ⟨"Name", "é"⟩]

/-- A peer that sends the composed head in three pieces, one of which ends within a terminator, and
a body of two bytes. -/
def tracedReply : Script where
  steps := [.data (Text.encode "HTTP/1.1 200 OK\r\nX-Trace-Id: 7\r\nX-Trace:  a: b\r"),
    .data (Text.encode "\nx-tRACE: c\r\nEmpty: \r\ncontent-LENGTH: 002\r\nContent-Len"),
    .data (Text.encode "gth: none\r\nName: é\r\n\r\nOK")]

/-- Storage of 128 bytes holds the head and its lines. -/
theorem readHead_composed_traced :
    let composed := (HeaderBuffer.zeroed 128).run (composeHead tracedFields)
    (∀ f ∈ tracedFields, f.Valid) ∧ Announces tracedFields 2 ∧
    Delivers tracedReply (composed.written ++ Text.encode "OK") ∧
    ∃ head buffer' c', readHead (.zeroed 128) tracedReply = (.ok head, buffer', c') ∧
      head.framing = .contentLength 2 ∧ Delivers c' (Text.encode "OK") ∧
      let headers := head.headers buffer'
      headers.get? "X-TRACE" = some " a: b" ∧ headers.get? "x-trace-id" = some "7" ∧
      headers.get? "X-Trac" = none ∧ headers.get? "EMPTY" = some "" ∧
      headers.get? "Content-Length" = some "002" ∧ headers.get? "NAME" = some "é" := by
  intro composed
  have hfields : ∀ f ∈ tracedFields, f.Valid := by
    -- everything but the quantifier over the last character is a matter of running the tests
    have hall : ∀ f ∈ tracedFields, ':' ∉ f.name.toList ∧ '\r' ∉ f.name.toList ∧
        '\r' ∉ f.value.toList ∧ f.value.toList.getLast?.all (! Text.isBlank ·) = true := by
      decide +kernel
    intro f hf
    obtain ⟨hcolon, hname, hvalue, hend⟩ := hall f hf
    exact ⟨hcolon, hname, hvalue, fun c hc => by simpa [hc] using hend⟩
  have hn : Announces tracedFields 2 :=
    ⟨⟨"content-LENGTH", "002"⟩, by decide +kernel, by decide,
      List.all_eq_true.1 (by decide +kernel), by decide, by decide⟩
  have hc : Delivers tracedReply (composed.written ++ Text.encode "OK") := by
    have hstream : composed.written ++ Text.encode "OK" = tracedReply.stream := by decide +kernel
    rw [hstream]
    exact Script.Steady.delivers (by decide +kernel)
  obtain ⟨head, buffer', c', hread, -, hframing, -, hrest, hget⟩ :=
    @readHead_composed tracedFields Script _ (List.replicate 128 0) (Text.encode "OK")
      (.zeroed 128) tracedReply 2 hfields hn (by decide +kernel) (by decide) (by decide +kernel) hc
  refine ⟨hfields, hn, hc, head, buffer', c', hread, hframing, hrest, ?_⟩
  refine ⟨(hget _ (by decide)).trans (by decide +kernel),
    (hget _ (by decide)).trans (by decide +kernel), (hget _ (by decide)).trans (by decide +kernel),
    (hget _ (by decide)).trans (by decide +kernel), (hget _ (by decide)).trans (by decide +kernel),
    (hget _ (by decide)).trans (by decide +kernel)⟩

end HttpExchange
