import HttpExchange.Proofs.Arrivals
import HttpExchange.Proofs.HeaderLines

set_option autoImplicit false

/-! # Which field tells the framing

A response may tell the length of its body in two ways. `Tells ls framing` says which one counts:
the first line that gives `Content-Length` a value, or, if there is none, the first that gives
`Transfer-Encoding` one, if `chunked` is the last of its codings. A line gives a field a value if it
begins with the name and a colon and the rest is UTF-8 (`Gives`); a line of the name whose rest is
not UTF-8 counts as no line at all. So a `Content-Length` takes precedence over a transfer coding,
whatever stands between them, as long as its value is text (`readHead_framing`), and only that long
(`chunked_over_contentLength`). -/

namespace HttpExchange

open Ascii

/-! ## Fields and their values -/

/-- The line is a field of this name: it begins with the name, in any case of its ASCII letters, and
a colon. -/
def IsField (name : String) (line : Bytes) : Prop :=
  ∃ written raw, line = written ++ colon :: raw ∧ sameLetters written (Text.encode name) = true

/-- What stands behind the colon is the text `value`, with at most one space in front that does not
count, and with no blanks at its end but those that do not count. -/
def ValueText (raw : Bytes) (value : String) : Prop :=
  ∃ blanks : String,
    (raw = space :: Text.encode (value ++ blanks) ∨
      raw = Text.encode (value ++ blanks) ∧ raw.head? ≠ some space) ∧
    (∀ c ∈ blanks.toList, Text.isBlank c = true) ∧
    ∀ c, value.toList.getLast? = some c → Text.isBlank c = false

def Gives (name : String) (line : Bytes) (value : String) : Prop :=
  ∃ written raw, line = written ++ colon :: raw ∧
    sameLetters written (Text.encode name) = true ∧ ValueText raw value

/-- The first of the lines that give the field of this name a value gives it this one. -/
def FirstGives (name : String) (ls : List Bytes) (value : String) : Prop :=
  ∃ before line after, ls = before ++ line :: after ∧ Gives name line value ∧
    ∀ l ∈ before, ∀ v, ¬ Gives name l v

theorem Gives.isField {name value : String} {line : Bytes} (h : Gives name line value) :
    IsField name line := by
  obtain ⟨written, raw, hline, hname, -⟩ := h
  exact ⟨written, raw, hline, hname⟩

theorem isField_iff {name : String} {line : Bytes} :
    (Headers.afterName? (Text.encode name) line).isSome = true ↔ IsField name line := by
  rw [Option.isSome_iff_exists]
  constructor
  · rintro ⟨raw, hraw⟩
    obtain ⟨written, hline, hname⟩ := afterName?_eq_some_iff.1 hraw
    exact ⟨written, raw, hline, hname⟩
  · rintro ⟨written, raw, hline, hname⟩
    exact ⟨raw, afterName?_eq_some_iff.2 ⟨written, hline, hname⟩⟩

instance (name : String) (line : Bytes) : Decidable (IsField name line) :=
  decidable_of_iff _ isField_iff

theorem trimEnd_toList_eq_iff {s value : String} :
    String.ofList (Text.trimEnd s.toList) = value ↔ ∃ blanks : String, s = value ++ blanks ∧
      (∀ c ∈ blanks.toList, Text.isBlank c = true) ∧
      ∀ c, value.toList.getLast? = some c → Text.isBlank c = false := by
  have hlist : String.ofList (Text.trimEnd s.toList) = value ↔
      Text.trimEnd s.toList = value.toList := by
    rw [← String.toList_inj, String.toList_ofList]
  rw [hlist, Text.trimEnd_eq_iff]
  constructor
  · rintro ⟨blanks, hs, hblanks, hend⟩
    refine ⟨String.ofList blanks, ?_, by simpa using hblanks, hend⟩
    rw [← String.toList_inj, hs]
    simp
  · rintro ⟨blanks, rfl, hblanks, hend⟩
    exact ⟨blanks.toList, String.toList_append, hblanks, hend⟩

theorem valueText?_eq_some_iff {raw : Bytes} {value : String} :
    Headers.valueText? raw = some value ↔ ValueText raw value := by
  -- the bytes without the space
  have hstrip : ∃ bare, Headers.valueText? raw =
        ((Text.decode? bare).map fun s => String.ofList (Text.trimEnd s.toList)) ∧
      ∀ bs, bare = bs ↔ raw = space :: bs ∨ raw = bs ∧ raw.head? ≠ some space := by
    cases raw with
    | nil => exact ⟨[], rfl, fun bs => by simp⟩
    | cons b rest =>
        by_cases hb : b = space
        · exact ⟨rest, by simp only [Headers.valueText?, if_pos hb], fun bs => by simp [hb]⟩
        · exact ⟨b :: rest, by simp only [Headers.valueText?, if_neg hb], fun bs => by simp [hb]⟩
  obtain ⟨bare, hvalue, hbare⟩ := hstrip
  simp only [hvalue, Option.map_eq_some_iff, Text.decode?_eq_some_iff, trimEnd_toList_eq_iff]
  constructor
  · rintro ⟨s, hraw, blanks, rfl, h⟩
    exact ⟨blanks, (hbare _).1 hraw, h⟩
  · rintro ⟨blanks, hraw, h⟩
    exact ⟨value ++ blanks, (hbare _).2 hraw, blanks, rfl, h⟩

theorem value?_eq_some_iff {name value : String} {line : Bytes} :
    Headers.value? (Text.encode name) line = some value ↔ Gives name line value := by
  rw [Headers.value?, Option.bind_eq_some_iff]
  constructor
  · rintro ⟨raw, hraw, hvalue⟩
    obtain ⟨written, hline, hname⟩ := afterName?_eq_some_iff.1 hraw
    exact ⟨written, raw, hline, hname, valueText?_eq_some_iff.1 hvalue⟩
  · rintro ⟨written, raw, hline, hname, hvalue⟩
    exact ⟨raw, afterName?_eq_some_iff.2 ⟨written, hline, hname⟩,
      valueText?_eq_some_iff.2 hvalue⟩

theorem value?_eq_none_iff {name : String} {line : Bytes} :
    Headers.value? (Text.encode name) line = none ↔ ∀ v, ¬ Gives name line v := by
  simp only [Option.eq_none_iff_forall_ne_some, ne_eq, value?_eq_some_iff]

theorem get?_eq_some_iff {ls : List Bytes} {name value : String} :
    (Headers.ofLines ls).get? name = some value ↔ FirstGives name ls value := by
  rw [Headers.get?, Headers.lines_ofLines, List.findSome?_eq_some_iff]
  simp only [value?_eq_some_iff, value?_eq_none_iff, FirstGives]

theorem get?_eq_none_iff {ls : List Bytes} {name : String} :
    (Headers.ofLines ls).get? name = none ↔ ∀ l ∈ ls, ∀ v, ¬ Gives name l v := by
  rw [Headers.get?, Headers.lines_ofLines, List.findSome?_eq_none_iff]
  simp only [value?_eq_none_iff]

/-! ## The two framings -/

/-- The last of the codings that the commas separate is `chunked`, in any case of its letters and
with any blanks around it. -/
def EndsChunked (value : String) : Prop :=
  ∃ front before word behind, value.toList = front ++ (before ++ (word ++ behind)) ∧
    (∀ c, front.getLast? = some c → c = ',') ∧ (∀ c ∈ before, Text.isBlank c = true) ∧
    (∀ c ∈ behind, Text.isBlank c = true) ∧ word.map Char.toLower = "chunked".toList

/-- A letter of `chunked`, in either case, is no blank and no comma. -/
theorem not_blank_of_toLower_mem {c : Char} (h : c.toLower ∈ "chunked".toList) :
    Text.isBlank c = false ∧ c ≠ ',' := by
  by_cases hcapital : c.val ≥ 'A'.val ∧ c.val ≤ 'Z'.val
  · have hlow : 65 ≤ c.toNat := UInt32.le_iff_toNat_le.1 hcapital.1
    have hhigh : c.toNat ≤ 90 := UInt32.le_iff_toNat_le.1 hcapital.2
    constructor
    · simp only [Text.isBlank, Bool.or_eq_false_iff, Bool.and_eq_false_iff,
        decide_eq_false_iff_not, beq_eq_false_iff_ne]
      omega
    · rintro rfl
      exact absurd hlow (by decide)
  · have hsame : c.toLower = c := dif_neg hcapital
    rw [hsame] at h
    have hall : "chunked".toList.all (fun c => !Text.isBlank c && c != ',') = true := by decide
    simpa using List.all_eq_true.1 hall c h

/-- What stands behind the last comma. -/
theorem lastCoding_eq_iff {cs last : List Char} :
    (cs.reverse.takeWhile (· != ',')).reverse = last ↔ ∃ front, cs = front ++ last ∧
      (∀ c, front.getLast? = some c → c = ',') ∧ ',' ∉ last := by
  have hreverse : (cs.reverse.takeWhile (· != ',')).reverse = last ↔
      cs.reverse.takeWhile (· != ',') = last.reverse := List.reverse_eq_iff
  rw [hreverse]
  constructor
  · intro h
    obtain ⟨hcs, hlast, hfront⟩ := Text.span_eq_iff.1 ⟨h, rfl⟩
    refine ⟨(cs.reverse.dropWhile (· != ',')).reverse, ?_, fun c hc => ?_, fun hmem => ?_⟩
    · simpa using congrArg List.reverse hcs
    · rw [List.getLast?_reverse] at hc
      simpa using hfront c hc
    · simpa using hlast ',' (List.mem_reverse.2 hmem)
  · rintro ⟨front, rfl, hfront, hlast⟩
    refine (Text.span_eq_iff.2 ⟨List.reverse_append, fun c hc => ?_, fun c hc => ?_⟩).1
    · rw [bne_iff_ne]
      rintro rfl
      exact hlast (List.mem_reverse.1 hc)
    · rw [List.head?_reverse] at hc
      simp [hfront c hc]

theorem isChunkedCoding_iff {value : String} :
    isChunkedCoding value = true ↔ EndsChunked value := by
  have hcomma : Text.isBlank ',' = false := by decide
  simp only [isChunkedCoding, beq_iff_eq]
  constructor
  · intro hword
    obtain ⟨front, hvalue, hfront, -⟩ := lastCoding_eq_iff.1 (@rfl _
      (value.toList.reverse.takeWhile (· != ',')).reverse)
    have hne : Text.trim (value.toList.reverse.takeWhile (· != ',')).reverse ≠ [] := by
      intro hnil
      rw [hnil] at hword
      exact absurd hword (by decide)
    obtain ⟨before, behind, hlast, hbefore, hbehind, -⟩ := (Text.trim_eq_iff hne).1 rfl
    exact ⟨front, before, _, behind, hvalue.trans (congrArg (front ++ ·) hlast), hfront, hbefore,
      hbehind, hword⟩
  · rintro ⟨front, before, word, behind, hvalue, hfront, hbefore, hbehind, hword⟩
    -- no letter of the word is a comma or a blank, in whatever case it is written
    have hletter : ∀ c ∈ word, Text.isBlank c = false ∧ c ≠ ',' := fun c hc =>
      not_blank_of_toLower_mem (hword ▸ List.mem_map_of_mem hc)
    have hne : word ≠ [] := by
      rintro rfl
      exact absurd hword (by decide)
    have hlast : (value.toList.reverse.takeWhile (· != ',')).reverse =
        before ++ (word ++ behind) := by
      refine lastCoding_eq_iff.2 ⟨front, hvalue, hfront, ?_⟩
      rw [List.mem_append, List.mem_append]
      rintro (h | h | h)
      · rw [hbefore _ h] at hcomma
        cases hcomma
      · exact (hletter _ h).2 rfl
      · rw [hbehind _ h] at hcomma
        cases hcomma
    have htrim : Text.trim (before ++ (word ++ behind)) = word :=
      (Text.trim_eq_iff hne).2 ⟨before, behind, rfl, hbefore, hbehind,
        fun c hc => (hletter c (List.mem_of_head? hc)).1,
        fun c hc => (hletter c (List.mem_of_getLast? hc)).1⟩
    rw [hlast, htrim, hword]

/-- The lines tell the framing: by a length, which comes first, or by the chunked coding. -/
inductive Tells (ls : List Bytes) : Framing → Prop
  | length {value : String} {n : Nat} (hvalue : FirstGives "Content-Length" ls value)
      (hn : LeadingNumber value n) : Tells ls (.contentLength n)
  | coding {value : String} (hnone : ∀ l ∈ ls, ∀ v, ¬ Gives "Content-Length" l v)
      (hvalue : FirstGives "Transfer-Encoding" ls value) (hchunked : EndsChunked value) :
      Tells ls .chunked

theorem parseFraming_eq_ok_iff {ls : List Bytes} {framing : Framing} :
    parseFraming (.ofLines ls) = .ok framing ↔ Tells ls framing := by
  cases framing with
  | contentLength n =>
      simp only [parseFraming_eq_contentLength_iff, get?_eq_some_iff, leadingNumber?_eq_some_iff]
      constructor
      · rintro ⟨value, hvalue, hn⟩
        exact .length hvalue hn
      · rintro ⟨⟩
        exact ⟨_, ‹_›, ‹_›⟩
  | chunked =>
      simp only [parseFraming_eq_chunked_iff, get?_eq_none_iff, Option.any_eq_true,
        get?_eq_some_iff, isChunkedCoding_iff]
      constructor
      · rintro ⟨hnone, value, hvalue, hchunked⟩
        exact .coding hnone hvalue hchunked
      · rintro ⟨⟩
        exact ⟨‹_›, _, ‹_›, ‹_›⟩

/-- The lines give a field one value only. -/
theorem FirstGives.unique {name value value' : String} {ls : List Bytes}
    (h : FirstGives name ls value) (h' : FirstGives name ls value') : value = value' :=
  Option.some.inj ((get?_eq_some_iff.2 h).symm.trans (get?_eq_some_iff.2 h'))

/-- A `Content-Length` with a value leaves nothing to the transfer coding. -/
theorem Tells.of_firstGives {ls : List Bytes} {framing : Framing} {value : String}
    (h : Tells ls framing) (hfirst : FirstGives "Content-Length" ls value) :
    ∃ n, LeadingNumber value n ∧ framing = .contentLength n := by
  cases h with
  | length hvalue hn => exact ⟨_, hfirst.unique hvalue ▸ hn, rfl⟩
  | coding hnone =>
      obtain ⟨before, line, after, rfl, hline, -⟩ := hfirst
      exact absurd hline (hnone line (List.mem_append_right before List.mem_cons_self) value)

variable {σ : Type} [Transport σ]

/-- **Which field tells the framing.** Let a header be read, over any connection and into storage of
any size, and take the lines that the storage keeps of it. A head has these lines in its index, and
they tell its framing. If no read fails in front of the blank line and the peer is not silent, then
there is a head, or the answer is `parse` and the lines have no status code or tell no framing. If
the first `Content-Length` among the lines has a text for its value, then the framing of a head is
the length that the text begins with, and no other. -/
theorem readHead_framing {buffer buffer' : HeaderBuffer} {c c' : σ}
    {answer : Except Error ResponseHead} (h : readHead buffer c = (answer, buffer', c')) :
    let got := arrivals c
    let ls := indexedLines buffer.capacity got.bytes
    (∀ head, answer = .ok head → (head.headers buffer').lines = ls ∧ Tells ls head.framing) ∧
    ((∀ f, ¬ got.BreaksOff f) → got ≠ ⟨[], none⟩ →
      (∃ head, answer = .ok head) ∨ answer = .error .parse ∧
        ((∀ status, parseStatus (table (storedLines buffer.capacity got.bytes)) ≠ .ok status) ∨
          ∀ framing, ¬ Tells ls framing)) ∧
    ∀ before line after value, ls = before ++ line :: after →
      (∀ l ∈ before, ¬ IsField "Content-Length" l) → Gives "Content-Length" line value →
      ∀ head, answer = .ok head → ∃ n, LeadingNumber value n ∧ head.framing = .contentLength n := by
  intro got ls
  have hanswers := readHead_answers buffer c
  rw [h] at hanswers
  have htells : ∀ head, answer = .ok head → Tells ls head.framing := by
    rintro head rfl
    cases hanswers with
    | head hover hsome hlines => exact parseFraming_eq_ok_iff.1 hlines.2
  refine ⟨?_, ?_, ?_⟩
  · rintro head rfl
    exact ⟨readHead_lines h, htells head rfl⟩
  · intro hunbroken hsome
    cases hanswers with
    | fault hbroken => exact absurd hbroken (hunbroken _)
    | silence hsilent => exact absurd hsilent hsome
    | malformed hover _ hlines =>
        refine .inr ⟨rfl, ?_⟩
        -- with a status and a framing the lines would have made a head
        by_contra hboth
        obtain ⟨⟨status, hstatus⟩, framing, hframing⟩ :
            (∃ status, parseStatus _ = .ok status) ∧ ∃ framing, Tells ls framing := by
          simpa [not_or] using hboth
        exact hlines status framing ⟨hstatus, parseFraming_eq_ok_iff.2 hframing⟩
    | head => exact .inl ⟨_, rfl⟩
  · intro before line after value hls hbefore hline head hhead
    have hfirst : FirstGives "Content-Length" ls value :=
      ⟨before, line, after, hls, hline, fun l hl v hv => hbefore l hl hv.isField⟩
    exact (htells head hhead).of_firstGives hfirst

def threefoldReply : Script where
  steps := [
    .data (Text.encode "HTTP/1.1 200 OK\r\nTransfer-Encoding: chunked\r\ncontent-length: 4 b"),
    .data (Text.encode "ytes\r\nContent-Length: 7\r\n\r\nWiki")]

theorem readHead_framing_threefold :
    let ls := indexedLines 96 threefoldReply.stream
    Gives "Content-Length" (Text.encode "content-length: 4 bytes") "4 bytes" ∧
    ∃ head buffer' c', readHead (.zeroed 96) threefoldReply = (.ok head, buffer', c') ∧
      (head.headers buffer').lines = ls ∧ Tells ls head.framing ∧
      head.framing = .contentLength 4 := by
  intro ls
  have hline : Gives "Content-Length" (Text.encode "content-length: 4 bytes") "4 bytes" :=
    value?_eq_some_iff.1 (by decide +kernel)
  have hls : ls = [Text.encode "HTTP/1.1 200 OK", Text.encode "Transfer-Encoding: chunked"] ++
      Text.encode "content-length: 4 bytes" :: [Text.encode "Content-Length: 7"] := by
    decide +kernel
  have hc : Delivers threefoldReply threefoldReply.stream :=
    Script.Steady.delivers (by decide +kernel)
  have harrivals : (arrivals threefoldReply).bytes = threefoldReply.stream :=
    congrArg Arrivals.bytes hc.arrivals
  have hsome : (readHead (.zeroed 96) threefoldReply).1.toOption.isSome = true := by decide +kernel
  rcases hread : readHead (.zeroed 96) threefoldReply with ⟨e | head, buffer', c'⟩
  · rw [hread] at hsome
    cases hsome
  · obtain ⟨htells, -, hlength⟩ := readHead_framing hread
    rw [harrivals] at htells hlength
    obtain ⟨n, hn, hframing⟩ := hlength _ _ _ _ hls (by decide +kernel) hline head rfl
    have hfour : n = 4 := by
      have hnumber := leadingNumber?_eq_some_iff.2 hn
      have : leadingNumber? "4 bytes" = some 4 := by decide +kernel
      exact Option.some.inj (hnumber.symm.trans this)
    exact ⟨hline, head, buffer', c', rfl, (htells head rfl).1, (htells head rfl).2,
      hfour ▸ hframing⟩

def latinReply : Script where
  steps := [.data (Text.encode "HTTP/1.1 200 OK\r\nContent-Length: " ++ 255 ::
    Text.encode "\r\nTransfer-Encoding: chunked\r\n\r\n0\r\n\r\n")]

/-- A `Content-Length` whose value is not text does not count, and the transfer coding behind it is
taken. -/
theorem chunked_over_contentLength :
    let run := readHead (.zeroed 64) latinReply
    ∃ head, run.1 = .ok head ∧ head.framing = .chunked ∧
      ∃ l ∈ (head.headers run.2.1).lines, IsField "Content-Length" l := by
  intro run
  have hhead : run.1 = .ok ⟨200, .chunked, true, [⟨0, 15⟩, ⟨16, 33⟩, ⟨34, 60⟩]⟩ := by
    decide +kernel
  exact ⟨_, hhead, rfl, by decide +kernel⟩

end HttpExchange
