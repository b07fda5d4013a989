import HttpExchange.Proofs.CapturedTable
import HttpExchange.Proofs.Decimal
import HttpExchange.Proofs.HeadExtent

set_option autoImplicit false

/-! # Header lines as they are written

A status line and a field line as a peer writes them, and what the parsers read in them. A name
without a colon is found by its own field and by no other one (`value?_line`). The status code and
the announced length are decimal numerals and are read back from their lines. A section that is
written is read whole, if there is room for it (`readHead_sectionText`).
-/

namespace HttpExchange

open Ascii

/-! ## Fields -/

structure Field where
  name : Bytes
  value : Bytes
  deriving DecidableEq

namespace Field

def line (f : Field) : Bytes := f.name ++ colon :: space :: f.value

theorem line_ne_nil (f : Field) : f.line ≠ [] := by simp [line]

end Field

theorem eq_colon_of_lower {b : UInt8} (h : lower b = lower colon) : b = colon := by
  have hall : ∀ n, n < 256 → lower (UInt8.ofNat n) = lower colon → UInt8.ofNat n = colon := by
    decide +kernel
  have hb : UInt8.ofNat b.toNat = b := UInt8.ofNat_toNat
  rw [← hb] at h ⊢
  exact hall b.toNat b.toNat_lt h

theorem colon_mem_of_sameLetters {x y : Bytes} (h : sameLetters x y = true) (hx : colon ∈ x) :
    colon ∈ y := by
  have hmem : lower colon ∈ y.map lower := by
    rw [← sameLetters_iff.1 h]
    exact List.mem_map_of_mem hx
  obtain ⟨b, hb, hlower⟩ := List.mem_map.1 hmem
  rwa [← eq_colon_of_lower hlower]

/-- A line carries the field whose name, up to the case of letters, and a colon it begins with. -/
theorem afterName?_eq_some_iff {name line raw : Bytes} :
    Headers.afterName? name line = some raw ↔
      ∃ written, line = written ++ colon :: raw ∧ sameLetters written name = true := by
  constructor
  · intro h
    unfold Headers.afterName? at h
    split at h
    next hsame =>
      split at h
      next c rest hdrop =>
        split at h
        next hc =>
          refine ⟨line.take name.length, ?_, hsame⟩
          rw [← Option.some.inj h, ← hc, ← hdrop, List.take_append_drop]
        next => cases h
      next => cases h
    next => cases h
  · rintro ⟨written, rfl, hsame⟩
    rw [Headers.afterName?, ← sameLetters_length hsame, List.take_left, List.drop_left,
      if_pos hsame]
    exact if_pos rfl

/-- A line without a colon carries no field. -/
theorem value?_eq_none_of_no_colon {name line : Bytes} (h : colon ∉ line) :
    Headers.value? name line = none := by
  have hafter : Headers.afterName? name line = none := by
    rw [Option.eq_none_iff_forall_ne_some]
    intro raw hraw
    obtain ⟨written, rfl, -⟩ := afterName?_eq_some_iff.1 hraw
    exact h (by simp)
  rw [Headers.value?, hafter, Option.bind_none]

/-- A byte string is cut in one way only in front of its first colon. -/
theorem eq_of_append_colon {x y u v : Bytes} (h : x ++ colon :: u = y ++ colon :: v)
    (hx : colon ∉ x) (hy : colon ∉ y) : x = y ∧ u = v := by
  rcases List.append_eq_append_iff.1 h with ⟨w, rfl, hw⟩ | ⟨w, rfl, hw⟩
  · cases w with
    | nil => exact ⟨(List.append_nil x).symm, (List.cons.inj hw).2⟩
    | cons b w => exact absurd (by simp [← (List.cons.inj hw).1]) hy
  · cases w with
    | nil => exact ⟨List.append_nil y, (List.cons.inj hw).2.symm⟩
    | cons b w => exact absurd (by simp [← (List.cons.inj hw).1]) hx

/-- The name that a line is asked for stands before its first colon. -/
theorem afterName?_line {name : Bytes} {f : Field} (hname : colon ∉ name) (hf : colon ∉ f.name) :
    Headers.afterName? name f.line =
      if sameLetters f.name name then some (space :: f.value) else none := by
  split
  next hsame => exact afterName?_eq_some_iff.2 ⟨f.name, rfl, hsame⟩
  next hdiffer =>
    rw [Option.eq_none_iff_forall_ne_some]
    intro raw hraw
    obtain ⟨written, hline, hsame⟩ := afterName?_eq_some_iff.1 hraw
    have hwritten : colon ∉ written := fun h => hname (colon_mem_of_sameLetters hsame h)
    obtain ⟨rfl, -⟩ := eq_of_append_colon hline hf hwritten
    exact hdiffer hsame

theorem value?_line {name : Bytes} {f : Field} (hname : colon ∉ name) (hf : colon ∉ f.name) :
    Headers.value? name f.line =
      if sameLetters f.name name then Headers.valueText? (space :: f.value) else none := by
  rw [Headers.value?, afterName?_line hname hf]
  by_cases h : sameLetters f.name name = true
  · rw [if_pos h, if_pos h, Option.bind_some]
  · rw [if_neg h, if_neg h, Option.bind_none]

/-- A field is found by its own name. -/
theorem value?_line_self {f : Field} (h : colon ∉ f.name) :
    Headers.value? f.name f.line = Headers.valueText? (space :: f.value) := by
  rw [value?_line h h, if_pos (sameLetters_refl f.name)]

/-- The text of a value that is UTF-8. -/
theorem valueText?_encode (s : String) :
    Headers.valueText? (space :: Text.encode s) = some (String.ofList (Text.trimEnd s.toList)) := by
  simp [Headers.valueText?]

/-- Lines that do not give the field a value are passed over. -/
theorem get?_ofLines_eq {name : String} {before after : List Bytes} {line : Bytes}
    (h : ∀ l ∈ before, Headers.value? (Text.encode name) l = none) :
    (Headers.ofLines (before ++ line :: after)).get? name =
      (Headers.value? (Text.encode name) line).or ((Headers.ofLines after).get? name) := by
  rw [get?_ofLines_append]
  have hbefore : (Headers.ofLines before).get? name = none := by
    rw [Headers.get?, Headers.lines_ofLines, List.findSome?_eq_none_iff]
    exact h
  rw [hbefore, Option.none_or, Headers.get?, Headers.get?, Headers.lines_ofLines,
    Headers.lines_ofLines, List.findSome?_cons]
  cases Headers.value? (Text.encode name) line <;> rfl

/-! ## Status lines -/

def statusLine (status : Nat) (reason : Bytes) : Bytes :=
  statusToken ++ [49, space] ++ Text.encode status.repr ++ space :: reason

theorem statusLine_ne_nil (status : Nat) (reason : Bytes) : statusLine status reason ≠ [] := by
  simp [statusLine]

theorem statusToken_infix_statusLine (status : Nat) (reason : Bytes) :
    statusToken <:+: statusLine status reason := by
  refine List.IsPrefix.isInfix ⟨[49, space] ++ Text.encode status.repr ++ space :: reason, ?_⟩
  simp [statusLine]

/-- A status line is no field that begins with another letter. -/
theorem value?_statusLine {name : Bytes} {b : UInt8} (hname : name.head? = some b)
    (hb : lower b ≠ lower 72) (status : Nat) (reason : Bytes) :
    Headers.value? name (statusLine status reason) = none := by
  obtain ⟨rest, rfl⟩ := List.head?_eq_some_iff.1 hname
  have hafter : Headers.afterName? (b :: rest) (statusLine status reason) = none := by
    rw [Headers.afterName?, if_neg]
    intro h
    rw [sameLetters_iff] at h
    simp only [statusLine, statusToken, List.cons_append, List.length_cons, List.take_succ_cons,
      List.map_cons] at h
    exact hb (List.cons.inj h).1.symm
  rw [Headers.value?, hafter, Option.bind_none]

/-- Digits in front of another byte are the leading digits. -/
theorem takeWhile_isDigit_append {digits : Bytes} (h : ∀ b ∈ digits, isDigit b = true) (x : Bytes) :
    (digits ++ space :: x).takeWhile isDigit = digits := by
  rw [List.takeWhile_append_of_pos h, List.takeWhile_cons_of_neg (by decide), List.append_nil]

theorem parseStatus_statusLine {status : Nat} (h : status < Numeral.shortBound) (reason : Bytes) :
    parseStatus (statusLine status reason) = .ok status := by
  have hafter : afterFirst? statusToken (statusLine status reason) =
      some ([49, space] ++ Text.encode status.repr ++ space :: reason) := by
    rw [statusLine, List.append_assoc, List.append_assoc, afterFirst?_append_self,
      List.append_assoc]
  have hdigit : ∀ b ∈ Text.encode status.repr, isDigit b = true :=
    fun b hb => isDigit_encode_repr hb
  -- the code begins with a digit, so no more spaces are passed over
  have hspace : (Text.encode status.repr ++ space :: reason).dropWhile (· == space) =
      Text.encode status.repr ++ space :: reason := by
    obtain ⟨b, bs, hbs⟩ := List.exists_cons_of_ne_nil (encode_repr_ne_nil status)
    have hb : (b == space) = false := by
      have : isDigit b = true := hdigit b (hbs ▸ List.mem_cons_self)
      rw [beq_eq_false_iff_ne]
      rintro rfl
      simp [isDigit, digit?, space] at this
    rw [hbs, List.cons_append, List.dropWhile_cons, hb]
    rfl
  have hversion : ([49, space] ++ Text.encode status.repr ++ space :: reason).dropWhile isDigit =
      space :: (Text.encode status.repr ++ space :: reason) := by
    rw [List.append_assoc]
    show (49 :: space :: (Text.encode status.repr ++ space :: reason)).dropWhile isDigit = _
    rw [List.dropWhile_cons_of_pos (by decide), List.dropWhile_cons_of_neg (by decide)]
  have hrest := congrArg (List.dropWhile (· == space)) hversion
  rw [List.dropWhile_cons_of_pos (by decide), hspace] at hrest
  rw [parseStatus, hafter]
  simp only [hrest, takeWhile_isDigit_append hdigit, decimal?_encode_repr h]

/-! ## Framing fields -/

/-- The field by which a response announces its body. -/
def Framing.field : Framing → Field
  | .contentLength n => ⟨Text.encode "Content-Length", Text.encode n.repr⟩
  | .chunked => ⟨Text.encode "Transfer-Encoding", Text.encode "chunked"⟩

theorem colon_not_mem_contentLength : colon ∉ Text.encode "Content-Length" := by decide +kernel

/-- The value begins, perhaps behind blanks, with digits that denote `n`, a number that fits a
word, and no digit stands behind them. -/
def LeadingNumber (value : String) (n : Nat) : Prop :=
  ∃ blanks digits rest, value.toList = blanks ++ (digits ++ rest) ∧
    (∀ c ∈ blanks, Text.isBlank c = true) ∧ digits ≠ [] ∧ (∀ c ∈ digits, c.isDigit = true) ∧
    (∀ c, rest.head? = some c → c.isDigit = false) ∧ Nat.ofDigitChars 10 digits 0 = n ∧
    n < Numeral.lengthBound

theorem leadingNumber?_eq_some_iff {value : String} {n : Nat} :
    leadingNumber? value = some n ↔ LeadingNumber value n := by
  have hdecimal : ∀ {digits : List Char}, (∀ c ∈ digits, c.isDigit = true) →
      (Numeral.decimalText? Numeral.lengthBound digits = some n ↔
        digits ≠ [] ∧ Nat.ofDigitChars 10 digits 0 = n ∧ n < Numeral.lengthBound) :=
    decimalText?_digits (by decide)
  constructor
  · intro h
    obtain ⟨blanks, hvalue, hblanks, -⟩ := Text.trimStart_eq_iff.1 (@rfl _ (Text.trimStart _))
    obtain ⟨hsplit, hdigits, hrest⟩ := Text.span_eq_iff.1 ⟨rfl, rfl⟩
    obtain ⟨hne, hn, hbound⟩ := (hdecimal hdigits).1 h
    exact ⟨blanks, _, _, hvalue.trans (congrArg (blanks ++ ·) hsplit), hblanks, hne, hdigits, hrest,
      hn, hbound⟩
  · rintro ⟨blanks, digits, rest, hvalue, hblanks, hne, hdigits, hrest, hn, hbound⟩
    have htrim : Text.trimStart value.toList = digits ++ rest := by
      refine Text.trimStart_eq_iff.2 ⟨blanks, hvalue, hblanks, fun c hc => ?_⟩
      -- the blanks end where the digits begin
      obtain ⟨d, ds, rfl⟩ := List.exists_cons_of_ne_nil hne
      obtain rfl : d = c := Option.some.inj hc
      exact isBlank_of_isDigit (hdigits d List.mem_cons_self)
    have htake : (digits ++ rest).takeWhile Char.isDigit = digits :=
      (Text.span_eq_iff.2 ⟨rfl, hdigits, hrest⟩).1
    rw [leadingNumber?, htrim, htake]
    exact (hdecimal hdigits).2 ⟨hne, hn, hbound⟩

/-- A value that consists of digits begins with the number that they denote. -/
theorem leadingNumber?_digits {value : String} (hdigit : ∀ c ∈ value.toList, c.isDigit = true)
    (hne : value ≠ "") (h : Nat.ofDigitChars 10 value.toList 0 < Numeral.lengthBound) :
    leadingNumber? value = some (Nat.ofDigitChars 10 value.toList 0) :=
  leadingNumber?_eq_some_iff.2
    ⟨[], value.toList, [], by simp, by simp, by simpa using hne, hdigit, by simp, rfl, h⟩

theorem leadingNumber?_repr {n : Nat} (h : n < Numeral.lengthBound) :
    leadingNumber? n.repr = some n := by
  have hdigit : ∀ c ∈ n.repr.toList, c.isDigit = true := by
    rw [Nat.toList_repr]
    exact fun c hc => isDigit_toDigits hc
  have hn : Nat.ofDigitChars 10 n.repr.toList 0 = n := by
    rw [Nat.toList_repr]
    exact Nat.ofDigitChars_ten_toDigits
  have hne : n.repr ≠ "" := by
    rw [Ne, ← String.toList_eq_nil_iff, Nat.toList_repr]
    exact Nat.toDigits_ne_nil
  rw [leadingNumber?_digits hdigit hne (by rwa [hn]), hn]

theorem valueText?_encode_repr (n : Nat) :
    Headers.valueText? (space :: Text.encode n.repr) = some n.repr := by
  rw [valueText?_encode, Text.trimEnd_of_getLast, String.ofList_toList]
  intro c hc
  have hmem : c ∈ Nat.toDigits 10 n := by
    rw [← Nat.toList_repr]
    exact List.mem_of_getLast? hc
  exact isBlank_of_isDigit (isDigit_toDigits hmem)

/-- The field of a framing tells that framing, if no other line has to do with it. -/
theorem parseFraming_field {framing : Framing} {before after : List Bytes}
    (hlength : ∀ n, framing = .contentLength n → n < Numeral.lengthBound)
    (hother : ∀ l ∈ before ++ after, ∀ name ∈ ["Content-Length", "Transfer-Encoding"],
      Headers.value? (Text.encode name) l = none) :
    parseFraming (.ofLines (before ++ framing.field.line :: after)) = .ok framing := by
  have hbefore : ∀ name ∈ ["Content-Length", "Transfer-Encoding"], ∀ l ∈ before,
      Headers.value? (Text.encode name) l = none :=
    fun name hname l hl => hother l (List.mem_append_left after hl) name hname
  have hafter : (Headers.ofLines after).get? "Content-Length" = none := by
    rw [Headers.get?, Headers.lines_ofLines, List.findSome?_eq_none_iff]
    exact fun l hl => hother l (List.mem_append_right before hl) _ (by simp)
  cases framing with
  | contentLength n =>
      have hfield : Headers.value? (Text.encode "Content-Length")
          (Framing.contentLength n).field.line = some n.repr := by
        have hself := @value?_line_self (Framing.contentLength n).field colon_not_mem_contentLength
        exact hself.trans (valueText?_encode_repr n)
      rw [parseFraming_eq_contentLength_iff, get?_ofLines_eq (hbefore _ (by simp)), hfield]
      exact ⟨n.repr, Option.some_or, leadingNumber?_repr (hlength n rfl)⟩
  | chunked =>
      have hfield : Headers.value? (Text.encode "Transfer-Encoding") Framing.chunked.field.line =
          some "chunked" := by decide +kernel
      have hnone : Headers.value? (Text.encode "Content-Length") Framing.chunked.field.line =
          none := by decide +kernel
      rw [parseFraming_eq_chunked_iff, get?_ofLines_eq (hbefore _ (by simp)),
        get?_ofLines_eq (hbefore _ (by simp)), hfield, hnone, hafter]
      rw [Option.some_or]
      exact ⟨rfl, by decide⟩

/-! ## Sections -/

/-- A section that is written is read whole, if the storage and the index have room for it, and its
lines are looked up as they were written. -/
theorem readHead_sectionText {σ : Type} [Transport σ] {buffer : HeaderBuffer} {c : σ}
    {ls : List Bytes} {rest : Bytes} {status : Nat} {framing : Framing}
    (hls : ∀ l ∈ ls, l ≠ [] ∧ Unbroken l) (hstatus : parseStatus (table ls) = .ok status)
    (hframing : parseFraming (.ofLines ls) = .ok framing) (hslots : ls.length ≤ maxHeaderLines)
    (hroom : (table ls).length < buffer.capacity) (hc : Delivers c (sectionText ls ++ rest)) :
    ∃ head buffer' c', readHead buffer c = (.ok head, buffer', c') ∧ head.status = status ∧
      head.framing = framing ∧ head.complete = true ∧ (head.headers buffer').lines = ls ∧
      Delivers c' rest := by
  have hsection := sectionLines_sectionText hls rest
  have hblank := afterBlankLine?_sectionText hls rest
  have hcut := cutLines_of_fits (Nat.le_of_lt hroom)
  have hstored : storedLines buffer.capacity (sectionText ls ++ rest) = ls := by
    rw [storedLines, hsection, hcut, List.take_of_length_le (Nat.le_succ_of_le hslots)]
  have hindexed : indexedLines buffer.capacity (sectionText ls ++ rest) = ls := by
    rw [indexedLines, hsection, hcut, List.take_of_length_le hslots]
  let head : ResponseHead := ⟨status, framing, true, lineRanges 0 ls⟩
  have hok : (readHead buffer c).1 = .ok head ↔ _ := readHead_eq_ok_iff hc head
  rw [hstored, hindexed, hblank, hsection] at hok
  have hanswer := hok.2 ⟨hstatus, hframing, ⟨fun _ => ⟨rfl, hslots, hroom⟩, fun _ => rfl⟩, rfl⟩
  cases hread : readHead buffer c with
  | mk answer left =>
      obtain ⟨buffer', c'⟩ := left
      rw [hread] at hanswer
      obtain rfl : answer = _ := hanswer
      obtain ⟨found, hreads⟩ := readHead_reads hread (by simp)
      have hd := (hreads.feed delivers_feed.toFeed hc).2
      rw [hblank] at hd
      -- the ranges give the lines that the capture holds
      have hholds := capture_holds delivers_feed.toFeed maxHeaderLines buffer.reset c _ hc
        (.inl delivers_feed)
      obtain ⟨rfl, -, hhead⟩ := readHead_ok hread
      obtain ⟨-, -, -, hranges⟩ := interpret_eq_ok_iff.1 hhead
      have hlines := hholds.lines_eq
      rw [hindexed] at hlines
      refine ⟨head, _, c', rfl, rfl, rfl, rfl, ?_, hd⟩
      rw [ResponseHead.headers, hranges]
      exact hlines

end HttpExchange
