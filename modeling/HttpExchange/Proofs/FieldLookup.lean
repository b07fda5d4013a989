import HttpExchange.Proofs.Precedence

set_option autoImplicit false

/-! # Which line answers a lookup

Looking a field up in captured lines finds the first line that gives it a value (`Gives`), and a
field whose value is not UTF-8 gives none. So the first field of the name settles the lookup only if
its value is UTF-8: then it answers whatever stands behind it. If it is not, the lines behind it are
looked at as if it were not there (`get?_first_text`), and one of them may answer
(`later_field_answers`). -/

namespace HttpExchange

open Ascii

/-! ## Values that are text -/

/-- Bytes have a text for their value exactly if they are UTF-8: the space that does not count is
one byte of a text. -/
theorem exists_valueText_iff {raw : Bytes} :
    (∃ value, ValueText raw value) ↔ ∃ text, raw = Text.encode text := by
  constructor
  · rintro ⟨value, blanks, rfl | ⟨rfl, -⟩, -⟩
    · refine ⟨" " ++ (value ++ blanks), ?_⟩
      rw [Text.encode_append]
      rfl
    · exact ⟨_, rfl⟩
  · rintro ⟨text, rfl⟩
    suffices h : (Headers.valueText? (Text.encode text)).isSome by
      obtain ⟨value, hvalue⟩ := Option.isSome_iff_exists.1 h
      exact ⟨value, valueText?_eq_some_iff.1 hvalue⟩
    cases hraw : Text.encode text with
    | nil => decide +kernel
    | cons b rest =>
        by_cases hb : b = space
        · obtain ⟨text', rfl⟩ := Text.exists_encode_of_cons (hb ▸ by decide) hraw
          rw [hb, valueText?_encode, Option.isSome_some]
        · simp [Headers.valueText?, if_neg hb, ← hraw]

theorem ne_encode_of_decode? {raw : Bytes} (h : Text.decode? raw = none) (text : String) :
    raw ≠ Text.encode text := by
  rintro rfl
  rw [Text.decode?_encode] at h
  cases h

/-- The line of a field gives the value that its bytes behind the colon have. -/
theorem gives_field_iff {name value : String} {written raw : Bytes}
    (hname : sameLetters written (Text.encode name) = true) :
    Gives name (written ++ colon :: raw) value ↔ ValueText raw value := by
  constructor
  · rintro ⟨written', raw', hline, hname', hvalue⟩
    -- both names are as long as the one that is looked up
    have hlen : written.length = written'.length :=
      (sameLetters_length hname).trans (sameLetters_length hname').symm
    obtain ⟨-, hraw⟩ := List.append_inj hline hlen
    obtain ⟨-, rfl⟩ := List.cons.inj hraw
    exact hvalue
  · exact fun hvalue => ⟨written, raw, rfl, hname, hvalue⟩

/-! ## The first field of a name -/

/-- A lookup depends on the lines alone. -/
theorem get?_ofLines_lines (h : Headers) (name : String) :
    (Headers.ofLines h.lines).get? name = h.get? name :=
  get?_congr (Headers.lines_ofLines h.lines) name

/-- **The first field settles the lookup if its value is text.** In any table of captured lines and
for any name, a lookup answers the value of the first line that gives one, and nothing if no line
does. Take the first line that is a field of this name. If what stands behind its colon is UTF-8,
then its value is answered, whatever the lines behind it are. If not, then the answer is that of the
lines behind it. -/
theorem get?_first_text (h : Headers) (name : String) :
    (∀ value, h.get? name = some value ↔ FirstGives name h.lines value) ∧
    (h.get? name = none ↔ ∀ l ∈ h.lines, ∀ value, ¬ Gives name l value) ∧
    ∀ before written raw after, h.lines = before ++ (written ++ colon :: raw) :: after →
      (∀ l ∈ before, ¬ IsField name l) → sameLetters written (Text.encode name) = true →
      (∀ text, raw = Text.encode text → ∃ value, ValueText raw value ∧ h.get? name = some value) ∧
      ((∀ text, raw ≠ Text.encode text) → h.get? name = (Headers.ofLines after).get? name) := by
  simp only [← get?_ofLines_lines h]
  refine ⟨fun value => get?_eq_some_iff, get?_eq_none_iff, ?_⟩
  intro before written raw after hlines hbefore hname
  have hnone : ∀ l ∈ before, Headers.value? (Text.encode name) l = none := fun l hl =>
    value?_eq_none_iff.2 fun value hvalue => hbefore l hl hvalue.isField
  -- with the lines in front out of the way, the value of the line decides
  rw [hlines, get?_ofLines_eq hnone]
  constructor
  · intro text htext
    obtain ⟨value, hvalue⟩ := exists_valueText_iff.2 ⟨text, htext⟩
    refine ⟨value, hvalue, ?_⟩
    rw [value?_eq_some_iff.2 ⟨written, raw, rfl, hname, hvalue⟩, Option.some_or]
  · intro hraw
    have hline : Headers.value? (Text.encode name) (written ++ colon :: raw) = none := by
      rw [value?_eq_none_iff]
      intro value hvalue
      obtain ⟨text, htext⟩ := exists_valueText_iff.1 ⟨value, (gives_field_iff hname).1 hvalue⟩
      exact hraw text htext
    rw [hline, Option.none_or]

def twiceAccepted : Headers :=
  .ofLines [Text.encode "HTTP/1.1 200 OK", Text.encode "accept:  a ", Text.encode "Accept: b"]

def onceReadable : Headers :=
  .ofLines [Text.encode "HTTP/1.1 200 OK", Text.encode "Accept:" ++ [space, 255],
    Text.encode "Accept: b"]

/-- Of two values that are text the first is answered, and of its two spaces in front one is left. A
value that is not text leaves the answer to the line behind it. -/
theorem get?_first_text_accepted :
    (∃ value, ValueText (Text.encode "  a ") value ∧ twiceAccepted.get? "Accept" = some value ∧
      value = " a") ∧
    onceReadable.get? "Accept" = (Headers.ofLines [Text.encode "Accept: b"]).get? "Accept" := by
  obtain ⟨-, -, hfirst⟩ := get?_first_text twiceAccepted "Accept"
  obtain ⟨-, -, hlater⟩ := get?_first_text onceReadable "Accept"
  constructor
  · obtain ⟨value, hvalue, hget⟩ := (hfirst [Text.encode "HTTP/1.1 200 OK"] (Text.encode "accept")
      (Text.encode "  a ") [Text.encode "Accept: b"] (by decide +kernel) (by decide +kernel)
      (by decide +kernel)).1 _ rfl
    have ha : twiceAccepted.get? "Accept" = some " a" := by decide +kernel
    exact ⟨value, hvalue, hget, Option.some.inj (hget.symm.trans ha)⟩
  · refine (hlater [Text.encode "HTTP/1.1 200 OK"] (Text.encode "Accept") [space, 255] _
      (by decide +kernel) (by decide +kernel) (by decide +kernel)).2 ?_
    exact ne_encode_of_decode? (by decide +kernel)

/-- A reply with two fields of one name, and the first value is not text. -/
def latinField : Script where
  steps := [.data (Text.encode "HTTP/1.1 200 OK\r\nX: " ++ 255 ::
    Text.encode "\r\nX: b\r\nContent-Length: 0\r\n\r\n")]

/-- The first field of the name has a value that is not UTF-8, and the value of the next one is
answered. -/
theorem later_field_answers :
    let run := readHead (.zeroed 64) latinField
    ∃ head, run.1 = .ok head ∧
      (head.headers run.2.1).lines = [Text.encode "HTTP/1.1 200 OK"] ++
        (Text.encode "X" ++ colon :: [space, 255]) ::
        [Text.encode "X: b", Text.encode "Content-Length: 0"] ∧
      ¬ IsField "X" (Text.encode "HTTP/1.1 200 OK") ∧
      (∀ text, [space, 255] ≠ Text.encode text) ∧
      (head.headers run.2.1).get? "X" = some "b" := by
  intro run
  have hhead : run.1 =
      .ok ⟨200, .contentLength 0, true, [⟨0, 15⟩, ⟨16, 20⟩, ⟨21, 25⟩, ⟨26, 43⟩]⟩ := by
    decide +kernel
  exact ⟨_, hhead, by decide +kernel, by decide +kernel,
    ne_encode_of_decode? (by decide +kernel), by decide +kernel⟩

end HttpExchange
