import HttpExchange.Proofs.CapturedTable
import HttpExchange.Proofs.Decimal
import HttpExchange.Proofs.Memory.Capture

set_option autoImplicit false

/-! # Reading a response head in memory

What was captured is searched for the status code and for the fields that tell the framing. The
positions are those of the source text: the place of the status token, the place behind a field
name, the ranges of the index, the number of bytes that the digits of a length take. `headIn_eq`
shows for the whole of a head that they are all within what they go to, and that a head read in
memory is the one that `readHead` gives.
-/

namespace HttpExchange.Memory

open Ascii

/-! ## The status code -/

/-- The position at which the token occurs first. The token is not empty. -/
def positionOf (token : Bytes) : Bytes → Option Nat
  | [] => none
  | b :: bs => if token.isPrefixOf (b :: bs) then some 0 else (positionOf token bs).map (· + 1)

def digitsIn (number : Nat) : Bytes → Option (Except Error Nat)
  | [] => some (.ok number)
  | b :: bs => do
      let digit ← minus? b.toNat 48
      if number * 10 + digit < Numeral.shortBound then digitsIn (number * 10 + digit) bs
      else some (.error .parse)

def statusIn (bs : Bytes) : Option (Except Error Nat) :=
  match positionOf statusToken bs with
  | none => some (.error .parse)
  | some i => do
      let rest ← slice? bs (i + statusToken.length) bs.length
      let rest := (rest.dropWhile isDigit).dropWhile (· == space)
      let digits := rest.takeWhile isDigit
      if digits = [] then some (.error .parse) else digitsIn 0 digits

/-- The token stands at its position, and what follows it there is what follows its first
occurrence. -/
theorem positionOf_eq {token : Bytes} (htoken : token ≠ []) (bs : Bytes) :
    afterFirst? token bs = (positionOf token bs).map (fun i => bs.drop (i + token.length)) ∧
      ∀ i, positionOf token bs = some i → i + token.length ≤ bs.length := by
  induction bs with
  | nil =>
      obtain ⟨a, token, rfl⟩ := List.exists_cons_of_ne_nil htoken
      exact ⟨rfl, nofun⟩
  | cons b bs ih =>
      by_cases hprefix : token <+: b :: bs
      · have hposition : positionOf token (b :: bs) = some 0 := by
          rw [positionOf, if_pos (by simpa using hprefix)]
        obtain ⟨v, hv⟩ := hprefix
        rw [hposition, ← hv, afterFirst?_append_self]
        simp
      · -- the token is not in front, so both searches go on behind the byte
        have hposition : positionOf token (b :: bs) = (positionOf token bs).map (· + 1) := by
          rw [positionOf, if_neg (by simpa using hprefix)]
        rw [afterFirst?_cons hprefix, hposition, ih.1, Option.map_map]
        refine ⟨?_, ?_⟩
        · congr 1
          funext i
          simp [Nat.add_right_comm]
        · intro i hi
          obtain ⟨j, hj, rfl⟩ := Option.map_eq_some_iff.1 hi
          have := ih.2 j hj
          rw [List.length_cons]
          omega

theorem isDigit_iff {b : UInt8} : isDigit b = true ↔ 48 ≤ b.toNat ∧ b.toNat ≤ 57 := by
  unfold isDigit digit?
  split
  next hrange => exact iff_of_true rfl hrange
  next hrange => exact iff_of_false Bool.false_ne_true hrange

theorem digit?_of_isDigit {b : UInt8} (h : isDigit b = true) :
    48 ≤ b.toNat ∧ digit? b = some (b.toNat - 48) := by
  have hrange := isDigit_iff.1 h
  exact ⟨hrange.1, if_pos hrange⟩

theorem digitsIn_eq {digits : Bytes} (hdigits : ∀ b ∈ digits, isDigit b = true) (number : Nat) :
    digitsIn number digits = some ((Numeral.readFrom Numeral.shortBound 10 number
      (digits.map fun b => b.toNat - 48)).elim (.error .parse) .ok) := by
  induction digits generalizing number with
  | nil => rfl
  | cons b bs ih =>
      obtain ⟨hb, hbs⟩ := List.forall_mem_cons.1 hdigits
      rw [digitsIn, minus?_eq (digit?_of_isDigit hb).1, List.map_cons, Numeral.readFrom]
      simp only [Option.bind_eq_bind, Option.bind_some]
      split
      · exact ih hbs _
      · rfl

/-- **The status code is found within the captured bytes.** -/
theorem statusIn_eq (bs : Bytes) : statusIn bs = some (parseStatus bs) := by
  obtain ⟨hafter, hwithin⟩ := positionOf_eq (show statusToken ≠ [] by decide) bs
  unfold statusIn parseStatus
  rw [hafter]
  cases hposition : positionOf statusToken bs with
  | none => rfl
  | some i =>
      simp only [slice?_length (hwithin i hposition), Option.map_some, Option.bind_eq_bind,
        Option.bind_some]
      generalize ((bs.drop (i + statusToken.length)).dropWhile isDigit).dropWhile (· == space) =
        rest
      have hdigits : ∀ b ∈ rest.takeWhile isDigit, isDigit b = true :=
        List.all_eq_true.1 List.all_takeWhile
      have hvalues := mapM_eq_some_map fun b hb => (digit?_of_isDigit (hdigits b hb)).2
      rw [Numeral.decimal?, hvalues, Option.bind_some, Numeral.readBelow]
      by_cases hempty : rest.takeWhile isDigit = []
      · simp [hempty]
      · rw [if_neg hempty, digitsIn_eq hdigits, if_neg (by simpa using hempty)]
        cases Numeral.readFrom Numeral.shortBound 10 0 _ <;> rfl

/-! ## Fields -/

def valueIn (name bs : Bytes) : Option (Option String) :=
  if bs.length ≤ name.length then some none
  else do
    let separator ← bs[name.length]?
    if separator ≠ colon then some none
    else do
      let written ← slice? bs 0 name.length
      if sameLetters written name then do
        let raw ← slice? bs (name.length + 1) bs.length
        some (Headers.valueText? raw)
      else some none

def fieldIn (written name : Bytes) : List LineRange → Option (Option String)
  | [] => some none
  | r :: ranges => do
      let line ← slice? written r.start r.stop
      let value ← valueIn name line
      if value.isSome then some value else fieldIn written name ranges

theorem valueIn_eq (name bs : Bytes) : valueIn name bs = some (Headers.value? name bs) := by
  unfold valueIn Headers.value? Headers.afterName?
  by_cases hshort : bs.length ≤ name.length
  · rw [if_pos hshort, List.drop_of_length_le hshort]
    simp
  · have hlong : name.length < bs.length := Nat.lt_of_not_le hshort
    rw [if_neg hshort, List.getElem?_eq_getElem hlong, slice?_zero (Nat.le_of_lt hlong),
      slice?_length hlong, List.drop_eq_getElem_cons hlong]
    by_cases hcolon : bs[name.length] = colon
    · by_cases hsame : sameLetters (bs.take name.length) name = true <;> simp [hcolon, hsame]
    · simp [hcolon]

/-- **Fields are looked up within the written part.** -/
theorem fieldIn_eq {written : Bytes} {ranges : List LineRange}
    (hranges : ∀ r ∈ ranges, r.start ≤ r.stop ∧ r.stop ≤ written.length) (name : String) :
    fieldIn written (Text.encode name) ranges = some (Headers.get? ⟨written, ranges⟩ name) := by
  induction ranges with
  | nil => rfl
  | cons r ranges ih =>
      obtain ⟨⟨hle, hstop⟩, hrest⟩ := List.forall_mem_cons.1 hranges
      have hget : Headers.get? ⟨written, r :: ranges⟩ name =
          (Headers.value? (Text.encode name) (r.slice written)).or
            (Headers.get? ⟨written, ranges⟩ name) := by
        rw [Headers.get?, Headers.lines, List.map_cons, List.findSome?_cons]
        cases Headers.value? (Text.encode name) (r.slice written) <;> rfl
      have hline : slice? written r.start r.stop = some (r.slice written) := slice?_eq hle hstop
      rw [fieldIn, hline, ih hrest, hget]
      simp only [valueIn_eq, Option.bind_eq_bind, Option.bind_some]
      cases Headers.value? (Text.encode name) (r.slice written) <;> rfl

/-! ## The framing -/

/-- The characters that the first `n` bytes of a text stand for. The cut is at the end of a
character. -/
def charsBefore? : List Char → Nat → Option (List Char)
  | _, 0 => some []
  | [], _ + 1 => none
  | c :: cs, n + 1 =>
      if c.utf8Size ≤ n + 1 then (charsBefore? cs (n + 1 - c.utf8Size)).map (c :: ·) else none

def numberIn (value : String) : Option (Option Nat) :=
  let text := Text.trimStart value.toList
  let stop := ((Text.encode (String.ofList text)).takeWhile isDigit).length
  if stop = 0 then some none
  else do
    let number ← charsBefore? text stop
    some (Numeral.decimalText? Numeral.lengthBound number)

def framingIn (written : Bytes) (ranges : List LineRange) : Option (Except Error Framing) := do
  let length ← fieldIn written (Text.encode "Content-Length") ranges
  match length with
  | some value => do
      let number ← numberIn value
      match number with
      | some n => some (.ok (.contentLength n))
      | none => some (.error .parse)
  | none => do
      let coding ← fieldIn written (Text.encode "Transfer-Encoding") ranges
      some (if coding.any isChunkedCoding then .ok .chunked else .error .parse)

/-- The encoding of a character begins with a digit if and only if the character is one. -/
theorem isDigit_head_encode {c : Char} {b : UInt8} {bs : Bytes}
    (h : String.utf8EncodeChar c = b :: bs) : isDigit b = true ↔ c.isDigit = true := by
  rw [Char.isDigit_iff_toNat, isDigit_iff]
  by_cases hascii : c.toNat < 128
  · rw [Text.utf8EncodeChar_of_ascii hascii] at h
    obtain rfl := (List.cons.inj h).1
    have hnat : (UInt8.ofNat c.toNat).toNat = c.toNat := by
      rw [UInt8.toNat_ofNat']
      omega
    rw [hnat]
    exact Iff.rfl
  · have hhigh := Text.le_of_mem_utf8EncodeChar hascii (h ▸ List.mem_cons_self)
    have hzero : '9'.toNat = 57 := rfl
    constructor
    · rintro ⟨-, hle⟩
      omega
    · rintro ⟨-, hle⟩
      omega

/-- The digits that a text begins with take one byte each, so the bytes of digits that its encoding
begins with are theirs. -/
theorem charsBefore?_digits (cs : List Char) :
    charsBefore? cs ((Text.encode (String.ofList cs)).takeWhile isDigit).length =
      some (cs.takeWhile Char.isDigit) := by
  induction cs with
  | nil => rfl
  | cons c cs ih =>
      have hencode : Text.encode (String.ofList (c :: cs)) =
          String.utf8EncodeChar c ++ Text.encode (String.ofList cs) := by
        rw [Text.encode_eq_flatMap, Text.encode_eq_flatMap, String.toList_ofList,
          String.toList_ofList, List.flatMap_cons]
      obtain ⟨b, bs, hbytes⟩ := List.exists_cons_of_ne_nil (String.utf8EncodeChar_ne_nil (c := c))
      have hhead := isDigit_head_encode hbytes
      rw [hencode, hbytes, List.cons_append]
      by_cases hdigit : c.isDigit = true
      · have hascii : c.toNat ≤ 57 := (Char.isDigit_iff_toNat.1 hdigit).2
        -- a digit is one byte, so the byte position cuts no character
        have hsize : c.utf8Size = 1 :=
          Char.utf8Size_eq_one_iff.2 (UInt32.le_iff_toNat_le.2 (Nat.le_trans hascii (by decide)))
        obtain rfl : bs = [] := by
          rw [Text.utf8EncodeChar_of_ascii (by omega)] at hbytes
          exact (List.cons.inj hbytes).2.symm
        rw [List.takeWhile_cons_of_pos (hhead.2 hdigit), List.takeWhile_cons_of_pos hdigit,
          List.length_cons, charsBefore?, if_pos (by omega), hsize, Nat.add_sub_cancel,
          List.nil_append, ih]
        rfl
      · rw [List.takeWhile_cons_of_neg (mt hhead.1 hdigit), List.takeWhile_cons_of_neg hdigit]
        rfl

theorem numberIn_eq (value : String) : numberIn value = some (leadingNumber? value) := by
  have hchars := charsBefore?_digits (Text.trimStart value.toList)
  unfold numberIn leadingNumber?
  simp only
  split
  next hstop =>
    rw [hstop, charsBefore?] at hchars
    rw [← Option.some.inj hchars]
    rfl
  next =>
    rw [hchars]
    rfl

theorem framingIn_eq {written : Bytes} {ranges : List LineRange}
    (hranges : ∀ r ∈ ranges, r.start ≤ r.stop ∧ r.stop ≤ written.length) :
    framingIn written ranges = some (parseFraming ⟨written, ranges⟩) := by
  unfold framingIn parseFraming
  simp only [fieldIn_eq hranges, Option.bind_eq_bind, Option.bind_some]
  cases hlength : Headers.get? ⟨written, ranges⟩ "Content-Length" with
  | some value =>
      simp only [numberIn_eq, Option.bind_some]
      cases leadingNumber? value <;> rfl
  | none => rfl

/-! ## The head -/

variable {σ : Type} [Transport σ]

def interpretIn (m : Storage) (lines : List LineRange) (complete : Bool) :
    Option (Except Error ResponseHead) := do
  let written ← m.written?
  let status ← statusIn written
  match status with
  | .error e => some (.error e)
  | .ok status => do
      let framing ← framingIn written lines
      match framing with
      | .error e => some (.error e)
      | .ok framing => some (.ok ⟨status, framing, complete, lines⟩)

def headIn (m : Storage) (c : σ) : Option (Except Error ResponseHead × Storage × σ) := do
  let (stop, lines, m, c) ← captureIn maxHeaderLines [] ⟨List.replicate m.cells.length 0, 0⟩ c
  match stop with
  | .failed e => some (.error e, m, c)
  | .blankLine => do
      let head ← interpretIn m lines true
      some (head, m, c)
  | .closed => do
      let head ← interpretIn m lines false
      some (head, m, c)
  | .cut pos => do
      let (skipped, c) ← skipIn pos (List.replicate skipWindow 0) c
      match skipped with
      | .error e => some (.error e, m, c)
      | .ok _ => do
          let head ← interpretIn m lines false
          some (head, m, c)

theorem interpretIn_eq {b : HeaderBuffer} {lines : List LineRange}
    (hlines : ∀ r ∈ lines, r.start ≤ r.stop ∧ r.stop ≤ b.used) (complete : Bool) :
    interpretIn (.ofBuffer b) lines complete = some (interpret b lines complete) := by
  unfold interpretIn interpret
  simp only [Storage.written?_ofBuffer, statusIn_eq, framingIn_eq hlines, Option.bind_eq_bind,
    Option.bind_some]
  cases parseStatus b.written with
  | error e => rfl
  | ok status => cases parseFraming ⟨b.written, lines⟩ <;> rfl

/-- **A head is read within the storage.** -/
theorem headIn_eq (b : HeaderBuffer) (c : σ) :
    headIn (.ofBuffer b) c =
      some ((readHead b c).1, .ofBuffer (readHead b c).2.1, (readHead b c).2.2) := by
  have hreset : (⟨List.replicate (Storage.ofBuffer b).cells.length 0, 0⟩ : Storage) =
      .ofBuffer b.reset := by
    simp [Storage.ofBuffer, HeaderBuffer.storage, HeaderBuffer.used]
  have hcapture : captureIn maxHeaderLines [] (.ofBuffer b.reset) c = _ :=
    captureIn_eq maxHeaderLines [] b.reset c
  have hwindow : (List.replicate skipWindow (0 : UInt8)).length = skipWindow :=
    List.length_replicate
  have hhead := fun complete => interpretIn_eq (capture_index maxHeaderLines b.reset c) complete
  unfold headIn readHead
  rw [hreset, hcapture]
  simp only [Option.bind_eq_bind, Option.bind_some, List.nil_append]
  cases hstop : (capture maxHeaderLines b.reset c).stop with
  | failed e => rfl
  | blankLine => simp only [hhead, Option.bind_some]
  | closed => simp only [hhead, Option.bind_some]
  | cut pos =>
      simp only [skipIn_eq hwindow, Option.bind_some]
      rcases skipSection pos (capture maxHeaderLines b.reset c).rest with ⟨e | found, c'⟩
      · rfl
      · simp only [hhead, Option.bind_some]

end HttpExchange.Memory
