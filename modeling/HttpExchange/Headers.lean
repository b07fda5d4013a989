import HttpExchange.Text.Blank
import HttpExchange.Text.Utf8

set_option autoImplicit false

/-! # Captured header lines

The lines of a captured header are kept as ranges of byte positions in the header storage.
Looking a field up walks the ranges in order: a line carries the field `name` if it begins
with that name, up to the case of ASCII letters, and a colon follows at once. Its value is the
text after the colon without one leading space and without trailing blanks; a line whose value
is not UTF-8 has no value and is passed over. -/

namespace HttpExchange

/-- A range of byte positions, from `start` to just before `stop`. -/
structure LineRange where
  start : Nat
  stop : Nat
  deriving DecidableEq

def LineRange.slice (r : LineRange) (bs : Bytes) : Bytes :=
  (bs.drop r.start).take (r.stop - r.start)

/-- Header lines: the bytes they stand in, and their ranges. -/
structure Headers where
  bytes : Bytes
  ranges : List LineRange

namespace Headers

/-- The lines in order, the status line first, without their terminators. -/
def lines (h : Headers) : List Bytes := h.ranges.map (·.slice h.bytes)

def statusLine? (h : Headers) : Option Bytes := h.lines.head?

/-- What follows the name and the colon, if the line carries the field. -/
def afterName? (name line : Bytes) : Option Bytes :=
  if Ascii.sameLetters (line.take name.length) name then
    match line.drop name.length with
    | c :: rest => if c = Ascii.colon then some rest else none
    | [] => none
  else none

/-- The text of a field value: one leading space and all trailing blanks are not part of it. -/
def valueText? (raw : Bytes) : Option String :=
  let value := match raw with
    | b :: rest => if b = Ascii.space then rest else raw
    | [] => []
  (Text.decode? value).map fun s => String.ofList (Text.trimEnd s.toList)

def value? (name line : Bytes) : Option String :=
  (afterName? name line).bind valueText?

/-- The value of the first line that gives one to the field. -/
def get? (h : Headers) (name : String) : Option String :=
  h.lines.findSome? (value? (Text.encode name))

end Headers

end HttpExchange
