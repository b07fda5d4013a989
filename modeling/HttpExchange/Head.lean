import HttpExchange.HeaderBuffer
import HttpExchange.Headers
import HttpExchange.Numeral
import HttpExchange.Section

set_option autoImplicit false

/-! # Response heads

The header section of a response is captured in the header storage line by line, the CR of
every line replaced by a null byte, so that the written part is a table of null-terminated
lines. The capture stops at the blank line, at the end of the stream, when the storage is full
or when the index has no slot left; in the last two cases the rest of the section is skipped,
so the connection stands at the first byte of the body either way. What was captured must then
give a status code and the way in which the length of the body is told. -/

namespace HttpExchange

/-- How the length of a body is told. -/
inductive Framing
  | contentLength (n : Nat)
  | chunked
  deriving DecidableEq

/-- What is known of a response once its header section is over. -/
structure ResponseHead where
  status : Nat
  framing : Framing
  /-- Whether the section was captured whole, with its blank line. -/
  complete : Bool
  /-- Where the captured lines stand in the header storage. -/
  lines : List LineRange
  deriving DecidableEq

namespace ResponseHead

def contentLength? (head : ResponseHead) : Option Nat :=
  match head.framing with
  | .contentLength n => some n
  | .chunked => none

def isChunked (head : ResponseHead) : Bool := head.framing == .chunked

/-- The captured lines as they stand in the buffer now. -/
def headers (head : ResponseHead) (buffer : HeaderBuffer) : Headers :=
  ⟨buffer.written, head.lines⟩

end ResponseHead

/-! ## Capture -/

/-- The most lines that the index holds, the status line included. -/
def maxHeaderLines : Nat := 64

inductive CaptureEnd
  | blankLine
  /-- The peer closed after some bytes. -/
  | closed
  /-- The storage or the index has no room for the rest, which begins here. -/
  | cut (rest : Position)
  /-- A read failed, or the peer closed without sending anything. -/
  | failed (e : Error)
  deriving DecidableEq

structure Captured (σ : Type) where
  stop : CaptureEnd
  lines : List LineRange
  buffer : HeaderBuffer
  rest : σ

/-- The index entry for `length` bytes from `start`: none for an empty line, and none if no
slot is left. -/
def indexEntry (slots start length : Nat) : List LineRange :=
  if slots = 0 ∨ length = 0 then [] else [⟨start, start + length⟩]

variable {σ : Type} [Transport σ]

/-- Captures lines behind what the buffer holds, as long as an index of `slots` free slots
lasts. -/
def capture (slots : Nat) (buffer : HeaderBuffer) (c : σ) : Captured σ :=
  if buffer.isFull then ⟨.cut .lineStart, [], buffer, c⟩
  else
    let start := buffer.used
    let g := gather false buffer.remaining c
    match g.stop with
    | .fault f => ⟨.failed (.ofFault f), [], buffer.overlay g.stored, g.rest⟩
    | .crlf =>
        -- the last stored byte is the CR of the terminator
        let line := g.stored.dropLast
        if line = [] then ⟨.blankLine, [], buffer.overlay [0], g.rest⟩
        else
          let buffer := buffer.push (line ++ [0])
          match slots with
          | 0 => ⟨.cut .lineStart, [], buffer, g.rest⟩
          | slots + 1 =>
              let more := capture slots buffer g.rest
              { more with lines := ⟨start, start + line.length⟩ :: more.lines }
    | .full carry =>
        ⟨.cut (.inLine carry), indexEntry slots start g.stored.length, buffer.push g.stored,
          g.rest⟩
    | .closed =>
        -- a peer that closes before it sends anything has sent no header
        if g.stored = [] ∧ start = 0 then ⟨.failed .transportClosed, [], buffer, g.rest⟩
        else
          let line := if g.stored.length < buffer.remaining then g.stored ++ [0] else g.stored
          ⟨.closed, indexEntry slots start g.stored.length, buffer.push line, g.rest⟩

/-! ## Interpretation -/

def statusToken : Bytes := [72, 84, 84, 80, 47, 49, 46]

/-- What follows the first occurrence of the token. -/
def afterFirst? (token : Bytes) : Bytes → Option Bytes
  | [] => token.isPrefixOf? []
  | b :: bs =>
      match token.isPrefixOf? (b :: bs) with
      | some rest => some rest
      | none => afterFirst? token bs

/-- The status code: after the first `HTTP/1.`, digits and then spaces are passed over, and
the digits that follow are the code. -/
def parseStatus (bs : Bytes) : Except Error Nat :=
  match afterFirst? statusToken bs with
  | none => .error .parse
  | some rest =>
      let rest := (rest.dropWhile Ascii.isDigit).dropWhile (· == Ascii.space)
      match Numeral.decimal? Numeral.shortBound (rest.takeWhile Ascii.isDigit) with
      | some status => .ok status
      | none => .error .parse

/-- The number that a field value begins with, after blanks. -/
def leadingNumber? (value : String) : Option Nat :=
  Numeral.decimalText? Numeral.lengthBound ((Text.trimStart value.toList).takeWhile Char.isDigit)

/-- Whether `chunked` is the last of the listed codings, in any case of its letters. -/
def isChunkedCoding (value : String) : Bool :=
  let last := (value.toList.reverse.takeWhile (· != ',')).reverse
  (Text.trim last).map Char.toLower == "chunked".toList

/-- The way in which the length of the body is told. A `Content-Length` field that can be
looked up is taken, or refused, before any transfer coding. -/
def parseFraming (headers : Headers) : Except Error Framing :=
  match headers.get? "Content-Length" with
  | some value =>
      match leadingNumber? value with
      | some n => .ok (.contentLength n)
      | none => .error .parse
  | none =>
      if (headers.get? "Transfer-Encoding").any isChunkedCoding then .ok .chunked
      else .error .parse

def interpret (buffer : HeaderBuffer) (lines : List LineRange) (complete : Bool) :
    Except Error ResponseHead :=
  match parseStatus buffer.written with
  | .error e => .error e
  | .ok status =>
      match parseFraming ⟨buffer.written, lines⟩ with
      | .error e => .error e
      | .ok framing => .ok ⟨status, framing, complete, lines⟩

/-- Clears the buffer, captures a header section in it, takes the rest of the section off the
connection and interprets what was captured. -/
def readHead (buffer : HeaderBuffer) (c : σ) :
    Except Error ResponseHead × HeaderBuffer × σ :=
  let got := capture maxHeaderLines buffer.reset c
  match got.stop with
  | .failed e => (.error e, got.buffer, got.rest)
  | .blankLine => (interpret got.buffer got.lines true, got.buffer, got.rest)
  | .closed => (interpret got.buffer got.lines false, got.buffer, got.rest)
  | .cut pos =>
      match skipSection pos got.rest with
      | (.error e, c') => (.error e, got.buffer, c')
      | (.ok _, c') => (interpret got.buffer got.lines false, got.buffer, c')

end HttpExchange
