import HttpExchange.Error
import HttpExchange.Text.Utf8

set_option autoImplicit false

/-! # Header storage of fixed size

A request header is composed in storage of fixed size, and the response header is later
captured in the same storage. The storage is its written part followed by its spare part; no
operation changes the sum of their lengths. Text that does not fit is written as far as it
goes, and the operation then answers `bufferFull`. -/

namespace HttpExchange

inductive Method
  | get
  | head
  | post
  | put
  | delete
  | patch
  | options
  deriving DecidableEq

def Method.token : Method → String
  | get => "GET"
  | head => "HEAD"
  | post => "POST"
  | put => "PUT"
  | delete => "DELETE"
  | patch => "PATCH"
  | options => "OPTIONS"

/-- One step of a value that writes itself as text. -/
inductive Piece
  /-- Writes text, and stops the formatting if that fails. -/
  | text (s : String)
  /-- Writes text, and goes on even if that fails. -/
  | softText (s : String)
  /-- Fails of itself. -/
  | failure
  deriving DecidableEq

/-- Storage of fixed size, filled from the front. -/
structure HeaderBuffer where
  /-- The part written so far. -/
  written : Bytes
  /-- The rest of the storage, with whatever it holds. -/
  spare : Bytes
  deriving DecidableEq

namespace HeaderBuffer

def ofStorage (storage : Bytes) : HeaderBuffer := ⟨[], storage⟩

def zeroed (capacity : Nat) : HeaderBuffer := ofStorage (List.replicate capacity 0)

def storage (b : HeaderBuffer) : Bytes := b.written ++ b.spare

def used (b : HeaderBuffer) : Nat := b.written.length

def remaining (b : HeaderBuffer) : Nat := b.spare.length

def capacity (b : HeaderBuffer) : Nat := b.used + b.remaining

def isFull (b : HeaderBuffer) : Bool := b.remaining == 0

/-- Zeroes the storage and starts again at its front. -/
def reset (b : HeaderBuffer) : HeaderBuffer := zeroed b.capacity

/-- Puts bytes at the front of the spare part, without counting them as written. -/
def overlay (b : HeaderBuffer) (bs : Bytes) : HeaderBuffer :=
  { b with spare := bs ++ b.spare.drop bs.length }

/-- Counts the first `n` bytes of the spare part as written. -/
def advance (b : HeaderBuffer) (n : Nat) : HeaderBuffer :=
  ⟨b.written ++ b.spare.take n, b.spare.drop n⟩

/-- Writes the bytes, as far as they fit. -/
def push (b : HeaderBuffer) (bs : Bytes) : HeaderBuffer :=
  let fitting := bs.take b.remaining
  (b.overlay fitting).advance fitting.length

/-- Writes the bytes and answers their number, or `bufferFull` if they do not all fit. -/
def appendBytes (b : HeaderBuffer) (bs : Bytes) : Except Error Nat × HeaderBuffer :=
  (if bs.length ≤ b.remaining then .ok bs.length else .error .bufferFull, b.push bs)

structure Formatted where
  /-- Whether it ran to its end. -/
  finished : Bool
  /-- Whether some text did not fit. -/
  overflowed : Bool
  buffer : HeaderBuffer

/-- Runs the pieces one after another. Once a text did not fit, every later one fails and
writes nothing, even if it is empty. -/
def format (overflowed : Bool) (b : HeaderBuffer) : List Piece → Formatted
  | [] => ⟨true, overflowed, b⟩
  | .failure :: _ => ⟨false, overflowed, b⟩
  | .text s :: rest =>
      if overflowed then ⟨false, true, b⟩
      else
        match b.appendBytes (Text.encode s) with
        | (.ok _, b') => format false b' rest
        | (.error _, b') => ⟨false, true, b'⟩
  | .softText s :: rest =>
      if overflowed then format true b rest
      else
        match b.appendBytes (Text.encode s) with
        | (.ok _, b') => format false b' rest
        | (.error _, b') => format true b' rest

/-- Writes the pieces and answers the number of bytes written. A formatting that did not
finish is a `bufferFull` if some text did not fit, and a `parameter` error otherwise. -/
def append (b : HeaderBuffer) (pieces : List Piece) : Except Error Nat × HeaderBuffer :=
  let run := b.format false pieces
  (if run.finished then .ok (run.buffer.used - b.used)
    else if run.overflowed then .error .bufferFull
    else .error .parameter, run.buffer)

def requestLine (b : HeaderBuffer) (method : Method) (path : String) :
    Except Error Nat × HeaderBuffer :=
  b.append [.text method.token, .text " ", .text path, .text " HTTP/1.1\r\n"]

def field (b : HeaderBuffer) (name value : String) : Except Error Nat × HeaderBuffer :=
  b.append [.text name, .text ": ", .text value, .text "\r\n"]

def endHeaders (b : HeaderBuffer) : Except Error Nat × HeaderBuffer :=
  b.appendBytes Ascii.crlf

/-! ## Written part, spare part and capacity -/

@[simp] theorem capacity_eq (b : HeaderBuffer) :
    b.capacity = b.written.length + b.spare.length := rfl

@[simp] theorem reset_written (b : HeaderBuffer) : b.reset.written = [] := rfl

@[simp] theorem reset_spare (b : HeaderBuffer) :
    b.reset.spare = List.replicate b.capacity 0 := rfl

theorem capacity_reset (b : HeaderBuffer) : b.reset.capacity = b.capacity := by simp

/-- Bytes that fit are written after the ones written before. -/
theorem advance_overlay {b : HeaderBuffer} {bs : Bytes} :
    (b.overlay bs).advance bs.length = ⟨b.written ++ bs, b.spare.drop bs.length⟩ := by
  simp [overlay, advance]

theorem push_eq (b : HeaderBuffer) (bs : Bytes) :
    b.push bs = ⟨b.written ++ bs.take b.remaining, b.spare.drop bs.length⟩ := by
  rw [push, advance_overlay, List.length_take, remaining]
  rcases Nat.le_total b.spare.length bs.length with h | h
  · rw [Nat.min_eq_left h, List.drop_of_length_le (Nat.le_refl _), List.drop_of_length_le h]
  · rw [Nat.min_eq_right h]

@[simp] theorem push_written (b : HeaderBuffer) (bs : Bytes) :
    (b.push bs).written = b.written ++ bs.take b.remaining := by
  rw [push_eq]

@[simp] theorem push_spare (b : HeaderBuffer) (bs : Bytes) :
    (b.push bs).spare = b.spare.drop bs.length := by
  rw [push_eq]

theorem capacity_push (b : HeaderBuffer) (bs : Bytes) : (b.push bs).capacity = b.capacity := by
  simp [remaining, List.length_take, List.length_drop]
  omega

/-- Bytes that fit are all written. -/
theorem push_written_of_fits {b : HeaderBuffer} {bs : Bytes} (h : bs.length ≤ b.remaining) :
    (b.push bs).written = b.written ++ bs := by
  rw [push_written, List.take_of_length_le h]

theorem used_push_of_fits {b : HeaderBuffer} {bs : Bytes} (h : bs.length ≤ b.remaining) :
    (b.push bs).used = b.used + bs.length := by
  rw [used, push_written_of_fits h, List.length_append, used]

end HeaderBuffer

end HttpExchange
