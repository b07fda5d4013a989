import HttpExchange.Head

set_option autoImplicit false

/-! # Response bodies

A body is delivered piece by piece. In normal mode one piece is one read, bounded by what is
left of the announced length. In chunked mode one piece is one chunk: a line with its size in
hexadecimal, so many bytes, and CR LF. An empty piece marks the end of the body. -/

namespace HttpExchange

/-- How a piece of the body is read. -/
inductive Mode
  /-- One bounded read. -/
  | normal
  /-- One whole chunk. -/
  | chunked
  deriving DecidableEq

/-- The longest chunk-size line, its CR included. -/
def maxChunkLine : Nat := 128

/-- The progress of a body. -/
structure BodyReader where
  /-- The bytes still to come, if the length was announced. -/
  remaining : Option Nat
  /-- The size of a chunk that was announced and did not fit the caller's buffer. -/
  pendingChunk : Option Nat := none
  /-- Whether the end of the body was reported. -/
  finished : Bool := false
  deriving DecidableEq

/-- The size on a chunk-size line: what stands before the first semicolon, without blanks
around it, as a hexadecimal numeral. -/
def parseChunkSize (line : Bytes) : Option Nat :=
  Numeral.hexadecimal? Numeral.lengthBound (Ascii.trim (line.takeWhile (· != Ascii.semicolon)))

variable {σ : Type} [Transport σ]

def readChunkSize (c : σ) : Except Error Nat × σ :=
  let g := gather false maxChunkLine c
  match g.stop with
  | .fault f => (.error (.ofFault f), g.rest)
  | .closed => (.error .transportClosed, g.rest)
  | .full _ => (.error .parse, g.rest)
  | .crlf =>
      match parseChunkSize g.stored.dropLast with
      | some size => (.ok size, g.rest)
      | none => (.error .parse, g.rest)

/-- Reads the bytes of a chunk and the CR LF after them. -/
def readChunkData (c : σ) (size : Nat) : Except Error Bytes × σ :=
  match readExact c size with
  | (.error e, c) => (.error e, c)
  | (.ok bs, c) =>
      match readExact c Ascii.crlf.length with
      | (.error e, c) => (.error e, c)
      | (.ok ending, c) => (if ending = Ascii.crlf then .ok bs else .error .parse, c)

namespace BodyReader

/-- The start of a body whose length is told by `framing`. -/
def ofFraming : Framing → BodyReader
  | .contentLength n => { remaining := some n }
  | .chunked => { remaining := none }

/-- Reads a piece of at most `room` bytes with one read. -/
def readNormal (r : BodyReader) (room : Nat) (c : σ) : Except Error Bytes × BodyReader × σ :=
  if r.remaining = some 0 then (.ok [], { r with finished := true }, c)
  else
    match Transport.read c ((r.remaining.map (min · room)).getD room) with
    | (.error f, c) => (.error (.ofFault f), r, c)
    | (.ok [], c) =>
        if r.remaining.isSome then (.error .transportClosed, r, c)
        else (.ok [], { r with finished := true }, c)
    | (.ok (b :: bs), c) =>
        (.ok (b :: bs), { r with remaining := r.remaining.map (· - (bs.length + 1)) }, c)

/-- Goes on behind a chunk-size line that announced `size` bytes. -/
def readSized (r : BodyReader) (size room : Nat) (c : σ) :
    Except Error Bytes × BodyReader × σ :=
  if size = 0 then
    match skipSection .lineStart c with
    | (.error e, c) => (.error e, r, c)
    | (.ok _, c) => (.ok [], { r with finished := true }, c)
  else if room < size then (.error .bufferFull, { r with pendingChunk := some size }, c)
  else
    match readChunkData c size with
    | (result, c) => (result, r, c)

/-- Reads the next chunk into at most `room` bytes. A size line is read once: a chunk that did
not fit is taken up where it was left. -/
def readChunk (r : BodyReader) (room : Nat) (c : σ) : Except Error Bytes × BodyReader × σ :=
  match r.pendingChunk with
  | some size => { r with pendingChunk := none }.readSized size room c
  | none =>
      match readChunkSize c with
      | (.error e, c) => (.error e, r, c)
      | (.ok size, c) => r.readSized size room c

/-- Reads the next piece of the body into at most `room` bytes; an empty piece is the end. -/
def read (r : BodyReader) (mode : Mode) (room : Nat) (c : σ) :
    Except Error Bytes × BodyReader × σ :=
  if room = 0 then (.error .parameter, r, c)
  else if r.finished then (.ok [], r, c)
  else
    match mode with
    | .normal => r.readNormal room c
    | .chunked => r.readChunk room c

end BodyReader

/-! ## Progress -/

theorem supply_readChunkSize {c c' : σ} {size : Nat} (h : readChunkSize c = (.ok size, c')) :
    Transport.supply c' ≤ Transport.supply c := by
  unfold readChunkSize at h
  simp only at h
  split at h
  next => cases h
  next => cases h
  next => cases h
  next hs =>
    have hg := @supply_gather σ _ false maxChunkLine c (by simp [hs])
    split at h
    · cases h
      omega
    · cases h

theorem supply_readChunkData {c c' : σ} {size : Nat} {bs : Bytes}
    (h : readChunkData c size = (.ok bs, c')) :
    Transport.supply c' + size ≤ Transport.supply c := by
  unfold readChunkData at h
  split at h
  next => cases h
  next h₁ =>
    split at h
    next => cases h
    next h₂ =>
      obtain ⟨_, rfl⟩ := Prod.mk.inj h
      have := supply_readExact h₁
      have := supply_readExact h₂
      omega

theorem supply_readSized {r r' : BodyReader} {size room : Nat} {c c' : σ} {b : UInt8}
    {bs : Bytes} (h : r.readSized size room c = (.ok (b :: bs), r', c')) :
    Transport.supply c' < Transport.supply c := by
  unfold BodyReader.readSized at h
  split at h
  next =>
    split at h
    · cases h
    · cases h
  next hpos =>
    split at h
    · cases h
    · cases hd : readChunkData c size with
      | mk a d =>
          rw [hd] at h
          cases h
          have := supply_readChunkData hd
          omega

/-- Every piece of a body is taken off the supply of the connection. -/
theorem supply_read_lt {r r' : BodyReader} {mode : Mode} {room : Nat} {c c' : σ} {b : UInt8}
    {bs : Bytes} (h : r.read mode room c = (.ok (b :: bs), r', c')) :
    Transport.supply c' < Transport.supply c := by
  unfold BodyReader.read at h
  split at h
  · cases h
  split at h
  · cases h
  split at h
  · -- a bounded read is one read of the connection
    unfold BodyReader.readNormal at h
    split at h
    · cases h
    · split at h
      next => cases h
      next => split at h <;> cases h
      next hr =>
        cases h
        have := Transport.supply_read hr
        simp only [List.length_cons] at this
        omega
  · -- a size line may be read first, and it gives nothing back
    unfold BodyReader.readChunk at h
    split at h
    · exact supply_readSized h
    · split at h
      next => cases h
      next hs => exact Nat.lt_of_lt_of_le (supply_readSized h) (supply_readChunkSize hs)

end HttpExchange
