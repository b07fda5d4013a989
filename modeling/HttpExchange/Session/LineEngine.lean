import HttpExchange.Numeral
import HttpExchange.Session.Engine
import HttpExchange.Text.Utf8

set_option autoImplicit false

/-! # An engine of text lines

A frame engine whose frames are lines of text, for sessions that are played by hand. It queues
`PREFACE`, `REQ id name=value …`, `DATA id payload` and `ACK id`. A line of the peer is a
letter, a stream number and a rest: `H` is a status, `D` a payload, `E` the clean end of a
stream, which is acknowledged, and `R` its reset. A line that is none of these is refused and
dropped, and the bytes after it are kept for the next time. -/

namespace HttpExchange

/-- What successive reads of a request body give: bytes, or a failure of the source. -/
abbrev BodyPieces := List (Option Bytes)

structure LineEngine.Settings where
  startFails : Bool := false
  /-- The longest run that is handed out at once. -/
  runLimit : Option Nat := none
  /-- The number of runs after which asking for one fails. -/
  runsOk : Option Nat := none
  deriving DecidableEq

structure LineEngine where
  settings : LineEngine.Settings := {}
  /-- Bytes to be sent. -/
  outbound : Bytes := []
  /-- Bytes of the peer that are not a whole line yet. -/
  inbound : Bytes := []
  nextStream : Nat := 1
  /-- The number of streams that the peer has not ended. -/
  openStreams : Nat := 0
  started : Bool := false
  /-- How often a run was asked for. -/
  runs : Nat := 0
  deriving DecidableEq

namespace LineEngine

/-- The most bytes of a body piece that one frame carries. -/
def frameLimit : Nat := 32

def maxStreamDigits : Nat := 9

/-- The code of a stream that the peer has reset. -/
def resetCode : Nat := 8

def queue (e : LineEngine) (line : Bytes) : LineEngine :=
  { e with outbound := e.outbound ++ line ++ [Ascii.lf] }

/-- Queues the preface, unless the engine is set to refuse. -/
def start (e : LineEngine) : Bool × LineEngine :=
  if e.settings.startFails then (false, e)
  else (true, { e with started := true }.queue (Text.encode "PREFACE"))

/-- Queues one frame for each piece of a body, and an empty one for a body without pieces. A
source that fails ends the body. -/
def queueBody (stream : Nat) : BodyPieces → LineEngine → Bool × LineEngine
  | [], e => (true, e.queue (Text.encode ("DATA " ++ stream.repr ++ " ")))
  | none :: _, e => (false, e)
  | some piece :: rest, e =>
      let e := e.queue (Text.encode ("DATA " ++ stream.repr ++ " ") ++ piece.take frameLimit)
      if rest = [] then (true, e) else queueBody stream rest e

/-- Queues a request on a stream of its own. A request without fields is refused. -/
def submit (e : LineEngine) (fields : List HeaderField) (body : Option BodyPieces) :
    Option Nat × LineEngine :=
  if fields = [] then (none, e)
  else
    let stream := e.nextStream
    let line := Text.encode ("REQ " ++ stream.repr) ++
      fields.flatMap fun f => Text.encode (" " ++ f.name ++ "=" ++ f.value)
    let e := { e with nextStream := stream + 2, openStreams := e.openStreams + 1 }.queue line
    match body with
    | none => (some stream, e)
    | some pieces =>
        match queueBody stream pieces e with
        | (true, e) => (some stream, e)
        | (false, e) => (none, e)

def pendingSend (e : LineEngine) : Option Bytes × LineEngine :=
  let e := { e with runs := e.runs + 1 }
  if e.settings.runsOk.any (· < e.runs) then (none, e)
  else
    let n := (e.settings.runLimit.map (min e.outbound.length)).getD e.outbound.length
    (some (e.outbound.take n), { e with outbound := e.outbound.drop n })

/-- The text before the first space, and the text after it. -/
def splitSpace (bs : Bytes) : Bytes × Bytes :=
  (bs.takeWhile (· != Ascii.space), (bs.dropWhile (· != Ascii.space)).tail)

def streamNumber? (bs : Bytes) : Option Nat :=
  if bs.length ≤ maxStreamDigits then Numeral.decimal? (Nat.pow 10 maxStreamDigits) bs else none

def endStream (e : LineEngine) : LineEngine := { e with openStreams := e.openStreams - 1 }

/-- The events of one line of the peer, or `none` if it is refused. -/
def interpret (e : LineEngine) (line : Bytes) : Option (List FrameEvent) × LineEngine :=
  let (kind, rest) := splitSpace line
  let (number, payload) := splitSpace rest
  match streamNumber? number with
  | none => (none, e)
  | some stream =>
      if kind = Text.encode "H" then
        ((Text.decode? payload).map fun status => [.headers stream [⟨":status", status⟩]], e)
      else if kind = Text.encode "D" then (some [.data stream payload false], e)
      else if kind = Text.encode "E" then
        (some [.data stream [] true, .streamClosed stream 0],
          e.endStream.queue (Text.encode ("ACK " ++ stream.repr)))
      else if kind = Text.encode "R" then (some [.streamClosed stream resetCode], e.endStream)
      else (none, e)

private theorem length_tail_dropWhile_lt {p : UInt8 → Bool} {bs rest : Bytes} {b : UInt8}
    (h : bs.dropWhile p = b :: rest) : rest.length < bs.length := by
  have := (List.dropWhile_suffix p (l := bs)).length_le
  rw [h] at this
  exact this

/-- Takes the lines of the peer one after another, and keeps what is not a whole line. -/
def receiveLines (e : LineEngine) (input : Bytes) : Received LineEngine :=
  match _h : input.dropWhile (· != Ascii.lf) with
  | [] => ⟨[], true, { e with inbound := input }⟩
  | _ :: rest =>
      match e.interpret (input.takeWhile (· != Ascii.lf)) with
      | (none, e) => ⟨[], false, { e with inbound := rest }⟩
      | (some events, e) =>
          let more := receiveLines e rest
          { more with events := events ++ more.events }
termination_by input.length
decreasing_by exact length_tail_dropWhile_lt _h

instance : FrameEngine LineEngine BodyPieces where
  start := start
  submit := submit
  pendingSend := pendingSend
  receive e input := e.receiveLines (e.inbound ++ input)
  isActive e := e.started && e.openStreams != 0
  backlog e := e.outbound.length
  backlog_pendingSend := by
    intro e e' run h hne
    unfold pendingSend at h
    simp only at h
    split at h
    next => cases h
    next =>
      cases h
      rw [ne_eq, List.take_eq_nil_iff, not_or] at hne
      have := List.length_pos_iff.2 hne.2
      have := Nat.pos_of_ne_zero hne.1
      simp only [List.length_drop]
      omega

end LineEngine

end HttpExchange
