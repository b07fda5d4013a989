import HttpExchange.Body
import HttpExchange.Text.Description
import HttpExchange.Uri

set_option autoImplicit false

/-! # Clients

A client runs one request and its response over one connection. The request header is composed
in the header storage; `sendRequest` writes it, with a body if there is one, and captures the
response header in the same storage; `receive` delivers the body. There is no second request:
a send that fails after its arguments were accepted releases the connection, and so do `close`
and `drop`. A released handle keeps the connection only as it was left, and no operation
touches it again. -/

namespace HttpExchange

/-- The lifecycle of a client, as its caller sees it. -/
inductive State
  | connected
  | secured
  /-- The request is out and the response header is being read. -/
  | requestSent
  /-- The response header is known and no body was read. -/
  | headersReceived
  /-- The body is being read. -/
  | bodyStreaming
  | closed
  deriving DecidableEq

def State.name : State → String
  | connected => "Connected"
  | secured => "Secured"
  | requestSent => "RequestSent"
  | headersReceived => "HeadersReceived"
  | bodyStreaming => "BodyStreaming"
  | closed => "Closed"

/-- How far the exchange of a client has come, with what is known then. -/
inductive Stage
  | composing
  | awaiting
  /-- The response header is known; `streaming` says that a body read has succeeded. -/
  | answered (head : ResponseHead) (body : BodyReader) (streaming : Bool)
  | closed
  deriving DecidableEq

structure Client (σ : Type) where
  /-- The authority of the target; empty once the connection is released. -/
  host : String
  /-- The path of the target; empty once the connection is released. -/
  path : String
  /-- Whether the target asks for a secure connection. -/
  secure : Bool
  /-- The connection; once it is released, as it was left. -/
  connection : σ
  /-- The request being composed, then the captured response header. -/
  header : HeaderBuffer
  /-- How far the exchange has come. -/
  stage : Stage

namespace Client

variable {σ : Type}

/-! ## What the caller sees -/

def state (k : Client σ) : State :=
  match k.stage with
  | .composing => if k.secure then .secured else .connected
  | .awaiting => .requestSent
  | .answered _ _ streaming => if streaming then .bodyStreaming else .headersReceived
  | .closed => .closed

def response? (k : Client σ) : Option ResponseHead :=
  match k.stage with
  | .answered head _ _ => some head
  | _ => none

def body? (k : Client σ) : Option BodyReader :=
  match k.stage with
  | .answered _ body _ => some body
  | _ => none

def status? (k : Client σ) : Option Nat := k.response?.map (·.status)

def contentLength? (k : Client σ) : Option Nat := k.response?.bind (·.contentLength?)

def isChunked (k : Client σ) : Bool := k.response?.any (·.isChunked)

/-- The captured lines as they stand in the header storage now. -/
def headers? (k : Client σ) : Option Headers := k.response?.map (·.headers k.header)

def headerValue? (k : Client σ) (name : String) : Option String :=
  k.headers?.bind (·.get? name)

/-! ## Construction and composition -/

def ofTarget (host path : String) (secure : Bool) (connection : σ) (header : HeaderBuffer) :
    Client σ :=
  ⟨host, path, secure, connection, header, .composing⟩

/-- Composes in the header storage. This is allowed in every state. -/
def compose {α : Type} (k : Client σ) (edit : HeaderBuffer → α × HeaderBuffer) :
    α × Client σ :=
  let (a, header) := edit k.header
  (a, { k with header := header })

variable [Transport σ]

/-- Takes over a connection that is already up. If the target is not acceptable, the
connection is closed before the error is reported. -/
def new (uri : String) (connection : σ) (storage : Bytes) : Except (Refusal σ) (Client σ) :=
  match Uri.parse uri with
  | .error e => .error ⟨e, some (Transport.close connection).2⟩
  | .ok u =>
      match u.target with
      | .error e => .error ⟨e, some (Transport.close connection).2⟩
      | .ok (host, path) =>
          .ok (ofTarget host path u.scheme.isSecure connection (.ofStorage storage))

/-! ## Release -/

/-- Closes the connection of a handle that still holds it, and clears the handle. The answer
is `none` if the connection was released before. -/
def release (k : Client σ) : Option (Except Fault Unit) × Client σ :=
  match k.stage with
  | .closed => (none, k)
  | _ =>
      let (result, c) := Transport.close k.connection
      (some result, { k with host := "", path := "", connection := c, stage := .closed })

/-- Ends the handle without a report, and leaves the connection as it is then. -/
def drop (k : Client σ) : σ := k.release.2.connection

/-- Ends the handle, and reports a connection that could not be closed properly. -/
def close (k : Client σ) : Except Error Unit × σ :=
  let (result, k) := k.release
  (match result with
    | some (.error _) => .error .transportClosed
    | _ => .ok (), k.drop)

/-! ## The exchange -/

/-- Writes the composed header and the body, and flushes. -/
def transmit (k : Client σ) (body : Option Bytes) : Except Error Unit × Client σ :=
  match writeAll k.connection k.header.written with
  | (.error e, c) => (.error e, { k with connection := c })
  | (.ok (), c) =>
      match writeAll c (body.getD []) with
      | (.error e, c) => (.error e, { k with connection := c })
      | (.ok (), c) =>
          match Transport.flush c with
          | (.error _, c) => (.error .send, { k with connection := c })
          | (.ok (), c) => (.ok (), { k with connection := c, stage := .awaiting })

def awaitHead (k : Client σ) : Except Error Nat × Client σ :=
  match readHead k.header k.connection with
  | (.error e, header, c) => (.error e, { k with header := header, connection := c })
  | (.ok head, header, c) =>
      (.ok head.status, { k with
        header := header
        connection := c
        stage := .answered head (.ofFraming head.framing) false })

def transact (k : Client σ) (body : Option Bytes) : Except Error Nat × Client σ :=
  match k.transmit body with
  | (.error e, k) => (.error e, k)
  | (.ok (), k) => k.awaitHead

/-- Sends the composed request, reads the response header and answers the status code. It is
refused, with no effect, once a request was sent and while nothing is composed; any later
failure releases the connection. -/
def sendRequest (k : Client σ) (body : Option Bytes) : Except Error Nat × Client σ :=
  if k.stage ≠ .composing ∨ k.header.used = 0 then (.error .parameter, k)
  else
    match k.transact body with
    | (.ok status, k) => (.ok status, k)
    | (.error e, k) => (.error e, k.release.2)

/-- Reads the next piece of the response body into at most `room` bytes; an empty piece is the
end. A failure leaves the state as it was. -/
def receive (k : Client σ) (mode : Mode) (room : Nat) : Except Error Bytes × Client σ :=
  match k.stage with
  | .answered head body streaming =>
      match body.read mode room k.connection with
      | (.error e, body, c) =>
          (.error e, { k with connection := c, stage := .answered head body streaming })
      | (.ok piece, body, c) =>
          (.ok piece, { k with connection := c, stage := .answered head body true })
  | _ => (.error .parameter, k)

theorem supply_receive_lt {k k' : Client σ} {mode : Mode} {room : Nat} {b : UInt8} {bs : Bytes}
    (h : k.receive mode room = (.ok (b :: bs), k')) :
    Transport.supply k'.connection < Transport.supply k.connection := by
  unfold receive at h
  split at h
  · split at h
    next => cases h
    next hr =>
      cases h
      exact supply_read_lt hr
  · cases h

/-- Reads pieces of at most `room` bytes until the end of the body or a failure: the pieces,
how it ended, and the client afterwards. -/
def drain (k : Client σ) (mode : Mode) (room : Nat) :
    List Bytes × Except Error Unit × Client σ :=
  match _h : k.receive mode room with
  | (.error e, k') => ([], .error e, k')
  | (.ok [], k') => ([], .ok (), k')
  | (.ok (b :: bs), k') =>
      match drain k' mode room with
      | (pieces, ending, k'') => ((b :: bs) :: pieces, ending, k'')
termination_by Transport.supply k.connection
decreasing_by exact supply_receive_lt _h

end Client

/-! ## Description -/

def Framing.describe : Framing → String
  | .contentLength n => "ContentLength(" ++ n.repr ++ ")"
  | .chunked => "Chunked"

def LineRange.describe (r : LineRange) : String :=
  "(" ++ r.start.repr ++ ", " ++ r.stop.repr ++ ")"

def ResponseHead.describe (head : ResponseHead) : String :=
  "ResponseHead \x7b status: " ++ head.status.repr
    ++ ", framing: " ++ head.framing.describe
    ++ ", complete: " ++ Text.describeBool head.complete
    ++ ", lines: [" ++ String.intercalate ", " (head.lines.map LineRange.describe) ++ "] \x7d"

def Client.describe {σ : Type} (k : Client σ) : String :=
  "Client \x7b host: " ++ Text.quote k.host
    ++ ", path: " ++ Text.quote k.path
    ++ ", secure: " ++ Text.describeBool k.secure
    ++ ", state: " ++ k.state.name
    ++ ", header_used: " ++ k.header.used.repr
    ++ ", head: "
    ++ (match k.response? with
      | none => "None"
      | some head => "Some(" ++ head.describe ++ ")")
    ++ " \x7d"

end HttpExchange
