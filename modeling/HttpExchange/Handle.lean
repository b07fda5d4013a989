import HttpExchange.Client

set_option autoImplicit false

/-! # Handles

A client with every field on its own. The connection, the response head, the progress of the body
and the state are set one after the other here, so that a handle can hold any combination of them;
a `Client` holds the stage of its exchange instead. An operation that finds its state but not the
fields that belong to it refuses its arguments.

A release takes the connection out of the handle. It leaves the response head where it is. -/

namespace HttpExchange

structure Handle (σ : Type) where
  host : String
  path : String
  secure : Bool
  /-- The connection, as long as the handle holds it. -/
  connection : Option σ
  header : HeaderBuffer
  head : Option ResponseHead
  body : Option BodyReader
  state : State
  /-- The connection as a release left it. No operation looks at it. -/
  released : Option σ

namespace Handle

variable {σ : Type}

/-! ## Construction and composition -/

def ofTarget (host path : String) (secure : Bool) (connection : σ) (header : HeaderBuffer) :
    Handle σ where
  host := host
  path := path
  secure := secure
  connection := some connection
  header := header
  head := none
  body := none
  state := if secure then .secured else .connected
  released := none

def compose {α : Type} (h : Handle σ) (edit : HeaderBuffer → α × HeaderBuffer) :
    α × Handle σ :=
  let (a, header) := edit h.header
  (a, { h with header := header })

variable [Transport σ]

/-- Takes over a connection that is already up. If the target is not acceptable, the
connection is closed before the error is reported. -/
def new (uri : String) (connection : σ) (storage : Bytes) : Except (Refusal σ) (Handle σ) :=
  match (Uri.parse uri).bind fun u => u.target.map fun target => (u.scheme, target) with
  | .ok (scheme, host, path) =>
      .ok (ofTarget host path scheme.isSecure connection (.ofStorage storage))
  | .error e => .error ⟨e, some (Transport.close connection).2⟩

/-! ## Release -/

/-- Takes the connection out of the handle and closes it. The answer is `none` if there is no
connection to take. -/
def release (h : Handle σ) : Option (Except Fault Unit) × Handle σ :=
  match h.connection with
  | none => (none, h)
  | some c =>
      let (result, c) := Transport.close c
      (some result, { h with
        connection := none
        state := .closed
        body := none
        host := ""
        path := ""
        released := some c })

def drop (h : Handle σ) : Option σ := h.release.2.released

def close (h : Handle σ) : Except Error Unit × Option σ :=
  let (result, h) := h.release
  (match result with
    | some (.error _) => .error .transportClosed
    | _ => .ok (), h.drop)

/-! ## The exchange -/

def writeRequest (header : Bytes) (body : Option Bytes) (c : σ) : Except Error Unit × σ :=
  match writeAll c header with
  | (.error e, c) => (.error e, c)
  | (.ok (), c) =>
      match body.elim (.ok (), c) (writeAll c) with
      | (.error e, c) => (.error e, c)
      | (.ok (), c) =>
          match Transport.flush c with
          | (.error _, c) => (.error .send, c)
          | (.ok (), c) => (.ok (), c)

/-- Sends the composed request and reads the response header. A failure leaves the handle as far
as it came. -/
def transact (h : Handle σ) (body : Option Bytes) : Except Error Nat × Handle σ :=
  match h.connection with
  | none => (.error .parameter, h)
  | some c =>
      match writeRequest h.header.written body c with
      | (.error e, c) => (.error e, { h with connection := some c })
      | (.ok (), c) =>
          let h := { h with state := .requestSent }
          match readHead h.header c with
          | (.error e, header, c) => (.error e, { h with header := header, connection := some c })
          | (.ok head, header, c) =>
              (.ok head.status, { h with
                header := header
                connection := some c
                body := some (.ofFraming head.framing)
                head := some head
                state := .headersReceived })

/-- Sends the composed request, reads the response header and answers the status code. It is
refused, with no effect, once a request was sent and while nothing is composed; any later
failure releases the connection. -/
def sendRequest (h : Handle σ) (body : Option Bytes) : Except Error Nat × Handle σ :=
  if h.state ≠ .connected ∧ h.state ≠ .secured then (.error .parameter, h)
  else if h.header.used = 0 then (.error .parameter, h)
  else
    match h.transact body with
    | (.ok status, h) => (.ok status, h)
    | (.error e, h) => (.error e, h.release.2)

/-- Reads the next piece of the response body into at most `room` bytes; an empty piece is the
end. A failure leaves the state as it was. -/
def receive (h : Handle σ) (mode : Mode) (room : Nat) : Except Error Bytes × Handle σ :=
  if h.state ≠ .headersReceived ∧ h.state ≠ .bodyStreaming then (.error .parameter, h)
  else
    match h.connection, h.body with
    | some c, some body =>
        match body.read mode room c with
        | (.error e, body, c) => (.error e, { h with connection := some c, body := some body })
        | (.ok piece, body, c) =>
            (.ok piece, { h with
              connection := some c
              body := some body
              state := .bodyStreaming })
    | _, _ => (.error .parameter, h)

end Handle

end HttpExchange
