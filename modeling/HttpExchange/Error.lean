import HttpExchange.Fault

set_option autoImplicit false

/-! # Errors of an exchange

The ten ways in which an operation on a client or a session can fail. Nothing is retried:
short reads, timeouts and closed peers reach the caller as they happened. -/

namespace HttpExchange

inductive Error
  /-- An argument is not acceptable, or the operation is not allowed in this state. -/
  | parameter
  /-- A host or a path is longer than a handle can hold. -/
  | memory
  /-- The text is no `http://` or `https://` target with an authority. -/
  | invalidUri
  /-- The host does not resolve, or no address of it accepted the connection. -/
  | connect
  | secure
  | send
  /-- What the peer sent breaks the message grammar. -/
  | parse
  /-- Text does not fit the header storage, or a chunk does not fit the caller's buffer. -/
  | bufferFull
  /-- The peer closed the connection, or reading from it failed. -/
  | transportClosed
  | timeout
  deriving DecidableEq

namespace Error

def message : Error → String
  | .parameter => "invalid parameter"
  | .memory => "value exceeds fixed storage"
  | .invalidUri => "invalid uri"
  | .connect => "connect failed"
  | .secure => "secure transport setup failed"
  | .send => "send failed"
  | .parse => "malformed response"
  | .bufferFull => "buffer full"
  | .transportClosed => "transport closed"
  | .timeout => "timed out"

/-- A fault met while reading: a timeout stays one, any other fault means that nothing more
will come. -/
def ofFault : Fault → Error
  | .timeout => .timeout
  | _ => .transportClosed

theorem ofFault_eq_timeout_iff {f : Fault} : ofFault f = .timeout ↔ f = .timeout := by
  cases f <;> simp [ofFault]

theorem ofFault_ne_timeout_iff {f : Fault} : ofFault f = .transportClosed ↔ f ≠ .timeout := by
  cases f <;> simp [ofFault]

end Error

end HttpExchange
