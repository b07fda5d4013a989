set_option autoImplicit false

/-! # Faults of a connection

A connection reports what went wrong with one of nine faults, whatever carries its bytes.
A connection over a socket derives them from the condition the operating system reports. -/

namespace HttpExchange

/-- What a connection reports when an operation on it fails. -/
inductive Fault
  | notOpen
  | writeError
  | readError
  /-- Nobody accepted the connection. -/
  | connectionRefused
  | timeout
  /-- The other side is gone. -/
  | connectionClosed
  /-- The address names no host. -/
  | invalidAddress
  /-- The other side broke the protocol below. -/
  | protocolError
  /-- The secure layer rejected the other side or a record of it. -/
  | tlsError
  deriving DecidableEq

def Fault.message : Fault → String
  | .notOpen => "connection not open"
  | .writeError => "write failed"
  | .readError => "read failed"
  | .connectionRefused => "connection refused"
  | .timeout => "timed out"
  | .connectionClosed => "connection closed"
  | .invalidAddress => "invalid address"
  | .protocolError => "protocol error"
  | .tlsError => "tls error"

/-- The conditions of a socket that are told apart; `other` stands for all the rest. -/
inductive SocketCondition
  | wouldBlock
  | timedOut
  | unexpectedEof
  | connectionReset
  | connectionAborted
  | brokenPipe
  | connectionRefused
  | notConnected
  | invalidData
  | other
  deriving DecidableEq

def SocketCondition.fault : SocketCondition → Fault
  | .wouldBlock | .timedOut => .timeout
  | .unexpectedEof | .connectionReset | .connectionAborted | .brokenPipe => .connectionClosed
  | .connectionRefused => .connectionRefused
  | .notConnected => .notOpen
  | .invalidData => .tlsError
  | .other => .readError

end HttpExchange
