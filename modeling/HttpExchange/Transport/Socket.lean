import HttpExchange.Address
import HttpExchange.Transport

set_option autoImplicit false

/-! # Sockets

A connected socket with the bytes that are on their way in both directions, so that the far
end can be played beside it. Bytes that the peer sent are there at once; a read with nothing
to read ends the wait with a timeout, unless the peer has ended its side. Once the socket is
shut down nothing can be written, a read gives what had arrived and then nothing, and the peer
finds the end of the stream behind the last byte. -/

namespace HttpExchange

structure Socket where
  peer : Address × Nat
  /-- The bound on every wait, in milliseconds; without one a wait lasts. -/
  patience : Option Nat
  /-- Bytes of the peer that were not read yet. -/
  inbound : Bytes := []
  /-- Whether the peer has ended its side. -/
  peerEnded : Bool := false
  /-- Bytes that the peer has not read yet. -/
  outbound : Bytes := []
  /-- Whether this end is shut down, in both directions. -/
  isShut : Bool := false
  deriving DecidableEq

namespace Socket

/-! ## The near end -/

def read (s : Socket) (room : Nat) : Except Fault Bytes × Socket :=
  if s.inbound = [] ∧ room ≠ 0 ∧ s.peerEnded = false ∧ s.isShut = false then
    (.error SocketCondition.wouldBlock.fault, s)
  else (.ok (s.inbound.take room), { s with inbound := s.inbound.drop room })

/-- The fault of a write: only a timeout is told apart. -/
def writeFault (condition : SocketCondition) : Fault :=
  match condition.fault with
  | .timeout => .timeout
  | _ => .writeError

def write (s : Socket) (data : Bytes) : Except Fault Nat × Socket :=
  if s.isShut then (.error (writeFault .brokenPipe), s)
  else (.ok data.length, { s with outbound := s.outbound ++ data })

def shutdown (s : Socket) : Socket := { s with isShut := true }

instance : Transport Socket where
  read := read
  write := write
  flush s := (.ok (), s)
  close s := (.ok (), s.shutdown)
  supply s := s.inbound.length
  read_length_le h := by
    unfold read at h
    split at h
    next => cases h
    next => cases h; simp only [List.length_take]; omega
  supply_read h := by
    unfold read at h
    split at h
    next => cases h
    next => cases h; simp only [List.length_take, List.length_drop]; omega
  write_le_length h := by
    unfold write at h
    split at h
    next => cases h
    next => cases h; exact Nat.le_refl _

/-! ## The far end -/

def peerSend (s : Socket) (data : Bytes) : Socket := { s with inbound := s.inbound ++ data }

def peerEnd (s : Socket) : Socket := { s with peerEnded := true }

/-- The peer reads until it has `n` bytes or meets the end of the stream; the truth value says
that it met the end. -/
def peerRead (s : Socket) (n : Nat) : (Bytes × Bool) × Socket :=
  ((s.outbound.take n, s.isShut && s.outbound.length < n),
    { s with outbound := s.outbound.drop n })

end Socket

end HttpExchange
