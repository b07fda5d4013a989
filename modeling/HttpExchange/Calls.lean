import HttpExchange.Session.Engine

set_option autoImplicit false

/-! # Calls on a connection and its engine

What a client or a session does to its connection, and to its frame engine, is the list of the
calls it makes and of the answers it gets. `Logged` is a connection, or a link, that answers
like the one inside it and keeps that list, the earliest call first. Statements about the order
of reads, writes, flushes and closes are statements about the list. -/

namespace HttpExchange

inductive Call
  /-- A read with room for so many bytes. -/
  | read (room : Nat) (answer : Except Fault Bytes)
  /-- A write that offered these bytes. -/
  | write (data : Bytes) (answer : Except Fault Nat)
  | flush (answer : Except Fault Unit)
  | close (answer : Except Fault Unit)
  /-- The start of the engine, and whether it agreed. -/
  | start (agreed : Bool)
  /-- A request for the engine, and the stream it was given. -/
  | submit (fields : List HeaderField) (stream : Option Nat)
  /-- The next run of bytes to send was asked for. -/
  | pending (run : Option Bytes)
  /-- Bytes of the peer were handed to the engine. -/
  | receive (input : Bytes) (accepted : Bool)

/-- A connection or a link together with the calls made on it. -/
structure Logged (w : Type) where
  inner : w
  calls : List Call := []

namespace Logged

variable {w β : Type}

/-- Makes a call on the inner state and notes it down. -/
def note {α : Type} (l : Logged w) (f : w → α × w) (call : α → Call) : α × Logged w :=
  ((f l.inner).1, ⟨(f l.inner).2, l.calls ++ [call (f l.inner).1]⟩)

theorem of_note {α : Type} {l l' : Logged w} {f : w → α × w} {call : α → Call} {a : α}
    (h : l.note f call = (a, l')) :
    f l.inner = (a, l'.inner) ∧ l'.calls = l.calls ++ [call a] := by
  cases h
  exact ⟨rfl, rfl⟩

instance [Transport w] : Transport (Logged w) where
  read l room := l.note (Transport.read · room) (.read room)
  write l data := l.note (Transport.write · data) (.write data)
  flush l := l.note Transport.flush .flush
  close l := l.note Transport.close .close
  supply l := Transport.supply l.inner
  read_length_le h := Transport.read_length_le (of_note h).1
  supply_read h := Transport.supply_read (of_note h).1
  write_le_length h := Transport.write_le_length (of_note h).1

instance [FrameEngine w β] : FrameEngine (Logged w) β where
  start l := l.note FrameEngine.start .start
  submit l fields body := l.note (FrameEngine.submit · fields body) (.submit fields)
  pendingSend l := l.note FrameEngine.pendingSend .pending
  receive l input :=
    let got := FrameEngine.receive l.inner input
    ⟨got.events, got.accepted, ⟨got.rest, l.calls ++ [.receive input got.accepted]⟩⟩
  isActive l := FrameEngine.isActive l.inner
  backlog l := FrameEngine.backlog l.inner
  backlog_pendingSend h := FrameEngine.backlog_pendingSend (of_note h).1

instance [Link w β] : Link (Logged w) β where
  backlog_write h := Link.backlog_write (of_note h).1

end Logged

end HttpExchange
