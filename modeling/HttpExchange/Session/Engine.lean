import HttpExchange.Transport

set_option autoImplicit false

/-! # Frame engines

Framing, header compression and flow control of HTTP/2 are the work of a frame engine, which
never touches a connection: it queues bytes to be sent and is handed the bytes that arrived.
The only law is that an engine holds finitely many queued bytes (`backlog`): taking a
non-empty run off its queue makes them fewer.

A session needs a connection and an engine at once. `Link` is a value that is both, where
writing to the connection adds nothing to the queue of the engine; `Wire` is the link made of
a connection and an engine of their own. -/

namespace HttpExchange

/-- One field of a header block. The name of a pseudo-header begins with a colon. -/
structure HeaderField where
  name : String
  value : String
  deriving DecidableEq

inductive FrameEvent
  /-- A header block on a stream. -/
  | headers (stream : Nat) (fields : List HeaderField)
  /-- Payload on a stream, and whether the stream ends with it. -/
  | data (stream : Nat) (payload : Bytes) (endStream : Bool)
  /-- A stream is closed, with code 0 if nothing went wrong. -/
  | streamClosed (stream : Nat) (code : Nat)
  deriving DecidableEq

/-- A receiver of frame events. By default it ignores them. -/
class FrameHandler (η : Type) where
  handle : η → FrameEvent → η := fun h _ => h

/-- The handler that ignores every event. -/
instance : FrameHandler Unit where

/-- The handler that keeps every event, the earliest first. -/
instance : FrameHandler (List FrameEvent) where
  handle events event := events ++ [event]

/-- What an engine makes of the bytes it was handed: the events they amount to, whether it
accepted them, and its state afterwards. -/
structure Received (ε : Type) where
  events : List FrameEvent
  accepted : Bool
  rest : ε

/-- A frame engine with state `ε` that takes request bodies of type `β`. -/
class FrameEngine (ε : Type) (β : outParam Type) where
  /-- Queues the preface; `false` means that the engine refuses to start. -/
  start : ε → Bool × ε
  /-- Queues a request and answers the number of its stream, if it is acceptable. -/
  submit : ε → List HeaderField → Option β → Option Nat × ε
  /-- The next run of bytes to send, which counts as sent; empty if nothing is queued. -/
  pendingSend : ε → Option Bytes × ε
  receive : ε → Bytes → Received ε
  /-- Whether some stream still waits for bytes to go out or to come in. -/
  isActive : ε → Bool
  /-- A bound on the number of runs that are queued. -/
  backlog : ε → Nat
  /-- A run that is handed out leaves fewer. -/
  backlog_pendingSend : ∀ {e e' : ε} {run : Bytes},
    pendingSend e = (some run, e') → run ≠ [] → backlog e' < backlog e

class Link (w : Type) (β : outParam Type) extends Transport w, FrameEngine w β where
  /-- Writing queues nothing. -/
  backlog_write : ∀ {l l' : w} {data : Bytes} {r : Except Fault Nat},
    write l data = (r, l') → backlog l' ≤ backlog l

/-- Writing all of some data adds nothing to the queue of the engine. -/
theorem backlog_writeAll {w β : Type} [Link w β] {l l' : w} {data : Bytes}
    {r : Except Error Unit} (h : writeAll l data = (r, l')) :
    FrameEngine.backlog l' ≤ FrameEngine.backlog l := by
  fun_induction writeAll l data generalizing l' r with
  | case1 => cases h; exact Nat.le_refl _
  | case2 _ _ _ _ _ hw => cases h; exact Link.backlog_write hw
  | case3 _ _ _ _ hw => cases h; exact Link.backlog_write hw
  | case4 _ _ _ _ _ hw ih => exact Nat.le_trans (ih h) (Link.backlog_write hw)

/-! ## A connection beside an engine -/

structure Wire (σ ε : Type) where
  connection : σ
  engine : ε

namespace Wire

variable {σ ε β : Type}

def onConnection {α : Type} (f : σ → α × σ) (l : Wire σ ε) : α × Wire σ ε :=
  ((f l.connection).1, { l with connection := (f l.connection).2 })

def onEngine {α : Type} (f : ε → α × ε) (l : Wire σ ε) : α × Wire σ ε :=
  ((f l.engine).1, { l with engine := (f l.engine).2 })

theorem of_onConnection {α : Type} {f : σ → α × σ} {l l' : Wire σ ε} {a : α}
    (h : onConnection f l = (a, l')) :
    f l.connection = (a, l'.connection) ∧ l'.engine = l.engine := by
  cases h
  exact ⟨rfl, rfl⟩

theorem of_onEngine {α : Type} {f : ε → α × ε} {l l' : Wire σ ε} {a : α}
    (h : onEngine f l = (a, l')) :
    f l.engine = (a, l'.engine) ∧ l'.connection = l.connection := by
  cases h
  exact ⟨rfl, rfl⟩

instance [Transport σ] : Transport (Wire σ ε) where
  read l room := onConnection (Transport.read · room) l
  write l data := onConnection (Transport.write · data) l
  flush l := onConnection Transport.flush l
  close l := onConnection Transport.close l
  supply l := Transport.supply l.connection
  read_length_le h := Transport.read_length_le (of_onConnection h).1
  supply_read h := Transport.supply_read (of_onConnection h).1
  write_le_length h := Transport.write_le_length (of_onConnection h).1

instance [FrameEngine ε β] : FrameEngine (Wire σ ε) β where
  start l := onEngine FrameEngine.start l
  submit l fields body := onEngine (FrameEngine.submit · fields body) l
  pendingSend l := onEngine FrameEngine.pendingSend l
  receive l input :=
    let got := FrameEngine.receive l.engine input
    ⟨got.events, got.accepted, { l with engine := got.rest }⟩
  isActive l := FrameEngine.isActive l.engine
  backlog l := FrameEngine.backlog l.engine
  backlog_pendingSend h := FrameEngine.backlog_pendingSend (of_onEngine h).1

instance [Transport σ] [FrameEngine ε β] : Link (Wire σ ε) β where
  backlog_write h :=
    Nat.le_of_eq (congrArg (fun e : ε => FrameEngine.backlog e) (of_onConnection h).2)

end Wire

end HttpExchange
