import HttpExchange.Session.Engine
import HttpExchange.Text.Description

set_option autoImplicit false

/-! # Sessions

A session moves bytes between a connection and a frame engine: everything the engine queues is
written out, and everything the peer sends is handed to the engine, whose events go to the
handler. The preface is out before a session exists. One round of the session, `runOnce`,
writes and flushes what is queued, makes one bounded read, hands the bytes over and writes
what they made the engine queue; `runWithin` makes rounds until the engine has nothing left to
do. -/

namespace HttpExchange

def receiveChunk : Nat := 4096

structure Session (w η : Type) where
  link : w
  handler : η
  isOpen : Bool := true

variable {w η β : Type} [Link w β]

/-- Writes every run that the engine has queued, and flushes. -/
def drainQueue (l : w) : Except Error Unit × w :=
  match _hp : FrameEngine.pendingSend l with
  | (none, l') => (.error .send, l')
  | (some [], l') =>
      match Transport.flush l' with
      | (.error _, l'') => (.error .send, l'')
      | (.ok (), l'') => (.ok (), l'')
  | (some (b :: bs), l') =>
      match _hw : writeAll l' (b :: bs) with
      | (.error e, l'') => (.error e, l'')
      | (.ok (), l'') => drainQueue l''
termination_by FrameEngine.backlog l
decreasing_by
  exact Nat.lt_of_le_of_lt (backlog_writeAll _hw)
    (FrameEngine.backlog_pendingSend _hp (List.cons_ne_nil b bs))

namespace Session

/-! ## Release -/

/-- Closes the connection of a session that still holds it. The answer is `none` if it was
released before. -/
def release (s : Session w η) : Option (Except Fault Unit) × Session w η :=
  if s.isOpen then
    let (result, l) := Transport.close s.link
    (some result, { s with link := l, isOpen := false })
  else (none, s)

def drop (s : Session w η) : w := s.release.2.link

def close (s : Session w η) : Except Error Unit × w :=
  let (result, s) := s.release
  (match result with
    | some (.error _) => .error .transportClosed
    | _ => .ok (), s.drop)

/-! ## Moving bytes -/

def flush (s : Session w η) : Except Error Unit × Session w η :=
  if s.isOpen then
    let (result, l) := drainQueue s.link
    (result, { s with link := l })
  else (.error .parameter, s)

/-- Queues a request and answers the number of its stream. Nothing is written yet. -/
def submit (s : Session w η) (fields : List HeaderField) (body : Option β) :
    Except Error Nat × Session w η :=
  if s.isOpen then
    match FrameEngine.submit s.link fields body with
    | (some stream, l) => (.ok stream, { s with link := l })
    | (none, l) => (.error .parameter, { s with link := l })
  else (.error .parameter, s)

/-- Whether the engine still waits for bytes to go out or to come in. -/
def isActive (s : Session w η) : Bool := FrameEngine.isActive s.link

variable [FrameHandler η]

/-- Hands bytes of the peer to the engine, and its events to the handler. The answer is
whether the engine accepted them. -/
def deliver (s : Session w η) (input : Bytes) : Bool × Session w η :=
  let got := FrameEngine.receive s.link input
  (got.accepted,
    { s with link := got.rest, handler := got.events.foldl FrameHandler.handle s.handler })

/-- Writes what is queued, makes one bounded read and hands its bytes to the engine. The
answer is their number; it is 0 if the read timed out. -/
def runOnce (s : Session w η) : Except Error Nat × Session w η :=
  match s.flush with
  | (.error e, s) => (.error e, s)
  | (.ok (), s) =>
      match Transport.read s.link receiveChunk with
      | (.error .timeout, l) => (.ok 0, { s with link := l })
      | (.error _, l) => (.error .transportClosed, { s with link := l })
      | (.ok [], l) => (.error .transportClosed, { s with link := l })
      | (.ok (b :: bs), l) =>
          match { s with link := l }.deliver (b :: bs) with
          | (false, s) => (.error .parse, s)
          | (true, s) =>
              match s.flush with
              | (.error e, s) => (.error e, s)
              | (.ok (), s) => (.ok (bs.length + 1), s)

/-- Makes rounds until the engine has nothing left to do, but not more than `rounds` of them;
the answer is `none` if that did not suffice. -/
def runWithin : Nat → Session w η → Option (Except Error Unit) × Session w η
  | rounds, s =>
      if s.isActive then
        match rounds with
        | 0 => (none, s)
        | rounds + 1 =>
            match s.runOnce with
            | (.error e, s) => (some (.error e), s)
            | (.ok _, s) => runWithin rounds s
      else (some (.ok ()), s)

end Session

/-! ## Construction and description -/

/-- Starts a session over a connection that is already up and writes the preface. If that
fails, the connection is closed. -/
def Session.new (link : w) (handler : η) : Except (Refusal w) (Session w η) :=
  match FrameEngine.start link with
  | (false, l) => .error ⟨.parameter, some (Session.mk l handler true).drop⟩
  | (true, l) =>
      match (Session.mk l handler true).flush with
      | (.error e, s) => .error ⟨e, some s.drop⟩
      | (.ok (), s) => .ok s

def Session.describe (s : Session w η) : String :=
  "Session \x7b open: " ++ Text.describeBool s.isOpen
    ++ ", active: " ++ Text.describeBool s.isActive ++ " \x7d"

end HttpExchange
