import HttpExchange.Transport

set_option autoImplicit false

/-! # Scripted connections

A scripted connection plays a peer from a list of steps and keeps account of everything done
to it. A data step is handed out by as many reads as it takes, and one read never spans two
steps; a fault step fails one read and is gone; when no step is left the peer has closed. How
much a write accepts and which writes, flushes and closes fail is part of the script too. -/

namespace HttpExchange

/-- What reads of a scripted connection meet next. -/
inductive Script.Step
  | data (bs : Bytes)
  | fault (f : Fault)
  deriving DecidableEq

/-- How a scripted connection treats what is written to it. -/
structure Script.Behaviour where
  /-- The most bytes that one write accepts. -/
  writeLimit : Option Nat := none
  /-- The number of writes after which writing fails. -/
  writesOk : Option Nat := none
  writeFault : Fault := .writeError
  /-- The number of flushes after which flushing fails. -/
  flushesOk : Option Nat := none
  closeFails : Bool := false
  deriving DecidableEq

/-- A connection that follows a script, with its account of what was done to it. -/
structure Script where
  /-- What reads meet, the next first. -/
  steps : List Script.Step
  /-- How writes, flushes and closes are treated. -/
  behaviour : Script.Behaviour := {}
  reads : Nat := 0
  writes : Nat := 0
  /-- The bytes accepted so far. -/
  written : Bytes := []
  flushes : Nat := 0
  closes : Nat := 0
  deriving DecidableEq

namespace Script

/-- Whether the use with this number lies beyond the number of uses that succeed. -/
def exceeds (number : Nat) (allowed : Option Nat) : Bool :=
  match allowed with
  | none => false
  | some n => n < number

def read (c : Script) (room : Nat) : Except Fault Bytes × Script :=
  let c := { c with reads := c.reads + 1 }
  match c.steps with
  | [] => (.ok [], c)
  | .fault f :: rest => (.error f, { c with steps := rest })
  | .data bs :: rest =>
      let left := bs.drop room
      (.ok (bs.take room), { c with steps := if left = [] then rest else .data left :: rest })

def write (c : Script) (data : Bytes) : Except Fault Nat × Script :=
  let c := { c with writes := c.writes + 1 }
  if exceeds c.writes c.behaviour.writesOk then (.error c.behaviour.writeFault, c)
  else
    let n := match c.behaviour.writeLimit with
      | none => data.length
      | some limit => min data.length limit
    (.ok n, { c with written := c.written ++ data.take n })

/-- Counts a flush, which fails once the script's flushes are used up. -/
def flush (c : Script) : Except Fault Unit × Script :=
  let c := { c with flushes := c.flushes + 1 }
  (if exceeds c.flushes c.behaviour.flushesOk then .error .writeError else .ok (), c)

def close (c : Script) : Except Fault Unit × Script :=
  (if c.behaviour.closeFails then .error .connectionClosed else .ok (),
    { c with closes := c.closes + 1 })

def Step.bytes : Step → Bytes
  | .data bs => bs
  | .fault _ => []

/-- The bytes that the script still has to give, whatever reads they are cut into. -/
def stream (c : Script) : Bytes := c.steps.flatMap Step.bytes

/-- A successful read takes its bytes off the front of the stream. -/
theorem stream_read {c c' : Script} {room : Nat} {bs : Bytes}
    (h : c.read room = (.ok bs, c')) : c.stream = bs ++ c'.stream := by
  unfold read at h
  simp only at h
  split at h
  next hs => cases h; simp [stream, hs]
  next => cases h
  next ds rest hs =>
    cases h
    have hcut := List.take_append_drop room ds
    split
    next hd =>
      rw [hd, List.append_nil] at hcut
      simp [stream, hs, Step.bytes, hcut]
    next =>
      simp only [stream, hs, List.flatMap_cons, Step.bytes]
      rw [← List.append_assoc, hcut]

/-- A read never gives more than there is room for. -/
theorem length_le_of_read {c c' : Script} {room : Nat} {bs : Bytes}
    (h : c.read room = (.ok bs, c')) : bs.length ≤ room := by
  unfold read at h
  simp only at h
  split at h
  next => cases h; simp
  next => cases h
  next => cases h; exact List.length_take_le _ _

/-- A write never accepts more than it was offered. -/
theorem le_length_of_write {c c' : Script} {data : Bytes} {n : Nat}
    (h : c.write data = (.ok n, c')) : n ≤ data.length := by
  unfold write at h
  simp only at h
  split at h
  next => cases h
  next =>
    cases h
    split
    · exact Nat.le_refl _
    · exact Nat.min_le_left _ _

instance : Transport Script where
  read := read
  write := write
  flush := flush
  close := close
  supply c := c.stream.length
  read_length_le := length_le_of_read
  supply_read h := by
    have := congrArg List.length (stream_read h)
    simp at this
    omega
  write_le_length := le_length_of_write

end Script

end HttpExchange
