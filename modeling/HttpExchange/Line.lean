import HttpExchange.Transport

set_option autoImplicit false

/-! # Lines

A line ends in CR LF. It is read one byte at a time, so nothing past its terminator leaves the
connection. Every byte but the final LF is stored, the CR included; a lone LF is an ordinary
byte. When the room is used up and the last stored byte is a CR, one more byte is taken to see
whether it is the LF, and handed back if it is not.

`gather` is that reading, with the bytes it stored; `readLine` puts them into a caller's
buffer and counts them without the terminator. -/

namespace HttpExchange

inductive Stop
  /-- The terminator is there; its CR is the last stored byte. -/
  | crlf
  /-- The room is used up. If the last stored byte is a CR, this is the byte after it. -/
  | full (carry : Option UInt8)
  | closed
  | fault (f : Fault)
  deriving DecidableEq

structure Gathered (σ : Type) where
  stop : Stop
  /-- The bytes it stored, in order. -/
  stored : Bytes
  rest : σ

variable {σ : Type} [Transport σ]

/-- Reads a line into `room` bytes; `afterCr` says that the byte stored before is a CR. -/
def gather (afterCr : Bool) : Nat → σ → Gathered σ
  | 0, c =>
      if afterCr then
        match Transport.read c 1 with
        | (.error f, c') => ⟨.fault f, [], c'⟩
        | (.ok [], c') => ⟨.closed, [], c'⟩
        | (.ok (b :: _), c') => ⟨if b = Ascii.lf then .crlf else .full (some b), [], c'⟩
      else ⟨.full none, [], c⟩
  | room + 1, c =>
      match Transport.read c 1 with
      | (.error f, c') => ⟨.fault f, [], c'⟩
      | (.ok [], c') => ⟨.closed, [], c'⟩
      | (.ok (b :: _), c') =>
          if b = Ascii.lf ∧ afterCr = true then ⟨.crlf, [], c'⟩
          else
            let more := gather (b = Ascii.cr) room c'
            { more with stored := b :: more.stored }

/-- Outcome of `readLine`. The counts leave the terminator out. -/
inductive Line
  | complete (count : Nat)
  /-- The buffer filled up; `carry` is the byte taken after a CR in its last slot. -/
  | truncated (count : Nat) (carry : Option UInt8)
  /-- The peer closed before the terminator. -/
  | closed (count : Nat)
  deriving DecidableEq

namespace Line

def length : Line → Nat
  | complete n => n
  | truncated n _ => n
  | closed n => n

def isEmpty (line : Line) : Bool := line.length == 0

/-- Whether this is the blank line that ends a section. -/
def isBlank (line : Line) : Bool := line == complete 0

def ofStop (count : Nat) : Stop → Except Error Line
  | .crlf => .ok (complete (count - 1))
  | .full carry => .ok (truncated count carry)
  | .closed => .ok (closed count)
  | .fault f => .error (.ofFault f)

end Line

/-- Reads a line into the buffer `out`. What is left of the buffer keeps its content. -/
def readLine (c : σ) (out : Bytes) : Except Error Line × Bytes × σ :=
  let g := gather false out.length c
  (Line.ofStop g.stored.length g.stop, g.stored ++ out.drop g.stored.length, g.rest)

/-! ## Bounds -/

theorem gather_stored_length_le (afterCr : Bool) (room : Nat) (c : σ) :
    (gather afterCr room c).stored.length ≤ room := by
  fun_induction gather afterCr room c with
  | case8 _ _ _ _ _ _ _ _ _ ih => exact Nat.succ_le_succ ih
  | _ => simp

/-- Room is used up only by filling it. -/
theorem gather_stored_length_of_full {afterCr : Bool} {room : Nat} {c : σ} {k : Option UInt8}
    (h : (gather afterCr room c).stop = .full k) :
    (gather afterCr room c).stored.length = room := by
  fun_induction gather afterCr room c with
  | case8 _ _ _ _ _ _ _ _ _ ih => exact congrArg (· + 1) (ih h)
  | case5 => cases h
  | case6 => cases h
  | case7 => cases h
  | _ => rfl

/-- The number of bytes that a line read took from the connection without storing them. -/
def Stop.unstored : Stop → Nat
  | .crlf => 1
  | .full (some _) => 1
  | _ => 0

/-- Unless a read fails, a line read takes what it stored, and the byte it looked at last, off
the supply. -/
theorem supply_gather {afterCr : Bool} {room : Nat} {c : σ}
    (h : ∀ f, (gather afterCr room c).stop ≠ .fault f) :
    Transport.supply (gather afterCr room c).rest + (gather afterCr room c).stored.length
      + (gather afterCr room c).stop.unstored ≤ Transport.supply c := by
  fun_induction gather afterCr room c with
  | case1 => exact absurd rfl (h _)
  | case2 _ c' hr => simpa [Stop.unstored] using Transport.supply_read hr
  | case3 _ b bs c' hr =>
      have := Transport.supply_read hr
      split <;> simp [Stop.unstored] at this ⊢ <;> omega
  | case4 => simp [Stop.unstored]
  | case5 => exact absurd rfl (h _)
  | case6 _ _ _ c' hr => simpa [Stop.unstored] using Transport.supply_read hr
  | case7 _ _ _ b bs c' hr =>
      have := Transport.supply_read hr
      simp [Stop.unstored] at this ⊢
      omega
  | case8 _ _ _ b bs c' hr _ more ih =>
      have hs := Transport.supply_read hr
      have := ih h
      simp only [List.length_cons, more] at hs this ⊢
      omega

end HttpExchange
