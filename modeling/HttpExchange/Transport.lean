import HttpExchange.Bytes
import HttpExchange.Error

set_option autoImplicit false

/-! # Connections

A connection is a value that every operation on it replaces: `read` asks for at most `room`
bytes, `write` offers bytes and learns how many were accepted, `flush` pushes accepted bytes
out, and `close` releases the connection. What the operations answer is up to the instance;
the laws only say that a read never gives more than was asked for, that a write never accepts
more than was offered, and that a connection has finitely many bytes to give (`supply`), so
that reading to the end of a section ends.

Two loops over a connection are used everywhere: `writeAll` offers what is left until nothing
is, and `readExact` asks for what is missing until nothing is. -/

namespace HttpExchange

/-- A byte connection with state `σ`. An empty read means that the peer has closed. -/
class Transport (σ : Type) where
  /-- Reads at most the given number of bytes. -/
  read : σ → Nat → Except Fault Bytes × σ
  /-- Offers bytes and answers how many of them, from the front, were accepted. -/
  write : σ → Bytes → Except Fault Nat × σ
  /-- Pushes accepted bytes to the peer. -/
  flush : σ → Except Fault Unit × σ
  close : σ → Except Fault Unit × σ
  /-- A bound on the number of bytes that reads can still give. -/
  supply : σ → Nat
  /-- A read gives at most as many bytes as were asked for. -/
  read_length_le : ∀ {c : σ} {room : Nat} {bs : Bytes} {c' : σ},
    read c room = (.ok bs, c') → bs.length ≤ room
  /-- What a read gives is taken off the supply. -/
  supply_read : ∀ {c : σ} {room : Nat} {bs : Bytes} {c' : σ},
    read c room = (.ok bs, c') → supply c' + bs.length ≤ supply c
  /-- A write accepts at most what was offered. -/
  write_le_length : ∀ {c : σ} {data : Bytes} {n : Nat} {c' : σ},
    write c data = (.ok n, c') → n ≤ data.length

/-- A construction that failed: the error, and the connection as it was left if there was
one. -/
structure Refusal (σ : Type) where
  error : Error
  released : Option σ

variable {σ : Type} [Transport σ]

/-- Writes all of the data, offering again what a short write left. A write that fails or
accepts nothing ends the attempt. -/
def writeAll (c : σ) : Bytes → Except Error Unit × σ
  | [] => (.ok (), c)
  | b :: bs =>
      match Transport.write c (b :: bs) with
      | (.error _, c') => (.error .send, c')
      | (.ok 0, c') => (.error .send, c')
      | (.ok (n + 1), c') => writeAll c' (bs.drop n)
termination_by data => data.length

/-- Reads exactly `n` bytes, asking again for what a short read left missing. -/
def readExact (c : σ) : Nat → Except Error Bytes × σ
  | 0 => (.ok [], c)
  | n + 1 =>
      match Transport.read c (n + 1) with
      | (.error f, c') => (.error (.ofFault f), c')
      | (.ok [], c') => (.error .transportClosed, c')
      | (.ok (b :: bs), c') =>
          match readExact c' (n - bs.length) with
          | (.ok more, c'') => (.ok (b :: bs ++ more), c'')
          | (.error e, c'') => (.error e, c'')
termination_by n => n

@[simp] theorem writeAll_nil (c : σ) : writeAll c [] = (.ok (), c) := by
  unfold writeAll; rfl

@[simp] theorem readExact_zero (c : σ) : readExact c 0 = (.ok [], c) := by
  unfold readExact; rfl

/-- An exact read that succeeds gives as many bytes as were asked for. -/
theorem readExact_length {c c' : σ} {n : Nat} {bs : Bytes}
    (h : readExact c n = (.ok bs, c')) : bs.length = n := by
  fun_induction readExact c n generalizing bs c' with
  | case1 => cases h; rfl
  | case2 => cases h
  | case3 => cases h
  | case4 c n b ds c₁ hr more c₂ hm ih =>
      cases h
      have hle := Transport.read_length_le hr
      have := ih hm
      simp at hle ⊢
      omega
  | case5 => cases h

/-- An exact read that succeeds takes its bytes off the supply. -/
theorem supply_readExact {c c' : σ} {n : Nat} {bs : Bytes}
    (h : readExact c n = (.ok bs, c')) : Transport.supply c' + n ≤ Transport.supply c := by
  fun_induction readExact c n generalizing bs c' with
  | case1 => cases h; exact Nat.le_refl _
  | case2 => cases h
  | case3 => cases h
  | case4 c n b ds c₁ hr more c₂ hm ih =>
      cases h
      have hs := Transport.supply_read hr
      have := ih hm
      simp only [List.length_cons] at hs
      omega
  | case5 => cases h

end HttpExchange
