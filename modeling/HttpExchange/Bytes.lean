set_option autoImplicit false

/-! # Byte strings

Everything on a wire is a list of octets. The file names the octets that the message grammar
singles out and gives the ASCII reading of an octet: as a decimal digit, as a hexadecimal
digit, as a letter whose case does not matter, and as blank space. Octets from 128 on are
none of these. -/

namespace HttpExchange

abbrev Bytes := List UInt8

namespace Ascii

def cr : UInt8 := 13

def lf : UInt8 := 10

def space : UInt8 := 32

/-- The colon, which ends a field name. -/
def colon : UInt8 := 58

/-- The semicolon, which begins a chunk extension. -/
def semicolon : UInt8 := 59

def crlf : Bytes := [cr, lf]

def digit? (b : UInt8) : Option Nat :=
  if 48 ≤ b ∧ b ≤ 57 then some (b.toNat - 48) else none

def isDigit (b : UInt8) : Bool := (digit? b).isSome

/-- The value of a hexadecimal digit; both cases of the letters count. -/
def hexDigit? (b : UInt8) : Option Nat :=
  if 48 ≤ b ∧ b ≤ 57 then some (b.toNat - 48)
  else if 65 ≤ b ∧ b ≤ 70 then some (b.toNat - 55)
  else if 97 ≤ b ∧ b ≤ 102 then some (b.toNat - 87)
  else none

/-- The octet with a capital letter replaced by its small one. -/
def lower (b : UInt8) : UInt8 := if 65 ≤ b ∧ b ≤ 90 then b + 32 else b

/-- Equality of byte strings up to the case of ASCII letters. -/
def sameLetters (a b : Bytes) : Bool := a.map lower == b.map lower

/-- Blank space in ASCII: tab, line feed, form feed, carriage return, space. -/
def isBlank (b : UInt8) : Bool := b == 9 || b == 10 || b == 12 || b == 13 || b == 32

def trim (bs : Bytes) : Bytes :=
  ((bs.dropWhile isBlank).reverse.dropWhile isBlank).reverse

theorem sameLetters_iff {a b : Bytes} : sameLetters a b = true ↔ a.map lower = b.map lower := by
  simp [sameLetters]

theorem sameLetters_refl (a : Bytes) : sameLetters a a = true := by simp [sameLetters]

theorem sameLetters_length {a b : Bytes} (h : sameLetters a b = true) : a.length = b.length := by
  simpa using congrArg List.length (sameLetters_iff.1 h)

end Ascii

end HttpExchange
