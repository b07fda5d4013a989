import HttpExchange.Numeral

set_option autoImplicit false

/-! # Host addresses

The numeric addresses that a host can stand for. An IPv4 literal has one to four parts with
points between them; a part is decimal, octal after a leading `0` or hexadecimal after `0x`,
and the last part fills all the octets that the parts before it left. -/

namespace HttpExchange

inductive Address
  /-- An IPv4 address as a number of 32 bits. -/
  | v4 (n : Nat)
  /-- An IPv6 address as a number of 128 bits. -/
  | v6 (n : Nat)
  deriving DecidableEq

namespace Address

def isV4 : Address → Bool
  | v4 _ => true
  | v6 _ => false

/-- The address of this host: `127.0.0.1`. -/
def loopback : Address := v4 0x7F000001

/-- The value of a character that is a digit in the base. -/
def digit? (base : Nat) (c : Char) : Option Nat :=
  let n := c.toNat
  let v :=
    if c.isDigit then n - 48
    else if 'a' ≤ c ∧ c ≤ 'f' then n - 87
    else if 'A' ≤ c ∧ c ≤ 'F' then n - 55
    else base
  if v < base then some v else none

def part? (cs : List Char) : Option Nat :=
  let read (base : Nat) (cs : List Char) :=
    (cs.mapM (digit? base)).bind (Numeral.readBelow UInt32.size base)
  match cs with
  | '0' :: 'x' :: rest => read 16 rest
  | '0' :: 'X' :: rest => read 16 rest
  | '0' :: c :: rest => read 8 (c :: rest)
  | _ => read 10 cs

/-- Puts parts together behind the number of the octets before them, of which `left` are
missing. -/
def join? (acc left : Nat) : List Nat → Option Nat
  | [] => none
  | [last] => if last < 256 ^ left then some (acc * 256 ^ left + last) else none
  | part :: parts =>
      if part < 256 ∧ 1 < left then join? (acc * 256 + part) (left - 1) parts else none

/-- The parts of a text between points. -/
def splitPoints (cs : List Char) : List (List Char) :=
  cs.foldr (fun c parts =>
    if c = '.' then [] :: parts
    else match parts with
      | [] => [[c]]
      | part :: rest => (c :: part) :: rest) [[]]

/-- The address that an IPv4 literal stands for. -/
def ofLiteral? (cs : List Char) : Option Address :=
  ((splitPoints cs).mapM part?).bind fun parts => (join? 0 4 parts).map v4

end Address

end HttpExchange
