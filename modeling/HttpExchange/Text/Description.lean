import HttpExchange.Bytes

set_option autoImplicit false

/-! # Values in descriptions

A handle can be described in one line of text. The file writes the values that stand in such a
line: texts between double quotes and truth values. Inside quotes a quote and a backslash come
after a backslash, the tab, the line feed, the carriage return and the null character are a
backslash with a letter or digit, and every other control character is its number in
hexadecimal. -/

namespace HttpExchange.Text

def hexadecimal (n : Nat) : List Char := Nat.toDigits 16 n

def quoteChar (c : Char) : List Char :=
  if c = '"' then ['\\', '"']
  else if c = '\\' then ['\\', '\\']
  else if c = '\t' then ['\\', 't']
  else if c = '\n' then ['\\', 'n']
  else if c = '\r' then ['\\', 'r']
  else if c.toNat = 0 then ['\\', '0']
  else if c.toNat < 32 ∨ c.toNat = 127 then
    ['\\', 'u', '\x7b'] ++ hexadecimal c.toNat ++ ['\x7d']
  else [c]

def quote (s : String) : String :=
  String.ofList (['"'] ++ s.toList.flatMap quoteChar ++ ['"'])

def describeBool (b : Bool) : String := if b then "true" else "false"

end HttpExchange.Text
