import HttpExchange.Bytes

set_option autoImplicit false

/-! # Bounded numerals

Lengths, sizes and status codes arrive as digit strings of any length and have to fit a word.
`readBelow` reads a digit string step by step and gives up at the first step that leaves the
word; `value` is the number the digits denote, with no bound. The main statement
`readBelow_eq_some_iff` says that the two agree below the bound: a number is read exactly or
refused, and it never wraps. -/

namespace HttpExchange.Numeral

/-- Lengths are below this bound: they fit a word of 64 bits. -/
def lengthBound : Nat := UInt64.size

/-- Status codes and ports are below this bound: they fit a word of 16 bits. -/
def shortBound : Nat := UInt16.size

/-- The number denoted by digit values, most significant first, after `acc`. -/
def valueFrom (base acc : Nat) (digits : List Nat) : Nat :=
  digits.foldl (fun n d => n * base + d) acc

def value (base : Nat) (digits : List Nat) : Nat := valueFrom base 0 digits

/-- The step-by-step reading of digit values after `acc`, given up at the first number that
is not below `bound`. -/
def readFrom (bound base acc : Nat) : List Nat → Option Nat
  | [] => some acc
  | d :: ds => if acc * base + d < bound then readFrom bound base (acc * base + d) ds else none

/-- The number denoted by a non-empty list of digit values, if it is below `bound`. -/
def readBelow (bound base : Nat) (digits : List Nat) : Option Nat :=
  if digits = [] then none else readFrom bound base 0 digits

def decimal? (bound : Nat) (bs : Bytes) : Option Nat :=
  (bs.mapM Ascii.digit?).bind (readBelow bound 10)

def hexadecimal? (bound : Nat) (bs : Bytes) : Option Nat :=
  (bs.mapM Ascii.hexDigit?).bind (readBelow bound 16)

def digitChar? (c : Char) : Option Nat :=
  if c.isDigit then some (c.toNat - 48) else none

def decimalText? (bound : Nat) (cs : List Char) : Option Nat :=
  (cs.mapM digitChar?).bind (readBelow bound 10)

/-! ## Reading agrees with the value -/

@[simp] theorem valueFrom_nil (base acc : Nat) : valueFrom base acc [] = acc := rfl

@[simp] theorem valueFrom_cons (base acc d : Nat) (ds : List Nat) :
    valueFrom base acc (d :: ds) = valueFrom base (acc * base + d) ds := rfl

/-- More digits never make a number smaller. -/
theorem le_valueFrom {base : Nat} (hb : 0 < base) (ds : List Nat) (acc : Nat) :
    acc ≤ valueFrom base acc ds := by
  induction ds generalizing acc with
  | nil => exact Nat.le_refl _
  | cons d ds ih =>
      have h : acc ≤ acc * base := Nat.le_mul_of_pos_right acc hb
      exact Nat.le_trans (Nat.le_add_right_of_le h) (ih _)

theorem readFrom_eq_some_iff {bound base acc v : Nat} (hb : 0 < base) (ha : acc < bound)
    (ds : List Nat) :
    readFrom bound base acc ds = some v ↔ valueFrom base acc ds = v ∧ v < bound := by
  induction ds generalizing acc with
  | nil =>
      simp only [readFrom, Option.some.injEq, valueFrom_nil]
      exact ⟨fun h => ⟨h, h ▸ ha⟩, fun h => h.1⟩
  | cons d ds ih =>
      simp only [readFrom, valueFrom_cons]
      split
      next h => exact ih h
      next h =>
        constructor
        · intro h'; cases h'
        · rintro ⟨rfl, hv⟩
          exact absurd (Nat.lt_of_le_of_lt (le_valueFrom hb ds _) hv) h

/-- A digit string is read as the number it denotes, if that is below the bound, and is
refused otherwise. -/
theorem readBelow_eq_some_iff {bound base v : Nat} (hb : 0 < base) (hpos : 0 < bound)
    (ds : List Nat) :
    readBelow bound base ds = some v ↔ ds ≠ [] ∧ value base ds = v ∧ v < bound := by
  unfold readBelow value
  split
  next h => simp [h]
  next h => simp [h, readFrom_eq_some_iff hb hpos]

end HttpExchange.Numeral
