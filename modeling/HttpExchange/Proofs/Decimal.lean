import HttpExchange.Numeral
import HttpExchange.Text.Blank
import HttpExchange.Text.Utf8
import Mathlib.Data.List.Forall2

set_option autoImplicit false

/-! # Decimal numerals as they are written

The decimal form of a number, as text and as bytes, has digits only. Reading it gives the number
back if the number is below the bound (`decimal?_encode_repr`, `decimalText?_digits`).
-/

namespace HttpExchange

theorem mapM_eq_some_map {α β : Type} {f : α → Option β} {g : α → β} {l : List α}
    (h : ∀ a ∈ l, f a = some (g a)) : l.mapM f = some (l.map g) := by
  induction l with
  | nil => rfl
  | cons a l ih =>
      obtain ⟨ha, hl⟩ := List.forall_mem_cons.1 h
      simp [List.mapM_cons, ha, ih hl]

theorem mapM_eq_some_iff {α β : Type} {f : α → Option β} {l : List α} {l' : List β} :
    l.mapM f = some l' ↔ List.Forall₂ (fun a b => f a = some b) l l' := by
  induction l generalizing l' with
  | nil => simp [List.forall₂_nil_left_iff, eq_comm]
  | cons a l ih =>
      rw [List.mapM_cons, List.forall₂_cons_left_iff]
      simp only [Option.bind_eq_bind, Option.bind_eq_some_iff, Option.pure_def, Option.some.injEq,
        ih]
      constructor
      · rintro ⟨b, hb, bs, hbs, rfl⟩
        exact ⟨b, bs, hb, hbs, rfl⟩
      · rintro ⟨b, bs, hb, hbs, rfl⟩
        exact ⟨b, hb, bs, hbs, rfl⟩

def digitValue (c : Char) : Nat := c.toNat - 48

theorem isDigit_toDigits {n : Nat} {c : Char} (h : c ∈ Nat.toDigits 10 n) : c.isDigit = true :=
  Nat.isDigit_of_mem_toDigits (by decide) (by decide) h

/-- Digits denote the number that the library reads in them. -/
theorem value_digits (cs : List Char) :
    Numeral.value 10 (cs.map digitValue) = Nat.ofDigitChars 10 cs 0 := by
  rw [Nat.ofDigitChars_eq_foldl, Numeral.value, Numeral.valueFrom, List.foldl_map]
  simp [digitValue, Nat.mul_comm]

theorem readBelow_digits {cs : List Char} {bound n : Nat} (hbound : 0 < bound) :
    Numeral.readBelow bound 10 (cs.map digitValue) = some n ↔
      cs ≠ [] ∧ Nat.ofDigitChars 10 cs 0 = n ∧ n < bound := by
  rw [Numeral.readBelow_eq_some_iff (by decide) hbound, value_digits, ne_eq, List.map_eq_nil_iff]

theorem readBelow_toDigits {n bound : Nat} (h : n < bound) :
    Numeral.readBelow bound 10 ((Nat.toDigits 10 n).map digitValue) = some n :=
  (readBelow_digits (Nat.zero_lt_of_lt h)).2
    ⟨Nat.toDigits_ne_nil, Nat.ofDigitChars_ten_toDigits, h⟩

/-! ## As text -/

theorem digitChar?_of_isDigit {c : Char} (h : c.isDigit = true) :
    Numeral.digitChar? c = some (digitValue c) := by
  rw [Numeral.digitChar?, if_pos h]
  rfl

/-- Digits are read as the number that they denote, if it is below the bound. -/
theorem decimalText?_digits {cs : List Char} {bound n : Nat} (hbound : 0 < bound)
    (hdigit : ∀ c ∈ cs, c.isDigit = true) :
    Numeral.decimalText? bound cs = some n ↔
      cs ≠ [] ∧ Nat.ofDigitChars 10 cs 0 = n ∧ n < bound := by
  have hmap := mapM_eq_some_map (g := digitValue) fun c hc => digitChar?_of_isDigit (hdigit c hc)
  rw [Numeral.decimalText?, hmap, Option.bind_some, readBelow_digits hbound]

theorem isDigit_of_digitChar? {c : Char} {d : Nat} (h : Numeral.digitChar? c = some d) :
    c.isDigit = true := by
  unfold Numeral.digitChar? at h
  split at h
  next hdigit => exact hdigit
  next => cases h

/-- A text is read as a number only if it consists of digits. -/
theorem decimalText?_eq_some_iff {cs : List Char} {bound n : Nat} (hbound : 0 < bound) :
    Numeral.decimalText? bound cs = some n ↔ (∀ c ∈ cs, c.isDigit = true) ∧
      cs ≠ [] ∧ Nat.ofDigitChars 10 cs 0 = n ∧ n < bound := by
  constructor
  · intro h
    have hdigit : ∀ c ∈ cs, c.isDigit = true := by
      obtain ⟨values, hvalues, -⟩ := Option.bind_eq_some_iff.1 h
      have hall := mapM_eq_some_iff.1 hvalues
      clear h hvalues
      induction hall with
      | nil => exact List.forall_mem_nil _
      | cons hc _ ih => exact List.forall_mem_cons.2 ⟨isDigit_of_digitChar? hc, ih⟩
    exact ⟨hdigit, (decimalText?_digits hbound hdigit).1 h⟩
  · rintro ⟨hdigit, h⟩
    exact (decimalText?_digits hbound hdigit).2 h

/-- A digit is no blank character. -/
theorem isBlank_of_isDigit {c : Char} (h : c.isDigit = true) : Text.isBlank c = false := by
  rw [Char.isDigit_iff_toNat] at h
  obtain ⟨hlow, hhigh⟩ := h
  have hlow' : 48 ≤ c.toNat := hlow
  have hhigh' : c.toNat ≤ 57 := hhigh
  simp only [Text.isBlank, Bool.or_eq_false_iff, Bool.and_eq_false_iff, decide_eq_false_iff_not,
    beq_eq_false_iff_ne]
  omega

/-! ## As bytes -/

/-- Digits take one byte each. -/
theorem encode_ofList_digits {cs : List Char} (h : ∀ c ∈ cs, c.isDigit = true) :
    Text.encode (String.ofList cs) = cs.map fun c => UInt8.ofNat c.toNat := by
  rw [Text.encode_eq_flatMap, String.toList_ofList]
  induction cs with
  | nil => rfl
  | cons c cs ih =>
      obtain ⟨hc, hcs⟩ := List.forall_mem_cons.1 h
      have hhigh : c.toNat ≤ 57 := (Char.isDigit_iff_toNat.1 hc).2
      rw [List.flatMap_cons, Text.utf8EncodeChar_of_ascii (by omega), ih hcs]
      rfl

theorem digit?_ofNat {c : Char} (h : c.isDigit = true) :
    Ascii.digit? (UInt8.ofNat c.toNat) = some (digitValue c) := by
  have hall : ∀ n, n ≤ 57 → 48 ≤ n → Ascii.digit? (UInt8.ofNat n) = some (n - 48) := by decide
  obtain ⟨hlow, hhigh⟩ := Char.isDigit_iff_toNat.1 h
  exact hall c.toNat hhigh hlow

theorem isDigit_encode_repr {n : Nat} {b : UInt8} (h : b ∈ Text.encode n.repr) :
    Ascii.isDigit b = true := by
  rw [Nat.repr_eq_ofList_toDigits, encode_ofList_digits fun c hc => isDigit_toDigits hc] at h
  obtain ⟨c, hc, rfl⟩ := List.mem_map.1 h
  rw [Ascii.isDigit, digit?_ofNat (isDigit_toDigits hc)]
  rfl

theorem encode_repr_ne_nil (n : Nat) : Text.encode n.repr ≠ [] := by
  rw [Nat.repr_eq_ofList_toDigits, encode_ofList_digits fun c hc => isDigit_toDigits hc]
  simp [Nat.toDigits_ne_nil]

theorem decimal?_encode_repr {n bound : Nat} (h : n < bound) :
    Numeral.decimal? bound (Text.encode n.repr) = some n := by
  have hdigit : ∀ c ∈ Nat.toDigits 10 n, c.isDigit = true := fun c hc => isDigit_toDigits hc
  have hmap : (Nat.toDigits 10 n).mapM (fun c => Ascii.digit? (UInt8.ofNat c.toNat)) =
      some ((Nat.toDigits 10 n).map digitValue) :=
    mapM_eq_some_map fun c hc => digit?_ofNat (hdigit c hc)
  rw [Numeral.decimal?, Nat.repr_eq_ofList_toDigits, encode_ofList_digits hdigit, List.mapM_map]
  simp only [Function.comp_def, hmap, Option.bind_some, readBelow_toDigits h]

end HttpExchange
