import HttpExchange.Bytes

set_option autoImplicit false

/-! # Blank characters

The characters with the Unicode property White_Space, and the text left when they are taken
off one end or both. Field values are trimmed by this property, since they are text. A trimmed text
is known by what it was taken out of (`trimEnd_eq_iff`, `trim_eq_iff`): blanks stand around it, and
it neither begins nor ends with one. -/

namespace HttpExchange.Text

/-- The characters with the property White_Space. -/
def isBlank (c : Char) : Bool :=
  let n := c.toNat
  (9 ≤ n && n ≤ 13) || n == 0x20 || n == 0x85 || n == 0xA0 || n == 0x1680 ||
    (0x2000 ≤ n && n ≤ 0x200A) || n == 0x2028 || n == 0x2029 || n == 0x202F || n == 0x205F ||
    n == 0x3000

def trimStart (cs : List Char) : List Char := cs.dropWhile isBlank

def trimEnd (cs : List Char) : List Char := (cs.reverse.dropWhile isBlank).reverse

def trim (cs : List Char) : List Char := trimEnd (trimStart cs)

/-! ## What is trimmed -/

/-- The front that satisfies `p` as far as it goes, and the rest behind it, told by their
elements. -/
theorem span_eq_iff {α : Type} {p : α → Bool} {l front rest : List α} :
    l.takeWhile p = front ∧ l.dropWhile p = rest ↔
      l = front ++ rest ∧ (∀ a ∈ front, p a = true) ∧ ∀ a, rest.head? = some a → p a = false := by
  constructor
  · rintro ⟨rfl, rfl⟩
    refine ⟨List.takeWhile_append_dropWhile.symm, List.all_eq_true.1 List.all_takeWhile, ?_⟩
    intro a ha
    have := List.head?_dropWhile_not p l
    rw [ha] at this
    simpa using this
  · rintro ⟨rfl, hfront, hrest⟩
    rw [List.takeWhile_append_of_pos hfront, List.dropWhile_append_of_pos hfront]
    cases rest with
    | nil => simp
    | cons a rest =>
        have ha : p a = false := hrest a rfl
        simp [ha]

section Ends

variable {α : Type} {p : α → Bool} {l t : List α}

/-- What is left without the front that satisfies `p`. -/
theorem dropWhile_eq_iff : l.dropWhile p = t ↔ ∃ front, l = front ++ t ∧
    (∀ a ∈ front, p a = true) ∧ ∀ a, t.head? = some a → p a = false := by
  constructor
  · intro h
    exact ⟨l.takeWhile p, span_eq_iff.1 ⟨rfl, h⟩⟩
  · rintro ⟨front, h⟩
    exact (span_eq_iff.2 h).2

/-- What is left without the end that satisfies `p`. -/
theorem dropWhile_end_eq_iff : (l.reverse.dropWhile p).reverse = t ↔ ∃ behind, l = t ++ behind ∧
    (∀ a ∈ behind, p a = true) ∧ ∀ a, t.getLast? = some a → p a = false := by
  rw [List.reverse_eq_iff, dropWhile_eq_iff]
  constructor
  · rintro ⟨front, h, hfront, hend⟩
    refine ⟨front.reverse, ?_, ?_, ?_⟩
    · simpa using congrArg List.reverse h
    · simpa using hfront
    · simpa using hend
  · rintro ⟨behind, rfl, hbehind, hend⟩
    refine ⟨behind.reverse, by simp, ?_, ?_⟩
    · simpa using hbehind
    · simpa using hend

/-- What is left without the two ends that satisfy `p`, if it is not empty. -/
theorem dropWhile_ends_eq_iff (hne : t ≠ []) :
    ((l.dropWhile p).reverse.dropWhile p).reverse = t ↔
      ∃ before behind, l = before ++ (t ++ behind) ∧
        (∀ a ∈ before, p a = true) ∧ (∀ a ∈ behind, p a = true) ∧
        (∀ a, t.head? = some a → p a = false) ∧ ∀ a, t.getLast? = some a → p a = false := by
  -- what is not empty stands at the front of what is left of it
  have hhead : ∀ behind, (t ++ behind).head? = t.head? := by
    intro behind
    obtain ⟨a, t, rfl⟩ := List.exists_cons_of_ne_nil hne
    rfl
  rw [dropWhile_end_eq_iff]
  constructor
  · rintro ⟨behind, hstart, hbehind, hlast⟩
    obtain ⟨before, hl, hbefore, hfirst⟩ := dropWhile_eq_iff.1 hstart
    rw [hhead] at hfirst
    exact ⟨before, behind, hl, hbefore, hbehind, hfirst, hlast⟩
  · rintro ⟨before, behind, hl, hbefore, hbehind, hfirst, hlast⟩
    exact ⟨behind, dropWhile_eq_iff.2 ⟨before, hl, hbefore, by rwa [hhead]⟩, hbehind, hlast⟩

end Ends

theorem trimStart_eq_iff {cs t : List Char} :
    trimStart cs = t ↔ ∃ blanks, cs = blanks ++ t ∧ (∀ c ∈ blanks, isBlank c = true) ∧
      ∀ c, t.head? = some c → isBlank c = false :=
  dropWhile_eq_iff

theorem trimEnd_eq_iff {cs t : List Char} :
    trimEnd cs = t ↔ ∃ blanks, cs = t ++ blanks ∧ (∀ c ∈ blanks, isBlank c = true) ∧
      ∀ c, t.getLast? = some c → isBlank c = false :=
  dropWhile_end_eq_iff

theorem trim_eq_iff {cs word : List Char} (hne : word ≠ []) :
    trim cs = word ↔ ∃ before behind, cs = before ++ (word ++ behind) ∧
      (∀ c ∈ before, isBlank c = true) ∧ (∀ c ∈ behind, isBlank c = true) ∧
      (∀ c, word.head? = some c → isBlank c = false) ∧
      ∀ c, word.getLast? = some c → isBlank c = false :=
  dropWhile_ends_eq_iff hne

/-- A text that ends in no blank character is its own trimming. -/
theorem trimEnd_of_getLast {cs : List Char}
    (h : ∀ c, cs.getLast? = some c → isBlank c = false) : trimEnd cs = cs :=
  trimEnd_eq_iff.2 ⟨[], (List.append_nil cs).symm, by simp, h⟩

end HttpExchange.Text
