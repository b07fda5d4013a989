import HttpExchange.Head
import Mathlib.Data.List.Infix

set_option autoImplicit false

/-! # Where lines and sections end

Byte strings alone, without a connection. A byte string is `Unbroken` if no CR LF stands in it.
What follows the first line terminator is `afterLine?`; what follows the first empty line
(CR LF CR LF) is `afterEmptyLine?`; what follows the blank line of a section is
`afterBlankLine?`, where a CR LF at the very front counts as a blank line too.

The identity `afterEmptyLine?_eq_bind` carries everything that is said about sections: behind
the first line terminator, looking for an empty line is looking for a blank line. -/

namespace HttpExchange

open Ascii

/-! ## First occurrences -/

theorem isPrefixOf?_eq_none_iff {t s : Bytes} : t.isPrefixOf? s = none ↔ ¬ t <+: s := by
  rw [Option.eq_none_iff_forall_ne_some]
  constructor
  · rintro h ⟨v, hv⟩
    exact h v (List.isPrefixOf?_eq_some_iff_append_eq.2 hv)
  · intro h v hv
    exact h ⟨v, List.isPrefixOf?_eq_some_iff_append_eq.1 hv⟩

/-- At the front of the bytes, the token is found at once. -/
theorem afterFirst?_append_self (t v : Bytes) : afterFirst? t (t ++ v) = some v := by
  have h : t.isPrefixOf? (t ++ v) = some v := List.isPrefixOf?_eq_some_iff_append_eq.2 rfl
  cases hs : t ++ v with
  | nil =>
      rw [hs] at h
      exact h
  | cons b s =>
      rw [hs] at h
      rw [afterFirst?, h]

/-- Where the token does not stand, the search goes on. -/
theorem afterFirst?_cons {t x : Bytes} {b : UInt8} (h : ¬ t <+: b :: x) :
    afterFirst? t (b :: x) = afterFirst? t x := by
  rw [afterFirst?, isPrefixOf?_eq_none_iff.2 h]

/-- What follows a token stands behind an occurrence of it. -/
theorem afterFirst?_eq_some {t s v : Bytes} (h : afterFirst? t s = some v) :
    ∃ u, s = u ++ t ++ v := by
  induction s with
  | nil =>
      rw [afterFirst?] at h
      exact ⟨[], (List.isPrefixOf?_eq_some_iff_append_eq.1 h).symm⟩
  | cons b s ih =>
      rw [afterFirst?] at h
      split at h
      next rest hrest =>
        cases h
        exact ⟨[], (List.isPrefixOf?_eq_some_iff_append_eq.1 hrest).symm⟩
      next =>
        obtain ⟨u, rfl⟩ := ih h
        exact ⟨b :: u, by simp⟩

/-- If the token is found in front of `v` at the latest, then it is found without `v`. -/
theorem afterFirst?_of_append {t u v x : Bytes} (h : afterFirst? t (u ++ v) = some (x ++ v)) :
    afterFirst? t u = some x := by
  induction u with
  | nil =>
      obtain ⟨w, hw⟩ := afterFirst?_eq_some h
      have hlen := congrArg List.length hw
      simp only [List.nil_append, List.length_append] at hlen
      obtain rfl : t = [] := List.eq_nil_of_length_eq_zero (by omega)
      obtain rfl : x = [] := List.eq_nil_of_length_eq_zero (by omega)
      rfl
  | cons b u ih =>
      rw [List.cons_append, afterFirst?] at h
      split at h
      next rest hrest =>
        -- the token is at the front, and it ends before `x` does
        cases h
        rw [List.isPrefixOf?_eq_some_iff_append_eq, ← List.cons_append,
          ← List.append_assoc] at hrest
        have hx : t ++ x = b :: u := List.append_cancel_right hrest
        rw [← hx]
        exact afterFirst?_append_self t x
      next hnone =>
        rw [afterFirst?_cons, ih h]
        rintro ⟨y, hy⟩
        exact isPrefixOf?_eq_none_iff.1 hnone ⟨y ++ v, by rw [← List.append_assoc, hy]; rfl⟩

/-! ## Unbroken byte strings -/

/-- No CR LF stands in the bytes. -/
def Unbroken (bs : Bytes) : Prop := ¬ crlf <:+: bs

instance (bs : Bytes) : Decidable (Unbroken bs) :=
  inferInstanceAs (Decidable (¬ crlf <:+: bs))

theorem cr_ne_lf : cr ≠ lf := by decide

theorem crlf_prefix_cons_iff {b : UInt8} {x : Bytes} :
    crlf <+: b :: x ↔ b = cr ∧ x.head? = some lf := by
  cases x with
  | nil => simp [crlf, List.cons_prefix_cons]
  | cons c x => simp [crlf, List.cons_prefix_cons, eq_comm]

theorem unbroken_nil : Unbroken [] := by
  intro h
  have := h.length_le
  simp [crlf] at this

theorem unbroken_singleton (b : UInt8) : Unbroken [b] := by
  intro h
  have := h.length_le
  simp [crlf] at this

theorem unbroken_of_not_mem {x : Bytes} (h : cr ∉ x) : Unbroken x :=
  fun hx => h (hx.subset (by simp [crlf]))

theorem Unbroken.of_append_left {x y : Bytes} (h : Unbroken (x ++ y)) : Unbroken x :=
  fun hx => h (hx.trans (List.infix_append' [] x y))

theorem unbroken_cons_iff {b : UInt8} {x : Bytes} :
    Unbroken (b :: x) ↔ ¬ (b = cr ∧ x.head? = some lf) ∧ Unbroken x := by
  rw [Unbroken, Unbroken, List.infix_cons_iff, crlf_prefix_cons_iff, not_or]

/-- One more byte breaks the bytes only if it is an LF behind a CR. -/
theorem unbroken_concat_iff {x : Bytes} {b : UInt8} :
    Unbroken (x ++ [b]) ↔ Unbroken x ∧ ¬ (x.getLast? = some cr ∧ b = lf) := by
  induction x with
  | nil => simp [unbroken_singleton, unbroken_nil]
  | cons a x ih =>
      rw [List.cons_append, unbroken_cons_iff, ih, unbroken_cons_iff]
      cases x with
      | nil => simp [unbroken_nil]
      | cons c x => simp [List.getLast?_cons_cons, and_assoc]

/-- What ends in a CR is a line and that CR. -/
theorem Unbroken.exists_line {x : Bytes} (h : Unbroken x) (hcr : x.getLast? = some cr) :
    ∃ line, x = line ++ [cr] ∧ Unbroken line := by
  obtain ⟨line, rfl⟩ := List.getLast?_eq_some_iff.1 hcr
  exact ⟨line, rfl, h.of_append_left⟩

/-- Where bytes are cut, a CR at the end keeps the byte behind it, so no CR LF is cut in two. -/
theorem Unbroken.not_break_at_cut {x : Bytes} {k : Option UInt8} (h : Unbroken (x ++ k.toList))
    (hk : k = none ↔ x.getLast? ≠ some cr) (v : Bytes) :
    ¬ (x.getLast? = some cr ∧ (k.toList ++ v).head? = some lf) := by
  rintro ⟨hcr, hlf⟩
  cases k with
  | none => exact hk.1 rfl hcr
  | some b => exact (unbroken_concat_iff.1 h).2 ⟨hcr, by simpa using hlf⟩

/-! ## Behind the first line -/

def afterLine? (bs : Bytes) : Option Bytes := afterFirst? crlf bs

@[simp] theorem afterLine?_crlf (v : Bytes) : afterLine? (cr :: lf :: v) = some v :=
  afterFirst?_append_self crlf v

theorem afterLine?_cons {b : UInt8} {x : Bytes} (h : ¬ (b = cr ∧ x.head? = some lf)) :
    afterLine? (b :: x) = afterLine? x :=
  afterFirst?_cons (by rwa [crlf_prefix_cons_iff])

/-- Bytes that neither hold a CR LF nor form one with what follows can be passed over. -/
theorem afterLine?_append {x v : Bytes} (hx : Unbroken x)
    (h : ¬ (x.getLast? = some cr ∧ v.head? = some lf)) : afterLine? (x ++ v) = afterLine? v := by
  induction x with
  | nil => rfl
  | cons b x ih =>
      obtain ⟨hb, hx⟩ := unbroken_cons_iff.1 hx
      cases x with
      | nil => exact afterLine?_cons (by simpa using h)
      | cons c x =>
          rw [List.cons_append, afterLine?_cons (by simpa using hb)]
          exact ih hx (by rwa [List.getLast?_cons_cons] at h)

/-- Behind an unbroken line and its terminator. -/
theorem afterLine?_line {line : Bytes} (h : Unbroken line) (v : Bytes) :
    afterLine? (line ++ crlf ++ v) = some v := by
  rw [List.append_assoc, afterLine?_append h (by simp [crlf, cr_ne_lf])]
  exact afterLine?_crlf v

theorem afterLine?_eq_none {x : Bytes} (h : Unbroken x) : afterLine? x = none := by
  have := afterLine?_append h (v := []) (by simp)
  rwa [List.append_nil] at this

/-! ## Behind the blank line -/

/-- What follows the first CR LF CR LF. -/
def afterEmptyLine? (bs : Bytes) : Option Bytes := afterFirst? (crlf ++ crlf) bs

/-- What follows the first blank line: a CR LF at the front, else the first CR LF CR LF. -/
def afterBlankLine? (bs : Bytes) : Option Bytes :=
  match crlf.isPrefixOf? bs with
  | some rest => some rest
  | none => afterEmptyLine? bs

@[simp] theorem afterBlankLine?_crlf (v : Bytes) : afterBlankLine? (cr :: lf :: v) = some v := by
  simp [afterBlankLine?, crlf, List.isPrefixOf?]

/-- Without a CR LF at the front, the blank line is the first empty line. -/
theorem afterBlankLine?_eq {v : Bytes} (h : ¬ crlf <+: v) :
    afterBlankLine? v = afterEmptyLine? v := by
  rw [afterBlankLine?, isPrefixOf?_eq_none_iff.2 h]

/-- What follows the blank line is the end of the bytes. -/
theorem afterBlankLine?_suffix {s v : Bytes} (h : afterBlankLine? s = some v) : v <:+ s := by
  by_cases hfront : crlf <+: s
  · obtain ⟨w, rfl⟩ := hfront
    have hsome : afterBlankLine? (crlf ++ w) = some w := afterBlankLine?_crlf w
    rw [hsome] at h
    exact Option.some.inj h ▸ List.suffix_append crlf w
  · rw [afterBlankLine?_eq hfront] at h
    obtain ⟨u, rfl⟩ := afterFirst?_eq_some h
    exact List.suffix_append _ v

/-- If the blank line ends in front of `v` at the latest, then it is found without `v`. -/
theorem afterBlankLine?_of_append {u v x : Bytes} (h : afterBlankLine? (u ++ v) = some (x ++ v)) :
    afterBlankLine? u = some x := by
  by_cases hfront : crlf <+: u ++ v
  · obtain ⟨w, hw⟩ := hfront
    have hsome : afterBlankLine? (crlf ++ w) = some w := afterBlankLine?_crlf w
    rw [← hw, hsome] at h
    cases h
    rw [← List.append_assoc] at hw
    obtain rfl : crlf ++ x = u := List.append_cancel_right hw
    exact afterBlankLine?_crlf x
  · rw [afterBlankLine?_eq hfront] at h
    rw [afterBlankLine?_eq fun hu => hfront (hu.trans (List.prefix_append u v))]
    exact afterFirst?_of_append h

theorem afterEmptyLine?_cons {b : UInt8} {x : Bytes} (h : ¬ crlf ++ crlf <+: b :: x) :
    afterEmptyLine? (b :: x) = afterEmptyLine? x :=
  afterFirst?_cons h

/-- Behind the first line terminator, looking for an empty line is looking for a blank line. -/
theorem afterEmptyLine?_eq_bind (v : Bytes) :
    afterEmptyLine? v = (afterLine? v).bind afterBlankLine? := by
  induction v with
  | nil => rfl
  | cons b v ih =>
      by_cases h : b = cr ∧ v.head? = some lf
      · obtain ⟨rfl, hv⟩ := h
        obtain ⟨w, rfl⟩ := List.head?_eq_some_iff.1 hv
        rw [afterLine?_crlf, Option.bind_some]
        by_cases hw : crlf <+: w
        · obtain ⟨t, rfl⟩ := hw
          exact (afterFirst?_append_self (crlf ++ crlf) t).trans (afterBlankLine?_crlf t).symm
        · -- the LF begins no terminator, so both searches go on behind it
          rw [afterBlankLine?_eq hw, afterEmptyLine?_cons, afterEmptyLine?_cons]
          · simp [crlf, List.cons_prefix_cons, cr_ne_lf]
          · simpa [crlf, List.cons_prefix_cons] using hw
      · rw [afterLine?_cons h, ← ih, afterEmptyLine?_cons]
        intro hp
        exact h (crlf_prefix_cons_iff.1 ((List.prefix_append crlf crlf).trans hp))

theorem afterEmptyLine?_crlf (v : Bytes) : afterEmptyLine? (crlf ++ v) = afterBlankLine? v := by
  rw [afterEmptyLine?_eq_bind]
  exact congrArg (·.bind afterBlankLine?) (afterLine?_crlf v)

theorem afterEmptyLine?_append {x v : Bytes} (hx : Unbroken x)
    (h : ¬ (x.getLast? = some cr ∧ v.head? = some lf)) :
    afterEmptyLine? (x ++ v) = afterEmptyLine? v := by
  rw [afterEmptyLine?_eq_bind, afterLine?_append hx h, ← afterEmptyLine?_eq_bind]

/-- A line that has begun never becomes the blank line. -/
theorem afterBlankLine?_append {x v : Bytes} (hne : x ≠ []) (hx : Unbroken x)
    (h : ¬ (x.getLast? = some cr ∧ v.head? = some lf)) :
    afterBlankLine? (x ++ v) = afterEmptyLine? v := by
  rw [afterBlankLine?_eq, afterEmptyLine?_append hx h]
  obtain ⟨b, x, rfl⟩ := List.exists_cons_of_ne_nil hne
  intro hp
  obtain ⟨rfl, hlf⟩ := crlf_prefix_cons_iff.1 hp
  cases x with
  | nil => exact h ⟨rfl, hlf⟩
  | cons c x => exact (unbroken_cons_iff.1 hx).1 ⟨rfl, hlf⟩

/-- A line that is not empty leaves the blank line behind it. -/
theorem afterBlankLine?_line {line : Bytes} (hne : line ≠ []) (h : Unbroken line) (v : Bytes) :
    afterBlankLine? (line ++ crlf ++ v) = afterBlankLine? v := by
  rw [List.append_assoc, afterBlankLine?_append hne h (by simp [crlf, cr_ne_lf]),
    afterEmptyLine?_crlf]

/-! ## Behind the blank line, from within a section -/

namespace Position

def taken : Position → Bytes
  | lineStart => []
  | inLine k => k.toList

/-- What follows the section's blank line, for a connection that stands at the position. -/
def after? (pos : Position) (s : Bytes) : Option Bytes :=
  match pos with
  | lineStart => afterBlankLine? s
  | inLine k => afterEmptyLine? (k.toList ++ s)

theorem unbroken_taken (pos : Position) : Unbroken pos.taken := by
  unfold taken
  split
  next => exact unbroken_nil
  next k =>
    cases k with
    | none => exact unbroken_nil
    | some b => exact unbroken_singleton b

theorem afterCr_iff (pos : Position) : pos.afterCr = true ↔ pos.taken.getLast? = some cr := by
  cases pos with
  | lineStart => simp [afterCr, taken]
  | inLine k => cases k <;> simp [afterCr, taken]

/-- Behind a cut line, the position within it stands for all of its bytes. -/
theorem after?_full {pos : Position} {x : Bytes} {k : Option UInt8} (hne : x ≠ [])
    (hu : Unbroken (pos.taken ++ x ++ k.toList))
    (hk : k = none ↔ (pos.taken ++ x).getLast? ≠ some cr) (v : Bytes) :
    pos.after? (x ++ k.toList ++ v) = (inLine k).after? v := by
  have hcut := hu.not_break_at_cut hk v
  have hx := hu.of_append_left
  rw [List.append_assoc]
  cases pos with
  | lineStart => exact afterBlankLine?_append hne hx hcut
  | inLine k' =>
      have := afterEmptyLine?_append hx hcut
      rwa [List.append_assoc] at this

/-- Behind a line terminator: the blank line itself, or the start of the next line. -/
theorem after?_crlf {pos : Position} {x line : Bytes} (h : pos.taken ++ x = line ++ [cr])
    (hu : Unbroken line) (v : Bytes) :
    pos.after? (x ++ [lf] ++ v) =
      if pos = lineStart ∧ x = [cr] then some v else afterBlankLine? v := by
  have hline : pos.taken ++ (x ++ [lf] ++ v) = line ++ crlf ++ v := by
    rw [List.append_assoc, ← List.append_assoc, h]
    simp [crlf]
  -- only a line that began at the position can be the blank line
  cases pos with
  | lineStart =>
      change x = line ++ [cr] at h
      change x ++ [lf] ++ v = line ++ crlf ++ v at hline
      rw [after?, hline]
      cases line with
      | nil => rw [if_pos ⟨rfl, h⟩]; exact afterBlankLine?_crlf v
      | cons b line =>
          rw [if_neg (by simp [h]), afterBlankLine?_line (List.cons_ne_nil b line) hu]
  | inLine k =>
      change k.toList ++ (x ++ [lf] ++ v) = line ++ crlf ++ v at hline
      rw [after?, hline, if_neg (by simp), List.append_assoc,
        afterEmptyLine?_append hu (by simp [crlf, cr_ne_lf]), afterEmptyLine?_crlf]

/-- Bytes without a line terminator hold no blank line. -/
theorem after?_eq_none {pos : Position} {x : Bytes} (hu : Unbroken (pos.taken ++ x)) :
    pos.after? x = none := by
  have hempty : afterEmptyLine? (pos.taken ++ x) = none := by
    rw [afterEmptyLine?_eq_bind, afterLine?_eq_none hu, Option.bind_none]
  cases pos with
  | lineStart =>
      have hfront : ¬ crlf <+: x := fun hp => hu hp.isInfix
      rw [after?, afterBlankLine?_eq hfront]
      exact hempty
  | inLine k => exact hempty

end Position

theorem afterBlankLine?_eq_none {x : Bytes} (h : Unbroken x) : afterBlankLine? x = none :=
  @Position.after?_eq_none .lineStart x h

end HttpExchange
