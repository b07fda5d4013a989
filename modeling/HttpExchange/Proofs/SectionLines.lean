import HttpExchange.Proofs.Boundary

set_option autoImplicit false

/-! # The lines of a section

`sectionLines s` lists the lines of the section that `s` begins with, up to its blank line or to
the end of `s`. Storage of fixed size keeps a front part of them (`cutLines`): whole lines as long
as a line and the byte behind it fit, and of the first line that does not fit the bytes that do.
In storage the lines form a `table`, each with a null byte behind it, and `lineRanges` tells where
each of them stands; the last null byte may be missing.
-/

namespace HttpExchange

open Ascii

/-! ## The first line -/

/-- What stands before the first CR LF, which is everything if there is none. -/
def firstLine : Bytes → Bytes
  | [] => []
  | b :: bs => if b = cr ∧ bs.head? = some lf then [] else b :: firstLine bs

theorem firstLine_crlf (v : Bytes) : firstLine (crlf ++ v) = [] := by
  simp [crlf, firstLine]

theorem firstLine_append {x v : Bytes} (hx : Unbroken x)
    (h : ¬ (x.getLast? = some cr ∧ v.head? = some lf)) : firstLine (x ++ v) = x ++ firstLine v := by
  induction x with
  | nil => rfl
  | cons b x ih =>
      obtain ⟨hb, hx⟩ := unbroken_cons_iff.1 hx
      -- the break may not come from within `x`, and not from where `x` and `v` meet
      have hbreak : ¬ (b = cr ∧ (x ++ v).head? = some lf) := by
        cases x with
        | nil => simpa using h
        | cons c x => simpa using hb
      rw [List.cons_append, firstLine, if_neg hbreak, ih hx, List.cons_append]
      cases x with
      | nil => simp
      | cons c x => rwa [List.getLast?_cons_cons] at h

/-! ## The lines up to the blank one -/

theorem afterLine?_length_lt {s t : Bytes} (h : afterLine? s = some t) : t.length < s.length := by
  obtain ⟨u, rfl⟩ := afterFirst?_eq_some h
  simp only [crlf, List.length_append, List.length_cons]
  omega

/-- The lines that stand before the first empty one, without their terminators. The last one may
lack its terminator. -/
def sectionLines (s : Bytes) : List Bytes :=
  if firstLine s = [] then []
  else
    match _h : afterLine? s with
    | some t => firstLine s :: sectionLines t
    | none => [firstLine s]
termination_by s.length
decreasing_by exact afterLine?_length_lt _h

@[simp] theorem sectionLines_nil : sectionLines [] = [] := by
  rw [sectionLines, if_pos (show firstLine [] = [] from rfl)]

theorem sectionLines_crlf (t : Bytes) : sectionLines (crlf ++ t) = [] := by
  rw [sectionLines, if_pos (firstLine_crlf t)]

/-- A line with its terminator, and the lines behind it. -/
theorem sectionLines_line {line : Bytes} (hne : line ≠ []) (h : Unbroken line) (t : Bytes) :
    sectionLines (line ++ crlf ++ t) = line :: sectionLines t := by
  have hfirst : firstLine (line ++ crlf ++ t) = line := by
    rw [List.append_assoc, firstLine_append h (by simp [crlf, cr_ne_lf]), firstLine_crlf,
      List.append_nil]
  rw [sectionLines, hfirst, if_neg hne]
  split
  next t' ht =>
    rw [afterLine?_line h] at ht
    cases ht
    rfl
  next hnone =>
    rw [afterLine?_line h] at hnone
    cases hnone

/-- Bytes that have begun a line stand at the front of the first line. -/
theorem sectionLines_append {x v : Bytes} (hne : x ≠ []) (hx : Unbroken x)
    (h : ¬ (x.getLast? = some cr ∧ v.head? = some lf)) :
    ∃ w ls, sectionLines (x ++ v) = (x ++ w) :: ls := by
  have hfirst := firstLine_append hx h
  have hne' : firstLine (x ++ v) ≠ [] := by simp [hfirst, hne]
  rw [sectionLines, if_neg hne', hfirst]
  split
  next t _ => exact ⟨firstLine v, sectionLines t, rfl⟩
  next => exact ⟨firstLine v, [], rfl⟩

/-- A line without a terminator is the last one. -/
theorem sectionLines_unbroken {x : Bytes} (hne : x ≠ []) (hx : Unbroken x) :
    sectionLines x = [x] := by
  have hfirst : firstLine x = x := by
    have := firstLine_append hx (v := []) (by simp)
    simpa [firstLine] using this
  rw [sectionLines, hfirst, if_neg hne]
  split
  next t ht =>
    rw [afterLine?_eq_none hx] at ht
    cases ht
  next => rfl

def sectionText (ls : List Bytes) : Bytes := ls.flatMap (· ++ crlf) ++ crlf

theorem sectionText_cons (l : Bytes) (ls : List Bytes) (t : Bytes) :
    sectionText (l :: ls) ++ t = l ++ crlf ++ (sectionText ls ++ t) := by
  simp [sectionText]

theorem sectionLines_sectionText {ls : List Bytes} (h : ∀ l ∈ ls, l ≠ [] ∧ Unbroken l)
    (t : Bytes) : sectionLines (sectionText ls ++ t) = ls := by
  induction ls with
  | nil => exact sectionLines_crlf t
  | cons l ls ih =>
      obtain ⟨⟨hne, hu⟩, hls⟩ := List.forall_mem_cons.1 h
      rw [sectionText_cons, sectionLines_line hne hu, ih hls]

theorem afterBlankLine?_sectionText {ls : List Bytes} (h : ∀ l ∈ ls, l ≠ [] ∧ Unbroken l)
    (t : Bytes) : afterBlankLine? (sectionText ls ++ t) = some t := by
  induction ls with
  | nil => exact afterBlankLine?_crlf t
  | cons l ls ih =>
      obtain ⟨⟨hne, hu⟩, hls⟩ := List.forall_mem_cons.1 h
      rw [sectionText_cons, afterBlankLine?_line hne hu, ih hls]

/-! ## Lines in storage -/

/-- The lines one after another, each with a null byte behind it. -/
def table (ls : List Bytes) : Bytes := ls.flatMap (· ++ [0])

@[simp] theorem table_nil : table [] = [] := rfl

@[simp] theorem table_cons (l : Bytes) (ls : List Bytes) :
    table (l :: ls) = l ++ 0 :: table ls := by
  simp [table]

theorem table_append (ls more : List Bytes) : table (ls ++ more) = table ls ++ table more := by
  simp [table]

/-- Where the lines of a table stand if its first byte stands at `start`. -/
def lineRanges (start : Nat) : List Bytes → List LineRange
  | [] => []
  | l :: ls => ⟨start, start + l.length⟩ :: lineRanges (start + l.length + 1) ls

/-- The ranges give the lines back, also if the last null byte is missing. -/
theorem map_slice_lineRanges {w bs : Bytes} {ls : List Bytes} (h : w ++ table ls <+: bs ++ [0]) :
    (lineRanges w.length ls).map (·.slice bs) = ls := by
  induction ls generalizing w with
  | nil => rfl
  | cons l ls ih =>
      -- the null byte that may be missing stands behind all of `l`, so `l` lies within `bs`
      have hl : w ++ l <+: bs := by
        have hlen := h.length_le
        simp only [table_cons, List.length_append, List.length_cons, List.length_nil] at hlen
        refine List.prefix_of_prefix_length_le ?_ (List.prefix_append bs [0]) (by simp; omega)
        exact List.IsPrefix.trans ⟨0 :: table ls, by simp⟩ h
      have hslice : LineRange.slice ⟨w.length, w.length + l.length⟩ bs = l := by
        obtain ⟨x, rfl⟩ := hl
        simp [LineRange.slice]
      have hrest : (w ++ l ++ [0]).length = w.length + l.length + 1 := by
        simp [Nat.add_assoc]
      rw [lineRanges, List.map_cons, hslice, ← hrest, ih]
      simpa using h

def Headers.ofLines (ls : List Bytes) : Headers := ⟨table ls, lineRanges 0 ls⟩

@[simp] theorem Headers.lines_ofLines (ls : List Bytes) : (ofLines ls).lines = ls :=
  map_slice_lineRanges (w := []) (List.prefix_append (table ls) [0])

/-! ## Lines cut to the room for them -/

/-- What storage of `room` bytes keeps of the lines: each takes its length and one byte more, and
the first line that does not fit is cut. -/
def cutLines : Nat → List Bytes → List Bytes
  | room + 1, l :: ls => l.take (room + 1) :: cutLines (room - l.length) ls
  | _, _ => []

def wholeLines : Nat → List Bytes → List Bytes
  | room + 1, l :: ls => if l.length ≤ room + 1 then l :: wholeLines (room - l.length) ls else []
  | _, _ => []

@[simp] theorem cutLines_nil (room : Nat) : cutLines room [] = [] := by
  cases room <;> rfl

@[simp] theorem cutLines_zero (ls : List Bytes) : cutLines 0 ls = [] := by
  cases ls <;> rfl

theorem cutLines_cons {room : Nat} {l : Bytes} (h : l.length < room) (ls : List Bytes) :
    cutLines room (l :: ls) = l :: cutLines (room - (l.length + 1)) ls := by
  obtain ⟨room, rfl⟩ := Nat.exists_eq_add_one_of_ne_zero (Nat.ne_of_gt (Nat.zero_lt_of_lt h))
  rw [cutLines, List.take_of_length_le (Nat.le_of_lt h), Nat.add_sub_add_right]

/-- A line that leaves no room is the last one. -/
theorem cutLines_cut {room : Nat} {l : Bytes} (hroom : 0 < room) (h : room ≤ l.length)
    (ls : List Bytes) : cutLines room (l :: ls) = [l.take room] := by
  obtain ⟨room, rfl⟩ := Nat.exists_eq_add_one_of_ne_zero (Nat.ne_of_gt hroom)
  rw [cutLines, Nat.sub_eq_zero_of_le (by omega), cutLines_zero]

/-- A single line that fits but for its null byte. -/
theorem cutLines_singleton {room : Nat} {l : Bytes} (hroom : 0 < room) (h : l.length ≤ room) :
    cutLines room [l] = [l] := by
  rcases Nat.lt_or_eq_of_le h with hlt | heq
  · rw [cutLines_cons hlt, cutLines_nil]
  · rw [cutLines_cut hroom (Nat.le_of_eq heq.symm), List.take_of_length_le h]

/-- What is kept is a front part of the lines, or ends in a line that was cut and then fills the
room. -/
theorem cutLines_prefix_or_cut (room : Nat) (ls : List Bytes) :
    cutLines room ls <+: ls ∨ ∃ front line more kept, ls = front ++ line :: more ∧
      cutLines room ls = front ++ [kept] ∧ kept ≠ [] ∧ kept <+: line ∧ kept ≠ line ∧
      (table front ++ kept).length = room := by
  induction ls generalizing room with
  | nil => exact .inl (by rw [cutLines_nil])
  | cons l ls ih =>
      by_cases hroom : room = 0
      · exact .inl (by rw [hroom, cutLines_zero]; exact List.nil_prefix)
      have hpos : 0 < room := Nat.pos_of_ne_zero hroom
      by_cases hfits : l.length < room
      · rw [cutLines_cons hfits]
        rcases ih (room - (l.length + 1)) with h | ⟨front, line, more, kept, rfl, hcut, hkept⟩
        · exact .inl ((List.prefix_cons_inj l).2 h)
        · obtain ⟨hne, hfront, hless, hlen⟩ := hkept
          refine .inr ⟨l :: front, line, more, kept, rfl, ?_, hne, hfront, hless, ?_⟩
          · rw [hcut, List.cons_append]
          · simp only [table_cons, List.length_append, List.length_cons] at hlen ⊢
            omega
      · rw [cutLines_cut hpos (Nat.le_of_not_lt hfits)]
        by_cases hwhole : l.length = room
        · rw [← hwhole, List.take_length]
          exact .inl (List.prefix_append [l] ls)
        · -- this is the line that is cut
          have hlen : (l.take room).length = room := by
            rw [List.length_take]
            omega
          refine .inr ⟨[], l, ls, l.take room, rfl, rfl, ?_, List.take_prefix room l, ?_, hlen⟩
          · exact List.ne_nil_of_length_pos (by omega)
          · exact fun h => hwhole (by rw [← hlen, h])

/-- Lines whose table fits are kept as they are. -/
theorem cutLines_of_fits {room : Nat} {ls : List Bytes} (h : (table ls).length ≤ room) :
    cutLines room ls = ls := by
  induction ls generalizing room with
  | nil => exact cutLines_nil room
  | cons l ls ih =>
      rw [table_cons, List.length_append, List.length_cons] at h
      rw [cutLines_cons (by omega), ih (by omega)]

/-- The table of the lines kept fits, up to its last null byte. -/
theorem length_table_cutLines_le (room : Nat) (ls : List Bytes) :
    (table (cutLines room ls)).length ≤ room + 1 := by
  induction ls generalizing room with
  | nil => simp
  | cons l ls ih =>
      cases room with
      | zero => simp
      | succ room =>
          have := ih (room - l.length)
          -- a line with no byte to spare leaves no room, and nothing is kept behind it
          by_cases h : l.length ≤ room
          · simp only [cutLines, table_cons, List.length_append, List.length_cons,
              List.length_take]
            omega
          · rw [Nat.sub_eq_zero_of_le (by omega)] at this
            simp only [cutLines, table_cons, List.length_append, List.length_cons,
              List.length_take, Nat.sub_eq_zero_of_le (show room ≤ l.length by omega),
              cutLines_zero, table_nil, List.length_nil]
            omega

/-- More room keeps all the lines that less room keeps whole. -/
theorem wholeLines_prefix_cutLines {room room' : Nat} (h : room ≤ room') (ls : List Bytes) :
    wholeLines room ls <+: cutLines room' ls := by
  induction ls generalizing room room' with
  | nil => cases room <;> exact List.nil_prefix
  | cons l ls ih =>
      cases room with
      | zero => exact List.nil_prefix
      | succ room =>
          obtain ⟨room', rfl⟩ := Nat.exists_eq_add_one_of_ne_zero (show room' ≠ 0 by omega)
          rw [wholeLines, cutLines]
          split
          next hl =>
            rw [List.take_of_length_le (by omega)]
            exact (List.prefix_cons_inj l).2 (ih (by omega))
          next => exact List.nil_prefix

end HttpExchange
