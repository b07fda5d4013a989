import HttpExchange.Proofs.Capture

set_option autoImplicit false

/-! # What captured lines say

The status code is read off the first line that holds the status token, and a field has its value
from the first line that gives it one. Behind the line that decided, nothing matters
(`parseStatus_table_append`, `parseFraming_append`); the null bytes of the table keep its lines
apart. With what a capture holds, `readHead_eq_ok_iff` tells the answer of `readHead` from the lines
of the stream's section and the capacity of the storage.
-/

namespace HttpExchange

open Ascii

/-! ## The status code -/

theorem afterFirst?_isSome_iff {t s : Bytes} : (afterFirst? t s).isSome ↔ t <:+: s := by
  constructor
  · intro h
    obtain ⟨v, hv⟩ := Option.isSome_iff_exists.1 h
    obtain ⟨u, rfl⟩ := afterFirst?_eq_some hv
    exact ⟨u, v, rfl⟩
  · rintro ⟨u, v, rfl⟩
    induction u with
    | nil => simp [afterFirst?_append_self]
    | cons b u ih =>
        show (afterFirst? t (b :: (u ++ t ++ v))).isSome
        by_cases hp : t <+: b :: (u ++ t ++ v)
        · obtain ⟨w, hw⟩ := hp
          rw [← hw, afterFirst?_append_self]
          rfl
        · rw [afterFirst?_cons hp]
          exact ih

/-- A token without null bytes does not reach over one. -/
theorem prefix_of_prefix_append_null {t x y : Bytes} (h0 : (0 : UInt8) ∉ t)
    (h : t <+: x ++ 0 :: y) : t <+: x := by
  have hx : x ++ [0] <+: x ++ 0 :: y := ⟨y, by simp⟩
  by_cases hlen : t.length ≤ x.length
  · exact List.prefix_of_prefix_length_le h (List.prefix_append x _) hlen
  · -- a longer token would hold the null byte
    have hnull : x ++ [0] <+: t :=
      List.prefix_of_prefix_length_le hx h (by simp; omega)
    exact absurd (hnull.subset (by simp)) h0

theorem afterFirst?_append_null {t : Bytes} (hne : t ≠ []) (h0 : (0 : UInt8) ∉ t) (x y : Bytes) :
    afterFirst? t (x ++ 0 :: y) =
      ((afterFirst? t x).map (· ++ 0 :: y)).or (afterFirst? t y) := by
  induction x with
  | nil =>
      have hfront : ¬ t <+: 0 :: y := fun h =>
        hne (List.prefix_nil.1 (@prefix_of_prefix_append_null t [] y h0 h))
      have hnil : afterFirst? t [] = none := by
        rw [afterFirst?, isPrefixOf?_eq_none_iff, List.prefix_nil]
        exact hne
      rw [List.nil_append, afterFirst?_cons hfront, hnil]
      rfl
  | cons b x ih =>
      by_cases hp : t <+: b :: x
      · obtain ⟨v, hv⟩ := hp
        rw [← hv, List.append_assoc, afterFirst?_append_self, afterFirst?_append_self]
        rfl
      · have hp' : ¬ t <+: b :: (x ++ 0 :: y) := fun h =>
          hp (@prefix_of_prefix_append_null t (b :: x) y h0 h)
        rw [List.cons_append, afterFirst?_cons hp, afterFirst?_cons hp', ih]

theorem takeWhile_append_null {p : UInt8 → Bool} (hp : p 0 = false) (x y : Bytes) :
    (x ++ 0 :: y).takeWhile p = x.takeWhile p := by
  induction x with
  | nil => simp [hp]
  | cons b x ih =>
      by_cases hb : p b = true
      · simp [hb, ih]
      · simp [hb]

theorem dropWhile_append_null {p : UInt8 → Bool} (hp : p 0 = false) (x y : Bytes) :
    (x ++ 0 :: y).dropWhile p = x.dropWhile p ++ 0 :: y := by
  induction x with
  | nil => simp [hp]
  | cons b x ih =>
      by_cases hb : p b = true
      · simp [hb, ih]
      · simp [hb]

/-- The status code is read on one side of a null byte: in front of it if the token is there. -/
theorem parseStatus_append_null (x y : Bytes) :
    parseStatus (x ++ 0 :: y) = if statusToken <:+: x then parseStatus x else parseStatus y := by
  have hsplit := afterFirst?_append_null (t := statusToken) (by decide) (by decide) x y
  by_cases h : statusToken <:+: x
  · obtain ⟨rest, hrest⟩ := Option.isSome_iff_exists.1 (afterFirst?_isSome_iff.2 h)
    rw [if_pos h, parseStatus, parseStatus, hsplit, hrest]
    simp only [Option.map_some, Option.some_or, dropWhile_append_null (p := isDigit) (by decide),
      dropWhile_append_null (p := (· == space)) (by decide),
      takeWhile_append_null (p := isDigit) (by decide)]
  · have hnone : afterFirst? statusToken x = none := by
      rwa [← Option.not_isSome_iff_eq_none, afterFirst?_isSome_iff]
    rw [if_neg h, parseStatus, parseStatus, hsplit, hnone]
    rfl

theorem parseStatus_nil : parseStatus [] = .error .parse := rfl

/-- A null byte at the end makes no difference. -/
theorem parseStatus_concat_null (x : Bytes) : parseStatus (x ++ [0]) = parseStatus x := by
  rw [parseStatus_append_null]
  by_cases h : statusToken <:+: x
  · rw [if_pos h]
  · have hnone : afterFirst? statusToken x = none := by
      rwa [← Option.not_isSome_iff_eq_none, afterFirst?_isSome_iff]
    rw [if_neg h, parseStatus_nil, parseStatus, hnone]

/-- Lines behind one that holds the status token do not change the status code. -/
theorem parseStatus_table_append {ls : List Bytes} (h : ∃ l ∈ ls, statusToken <:+: l)
    (more : List Bytes) : parseStatus (table (ls ++ more)) = parseStatus (table ls) := by
  induction ls with
  | nil => simp at h
  | cons l ls ih =>
      rw [List.cons_append, table_cons, table_cons, parseStatus_append_null,
        parseStatus_append_null]
      by_cases hl : statusToken <:+: l
      · rw [if_pos hl, if_pos hl]
      · rw [if_neg hl, if_neg hl]
        obtain ⟨l', hmem, hl'⟩ := h
        rcases List.mem_cons.1 hmem with rfl | hmem
        · exact absurd hl' hl
        · exact ih ⟨l', hmem, hl'⟩

/-! ## The framing -/

/-- What is looked up depends on the lines alone, wherever they stand. -/
theorem get?_congr {h h' : Headers} (hlines : h.lines = h'.lines) (name : String) :
    h.get? name = h'.get? name := by
  rw [Headers.get?, Headers.get?, hlines]

theorem parseFraming_congr {h h' : Headers} (hlines : h.lines = h'.lines) :
    parseFraming h = parseFraming h' := by
  rw [parseFraming, parseFraming, get?_congr hlines, get?_congr hlines]

theorem get?_ofLines_append (ls more : List Bytes) (name : String) :
    (Headers.ofLines (ls ++ more)).get? name =
      ((Headers.ofLines ls).get? name).or ((Headers.ofLines more).get? name) := by
  simp only [Headers.get?, Headers.lines_ofLines, List.findSome?_append]

theorem parseFraming_eq_chunked_iff {h : Headers} :
    parseFraming h = .ok .chunked ↔ h.get? "Content-Length" = none ∧
      (h.get? "Transfer-Encoding").any isChunkedCoding = true := by
  unfold parseFraming
  split
  next value hget => split <;> simp [hget]
  next hget => simp [hget]

theorem parseFraming_eq_contentLength_iff {h : Headers} {n : Nat} :
    parseFraming h = .ok (.contentLength n) ↔
      ∃ value, h.get? "Content-Length" = some value ∧ leadingNumber? value = some n := by
  unfold parseFraming
  split
  next value hget =>
    split
    next m hm => simp [hget, hm]
    next hm => simp [hget, hm]
  next hget => split <;> simp [hget]

/-- More lines keep a framing, except that a `Content-Length` among them comes before the chunked
coding. -/
theorem parseFraming_append {ls : List Bytes} {framing : Framing}
    (h : parseFraming (.ofLines ls) = .ok framing) (more : List Bytes) :
    parseFraming (.ofLines (ls ++ more)) = .ok framing ↔
      (framing = .chunked → (Headers.ofLines (ls ++ more)).get? "Content-Length" = none) := by
  cases framing with
  | contentLength n =>
      obtain ⟨value, hget, hn⟩ := parseFraming_eq_contentLength_iff.1 h
      have hmore : (Headers.ofLines (ls ++ more)).get? "Content-Length" = some value := by
        rw [get?_ofLines_append, hget, Option.some_or]
      simp [parseFraming_eq_contentLength_iff, hmore, hn]
  | chunked =>
      obtain ⟨hnone, hany⟩ := parseFraming_eq_chunked_iff.1 h
      have hmore : ((Headers.ofLines (ls ++ more)).get? "Transfer-Encoding").any isChunkedCoding =
          true := by
        obtain ⟨value, hvalue⟩ : ∃ value, (Headers.ofLines ls).get? "Transfer-Encoding" =
            some value := by
          cases hget : (Headers.ofLines ls).get? "Transfer-Encoding" with
          | none => simp [hget] at hany
          | some value => exact ⟨value, rfl⟩
        rw [get?_ofLines_append, hvalue, Option.some_or, ← hvalue]
        exact hany
      simp [parseFraming_eq_chunked_iff, hmore]

/-! ## The head of a stream -/

/-- The lines of the section of `s` that stand in storage of `capacity` bytes after a capture: one
more than the index has slots. -/
def storedLines (capacity : Nat) (s : Bytes) : List Bytes :=
  (cutLines capacity (sectionLines s)).take (maxHeaderLines + 1)

/-- The lines of them that have a slot in the index. -/
def indexedLines (capacity : Nat) (s : Bytes) : List Bytes :=
  (cutLines capacity (sectionLines s)).take maxHeaderLines

theorem indexedLines_prefix_storedLines (capacity : Nat) (s : Bytes) :
    indexedLines capacity s <+: storedLines capacity s :=
  List.take_prefix_take_left (Nat.le_succ maxHeaderLines)

theorem table_prefix_table {ls more : List Bytes} (h : ls <+: more) : table ls <+: table more := by
  obtain ⟨rest, rfl⟩ := h
  rw [table_append]
  exact List.prefix_append _ _

/-- The table of the stored lines stands in the storage, if not with its last null byte. -/
theorem take_table_storedLines (capacity : Nat) (s : Bytes) :
    (table (storedLines capacity s)).take capacity = table (storedLines capacity s) ∨
    ∃ x, table (storedLines capacity s) = x ++ [0] ∧
      (table (storedLines capacity s)).take capacity = x := by
  have hlen : (table (storedLines capacity s)).length ≤ capacity + 1 :=
    Nat.le_trans (table_prefix_table (List.take_prefix _ _)).length_le
      (length_table_cutLines_le capacity (sectionLines s))
  rcases List.eq_nil_or_concat (storedLines capacity s) with hnil | ⟨ls, l, hls⟩
  · left
    rw [hnil, table_nil, List.take_nil]
  · have htable : table (storedLines capacity s) = (table ls ++ l) ++ [0] := by
      rw [hls, List.concat_eq_append, table_append]
      simp
    rw [htable, List.length_append, List.length_singleton] at hlen
    rw [htable]
    by_cases h : (table ls ++ l).length < capacity
    · left
      apply List.take_of_length_le
      rw [List.length_append, List.length_singleton]
      omega
    · -- the last line ends with the storage, and its null byte falls outside
      right
      exact ⟨table ls ++ l, rfl, List.take_left' (by omega)⟩

theorem interpret_eq_ok_iff {buffer : HeaderBuffer} {lines : List LineRange} {complete : Bool}
    {head : ResponseHead} :
    interpret buffer lines complete = .ok head ↔ parseStatus buffer.written = .ok head.status ∧
      parseFraming ⟨buffer.written, lines⟩ = .ok head.framing ∧ head.complete = complete ∧
      head.lines = lines := by
  obtain ⟨status, framing, complete', lines'⟩ := head
  unfold interpret
  split
  next e he => simp [he]
  next status' hs =>
    split
    next e he => simp [he]
    next framing' hf =>
      simp only [hs, hf, Except.ok.injEq, ResponseHead.mk.injEq]
      constructor
      · rintro ⟨rfl, rfl, rfl, rfl⟩
        exact ⟨rfl, rfl, rfl, rfl⟩
      · rintro ⟨rfl, rfl, rfl, rfl⟩
        exact ⟨rfl, rfl, rfl, rfl⟩

theorem parseStatus_error {bs : Bytes} {e : Error} (h : parseStatus bs = .error e) :
    e = .parse := by
  unfold parseStatus at h
  split at h
  next => exact (Except.error.inj h).symm
  next =>
    simp only at h
    split at h
    next => cases h
    next => exact (Except.error.inj h).symm

theorem parseFraming_error {h : Headers} {e : Error} (herror : parseFraming h = .error e) :
    e = .parse := by
  unfold parseFraming at herror
  split at herror
  next =>
    split at herror
    next => cases herror
    next => exact (Except.error.inj herror).symm
  next =>
    split at herror
    next => cases herror
    next => exact (Except.error.inj herror).symm

/-- Lines that were captured are malformed, or they give a head. -/
theorem interpret_error {buffer : HeaderBuffer} {lines : List LineRange} {complete : Bool}
    {e : Error} (h : interpret buffer lines complete = .error e) : e = .parse := by
  unfold interpret at h
  split at h
  next e' hs =>
    cases h
    exact parseStatus_error hs
  next =>
    split at h
    next e' hf =>
      cases h
      exact parseFraming_error hf
    next => cases h

section Captured

variable {σ : Type} {buffer : HeaderBuffer} {s : Bytes} {got : Captured σ}
  (h : got.Holds maxHeaderLines buffer.reset s)
include h

theorem Captured.Holds.written_reset : ∃ z, (z = [] ∨ z = [0]) ∧
    got.buffer.written = (table (storedLines buffer.capacity s)).take buffer.capacity ++ z := by
  have hroom : buffer.reset.remaining = buffer.capacity := by simp [HeaderBuffer.remaining]
  obtain ⟨z, hz, hw⟩ := h.written
  exact ⟨z, hz, by rw [hw, hroom]; rfl⟩

theorem Captured.Holds.lines_reset :
    got.lines = lineRanges 0 (indexedLines buffer.capacity s) := by
  have hroom : buffer.reset.remaining = buffer.capacity := by simp [HeaderBuffer.remaining]
  rw [h.lines, hroom]
  rfl

/-- The status code is that of the stored lines. -/
theorem Captured.Holds.parseStatus_eq :
    parseStatus got.buffer.written = parseStatus (table (storedLines buffer.capacity s)) := by
  obtain ⟨z, hz, hw⟩ := h.written_reset
  have htake : parseStatus ((table (storedLines buffer.capacity s)).take buffer.capacity) =
      parseStatus (table (storedLines buffer.capacity s)) := by
    rcases take_table_storedLines buffer.capacity s with hall | ⟨x, hx, hcut⟩
    · rw [hall]
    · rw [hcut, hx, parseStatus_concat_null]
  rw [hw, ← htake]
  rcases hz with rfl | rfl
  · rw [List.append_nil]
  · rw [parseStatus_concat_null]

/-- The ranges of the index give the indexed lines. -/
theorem Captured.Holds.lines_eq :
    (Headers.mk got.buffer.written got.lines).lines = indexedLines buffer.capacity s := by
  obtain ⟨z, hz, hw⟩ := h.written_reset
  rw [Headers.lines, h.lines_reset]
  apply map_slice_lineRanges (w := [])
  refine (table_prefix_table (indexedLines_prefix_storedLines buffer.capacity s)).trans ?_
  -- what stands behind the stored part can only make up for the last null byte
  rw [hw]
  rcases take_table_storedLines buffer.capacity s with hall | ⟨x, hx, hcut⟩
  · rw [hall, List.append_assoc]
    exact List.prefix_append _ _
  · rw [hcut, hx, List.append_assoc]
    apply (List.prefix_append_right_inj x).2
    rcases hz with rfl | rfl
    · exact List.prefix_rfl
    · exact List.prefix_append [0] [0]

/-- The framing is that of the indexed lines. -/
theorem Captured.Holds.parseFraming_eq :
    parseFraming ⟨got.buffer.written, got.lines⟩ =
      parseFraming (.ofLines (indexedLines buffer.capacity s)) := by
  apply parseFraming_congr
  rw [Headers.lines_ofLines, h.lines_eq]

end Captured

variable {σ : Type} [Transport σ]

/-- A head is what the captured lines amount to; a capture that failed has no lines. -/
theorem readHead_eq_ok_iff_interpret {buffer : HeaderBuffer} {c : σ} {s : Bytes}
    (hc : Delivers c s) (head : ResponseHead) :
    let got := capture maxHeaderLines buffer.reset c
    (readHead buffer c).1 = .ok head ↔
      interpret got.buffer got.lines (decide (got.stop = .blankLine)) = .ok head := by
  intro got
  rcases readHead_outcome buffer c with ⟨-, -, hanswer⟩ | ⟨u, c₁, c₂, f, ht, hread, -⟩ |
    ⟨⟨c₁, hread⟩, -, hanswer⟩
  · rw [hanswer]
  · -- excluded: no read fails
    obtain ⟨t, -, hd⟩ := ht.delivers hc
    exact absurd hread (delivers_feed.read_ne_error hd Nat.one_pos)
  · -- only an empty stream fails, and there is no status in it
    obtain rfl : s = [] := delivers_feed.byteFeed.close hc hread
    have hholds : got.Holds maxHeaderLines buffer.reset [] :=
      capture_holds delivers_feed.toFeed maxHeaderLines _ c [] hc (.inl delivers_feed)
    have hnone : parseStatus got.buffer.written = .error .parse := by
      rw [hholds.parseStatus_eq, storedLines, sectionLines_nil, cutLines_nil]
      rfl
    simp [hanswer, interpret, hnone]

/-- Of a stream without faults `readHead` gives a head exactly if the stored lines have a status
code and the indexed lines have a framing. The head is complete exactly if the section has its
blank line, the index has a slot for every line, and the table of the lines leaves a byte free. -/
theorem readHead_eq_ok_iff {buffer : HeaderBuffer} {c : σ} {s : Bytes} (hc : Delivers c s)
    (head : ResponseHead) :
    (readHead buffer c).1 = .ok head ↔
      parseStatus (table (storedLines buffer.capacity s)) = .ok head.status ∧
      parseFraming (.ofLines (indexedLines buffer.capacity s)) = .ok head.framing ∧
      (head.complete = true ↔ (afterBlankLine? s).isSome ∧
        (sectionLines s).length ≤ maxHeaderLines ∧
        (table (sectionLines s)).length < buffer.capacity) ∧
      head.lines = lineRanges 0 (indexedLines buffer.capacity s) := by
  have hholds := capture_holds delivers_feed.toFeed maxHeaderLines buffer.reset c s hc
    (.inl delivers_feed)
  have hroom : buffer.reset.remaining = buffer.capacity := by simp [HeaderBuffer.remaining]
  have hblank := hholds.blank
  rw [hroom] at hblank
  refine (readHead_eq_ok_iff_interpret hc head).trans ?_
  rw [interpret_eq_ok_iff, hholds.parseStatus_eq,
    hholds.parseFraming_eq, hholds.lines_reset, ← hblank]
  have hbool : ∀ {p : Prop} [Decidable p] {b : Bool}, b = decide p ↔ (b = true ↔ p) := by
    intro p _ b
    cases b <;> simp
  rw [hbool]

/-- A head of this status and this framing is read exactly if the lines say so. -/
theorem exists_readHead_iff {buffer : HeaderBuffer} {c : σ} {s : Bytes} (hc : Delivers c s)
    {status : Nat} {framing : Framing} :
    (∃ head, (readHead buffer c).1 = .ok head ∧ head.status = status ∧ head.framing = framing) ↔
      parseStatus (table (storedLines buffer.capacity s)) = .ok status ∧
      parseFraming (.ofLines (indexedLines buffer.capacity s)) = .ok framing := by
  constructor
  · rintro ⟨head, h, rfl, rfl⟩
    have := (readHead_eq_ok_iff hc head).1 h
    exact ⟨this.1, this.2.1⟩
  · rintro ⟨hs, hf⟩
    let complete := decide ((afterBlankLine? s).isSome ∧
      (sectionLines s).length ≤ maxHeaderLines ∧ (table (sectionLines s)).length < buffer.capacity)
    let head : ResponseHead :=
      ⟨status, framing, complete, lineRanges 0 (indexedLines buffer.capacity s)⟩
    refine ⟨head, ?_, rfl, rfl⟩
    exact (readHead_eq_ok_iff hc head).2 ⟨hs, hf, decide_eq_true_iff, rfl⟩

end HttpExchange
