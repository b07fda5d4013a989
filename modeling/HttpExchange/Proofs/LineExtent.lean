import HttpExchange.Proofs.Reading

set_option autoImplicit false

/-! # The extent of a line

A line read of a stream without faults is decided by where the first CR LF of the stream begins
(`FirstBreak`), by the size of the buffer and by the length of the stream. The three ways in which
it can end are told apart in `readLine_outcome`; the main statement `readLine_exact` gives for each
stream and each buffer the answer, the bytes that the buffer begins with and the number of bytes
taken. -/

namespace HttpExchange

open Ascii

/-! ## The first line terminator -/

/-- The first CR LF of the bytes begins at this position. -/
def FirstBreak (s : Bytes) (n : Nat) : Prop :=
  crlf <+: s.drop n ∧ ∀ m < n, ¬ crlf <+: s.drop m

instance (s : Bytes) (n : Nat) : Decidable (FirstBreak s n) :=
  inferInstanceAs (Decidable (crlf <+: s.drop n ∧ ∀ m < n, ¬ crlf <+: s.drop m))

theorem FirstBreak.unique {s : Bytes} {m n : Nat} (hm : FirstBreak s m) (hn : FirstBreak s n) :
    m = n := by
  rcases Nat.lt_trichotomy m n with h | h | h
  · exact absurd hm.1 (hn.2 m h)
  · exact h
  · exact absurd hn.1 (hm.2 n h)

/-- No CR LF begins within unbroken bytes, if none stands across their end. -/
theorem Unbroken.not_break_within {x v : Bytes} (hx : Unbroken x)
    (hcut : ¬ (x.getLast? = some cr ∧ v.head? = some lf)) {n : Nat} (hn : n < x.length) :
    ¬ crlf <+: (x ++ v).drop n := by
  induction x generalizing n with
  | nil => exact absurd hn (Nat.not_lt_zero n)
  | cons b x ih =>
      obtain ⟨hb, hx⟩ := unbroken_cons_iff.1 hx
      cases n with
      | zero =>
          rw [List.drop_zero, List.cons_append, crlf_prefix_cons_iff]
          cases x with
          | nil => simpa using hcut
          | cons d x => simpa using hb
      | succ n =>
          cases x with
          | nil => simp at hn
          | cons d x =>
              rw [List.getLast?_cons_cons] at hcut
              exact ih hx hcut (Nat.lt_of_succ_lt_succ hn)

theorem firstBreak_line {line : Bytes} (h : Unbroken line) (v : Bytes) :
    FirstBreak (line ++ crlf ++ v) line.length := by
  rw [List.append_assoc]
  constructor
  · rw [List.drop_left]
    exact List.prefix_append crlf v
  · intro m hm
    exact h.not_break_within (by simp [crlf, cr_ne_lf]) hm

/-! ## What a line read comes to -/

/-- The bytes taken for a line that do not stay in the buffer: the LF of its terminator, or the byte
that is handed back. -/
def Line.aside : Line → Bytes
  | complete _ => [lf]
  | truncated _ carry => carry.toList
  | closed _ => []

def Line.closing : Line → List Call
  | closed _ => [.read 1 (.ok [])]
  | _ => []

variable {σ : Type} [Transport σ]

/-- Reading a line of the stream `s` gives this answer. The buffer begins with the bytes `stored`
and keeps its content behind them. So many bytes were taken from the front of the stream, one by
one, and they are the stored ones and those set aside; the others are still to come. -/
def LineTaken (c : σ) (s out : Bytes) (line : Line) (stored : Bytes) (count : Nat) : Prop :=
  ∃ l : Logged σ, readLine (⟨c, []⟩ : Logged σ) out =
      (.ok line, stored ++ out.drop stored.length, l) ∧
    s.take count = stored ++ line.aside ∧
    l.calls = (s.take count).map .take ++ line.closing ∧
    Delivers l.inner (s.drop count)

/-- A line read takes the bytes that it stores and those that it sets aside. -/
theorem LineTaken.of_takes {c : σ} {s out : Bytes} {line : Line} {g : Gathered (Logged σ)}
    (hc : Delivers c s) (hg : gather false out.length (⟨c, []⟩ : Logged σ) = g)
    (hline : Line.ofStop g.stored.length g.stop = .ok line) (hclosing : line.closing = [])
    (ht : Takes (⟨c, []⟩ : Logged σ) (g.stored ++ line.aside) g.rest) :
    ∃ t, s = g.stored ++ line.aside ++ t ∧
      LineTaken c s out line g.stored (g.stored ++ line.aside).length := by
  obtain ⟨ht, hcalls⟩ := ht.calls
  obtain ⟨t, rfl, hd⟩ := ht.delivers hc
  refine ⟨t, rfl, g.rest, ?_, ?_, ?_, ?_⟩
  · simp only [readLine, hg, hline]
  · rw [List.take_left]
  · rw [List.take_left, hcalls, hclosing]
    simp
  · rwa [List.drop_left]

/-- A line read that fills the room and then meets the close has a CR in the last slot. -/
theorem gather_full_of_closed {p : Bytes} {afterCr : Bool} {room : Nat} {c : σ}
    (hcr : afterCr = true ↔ p.getLast? = some cr) (h : (gather afterCr room c).stop = .closed)
    (hroom : (gather afterCr room c).stored.length = room) :
    (p ++ (gather afterCr room c).stored).getLast? = some cr := by
  fun_induction gather afterCr room c generalizing p with
  | case1 => cases h
  | case2 c c' hr => simpa using hcr.1 rfl
  | case3 c b bs c' hr =>
      simp only at h
      split at h <;> cases h
  | case4 => cases h
  | case5 => cases h
  | case6 => simp at hroom
  | case7 => cases h
  | case8 afterCr room c b bs c' hr hstop more =>
      rename_i ih
      have hlast := @ih (p ++ [b]) (by simp) h (Nat.succ.inj hroom)
      rwa [List.append_assoc] at hlast

/-- The three ways in which a line read of a stream without faults can end: with a terminator that
fits, with a full buffer, and with the end of the stream. -/
theorem readLine_outcome {c : σ} {s : Bytes} (hc : Delivers c s) (out : Bytes) :
    (∃ line rest, s = line ++ crlf ++ rest ∧ Unbroken line ∧ line.length < out.length ∧
      LineTaken c s out (.complete line.length) (line ++ [cr]) (line.length + 2)) ∨
    (∃ x k rest, s = x ++ k.toList ++ rest ∧ x.length = out.length ∧ Unbroken (x ++ k.toList) ∧
      (k = none ↔ x.getLast? ≠ some cr) ∧
      LineTaken c s out (.truncated out.length k) x (x ++ k.toList).length) ∨
    (Unbroken s ∧ s.length ≤ out.length ∧ (s.length = out.length → s.getLast? = some cr) ∧
      LineTaken c s out (.closed s.length) s s.length) := by
  -- the reading of the line is done once, over a log, and looked at by how it stopped
  obtain ⟨g, hg⟩ : ∃ g, gather false out.length (⟨c, []⟩ : Logged σ) = g := ⟨_, rfl⟩
  have hsound : g.Sound [] (⟨c, []⟩ : Logged σ) :=
    hg ▸ gather_sound out.length _ unbroken_nil (by simp)
  have hle : g.stored.length ≤ out.length := hg ▸ gather_stored_length_le false out.length _
  rcases hstop : g.stop with _ | k | _ | f
  · -- the terminator fits
    rw [Gathered.Sound, hstop] at hsound
    obtain ⟨ht, line, hline, hu⟩ := hsound
    rw [List.nil_append] at hline
    have hanswer : Line.ofStop g.stored.length g.stop = .ok (.complete line.length) := by
      simp [hstop, hline, Line.ofStop]
    obtain ⟨t, hs, htaken⟩ := LineTaken.of_takes hc hg hanswer rfl ht
    rw [hline] at hle hs htaken
    refine .inl ⟨line, t, ?_, hu, ?_, ?_⟩
    · simpa [Line.aside, crlf] using hs
    · rw [List.length_append] at hle
      exact hle
    · simpa [Line.aside] using htaken
  · -- the buffer is full
    rw [Gathered.Sound, hstop] at hsound
    obtain ⟨ht, hu, hk⟩ := hsound
    have hlen : g.stored.length = out.length := by
      rw [← hg] at hstop ⊢
      exact gather_stored_length_of_full hstop
    have hanswer : Line.ofStop g.stored.length g.stop = .ok (.truncated out.length k) := by
      simp [hstop, hlen, Line.ofStop]
    obtain ⟨t, hs, htaken⟩ := LineTaken.of_takes hc hg hanswer rfl ht
    exact .inr (.inl ⟨g.stored, k, t, hs, hlen, hu, hk, htaken⟩)
  · -- the stream is at its end, and the read behind its last byte sees the close
    rw [Gathered.Sound, hstop] at hsound
    obtain ⟨hu, l₁, ht, hread⟩ := hsound
    have hlast : g.stored.length = out.length → g.stored.getLast? = some cr := by
      rw [← hg] at hstop ⊢
      exact @gather_full_of_closed _ _ [] false out.length _ (by simp) hstop
    obtain ⟨ht, hcalls⟩ := ht.calls
    obtain ⟨hinner, hclose⟩ := Logged.of_note hread
    obtain ⟨t, rfl, hd⟩ := ht.delivers hc
    obtain ⟨hnil, t', rfl, hd'⟩ := delivers_feed.read_ok hd Nat.one_pos hinner
    obtain rfl := hnil rfl
    rw [List.append_nil]
    refine .inr (.inr ⟨hu, hle, hlast, g.rest, ?_, ?_, ?_, ?_⟩)
    · simp only [readLine, hg, hstop, Line.ofStop]
    · simp [Line.aside]
    · simp [hclose, hcalls, Line.closing]
    · simpa using hd'
  · -- no read fails
    rw [Gathered.Sound, hstop] at hsound
    obtain ⟨-, l₁, ht, hread⟩ := hsound
    obtain ⟨t, -, hd⟩ := ht.calls.1.delivers hc
    exact absurd (Logged.of_note hread).1 (delivers_feed.read_ne_error hd Nat.one_pos)

/-! ## The answer for each stream and each buffer -/

/-- A buffer that was filled leaves no line terminator that would have fitted. -/
theorem firstBreak_behind_cut {x rest : Bytes} {k : Option UInt8} (hu : Unbroken (x ++ k.toList))
    (hk : k = none ↔ x.getLast? ≠ some cr) {n : Nat}
    (h : FirstBreak (x ++ k.toList ++ rest) n) : x.length < n + 1 := by
  have hcut := hu.not_break_at_cut hk rest
  by_contra hn
  rw [List.append_assoc] at h
  exact hu.of_append_left.not_break_within hcut (by omega) h.1

/-- An unbroken stream has no first line terminator. -/
theorem Unbroken.not_firstBreak {s : Bytes} (hu : Unbroken s) (n : Nat) : ¬ FirstBreak s n :=
  fun h => hu (h.1.isInfix.trans (List.drop_suffix n s).isInfix)

/-- **A line read takes the line, and no more.** Let a peer send `s` and then close, in reads of any
sizes, and let a line be read into a buffer. If the first CR LF of `s` begins at `n` and the buffer
has a slot for the CR too, then the line of `n` bytes is answered, the buffer begins with it and the
CR, and it and the CR LF are taken. Otherwise the line is cut at the end of the buffer if the stream
reaches so far: right there, if no CR stands in the last slot, and else behind one more byte, which
is no LF and is handed back. If the stream does not reach so far, or ends with a CR in the last
slot, then the close is answered and the whole stream is taken. In all cases the bytes taken are
those that the buffer begins with and those set aside, and the rest of the buffer keeps its content.
-/
theorem readLine_exact {c : σ} {s : Bytes} (hc : Delivers c s) (out : Bytes) :
    (∀ n, FirstBreak s n → n + 1 ≤ out.length →
      LineTaken c s out (.complete n) (s.take n ++ [cr]) (n + 2)) ∧
    ((∀ n, FirstBreak s n → out.length < n + 1) →
      (out.length ≤ s.length → (s.take out.length).getLast? ≠ some cr →
        LineTaken c s out (.truncated out.length none) (s.take out.length) out.length) ∧
      (∀ b, (s.take out.length).getLast? = some cr → s[out.length]? = some b →
        b ≠ lf ∧ LineTaken c s out (.truncated out.length (some b)) (s.take out.length)
          (out.length + 1)) ∧
      (s.length < out.length ∨ s.length = out.length ∧ s.getLast? = some cr →
        LineTaken c s out (.closed s.length) s s.length)) := by
  rcases readLine_outcome hc out with ⟨line, rest, rfl, hu, hfit, htaken⟩ |
    ⟨x, k, rest, rfl, hlen, hu, hk, htaken⟩ | ⟨hu, hle, hlast, htaken⟩
  · -- the terminator fits, so there is no other case
    have hbreak := firstBreak_line hu rest
    refine ⟨fun n hn _ => ?_, fun hnone => ?_⟩
    · obtain rfl := hn.unique hbreak
      rwa [List.append_assoc, List.take_left, ← List.append_assoc]
    · have := hnone line.length hbreak
      omega
  · -- the buffer is full, and what stands behind it tells the two cuts apart
    have hcut : (x ++ k.toList ++ rest).take out.length = x := by
      rw [List.append_assoc, ← hlen, List.take_left]
    refine ⟨fun n hn hfit => ?_, fun _ => ⟨fun _ hcr => ?_, fun b hcr hb => ?_, fun hend => ?_⟩⟩
    · have := firstBreak_behind_cut hu hk hn
      omega
    · rw [hcut] at hcr ⊢
      obtain rfl := hk.2 hcr
      simpa [hlen] using htaken
    · rw [hcut] at hcr ⊢
      cases k with
      | none => exact absurd hcr (hk.1 rfl)
      | some b' =>
          obtain rfl : b' = b := by simpa [← hlen] using hb
          refine ⟨fun hlf => (unbroken_concat_iff.1 hu).2 ⟨hcr, hlf⟩, ?_⟩
          simpa [hlen] using htaken
    · -- the stream is longer than the buffer, or it ends in the last slot without a CR
      simp only [List.length_append] at hend
      rcases hend with hlt | ⟨heq, hcr⟩
      · omega
      · have hnone : k.toList = [] := List.eq_nil_of_length_eq_zero (by omega)
        have hrest : rest = [] := List.eq_nil_of_length_eq_zero (by omega)
        rw [hnone, hrest, List.append_nil, List.append_nil] at hcr
        exact absurd hcr (hk.1 (Option.toList_eq_nil_iff.1 hnone))
  · -- the stream is at its end
    refine ⟨fun n hn _ => absurd hn (hu.not_firstBreak n), fun _ => ⟨fun hle' hcr => ?_,
      fun b _ hb => ?_, fun _ => htaken⟩⟩
    · have hlen : s.length = out.length := by omega
      rw [← hlen, List.take_length] at hcr
      exact absurd (hlast hlen) hcr
    · obtain ⟨hlt, -⟩ := List.getElem?_eq_some_iff.1 hb
      omega

def brokenLine : Script where
  steps := [.data (Text.encode "ab\r"), .data (Text.encode "c\r"), .data (Text.encode "\nd")]

def openLine : Script where
  steps := [.data (Text.encode "ab\r")]

/-- The line fits into five slots, with its LF behind the last one. In four it is cut behind the
`c`; in three the CR stands in the last slot, and the `c` is handed back. A stream that ends there
is closed. -/
theorem readLine_exact_broken :
    Delivers brokenLine brokenLine.stream ∧ FirstBreak brokenLine.stream 4 ∧
    LineTaken brokenLine brokenLine.stream (List.replicate 5 0) (.complete 4)
      (brokenLine.stream.take 4 ++ [cr]) 6 ∧
    LineTaken brokenLine brokenLine.stream (List.replicate 4 0) (.truncated 4 none)
      (brokenLine.stream.take 4) 4 ∧
    LineTaken brokenLine brokenLine.stream (List.replicate 3 0) (.truncated 3 (some 99))
      (brokenLine.stream.take 3) 4 ∧
    LineTaken openLine openLine.stream (List.replicate 3 0) (.closed 3) openLine.stream 3 := by
  have hc : Delivers brokenLine brokenLine.stream := Script.Steady.delivers (by decide +kernel)
  have hbreak : FirstBreak brokenLine.stream 4 := by decide +kernel
  have hbehind : ∀ out : Bytes, out.length < 5 →
      ∀ n, FirstBreak brokenLine.stream n → out.length < n + 1 := by
    intro out hout n hn
    rwa [hn.unique hbreak]
  have hopen : Unbroken openLine.stream := by decide +kernel
  obtain ⟨hfits, -⟩ := readLine_exact hc (List.replicate 5 0)
  obtain ⟨-, hcut⟩ := readLine_exact hc (List.replicate 4 0)
  obtain ⟨-, hcarry⟩ := readLine_exact hc (List.replicate 3 0)
  obtain ⟨-, hclosed⟩ := readLine_exact (c := openLine) (Script.Steady.delivers (by decide +kernel))
    (List.replicate 3 0)
  obtain ⟨hcut, -, -⟩ := hcut (hbehind _ (by decide))
  obtain ⟨-, hcarry, -⟩ := hcarry (hbehind _ (by decide))
  obtain ⟨-, -, hclosed⟩ := hclosed fun n hn => absurd hn (hopen.not_firstBreak n)
  exact ⟨hc, hbreak, hfits 4 hbreak (by decide), hcut (by decide +kernel) (by decide +kernel),
    (hcarry 99 (by decide +kernel) (by decide +kernel)).2, hclosed (.inr (by decide +kernel))⟩

end HttpExchange
