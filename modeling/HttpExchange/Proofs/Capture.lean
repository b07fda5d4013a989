import HttpExchange.Proofs.Reading
import HttpExchange.Proofs.SectionLines

set_option autoImplicit false

/-! # What a capture takes and holds

`capture_reads` says what a capture has taken off the connection: where it stops, the position
that it hands over stands for everything taken. `capture_holds` says what it has kept of a section
if no read failed: the lines of the index, the bytes of the storage, and whether the blank line was
reached are told by the bytes of the stream and the room alone. `readHead_outcome` is the way into
`readHead` for all that follows: a section read to its end and interpreted, a read that failed, or a
peer that sent nothing.
-/

namespace HttpExchange

open Ascii

variable {σ : Type}

/-! ## What is taken -/

section Taken

variable [Transport σ]

/-- What the end of a capture says about the bytes taken. -/
def Captured.Sound (c : σ) (got : Captured σ) : Prop :=
  match got.stop with
  | .blankLine => ReadsTo afterBlankLine? true c got.rest
  | .closed => ReadsTo afterBlankLine? false c got.rest
  | .cut pos => ∃ u, Takes c u got.rest ∧ ∀ v, afterBlankLine? (u ++ v) = pos.after? v
  | .failed e => e ≠ .parse

/-- Lines captured before the rest. -/
theorem Captured.Sound.step {c c₁ : σ} {u : Bytes} {got : Captured σ} (lines : List LineRange)
    (ht : Takes c u c₁) (hu : ∀ v, afterBlankLine? (u ++ v) = afterBlankLine? v)
    (h : got.Sound c₁) : Captured.Sound c { got with lines := lines } := by
  cases hstop : got.stop with
  | blankLine =>
      simp only [Captured.Sound, hstop] at h ⊢
      exact h.step ht hu
  | closed =>
      simp only [Captured.Sound, hstop] at h ⊢
      exact h.step ht hu
  | cut pos =>
      simp only [Captured.Sound, hstop] at h ⊢
      obtain ⟨w, hw, hpos⟩ := h
      exact ⟨u ++ w, ht.append hw, fun v => by rw [List.append_assoc, hu, hpos]⟩
  | failed e =>
      simp only [Captured.Sound, hstop] at h ⊢
      exact h

theorem capture_reads (slots : Nat) (buffer : HeaderBuffer) (c : σ) :
    (capture slots buffer c).Sound c := by
  have hfresh : false = true ↔ ([] : Bytes).getLast? = some cr := by simp
  fun_induction capture slots buffer c with
  | case1 slots buffer c hfull =>
      -- nothing was taken, so the skipping begins at the start of a line
      exact ⟨[], .nil c, fun v => rfl⟩
  | case2 slots buffer c hfull g f hstop => exact Error.ofFault_ne_parse f
  | case3 slots buffer c hfull g hstop line hblank =>
      obtain ⟨x, hx, hu, ht⟩ := gather_fresh_of_crlf hstop
      obtain rfl : x = [] := by simpa [line, g, hx] using hblank
      -- the blank line itself
      exact ⟨crlf, ht, afterBlankLine?_crlf⟩
  | case4 buffer c hfull g hstop line hne buffer' =>
      obtain ⟨x, hx, hu, ht⟩ := gather_fresh_of_crlf hstop
      have hx0 : x ≠ [] := by simpa [line, g, hx] using hne
      -- the index has no slot for the line, which was taken whole
      exact ⟨x ++ crlf, ht, afterBlankLine?_line hx0 hu⟩
  | case5 buffer c hfull start g hstop line hne buffer' slots more ih =>
      obtain ⟨x, hx, hu, ht⟩ := gather_fresh_of_crlf hstop
      have hx0 : x ≠ [] := by simpa [line, g, hx] using hne
      exact .step _ ht (afterBlankLine?_line hx0 hu) ih
  | case6 slots buffer c hfull start g carry hstop =>
      obtain ⟨ht, hu, hk⟩ := gather_of_full unbroken_nil hfresh hstop
      have hne : (gather false buffer.remaining c).stored ≠ [] := by
        intro hnil
        have hlen := gather_stored_length_of_full hstop
        rw [hnil] at hlen
        exact hfull (by simp [HeaderBuffer.isFull, ← hlen])
      -- the line is cut, and a byte taken behind its CR goes to the position
      exact ⟨_, ht, @Position.after?_full .lineStart _ _ hne hu hk⟩
  | case7 slots buffer c hfull start g hstop hnone => exact Error.noConfusion
  | case8 slots buffer c hfull start g hstop hsome line =>
      obtain ⟨hu, c₁, ht, hc⟩ := gather_of_closed unbroken_nil hfresh hstop
      exact ⟨_, c₁, ht, hc, afterBlankLine?_eq_none hu⟩

/-- A capture fails at a read that fails in front of the blank line, or, with room, where nothing
was sent at all. -/
theorem capture_failed {slots : Nat} {buffer : HeaderBuffer} {c : σ} {e : Error}
    (h : (capture slots buffer c).stop = .failed e) :
    (∃ u c₁ c₂ f, Takes c u c₁ ∧ Transport.read c₁ 1 = (.error f, c₂) ∧ e = .ofFault f ∧
      afterBlankLine? u = none) ∨
    (∃ c₁, Transport.read c 1 = (.ok [], c₁)) ∧ buffer.used = 0 ∧ buffer.remaining ≠ 0 ∧
      e = .transportClosed := by
  have hfresh : false = true ↔ ([] : Bytes).getLast? = some cr := by simp
  fun_induction capture slots buffer c with
  | case2 slots buffer c hfull g f hstop =>
      obtain ⟨hu, c₁, ht, hread⟩ := gather_of_fault unbroken_nil hfresh hstop
      exact .inl ⟨g.stored, c₁, g.rest, f, ht, hread, (CaptureEnd.failed.inj h).symm,
        afterBlankLine?_eq_none hu⟩
  | case5 buffer c hfull start g hstop line hne buffer' slots more ih =>
      -- the first line is whole, so the failure is one of the rest of the capture
      obtain ⟨x, hx, hu, ht⟩ := gather_fresh_of_crlf hstop
      have hline : line = x := by simp [line, g, hx]
      subst hline
      have hfits := gather_stored_length_le false buffer.remaining c
      rw [hx, List.length_append] at hfits
      rcases ih h with ⟨u, c₁, c₂, f, hu', hread, he, hnone⟩ | ⟨-, hused, -, -⟩
      · refine .inl ⟨line ++ crlf ++ u, c₁, c₂, f, ht.append hu', hread, he, ?_⟩
        rw [afterBlankLine?_line hne hu, hnone]
      · -- behind a line something is stored
        rw [HeaderBuffer.used_push_of_fits (by simpa using hfits)] at hused
        simp at hused
  | case7 slots buffer c hfull start g hstop hnone =>
      -- the peer closed at once
      obtain ⟨-, c₁, ht, hread⟩ := gather_of_closed unbroken_nil hfresh hstop
      have hnil : (gather false buffer.remaining c).stored = [] := hnone.1
      rw [hnil] at ht
      cases ht
      have hroom : buffer.remaining ≠ 0 := by simpa [HeaderBuffer.isFull] using hfull
      exact .inr ⟨⟨_, hread⟩, hnone.2, hroom, (CaptureEnd.failed.inj h).symm⟩
  | _ => cases h

/-- Where nothing was sent at all, a capture with room fails. -/
theorem capture_silence {slots : Nat} {buffer : HeaderBuffer} {c c' : σ}
    (hr : Transport.read c 1 = (.ok [], c')) (hroom : buffer.remaining ≠ 0)
    (hused : buffer.used = 0) :
    capture slots buffer c = ⟨.failed .transportClosed, [], buffer, c'⟩ := by
  have hfull : ¬ buffer.isFull = true := by simpa [HeaderBuffer.isFull] using hroom
  have hgather : gather false buffer.remaining c = ⟨.closed, [], c'⟩ := by
    obtain ⟨room, hsucc⟩ := Nat.exists_eq_add_one_of_ne_zero hroom
    rw [hsucc, gather, hr]
  rw [capture, if_neg hfull]
  simp only [hgather, hused, and_self, if_true]

end Taken

/-! ## What is kept -/

/-- What a capture into `buffer`, with `slots` free slots, leaves behind of a stream `s`. The
index takes no more than `slots` lines, but the line that finds no slot is stored all the same;
when the peer closes at the start of a line, a null byte is stored for the line that is missing. -/
structure Captured.Holds (slots : Nat) (buffer : HeaderBuffer) (s : Bytes) (got : Captured σ) :
    Prop where
  lines : got.lines =
    lineRanges buffer.used ((cutLines buffer.remaining (sectionLines s)).take slots)
  written : ∃ z, (z = [] ∨ z = [0]) ∧ got.buffer.written = buffer.written ++
    (table ((cutLines buffer.remaining (sectionLines s)).take (slots + 1))).take buffer.remaining ++
    z
  blank : got.stop = .blankLine ↔ (afterBlankLine? s).isSome ∧ (sectionLines s).length ≤ slots ∧
    (table (sectionLines s)).length < buffer.remaining
  failed : ∀ e, got.stop = .failed e → s = [] ∧ buffer.used = 0

/-- A whole line captured in front of what the rest of the capture holds. -/
theorem Captured.Holds.cons {slots : Nat} {buffer : HeaderBuffer} {line t : Bytes}
    {got : Captured σ} (hne : line ≠ []) (hu : Unbroken line)
    (hfits : line.length + 1 ≤ buffer.remaining)
    (h : got.Holds slots (buffer.push (line ++ [0])) t) :
    Captured.Holds (slots + 1) buffer (line ++ crlf ++ t)
      { got with lines := ⟨buffer.used, buffer.used + line.length⟩ :: got.lines } := by
  have hfits' : (line ++ [0]).length ≤ buffer.remaining := by simpa using hfits
  have hwritten := HeaderBuffer.push_written_of_fits hfits'
  have hused : (buffer.push (line ++ [0])).used = buffer.used + line.length + 1 := by
    rw [HeaderBuffer.used_push_of_fits hfits', List.length_append, List.length_singleton,
      Nat.add_assoc]
  have hroom : (buffer.push (line ++ [0])).remaining = buffer.remaining - (line.length + 1) := by
    simp [HeaderBuffer.remaining]
  have hlines := sectionLines_line hne hu t
  have hcut := cutLines_cons hfits (sectionLines t)
  constructor
  · rw [h.lines, hused, hroom, hlines, hcut]
    rfl
  · obtain ⟨z, hz, hw⟩ := h.written
    refine ⟨z, hz, ?_⟩
    -- cutting the table behind the first line cuts the table of the other lines
    have htake : ∀ x : Bytes, (line ++ 0 :: x).take buffer.remaining =
        line ++ 0 :: x.take (buffer.remaining - (line.length + 1)) := by
      intro x
      rw [List.take_append, List.take_of_length_le (Nat.le_of_lt hfits),
        show buffer.remaining - line.length = buffer.remaining - (line.length + 1) + 1 by omega]
      rfl
    rw [hlines, hcut, List.take_succ_cons, table_cons, htake, hw, hwritten, hroom]
    simp
  · have hless : ∀ n, n < buffer.remaining - (line.length + 1) ↔
        line.length + (n + 1) < buffer.remaining := by omega
    rw [show ({ got with lines := _ } : Captured σ).stop = got.stop from rfl, h.blank, hroom,
      hlines, afterBlankLine?_line hne hu, hless]
    simp
  · intro e he
    have := (h.failed e he).2
    omega

/-- A capture that keeps no line. -/
theorem Captured.Holds.of_nil {slots : Nat} {buffer : HeaderBuffer} {s z : Bytes}
    {got : Captured σ} (hcut : cutLines buffer.remaining (sectionLines s) = [])
    (hlines : got.lines = []) (hz : z = [] ∨ z = [0])
    (hwritten : got.buffer.written = buffer.written ++ z)
    (hblank : got.stop = .blankLine ↔ (afterBlankLine? s).isSome ∧
      (sectionLines s).length ≤ slots ∧ (table (sectionLines s)).length < buffer.remaining)
    (hfailed : ∀ e, got.stop = .failed e → s = [] ∧ buffer.used = 0) :
    got.Holds slots buffer s := by
  constructor
  · rw [hlines, hcut, List.take_nil]
    rfl
  · exact ⟨z, hz, by simp [hwritten, hcut]⟩
  · exact hblank
  · exact hfailed

/-- A capture that stops with its first line, of which it has kept the bytes `x`. -/
theorem Captured.Holds.of_cut {slots : Nat} {buffer : HeaderBuffer} {s x : Bytes}
    {got : Captured σ} (hcut : (cutLines buffer.remaining (sectionLines s)).take (slots + 1) = [x])
    (hne : x ≠ []) (hlines : got.lines = indexEntry slots buffer.used x.length)
    (hwritten : got.buffer.written = buffer.written ++ (x ++ [0]).take buffer.remaining)
    (hstop : got.stop ≠ .blankLine ∧ ∀ e, got.stop ≠ .failed e)
    (hblank : ¬ ((afterBlankLine? s).isSome ∧ (sectionLines s).length ≤ slots ∧
      (table (sectionLines s)).length < buffer.remaining)) :
    got.Holds slots buffer s := by
  have hx : x.length ≠ 0 := by simpa using hne
  constructor
  · have htake : (cutLines buffer.remaining (sectionLines s)).take slots = [x].take slots := by
      rw [← hcut, List.take_take, Nat.min_eq_left (Nat.le_succ slots)]
    rw [hlines, htake, indexEntry]
    cases slots with
    | zero => rfl
    | succ slots => simp [hx, lineRanges]
  · exact ⟨[], .inl rfl, by simp [hwritten, hcut]⟩
  · exact ⟨fun h => absurd h hstop.1, fun h => absurd h hblank⟩
  · exact fun e he => absurd he (hstop.2 e)

/-- A capture that the storage ends within a line, of which it keeps `x`. -/
theorem Captured.Holds.of_full {slots : Nat} {buffer : HeaderBuffer} {x v : Bytes}
    {rest : Position} {c : σ} (hroom : 0 < buffer.remaining) (hlen : x.length = buffer.remaining)
    (hu : Unbroken x) (hcut : ¬ (x.getLast? = some cr ∧ v.head? = some lf)) :
    Captured.Holds slots buffer (x ++ v)
      ⟨.cut rest, indexEntry slots buffer.used x.length, buffer.push x, c⟩ := by
  have hne : x ≠ [] := List.ne_nil_of_length_pos (hlen ▸ hroom)
  obtain ⟨w, ls, hlines⟩ := sectionLines_append hne hu hcut
  refine .of_cut ?_ hne rfl ?_ (by simp) ?_
  · have hle : buffer.remaining ≤ (x ++ w).length := by
      rw [List.length_append]
      omega
    rw [hlines, cutLines_cut hroom hle, List.take_left' hlen, List.take_succ_cons, List.take_nil]
  · rw [HeaderBuffer.push_written, List.take_left' hlen,
      List.take_of_length_le (Nat.le_of_eq hlen)]
  · rw [hlines, table_cons, List.length_append, List.length_append]
    omega

/-- A capture that the peer ends by a close behind `x`. -/
theorem Captured.Holds.of_closed {slots : Nat} {buffer : HeaderBuffer} {x : Bytes} {c : σ}
    (hroom : 0 < buffer.remaining) (hle : x.length ≤ buffer.remaining) (hu : Unbroken x) :
    Captured.Holds slots buffer x ⟨.closed, indexEntry slots buffer.used x.length,
      buffer.push (if x.length < buffer.remaining then x ++ [0] else x), c⟩ := by
  have hnone := afterBlankLine?_eq_none hu
  by_cases hne : x = []
  · -- no line has begun, but a null byte is stored for one
    subst hne
    refine .of_nil (z := [0]) ?_ ?_ (.inr rfl) ?_ (by simp [hnone]) (by simp)
    · rw [sectionLines_nil, cutLines_nil]
    · simp [indexEntry]
    · rw [HeaderBuffer.push_written, if_pos (by simpa using hroom), List.nil_append,
        List.take_of_length_le hroom]
  · refine .of_cut ?_ hne rfl ?_ (by simp) (by simp [hnone])
    · rw [sectionLines_unbroken hne hu, cutLines_singleton hroom hle, List.take_succ_cons,
        List.take_nil]
    · rw [HeaderBuffer.push_written]
      congr 1
      split
      · rfl
      next hlt =>
        have hlen : x.length = buffer.remaining := by omega
        rw [List.take_left' hlen, List.take_of_length_le hle]

variable [Transport σ]

/-- What a capture holds of the bytes to come, if no read failed: none can fail, or the capture did
not. -/
theorem ByteFeed.capture_holds {R : σ → Bytes → Prop} (hR : ByteFeed R) (slots : Nat)
    (buffer : HeaderBuffer) (c : σ) :
    ∀ s, R c s → ((∀ {c c' : σ} {s : Bytes} {f : Fault}, R c s →
        Transport.read c 1 ≠ (.error f, c')) ∨ ∀ e, (capture slots buffer c).stop ≠ .failed e) →
      (capture slots buffer c).Holds slots buffer s := by
  have hfresh : false = true ↔ ([] : Bytes).getLast? = some cr := by simp
  have hroom : ∀ {b : HeaderBuffer}, ¬ b.isFull = true → 0 < b.remaining := by
    intro b hb
    exact Nat.pos_of_ne_zero (by simpa [HeaderBuffer.isFull] using hb)
  fun_induction capture slots buffer c with
  | case1 slots buffer c hfull =>
      -- no room for another line
      intro s hc _
      have hzero : buffer.remaining = 0 := by simpa [HeaderBuffer.isFull] using hfull
      refine .of_nil (z := []) ?_ rfl (.inl rfl) (by simp) ?_ (by simp)
      · rw [hzero, cutLines_zero]
      · simp [hzero]
  | case2 slots buffer c hfull g f hstop =>
      intro s hc hok
      -- excluded: no read failed
      rcases hok with hsteady | hok
      · obtain ⟨-, c₁, ht, hread⟩ := gather_of_fault unbroken_nil hfresh hstop
        obtain ⟨t, -, hd⟩ := ht.front hR hc
        exact absurd hread (hsteady hd)
      · exact absurd rfl (hok (.ofFault f))
  | case3 slots buffer c hfull g hstop line hblank =>
      -- the blank line
      intro s hc _
      obtain ⟨x, t, hx, -, rfl, -⟩ := hR.gather_crlf hc hstop
      obtain rfl : x = [] := by simpa [line, g, hx] using hblank
      have hlines : sectionLines ([] ++ crlf ++ t) = [] := sectionLines_crlf t
      have hsome : afterBlankLine? ([] ++ crlf ++ t) = some t := afterBlankLine?_crlf t
      refine .of_nil (z := []) ?_ rfl (.inl rfl) (by simp [HeaderBuffer.overlay]) ?_ (by simp)
      · rw [hlines, cutLines_nil]
      · rw [hlines, hsome]
        simp [hroom hfull]
  | case4 buffer c hfull g hstop line hne buffer' =>
      -- a whole line for which the index has no slot
      intro s hc _
      obtain ⟨x, t, hx, hu, rfl, -⟩ := hR.gather_crlf hc hstop
      have hline : line = x := by simp [line, g, hx]
      have hfits := gather_stored_length_le false buffer.remaining c
      rw [hx, List.length_append] at hfits
      subst hline
      have hlines := sectionLines_line hne hu t
      refine .of_cut ?_ hne rfl ?_ (by simp) ?_
      · rw [hlines, cutLines_cons hfits]
        rfl
      · simp [buffer']
      · rw [hlines]
        simp
  | case5 buffer c hfull start g hstop line hne buffer' slots more ih =>
      -- a whole line, and the capture goes on
      intro s hc hok
      obtain ⟨x, t, hx, hu, rfl, hd⟩ := hR.gather_crlf hc hstop
      have hline : line = x := by simp [line, g, hx]
      have hfits := gather_stored_length_le false buffer.remaining c
      rw [hx] at hfits
      subst hline
      exact .cons hne hu (by simpa using hfits) (ih t hd hok)
  | case6 slots buffer c hfull start g carry hstop =>
      -- a line that does not fit
      intro s hc _
      obtain ⟨v, rfl, hu, hcut⟩ := hR.gather_full hc hstop
      exact .of_full (hroom hfull) (gather_stored_length_of_full hstop) hu hcut
  | case7 slots buffer c hfull start g hstop hnone =>
      -- the peer closes and has sent nothing at all
      intro s hc _
      obtain ⟨rfl, hu⟩ := hR.gather_closed hc hstop
      rw [show (gather false buffer.remaining c).stored = [] from hnone.1]
      refine .of_nil (z := []) ?_ rfl (.inl rfl) (by simp) ?_ fun e he => ⟨rfl, hnone.2⟩
      · rw [sectionLines_nil, cutLines_nil]
      · simp [afterBlankLine?_eq_none unbroken_nil]
  | case8 slots buffer c hfull start g hstop hsome line =>
      -- the peer closes behind some bytes
      intro s hc _
      obtain ⟨rfl, hu⟩ := hR.gather_closed hc hstop
      exact .of_closed (hroom hfull) (gather_stored_length_le false buffer.remaining c) hu

/-- The same of a whole stream. -/
theorem capture_holds {R : σ → Bytes → Prop} (hR : Feed R) (slots : Nat) (buffer : HeaderBuffer)
    (c : σ) :
    ∀ s, R c s → (SteadyFeed R ∨ ∀ e, (capture slots buffer c).stop ≠ .failed e) →
      (capture slots buffer c).Holds slots buffer s := by
  intro s hc hok
  apply hR.byteFeed.capture_holds slots buffer c s hc
  exact hok.imp_left fun hsteady => fun hd => hsteady.read_ne_error hd Nat.one_pos

/-! ## Reading a head -/

/-- Whether a head is read or not, the storage is what the capture leaves behind. -/
theorem readHead_buffer (buffer : HeaderBuffer) (c : σ) :
    (readHead buffer c).2.1 = (capture maxHeaderLines buffer.reset c).buffer := by
  unfold readHead
  simp only
  split
  next => rfl
  next => rfl
  next => rfl
  next => split <;> rfl

/-- All that the reading of a head can do: it reads the section through and interprets what the
capture holds of it, or a read fails in front of the blank line, or nothing was sent at all and
there is storage. -/
theorem readHead_outcome (buffer : HeaderBuffer) (c : σ) :
    let got := capture maxHeaderLines buffer.reset c
    ((∀ e, got.stop ≠ .failed e) ∧
      (∃ found, ReadsTo afterBlankLine? found c (readHead buffer c).2.2) ∧
      (readHead buffer c).1 = interpret got.buffer got.lines (decide (got.stop = .blankLine))) ∨
    (∃ u c₁ c₂ f, Takes c u c₁ ∧ Transport.read c₁ 1 = (.error f, c₂) ∧
      afterBlankLine? u = none ∧ (readHead buffer c).1 = .error (.ofFault f)) ∨
    (∃ c₁, Transport.read c 1 = (.ok [], c₁)) ∧ buffer.capacity ≠ 0 ∧
      (readHead buffer c).1 = .error .transportClosed := by
  intro got
  have hsound : got.Sound c := capture_reads maxHeaderLines buffer.reset c
  have hroom : buffer.reset.remaining = buffer.capacity := by simp [HeaderBuffer.remaining]
  unfold readHead
  simp only
  -- only a capture that was cut leaves lines to be skipped
  cases hstop : got.stop with
  | failed e =>
      rcases capture_failed hstop with ⟨u, c₁, c₂, f, ht, hread, rfl, hnone⟩ |
        ⟨hread, -, hsome, rfl⟩
      · exact .inr (.inl ⟨u, c₁, c₂, f, ht, hread, hnone, rfl⟩)
      · exact .inr (.inr ⟨hread, hroom ▸ hsome, rfl⟩)
  | blankLine =>
      rw [Captured.Sound, hstop] at hsound
      exact .inl ⟨by simp, ⟨true, hsound⟩, rfl⟩
  | closed =>
      rw [Captured.Sound, hstop] at hsound
      exact .inl ⟨by simp, ⟨false, hsound⟩, rfl⟩
  | cut pos =>
      rw [Captured.Sound, hstop] at hsound
      obtain ⟨u, ht, hu⟩ := hsound
      simp only
      rcases hskip : skipSection pos (capture maxHeaderLines buffer.reset c).rest with
        ⟨e | found, c'⟩
      · -- a fault in the part of the section that is not captured
        obtain ⟨v, c₁, f, hv, hread, rfl, hnone⟩ := skipSection_error hskip
        exact .inr (.inl ⟨u ++ v, c₁, c', f, ht.append hv, hread, by rw [hu, hnone], rfl⟩)
      · exact .inl ⟨by simp, ⟨found, (skipSection_reads hskip).step ht hu⟩, rfl⟩

end HttpExchange
