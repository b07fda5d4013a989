import HttpExchange.Proofs.Interpretation
import Mathlib.Algebra.Ring.Nat

set_option autoImplicit false

/-! # The table that a capture leaves behind

Whatever a connection gives, a capture only adds to the written part of the storage, and its index
gives the lines of a table that stands there (`capture_adds`). A head that was read therefore has an
index within the written part (`readHead_index`). What the lines and the storage are is told by the
bytes of the stream and the capacity alone (`readHead_captures`). -/

namespace HttpExchange

open Ascii

variable {σ : Type}

/-! ## Ranges of a table -/

/-- The ranges of a table stand in order within it, each in front of its null byte. -/
theorem mem_lineRanges {start : Nat} {ls : List Bytes} {r : LineRange}
    (h : r ∈ lineRanges start ls) :
    start ≤ r.start ∧ r.start ≤ r.stop ∧ r.stop < start + (table ls).length := by
  induction ls generalizing start with
  | nil => cases h
  | cons l ls ih =>
      rw [table_cons, List.length_append, List.length_cons]
      rcases List.mem_cons.1 h with rfl | h
      · simp only
        omega
      · have := ih h
        omega

theorem length_table (ls : List Bytes) : (table ls).length = (ls.map (·.length + 1)).sum := by
  induction ls with
  | nil => rfl
  | cons l ls ih =>
      rw [table_cons, List.length_append, List.length_cons, ih, List.map_cons, List.sum_cons]
      omega

/-! ## What is added -/

/-- A capture into `buffer` has added the table of the lines `ls`, its last null byte apart, and
perhaps more; the index gives these lines. -/
structure Captured.Adds (buffer : HeaderBuffer) (ls : List Bytes) (got : Captured σ) : Prop where
  lines : got.lines = lineRanges buffer.used ls
  written : buffer.written ++ table ls <+: got.buffer.written ++ [0]
  blank : got.stop = .blankLine → got.buffer.written = buffer.written ++ table ls
  capacity : got.buffer.capacity = buffer.capacity
  spare : (∀ b ∈ buffer.spare, b = 0) → (∀ e, got.stop ≠ .failed e) → ∀ b ∈ got.buffer.spare, b = 0

/-- A capture that keeps no line and pushes the bytes `y`. -/
theorem Captured.Adds.of_push {buffer : HeaderBuffer} {y : Bytes} {got : Captured σ}
    (hlines : got.lines = []) (hbuffer : got.buffer = buffer.push y)
    (hstop : got.stop ≠ .blankLine) :
    got.Adds buffer [] := by
  constructor
  · exact hlines
  · rw [hbuffer, HeaderBuffer.push_written, table_nil, List.append_nil, List.append_assoc]
    exact List.prefix_append _ _
  · exact fun h => absurd h hstop
  · rw [hbuffer, HeaderBuffer.capacity_push]
  · intro hzero _ b hb
    rw [hbuffer, HeaderBuffer.push_spare] at hb
    exact hzero b (List.mem_of_mem_drop hb)

/-- A capture that ends with the line `x`, if the index has a slot for it, and pushes `y`, which is
the line with its null byte or without. -/
theorem Captured.Adds.of_entry {slots : Nat} {buffer : HeaderBuffer} {x y : Bytes}
    {got : Captured σ} (hlines : got.lines = indexEntry slots buffer.used x.length)
    (hbuffer : got.buffer = buffer.push y) (hy : y = x ∨ y = x ++ [0])
    (hfits : y.length ≤ buffer.remaining) (hstop : got.stop ≠ .blankLine) :
    ∃ ls, got.Adds buffer ls := by
  by_cases h : slots = 0 ∨ x.length = 0
  · -- the line has no entry, but its bytes were stored all the same
    exact ⟨[], .of_push (by rw [hlines, indexEntry, if_pos h]) hbuffer hstop⟩
  · refine ⟨[x], ?_, ?_, fun h => absurd h hstop, ?_, ?_⟩
    · rw [hlines, indexEntry, if_neg h]
      rfl
    · rw [hbuffer, HeaderBuffer.push_written_of_fits hfits, List.append_assoc,
        List.prefix_append_right_inj, table_cons, table_nil]
      rcases hy with rfl | rfl
      · exact List.prefix_rfl
      · exact List.prefix_append _ _
    · rw [hbuffer, HeaderBuffer.capacity_push]
    · intro hzero _ b hb
      rw [hbuffer, HeaderBuffer.push_spare] at hb
      exact hzero b (List.mem_of_mem_drop hb)

/-- A whole line added in front of what the rest of the capture adds. -/
theorem Captured.Adds.cons {buffer : HeaderBuffer} {line : Bytes} {ls : List Bytes}
    {got : Captured σ} (hfits : line.length + 1 ≤ buffer.remaining)
    (h : got.Adds (buffer.push (line ++ [0])) ls) :
    Captured.Adds buffer (line :: ls)
      { got with lines := ⟨buffer.used, buffer.used + line.length⟩ :: got.lines } := by
  have hfits' : (line ++ [0]).length ≤ buffer.remaining := by simpa using hfits
  have hwritten := HeaderBuffer.push_written_of_fits hfits'
  have hused : (buffer.push (line ++ [0])).used = buffer.used + line.length + 1 := by
    rw [HeaderBuffer.used_push_of_fits hfits', List.length_append, List.length_singleton,
      Nat.add_assoc]
  have htable : buffer.written ++ table (line :: ls) =
      (buffer.push (line ++ [0])).written ++ table ls := by
    rw [hwritten]
    simp
  constructor
  · show _ :: got.lines = _
    rw [h.lines, hused]
    rfl
  · rw [htable]
    exact h.written
  · rw [htable]
    exact h.blank
  · rw [← HeaderBuffer.capacity_push buffer (line ++ [0])]
    exact h.capacity
  · intro hzero
    apply h.spare
    intro b hb
    rw [HeaderBuffer.push_spare] at hb
    exact hzero b (List.mem_of_mem_drop hb)

variable [Transport σ]

/-- Whatever the connection gives, a capture adds the table of the lines that its index gives. -/
theorem capture_adds (slots : Nat) (buffer : HeaderBuffer) (c : σ) :
    ∃ ls, (capture slots buffer c).Adds buffer ls := by
  have hroom : ∀ {b : HeaderBuffer}, ¬ b.isFull = true → 0 < b.remaining := by
    intro b hb
    exact Nat.pos_of_ne_zero (by simpa [HeaderBuffer.isFull] using hb)
  fun_induction capture slots buffer c with
  | case1 slots buffer c hfull =>
      exact ⟨[], rfl, by simp, by simp, rfl, fun hzero _ => hzero⟩
  | case2 slots buffer c hfull g f hstop =>
      -- what came of the line is put down, but does not count as written
      have hle := gather_stored_length_le false buffer.remaining c
      refine ⟨[], rfl, by simp [HeaderBuffer.overlay], by simp, ?_, by simp⟩
      simp only [HeaderBuffer.overlay, HeaderBuffer.capacity_eq, List.length_append,
        List.length_drop, HeaderBuffer.remaining, g] at hle ⊢
      omega
  | case3 slots buffer c hfull g hstop line hblank =>
      have hpos : 0 < buffer.spare.length := hroom hfull
      refine ⟨[], rfl, by simp [HeaderBuffer.overlay], fun _ => by simp [HeaderBuffer.overlay], ?_,
        ?_⟩
      · simp only [HeaderBuffer.overlay, HeaderBuffer.capacity_eq, List.length_append,
          List.length_drop, List.length_singleton]
        omega
      · -- the CR of the blank line was stored and is zeroed again
        intro hzero _ b hb
        rcases List.mem_cons.1 hb with rfl | hb
        · rfl
        · exact hzero b (List.mem_of_mem_drop hb)
  | case4 buffer c hfull g hstop line hne buffer' =>
      exact ⟨[], .of_push rfl rfl (by simp)⟩
  | case5 buffer c hfull start g hstop line hne buffer' slots more ih =>
      obtain ⟨ls, h⟩ := ih
      have hle := gather_stored_length_le false buffer.remaining c
      have hlen : line.length = g.stored.length - 1 := List.length_dropLast
      have hpos : line.length ≠ 0 := by simpa using hne
      have hstored : g.stored.length ≤ buffer.remaining := hle
      exact ⟨line :: ls, .cons (by omega) h⟩
  | case6 slots buffer c hfull start g carry hstop =>
      exact Captured.Adds.of_entry rfl rfl (.inl rfl)
        (gather_stored_length_le false buffer.remaining c) (by simp)
  | case7 slots buffer c hfull start g hstop hnone =>
      exact ⟨[], rfl, by simp, by simp, rfl, by simp⟩
  | case8 slots buffer c hfull start g hstop hsome line =>
      -- the line that the peer broke off has its null byte if there is room for it
      have hle : g.stored.length ≤ buffer.remaining :=
        gather_stored_length_le false buffer.remaining c
      by_cases hlt : g.stored.length < buffer.remaining
      · have hline : line = g.stored ++ [0] := if_pos hlt
        exact Captured.Adds.of_entry rfl rfl (.inr hline)
          (by rw [hline, List.length_append]; exact hlt) (by simp)
      · have hline : line = g.stored := if_neg hlt
        exact Captured.Adds.of_entry rfl rfl (.inl hline) (by rw [hline]; exact hle) (by simp)

/-- Whatever the connection gives, the index of a capture stands within the written part. -/
theorem capture_index (slots : Nat) (buffer : HeaderBuffer) (c : σ) :
    ∀ r ∈ (capture slots buffer c).lines,
      r.start ≤ r.stop ∧ r.stop ≤ (capture slots buffer c).buffer.used := by
  intro r hr
  obtain ⟨ls, hadds⟩ := capture_adds slots buffer c
  rw [hadds.lines] at hr
  obtain ⟨-, hle, hlt⟩ := mem_lineRanges hr
  have hwritten := hadds.written.length_le
  simp only [List.length_append, List.length_singleton] at hwritten
  refine ⟨hle, ?_⟩
  simp only [HeaderBuffer.used] at hlt ⊢
  omega

/-! ## A head that was read -/

/-- A head is what the capture gives, which did not fail. -/
theorem readHead_ok {buffer buffer' : HeaderBuffer} {c c' : σ} {head : ResponseHead}
    (h : readHead buffer c = (.ok head, buffer', c')) :
    let got := capture maxHeaderLines buffer.reset c
    buffer' = got.buffer ∧ (∀ e, got.stop ≠ .failed e) ∧
      interpret got.buffer got.lines (decide (got.stop = .blankLine)) = .ok head := by
  have hbuffer := readHead_buffer buffer c
  have houtcome := readHead_outcome buffer c
  rw [h] at hbuffer houtcome
  rcases houtcome with ⟨hok, -, hanswer⟩ | ⟨_, _, _, _, -, -, -, hanswer⟩ | ⟨-, -, hanswer⟩
  · exact ⟨hbuffer, hok, hanswer.symm⟩
  · cases hanswer
  · cases hanswer

/-- Reading a head does not change the size of the storage. -/
theorem capacity_readHead (buffer : HeaderBuffer) (c : σ) :
    (readHead buffer c).2.1.capacity = buffer.capacity := by
  obtain ⟨ls, hadds⟩ := capture_adds maxHeaderLines buffer.reset c
  rw [readHead_buffer, hadds.capacity, HeaderBuffer.capacity_reset]

/-- Whatever the connection gives, the index of a head that was read stands within the written part
of the storage. -/
theorem readHead_index {buffer buffer' : HeaderBuffer} {c c' : σ} {head : ResponseHead}
    (h : readHead buffer c = (.ok head, buffer', c')) :
    ∀ r ∈ head.lines, r.start ≤ r.stop ∧ r.stop ≤ buffer'.used := by
  obtain ⟨rfl, -, hhead⟩ := readHead_ok h
  obtain ⟨-, -, -, hlines⟩ := interpret_eq_ok_iff.1 hhead
  rw [hlines]
  exact capture_index maxHeaderLines buffer.reset c

/-! ## The captured lines of a stream -/

/-- The indexed lines are the first lines of the section, the last of them perhaps cut; a line that
was cut is the last one stored, and its table is one byte longer than the storage. -/
theorem indexedLines_eq {capacity : Nat} {s : Bytes} (h : indexedLines capacity s ≠ []) :
    ∃ front line more kept, sectionLines s = front ++ line :: more ∧
      front.length < maxHeaderLines ∧ indexedLines capacity s = front ++ [kept] ∧
      (kept = line ∨ kept ≠ [] ∧ kept <+: line ∧ kept ≠ line ∧
        (table (storedLines capacity s)).length = capacity + 1) := by
  have hlen : (indexedLines capacity s).length ≤ maxHeaderLines := List.length_take_le _ _
  obtain ⟨front, kept, hindexed⟩ : ∃ front kept, indexedLines capacity s = front ++ [kept] :=
    ⟨_, _, (List.dropLast_append_getLast h).symm⟩
  rw [hindexed, List.length_append, List.length_singleton] at hlen
  have hfront : front ++ [kept] <+: cutLines capacity (sectionLines s) :=
    hindexed ▸ List.take_prefix _ _
  rcases cutLines_prefix_or_cut capacity (sectionLines s) with hprefix | hcut
  · -- every line that is kept is kept whole
    obtain ⟨more, hmore⟩ := hfront.trans hprefix
    exact ⟨front, kept, more, kept, by rw [← hmore]; simp, hlen, hindexed, .inl rfl⟩
  · obtain ⟨whole, line, more, cut, hlines, hkept, hne, hpart, hless, hfull⟩ := hcut
    rw [hkept] at hfront
    by_cases hlast : front.length = whole.length
    · -- the last indexed line is the one that was cut
      obtain ⟨rfl, rfl⟩ : front = whole ∧ kept = cut := by
        have := hfront.eq_of_length (by simp [hlast])
        simpa [hlast] using List.append_inj this hlast
      refine ⟨front, line, more, kept, hlines, hlen, hindexed, .inr ⟨hne, hpart, hless, ?_⟩⟩
      have hstored : storedLines capacity s = front ++ [kept] := by
        rw [storedLines, hkept]
        exact List.take_of_length_le (by simp; omega)
      rw [hstored, table_append, List.length_append]
      simp only [table_cons, table_nil, List.length_append, List.length_cons,
        List.length_nil] at hfull ⊢
      omega
    · -- the index ends before the line that was cut
      have hle := hfront.length_le
      simp only [List.length_append, List.length_singleton] at hle
      have hwhole : front ++ [kept] <+: whole :=
        List.prefix_of_prefix_length_le hfront (List.prefix_append whole [cut]) (by simp; omega)
      obtain ⟨more', rfl⟩ := hwhole
      exact ⟨front, kept, more' ++ line :: more, kept, by simp [hlines], hlen, hindexed, .inl rfl⟩

/-- Lines that give a framing are there. -/
theorem ne_nil_of_parseFraming {ls : List Bytes} {framing : Framing}
    (h : parseFraming (.ofLines ls) = .ok framing) : ls ≠ [] := by
  rintro rfl
  cases h

/-- **What a head and its storage hold.** Let a head be read of a stream. Its index gives the first
lines of the stream's section in order, at least one and at most 64; the last of them may be cut,
and then the storage is full. The head is complete exactly if the blank line is there, the index has
a slot for every line, and the lines with a null byte each leave a byte of the storage free; then
the index gives all of the lines, and the written part is their table. The storage is as large as
before, and its spare part is zero. -/
theorem readHead_captures {c c' : σ} {s : Bytes} {buffer buffer' : HeaderBuffer}
    {head : ResponseHead} (hs : Sends c s) (h : readHead buffer c = (.ok head, buffer', c')) :
    (∃ front line more kept, sectionLines s = front ++ line :: more ∧
      front.length < maxHeaderLines ∧ (head.headers buffer').lines = front ++ [kept] ∧
      (kept = line ∨ kept ≠ [] ∧ kept <+: line ∧ kept ≠ line ∧ buffer'.isFull = true)) ∧
    (head.complete = true ↔ (afterBlankLine? s).isSome ∧
      (sectionLines s).length ≤ maxHeaderLines ∧
      ((sectionLines s).map (·.length + 1)).sum < buffer.capacity) ∧
    (head.complete = true → (head.headers buffer').lines = sectionLines s ∧
      buffer'.written = table (sectionLines s)) ∧
    buffer'.capacity = buffer.capacity ∧ ∀ b ∈ buffer'.spare, b = 0 := by
  have hcapacity : buffer'.capacity = buffer.capacity := by
    rw [← capacity_readHead buffer c, h]
  obtain ⟨rfl, hok, hhead⟩ := readHead_ok h
  -- two views of one capture: what it adds to the storage, and what it holds of the stream
  obtain ⟨ls, hadds⟩ := capture_adds maxHeaderLines buffer.reset c
  have hholds := capture_holds sends_feed maxHeaderLines buffer.reset c s hs (.inr hok)
  obtain ⟨-, hframing, hcomplete, hlines⟩ := interpret_eq_ok_iff.1 hhead
  have hindexed : (head.headers (capture maxHeaderLines buffer.reset c).buffer).lines =
      indexedLines buffer.capacity s := by
    rw [ResponseHead.headers, hlines]
    exact hholds.lines_eq
  have hblank := hholds.blank
  rw [length_table, show buffer.reset.remaining = buffer.capacity by
    simp [HeaderBuffer.remaining]] at hblank
  refine ⟨?_, ?_, ?_, hcapacity, ?_⟩
  · rw [hholds.parseFraming_eq] at hframing
    obtain ⟨front, line, more, kept, hsection, hlen, heq, hkept⟩ :=
      indexedLines_eq (ne_nil_of_parseFraming hframing)
    refine ⟨front, line, more, kept, hsection, hlen, hindexed.trans heq, hkept.imp_right ?_⟩
    rintro ⟨hne, hpart, hless, hfull⟩
    refine ⟨hne, hpart, hless, ?_⟩
    -- the stored part of the table is as long as the storage
    obtain ⟨z, -, hw⟩ := hholds.written_reset
    have hlen := congrArg List.length hw
    rw [List.length_append, List.length_take, hfull] at hlen
    rw [HeaderBuffer.capacity_eq] at hcapacity
    simp only [HeaderBuffer.isFull, HeaderBuffer.remaining, beq_iff_eq]
    omega
  · rw [hcomplete, decide_eq_true_iff]
    exact hblank
  · intro hc
    rw [hcomplete, decide_eq_true_iff] at hc
    obtain ⟨-, hslots, hroom⟩ := hblank.1 hc
    have hall : indexedLines buffer.capacity s = sectionLines s := by
      rw [indexedLines, cutLines_of_fits (by rw [length_table]; omega),
        List.take_of_length_le hslots]
    have hadded : ls = sectionLines s := by
      rw [← hall, ← hindexed, ResponseHead.headers, Headers.lines, hlines, hadds.lines]
      exact (map_slice_lineRanges (w := []) hadds.written).symm
    exact ⟨hindexed.trans hall, by rw [hadds.blank hc, hadded]; rfl⟩
  · apply hadds.spare _ hok
    intro b hb
    exact List.eq_of_mem_replicate hb

/-- A reply whose header takes 34 bytes of storage, with a timeout within its body. -/
def shortReply : Script where
  steps := [.data (Text.encode "HTTP/1.1 200 OK\r\nContent-Le"),
    .data (Text.encode "ngth: 2\r\n\r\nO"), .fault .timeout, .data (Text.encode "K")]

/-- In storage of 35 bytes that holds other data the header is complete, and one zero byte is left;
34 bytes hold the same lines, but not the blank line. -/
theorem readHead_captures_threshold :
    let run := fun capacity => readHead (.ofStorage (List.replicate capacity 255)) shortReply
    Sends shortReply shortReply.stream ∧
    (∃ head, (run 35).1 = .ok head ∧ head.complete = true ∧
      (head.headers (run 35).2.1).lines =
        [Text.encode "HTTP/1.1 200 OK", Text.encode "Content-Length: 2"] ∧
      (run 35).2.1.written = Text.encode "HTTP/1.1 200 OK\x00Content-Length: 2\x00" ∧
      (run 35).2.1.spare = [0]) ∧
    ∃ head, (run 34).1 = .ok head ∧ head.complete = false ∧ (run 34).2.1.spare = [] := by
  intro run
  have hsends : Sends shortReply shortReply.stream :=
    (@Script.PausesAt.pauses (fun _ => True) shortReply ⟨by decide +kernel, by decide +kernel, rfl,
      trivial, by decide +kernel, trivial⟩).sends
  have hlines : sectionLines shortReply.stream =
      [Text.encode "HTTP/1.1 200 OK", Text.encode "Content-Length: 2"] := by decide +kernel
  have hblank : (afterBlankLine? shortReply.stream).isSome := by decide +kernel
  have hread : ∀ capacity ∈ [34, 35], ∃ head, (run capacity).1 = .ok head := by
    intro capacity hcapacity
    have hsome : ∀ capacity ∈ [34, 35], (run capacity).1.toOption.isSome = true := by
      decide +kernel
    cases h : (run capacity).1 with
    | ok head => exact ⟨head, rfl⟩
    | error e =>
        have := hsome capacity hcapacity
        rw [h] at this
        cases this
  refine ⟨hsends, ?_, ?_⟩
  · obtain ⟨head, hok⟩ := hread 35 (by decide)
    have hrun : run 35 = (.ok head, (run 35).2.1, (run 35).2.2) := by rw [← hok]
    obtain ⟨-, hcomplete, hall, hcapacity, hzero⟩ := readHead_captures hsends hrun
    have htrue : head.complete = true := hcomplete.2 ⟨hblank, by rw [hlines]; decide,
      by rw [hlines]; decide +kernel⟩
    obtain ⟨hheaders, hwritten⟩ := hall htrue
    rw [hlines] at hheaders hwritten
    have htable : table [Text.encode "HTTP/1.1 200 OK", Text.encode "Content-Length: 2"] =
        Text.encode "HTTP/1.1 200 OK\x00Content-Length: 2\x00" := by decide +kernel
    have hspare : (run 35).2.1.spare.length = 1 := by
      rw [HeaderBuffer.capacity_eq, hwritten] at hcapacity
      have : (table [Text.encode "HTTP/1.1 200 OK", Text.encode "Content-Length: 2"]).length =
          34 := by decide +kernel
      have : (HeaderBuffer.ofStorage (List.replicate 35 255)).capacity = 35 := by decide
      omega
    refine ⟨head, hok, htrue, hheaders, hwritten.trans htable, ?_⟩
    exact List.eq_replicate_of_mem hzero |>.trans (by rw [hspare]; rfl)
  · -- the table of the two lines takes all 34 bytes
    obtain ⟨head, hok⟩ := hread 34 (by decide)
    have hrun : run 34 = (.ok head, (run 34).2.1, (run 34).2.2) := by rw [← hok]
    obtain ⟨-, hcomplete, -⟩ := readHead_captures hsends hrun
    refine ⟨head, hok, ?_, by decide +kernel⟩
    rw [← Bool.not_eq_true, hcomplete, hlines]
    rintro ⟨-, -, hroom⟩
    revert hroom
    decide +kernel

end HttpExchange
