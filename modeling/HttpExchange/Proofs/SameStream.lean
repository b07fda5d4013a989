import HttpExchange.Proofs.AnnouncedLength
import HttpExchange.Proofs.Conduct
import HttpExchange.Proofs.Reading

set_option autoImplicit false

/-! # Two connections with the same bytes to come

`SameRest c d` says that the peers of `c` and `d`, which need not be of one type, send the same
bytes and then close, each cut into reads in its own way. Reading lines and sections takes one byte
at a time, and an exact read asks for what is missing until nothing is; so what these readers
answer is the same over both connections, errors included, and they leave the same bytes to come.
This carries over to heads and to chunks. Only a bounded read shows the cuts. What reads of this
kind give all together, and how they end, shows no cuts again: it is what a body makes of the bytes
to come (`BodyReader.unread`). -/

namespace HttpExchange

variable {σ τ : Type} [Transport σ] [Transport τ]

/-- Both peers send the same bytes and then close, and no read fails. -/
def SameRest (c : σ) (d : τ) : Prop := ∃ s, Delivers c s ∧ Delivers d s

theorem Delivers.read_one {c : σ} {b : UInt8} {s : Bytes} (h : Delivers c (b :: s)) :
    ∃ c', Transport.read c 1 = (.ok [b], c') ∧ Delivers c' s := by
  obtain ⟨hpause, -⟩ | ⟨c', hr, h'⟩ := (delivers_iff_pauses.1 h).read_one
  · cases hpause
  · exact ⟨c', hr, delivers_iff_pauses.2 h'⟩

theorem SameRest.read_one {c : σ} {d : τ} (h : SameRest c d) :
    ∃ bs c' d', Transport.read c 1 = (.ok bs, c') ∧ Transport.read d 1 = (.ok bs, d') ∧
      SameRest c' d' := by
  obtain ⟨s, hc, hd⟩ := h
  cases s with
  | nil =>
      obtain ⟨c', hrc, hc'⟩ := hc.read_nil Nat.one_pos
      obtain ⟨d', hrd, hd'⟩ := hd.read_nil Nat.one_pos
      exact ⟨[], c', d', hrc, hrd, [], hc', hd'⟩
  | cons b s =>
      obtain ⟨c', hrc, hc'⟩ := hc.read_one
      obtain ⟨d', hrd, hd'⟩ := hd.read_one
      exact ⟨[b], c', d', hrc, hrd, s, hc', hd'⟩

/-! ## Lines, sections and heads -/

theorem gather_same (afterCr : Bool) (room : Nat) {c : σ} {d : τ} (h : SameRest c d) :
    ∃ stop stored c' d', gather afterCr room c = ⟨stop, stored, c'⟩ ∧
      gather afterCr room d = ⟨stop, stored, d'⟩ ∧ SameRest c' d' := by
  induction room generalizing afterCr c d with
  | zero =>
      by_cases hcr : afterCr = true
      · obtain ⟨bs, c', d', hc, hd, h'⟩ := h.read_one
        cases bs with
        | nil =>
            exact ⟨.closed, [], c', d', by simp [gather, hcr, hc], by simp [gather, hcr, hd], h'⟩
        | cons b bs =>
            exact ⟨if b = Ascii.lf then .crlf else .full (some b), [], c', d',
              by simp [gather, hcr, hc], by simp [gather, hcr, hd], h'⟩
      · exact ⟨.full none, [], c, d, by simp [gather, hcr], by simp [gather, hcr], h⟩
  | succ room ih =>
      obtain ⟨bs, c', d', hc, hd, h'⟩ := h.read_one
      cases bs with
      | nil => exact ⟨.closed, [], c', d', by simp [gather, hc], by simp [gather, hd], h'⟩
      | cons b bs =>
          by_cases hlf : b = Ascii.lf ∧ afterCr = true
          · exact ⟨.crlf, [], c', d', by simp [gather, hc, hlf], by simp [gather, hd, hlf], h'⟩
          · obtain ⟨stop, stored, c'', d'', hc', hd', h''⟩ := ih (b = Ascii.cr) h'
            refine ⟨stop, b :: stored, c'', d'', ?_, ?_, h''⟩
            · simp [gather, hc, hlf, hc']
            · simp [gather, hd, hlf, hd']

theorem skipSection_same (pos : Position) {c : σ} {d : τ} (h : SameRest c d) :
    ∃ answer c' d', skipSection pos c = (answer, c') ∧ skipSection pos d = (answer, d') ∧
      SameRest c' d' := by
  obtain ⟨s, hc, hd⟩ := h
  obtain ⟨c', hskip, hc'⟩ := skipSection_delivers pos hc
  obtain ⟨d', hskip', hd'⟩ := skipSection_delivers pos hd
  exact ⟨_, c', d', hskip, hskip', _, hc', hd'⟩

theorem capture_same (slots : Nat) (buffer : HeaderBuffer) {c : σ} {d : τ} (h : SameRest c d) :
    ∃ stop lines buffer' c' d', capture slots buffer c = ⟨stop, lines, buffer', c'⟩ ∧
      capture slots buffer d = ⟨stop, lines, buffer', d'⟩ ∧ SameRest c' d' := by
  induction slots using Nat.strongRecOn generalizing buffer c d with
  | ind slots ih =>
      by_cases hfull : buffer.isFull = true
      · refine ⟨.cut .lineStart, [], buffer, c, d, ?_, ?_, h⟩ <;> rw [capture, if_pos hfull]
      -- the line is the same over both connections, and it alone decides what is done with it
      obtain ⟨stop, stored, c', d', hc, hd, h'⟩ := gather_same false buffer.remaining h
      cases stop with
      | fault f =>
          refine ⟨.failed (.ofFault f), [], buffer.overlay stored, c', d', ?_, ?_, h'⟩
          · rw [capture, if_neg hfull, hc]
          · rw [capture, if_neg hfull, hd]
      | full carry =>
          refine ⟨.cut (.inLine carry), indexEntry slots buffer.used stored.length,
            buffer.push stored, c', d', ?_, ?_, h'⟩
          · rw [capture, if_neg hfull, hc]
          · rw [capture, if_neg hfull, hd]
      | closed =>
          by_cases hnone : stored = [] ∧ buffer.used = 0
          · refine ⟨.failed .transportClosed, [], buffer, c', d', ?_, ?_, h'⟩
            · simp [capture, hfull, hc, hnone]
            · simp [capture, hfull, hd, hnone]
          · refine ⟨.closed, indexEntry slots buffer.used stored.length, buffer.push
              (if stored.length < buffer.remaining then stored ++ [0] else stored), c', d',
              ?_, ?_, h'⟩
            · simp [capture, hfull, hc, hnone]
            · simp [capture, hfull, hd, hnone]
      | crlf =>
          by_cases hblank : stored.dropLast = []
          · refine ⟨.blankLine, [], buffer.overlay [0], c', d', ?_, ?_, h'⟩
            · simp [capture, hfull, hc, hblank]
            · simp [capture, hfull, hd, hblank]
          · -- the line is kept, and only with a slot left does the capture go on
            cases slots with
            | zero =>
                refine ⟨.cut .lineStart, [], buffer.push (stored.dropLast ++ [0]), c', d',
                  ?_, ?_, h'⟩
                · simp [capture, hfull, hc, hblank]
                · simp [capture, hfull, hd, hblank]
            | succ slots =>
                obtain ⟨stop, lines, buffer', c'', d'', hc', hd', h''⟩ :=
                  ih slots (Nat.lt_succ_self slots) (buffer.push (stored.dropLast ++ [0])) h'
                refine ⟨stop, ⟨buffer.used, buffer.used + stored.dropLast.length⟩ :: lines, buffer',
                  c'', d'', ?_, ?_, h''⟩
                · simp [capture, hfull, hc, hblank, hc']
                · simp [capture, hfull, hd, hblank, hd']

theorem readHead_same (buffer : HeaderBuffer) {c : σ} {d : τ} (h : SameRest c d) :
    ∃ answer buffer' c' d', readHead buffer c = (answer, buffer', c') ∧
      readHead buffer d = (answer, buffer', d') ∧ SameRest c' d' := by
  obtain ⟨stop, lines, buffer', c', d', hc, hd, h'⟩ := capture_same maxHeaderLines buffer.reset h
  cases stop with
  | blankLine =>
      exact ⟨interpret buffer' lines true, buffer', c', d', by rw [readHead, hc],
        by rw [readHead, hd], h'⟩
  | closed =>
      exact ⟨interpret buffer' lines false, buffer', c', d', by rw [readHead, hc],
        by rw [readHead, hd], h'⟩
  | failed e =>
      exact ⟨.error e, buffer', c', d', by rw [readHead, hc], by rw [readHead, hd], h'⟩
  | cut pos =>
      obtain ⟨answer, c'', d'', hskip, hskip', h''⟩ := skipSection_same pos h'
      cases answer with
      | error e =>
          refine ⟨.error e, buffer', c'', d'', ?_, ?_, h''⟩
          · simp [readHead, hc, hskip]
          · simp [readHead, hd, hskip']
      | ok found =>
          refine ⟨interpret buffer' lines false, buffer', c'', d'', ?_, ?_, h''⟩
          · simp [readHead, hc, hskip]
          · simp [readHead, hd, hskip']

/-! ## Chunks -/

/-- An exact read of bytes that are to come gives them. -/
theorem readExact_take {c : σ} {s : Bytes} {n : Nat} (h : Delivers c s) (hn : n ≤ s.length) :
    ∃ c', readExact c n = (.ok (s.take n), c') ∧ Delivers c' (s.drop n) := by
  rw [← List.take_append_drop n s, delivers_iff_pauses] at h
  obtain ⟨c', hread, h'⟩ := readExact_complete h fun _ _ _ => id
  rw [List.length_take_of_le hn] at hread
  exact ⟨c', hread, delivers_iff_pauses.2 h'⟩

/-- An exact read of more bytes than there are to come ends with the close of the peer. -/
theorem readExact_short {c : σ} {s : Bytes} {n : Nat} (h : Delivers c s) (hn : s.length < n) :
    ∃ c', readExact c n = (.error .transportClosed, c') ∧ Delivers c' [] := by
  induction n using Nat.strongRecOn generalizing c s with
  | ind n ih =>
      cases n with
      | zero => exact absurd hn (Nat.not_lt_zero s.length)
      | succ n =>
          obtain ⟨bs, t, c', hr, rfl, hnil, hle, h'⟩ := h.read (Nat.succ_pos n)
          cases bs with
          | nil =>
              obtain rfl : t = [] := hnil rfl
              exact ⟨c', by rw [readExact, hr], h'⟩
          | cons b bs =>
              simp only [List.cons_append, List.length_cons, List.length_append] at hn
              obtain ⟨c'', hrest, h''⟩ := ih (n - bs.length) (by omega) h' (by omega)
              refine ⟨c'', ?_, h''⟩
              rw [readExact, hr]
              simp only [hrest]

theorem readExact_same (n : Nat) {c : σ} {d : τ} (h : SameRest c d) :
    ∃ answer c' d', readExact c n = (answer, c') ∧ readExact d n = (answer, d') ∧
      SameRest c' d' := by
  obtain ⟨s, hc, hd⟩ := h
  by_cases hn : n ≤ s.length
  · obtain ⟨c', hread, hc'⟩ := readExact_take hc hn
    obtain ⟨d', hread', hd'⟩ := readExact_take hd hn
    exact ⟨_, c', d', hread, hread', _, hc', hd'⟩
  · obtain ⟨c', hread, hc'⟩ := readExact_short hc (Nat.lt_of_not_le hn)
    obtain ⟨d', hread', hd'⟩ := readExact_short hd (Nat.lt_of_not_le hn)
    exact ⟨_, c', d', hread, hread', [], hc', hd'⟩

theorem readChunkSize_same {c : σ} {d : τ} (h : SameRest c d) :
    ∃ answer c' d', readChunkSize c = (answer, c') ∧ readChunkSize d = (answer, d') ∧
      SameRest c' d' := by
  obtain ⟨stop, stored, c', d', hc, hd, h'⟩ := gather_same false maxChunkLine h
  cases stop with
  | fault f =>
      exact ⟨.error (.ofFault f), c', d', by simp [readChunkSize, hc],
        by simp [readChunkSize, hd], h'⟩
  | closed =>
      exact ⟨.error .transportClosed, c', d', by simp [readChunkSize, hc],
        by simp [readChunkSize, hd], h'⟩
  | full carry =>
      exact ⟨.error .parse, c', d', by simp [readChunkSize, hc], by simp [readChunkSize, hd], h'⟩
  | crlf =>
      cases hsize : parseChunkSize stored.dropLast with
      | none =>
          exact ⟨.error .parse, c', d', by simp [readChunkSize, hc, hsize],
            by simp [readChunkSize, hd, hsize], h'⟩
      | some size =>
          exact ⟨.ok size, c', d', by simp [readChunkSize, hc, hsize],
            by simp [readChunkSize, hd, hsize], h'⟩

theorem readChunkData_same (size : Nat) {c : σ} {d : τ} (h : SameRest c d) :
    ∃ answer c' d', readChunkData c size = (answer, c') ∧ readChunkData d size = (answer, d') ∧
      SameRest c' d' := by
  obtain ⟨data, c₁, d₁, hc, hd, h₁⟩ := readExact_same size h
  cases data with
  | error e =>
      exact ⟨.error e, c₁, d₁, by rw [readChunkData, hc], by rw [readChunkData, hd], h₁⟩
  | ok bs =>
      obtain ⟨ending, c', d', hc', hd', h'⟩ := readExact_same Ascii.crlf.length h₁
      cases ending with
      | error e =>
          exact ⟨.error e, c', d', by simp [readChunkData, hc, hc'],
            by simp [readChunkData, hd, hd'], h'⟩
      | ok ending =>
          exact ⟨if ending = Ascii.crlf then .ok bs else .error .parse, c', d',
            by simp [readChunkData, hc, hc'], by simp [readChunkData, hd, hd'], h'⟩

namespace BodyReader

theorem readSized_same (r : BodyReader) (size room : Nat) {c : σ} {d : τ} (h : SameRest c d) :
    ∃ answer r' c' d', r.readSized size room c = (answer, r', c') ∧
      r.readSized size room d = (answer, r', d') ∧ SameRest c' d' := by
  by_cases hzero : size = 0
  · -- the last chunk, and the trailer behind it
    obtain ⟨answer, c', d', hc, hd, h'⟩ := skipSection_same .lineStart h
    cases answer with
    | error e =>
        exact ⟨.error e, r, c', d', by simp [readSized, hzero, hc],
          by simp [readSized, hzero, hd], h'⟩
    | ok found =>
        exact ⟨.ok [], { r with finished := true }, c', d', by simp [readSized, hzero, hc],
          by simp [readSized, hzero, hd], h'⟩
  · by_cases hroom : room < size
    · refine ⟨.error .bufferFull, { r with pendingChunk := some size }, c, d, ?_, ?_, h⟩ <;>
        rw [readSized, if_neg hzero, if_pos hroom]
    · obtain ⟨answer, c', d', hc, hd, h'⟩ := readChunkData_same size h
      refine ⟨answer, r, c', d', ?_, ?_, h'⟩
      · rw [readSized, if_neg hzero, if_neg hroom, hc]
      · rw [readSized, if_neg hzero, if_neg hroom, hd]

theorem readChunk_same (r : BodyReader) (room : Nat) {c : σ} {d : τ} (h : SameRest c d) :
    ∃ answer r' c' d', r.readChunk room c = (answer, r', c') ∧
      r.readChunk room d = (answer, r', d') ∧ SameRest c' d' := by
  cases hpending : r.pendingChunk with
  | some size =>
      obtain ⟨answer, r', c', d', hc, hd, h'⟩ :=
        { r with pendingChunk := none }.readSized_same size room h
      refine ⟨answer, r', c', d', ?_, ?_, h'⟩
      · rw [readChunk, hpending]
        exact hc
      · rw [readChunk, hpending]
        exact hd
  | none =>
      obtain ⟨size, c₁, d₁, hc, hd, h₁⟩ := readChunkSize_same h
      cases size with
      | error e =>
          refine ⟨.error e, r, c₁, d₁, ?_, ?_, h₁⟩
          · simp [readChunk, hpending, hc]
          · simp [readChunk, hpending, hd]
      | ok size =>
          obtain ⟨answer, r', c', d', hc', hd', h'⟩ := r.readSized_same size room h₁
          refine ⟨answer, r', c', d', ?_, ?_, h'⟩
          · simp [readChunk, hpending, hc, hc']
          · simp [readChunk, hpending, hd, hd']

/-- A chunked read answers the same over both connections, on whatever comes. -/
theorem read_chunked_same (r : BodyReader) (room : Nat) {c : σ} {d : τ} (h : SameRest c d) :
    ∃ answer r' c' d', r.read .chunked room c = (answer, r', c') ∧
      r.read .chunked room d = (answer, r', d') ∧ SameRest c' d' := by
  by_cases hroom : room = 0
  · refine ⟨.error .parameter, r, c, d, ?_, ?_, h⟩ <;> rw [BodyReader.read, if_pos hroom]
  · by_cases hfin : r.finished = true
    · refine ⟨.ok [], r, c, d, ?_, ?_, h⟩ <;> rw [BodyReader.read, if_neg hroom, if_pos hfin]
    · obtain ⟨answer, r', c', d', hc, hd, h'⟩ := r.readChunk_same room h
      refine ⟨answer, r', c', d', ?_, ?_, h'⟩
      · rw [BodyReader.read, if_neg hroom, if_neg hfin]
        exact hc
      · rw [BodyReader.read, if_neg hroom, if_neg hfin]
        exact hd

/-! ## Bounded reads -/

/-- What a body gives of the bytes to come if it is read to its end, and how it ends. -/
def unread (r : BodyReader) (s : Bytes) : Bytes × Except Error Unit :=
  if r.finished then ([], .ok ())
  else
    match r.remaining with
    | none => (s, .ok ())
    | some n => (s.take n, if n ≤ s.length then .ok () else .error .transportClosed)

/-- One bounded read gives nothing and tells how the body ends, or it gives a piece of what is
unread. -/
theorem read_normal_unread (r : BodyReader) {room : Nat} (hroom : 0 < room) {c : σ} {s : Bytes}
    (h : Delivers c s) :
    (∃ r' c', r.read .normal room c = (.ok [], r', c') ∧ r.unread s = ([], .ok ())) ∨
    (∃ e r' c', r.read .normal room c = (.error e, r', c') ∧ r.unread s = ([], .error e)) ∨
    ∃ b bs r' c' t, r.read .normal room c = (.ok (b :: bs), r', c') ∧ Delivers c' t ∧
      r.unread s = (b :: bs ++ (r'.unread t).1, (r'.unread t).2) := by
  by_cases hfin : r.finished = true
  · refine .inl ⟨r, c, ?_, by rw [unread, if_pos hfin]⟩
    rw [BodyReader.read, if_neg (Nat.ne_of_gt hroom), if_pos hfin]
  rw [Bool.not_eq_true] at hfin
  cases hleft : r.remaining with
  | none =>
      -- the body goes on until the peer closes
      obtain ⟨bs, t, c', hr, rfl, hnil, -, h'⟩ := h.read hroom
      have hread : r.read .normal room c = r.readNormal room c := by
        rw [BodyReader.read, if_neg (Nat.ne_of_gt hroom), if_neg (by simp [hfin])]
      cases bs with
      | nil =>
          obtain rfl : t = [] := hnil rfl
          exact .inl ⟨{ r with finished := true }, c', by simp [hread, readNormal, hleft, hr],
            by simp [unread, hfin, hleft]⟩
      | cons b bs =>
          refine .inr (.inr ⟨b, bs, r, c', t, ?_, h', by simp [unread, hfin, hleft]⟩)
          have hsame : ({ r with remaining := none } : BodyReader) = r := by rw [← hleft]
          simp [hread, readNormal, hleft, hr, hsame]
  | some left =>
      by_cases hzero : left = 0
      · subst hzero
        exact .inl ⟨{ r with finished := true }, c, read_ended hleft hroom c (.inr rfl),
          by simp [unread, hfin, hleft]⟩
      · have hpos : 0 < left := Nat.pos_of_ne_zero hzero
        obtain ⟨bs, t, c', hr, rfl, hnil, hle, h'⟩ := h.read (show 0 < min left room by omega)
        have hread := read_expecting hleft hroom c hfin hpos hr
        cases bs with
        | nil =>
            obtain rfl : t = [] := hnil rfl
            exact .inr (.inl ⟨.transportClosed, _, c', hread, by simp [unread, hfin, hleft, hzero]⟩)
        | cons b bs =>
            refine .inr (.inr ⟨b, bs, _, c', t, hread, h', ?_⟩)
            -- no more was asked for than is left, so the piece is taken whole
            have hpiece : (b :: bs).length ≤ left := Nat.le_trans hle (Nat.min_le_left left room)
            have htake : (b :: bs ++ t).take left =
                b :: bs ++ t.take (left - (b :: bs).length) := by
              rw [List.take_append, List.take_of_length_le hpiece]
            have hend : left ≤ (b :: bs ++ t).length ↔ left - (b :: bs).length ≤ t.length := by
              rw [List.length_append]
              omega
            show r.unread (b :: bs ++ t) = _
            simp only [unread, hfin, hleft, htake, hend, Bool.false_eq_true, if_false]
            rfl

end BodyReader

/-! ## What was taken -/

def Logged.taken {w : Type} (l : Logged w) : Bytes := l.calls.flatMap Call.got

theorem Call.IsSend.got_eq {call : Call} (h : call.IsSend) : call.got = [] := by
  cases call with
  | read => exact False.elim h
  | _ => rfl

theorem Call.IsClose.got_eq {call : Call} (h : call.IsClose) : call.got = [] := by
  cases call with
  | read => exact False.elim h
  | _ => rfl

theorem Delivers.logged {l : Logged σ} {s : Bytes} (h : Delivers l.inner s) : Delivers l s := by
  obtain ⟨R, hR, hl⟩ := h
  refine ⟨fun l s => R l.inner s, ⟨⟨?_, ?_⟩, ?_⟩, hl⟩
  · intro l l' s bs room hl hroom hr
    exact hR.read_ok hl hroom (Logged.of_note hr).1
  · intro l l' s room f hl hroom hr
    exact hR.read_error hl hroom (Logged.of_note hr).1
  · intro l l' s room f hl hroom hr
    exact hR.read_ne_error hl hroom (Logged.of_note hr).1

/-- What is not a read takes nothing. -/
theorem Steps.taken_eq {p : Call → Prop} (hp : ∀ {call}, p call → call.got = []) {l l' : Logged σ}
    (h : Steps p l l') : l'.taken = l.taken := by
  obtain ⟨more, hcalls, hmore⟩ := h.calls
  have hnothing : more.flatMap Call.got = [] :=
    List.flatMap_eq_nil_iff.2 fun call hcall => hp (hmore call hcall)
  rw [Logged.taken, hcalls, List.flatMap_append, hnothing, List.append_nil, Logged.taken]

theorem Logged.taken_close (l : Logged σ) : (Transport.close l).2.taken = l.taken := by
  have hsteps : Steps Call.IsClose l (Transport.close l).2 := .close trivial rfl (.nil _)
  exact hsteps.taken_eq Call.IsClose.got_eq

/-- What reads take is taken off the bytes to come. -/
theorem Steps.taken_append {l l' : Logged σ} (h : Steps Call.IsRead l l') {s : Bytes}
    (hs : Delivers l s) : ∃ t, Delivers l' t ∧ l.taken ++ s = l'.taken ++ t := by
  induction h generalizing s with
  | nil l => exact ⟨s, hs, rfl⟩
  | @read l l₁ l' room answer hroom hr _ ih =>
      obtain ⟨bs, t, l₂, hr', rfl, -, -, ht⟩ := hs.read hroom
      obtain ⟨rfl, rfl⟩ := Prod.mk.inj (hr.symm.trans hr')
      obtain ⟨t', ht', htaken⟩ := ih ht
      have hstep : l₁.taken = l.taken ++ bs := by
        rw [Logged.taken, (Logged.of_note hr).2, List.flatMap_append]
        simp [Call.got, bytesOf, Except.toOption, Logged.taken]
      exact ⟨t', ht', by rw [← htaken, hstep, List.append_assoc]⟩
  | write hp => exact False.elim hp
  | flush hp => exact False.elim hp
  | close hp => exact False.elim hp

/-- The same bytes were taken from both connections, and the same bytes are to come. -/
structure Level (l : Logged σ) (m : Logged τ) : Prop where
  taken : l.taken = m.taken
  rest : SameRest l m

/-- Reads that leave the same bytes to come have taken the same. -/
theorem Level.steps {l l' : Logged σ} {m m' : Logged τ} (h : Level l m)
    (hl : Steps Call.IsRead l l') (hm : Steps Call.IsRead m m') (hrest : SameRest l' m') :
    Level l' m' := by
  obtain ⟨s, hls, hms⟩ := h.rest
  obtain ⟨t, hlt, hl_taken⟩ := hl.taken_append hls
  obtain ⟨t', hmt, hm_taken⟩ := hm.taken_append hms
  -- a connection delivers one stream only
  obtain ⟨u, hlu, hmu⟩ := hrest
  obtain rfl := hlt.unique hlu
  obtain rfl := hmt.unique hmu
  refine ⟨?_, t', hlt, hmt⟩
  rw [h.taken, hm_taken] at hl_taken
  exact (List.append_cancel_right hl_taken).symm

end HttpExchange
