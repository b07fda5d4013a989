import HttpExchange.Body
import HttpExchange.Proofs.Memory.Lines

set_option autoImplicit false

/-! # Reading a body in memory

A piece of a body goes into the caller's buffer: with one read into a part of it, or with reads that
go on behind each other until a chunk is there. A size line is read into memory of its own. As for
lines, all parts that are taken of memory are written out, and so is the subtraction from the count
of the bytes to come. `readIn_fills` shows that they are all in range, and that what stands in the
buffer then is the piece that `BodyReader.read` gives.
-/

namespace HttpExchange.Memory

open Ascii

variable {σ : Type}

/-! ## Pieces in a buffer -/

/-- What was done in memory is the read of a piece into `out`: the memory keeps its size, and the
piece stands at its front. -/
def Fills (out : Bytes) (read : Except Error Bytes × BodyReader × σ)
    (done : Option (Except Error Nat × BodyReader × Bytes × σ)) : Prop :=
  ∃ after, done = some (read.1.map List.length, read.2.1, after, read.2.2) ∧
    after.length = out.length ∧ ∀ piece, read.1 = .ok piece → after = piece ++ out.drop piece.length

/-- A read that fails may have put bytes into the buffer. -/
theorem fills_error {out after : Bytes} (hsize : after.length = out.length) (e : Error)
    (r : BodyReader) (c : σ) : Fills out (.error e, r, c) (some (.error e, r, after, c)) :=
  ⟨after, rfl, hsize, nofun⟩

theorem fills_end (out : Bytes) (r : BodyReader) (c : σ) :
    Fills out (.ok [], r, c) (some (.ok 0, r, out, c)) := by
  refine ⟨out, rfl, rfl, ?_⟩
  intro piece hpiece
  cases hpiece
  rfl

variable [Transport σ]

/-! ## Exact reads -/

def exactIn (view : Bytes) (c : σ) : Option (Except Error Unit × Bytes × σ) :=
  if view = [] then some (.ok (), [], c)
  else
    match Transport.read c view.length with
    | (.error f, c) => some (.error (.ofFault f), view, c)
    | (.ok [], c) => some (.error .transportClosed, view, c)
    | (.ok (b :: bs), c) =>
        match _hrest : slice? view (bs.length + 1) view.length with
        | none => none
        | some rest => do
            let (result, rest, c) ← exactIn rest c
            some (result, b :: bs ++ rest, c)
termination_by view.length
decreasing_by exact length_of_slice? (Nat.succ_pos bs.length) _hrest

/-- A read fills the front of the memory, and the loop goes on behind it. -/
theorem exactIn_of_read {view : Bytes} {n : Nat} {b : UInt8} {bs : Bytes} {c c' : σ}
    (hn : view.length = n + 1) (hread : Transport.read c (n + 1) = (.ok (b :: bs), c')) :
    bs.length ≤ n ∧ (view.drop (bs.length + 1)).length = n - bs.length ∧
      exactIn view c = (exactIn (view.drop (bs.length + 1)) c').bind fun done =>
        some (done.1, b :: bs ++ done.2.1, done.2.2) := by
  have hle : bs.length ≤ n := Nat.le_of_succ_le_succ (Transport.read_length_le hread)
  have hslice : slice? view (bs.length + 1) (n + 1) = some (view.drop (bs.length + 1)) :=
    hn ▸ slice?_length (hn ▸ Nat.succ_le_succ hle)
  refine ⟨hle, by rw [List.length_drop, hn]; omega, ?_⟩
  rw [exactIn, if_neg (List.ne_nil_of_length_eq_add_one hn), hn, hread]
  simp only
  split
  next hrest =>
    rw [hslice] at hrest
    cases hrest
  next rest hrest =>
    rw [hslice] at hrest
    obtain rfl := Option.some.inj hrest
    rfl

/-- The memory keeps its size, and if it was filled it holds the bytes that were read. -/
theorem exactIn_eq (view : Bytes) (c : σ) :
    ∃ after, exactIn view c = some ((readExact c view.length).1.map fun _ => (), after,
        (readExact c view.length).2) ∧
      after.length = view.length ∧ ∀ bs, (readExact c view.length).1 = .ok bs → after = bs := by
  generalize hn : view.length = n
  fun_induction readExact c n generalizing view with
  | case1 c =>
      obtain rfl := List.length_eq_zero_iff.1 hn
      rw [exactIn, if_pos rfl]
      exact ⟨[], rfl, rfl, fun bs hbs => Except.ok.inj hbs⟩
  | case2 c n f c' hread =>
      rw [exactIn, if_neg (List.ne_nil_of_length_eq_add_one hn), hn, hread]
      exact ⟨view, rfl, hn, fun bs hbs => by cases hbs⟩
  | case3 c n c' hread =>
      rw [exactIn, if_neg (List.ne_nil_of_length_eq_add_one hn), hn, hread]
      exact ⟨view, rfl, hn, fun bs hbs => by cases hbs⟩
  | case4 c n b bs c₁ hread more c₂ hmore ih =>
      -- a part of the memory is filled, and the rest of it by the rest of the read
      obtain ⟨hle, hrest, hview⟩ := exactIn_of_read hn hread
      obtain ⟨after, hafter, hlength, hfilled⟩ := ih _ hrest
      rw [hmore] at hafter hfilled
      obtain rfl := hfilled more rfl
      rw [hview, hafter]
      refine ⟨b :: bs ++ after, rfl, ?_, fun bs' hbs => Except.ok.inj hbs⟩
      rw [List.length_append, List.length_cons, hlength]
      omega
  | case5 c n b bs c₁ hread e c₂ hmore ih =>
      obtain ⟨hle, hrest, hview⟩ := exactIn_of_read hn hread
      obtain ⟨after, hafter, hlength, -⟩ := ih _ hrest
      rw [hmore] at hafter
      rw [hview, hafter]
      refine ⟨b :: bs ++ after, rfl, ?_, fun bs' hbs => by cases hbs⟩
      rw [List.length_append, List.length_cons, hlength]
      omega

/-! ## Chunk sizes -/

def sizeIn (line : Bytes) : Option (Option Nat) := do
  let text ← (line.idxOf? semicolon).elim (some line) fun i => slice? line 0 i
  some (Numeral.hexadecimal? Numeral.lengthBound (trim text))

def chunkSizeIn (c : σ) : Option (Except Error Nat × σ) := do
  let (line, cells, c) ← lineIn (List.replicate maxChunkLine 0) 0 c
  match line with
  | .error e => some (.error e, c)
  | .ok (.closed _) => some (.error .transportClosed, c)
  | .ok (.truncated _ _) => some (.error .parse, c)
  | .ok (.complete length) => do
      let text ← slice? cells 0 length
      let size ← sizeIn text
      some (size.elim (.error .parse) .ok, c)

/-- What stands in front of the first occurrence of the byte, or all if it does not occur. -/
theorem slice?_idxOf? (b : UInt8) (line : Bytes) :
    (line.idxOf? b).elim (some line) (fun i => slice? line 0 i) =
      some (line.takeWhile (· != b)) := by
  induction line with
  | nil => rfl
  | cons a line ih =>
      rw [List.idxOf?_cons]
      by_cases hab : a = b
      · simp [hab, slice?_zero]
      · have htake : (a :: line).takeWhile (· != b) = a :: line.takeWhile (· != b) :=
          List.takeWhile_cons_of_pos (by simpa using hab)
        have hslice : ∀ i, slice? (a :: line) 0 (i + 1) = (slice? line 0 i).map (a :: ·) := by
          intro i
          by_cases hi : i ≤ line.length
          · rw [slice?_zero hi, slice?_zero (Nat.succ_le_succ hi)]
            rfl
          · simp [slice?, hi]
        rw [if_neg (by simpa using hab), htake]
        cases hi : line.idxOf? b with
        | none =>
            rw [hi] at ih
            exact congrArg (Option.map (a :: ·)) ih
        | some i =>
            rw [hi] at ih
            exact (hslice i).trans (congrArg (Option.map (a :: ·)) ih)

theorem sizeIn_eq (line : Bytes) : sizeIn line = some (parseChunkSize line) := by
  rw [sizeIn, slice?_idxOf?]
  rfl

/-- **A chunk size is read within the memory of its line.** -/
theorem chunkSizeIn_eq (c : σ) : chunkSizeIn c = some (readChunkSize c) := by
  have hroom : (List.replicate maxChunkLine (0 : UInt8)).length = maxChunkLine :=
    List.length_replicate
  unfold chunkSizeIn readChunkSize
  rw [lineIn_eq, readLine, hroom]
  simp only [Option.bind_eq_bind, Option.bind_some]
  cases hstop : (gather false maxChunkLine c).stop with
  | fault f => rfl
  | closed => rfl
  | full carry => rfl
  | crlf =>
      have hstored := stored_of_crlf hstop
      have hslice : slice? ((gather false maxChunkLine c).stored ++
          (List.replicate maxChunkLine 0).drop (gather false maxChunkLine c).stored.length) 0
          ((gather false maxChunkLine c).stored.length - 1) =
            some (gather false maxChunkLine c).stored.dropLast := by
        rw [slice?_zero (by rw [List.length_append]; omega),
          List.take_append_of_le_length (Nat.sub_le _ 1), List.dropLast_eq_take]
      simp only [Line.ofStop, hslice, sizeIn_eq, Option.bind_some]
      cases parseChunkSize (gather false maxChunkLine c).stored.dropLast <;> rfl

/-! ## Pieces -/

def normalIn (r : BodyReader) (out : Bytes) (c : σ) :
    Option (Except Error Nat × BodyReader × Bytes × σ) :=
  if r.remaining = some 0 then some (.ok 0, { r with finished := true }, out, c)
  else do
    let view ← slice? out 0 ((r.remaining.map (min · out.length)).getD out.length)
    match Transport.read c view.length with
    | (.error f, c) => some (.error (.ofFault f), r, out, c)
    | (.ok [], c) =>
        if r.remaining.isSome then some (.error .transportClosed, r, out, c)
        else some (.ok 0, { r with finished := true }, out, c)
    | (.ok (b :: bs), c) => do
        let remaining ← r.remaining.elim (some none) fun left =>
          (minus? left (bs.length + 1)).map some
        some (.ok (bs.length + 1), { r with remaining := remaining },
          b :: bs ++ out.drop (bs.length + 1), c)

def chunkDataIn (size : Nat) (out : Bytes) (c : σ) : Option (Except Error Nat × Bytes × σ) := do
  let view ← slice? out 0 size
  let (result, view, c) ← exactIn view c
  let out := view ++ out.drop size
  match result with
  | .error e => some (.error e, out, c)
  | .ok () => do
      let (result, ending, c) ← exactIn [0, 0] c
      match result with
      | .error e => some (.error e, out, c)
      | .ok () => some (if ending = crlf then .ok size else .error .parse, out, c)

def sizedIn (r : BodyReader) (size : Nat) (out : Bytes) (c : σ) :
    Option (Except Error Nat × BodyReader × Bytes × σ) :=
  if size = 0 then do
    let (skipped, c) ← skipIn .lineStart (List.replicate skipWindow 0) c
    match skipped with
    | .error e => some (.error e, r, out, c)
    | .ok _ => some (.ok 0, { r with finished := true }, out, c)
  else if out.length < size then
    some (.error .bufferFull, { r with pendingChunk := some size }, out, c)
  else do
    let (result, out, c) ← chunkDataIn size out c
    some (result, r, out, c)

def chunkIn (r : BodyReader) (out : Bytes) (c : σ) :
    Option (Except Error Nat × BodyReader × Bytes × σ) :=
  match r.pendingChunk with
  | some size => sizedIn { r with pendingChunk := none } size out c
  | none => do
      let (size, c) ← chunkSizeIn c
      match size with
      | .error e => some (.error e, r, out, c)
      | .ok size => sizedIn r size out c

/-- Reads the next piece of a body into `out` and says how long it is. -/
def readIn (r : BodyReader) (mode : Mode) (out : Bytes) (c : σ) :
    Option (Except Error Nat × BodyReader × Bytes × σ) :=
  if out = [] then some (.error .parameter, r, out, c)
  else if r.finished then some (.ok 0, r, out, c)
  else
    match mode with
    | .normal => normalIn r out c
    | .chunked => chunkIn r out c

theorem normalIn_fills (r : BodyReader) (out : Bytes) (c : σ) :
    Fills out (r.readNormal out.length c) (normalIn r out c) := by
  unfold BodyReader.readNormal normalIn
  by_cases hzero : r.remaining = some 0
  · rw [if_pos hzero, if_pos hzero]
    exact fills_end out _ c
  · have hasked : (r.remaining.map (min · out.length)).getD out.length ≤ out.length := by
      cases r.remaining with
      | none => exact Nat.le_refl out.length
      | some left => exact Nat.min_le_right left out.length
    rw [if_neg hzero, if_neg hzero, slice?_zero hasked]
    simp only [Option.bind_eq_bind, Option.bind_some, List.length_take, Nat.min_eq_left hasked]
    rcases hread : Transport.read c ((r.remaining.map (min · out.length)).getD out.length) with
      ⟨f | _ | ⟨b, bs⟩, c'⟩
    · exact fills_error rfl _ r c'
    · simp only
      split
      · exact fills_error rfl _ r c'
      · exact fills_end out _ c'
    · have hle : bs.length + 1 ≤ (r.remaining.map (min · out.length)).getD out.length :=
        Transport.read_length_le hread
      -- no more came than was asked for, so the difference exists
      have hleft : (r.remaining.elim (some none) fun left =>
          (minus? left (bs.length + 1)).map some) =
            some (r.remaining.map (· - (bs.length + 1))) := by
        cases hremaining : r.remaining with
        | none => rfl
        | some left =>
            rw [hremaining] at hle
            have hfits : bs.length + 1 ≤ left := Nat.le_trans hle (Nat.min_le_left left out.length)
            rw [Option.elim_some, minus?_eq hfits]
            rfl
      simp only [hleft, Option.bind_some]
      refine ⟨b :: bs ++ out.drop (bs.length + 1), rfl, ?_, ?_⟩
      · rw [List.length_append, List.length_drop, List.length_cons]
        omega
      · intro piece hpiece
        cases hpiece
        rfl

/-- The bytes of a chunk for which there is room stand at the front of the buffer. -/
theorem chunkDataIn_eq {size : Nat} {out : Bytes} (hroom : size ≤ out.length) (c : σ) :
    ∃ after, chunkDataIn size out c = some ((readChunkData c size).1.map List.length, after,
        (readChunkData c size).2) ∧
      after.length = out.length ∧
      ∀ piece, (readChunkData c size).1 = .ok piece → after = piece ++ out.drop piece.length := by
  have hsize : (out.take size).length = size := List.length_take_of_le hroom
  obtain ⟨payload, hpayload, hlength, hread⟩ := exactIn_eq (out.take size) c
  rw [hsize] at hpayload hlength hread
  have hwhole : (payload ++ out.drop size).length = out.length := by
    rw [List.length_append, List.length_drop]
    omega
  unfold chunkDataIn readChunkData
  rw [slice?_zero hroom]
  simp only [Option.bind_eq_bind, Option.bind_some, hpayload]
  rcases hdata : readExact c size with ⟨e | bs, c₁⟩
  · exact ⟨payload ++ out.drop size, rfl, hwhole, fun piece hpiece => by cases hpiece⟩
  · -- the payload is in place, and the two bytes behind it are read apart
    rw [hdata] at hread
    obtain rfl := hread bs rfl
    obtain ⟨ending, hending, -, hread'⟩ := exactIn_eq [0, 0] c₁
    rw [show [(0 : UInt8), 0].length = crlf.length from rfl] at hending hread'
    simp only [Except.map, hending, Option.bind_some]
    rcases hbehind : readExact c₁ crlf.length with ⟨e | bs, c₂⟩
    · exact ⟨payload ++ out.drop size, rfl, hwhole, fun piece hpiece => by cases hpiece⟩
    · rw [hbehind] at hread'
      obtain rfl := hread' bs rfl
      by_cases hcrlf : ending = crlf
      · simp only [if_pos hcrlf]
        exact ⟨payload ++ out.drop size, by rw [hlength], hwhole,
          fun piece hpiece => by rw [← Except.ok.inj hpiece, hlength]⟩
      · simp only [if_neg hcrlf]
        exact ⟨payload ++ out.drop size, rfl, hwhole, fun piece hpiece => by cases hpiece⟩

theorem sizedIn_fills (r : BodyReader) (size : Nat) (out : Bytes) (c : σ) :
    Fills out (r.readSized size out.length c) (sizedIn r size out c) := by
  have hwindow : (List.replicate skipWindow (0 : UInt8)).length = skipWindow :=
    List.length_replicate
  unfold BodyReader.readSized sizedIn
  by_cases hzero : size = 0
  · rw [if_pos hzero, if_pos hzero, skipIn_eq hwindow]
    simp only [Option.bind_eq_bind, Option.bind_some]
    rcases skipSection .lineStart c with ⟨e | found, c'⟩
    · exact fills_error rfl e r c'
    · exact fills_end out _ c'
  · rw [if_neg hzero, if_neg hzero]
    by_cases hlong : out.length < size
    · rw [if_pos hlong, if_pos hlong]
      exact fills_error rfl _ _ c
    · obtain ⟨after, hdata, hsize, hfilled⟩ := chunkDataIn_eq (Nat.le_of_not_lt hlong) c
      rw [if_neg hlong, if_neg hlong, hdata]
      exact ⟨after, rfl, hsize, hfilled⟩

theorem chunkIn_fills (r : BodyReader) (out : Bytes) (c : σ) :
    Fills out (r.readChunk out.length c) (chunkIn r out c) := by
  unfold BodyReader.readChunk chunkIn
  cases r.pendingChunk with
  | some size => exact sizedIn_fills _ size out c
  | none =>
      rw [chunkSizeIn_eq]
      simp only [Option.bind_eq_bind, Option.bind_some]
      rcases readChunkSize c with ⟨e | size, c'⟩
      · exact fills_error rfl e r c'
      · exact sizedIn_fills r size out c'

/-- **A piece of a body is read within the buffer.** -/
theorem readIn_fills (r : BodyReader) (mode : Mode) (out : Bytes) (c : σ) :
    Fills out (r.read mode out.length c) (readIn r mode out c) := by
  unfold BodyReader.read readIn
  by_cases hempty : out = []
  · rw [if_pos (List.length_eq_zero_iff.2 hempty), if_pos hempty]
    exact fills_error rfl _ r c
  · rw [if_neg (mt List.length_eq_zero_iff.1 hempty), if_neg hempty]
    by_cases hfin : r.finished = true
    · rw [if_pos hfin, if_pos hfin]
      exact fills_end out r c
    · rw [if_neg hfin, if_neg hfin]
      cases mode with
      | normal => exact normalIn_fills r out c
      | chunked => exact chunkIn_fills r out c

end HttpExchange.Memory
