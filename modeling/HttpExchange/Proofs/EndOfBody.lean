import HttpExchange.Proofs.Lifecycle

set_option autoImplicit false

/-! # The end of a body

Reads of a body in any mix of modes, over a connection that may do anything. What one read answers
tells what it has done to the reader (`Definite`): an empty piece is the end and nothing else is, a
piece fits its room, and an error leaves the end and the count of the bytes to come as they were.
With what a read does to that count (`remaining_read`) this makes the end of a body definite for
runs of reads (`readMany_definite`): once it was reported, the connection is left alone.
-/

namespace HttpExchange.BodyReader

variable {σ : Type} [Transport σ]

/-! ## One read -/

/-- The answer of a read with `room` bytes of room, which led from `r` to `r'`, tells what it has
done. -/
structure Definite (r : BodyReader) (room : Nat) (answer : Except Error Bytes) (r' : BodyReader) :
    Prop where
  ended : 0 < room → (answer = .ok [] ↔ r'.finished = true)
  length_le : ∀ piece, answer = .ok piece → piece.length ≤ room
  of_error : ∀ e, answer = .error e → r'.finished = r.finished ∧ r'.remaining = r.remaining

theorem definite_end {r r' : BodyReader} {room : Nat} (hfin : r'.finished = true) :
    Definite r room (.ok []) r' := by
  refine ⟨fun _ => iff_of_true rfl hfin, ?_, nofun⟩
  intro piece hpiece
  cases hpiece
  exact Nat.zero_le room

section Open

variable {r : BodyReader} (hr : r.finished = false)
include hr

theorem definite_error {r' : BodyReader} {room : Nat} (e : Error)
    (hfin : r'.finished = r.finished) (hleft : r'.remaining = r.remaining) :
    Definite r room (.error e) r' := by
  refine ⟨fun _ => iff_of_false nofun ?_, nofun, fun _ _ => ⟨hfin, hleft⟩⟩
  rw [hfin, hr]
  exact Bool.false_ne_true

theorem definite_piece {r' : BodyReader} {room : Nat} {piece : Bytes}
    (hfin : r'.finished = r.finished) (hne : piece ≠ []) (hle : piece.length ≤ room) :
    Definite r room (.ok piece) r' := by
  refine ⟨fun _ => iff_of_false ?_ ?_, ?_, nofun⟩
  · intro hend
    exact hne (Except.ok.inj hend)
  · rw [hfin, hr]
    exact Bool.false_ne_true
  · intro piece' hpiece
    cases hpiece
    exact hle

theorem definite_readNormal (room : Nat) (c : σ) :
    Definite r room (r.readNormal room c).1 (r.readNormal room c).2.1 := by
  -- no more is asked for than there is room
  have hasked : (r.remaining.map (min · room)).getD room ≤ room := by
    cases r.remaining with
    | none => exact Nat.le_refl room
    | some left => exact Nat.min_le_right left room
  unfold readNormal
  split
  · exact definite_end rfl
  · split
    next => exact definite_error hr _ rfl rfl
    next =>
      split
      · exact definite_error hr _ rfl rfl
      · exact definite_end rfl
    next b bs c' hread =>
      have hle := Transport.read_length_le hread
      exact definite_piece hr rfl (List.cons_ne_nil b bs) (Nat.le_trans hle hasked)

theorem definite_readSized (size room : Nat) (c : σ) :
    Definite r room (r.readSized size room c).1 (r.readSized size room c).2.1 := by
  unfold readSized
  by_cases hzero : size = 0
  · rw [if_pos hzero]
    split
    · exact definite_error hr _ rfl rfl
    · exact definite_end rfl
  · rw [if_neg hzero]
    by_cases hlong : room < size
    · rw [if_pos hlong]
      exact definite_error hr _ rfl rfl
    · rw [if_neg hlong]
      rcases hdata : readChunkData c size with ⟨e | piece, c'⟩
      · exact definite_error hr e rfl rfl
      · -- a chunk has at least one byte, so the piece is no end
        have hlen : piece.length = size := length_readChunkData hdata
        have hne : piece ≠ [] := by
          rintro rfl
          exact hzero hlen.symm
        exact definite_piece hr rfl hne (by omega)

theorem definite_readChunk (room : Nat) (c : σ) :
    Definite r room (r.readChunk room c).1 (r.readChunk room c).2.1 := by
  unfold readChunk
  split
  next size _ =>
    -- the size that was kept does not matter to what an error leaves
    have h := definite_readSized (r := { r with pendingChunk := none }) hr size room c
    exact ⟨h.ended, h.length_le, h.of_error⟩
  next =>
    split
    · exact definite_error hr _ rfl rfl
    · exact definite_readSized hr _ room _

end Open

theorem definite_read (r : BodyReader) (mode : Mode) (room : Nat) (c : σ) :
    Definite r room (r.read mode room c).1 (r.read mode room c).2.1 := by
  unfold BodyReader.read
  by_cases hroom : room = 0
  · rw [if_pos hroom]
    exact ⟨fun hpos => absurd hroom (Nat.ne_of_gt hpos), nofun, fun _ _ => ⟨rfl, rfl⟩⟩
  · rw [if_neg hroom]
    by_cases hfin : r.finished = true
    · rw [if_pos hfin]
      exact definite_end hfin
    · have hopen : r.finished = false := Bool.eq_false_iff.2 hfin
      rw [if_neg hfin]
      cases mode with
      | normal => exact definite_readNormal hopen room c
      | chunked => exact definite_readChunk hopen room c

/-! ## Reads in a row -/

/-- Behind the end reads report it again, in any mode, and leave reader and connection alone. -/
theorem readMany_behind_end {r : BodyReader} (hr : r.finished = true) (reads : List (Mode × Nat))
    (c : σ) :
    readMany reads r c =
      (reads.map fun read => if read.2 = 0 then .error .parameter else .ok [], r, c) := by
  induction reads with
  | nil => rfl
  | cons read reads ih =>
      obtain ⟨mode, room⟩ := read
      have hread : r.read mode room c = (if room = 0 then .error .parameter else .ok [], r, c) := by
        unfold BodyReader.read
        by_cases hroom : room = 0
        · rw [if_pos hroom, if_pos hroom]
        · rw [if_neg hroom, if_neg hroom, if_pos hr]
      rw [readMany_cons hread, ih]
      rfl

/-- Reads in a row take a number of bytes off those still to come, if they are counted. -/
theorem remaining_readMany (reads : List (Mode × Nat)) (r : BodyReader) (c : σ) :
    ∃ n, (readMany reads r c).2.1.remaining = r.remaining.map (· - n) := by
  induction reads generalizing r c with
  | nil => exact ⟨0, by simp [readMany]⟩
  | cons read reads ih =>
      obtain ⟨mode, room⟩ := read
      rcases hread : r.read mode room c with ⟨answer, r₁, c₁⟩
      obtain ⟨n, hn⟩ := r.remaining_read mode room c
      obtain ⟨m, hm⟩ := ih r₁ c₁
      rw [hread] at hn
      refine ⟨n + m, ?_⟩
      rw [readMany_cons hread, hm, hn, Option.map_map]
      congr 1
      funext left
      exact Nat.sub_sub left n m

/-- **The end of a body is definite.** After reads of a new reader, in any modes and with any rooms:

* the next read, if it has room, answers with an empty piece if and only if the end is reported
  behind it;
* if the end was reported, then all reads to come answer with an empty piece if they have room, and
  leave the reader and the connection as they are;
* a piece is no longer than the room it was read into;
* an error leaves the end and the count of the bytes to come as they were;
* the bytes to come are counted if and only if their number was told, and the count never grows. -/
theorem readMany_definite (framing : Framing) (c : σ) (reads : List (Mode × Nat)) (mode : Mode)
    (room : Nat) :
    let run := readMany reads (ofFraming framing) c
    let next := run.2.1.read mode room run.2.2
    (0 < room → (next.1 = .ok [] ↔ next.2.1.finished = true)) ∧
    (run.2.1.finished = true → ∀ more, readMany more run.2.1 run.2.2 =
      (more.map fun read => if read.2 = 0 then .error .parameter else .ok [], run.2)) ∧
    (∀ piece, next.1 = .ok piece → piece.length ≤ room) ∧
    (∀ e, next.1 = .error e → next.2.1.finished = run.2.1.finished ∧
      next.2.1.remaining = run.2.1.remaining) ∧
    (run.2.1.remaining = none ↔ framing = .chunked) ∧
    ∀ more left, (readMany more run.2.1 run.2.2).2.1.remaining = some left →
      ∃ before, run.2.1.remaining = some before ∧ left ≤ before := by
  intro run next
  have hnext : Definite run.2.1 room next.1 next.2.1 := definite_read run.2.1 mode room run.2.2
  -- reads only lower the count, so it stays one of this framing
  have hcounted : run.2.1.Within framing := by
    obtain ⟨n, hn⟩ := remaining_readMany reads (ofFraming framing) c
    exact (within_ofFraming framing).of_map hn
  refine ⟨hnext.ended, fun hend more => readMany_behind_end hend more run.2.2, hnext.length_le,
    hnext.of_error, hcounted.1, fun more left hleft => ?_⟩
  obtain ⟨n, hn⟩ := remaining_readMany more run.2.1 run.2.2
  obtain ⟨before, hbefore, rfl⟩ := Option.map_eq_some_iff.1 (hn.symm.trans hleft)
  exact ⟨before, hbefore, Nat.sub_le before n⟩

/-- A peer that pauses within the first chunk and closes there. -/
def pausedMidway : Script where
  steps := [.data (Text.encode "4\r\nWik"), .fault .timeout]

/-- A chunk that does not fit is read on with bounded reads, through a timeout and a read without
room, to the close of the peer; behind it chunked reads report the end too. -/
theorem readMany_definite_mixed :
    let reads := [(Mode.chunked, 2), (.normal, 3), (.normal, 8), (.chunked, 0)]
    let run := readMany reads (ofFraming .chunked) pausedMidway
    let next := run.2.1.read .normal 8 run.2.2
    let beyond := readMany (reads ++ [(.normal, 8)]) (ofFraming .chunked) pausedMidway
    run.1 = [.error .bufferFull, .ok (Text.encode "Wik"), .error .timeout, .error .parameter] ∧
    0 < 8 ∧ next.1 = .ok [] ∧ next.2.1.finished = true ∧ next.2.1.remaining = none ∧
    beyond.2.1.finished = true ∧
    readMany [(.chunked, 4), (.normal, 0)] beyond.2.1 beyond.2.2 =
      ([.ok [], .error .parameter], beyond.2) := by
  intro reads run next beyond
  have hroom : 0 < 8 := by decide
  have hnext : next.1 = .ok [] := by decide +kernel
  have hbeyond : beyond.2.1.finished = true := by decide +kernel
  obtain ⟨hend, -⟩ := readMany_definite .chunked pausedMidway reads .normal 8
  obtain ⟨-, hbehind, -, -, hnone, -⟩ :=
    readMany_definite .chunked pausedMidway (reads ++ [(.normal, 8)]) .chunked 4
  exact ⟨by decide +kernel, hroom, hnext, (hend hroom).1 hnext, hnone.2 rfl, hbeyond,
    hbehind hbeyond [(.chunked, 4), (.normal, 0)]⟩

end HttpExchange.BodyReader
