import HttpExchange.Proofs.Reading

set_option autoImplicit false

/-! # Reading into memory

The readers fill memory of fixed size: a line goes into a buffer position by position, and a section
is skipped through a window. Here they are written with all the positions they use. A step that goes
to a position outside of the memory, takes a part that is not within it, or subtracts below zero has
no result, and neither has a turn of a loop that could be repeated for ever. Then the readers are
shown to have a result always, the one that `readLine` and `skipSection` say (`lineIn_eq`,
`skipIn_eq`): no access is out of range, whatever the connection gives.
-/

namespace HttpExchange.Memory

open Ascii

/-! ## Accesses -/

/-- The part of the memory from `start` to just before `stop`. -/
def slice? (cells : Bytes) (start stop : Nat) : Option Bytes :=
  if start ≤ stop ∧ stop ≤ cells.length then some ((cells.drop start).take (stop - start))
  else none

def store? (cells : Bytes) (i : Nat) (b : UInt8) : Option Bytes :=
  if i < cells.length then some (cells.set i b) else none

def minus? (m n : Nat) : Option Nat := if n ≤ m then some (m - n) else none

theorem slice?_eq {cells : Bytes} {start stop : Nat} (hle : start ≤ stop)
    (hstop : stop ≤ cells.length) :
    slice? cells start stop = some ((cells.drop start).take (stop - start)) :=
  if_pos ⟨hle, hstop⟩

/-- A part from the front. -/
theorem slice?_zero {cells : Bytes} {stop : Nat} (hstop : stop ≤ cells.length) :
    slice? cells 0 stop = some (cells.take stop) :=
  slice?_eq (Nat.zero_le stop) hstop

/-- A part up to the end. -/
theorem slice?_length {cells : Bytes} {start : Nat} (hstart : start ≤ cells.length) :
    slice? cells start cells.length = some (cells.drop start) := by
  rw [slice?_eq hstart (Nat.le_refl _), List.take_of_length_le]
  simp

/-- What follows a part from the front is shorter. -/
theorem length_of_slice? {cells rest : Bytes} {start : Nat} (hpos : 0 < start)
    (h : slice? cells start cells.length = some rest) : rest.length < cells.length := by
  unfold slice? at h
  split at h
  next hrange =>
    cases h
    have hstart := hrange.1
    rw [List.length_take, List.length_drop]
    omega
  next => cases h

theorem store?_append (front : Bytes) (a : UInt8) (rest : Bytes) (b : UInt8) :
    store? (front ++ a :: rest) front.length b = some (front ++ b :: rest) := by
  simp [store?]

theorem length_of_store? {cells after : Bytes} {i : Nat} {b : UInt8}
    (h : store? cells i b = some after) : i < cells.length ∧ after.length = cells.length := by
  unfold store? at h
  split at h
  next hlt =>
    cases h
    exact ⟨hlt, List.length_set⟩
  next => cases h

theorem minus?_eq {m n : Nat} (h : n ≤ m) : minus? m n = some (m - n) := if_pos h

variable {σ : Type} [Transport σ]

/-! ## Lines -/

/-- The loop of a line read into `out`: `count` bytes of the line are there, and `last` is the one
stored last. -/
def lineLoop (out : Bytes) (count : Nat) (last : UInt8) (c : σ) :
    Option (Except Error Line × Bytes × σ) :=
  if out.length ≤ count ∧ last ≠ cr then some (.ok (.truncated count none), out, c)
  else
    match Transport.read c 1 with
    | (.error f, c) => some (.error (.ofFault f), out, c)
    | (.ok [], c) => some (.ok (.closed count), out, c)
    | (.ok (b :: _), c) =>
        if b = lf ∧ last = cr then do
          let length ← minus? count 1
          some (.ok (.complete length), out, c)
        else if out.length ≤ count then some (.ok (.truncated count (some b)), out, c)
        else
          match _hstored : store? out count b with
          | none => none
          | some out => lineLoop out (count + 1) b c
termination_by out.length - count
decreasing_by
  obtain ⟨hlt, hlength⟩ := length_of_store? _hstored
  rw [hlength]
  exact Nat.sub_lt_sub_left hlt (Nat.lt_succ_self count)

/-- Reads a line into `out`, whose first `filled` bytes are the start of the line. -/
def lineIn (out : Bytes) (filled : Nat) (c : σ) : Option (Except Error Line × Bytes × σ) :=
  if 0 < filled then do
    let i ← minus? filled 1
    let last ← out[i]?
    lineLoop out filled last c
  else lineLoop out 0 0 c

/-- The loop fills the free cells behind the bytes of the line that are there. -/
theorem lineLoop_eq (front free : Bytes) (last : UInt8) (c : σ) (hlast : last = cr → front ≠ []) :
    let g := gather (last = cr) free.length c
    lineLoop (front ++ free) front.length last c =
      some (Line.ofStop (front.length + g.stored.length) g.stop,
        front ++ g.stored ++ free.drop g.stored.length, g.rest) := by
  induction free generalizing front last c with
  | nil =>
      rw [lineLoop]
      by_cases hcr : last = cr
      · have hpos : 1 ≤ front.length := List.length_pos_iff.2 (hlast hcr)
        rcases hread : Transport.read c 1 with ⟨f | _ | ⟨b, bs⟩, c'⟩
        · simp [gather, hread, hcr, Line.ofStop]
        · simp [gather, hread, hcr, Line.ofStop]
        · by_cases hb : b = lf
          · simp [gather, hread, hcr, hb, Line.ofStop, minus?_eq hpos]
          · simp [gather, hread, hcr, hb, Line.ofStop]
      · simp [gather, hcr, Line.ofStop]
  | cons a free ih =>
      -- a cell is free, so a byte is read for it
      have hroom : ¬ (front ++ a :: free).length ≤ front.length := by
        rw [List.length_append, List.length_cons]
        omega
      rw [lineLoop, if_neg fun h => hroom h.1]
      rcases hread : Transport.read c 1 with ⟨f | _ | ⟨b, bs⟩, c'⟩
      · simp [gather, hread, Line.ofStop]
      · simp [gather, hread, Line.ofStop]
      · by_cases hend : b = lf ∧ last = cr
        · have hpos : 1 ≤ front.length := List.length_pos_iff.2 (hlast hend.2)
          simp [gather, hread, hend, Line.ofStop, minus?_eq hpos]
        · -- the byte goes into the first free cell
          have hstored := ih (front ++ [b]) b c' fun _ => by simp
          rw [List.append_assoc, List.singleton_append, List.length_append,
            List.length_singleton] at hstored
          simp only [if_neg hend, if_neg hroom]
          split
          next hout =>
            rw [store?_append] at hout
            cases hout
          next out hout =>
            rw [store?_append] at hout
            obtain rfl := Option.some.inj hout
            rw [hstored]
            simp [gather, hread, hend, Nat.add_assoc, Nat.add_comm 1]

/-- **A line is read within the buffer.** -/
theorem lineIn_eq (out : Bytes) (c : σ) : lineIn out 0 c = some (readLine c out) := by
  have hzero : (0 : UInt8) ≠ cr := by decide
  have hloop := lineLoop_eq [] out 0 c fun hcr => absurd hcr hzero
  rw [lineIn, if_neg (Nat.lt_irrefl 0)]
  simpa [readLine, hzero] using hloop

/-- A line whose first byte is there already is read on behind that byte. -/
theorem lineIn_eq_of_byte (b : UInt8) (free : Bytes) (c : σ) :
    let g := gather (b = cr) free.length c
    lineIn (b :: free) 1 c =
      some (Line.ofStop (1 + g.stored.length) g.stop,
        b :: (g.stored ++ free.drop g.stored.length), g.rest) := by
  have hloop := lineLoop_eq [b] free b c fun _ => by simp
  rw [lineIn, if_pos Nat.one_pos, minus?_eq (Nat.le_refl 1)]
  simpa using hloop

/-- What a read stored, with what was in the free cells behind it, fills these cells. -/
theorem length_stored (afterCr : Bool) (free : Bytes) (c : σ) :
    let g := gather afterCr free.length c
    (g.stored ++ free.drop g.stored.length).length = free.length := by
  intro g
  have hle : g.stored.length ≤ free.length := gather_stored_length_le afterCr free.length c
  rw [List.length_append, List.length_drop]
  omega

/-- The bytes of a line that was read with its terminator, with its CR behind them. -/
theorem stored_of_crlf {room : Nat} {c : σ} (hstop : (gather false room c).stop = .crlf) :
    (gather false room c).stored = (gather false room c).stored.dropLast ++ [cr] := by
  obtain ⟨line, hline, -⟩ := gather_fresh_of_crlf hstop
  rw [hline, List.dropLast_concat]

theorem length_line_of_crlf {room : Nat} {c : σ} (hstop : (gather false room c).stop = .crlf) :
    (gather false room c).stored.dropLast.length + 1 ≤ room := by
  have hle := gather_stored_length_le false room c
  rwa [stored_of_crlf hstop, List.length_append] at hle

/-- A line that ended has room for its CR. -/
theorem readLine_complete {c : σ} {out : Bytes} {n : Nat}
    (h : (readLine c out).1 = .ok (.complete n)) : n + 1 ≤ out.length := by
  unfold readLine at h
  simp only at h
  cases hstop : (gather false out.length c).stop with
  | crlf =>
      have hfits := length_line_of_crlf hstop
      rw [hstop] at h
      obtain rfl : (gather false out.length c).stored.length - 1 = n :=
        Line.complete.inj (Except.ok.inj h)
      rwa [List.length_dropLast] at hfits
  | full carry =>
      rw [hstop] at h
      cases h
  | closed =>
      rw [hstop] at h
      cases h
  | fault f =>
      rw [hstop] at h
      cases h

/-! ## Sections -/

/-- The number of bytes that are put back into the window before it is filled on. -/
def filled : Position → Nat
  | .inLine (some _) => 1
  | _ => 0

def refill? : Position → Bytes → Option Bytes
  | .inLine (some b), window => store? window 0 b
  | _, window => some window

/-- Skips the rest of a section through the window. A turn has to take something off what the
connection can give. -/
def skipIn (pos : Position) (window : Bytes) (c : σ) : Option (Except Error Bool × σ) := do
  let front ← refill? pos window
  let (line, window, c') ← lineIn front (filled pos) c
  match line with
  | .error e => some (.error e, c')
  | .ok (.closed _) => some (.ok false, c')
  | .ok (.truncated _ carry) =>
      if Transport.supply c' < Transport.supply c then skipIn (.inLine carry) window c' else none
  | .ok (.complete length) =>
      if pos = .lineStart ∧ length = 0 then some (.ok true, c')
      else if Transport.supply c' < Transport.supply c then skipIn .lineStart window c'
      else none
termination_by Transport.supply c

/-- One turn of the skipper reads on in its window, which keeps its size. -/
theorem lineIn_window {window : Bytes} (hwindow : window.length = skipWindow) (pos : Position)
    (c : σ) :
    let g := gather pos.afterCr pos.room c
    ∃ front after, refill? pos window = some front ∧
      lineIn front (filled pos) c =
        some (Line.ofStop (filled pos + g.stored.length) g.stop, after, g.rest) ∧
      after.length = skipWindow := by
  intro g
  -- without a byte to put back
  have hplain : ∃ after, lineIn window 0 c =
      some (Line.ofStop (0 + (gather false skipWindow c).stored.length)
        (gather false skipWindow c).stop, after, (gather false skipWindow c).rest) ∧
      after.length = skipWindow := by
    rw [lineIn_eq, readLine, hwindow, Nat.zero_add]
    exact ⟨_, rfl, hwindow ▸ length_stored false window c⟩
  cases pos with
  | lineStart => exact ⟨window, hplain.choose, rfl, hplain.choose_spec⟩
  | inLine carry =>
      cases carry with
      | none => exact ⟨window, hplain.choose, rfl, hplain.choose_spec⟩
      | some b =>
          obtain ⟨a, free, rfl⟩ := List.exists_cons_of_length_eq_add_one hwindow
          have hfree : free.length = skipWindow - 1 := Nat.succ.inj hwindow
          refine ⟨b :: free, b :: (g.stored ++ free.drop g.stored.length),
            store?_append [] a free b, ?_, ?_⟩
          · have hline := lineIn_eq_of_byte b free c
            rw [hfree] at hline
            exact hline
          · have hstored := length_stored (b = cr) free c
            rw [hfree] at hstored
            exact congrArg (· + 1) hstored

/-- **A section is skipped within the window.** -/
theorem skipIn_eq {window : Bytes} (hwindow : window.length = skipWindow) (pos : Position) (c : σ) :
    skipIn pos window c = some (skipSection pos c) := by
  fun_induction skipSection pos c generalizing window with
  | @case1 pos c g f hstop =>
      obtain ⟨front, after, hfront, hline, -⟩ := lineIn_window hwindow pos c
      rw [skipIn, hfront]
      simp [hline, g, hstop, Line.ofStop]
  | @case2 pos c g hstop =>
      obtain ⟨front, after, hfront, hline, -⟩ := lineIn_window hwindow pos c
      rw [skipIn, hfront]
      simp [hline, g, hstop, Line.ofStop]
  | @case3 pos c g k hstop ih =>
      -- the window is full, and what was read into it came off the connection
      obtain ⟨front, after, hfront, hline, hafter⟩ := lineIn_window hwindow pos c
      have hprogress : Transport.supply g.rest < Transport.supply c :=
        gather_progress (.inr ⟨k, hstop⟩)
      rw [skipIn, hfront]
      simp [hline, g, hstop, Line.ofStop, ih hafter, hprogress]
  | @case4 pos c g hstop hblank =>
      obtain ⟨front, after, hfront, hline, -⟩ := lineIn_window hwindow pos c
      obtain ⟨rfl, hcr⟩ := hblank
      have hlength : filled .lineStart + g.stored.length - 1 = 0 := by
        rw [hcr]
        rfl
      rw [skipIn, hfront]
      simp [hline, g, hstop, Line.ofStop, hlength]
  | @case5 pos c g hstop hblank ih =>
      obtain ⟨front, after, hfront, hline, hafter⟩ := lineIn_window hwindow pos c
      have hlong : ¬ (pos = .lineStart ∧ filled pos + g.stored.length - 1 = 0) := by
        rintro ⟨rfl, hlength⟩
        obtain ⟨line, hstored, -⟩ :=
          gather_fresh_of_crlf (show (gather false skipWindow c).stop = .crlf from hstop)
        have hempty : line = [] := by
          simpa [g, filled, Position.afterCr, Position.room, hstored] using hlength
        exact hblank ⟨rfl, hstored.trans (by rw [hempty]; rfl)⟩
      have hprogress : Transport.supply g.rest < Transport.supply c := gather_progress (.inl hstop)
      rw [skipIn, hfront]
      simp [hline, g, hstop, Line.ofStop, ih hafter, hlong, hprogress]

end HttpExchange.Memory
