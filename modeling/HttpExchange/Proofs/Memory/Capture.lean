import HttpExchange.Head
import HttpExchange.Proofs.Memory.Lines

set_option autoImplicit false

/-! # Capturing a section in memory

The header storage as it is kept in memory: the cells, and how many of them from the front are
written. The capture of a section reads every line into the free cells, puts a null byte behind it,
counts it as written and enters its range in the index. `captureIn_eq` shows that all the cells it
uses are there, and that it leaves behind what `capture` says.
-/

namespace HttpExchange.Memory

open Ascii

/-! ## The storage -/

structure Storage where
  cells : Bytes
  /-- The number of cells that are written, from the front. -/
  used : Nat

namespace Storage

def ofBuffer (b : HeaderBuffer) : Storage := ⟨b.storage, b.used⟩

def written? (m : Storage) : Option Bytes := slice? m.cells 0 m.used

def spare? (m : Storage) : Option Bytes := slice? m.cells m.used m.cells.length

def putSpare (m : Storage) (spare : Bytes) : Storage :=
  { m with cells := m.cells.take m.used ++ spare }

def poke? (m : Storage) (i : Nat) (b : UInt8) : Option Storage := do
  let spare ← m.spare?
  let spare ← store? spare i b
  some (m.putSpare spare)

/-- Counts the first `n` cells of the free part as written. There have to be so many. -/
def advance? (m : Storage) (n : Nat) : Option Storage := do
  let free ← minus? m.cells.length m.used
  if n ≤ free then some { m with used := m.used + n } else none

/-- The entry for the `length` bytes from `start` in an index with so many free slots: none if there
are no bytes or no slot is free. The bytes are looked at for the trace. -/
def enter? (m : Storage) (slots start length : Nat) : Option (List LineRange) :=
  if length = 0 then some []
  else do
    let written ← m.written?
    let _ ← slice? written start (start + length)
    if slots = 0 then some [] else some [⟨start, start + length⟩]

/-- Ends a line of `length` bytes that the peer did not end, if there is a cell left for the null
byte, and counts it as written. -/
def endLine? (m : Storage) (length : Nat) : Option Storage := do
  let spare ← m.spare?
  if length < spare.length then do
    let m ← m.poke? length 0
    m.advance? (length + 1)
  else m.advance? length

section OfBuffer

variable (b : HeaderBuffer)

@[simp] theorem ofBuffer_used : (ofBuffer b).used = b.used := rfl

@[simp] theorem ofBuffer_cells : (ofBuffer b).cells = b.storage := rfl

@[simp] theorem written?_ofBuffer : (ofBuffer b).written? = some b.written := by
  rw [written?, slice?_zero] <;> simp [HeaderBuffer.storage, HeaderBuffer.used]

@[simp] theorem spare?_ofBuffer : (ofBuffer b).spare? = some b.spare := by
  rw [spare?, slice?_length] <;> simp [HeaderBuffer.storage, HeaderBuffer.used]

theorem putSpare_ofBuffer (spare : Bytes) :
    (ofBuffer b).putSpare spare = ofBuffer { b with spare := spare } := by
  simp [putSpare, ofBuffer, HeaderBuffer.storage, HeaderBuffer.used]

@[simp] theorem putSpare_overlay (x : Bytes) :
    (ofBuffer b).putSpare (b.overlay x).spare = ofBuffer (b.overlay x) :=
  putSpare_ofBuffer b _

/-- The free part as it stands. -/
@[simp] theorem putSpare_spare : (ofBuffer b).putSpare b.spare = ofBuffer b :=
  putSpare_overlay b []

theorem isFull_iff : b.isFull = true ↔ (ofBuffer b).used = (ofBuffer b).cells.length := by
  simp [HeaderBuffer.isFull, HeaderBuffer.remaining, HeaderBuffer.storage, HeaderBuffer.used]

/-- The last of the bytes at the front of the free part is replaced. -/
theorem poke?_overlay_concat (x : Bytes) (a v : UInt8) :
    (ofBuffer (b.overlay (x ++ [a]))).poke? x.length v =
      some (ofBuffer (b.overlay (x ++ [v]))) := by
  rw [poke?, spare?_ofBuffer]
  simp [HeaderBuffer.overlay, store?_append, putSpare_ofBuffer]

variable {b}

/-- A byte is put behind the bytes at the front of the free part. -/
theorem poke?_overlay {x : Bytes} (h : x.length < b.remaining) (v : UInt8) :
    (ofBuffer (b.overlay x)).poke? x.length v = some (ofBuffer (b.overlay (x ++ [v]))) := by
  obtain ⟨a, rest, hrest⟩ := List.exists_cons_of_length_pos
    (show 0 < (b.spare.drop x.length).length by rw [List.length_drop]; exact Nat.sub_pos_of_lt h)
  have hoverlay : b.overlay x = b.overlay (x ++ [a]) := by
    simp [HeaderBuffer.overlay, ← List.drop_drop, hrest]
  rw [hoverlay, poke?_overlay_concat]

/-- The bytes at the front of the free part are counted as written. -/
theorem advance?_overlay {x : Bytes} (h : x.length ≤ b.remaining) :
    (ofBuffer (b.overlay x)).advance? x.length = some (ofBuffer (b.push x)) := by
  rw [HeaderBuffer.push_eq, List.take_of_length_le h]
  simp [advance?, minus?, HeaderBuffer.overlay, ofBuffer, HeaderBuffer.storage, HeaderBuffer.used]

theorem advance?_overlay_concat {x : Bytes} (h : x.length + 1 ≤ b.remaining) (v : UInt8) :
    (ofBuffer (b.overlay (x ++ [v]))).advance? (x.length + 1) =
      some (ofBuffer (b.push (x ++ [v]))) := by
  have hlength : (x ++ [v]).length = x.length + 1 := by
    rw [List.length_append, List.length_singleton]
  rw [← hlength]
  exact advance?_overlay (hlength ▸ h)

/-- A line that is not over is ended by a null byte behind it, if there is a cell for it. -/
theorem endLine?_overlay {x : Bytes} (h : x.length ≤ b.remaining) :
    (ofBuffer (b.overlay x)).endLine? x.length =
      some (ofBuffer (b.push (if x.length < b.remaining then x ++ [0] else x))) := by
  have hspare : (b.overlay x).spare.length = b.remaining := by
    simp only [HeaderBuffer.overlay, HeaderBuffer.remaining, List.length_append,
      List.length_drop] at h ⊢
    omega
  by_cases hlt : x.length < b.remaining
  · simp [endLine?, hspare, hlt, poke?_overlay hlt, advance?_overlay_concat hlt]
  · simp [endLine?, hspare, hlt, advance?_overlay h]

/-- A range of written bytes is entered in a free slot of the index. -/
theorem enter?_ofBuffer (slots : Nat) {start length : Nat} {b : HeaderBuffer}
    (hle : start + length ≤ b.used) :
    (ofBuffer b).enter? slots start length = some (indexEntry slots start length) := by
  by_cases hlength : length = 0
  · simp [enter?, indexEntry, hlength]
  · have hslice := slice?_eq (Nat.le_add_right start length) hle
    rw [enter?, if_neg hlength, written?_ofBuffer]
    simp only [Option.bind_eq_bind, Option.bind_some]
    rw [hslice]
    by_cases hzero : slots = 0 <;> simp [indexEntry, hlength, hzero]

end OfBuffer

end Storage

/-! ## The capture -/

open Storage

variable {σ : Type} [Transport σ]

def captureIn (slots : Nat) (lines : List LineRange) (m : Storage) (c : σ) :
    Option (CaptureEnd × List LineRange × Storage × σ) :=
  if m.used = m.cells.length then some (.cut .lineStart, lines, m, c)
  else do
    let start := m.used
    let spare ← m.spare?
    let (line, spare, c) ← lineIn spare 0 c
    let m := m.putSpare spare
    match line with
    | .error e => some (.failed e, lines, m, c)
    | .ok (.complete length) =>
        if length = 0 then do
          let m ← m.poke? 0 0
          some (.blankLine, lines, m, c)
        else do
          let m ← m.poke? length 0
          let m ← m.advance? (length + 1)
          let entry ← m.enter? slots start length
          match slots with
          | 0 => some (.cut .lineStart, lines, m, c)
          | slots + 1 => captureIn slots (lines ++ entry) m c
    | .ok (.truncated length carry) => do
        let m ← m.advance? length
        let entry ← m.enter? slots start length
        some (.cut (.inLine carry), lines ++ entry, m, c)
    | .ok (.closed length) =>
        if length = 0 ∧ start = 0 then some (.failed .transportClosed, lines, m, c)
        else do
          let m ← m.endLine? length
          let entry ← m.enter? slots start length
          some (.closed, lines ++ entry, m, c)

/-- The line that is read into the free part stands at its front. -/
theorem lineIn_spare (b : HeaderBuffer) (c : σ) (g : Gathered σ)
    (hg : gather false b.remaining c = g) :
    lineIn b.spare 0 c =
      some (Line.ofStop g.stored.length g.stop, (b.overlay g.stored).spare, g.rest) := by
  subst hg
  exact lineIn_eq b.spare c

/-- Bytes that fit take their place among the written ones. -/
theorem used_push_concat {b : HeaderBuffer} {x : Bytes} (h : x.length + 1 ≤ b.remaining)
    (v : UInt8) : b.used + x.length ≤ (b.push (x ++ [v])).used := by
  rw [HeaderBuffer.used_push_of_fits (by simpa using h), List.length_append]
  omega

/-- **A section is captured within the storage.** -/
theorem captureIn_eq (slots : Nat) (lines : List LineRange) (buffer : HeaderBuffer) (c : σ) :
    let got := capture slots buffer c
    captureIn slots lines (ofBuffer buffer) c =
      some (got.stop, lines ++ got.lines, ofBuffer got.buffer, got.rest) := by
  fun_induction capture slots buffer c generalizing lines with
  | @case1 slots buffer c hfull =>
      rw [captureIn, if_pos ((isFull_iff buffer).1 hfull)]
      simp
  | @case2 slots buffer c hfull g f hstop =>
      have hline := lineIn_spare buffer c g rfl
      rw [captureIn, if_neg (mt (isFull_iff buffer).2 hfull)]
      simp [hline, hstop, Line.ofStop]
  | @case3 slots buffer c hfull g hstop line hblank =>
      -- the blank line: its CR is overwritten with a null byte that does not count
      have hline := lineIn_spare buffer c g rfl
      have hstored : g.stored = [cr] := by
        have hcr : g.stored = line ++ [cr] := stored_of_crlf hstop
        rwa [hblank] at hcr
      have hpoke : (ofBuffer (buffer.overlay [cr])).poke? 0 0 = _ :=
        poke?_overlay_concat buffer [] cr 0
      rw [captureIn, if_neg (mt (isFull_iff buffer).2 hfull)]
      simp [hline, hstop, hstored, Line.ofStop, hpoke]
  | @case4 buffer c hfull g hstop line hne buffer' =>
      have hline := lineIn_spare buffer c g rfl
      have hstored : g.stored = line ++ [cr] := stored_of_crlf hstop
      have hfits : line.length + 1 ≤ buffer.remaining := length_line_of_crlf hstop
      have hentered := enter?_ofBuffer 0 (used_push_concat hfits 0)
      rw [captureIn, if_neg (mt (isFull_iff buffer).2 hfull)]
      simp [hline, hstop, hstored, Line.ofStop, hne, poke?_overlay_concat,
        advance?_overlay_concat hfits, hentered, buffer']
  | @case5 buffer c hfull start g hstop line hne buffer' slots more ih =>
      -- a whole line: its CR becomes the null byte behind it, and the capture goes on
      have hline := lineIn_spare buffer c g rfl
      have hstored : g.stored = line ++ [cr] := stored_of_crlf hstop
      have hfits : line.length + 1 ≤ buffer.remaining := length_line_of_crlf hstop
      have hentered := enter?_ofBuffer (slots + 1) (used_push_concat hfits 0)
      have hmore : captureIn slots (lines ++ [⟨buffer.used, buffer.used + line.length⟩])
          (ofBuffer (buffer.push (line ++ [0]))) g.rest = _ := ih _
      rw [captureIn, if_neg (mt (isFull_iff buffer).2 hfull)]
      simp [hline, hstop, hstored, Line.ofStop, hne, poke?_overlay_concat,
        advance?_overlay_concat hfits, hentered, indexEntry, hmore, start, more]
  | @case6 slots buffer c hfull start g carry hstop =>
      have hline := lineIn_spare buffer c g rfl
      have hfits : g.stored.length ≤ buffer.remaining :=
        gather_stored_length_le false buffer.remaining c
      have hentered := enter?_ofBuffer slots
        (Nat.le_of_eq (HeaderBuffer.used_push_of_fits hfits).symm)
      rw [captureIn, if_neg (mt (isFull_iff buffer).2 hfull)]
      simp [hline, hstop, Line.ofStop, advance?_overlay hfits, hentered, start]
  | @case7 slots buffer c hfull start g hstop hnone =>
      have hline := lineIn_spare buffer c g rfl
      obtain ⟨hstored, hused⟩ : g.stored = [] ∧ buffer.used = 0 := hnone
      rw [captureIn, if_neg (mt (isFull_iff buffer).2 hfull)]
      simp [hline, hstop, Line.ofStop, hstored, hused, HeaderBuffer.overlay]
  | @case8 slots buffer c hfull start g hstop hsome line =>
      -- the peer broke the line off: there may be no cell for its null byte
      have hline := lineIn_spare buffer c g rfl
      have hfits : g.stored.length ≤ buffer.remaining :=
        gather_stored_length_le false buffer.remaining c
      have hended : (ofBuffer (buffer.overlay g.stored)).endLine? g.stored.length =
          some (ofBuffer (buffer.push line)) := endLine?_overlay hfits
      have hused : buffer.used + g.stored.length ≤ (buffer.push line).used := by
        by_cases hlt : g.stored.length < buffer.remaining
        · rw [show line = g.stored ++ [0] from if_pos hlt]
          exact used_push_concat hlt 0
        · rw [show line = g.stored from if_neg hlt]
          exact Nat.le_of_eq (HeaderBuffer.used_push_of_fits hfits).symm
      have hsent : ¬ (g.stored = [] ∧ buffer.used = 0) := hsome
      have hentered := enter?_ofBuffer slots hused
      rw [captureIn, if_neg (mt (isFull_iff buffer).2 hfull)]
      simp [hline, hstop, Line.ofStop, hsent, hended, hentered, start]

end HttpExchange.Memory
