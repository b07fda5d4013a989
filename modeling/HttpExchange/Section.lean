import HttpExchange.Line

set_option autoImplicit false

/-! # Sections

A header section or a trailer section is a run of lines up to the first blank one.
`skipSection` takes the rest of a section off the connection with a window of fixed size, so a
line of any length can be skipped: a line that fills the window is taken up again in the next
one, and a byte that was looked at after a CR in the last slot is put back in front. -/

namespace HttpExchange

def skipWindow : Nat := 64

/-- Where a connection stands within a section. -/
inductive Position
  /-- At the start of a line. -/
  | lineStart
  /-- Inside a line, after the byte `carry` if there is one. -/
  | inLine (carry : Option UInt8)
  deriving DecidableEq

namespace Position

def afterCr : Position → Bool
  | inLine (some b) => b = Ascii.cr
  | _ => false

/-- The room that the window has left: a byte put back takes one slot. -/
def room : Position → Nat
  | inLine (some _) => skipWindow - 1
  | _ => skipWindow

end Position

variable {σ : Type} [Transport σ]

/-- A window that ends a line, or fills up, takes something off the supply. -/
theorem gather_progress {pos : Position} {c : σ}
    (h : (gather pos.afterCr pos.room c).stop = .crlf ∨
      ∃ k, (gather pos.afterCr pos.room c).stop = .full k) :
    Transport.supply (gather pos.afterCr pos.room c).rest < Transport.supply c := by
  have hs := @supply_gather σ _ pos.afterCr pos.room c (by
    intro f hf
    rcases h with h | ⟨k, h⟩ <;> rw [h] at hf <;> cases hf)
  rcases h with h | ⟨k, h⟩
  · rw [h] at hs
    simp only [Stop.unstored] at hs
    omega
  · have hl := gather_stored_length_of_full h
    have hr : 0 < pos.room := by
      unfold Position.room skipWindow
      split <;> omega
    omega

/-- Takes the section's lines up to and including its blank line off the connection. The
answer is `false` if the peer closed before the blank line. The line that the skipping starts
within never counts as blank. -/
def skipSection (pos : Position) (c : σ) : Except Error Bool × σ :=
  let g := gather pos.afterCr pos.room c
  match _h : g.stop with
  | .fault f => (.error (.ofFault f), g.rest)
  | .closed => (.ok false, g.rest)
  | .full carry => skipSection (.inLine carry) g.rest
  | .crlf =>
      if pos = .lineStart ∧ g.stored = [Ascii.cr] then (.ok true, g.rest)
      else skipSection .lineStart g.rest
termination_by Transport.supply c
decreasing_by
  · exact gather_progress (.inr ⟨_, _h⟩)
  · exact gather_progress (.inl _h)

end HttpExchange
