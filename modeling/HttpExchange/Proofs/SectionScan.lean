import HttpExchange.Proofs.Reading
import Mathlib.Data.Nat.Find

set_option autoImplicit false

/-! # Skipping a section is a plain scan

`Position.Ends` says of the bytes taken from a position whether the section is over behind them, and
`scanSection` takes bytes one at a time until that is so. The scan keeps all that it took and has no
window. `skipSection_eq_scan` says that on every connection, failing ones included, skipping a
section does what the scan does; with that, `skipSection_scans` gives for each stream how far it
goes. -/

namespace HttpExchange

open Ascii

/-! ## Where a section ends -/

/-- Bytes that end with the token hold it, so the search for it does not get past them. -/
theorem afterFirst?_of_suffix {t w : Bytes} (h : t <:+ w) (x : Bytes) :
    ∃ y, afterFirst? t (w ++ x) = some (y ++ x) := by
  induction w with
  | nil =>
      obtain rfl := List.suffix_nil.1 h
      exact ⟨[], afterFirst?_append_self [] x⟩
  | cons b w ih =>
      rw [List.cons_append]
      by_cases hfront : t <+: b :: (w ++ x)
      · have hw : t <+: b :: w :=
          List.prefix_of_prefix_length_le hfront (List.prefix_append (b :: w) x) h.length_le
        obtain ⟨y, hy⟩ := hw
        rw [← List.cons_append, ← hy, List.append_assoc]
        exact ⟨y, afterFirst?_append_self t (y ++ x)⟩
      · rw [afterFirst?_cons hfront]
        rcases List.suffix_cons_iff.1 h with rfl | htail
        · exact absurd (List.prefix_append (b :: w) x) hfront
        · exact ih htail

namespace Position

/-- The section is over behind these bytes, taken from the position: they are the blank line at
which it began, or an empty line stands at their end. A byte of the current line that was put back
stands in front of them. -/
def Ends (pos : Position) (u : Bytes) : Prop :=
  (pos = lineStart ∧ u = crlf) ∨ crlf ++ crlf <:+ pos.taken ++ u

instance (pos : Position) (u : Bytes) : Decidable (pos.Ends u) :=
  inferInstanceAs (Decidable (_ ∨ _))

/-- The section is over behind these bytes, and not sooner. -/
def EndsFirst (pos : Position) (u : Bytes) : Prop :=
  pos.Ends u ∧ ∀ n < u.length, ¬ pos.Ends (u.take n)

instance (pos : Position) (u : Bytes) : Decidable (pos.EndsFirst u) :=
  inferInstanceAs (Decidable (_ ∧ _))

theorem not_ends_nil (pos : Position) : ¬ pos.Ends [] := by
  rintro (⟨-, h⟩ | h)
  · simp [crlf] at h
  · have hlen := h.length_le
    cases pos with
    | lineStart => simp [taken, crlf] at hlen
    | inLine k => cases k <;> simp [taken, crlf] at hlen

/-- Where a section is over, the search for what follows it has come to an end. -/
theorem Ends.after? {pos : Position} {u : Bytes} (h : pos.Ends u) (v : Bytes) :
    ∃ y, pos.after? (u ++ v) = some (y ++ v) := by
  cases pos with
  | lineStart =>
      rcases h with ⟨-, rfl⟩ | h
      · exact ⟨[], afterBlankLine?_crlf v⟩
      · change crlf ++ crlf <:+ u at h
        by_cases hfront : crlf <+: u ++ v
        · -- the blank line at the front is shorter than the empty line at the end
          have hle : crlf.length ≤ u.length :=
            Nat.le_trans (List.suffix_append crlf crlf).length_le h.length_le
          obtain ⟨y, rfl⟩ :=
            List.prefix_of_prefix_length_le hfront (List.prefix_append u v) hle
          rw [List.append_assoc]
          exact ⟨y, afterBlankLine?_crlf (y ++ v)⟩
        · rw [Position.after?, afterBlankLine?_eq hfront]
          exact afterFirst?_of_suffix h v
  | inLine k =>
      rcases h with ⟨h, -⟩ | h
      · cases h
      · rw [Position.after?, ← List.append_assoc]
        exact afterFirst?_of_suffix h v

/-- Where the search for what follows the section comes to its end with the bytes, it is over. -/
theorem ends_of_after? {pos : Position} {u : Bytes} (h : pos.after? u = some []) : pos.Ends u := by
  cases pos with
  | lineStart =>
      by_cases hfront : crlf <+: u
      · obtain ⟨v, rfl⟩ := hfront
        have hsome : afterBlankLine? (crlf ++ v) = some v := afterBlankLine?_crlf v
        rw [Position.after?, hsome] at h
        cases h
        exact .inl ⟨rfl, List.append_nil crlf⟩
      · rw [Position.after?, afterBlankLine?_eq hfront] at h
        obtain ⟨w, rfl⟩ := afterFirst?_eq_some h
        rw [List.append_nil]
        exact .inr (List.suffix_append w _)
  | inLine k =>
      obtain ⟨w, hw⟩ := afterFirst?_eq_some h
      refine .inr ⟨w, ?_⟩
      rw [List.append_nil] at hw
      exact hw.symm

theorem not_ends_take {pos : Position} {u : Bytes} (h : pos.after? u = none) (n : Nat) :
    ¬ pos.Ends (u.take n) := by
  intro hends
  obtain ⟨y, hy⟩ := hends.after? (u.drop n)
  rw [List.take_append_drop, h] at hy
  cases hy

theorem endsFirst_of_after? {pos : Position} {u : Bytes} (h : pos.after? u = some []) :
    pos.EndsFirst u := by
  refine ⟨ends_of_after? h, fun n hn hends => ?_⟩
  obtain ⟨y, hy⟩ := hends.after? (u.drop n)
  rw [List.take_append_drop, h] at hy
  have hdrop : u.drop n = [] := (List.append_eq_nil_iff.1 (Option.some.inj hy).symm).2
  rw [List.drop_eq_nil_iff] at hdrop
  exact Nat.not_le_of_lt hn hdrop

/-- If the section is over somewhere in the stream, there is a place where it is over first. -/
theorem exists_endsFirst {pos : Position} {s : Bytes} {n : Nat} (h : pos.Ends (s.take n)) :
    ∃ u, u <+: s ∧ pos.EndsFirst u := by
  have hex : ∃ n, pos.Ends (s.take n) := ⟨n, h⟩
  refine ⟨s.take (Nat.find hex), List.take_prefix _ s, Nat.find_spec hex, fun m hm => ?_⟩
  rw [List.length_take] at hm
  have hlt : m < Nat.find hex := Nat.lt_of_lt_of_le hm (Nat.min_le_left _ _)
  rw [List.take_take, Nat.min_eq_left (Nat.le_of_lt hlt)]
  exact Nat.find_min hex hlt

end Position

/-! ## The plain scan -/

variable {σ : Type} [Transport σ]

/-- Takes bytes off the connection one at a time, behind those taken so far, until the section is
over behind them all. The answer is `false` if the peer closed before that. -/
def scanSection (pos : Position) (taken : Bytes) (c : σ) : Except Error Bool × σ :=
  match _h : Transport.read c 1 with
  | (.error f, c') => (.error (.ofFault f), c')
  | (.ok [], c') => (.ok false, c')
  | (.ok (b :: _), c') =>
      if pos.Ends (taken ++ [b]) then (.ok true, c') else scanSection pos (taken ++ [b]) c'
termination_by Transport.supply c
decreasing_by
  have := Transport.supply_read _h
  simp only [List.length_cons] at this
  omega

section Scan

variable {pos : Position} {taken : Bytes} {c c' : σ}

theorem scanSection_error {f : Fault} (hr : Transport.read c 1 = (.error f, c')) :
    scanSection pos taken c = (.error (.ofFault f), c') := by
  rw [scanSection]
  split <;> simp_all

theorem scanSection_closed (hr : Transport.read c 1 = (.ok [], c')) :
    scanSection pos taken c = (.ok false, c') := by
  rw [scanSection]
  split <;> simp_all

theorem scanSection_byte {b : UInt8} (hr : Transport.read c 1 = (.ok [b], c')) :
    scanSection pos taken c =
      if pos.Ends (taken ++ [b]) then (.ok true, c') else scanSection pos (taken ++ [b]) c' := by
  rw [scanSection]
  split <;> simp_all

/-- The scan goes past bytes behind which the section is not over. -/
theorem Takes.scanSection_append {u : Bytes} (ht : Takes c u c')
    (h : ∀ n ≤ u.length, ¬ pos.Ends (taken ++ u.take n)) :
    scanSection pos taken c = scanSection pos (taken ++ u) c' := by
  induction ht generalizing taken with
  | nil c => rw [List.append_nil]
  | @cons c c₁ c₂ b u hr _ ih =>
      -- the byte joins those that the scan has kept
      have hb : ¬ pos.Ends (taken ++ [b]) := h 1 (by simp)
      rw [scanSection_byte hr, if_neg hb, ih, List.append_assoc]
      · rfl
      · intro n hn
        rw [List.append_assoc]
        exact h (n + 1) (Nat.succ_le_succ hn)

/-- A scan that takes the bytes behind which the section is over first ends there. -/
theorem Takes.scanSection_endsFirst {u : Bytes} (ht : Takes c u c') (h : pos.EndsFirst u) :
    scanSection pos [] c = (.ok true, c') := by
  obtain ⟨hends, hfirst⟩ := h
  rcases u.eq_nil_or_concat' with rfl | ⟨u, b, rfl⟩
  · exact absurd hends pos.not_ends_nil
  · obtain ⟨c₁, hu, hb⟩ := ht.of_append
    rcases hb with _ | ⟨hr, ⟨⟩⟩
    rw [hu.scanSection_append, scanSection_byte hr, List.nil_append, if_pos hends]
    intro n hn hends'
    rw [List.nil_append] at hends'
    refine hfirst n (by simpa using Nat.lt_succ_of_le hn) ?_
    rwa [List.take_append_of_le_length hn]

end Scan

/-- Skipping a section and the plain scan do the same on every connection. -/
theorem skipSection_eq_scan (pos : Position) (c : σ) :
    skipSection pos c = scanSection pos [] c := by
  rcases h : skipSection pos c with ⟨e | found, c'⟩
  · -- the read that fails stands behind bytes that do not end the section
    obtain ⟨u, c₁, f, ht, hr, rfl, hnone⟩ := skipSection_error h
    rw [ht.scanSection_append fun n _ => Position.not_ends_take hnone n, scanSection_error hr]
  · cases found with
    | true =>
        obtain ⟨u, ht, hafter⟩ := skipSection_reads h
        have hsome := hafter []
        rw [List.append_nil] at hsome
        exact (ht.scanSection_endsFirst (Position.endsFirst_of_after? hsome)).symm
    | false =>
        obtain ⟨u, c₁, ht, hr, hnone⟩ := skipSection_reads h
        rw [ht.scanSection_append fun n _ => Position.not_ends_take hnone n, scanSection_closed hr]

/-- **Skipping a section is a plain scan for its blank line.** On every connection, skipping does
what a scan does that takes one byte after the other and stops when all that it took ends the
section; no window comes into that. If a peer sends `s` and then closes, in reads of any sizes, then
skipping answers `true` and takes the bytes behind which the section is over first; if there are
none, it answers `false` and takes the whole stream. -/
theorem skipSection_scans (pos : Position) (c : σ) :
    skipSection pos c = scanSection pos [] c ∧
    ∀ s, Delivers c s →
      (∀ u v, s = u ++ v → pos.EndsFirst u →
        ∃ c', skipSection pos c = (.ok true, c') ∧ Takes c u c' ∧ Delivers c' v) ∧
      ((∀ u, u <+: s → ¬ pos.EndsFirst u) →
        ∃ c₁ c', skipSection pos c = (.ok false, c') ∧ Takes c s c₁ ∧
          Transport.read c₁ 1 = (.ok [], c') ∧ Delivers c' []) := by
  refine ⟨skipSection_eq_scan pos c, fun s hc => ⟨?_, fun hnone => ?_⟩⟩
  · rintro u v rfl hfirst
    obtain ⟨c', ht, hd⟩ := hc.takes
    refine ⟨c', ?_, ht, hd⟩
    rw [skipSection_eq_scan, ht.scanSection_endsFirst hfirst]
  · -- nothing ends the section, so the scan runs into the close
    have hends : ∀ n, ¬ pos.Ends (s.take n) := by
      intro n hn
      obtain ⟨u, hu, hfirst⟩ := Position.exists_endsFirst hn
      exact hnone u hu hfirst
    rw [← List.append_nil s] at hc
    obtain ⟨c₁, ht, hd⟩ := hc.takes
    obtain ⟨c', hr, hd'⟩ := hd.read_nil Nat.one_pos
    refine ⟨c₁, c', ?_, ht, hr, hd'⟩
    rw [skipSection_eq_scan, ht.scanSection_append fun n _ => hends n, scanSection_closed hr]

/-- A line of the size of the window, and the blank line behind it. The window ends with the last
letter, so that nothing of the line but its terminator is left for the next one. -/
def windowLine : Script where
  steps := [.data (List.replicate skipWindow 97 ++ crlf), .data (crlf ++ Text.encode "ok")]

def behindCr : Script where
  steps := [.data [lf], .data (crlf ++ Text.encode "ok")]

def openSection : Script where
  steps := [.data (Text.encode "A: 1"), .data crlf]

/-- The remainder of the wide line does not pass for the blank line, a CR that was put back counts,
and a section that is not over is taken whole. -/
theorem skipSection_scans_edges :
    Delivers windowLine windowLine.stream ∧
    (∃ c', skipSection .lineStart windowLine = (.ok true, c') ∧
      Takes windowLine (List.replicate skipWindow 97 ++ crlf ++ crlf) c' ∧
      Delivers c' (Text.encode "ok")) ∧
    (∃ c', skipSection (.inLine (some cr)) behindCr = (.ok true, c') ∧
      Takes behindCr (lf :: crlf) c' ∧ Delivers c' (Text.encode "ok")) ∧
    ∃ c₁ c', skipSection .lineStart openSection = (.ok false, c') ∧
      Takes openSection openSection.stream c₁ ∧ Transport.read c₁ 1 = (.ok [], c') ∧
      Delivers c' [] := by
  have hwindow : Delivers windowLine windowLine.stream := Script.Steady.delivers (by decide +kernel)
  have hcr : Delivers behindCr behindCr.stream := Script.Steady.delivers (by decide)
  have hopen : Delivers openSection openSection.stream :=
    Script.Steady.delivers (by decide +kernel)
  obtain ⟨hfound, -⟩ := (skipSection_scans .lineStart windowLine).2 _ hwindow
  obtain ⟨hfound', -⟩ := (skipSection_scans (.inLine (some cr)) behindCr).2 _ hcr
  obtain ⟨-, hnone⟩ := (skipSection_scans .lineStart openSection).2 _ hopen
  refine ⟨hwindow, hfound _ _ (by decide +kernel) (by decide +kernel),
    hfound' _ _ (by decide +kernel) (by decide +kernel), hnone ?_⟩
  have hends : ∀ n ≤ openSection.stream.length,
      ¬ Position.Ends .lineStart (openSection.stream.take n) := by
    decide +kernel
  rintro u hu ⟨hend, -⟩
  rw [List.prefix_iff_eq_take.1 hu] at hend
  exact hends _ hu.length_le hend

end HttpExchange
