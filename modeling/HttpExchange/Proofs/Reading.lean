import HttpExchange.Proofs.Boundary
import HttpExchange.Proofs.Peer

set_option autoImplicit false

/-! # What a line read takes

`gather` and `skipSection` over an arbitrary connection. `gather_sound` says for each stop which
bytes were taken and what is known of them; `gather_line` computes the read of a line that is
there. From the first, `skipSection_reads` says that skipping takes exactly the bytes up to the
first blank line, however the window cuts the lines.
-/

namespace HttpExchange

open Ascii

variable {σ : Type} [Transport σ]

/-! ## Lines -/

/-- What the stop of a line read says about the bytes taken, if `p` is the part of the line that
was taken before. -/
def Gathered.Sound (p : Bytes) (c : σ) (g : Gathered σ) : Prop :=
  match g.stop with
  | .crlf =>
      Takes c (g.stored ++ [lf]) g.rest ∧ ∃ line, p ++ g.stored = line ++ [cr] ∧ Unbroken line
  | .full k =>
      Takes c (g.stored ++ k.toList) g.rest ∧ Unbroken (p ++ g.stored ++ k.toList) ∧
      (k = none ↔ (p ++ g.stored).getLast? ≠ some cr)
  | .closed =>
      Unbroken (p ++ g.stored) ∧
      ∃ c₁, Takes c g.stored c₁ ∧ Transport.read c₁ 1 = (.ok [], g.rest)
  | .fault f =>
      Unbroken (p ++ g.stored) ∧
      ∃ c₁, Takes c g.stored c₁ ∧ Transport.read c₁ 1 = (.error f, g.rest)

/-- A byte stored in front of a sound read. -/
theorem Gathered.Sound.cons {p : Bytes} {b : UInt8} {c c' : σ} {g : Gathered σ}
    (hr : Takes c [b] c') (h : g.Sound (p ++ [b]) c') :
    Gathered.Sound p c { g with stored := b :: g.stored } := by
  have hp : p ++ b :: g.stored = p ++ [b] ++ g.stored := by simp
  unfold Gathered.Sound at h ⊢
  simp only [hp]
  split at h
  next => exact ⟨hr.append h.1, h.2⟩
  next => exact ⟨hr.append h.1, h.2⟩
  next =>
    obtain ⟨hu, c₁, ht, hc⟩ := h
    exact ⟨hu, c₁, hr.append ht, hc⟩
  next =>
    obtain ⟨hu, c₁, ht, hc⟩ := h
    exact ⟨hu, c₁, hr.append ht, hc⟩

theorem gather_sound {p : Bytes} {afterCr : Bool} (room : Nat) (c : σ) (hp : Unbroken p)
    (hcr : afterCr = true ↔ p.getLast? = some cr) : (gather afterCr room c).Sound p c := by
  fun_induction gather afterCr room c generalizing p with
  | case1 c f c' hr => exact ⟨by simpa using hp, c, .nil c, hr⟩
  | case2 c c' hr => exact ⟨by simpa using hp, c, .nil c, hr⟩
  | case3 c b bs c' hr =>
      -- the room ended with a CR, so the byte behind it is looked at
      by_cases hb : b = lf
      · rw [if_pos hb]
        exact ⟨hb ▸ Takes.single hr, by simpa using hp.exists_line (hcr.1 rfl)⟩
      · rw [if_neg hb]
        have hu : Unbroken (p ++ [b]) := unbroken_concat_iff.2 ⟨hp, fun h => hb h.2⟩
        exact ⟨Takes.single hr, by simpa using hu, by simpa using hcr.1 rfl⟩
  | case4 afterCr c h =>
      refine ⟨.nil c, by simpa using hp, ?_⟩
      simpa [h] using hcr
  | case5 afterCr room c f c' hr => exact ⟨by simpa using hp, c, .nil c, hr⟩
  | case6 afterCr room c c' hr => exact ⟨by simpa using hp, c, .nil c, hr⟩
  | case7 afterCr room c b bs c' hr h =>
      exact ⟨h.1 ▸ Takes.single hr, by simpa using hp.exists_line (hcr.1 h.2)⟩
  | case8 afterCr room c b bs c' hr h more =>
      -- a byte is stored, and it joins the part of the line taken before
      rename_i ih
      refine Gathered.Sound.cons (Takes.single hr) (ih ?_ (by simp))
      exact unbroken_concat_iff.2 ⟨hp, fun hb => h ⟨hb.2, hcr.2 hb.1⟩⟩

section Stops

variable {p : Bytes} {afterCr : Bool} {room : Nat} {c : σ} (hp : Unbroken p)
  (hcr : afterCr = true ↔ p.getLast? = some cr)
include hp hcr

theorem gather_of_crlf (h : (gather afterCr room c).stop = .crlf) :
    Takes c ((gather afterCr room c).stored ++ [lf]) (gather afterCr room c).rest ∧
    ∃ line, p ++ (gather afterCr room c).stored = line ++ [cr] ∧ Unbroken line := by
  have hs := gather_sound room c hp hcr
  rwa [Gathered.Sound, h] at hs

theorem gather_of_full {k : Option UInt8} (h : (gather afterCr room c).stop = .full k) :
    Takes c ((gather afterCr room c).stored ++ k.toList) (gather afterCr room c).rest ∧
    Unbroken (p ++ (gather afterCr room c).stored ++ k.toList) ∧
    (k = none ↔ (p ++ (gather afterCr room c).stored).getLast? ≠ some cr) := by
  have hs := gather_sound room c hp hcr
  rwa [Gathered.Sound, h] at hs

theorem gather_of_closed (h : (gather afterCr room c).stop = .closed) :
    Unbroken (p ++ (gather afterCr room c).stored) ∧
    ∃ c₁, Takes c (gather afterCr room c).stored c₁ ∧
      Transport.read c₁ 1 = (.ok [], (gather afterCr room c).rest) := by
  have hs := gather_sound room c hp hcr
  rwa [Gathered.Sound, h] at hs

theorem gather_of_fault {f : Fault} (h : (gather afterCr room c).stop = .fault f) :
    Unbroken (p ++ (gather afterCr room c).stored) ∧
    ∃ c₁, Takes c (gather afterCr room c).stored c₁ ∧
      Transport.read c₁ 1 = (.error f, (gather afterCr room c).rest) := by
  have hs := gather_sound room c hp hcr
  rwa [Gathered.Sound, h] at hs

end Stops

/-- A read from the start of a line that ends in a terminator gives the line. -/
theorem gather_fresh_of_crlf {room : Nat} {c : σ} (h : (gather false room c).stop = .crlf) :
    ∃ line, (gather false room c).stored = line ++ [cr] ∧ Unbroken line ∧
      Takes c (line ++ crlf) (gather false room c).rest := by
  obtain ⟨ht, line, hline, hu⟩ := gather_of_crlf unbroken_nil (by simp) h
  rw [List.nil_append] at hline
  rw [hline, List.append_assoc] at ht
  exact ⟨line, hline, hu, ht⟩

section Feed

variable {R : σ → Bytes → Prop} (hR : ByteFeed R) {room : Nat} {c : σ} {s : Bytes} (hc : R c s)
include hR hc

/-- Such a line stands at the front of the stream. -/
theorem ByteFeed.gather_crlf (h : (gather false room c).stop = .crlf) :
    ∃ line t, (gather false room c).stored = line ++ [cr] ∧ Unbroken line ∧
      s = line ++ crlf ++ t ∧ R (gather false room c).rest t := by
  obtain ⟨line, hline, hu, ht⟩ := gather_fresh_of_crlf h
  obtain ⟨t, hs, hd⟩ := ht.front hR hc
  exact ⟨line, t, hline, hu, hs, hd⟩

/-- A line that fills the room stands at the front of the stream and goes on behind the cut. -/
theorem ByteFeed.gather_full {k : Option UInt8} (h : (gather false room c).stop = .full k) :
    ∃ v, s = (gather false room c).stored ++ v ∧ Unbroken (gather false room c).stored ∧
      ¬ ((gather false room c).stored.getLast? = some cr ∧ v.head? = some lf) := by
  obtain ⟨ht, hu, hk⟩ := gather_of_full unbroken_nil (by simp) h
  obtain ⟨t, rfl, hd⟩ := ht.front hR hc
  exact ⟨k.toList ++ t, by simp, hu.of_append_left, hu.not_break_at_cut hk t⟩

/-- A stream that ends within a line read was stored whole. -/
theorem ByteFeed.gather_closed (h : (gather false room c).stop = .closed) :
    s = (gather false room c).stored ∧ Unbroken (gather false room c).stored := by
  obtain ⟨hu, c₁, ht, hread⟩ := gather_of_closed unbroken_nil (by simp) h
  obtain ⟨t, rfl, hd⟩ := ht.front hR hc
  obtain rfl := hR.close hd hread
  exact ⟨List.append_nil _, hu⟩

end Feed

/-- The read of a line that is there and fits. -/
theorem gather_line {p line : Bytes} {afterCr : Bool} {room : Nat} {c c' : σ}
    (h : Takes c (line ++ crlf) c') (hp : Unbroken (p ++ line))
    (hcr : afterCr = true ↔ p.getLast? = some cr) (hroom : line.length < room) :
    gather afterCr room c = ⟨.crlf, line ++ [cr], c'⟩ := by
  induction line generalizing p afterCr room c with
  | nil =>
      obtain ⟨room, rfl⟩ := Nat.exists_eq_add_one_of_ne_zero (Nat.ne_of_gt hroom)
      rcases h with _ | ⟨hr, _ | ⟨hr', ⟨⟩⟩⟩
      rw [gather, hr]
      simp only [cr_ne_lf, false_and, if_false, decide_true, List.nil_append]
      cases room with
      | zero => simp [gather, hr']
      | succ room => simp [gather, hr']
  | cons b line ih =>
      obtain ⟨room, rfl⟩ : ∃ n, room = n + 1 :=
        Nat.exists_eq_add_one_of_ne_zero (Nat.ne_of_gt (Nat.zero_lt_of_lt hroom))
      rcases h with _ | ⟨hr, h⟩
      have hp' : Unbroken (p ++ [b] ++ line) := by simpa using hp
      have hb := (unbroken_concat_iff.1 hp'.of_append_left).2
      -- the line is unbroken, so this byte does not end it
      have hstop : ¬ (b = lf ∧ afterCr = true) := fun h' => hb ⟨hcr.1 h'.2, h'.1⟩
      rw [gather, hr]
      simp only [hstop, if_false]
      rw [ih h hp' (by simp) (Nat.lt_of_succ_lt_succ hroom)]
      rfl

/-! ## Sections -/

/-- One-byte reads lead from `c` to `c'`: up to the place that `after?` names, if it was
`found`, and up to the close of the peer otherwise. -/
def ReadsTo (after? : Bytes → Option Bytes) (found : Bool) (c c' : σ) : Prop :=
  match found with
  | true => ∃ u, Takes c u c' ∧ ∀ v, after? (u ++ v) = some v
  | false =>
      ∃ u c₁, Takes c u c₁ ∧ Transport.read c₁ 1 = (.ok [], c') ∧ after? u = none

/-- Bytes taken before the rest of the way. -/
theorem ReadsTo.step {f g : Bytes → Option Bytes} {found : Bool} {c c₁ c' : σ} {u : Bytes}
    (ht : Takes c u c₁) (hfg : ∀ v, f (u ++ v) = g v) (h : ReadsTo g found c₁ c') :
    ReadsTo f found c c' := by
  cases found with
  | true =>
      obtain ⟨w, hw, hg⟩ := h
      exact ⟨u ++ w, ht.append hw, fun v => by rw [List.append_assoc, hfg, hg]⟩
  | false =>
      obtain ⟨w, c₂, hw, hc, hg⟩ := h
      exact ⟨u ++ w, c₂, ht.append hw, hc, by rw [hfg, hg]⟩

/-- What is left of the stream behind such reads. -/
theorem ReadsTo.feed {after? : Bytes → Option Bytes} {found : Bool} {c c' : σ} {s : Bytes}
    (h : ReadsTo after? found c c') {R : σ → Bytes → Prop} (hR : Feed R) (hc : R c s) :
    found = (after? s).isSome ∧ R c' ((after? s).getD []) := by
  cases found with
  | true =>
      obtain ⟨u, ht, hu⟩ := h
      obtain ⟨t, rfl, hd⟩ := ht.feed hR hc
      rw [hu]
      exact ⟨rfl, hd⟩
  | false =>
      obtain ⟨u, c₁, ht, hread, hu⟩ := h
      obtain ⟨t, rfl, hd⟩ := ht.feed hR hc
      obtain ⟨hnil, t', ht', hd'⟩ := hR.read_ok hd Nat.one_pos hread
      obtain rfl := hnil rfl
      obtain rfl := ht'
      rw [List.append_nil, hu]
      exact ⟨rfl, hd'⟩

/-- The calls of such reads, and what is left of a stream that may have faults. -/
theorem ReadsTo.calls {after? : Bytes → Option Bytes} {found : Bool} {l l' : Logged σ} {s : Bytes}
    (h : ReadsTo after? found l l') (hs : Sends l.inner s) :
    ∃ taken, s = taken ++ (after? s).getD [] ∧
      l'.calls = l.calls ++ taken.map .take ++
        (if (after? s).isSome then [] else [.read 1 (.ok [])]) ∧
      Sends l'.inner ((after? s).getD []) := by
  cases found with
  | true =>
      obtain ⟨u, ht, hu⟩ := h
      obtain ⟨ht, hcalls⟩ := ht.calls
      obtain ⟨t, rfl, hsends⟩ := ht.feed sends_feed hs
      rw [hu, Option.getD_some]
      exact ⟨u, rfl, by simp [hcalls], hsends⟩
  | false =>
      obtain ⟨u, l₁, ht, hread, hu⟩ := h
      obtain ⟨ht, hcalls⟩ := ht.calls
      obtain ⟨t, rfl, hsends⟩ := ht.feed sends_feed hs
      obtain ⟨hinner, hclose⟩ := Logged.of_note hread
      -- the read that gave nothing saw the close, so nothing is left behind `u`
      obtain ⟨hnil, t', ht', hsends'⟩ := sends_feed.read_ok hsends Nat.one_pos hinner
      obtain rfl := hnil rfl
      obtain rfl := ht'
      rw [List.append_nil, hu]
      exact ⟨u, (List.append_nil u).symm, by simp [hcalls, hclose], hsends'⟩

/-- Behind a full window the section goes on, within the line that the window ended in. -/
theorem gather_window {pos : Position} {c : σ} {k : Option UInt8}
    (h : (gather pos.afterCr pos.room c).stop = .full k) :
    ∃ u, Takes c u (gather pos.afterCr pos.room c).rest ∧
      ∀ v, pos.after? (u ++ v) = (Position.inLine k).after? v := by
  obtain ⟨ht, hu, hk⟩ := gather_of_full pos.unbroken_taken pos.afterCr_iff h
  have hroom : 0 < pos.room := by unfold Position.room skipWindow; split <;> omega
  have hne : (gather pos.afterCr pos.room c).stored ≠ [] := by
    intro hnil
    have hlen := gather_stored_length_of_full h
    rw [hnil] at hlen
    exact absurd hlen (Nat.ne_of_lt hroom)
  exact ⟨_, ht, Position.after?_full hne hu hk⟩

/-- Behind a window that ended with a line, the section is over or goes on with the next line. -/
theorem gather_window_crlf {pos : Position} {c : σ}
    (h : (gather pos.afterCr pos.room c).stop = .crlf) :
    ∃ u, Takes c u (gather pos.afterCr pos.room c).rest ∧ ∀ v, pos.after? (u ++ v) =
      if pos = .lineStart ∧ (gather pos.afterCr pos.room c).stored = [cr] then some v
      else afterBlankLine? v := by
  obtain ⟨ht, line, hline, hu⟩ := gather_of_crlf pos.unbroken_taken pos.afterCr_iff h
  exact ⟨_, ht, Position.after?_crlf hline hu⟩

/-- Skipping reads up to the first blank line, wherever it starts and however its window cuts
the lines. -/
theorem skipSection_reads {pos : Position} {c c' : σ} {found : Bool}
    (h : skipSection pos c = (.ok found, c')) : ReadsTo pos.after? found c c' := by
  fun_induction skipSection pos c with
  | case1 pos c g f hstop => cases h
  | case2 pos c g hstop =>
      cases h
      obtain ⟨hu, c₁, ht, hc⟩ := gather_of_closed pos.unbroken_taken pos.afterCr_iff hstop
      exact ⟨g.stored, c₁, ht, hc, Position.after?_eq_none hu⟩
  | case3 pos c g k hstop ih =>
      -- the window is full, and the line goes on in the next one
      obtain ⟨u, ht, hafter⟩ := gather_window hstop
      exact .step ht hafter (ih h)
  | case4 pos c g hstop hblank =>
      cases h
      obtain ⟨u, ht, hafter⟩ := gather_window_crlf hstop
      exact ⟨u, ht, fun v => by rw [hafter, if_pos hblank]⟩
  | case5 pos c g hstop hblank ih =>
      -- the end of a line that is not blank
      obtain ⟨u, ht, hafter⟩ := gather_window_crlf hstop
      exact .step ht (fun v => by rw [hafter, if_neg hblank, Position.after?]) (ih h)

/-- Skipping fails at a read that fails, in front of the end of the blank line. -/
theorem skipSection_error {pos : Position} {c c' : σ} {e : Error}
    (h : skipSection pos c = (.error e, c')) :
    ∃ u c₁ f, Takes c u c₁ ∧ Transport.read c₁ 1 = (.error f, c') ∧ e = .ofFault f ∧
      pos.after? u = none := by
  fun_induction skipSection pos c with
  | case1 pos c g f hstop =>
      cases h
      obtain ⟨hu, c₁, ht, hread⟩ := gather_of_fault pos.unbroken_taken pos.afterCr_iff hstop
      exact ⟨g.stored, c₁, f, ht, hread, rfl, Position.after?_eq_none hu⟩
  | case2 pos c g hstop => cases h
  | case3 pos c g k hstop ih =>
      -- the window is full, and the fault comes behind it
      obtain ⟨u, ht, hafter⟩ := gather_window hstop
      obtain ⟨v, c₁, f, hv, hread, he, hnone⟩ := ih h
      exact ⟨u ++ v, c₁, f, ht.append hv, hread, he, by rw [hafter, hnone]⟩
  | case4 pos c g hstop hblank => cases h
  | case5 pos c g hstop hblank ih =>
      obtain ⟨u, ht, hafter⟩ := gather_window_crlf hstop
      obtain ⟨v, c₁, f, hv, hread, he, hnone⟩ := ih h
      exact ⟨u ++ v, c₁, f, ht.append hv, hread, he, by
        rw [hafter, if_neg hblank]
        exact hnone⟩

/-- Faults never count as malformed input. -/
theorem Error.ofFault_ne_parse (f : Fault) : Error.ofFault f ≠ .parse := by
  cases f <;> simp [Error.ofFault]

/-- Skipping a section that arrives without pauses, as far as its blank line, is a plain search for
that line. -/
theorem skipSection_pauses {pause : Bytes → Prop} {pos : Position} {c : σ} {s : Bytes}
    (hc : Pauses pause c s) (hq : ∀ u t, s = u ++ t → pause t → (pos.after? u).isSome) :
    ∃ c', skipSection pos c = (.ok (pos.after? s).isSome, c') ∧
      Pauses pause c' ((pos.after? s).getD []) := by
  cases h : skipSection pos c with
  | mk answer c' =>
      cases answer with
      | error e =>
          obtain ⟨u, c₁, f, ht, hread, -, hnone⟩ := skipSection_error h
          obtain ⟨t, hs, hd⟩ := ht.feed (pauses_feed pause).toFeed hc
          obtain ⟨-, hp⟩ := (pauses_feed pause).pause_of_error hd Nat.one_pos hread
          have hsome := hq u t hs hp
          rw [hnone] at hsome
          cases hsome
      | ok found =>
          obtain ⟨rfl, hd⟩ := (skipSection_reads h).feed (pauses_feed pause).toFeed hc
          exact ⟨c', rfl, hd⟩

/-- Skipping a section that arrives without faults is a plain search for its blank line. -/
theorem skipSection_delivers (pos : Position) {c : σ} {s : Bytes} (hc : Delivers c s) :
    ∃ c', skipSection pos c = (.ok (pos.after? s).isSome, c') ∧
      Delivers c' ((pos.after? s).getD []) := by
  obtain ⟨c', hskip, hd⟩ := skipSection_pauses (delivers_iff_pauses.1 hc) fun _ _ _ => False.elim
  exact ⟨c', hskip, delivers_iff_pauses.2 hd⟩

end HttpExchange
