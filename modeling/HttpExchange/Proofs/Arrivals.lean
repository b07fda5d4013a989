import HttpExchange.Proofs.CapturedTable

set_option autoImplicit false

/-! # What arrives, and what is answered to it

A response header is read one byte at a time, so what decides the answer is what one-byte reads
give until one of them gives no byte: the bytes, and the fault if that read has failed
(`arrivals`). The storage decides which of the lines are kept, and so whether they can be
interpreted, but a fault or a close counts the same wherever in the section it comes
(`readHead_answers`). -/

namespace HttpExchange

/-- What one-byte reads give until the first that gives no byte. -/
structure Arrivals where
  /-- The bytes in front of it. -/
  bytes : Bytes
  /-- The fault by which it failed; a read that does not fail and gives no byte tells the close. -/
  fault? : Option Fault
  deriving DecidableEq

variable {σ : Type} [Transport σ]

def arrivals (c : σ) : Arrivals :=
  match _h : Transport.read c 1 with
  | (.error f, _) => ⟨[], some f⟩
  | (.ok [], _) => ⟨[], none⟩
  | (.ok (b :: _), c') => ⟨b :: (arrivals c').bytes, (arrivals c').fault?⟩
termination_by Transport.supply c
decreasing_by
  have := Transport.supply_read _h
  simp only [List.length_cons] at this
  omega

/-! ## One byte at a time -/

theorem arrivals_fault {c c' : σ} {f : Fault} (hr : Transport.read c 1 = (.error f, c')) :
    arrivals c = ⟨[], some f⟩ := by
  unfold arrivals
  split
  next h => cases hr.symm.trans h; rfl
  next h => cases hr.symm.trans h
  next h => cases hr.symm.trans h

theorem arrivals_close {c c' : σ} (hr : Transport.read c 1 = (.ok [], c')) :
    arrivals c = ⟨[], none⟩ := by
  unfold arrivals
  split
  next h => cases hr.symm.trans h
  next h => rfl
  next h => cases hr.symm.trans h

theorem arrivals_take {c c' : σ} {b : UInt8} (hr : Transport.read c 1 = (.ok [b], c')) :
    arrivals c = ⟨b :: (arrivals c').bytes, (arrivals c').fault?⟩ := by
  rw [arrivals]
  split
  next h => cases hr.symm.trans h
  next h => cases hr.symm.trans h
  next h => cases hr.symm.trans h; rfl

theorem read_of_silent {c : σ} (h : arrivals c = ⟨[], none⟩) :
    ∃ c', Transport.read c 1 = (.ok [], c') := by
  rcases hr : Transport.read c 1 with ⟨f | bs, c'⟩
  · rw [arrivals_fault hr] at h
    cases h
  · cases bs with
    | nil => exact ⟨c', rfl⟩
    | cons b bs =>
        obtain rfl := eq_nil_of_read_one hr
        rw [arrivals_take hr] at h
        cases h

theorem Takes.arrivals {c c' : σ} {u : Bytes} (h : Takes c u c') :
    arrivals c = ⟨u ++ (arrivals c').bytes, (arrivals c').fault?⟩ := by
  induction h with
  | nil => rfl
  | cons hr _ ih => rw [arrivals_take hr, ih]; rfl

/-- The bytes that arrive are the ones to come, one byte at a time. -/
theorem arrivals_byteFeed : ByteFeed fun (c : σ) s => (arrivals c).bytes = s where
  take := by
    rintro c c' s b rfl hr
    exact ⟨_, congrArg Arrivals.bytes (arrivals_take hr), rfl⟩
  close := by
    rintro c c' s rfl hr
    exact congrArg Arrivals.bytes (arrivals_close hr)

/-- A log makes no difference. -/
theorem arrivals_logged (l : Logged σ) : arrivals l = arrivals l.inner := by
  fun_induction arrivals l with
  | case1 l f l' hr => exact (arrivals_fault (Logged.of_note hr).1).symm
  | case2 l l' hr => exact (arrivals_close (Logged.of_note hr).1).symm
  | case3 l b bs l' hr ih =>
      obtain rfl := eq_nil_of_read_one hr
      rw [arrivals_take (Logged.of_note hr).1, ih]

/-- A stream without faults arrives whole. -/
theorem Delivers.arrivals {c : σ} {s : Bytes} (h : Delivers c s) : arrivals c = ⟨s, none⟩ := by
  have h' : Delivers c (s ++ []) := by rwa [List.append_nil]
  obtain ⟨c', ht, hnil⟩ := h'.takes
  obtain ⟨c'', hr, -⟩ := hnil.read_nil Nat.one_pos
  rw [ht.arrivals, arrivals_close hr, List.append_nil]

/-! ## The answer -/

/-- The lines that storage of this size keeps of the section have a status code and a framing. -/
def Legible (capacity : Nat) (s : Bytes) (status : Nat) (framing : Framing) : Prop :=
  parseStatus (table (storedLines capacity s)) = .ok status ∧
    parseFraming (.ofLines (indexedLines capacity s)) = .ok framing

/-- The section is over: its blank line arrives, or the peer closes. -/
def Arrivals.Through (got : Arrivals) : Prop :=
  (afterBlankLine? got.bytes).isSome ∨ got.fault? = none

/-- A read fails with the fault in front of the blank line. -/
def Arrivals.BreaksOff (got : Arrivals) (f : Fault) : Prop :=
  got.fault? = some f ∧ afterBlankLine? got.bytes = none

/-- A section that is over was not broken off. -/
theorem Arrivals.Through.not_breaksOff {got : Arrivals} (h : got.Through) (f : Fault) :
    ¬ got.BreaksOff f := by
  rintro ⟨hfault, hnone⟩
  rcases h with hsome | hclose
  · rw [hnone] at hsome
    cases hsome
  · rw [hclose] at hfault
    cases hfault

/-- The answers to what arrives: a fault in front of the blank line is told as it is, a peer that
closes without a word counts as gone, and the lines of a section that is over are interpreted.
Storage without any room cannot tell a silent peer from an empty section. -/
inductive Answers (capacity : Nat) (got : Arrivals) : Except Error ResponseHead → Prop
  | fault {f : Fault} (hbroken : got.BreaksOff f) : Answers capacity got (.error (.ofFault f))
  | silence (hsilent : got = ⟨[], none⟩) (hroom : capacity ≠ 0) :
      Answers capacity got (.error .transportClosed)
  | malformed (hover : got.Through) (hsome : got = ⟨[], none⟩ → capacity = 0)
      (hlines : ∀ status framing, ¬ Legible capacity got.bytes status framing) :
      Answers capacity got (.error .parse)
  | head (hover : got.Through) (hsome : got = ⟨[], none⟩ → capacity = 0) {head : ResponseHead}
      (hlines : Legible capacity got.bytes head.status head.framing) :
      Answers capacity got (.ok head)

/-- An interpretation fails if and only if a status code or a framing is missing. -/
theorem interpret_answers {buffer : HeaderBuffer} {lines : List LineRange} {complete : Bool}
    {capacity : Nat} {got : Arrivals} (hover : got.Through)
    (hsome : got = ⟨[], none⟩ → capacity = 0)
    (hstatus : parseStatus buffer.written = parseStatus (table (storedLines capacity got.bytes)))
    (hframing : parseFraming ⟨buffer.written, lines⟩ =
      parseFraming (.ofLines (indexedLines capacity got.bytes))) :
    Answers capacity got (interpret buffer lines complete) := by
  cases hanswer : interpret buffer lines complete with
  | ok head =>
      obtain ⟨hs, hf, -, -⟩ := interpret_eq_ok_iff.1 hanswer
      exact .head hover hsome ⟨hstatus ▸ hs, hframing ▸ hf⟩
  | error e =>
      obtain rfl : e = .parse := interpret_error hanswer
      refine .malformed hover hsome fun status framing hlines => ?_
      have hok := @interpret_eq_ok_iff buffer lines complete ⟨status, framing, complete, lines⟩
      rw [hanswer] at hok
      cases hok.2 ⟨hstatus.trans hlines.1, hframing.trans hlines.2, rfl, rfl⟩

/-- A section that was read through is over. -/
theorem ReadsTo.through {found : Bool} {c c' : σ} (h : ReadsTo afterBlankLine? found c c') :
    (arrivals c).Through := by
  cases found with
  | true =>
      obtain ⟨u, ht, hu⟩ := h
      left
      rw [ht.arrivals, hu]
      rfl
  | false =>
      obtain ⟨u, c₁, ht, hread, -⟩ := h
      right
      rw [ht.arrivals, arrivals_close hread]

/-- **What is answered to a response header** depends on what arrives and on the size of the storage
alone. -/
theorem readHead_answers (buffer : HeaderBuffer) (c : σ) :
    Answers buffer.capacity (arrivals c) (readHead buffer c).1 := by
  rcases readHead_outcome buffer c with ⟨hok, ⟨found, hreads⟩, hanswer⟩ |
    ⟨u, c₁, c₂, f, ht, hread, hnone, hanswer⟩ | ⟨⟨c₁, hread⟩, hroom, hanswer⟩
  · rw [hanswer]
    have hholds := arrivals_byteFeed.capture_holds maxHeaderLines buffer.reset c _ rfl (.inr hok)
    refine interpret_answers hreads.through (fun hsilent => ?_) hholds.parseStatus_eq
      hholds.parseFraming_eq
    -- with room, a capture that meets a silent peer fails
    by_contra hroom
    obtain ⟨c', hread⟩ := read_of_silent hsilent
    have hfailed := @capture_silence _ _ maxHeaderLines buffer.reset c c' hread
      (by simpa [HeaderBuffer.remaining] using hroom) rfl
    exact hok .transportClosed (by rw [hfailed])
  · rw [hanswer]
    have harrivals : arrivals c = ⟨u, some f⟩ := by
      rw [ht.arrivals, arrivals_fault hread, List.append_nil]
    rw [harrivals]
    exact .fault ⟨rfl, hnone⟩
  · rw [hanswer]
    exact .silence (arrivals_close hread) hroom

section Answers

variable {capacity : Nat} {got : Arrivals} {answer : Except Error ResponseHead}
  (h : Answers capacity got answer)
include h

theorem Answers.ne_send : answer ≠ .error .send := by
  cases h with
  | @fault f => cases f <;> simp [Error.ofFault]
  | _ => simp

/-- What is broken off is answered with the error of the fault. -/
theorem Answers.of_breaksOff {f : Fault} (hbroken : got.BreaksOff f) :
    answer = .error (.ofFault f) := by
  cases h with
  | fault hfault => rw [Option.some.inj (hfault.1.symm.trans hbroken.1)]
  | silence hsilent =>
      rw [hsilent] at hbroken
      cases hbroken.1
  | malformed hover => exact absurd hbroken (hover.not_breaksOff f)
  | head hover => exact absurd hbroken (hover.not_breaksOff f)

theorem Answers.timeout_iff : answer = .error .timeout ↔ got.BreaksOff .timeout := by
  constructor
  · intro hanswer
    cases h with
    | fault hbroken => rwa [← Error.ofFault_eq_timeout_iff.1 (Except.error.inj hanswer)]
    | _ => cases hanswer
  · exact h.of_breaksOff

theorem Answers.closed_iff (hroom : capacity ≠ 0) :
    answer = .error .transportClosed ↔
      (∃ f, f ≠ .timeout ∧ got.BreaksOff f) ∨ got = ⟨[], none⟩ := by
  constructor
  · intro hanswer
    cases h with
    | @fault f hbroken =>
        exact .inl ⟨f, Error.ofFault_ne_timeout_iff.1 (Except.error.inj hanswer), hbroken⟩
    | silence hsilent => exact .inr hsilent
    | _ => cases hanswer
  · rintro (⟨f, hf, hbroken⟩ | hsilent)
    · rw [h.of_breaksOff hbroken, Error.ofFault_ne_timeout_iff.2 hf]
    · cases h with
      | fault hbroken =>
          rw [hsilent] at hbroken
          cases hbroken.1
      | silence => rfl
      | malformed hover hsome => exact absurd (hsome hsilent) hroom
      | head hover hsome => exact absurd (hsome hsilent) hroom

/-- What was not broken off and is not silent has arrived as far as the section goes, and its lines
decide. -/
theorem Answers.of_through (htimeout : answer ≠ .error .timeout)
    (hclosed : answer ≠ .error .transportClosed) (hroom : capacity ≠ 0) :
    ((afterBlankLine? got.bytes).isSome ∨ got.fault? = none ∧ got.bytes ≠ []) ∧
    (answer = .error .parse ∧ (∀ status framing, ¬ Legible capacity got.bytes status framing) ∨
      ∃ head, answer = .ok head ∧ Legible capacity got.bytes head.status head.framing) := by
  have hthrough : got.Through → (got = ⟨[], none⟩ → capacity = 0) →
      (afterBlankLine? got.bytes).isSome ∨ got.fault? = none ∧ got.bytes ≠ [] := by
    rintro (hsome | hclose) hsilent
    · exact .inl hsome
    · refine .inr ⟨hclose, fun hnil => hroom (hsilent ?_)⟩
      rw [← hnil, ← hclose]
  cases h with
  | @fault f =>
      cases f <;> first | exact absurd rfl htimeout | exact absurd rfl hclosed
  | silence => exact absurd rfl hclosed
  | malformed hover hsome hlines => exact ⟨hthrough hover hsome, .inl ⟨rfl, hlines⟩⟩
  | head hover hsome hlines => exact ⟨hthrough hover hsome, .inr ⟨_, rfl, hlines⟩⟩

end Answers

/-- The index of a head gives the lines that its storage keeps of what arrived. -/
theorem readHead_lines {buffer buffer' : HeaderBuffer} {c c' : σ} {head : ResponseHead}
    (h : readHead buffer c = (.ok head, buffer', c')) :
    (head.headers buffer').lines = indexedLines buffer.capacity (arrivals c).bytes := by
  obtain ⟨rfl, hok, hhead⟩ := readHead_ok h
  obtain ⟨-, -, -, hranges⟩ := interpret_eq_ok_iff.1 hhead
  rw [ResponseHead.headers, hranges]
  have hholds := arrivals_byteFeed.capture_holds maxHeaderLines buffer.reset c _ rfl (.inr hok)
  exact hholds.lines_eq

/-! ## Scripts -/

namespace Script

def ahead : List Step → Arrivals
  | .data (b :: bs) :: steps => ⟨b :: bs ++ (ahead steps).bytes, (ahead steps).fault?⟩
  | .fault f :: _ => ⟨[], some f⟩
  | _ => ⟨[], none⟩

theorem takes_data {c : Script} {u : Bytes} {steps : List Step} (hne : u ≠ [])
    (h : c.steps = .data u :: steps) : ∃ c', Takes c u c' ∧ c'.steps = steps := by
  induction u generalizing c with
  | nil => exact absurd rfl hne
  | cons b u ih =>
      have hr : Transport.read c 1 = (.ok [b], { c with
          reads := c.reads + 1
          steps := if u = [] then steps else .data u :: steps }) := by
        show c.read 1 = _
        simp [Script.read, h]
      by_cases hu : u = []
      · subst hu
        exact ⟨_, .cons hr (.nil _), rfl⟩
      · obtain ⟨c', ht, hsteps⟩ := ih hu (c := { c with
          reads := c.reads + 1
          steps := if u = [] then steps else .data u :: steps }) (if_neg hu)
        exact ⟨c', .cons hr ht, hsteps⟩

/-- What arrives on a scripted connection is in its steps. -/
theorem arrivals_eq {steps : List Step} {c : Script} (h : c.steps = steps) :
    arrivals c = ahead steps := by
  have hread : Transport.read c 1 = c.read 1 := rfl
  fun_induction ahead steps generalizing c with
  | case1 b bs steps ih =>
      obtain ⟨c', ht, hsteps⟩ := takes_data (List.cons_ne_nil b bs) h
      rw [ht.arrivals, ih hsteps rfl]
  | case2 f steps =>
      rw [Script.read, h] at hread
      exact arrivals_fault hread
  | case3 steps hdata hfault =>
      -- no step is left, or one that hands out nothing
      rw [Script.read, h] at hread
      cases steps with
      | nil => exact arrivals_close hread
      | cons step steps =>
          cases step with
          | fault f => exact absurd rfl (hfault f steps)
          | data bs =>
              cases bs with
              | nil => exact arrivals_close hread
              | cons b bs => exact absurd rfl (hdata b bs steps)

end Script

end HttpExchange
