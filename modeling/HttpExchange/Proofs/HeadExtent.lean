import HttpExchange.Proofs.Capture

set_option autoImplicit false

/-! # The extent of a response header

However the storage and the index cut the capture of a header section, `readHead` takes exactly
the bytes up to and including the section's blank line, or the whole stream if there is none. The
capture hands a position over to the skipping, and the position stands for everything that the
capture has taken (`capture_reads`). -/

namespace HttpExchange

open Ascii

variable {σ : Type} [Transport σ]

/-- A header that was interpreted, well or badly, was read through. -/
theorem readHead_reads {buffer buffer' : HeaderBuffer} {c c' : σ}
    {answer : Except Error ResponseHead} (h : readHead buffer c = (answer, buffer', c'))
    (ha : ∀ e, answer = .error e → e = .parse) : ∃ found, ReadsTo afterBlankLine? found c c' := by
  have houtcome := readHead_outcome buffer c
  rw [h] at houtcome
  rcases houtcome with ⟨-, hreads, -⟩ | ⟨_, _, _, f, -, -, -, hanswer⟩ | ⟨-, -, hanswer⟩
  · exact hreads
  · exact absurd (ha _ hanswer) (Error.ofFault_ne_parse f)
  · cases ha _ hanswer

/-- **The bytes taken for a header.** Reading a response header that gives a head, or a parse
error, reads byte by byte up to and including the LF of the first blank line and not further;
without a blank line it reads the whole stream and the close behind it. The storage, whatever
its size and content, makes no difference. -/
theorem readHead_takes_section {buffer buffer' : HeaderBuffer} {c : σ} {s : Bytes}
    {answer : Except Error ResponseHead} {l : Logged σ} (hs : Sends c s)
    (h : readHead buffer (⟨c, []⟩ : Logged σ) = (answer, buffer', l))
    (ha : (∃ head, answer = .ok head) ∨ answer = .error .parse) :
    ∃ taken, s = taken ++ (afterBlankLine? s).getD [] ∧
      l.calls = taken.map .take ++
        (if (afterBlankLine? s).isSome then [] else [.read 1 (.ok [])]) ∧
      Sends l.inner ((afterBlankLine? s).getD []) := by
  have hparse : ∀ e, answer = .error e → e = .parse := by
    rintro e rfl
    rcases ha with ⟨head, ha⟩ | ha
    · cases ha
    · exact Except.error.inj ha
  obtain ⟨found, hr⟩ := readHead_reads h hparse
  simpa using hr.calls hs

/-- A reply in three pieces, with a CR inside its last field line and two bytes of body. -/
def strayCrReply : Script where
  steps := [.data (Text.encode "HTTP/1.1 200 OK\r"),
    .data (Text.encode "\nContent-Length: 2\r\nX: ab\rcd\r"), .data (Text.encode "\n\r\nOK")]

/-- The CR of the last field falls into the last slot of 40, so the byte behind it is read and
handed to the skipping of the rest. -/
theorem readHead_takes_section_behind_cr :
    let run := readHead (.zeroed 40) (⟨strayCrReply, []⟩ : Logged Script)
    Sends strayCrReply strayCrReply.stream ∧ (∃ head, run.1 = .ok head) ∧
    ∃ taken, strayCrReply.stream = taken ++ Text.encode "OK" ∧ run.2.2.calls = taken.map .take ∧
      Sends run.2.2.inner (Text.encode "OK") := by
  intro run
  have hsends : Sends strayCrReply strayCrReply.stream :=
    (Script.Steady.delivers (by decide +kernel)).sends
  have hok : ∃ head, run.1 = .ok head := by
    have : run.1.toOption.isSome = true := by decide +kernel
    cases h : run.1 with
    | ok head => exact ⟨head, rfl⟩
    | error e => rw [h] at this; cases this
  have hblank : afterBlankLine? strayCrReply.stream = some (Text.encode "OK") := by
    decide +kernel
  have hrun : readHead (.zeroed 40) (⟨strayCrReply, []⟩ : Logged Script) =
      (run.1, run.2.1, run.2.2) := rfl
  obtain ⟨taken, hs, hcalls, hrest⟩ := readHead_takes_section hsends hrun (.inl hok)
  rw [hblank] at hs hcalls hrest
  exact ⟨hsends, hok, taken, hs, by simpa using hcalls, hrest⟩

end HttpExchange
