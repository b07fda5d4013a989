import HttpExchange.Proofs.AnnouncedLength
import HttpExchange.Proofs.Waiting

set_option autoImplicit false

/-! # What the engine is handed

What a read of a session gives goes to the engine at once and whole: `Relays calls` says that every
read that gave bytes is followed by the engine taking them, before anything else is done, and that
the engine takes nothing else. A round is the only turn that reads, and it relays what it read
whether it ends well or not (`Round.relays`), so every log of a session does. The bytes handed over
are then the bytes read, in order (`Relays.handed_eq`). The main statement `relays_inbound` adds
what the answer of a round tells of its read. -/

namespace HttpExchange

def Call.handed : Call → Bytes
  | .receive input _ => input
  | _ => []

/-- Every read that gave bytes is followed by the engine being handed these bytes, at least one and
not more than a round reads, and the engine is handed nothing else. -/
inductive Relays : List Call → Prop
  | nil : Relays []
  | other {call : Call} {calls : List Call} (hgot : call.got = [])
      (hreceive : ∀ input accepted, call ≠ .receive input accepted) (h : Relays calls) :
      Relays (call :: calls)
  | relay {input : Bytes} {calls : List Call} (hinput : input ≠ [])
      (hlength : input.length ≤ receiveChunk) (accepted : Bool) (h : Relays calls) :
      Relays (.read receiveChunk (.ok input) :: .receive input accepted :: calls)

namespace Relays

variable {calls calls' : List Call}

theorem append (h : Relays calls) (h' : Relays calls') : Relays (calls ++ calls') := by
  induction h with
  | nil => exact h'
  | other hgot hreceive _ ih => exact .other hgot hreceive ih
  | relay hinput hlength accepted _ ih => exact .relay hinput hlength accepted ih

theorem of_outbound (h : ∀ call ∈ calls, call.IsOutbound) : Relays calls := by
  induction calls with
  | nil => exact .nil
  | cons call calls ih =>
      obtain ⟨hcall, hcalls⟩ := List.forall_mem_cons.1 h
      refine .other ?_ ?_ (ih hcalls)
      · cases call with
        | read => exact False.elim hcall
        | _ => rfl
      · intro input accepted heq
        rw [heq] at hcall
        exact hcall

/-- The engine was handed what was read, in the same order. -/
theorem handed_eq (h : Relays calls) : calls.flatMap Call.handed = calls.flatMap Call.got := by
  induction h with
  | nil => rfl
  | @other call calls hgot hreceive _ ih =>
      have hhanded : call.handed = [] := by
        cases call with
        | receive input accepted => exact absurd rfl (hreceive input accepted)
        | _ => rfl
      rw [List.flatMap_cons, List.flatMap_cons, ih, hgot, hhanded]
  | @relay input calls hinput hlength accepted _ ih =>
      show input ++ calls.flatMap Call.handed = input ++ ([] ++ calls.flatMap Call.got)
      rw [ih, List.nil_append]

end Relays

/-! ## Turns -/

theorem Drains.relays {calls : List Call} {answer : Except Error Unit} (h : Drains calls answer) :
    Relays calls := .of_outbound h.isOutbound

theorem Round.relays {calls : List Call} {answer : Except Error Nat} (h : Round calls answer) :
    Relays calls := by
  cases h with
  | released => exact .nil
  | undrained h => exact h.relays
  | idle h => exact h.relays.append (.other rfl nofun .nil)
  | failed h => exact h.relays.append (.other rfl nofun .nil)
  | ended h => exact h.relays.append (.other rfl nofun .nil)
  | rejected h hinput hlength => exact h.relays.append (.relay hinput hlength false .nil)
  | received h hinput hlength h' =>
      exact (h.relays.append (.relay hinput hlength true .nil)).append h'.relays

theorem Conversation.relays {calls : List Call} (h : Conversation calls) : Relays calls := by
  induction h with
  | silence => exact .nil
  | start => exact .other rfl nofun .nil
  | submit => exact .other rfl nofun .nil
  | drain h => exact h.relays
  | round h => exact h.relays
  | close => exact .other rfl nofun .nil
  | append _ _ ih ih' => exact ih.append ih'

/-- A round without data is a drain and a read that timed out. -/
theorem Round.of_idle {calls : List Call} (h : Round calls (.ok 0)) :
    ∃ drain, calls = drain ++ [.read receiveChunk (.error .timeout)] ∧ Drains drain (.ok ()) := by
  generalize hanswer : Except.ok 0 = answer at h
  cases h with
  | idle h => exact ⟨_, rfl, h⟩
  | @received _ _ input answer _ hinput =>
      cases answer with
      | ok => exact absurd (List.length_eq_zero_iff.1 (Except.ok.inj hanswer).symm) hinput
      | error e => cases hanswer
  | _ => cases hanswer

/-- A round that received data has read it, handed it over, and drained behind it. -/
theorem Round.of_data {calls : List Call} {n : Nat} (h : Round calls (.ok n)) (hn : 0 < n) :
    ∃ drain input drain',
      calls = drain ++ [.read receiveChunk (.ok input), .receive input true] ++ drain' ∧
      input.length = n ∧ Drains drain (.ok ()) ∧ Drains drain' (.ok ()) := by
  generalize hanswer : Except.ok n = answer at h
  cases h with
  | idle h => cases hanswer; exact absurd hn (Nat.lt_irrefl 0)
  | @received drain drain' input answer h _ _ h' =>
      cases answer with
      | ok => exact ⟨drain, input, drain', rfl, (Except.ok.inj hanswer).symm, h, h'⟩
      | error e => cases hanswer
  | _ => cases hanswer

/-! ## Sessions -/

namespace Session

variable {w η β : Type} [Link w β] [FrameHandler η]

/-- A round answers that nothing came if its drain succeeds and its read times out, and in no other
case. -/
theorem runOnce_eq_ok_zero_iff (s : Session w η) :
    s.runOnce.1 = .ok 0 ↔
      s.flush.1 = .ok () ∧ (Transport.read s.flush.2.link receiveChunk).1 = .error .timeout := by
  obtain ⟨e, s₁, hflush, hround⟩ | ⟨s₁, got, l, hflush, hr, hround⟩ := s.runOnce_outcome
  · rw [hflush, hround]
    constructor
    · intro h
      cases h
    · rintro ⟨h, -⟩
      cases h
  · rw [hflush]
    simp only [hr, true_and]
    rcases hround with ⟨rfl, hround⟩ | ⟨hgot, hround⟩ | ⟨input, s₂, rfl, hinput, hround⟩
    · rw [hround]
      exact ⟨fun _ => rfl, fun _ => rfl⟩
    · rw [hround]
      constructor
      · intro h
        cases h
      · intro h
        rcases hgot with rfl | ⟨f, hf, rfl⟩
        · cases h
        · exact absurd (Except.error.inj h) hf
    · constructor
      · intro h
        rcases hround with ⟨-, hround⟩ | ⟨-, hround⟩
        · rw [hround] at h
          cases h
        · rw [hround] at h
          -- the answer would be the number of the bytes, and there are some
          rcases hanswer : s₂.flush.1 with e | _
          · rw [hanswer] at h
            cases h
          · rw [hanswer] at h
            exact absurd (List.length_eq_zero_iff.1 (Except.ok.inj h)) hinput
      · intro h
        cases h

/-- **The engine is handed what was read.** Whatever the engine, the connection and its peer do, and
whatever was done with the session, failures included: every read that gave bytes was followed by
the engine being handed these bytes, at least one and at most as many as a round reads, before any
further read, and nothing else; so all that was handed over is all that was read, in order. The next
round answers zero exactly if its drain succeeds and its read times out, and then the engine is
handed nothing. It answers another number only if so many bytes were read, the engine accepted
them, and the drain behind succeeded. -/
theorem relays_inbound {link : w} {handler : η} {s : Session (Logged w) η}
    (hnew : new (⟨link, []⟩ : Logged w) handler = .ok s) (ops : List (Op β)) :
    let s' := s.perform ops
    Relays s'.link.calls ∧
    s'.link.calls.flatMap Call.handed = s'.link.calls.flatMap Call.got ∧
    (s'.runOnce.1 = .ok 0 ↔
      s'.flush.1 = .ok () ∧ (Transport.read s'.flush.2.link receiveChunk).1 = .error .timeout) ∧
    (s'.runOnce.1 = .ok 0 → ∃ drain, Drains drain (.ok ()) ∧
      s'.runOnce.2.link.calls =
        s'.link.calls ++ (drain ++ [.read receiveChunk (.error .timeout)]) ∧
      ∀ input accepted, .receive input accepted ∉ drain) ∧
    ∀ n, 0 < n → s'.runOnce.1 = .ok n → ∃ drain input drain',
      Drains drain (.ok ()) ∧ Drains drain' (.ok ()) ∧ input.length = n ∧
      s'.runOnce.2.link.calls = s'.link.calls ++
        (drain ++ [.read receiveChunk (.ok input), .receive input true] ++ drain') := by
  intro s'
  have hrelays : Relays s'.link.calls := (conversation_new hnew ops).relays
  obtain ⟨calls, hcalls, hround⟩ := s'.runOnce_calls
  refine ⟨hrelays, hrelays.handed_eq, s'.runOnce_eq_ok_zero_iff, ?_, ?_⟩
  · intro hzero
    rw [hzero] at hround
    obtain ⟨drain, rfl, hdrain⟩ := hround.of_idle
    exact ⟨drain, hdrain, hcalls, fun input accepted h => hdrain.isOutbound _ h⟩
  · intro n hn hdata
    rw [hdata] at hround
    obtain ⟨drain, input, drain', rfl, hlength, hdrain, hdrain'⟩ := hround.of_data hn
    exact ⟨drain, input, drain', hdrain, hdrain', hlength, hcalls⟩

/-- Nothing arrives in the first round, and twelve bytes in the second. -/
theorem relays_inbound_late :
    ∃ s, new (⟨latePeer, []⟩ : Logged (Wire Script LineEngine)) () = .ok s ∧
      let waiting := s.perform [.submit [⟨":path", "/"⟩] none]
      let served := s.perform silentRound
      Relays served.runOnce.2.link.calls ∧
      served.runOnce.2.link.calls.flatMap Call.handed = Text.encode "H 1 200\nE 1\n" ∧
      waiting.runOnce.1 = .ok 0 ∧
      (Transport.read waiting.flush.2.link receiveChunk).1 = .error .timeout ∧
      served.runOnce.1 = .ok 12 ∧
      ∃ drain input drain', Drains drain' (.ok ()) ∧ input.length = 12 ∧
        served.runOnce.2.link.calls = served.link.calls ++
          (drain ++ [.read receiveChunk (.ok input), .receive input true] ++ drain') := by
  have hrounds : (new (⟨latePeer, []⟩ : Logged (Wire Script LineEngine)) ()).toOption.map
      (fun s => ((s.perform [.submit [⟨":path", "/"⟩] none]).runOnce.1,
        (s.perform silentRound).runOnce.1,
        (s.perform (silentRound ++ [.runOnce])).link.calls.flatMap Call.got)) =
      some (.ok 0, .ok 12, Text.encode "H 1 200\nE 1\n") := by decide +kernel
  obtain ⟨s, hs, hrounds⟩ := ok_of_map_toOption hrounds
  obtain ⟨hidle, hrounds⟩ := Prod.mk.inj hrounds
  obtain ⟨hdata, hgot⟩ := Prod.mk.inj hrounds
  obtain ⟨-, -, hzero, -, -⟩ := relays_inbound hs [.submit [⟨":path", "/"⟩] none]
  obtain ⟨-, -, -, -, hcount⟩ := relays_inbound hs silentRound
  obtain ⟨hrelays, hhanded, -⟩ := relays_inbound hs (silentRound ++ [.runOnce])
  obtain ⟨drain, input, drain', -, hdrain', hlength, hcalls⟩ := hcount 12 (by decide) hdata
  exact ⟨s, hs, hrelays, hhanded.trans hgot, hidle, (hzero.1 hidle).2, hdata, drain, input, drain',
    hdrain', hlength, hcalls⟩

end Session

end HttpExchange
