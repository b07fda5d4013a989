import HttpExchange.Proofs.Conversation
import HttpExchange.Session.LineEngine
import HttpExchange.Transport.Script

set_option autoImplicit false

/-! # Draining before waiting

A session reads, and so waits for its peer, only when it has nothing left to say: the last run that
the engine gave was empty, and the connection was flushed behind it (`Drained`). Each turn of a
conversation has its reads right behind a drain that succeeded (`ReadsDrained`), which putting turns
together keeps. A construction or a round that succeeds ends drained too, with what the engine
queued for the bytes just received included (`waits_drained`). -/

namespace HttpExchange

/-- The last run that was asked for was empty, the connection was flushed behind it, and since then
there were reads at most. -/
def Drained (calls : List Call) : Prop :=
  ∃ front back, calls = front ++ [.pending (some []), .flush (.ok ())] ++ back ∧
    ∀ call ∈ back, ∃ room got, call = .read room got

/-- Every read comes right behind an empty run and a flush. -/
def ReadsDrained (calls : List Call) : Prop :=
  ∀ before room got after, calls = before ++ .read room got :: after →
    ∃ front, before = front ++ [.pending (some []), .flush (.ok ())]

theorem Drained.append_left {calls : List Call} (h : Drained calls) (calls' : List Call) :
    Drained (calls' ++ calls) := by
  obtain ⟨front, back, rfl, hback⟩ := h
  exact ⟨calls' ++ front, back, by simp, hback⟩

namespace ReadsDrained

variable {calls calls' : List Call}

theorem drained (h : ReadsDrained calls) {before after : List Call} {room : Nat}
    {got : Except Fault Bytes} (hsplit : calls = before ++ .read room got :: after) :
    Drained before := by
  obtain ⟨front, rfl⟩ := h before room got after hsplit
  exact ⟨front, [], by simp, by simp⟩

theorem of_not_mem (h : ∀ room got, .read room got ∉ calls) : ReadsDrained calls := by
  intro before room got after hsplit
  refine absurd ?_ (h room got)
  rw [hsplit]
  exact List.mem_append_right before List.mem_cons_self

/-- A read behind a drain that succeeded, with no read beyond it. -/
theorem of_drains (hdrain : Drains calls (.ok ())) (room : Nat) (got : Except Fault Bytes)
    (h : ∀ room got, .read room got ∉ calls') :
    ReadsDrained (calls ++ .read room got :: calls') := by
  intro before room' got' after hsplit
  suffices hbefore : before = calls by
    rw [hbefore]
    exact hdrain.of_ok
  rcases List.append_eq_append_iff.1 hsplit with ⟨mid, rfl, hmid⟩ | ⟨mid, rfl, hmid⟩
  · -- the read that was found does not stand behind the first one
    cases mid with
    | nil => exact List.append_nil calls
    | cons call mid =>
        obtain ⟨-, rfl⟩ := List.cons.inj hmid
        exact absurd (List.mem_append_right mid List.mem_cons_self) (h room' got')
  · -- nor does it stand in the drain
    cases mid with
    | nil => exact (List.append_nil before).symm
    | cons call mid =>
        obtain ⟨rfl, -⟩ := List.cons.inj hmid
        exact absurd (hdrain.isOutbound _ (List.mem_append_right before List.mem_cons_self)) id

theorem append (h : ReadsDrained calls) (h' : ReadsDrained calls') :
    ReadsDrained (calls ++ calls') := by
  intro before room got after hsplit
  rcases List.append_eq_append_iff.1 hsplit with ⟨mid, rfl, hmid⟩ | ⟨mid, rfl, hmid⟩
  · obtain ⟨front, rfl⟩ := h' mid room got after hmid
    exact ⟨calls ++ front, (List.append_assoc calls front _).symm⟩
  · cases mid with
    | nil =>
        -- the read would be the first call of the second part, with nothing in front of it
        obtain ⟨front, hfront⟩ := h' [] room got after hmid.symm
        exact absurd (congrArg List.length hfront) (by simp)
    | cons call mid =>
        obtain ⟨rfl, -⟩ := List.cons.inj hmid
        exact h before room got mid rfl

end ReadsDrained

/-! ## Turns -/

theorem Drains.not_read {calls : List Call} {answer : Except Error Unit} (h : Drains calls answer)
    (room : Nat) (got : Except Fault Bytes) : .read room got ∉ calls :=
  fun hread => h.isOutbound _ hread

theorem Drains.drained {calls : List Call} (h : Drains calls (.ok ())) : Drained calls := by
  obtain ⟨front, rfl⟩ := h.of_ok
  exact ⟨front, [], by simp, by simp⟩

theorem Round.readsDrained {calls : List Call} {answer : Except Error Nat}
    (h : Round calls answer) :
    ReadsDrained calls := by
  cases h with
  | released => exact .of_not_mem (by simp)
  | undrained h => exact .of_not_mem h.not_read
  | idle h => exact .of_drains h _ _ (by simp)
  | failed h => exact .of_drains h _ _ (by simp)
  | ended h => exact .of_drains h _ _ (by simp)
  | rejected h => exact .of_drains h _ _ (by simp)
  | received h _ _ h' =>
      rw [List.append_assoc]
      exact .of_drains h _ _ (by simp [h'.not_read])

/-- A round that succeeds has left nothing to send, not even what the engine queued in it. -/
theorem Round.drained {calls : List Call} {n : Nat} (h : Round calls (.ok n)) : Drained calls := by
  generalize hanswer : Except.ok n = answer at h
  cases h with
  | idle h =>
      obtain ⟨front, rfl⟩ := h.of_ok
      exact ⟨front, _, rfl, by simp⟩
  | @received _ _ _ answer _ _ _ h' =>
      cases answer with
      | ok => exact h'.drained.append_left _
      | error e => cases hanswer
  | _ => cases hanswer

theorem Conversation.readsDrained {calls : List Call} (h : Conversation calls) :
    ReadsDrained calls := by
  induction h with
  | silence => exact .of_not_mem (by simp)
  | start => exact .of_not_mem (by simp)
  | submit => exact .of_not_mem (by simp)
  | drain h => exact .of_not_mem h.not_read
  | round h => exact h.readsDrained
  | close => exact .of_not_mem (by simp)
  | append _ _ ih ih' => exact ih.append ih'

/-! ## Sessions -/

namespace Session

variable {w η β : Type} [Link w β] [FrameHandler η]

/-- **A session drains before it waits.** If a session is refused, then nothing was read. Otherwise,
whatever the engine, the connection and its peer do, and whatever is done with the session, failures
included: at every read the last run of the engine was empty and the connection was flushed behind
it. The same holds when the construction has succeeded, and after every round that succeeds, with
bytes received or with a read that timed out. -/
theorem waits_drained (link : w) (handler : η) :
    (∀ r l, new (⟨link, []⟩ : Logged w) handler = .error r → r.released = some l →
      ∀ room got, .read room got ∉ l.calls) ∧
    ∀ s, new (⟨link, []⟩ : Logged w) handler = .ok s → Drained s.link.calls ∧
      ∀ ops : List (Op β),
        (∀ before room got after,
          (s.perform ops).link.calls = before ++ .read room got :: after → Drained before) ∧
        ∀ n s', (s.perform ops).runOnce = (.ok n, s') → Drained s'.link.calls := by
  constructor
  · intro r l hnew hl room got hread
    obtain ⟨l', closing, hl', hcalls⟩ := refused_calls hnew
    obtain rfl : l = l' := Option.some.inj (hl.symm.trans hl')
    rcases hcalls with ⟨-, hcalls⟩ | ⟨calls, hcalls, hdrain⟩
    · simp [hcalls] at hread
    · simp [hcalls, hdrain.not_read] at hread
  · intro s hnew
    constructor
    · obtain ⟨calls, hcalls, hdrain⟩ := new_calls hnew
      rw [hcalls]
      exact hdrain.drained.append_left [.start true]
    · intro ops
      constructor
      · intro before room got after hsplit
        exact (conversation_new hnew ops).readsDrained.drained hsplit
      · intro n s' hround
        obtain ⟨calls, hcalls, h⟩ := (s.perform ops).runOnce_calls
        rw [hround] at hcalls h
        rw [hcalls]
        exact h.drained.append_left _

/-- A peer that is silent for a while and then answers a request and ends its stream. -/
def latePeer : Wire Script LineEngine :=
  ⟨{ steps := [.fault .timeout, .data (Text.encode "H 1 200\nE 1\n")] }, {}⟩

def idleEngine : Wire Script LineEngine := ⟨{ steps := [] }, { settings := { startFails := true } }⟩

def silentRound : List (Op BodyPieces) := [.submit [⟨":path", "/"⟩] none, .runOnce]

/-- The engine acknowledges the end of the stream, and the round ends drained. -/
theorem waits_drained_acknowledged :
    (∃ r l, new (⟨idleEngine, []⟩ : Logged (Wire Script LineEngine)) () = .error r ∧
      r.released = some l ∧ ∀ room got, .read room got ∉ l.calls) ∧
    ∃ s, new (⟨latePeer, []⟩ : Logged (Wire Script LineEngine)) () = .ok s ∧
      Drained s.link.calls ∧
      (∃ before after, (s.perform silentRound).link.calls =
        before ++ .read receiveChunk (.error .timeout) :: after ∧ Drained before) ∧
      ∃ s', (s.perform silentRound).runOnce = (.ok 12, s') ∧
        .write (Text.encode "ACK 1\n") (.ok 6) ∈ s'.link.calls ∧ Drained s'.link.calls := by
  constructor
  · have hnone : (new (⟨idleEngine, []⟩ : Logged (Wire Script LineEngine)) ()).toOption.isNone =
        true := by decide +kernel
    rcases hr : new (⟨idleEngine, []⟩ : Logged (Wire Script LineEngine)) () with r | s
    · obtain ⟨l, closing, hl, -⟩ := refused_calls hr
      exact ⟨r, l, rfl, hl, (waits_drained idleEngine ()).1 r l hr hl⟩
    · rw [hr] at hnone
      cases hnone
  · have hround : (new (⟨latePeer, []⟩ : Logged (Wire Script LineEngine)) ()).toOption.map
        (fun s => (decide (.read receiveChunk (.error .timeout) ∈
            (s.perform silentRound).link.calls),
          (s.perform silentRound).runOnce.1,
          decide (.write (Text.encode "ACK 1\n") (.ok 6) ∈
            (s.perform silentRound).runOnce.2.link.calls))) = some (true, .ok 12, true) := by
      decide +kernel
    obtain ⟨s, hs, hround⟩ := ok_of_map_toOption hround
    obtain ⟨hread, hround⟩ := Prod.mk.inj hround
    obtain ⟨hok, hwrite⟩ := Prod.mk.inj hround
    obtain ⟨hnew, hlife⟩ := (waits_drained latePeer ()).2 s hs
    obtain ⟨hreads, hrounds⟩ := hlife silentRound
    obtain ⟨before, after, hsplit⟩ := List.append_of_mem (of_decide_eq_true hread)
    exact ⟨s, hs, hnew, ⟨before, after, hsplit, hreads before _ _ after hsplit⟩, _,
      Prod.ext hok rfl, of_decide_eq_true hwrite, hrounds 12 _ (Prod.ext hok rfl)⟩

end Session

end HttpExchange
