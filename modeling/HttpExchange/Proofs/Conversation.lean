import HttpExchange.Proofs.Writing
import HttpExchange.Session

set_option autoImplicit false

/-! # The calls of a session

What a session does to its link is a conversation of few turns: a request for the engine, a drain
of its queue, a round. `Drains calls answer` and `Round calls answer` give the calls of a drain and
of a round together with the answer; they say once all that each can do, and nothing later unfolds
the session again. What a caller does with a session is a list of operations, which go on behind a
failure as well (`perform`). The log of a session is at every time a `Conversation`
(`conversation_perform`, `conversation_new`, `conversation_refused`), and what every turn has and
putting together keeps, every log has. -/

namespace HttpExchange

/-! ## Turns -/

/-- The calls that write out what the engine has queued and then flush, with the answer. -/
inductive Drains : List Call → Except Error Unit → Prop
  | unasked : Drains [.pending none] (.error .send)
  /-- Nothing is queued, and the flush gives the answer. -/
  | flushed : Drains [.pending (some []), .flush (.ok ())] (.ok ())
  | unflushed (f : Fault) : Drains [.pending (some []), .flush (.error f)] (.error .send)
  /-- A run could not be written out. -/
  | stopped {run : Bytes} {writes : List Call} {e : Error} (hrun : run ≠ [])
      (h : WritesOut run writes (.error e)) : Drains (.pending (some run) :: writes) (.error e)
  /-- A run was written out, and the drain goes on. -/
  | wrote {run : Bytes} {writes calls : List Call} {answer : Except Error Unit} (hrun : run ≠ [])
      (h : WritesOut run writes (.ok ())) (hrest : Drains calls answer) :
      Drains (.pending (some run) :: (writes ++ calls)) answer

inductive Round : List Call → Except Error Nat → Prop
  | released : Round [] (.error .parameter)
  | undrained {calls : List Call} {e : Error} (h : Drains calls (.error e)) : Round calls (.error e)
  | idle {calls : List Call} (h : Drains calls (.ok ())) :
      Round (calls ++ [.read receiveChunk (.error .timeout)]) (.ok 0)
  | failed {calls : List Call} {f : Fault} (h : Drains calls (.ok ())) (hf : f ≠ .timeout) :
      Round (calls ++ [.read receiveChunk (.error f)]) (.error .transportClosed)
  | ended {calls : List Call} (h : Drains calls (.ok ())) :
      Round (calls ++ [.read receiveChunk (.ok [])]) (.error .transportClosed)
  /-- The engine did not accept what was read. -/
  | rejected {calls : List Call} {input : Bytes} (h : Drains calls (.ok ())) (hinput : input ≠ [])
      (hlength : input.length ≤ receiveChunk) :
      Round (calls ++ [.read receiveChunk (.ok input), .receive input false]) (.error .parse)
  /-- The engine accepted what was read, and what it has queued then is drained. -/
  | received {calls calls' : List Call} {input : Bytes} {answer : Except Error Unit}
      (h : Drains calls (.ok ())) (hinput : input ≠ []) (hlength : input.length ≤ receiveChunk)
      (h' : Drains calls' answer) :
      Round (calls ++ [.read receiveChunk (.ok input), .receive input true] ++ calls')
        (answer.map fun _ => input.length)

inductive Conversation : List Call → Prop
  | silence : Conversation []
  | start (agreed : Bool) : Conversation [.start agreed]
  | submit (fields : List HeaderField) (stream : Option Nat) : Conversation [.submit fields stream]
  | drain {calls : List Call} {answer : Except Error Unit} (h : Drains calls answer) :
      Conversation calls
  | round {calls : List Call} {answer : Except Error Nat} (h : Round calls answer) :
      Conversation calls
  | close (answer : Except Fault Unit) : Conversation [.close answer]
  | append {calls calls' : List Call} (h : Conversation calls) (h' : Conversation calls') :
      Conversation (calls ++ calls')

/-! ## Kinds of calls in a drain -/

namespace Call

/-- A call by which a drain brings the queue of the engine to the peer. -/
def IsOutbound : Call → Prop
  | pending _ => True
  | write _ _ => True
  | flush _ => True
  | _ => False

theorem IsOutbound.not_isClose {call : Call} (h : call.IsOutbound) : ¬ call.IsClose := by
  intro hclose
  cases call with
  | close => exact h
  | _ => exact hclose

end Call

namespace Drains

variable {calls : List Call} {answer : Except Error Unit}

theorem isOutbound (h : Drains calls answer) : ∀ call ∈ calls, call.IsOutbound := by
  have hwrites : ∀ {run : Bytes} {writes : List Call} {written : Except Error Unit},
      WritesOut run writes written → ∀ call ∈ writes, call.IsOutbound := by
    intro run writes written h call hcall
    obtain ⟨data, n, rfl, -⟩ := h.offers call hcall
    trivial
  induction h with
  | unasked => simp [Call.IsOutbound]
  | flushed => simp [Call.IsOutbound]
  | unflushed => simp [Call.IsOutbound]
  | stopped _ h => exact List.forall_mem_cons.2 ⟨trivial, hwrites h⟩
  | wrote _ h _ ih =>
      exact List.forall_mem_cons.2 ⟨trivial, List.forall_mem_append.2 ⟨hwrites h, ih⟩⟩

/-- A drain that succeeds ends with an empty run and a flush. -/
theorem of_ok (h : Drains calls (.ok ())) :
    ∃ front, calls = front ++ [.pending (some []), .flush (.ok ())] := by
  generalize hanswer : Except.ok () = answer at h
  induction h with
  | flushed => exact ⟨[], rfl⟩
  | wrote _ _ _ ih =>
      obtain ⟨front, rfl⟩ := ih hanswer
      exact ⟨_ :: (_ ++ front), by rw [List.cons_append, List.append_assoc]⟩
  | _ => cases hanswer

/-- A drain fails in one way. -/
theorem of_error {e : Error} (h : Drains calls (.error e)) : e = .send := by
  generalize hanswer : Except.error e = answer at h
  induction h with
  | unasked => exact Except.error.inj hanswer
  | flushed => cases hanswer
  | unflushed => exact Except.error.inj hanswer
  | stopped _ h => exact (Except.error.inj hanswer).trans h.of_error.1
  | wrote _ _ _ ih => exact ih hanswer

end Drains

/-- What is found in the result of a construction holds of a result. -/
theorem ok_of_map_toOption {ε α α' : Type} {r : Except ε α} {f : α → α'} {a' : α'}
    (h : r.toOption.map f = some a') : ∃ a, r = .ok a ∧ f a = a' := by
  cases r with
  | error e => cases h
  | ok a => exact ⟨a, rfl, Option.some.inj h⟩

/-- What is found in the error of a construction holds of an error. -/
theorem error_of_mapError {ε ε' α : Type} {r : Except ε α} {f : ε → ε'} {e' : ε'}
    (h : (r.map fun _ => ()).mapError f = .error e') : ∃ e, r = .error e ∧ f e = e' := by
  cases r with
  | error e => exact ⟨e, rfl, Except.error.inj h⟩
  | ok a => cases h

/-! ## What sessions do -/

variable {w η β : Type} [Link w β]

theorem drainQueue_calls (l : Logged w) :
    ∃ calls, (drainQueue l).2.calls = l.calls ++ calls ∧ Drains calls (drainQueue l).1 := by
  -- the cases are an engine that fails, an empty run with its flush, and a run that is written out
  fun_induction drainQueue l with
  | case1 l l₁ hp => exact ⟨_, (Logged.of_note hp).2, .unasked⟩
  | case2 l l₁ hp f l₂ hf =>
      refine ⟨[.pending (some []), .flush (.error f)], ?_, .unflushed f⟩
      rw [(Logged.of_note hf).2, (Logged.of_note hp).2, List.append_assoc]
      rfl
  | case3 l l₁ hp l₂ hf =>
      refine ⟨[.pending (some []), .flush (.ok ())], ?_, .flushed⟩
      rw [(Logged.of_note hf).2, (Logged.of_note hp).2, List.append_assoc]
      rfl
  | case4 l b bs l₁ hp e l₂ hw =>
      obtain ⟨writes, hwrites, hout⟩ := writeAll_calls l₁ (b :: bs)
      rw [hw] at hwrites hout
      refine ⟨.pending (some (b :: bs)) :: writes, ?_, .stopped (List.cons_ne_nil b bs) hout⟩
      rw [hwrites, (Logged.of_note hp).2, List.append_assoc]
      rfl
  | case5 l b bs l₁ hp l₂ hw ih =>
      obtain ⟨writes, hwrites, hout⟩ := writeAll_calls l₁ (b :: bs)
      obtain ⟨calls, hcalls, hrest⟩ := ih
      rw [hw] at hwrites hout
      refine ⟨.pending (some (b :: bs)) :: (writes ++ calls), ?_,
        .wrote (List.cons_ne_nil b bs) hout hrest⟩
      rw [hcalls, hwrites, (Logged.of_note hp).2]
      simp

namespace Session

variable {s : Session (Logged w) η}

theorem flush_released (h : s.isOpen = false) : s.flush = (.error .parameter, s) := by
  rw [flush, if_neg (by simp [h])]

@[simp] theorem isOpen_flush (s : Session w η) : s.flush.2.isOpen = s.isOpen := by
  unfold flush
  split <;> rfl

theorem flush_calls (h : s.isOpen = true) :
    ∃ calls, s.flush.2.link.calls = s.link.calls ++ calls ∧ Drains calls s.flush.1 := by
  rw [flush, if_pos h]
  exact drainQueue_calls s.link

theorem submit_calls (s : Session (Logged w) η) (fields : List HeaderField) (body : Option β) :
    ∃ calls, (s.submit fields body).2.link.calls = s.link.calls ++ calls ∧ Conversation calls := by
  unfold submit
  split
  next =>
    split
    next stream l h => exact ⟨_, (Logged.of_note h).2, .submit fields (some stream)⟩
    next l h => exact ⟨_, (Logged.of_note h).2, .submit fields none⟩
  next => exact ⟨[], by simp, .silence⟩

/-- A session that is built has started its engine and drained its queue. -/
theorem new_calls {link : w} {handler : η} {s : Session (Logged w) η}
    (h : new (⟨link, []⟩ : Logged w) handler = .ok s) :
    ∃ calls, s.link.calls = .start true :: calls ∧ Drains calls (.ok ()) := by
  unfold new at h
  split at h
  next => cases h
  next l hstart =>
    obtain ⟨calls, hcalls, hdrain⟩ := flush_calls (s := ⟨l, handler, true⟩) rfl
    have hl : l.calls = [.start true] := (Logged.of_note hstart).2
    rw [show (Session.mk l handler true).link = l from rfl, hl] at hcalls
    split at h
    next => cases h
    next hflush =>
      cases h
      rw [hflush] at hcalls hdrain
      exact ⟨calls, hcalls, hdrain⟩

/-- Dropping a session that still holds its connection closes it. -/
theorem drop_calls (h : s.isOpen = true) :
    ∃ closing, s.drop.calls = s.link.calls ++ [.close closing] := by
  rw [drop, release, if_pos h]
  exact ⟨_, (Logged.of_note rfl).2⟩

/-- A session that is refused has closed its connection, behind an engine that did not agree to
start or behind a drain that failed. -/
theorem refused_calls {link : w} {handler : η} {r : Refusal (Logged w)}
    (h : new (⟨link, []⟩ : Logged w) handler = .error r) :
    ∃ l closing, r.released = some l ∧
      ((r.error = .parameter ∧ l.calls = [.start false, .close closing]) ∨
        ∃ calls, l.calls = .start true :: (calls ++ [.close closing]) ∧
          Drains calls (.error r.error)) := by
  unfold new at h
  split at h
  next l hstart =>
    -- the engine did not agree, so nothing was drained
    cases h
    have hl : l.calls = [.start false] := (Logged.of_note hstart).2
    obtain ⟨closing, hdrop⟩ := drop_calls (s := ⟨l, handler, true⟩) rfl
    rw [show (Session.mk l handler true).link = l from rfl, hl] at hdrop
    exact ⟨_, closing, rfl, .inl ⟨rfl, hdrop⟩⟩
  next l hstart =>
    have hl : l.calls = [.start true] := (Logged.of_note hstart).2
    obtain ⟨calls, hcalls, hdrain⟩ := flush_calls (s := ⟨l, handler, true⟩) rfl
    have hopen := isOpen_flush (⟨l, handler, true⟩ : Session (Logged w) η)
    rw [show (Session.mk l handler true).link = l from rfl, hl] at hcalls
    split at h
    next e s hflush =>
      cases h
      rw [hflush] at hcalls hdrain hopen
      obtain ⟨closing, hdrop⟩ := drop_calls hopen
      rw [hcalls, List.append_assoc] at hdrop
      exact ⟨_, closing, rfl, .inr ⟨calls, hdrop, hdrain⟩⟩
    next => cases h

/-- The log of a session that is refused is a conversation. -/
theorem conversation_refused {link : w} {handler : η} {r : Refusal (Logged w)} {l : Logged w}
    (h : new (⟨link, []⟩ : Logged w) handler = .error r) (hl : r.released = some l) :
    Conversation l.calls := by
  obtain ⟨l', closing, hl', hcalls⟩ := refused_calls h
  obtain rfl : l = l' := Option.some.inj (hl.symm.trans hl')
  rcases hcalls with ⟨-, hcalls⟩ | ⟨calls, hcalls, hdrain⟩
  · rw [hcalls]
    exact (Conversation.start false).append (.close closing)
  · rw [hcalls]
    exact (Conversation.start true).append ((Conversation.drain hdrain).append (.close closing))

variable [FrameHandler η]

/-! ## Rounds -/

/-- All that a round can do: the drain in front of the read fails; the read times out, which counts
as no data; the read fails or meets the end; the engine does not accept what was read; or it does,
and the drain behind it gives the answer. -/
theorem runOnce_outcome (s : Session w η) :
    (∃ e s₁, s.flush = (.error e, s₁) ∧ s.runOnce = (.error e, s₁)) ∨
    ∃ s₁ got l, s.flush = (.ok (), s₁) ∧ Transport.read s₁.link receiveChunk = (got, l) ∧
      ((got = .error .timeout ∧ s.runOnce = (.ok 0, { s₁ with link := l })) ∨
        ((got = .ok [] ∨ ∃ f, f ≠ .timeout ∧ got = .error f) ∧
          s.runOnce = (.error .transportClosed, { s₁ with link := l })) ∨
        ∃ input s₂, got = .ok input ∧ input ≠ [] ∧
          ((Session.deliver { s₁ with link := l } input = (false, s₂) ∧
              s.runOnce = (.error .parse, s₂)) ∨
            (Session.deliver { s₁ with link := l } input = (true, s₂) ∧
              s.runOnce = (s₂.flush.1.map fun _ => input.length, s₂.flush.2)))) := by
  unfold runOnce
  rcases hflush : s.flush with ⟨e | _, s₁⟩
  · exact .inl ⟨e, s₁, rfl, rfl⟩
  · refine .inr ⟨s₁, (Transport.read s₁.link receiveChunk).1,
      (Transport.read s₁.link receiveChunk).2, rfl, rfl, ?_⟩
    simp only
    rcases hr : Transport.read s₁.link receiveChunk with ⟨f | _ | ⟨b, bs⟩, l⟩
    · -- a timeout is no failure of the round, any other fault is
      by_cases hf : f = .timeout
      · subst hf
        exact .inl ⟨rfl, rfl⟩
      · refine .inr (.inl ⟨.inr ⟨f, hf, rfl⟩, ?_⟩)
        cases f with
        | timeout => exact absurd rfl hf
        | _ => rfl
    · exact .inr (.inl ⟨.inl rfl, rfl⟩)
    · refine .inr (.inr ⟨b :: bs, (Session.deliver { s₁ with link := l } (b :: bs)).2, rfl,
        List.cons_ne_nil b bs, ?_⟩)
      simp only
      rcases hdeliver : Session.deliver { s₁ with link := l } (b :: bs) with ⟨_ | _, s₂⟩
      · exact .inl ⟨rfl, rfl⟩
      · refine .inr ⟨rfl, ?_⟩
        simp only
        rcases s₂.flush with ⟨e | _, s₃⟩
        · rfl
        · rfl

/-- Bytes for the engine are noted with what it makes of them. -/
theorem deliver_calls {s s' : Session (Logged w) η} {input : Bytes} {accepted : Bool}
    (h : s.deliver input = (accepted, s')) :
    s'.link.calls = s.link.calls ++ [.receive input accepted] ∧ s'.isOpen = s.isOpen := by
  cases h
  exact ⟨rfl, rfl⟩

theorem runOnce_calls (s : Session (Logged w) η) :
    ∃ calls, s.runOnce.2.link.calls = s.link.calls ++ calls ∧ Round calls s.runOnce.1 := by
  by_cases hopen : s.isOpen = true
  · obtain ⟨calls, hcalls, hdrain⟩ := flush_calls hopen
    have hopen₁ := s.isOpen_flush
    obtain ⟨e, s₁, hflush, hround⟩ | ⟨s₁, got, l, hflush, hr, hround⟩ := s.runOnce_outcome
    · rw [hflush] at hcalls hdrain
      rw [hround]
      exact ⟨calls, hcalls, .undrained hdrain⟩
    · rw [hflush] at hcalls hdrain hopen₁
      have hl : l.calls = s.link.calls ++ (calls ++ [.read receiveChunk got]) := by
        rw [(Logged.of_note hr).2, hcalls, List.append_assoc]
      rcases hround with ⟨rfl, hround⟩ | ⟨rfl | ⟨f, hf, rfl⟩, hround⟩ |
        ⟨input, s₂, rfl, hinput, hround⟩
      · rw [hround]
        exact ⟨_, hl, .idle hdrain⟩
      · rw [hround]
        exact ⟨_, hl, .ended hdrain⟩
      · rw [hround]
        exact ⟨_, hl, .failed hdrain hf⟩
      · have hlength : input.length ≤ receiveChunk := Transport.read_length_le hr
        rcases hround with ⟨hdeliver, hround⟩ | ⟨hdeliver, hround⟩
        · rw [hround]
          refine ⟨_, ?_, .rejected hdrain hinput hlength⟩
          rw [(deliver_calls hdeliver).1, hl]
          simp
        · -- the connection is still held, so the second drain makes calls as the first did
          obtain ⟨hreceive, hopen₂⟩ := deliver_calls hdeliver
          obtain ⟨calls', hcalls', hdrain'⟩ := flush_calls (hopen₂.trans (hopen₁.trans hopen))
          rw [hround]
          refine ⟨_, ?_, .received hdrain hinput hlength hdrain'⟩
          rw [hcalls', hreceive, hl]
          simp
  · -- without a connection the drain in front of the read fails, and nothing is called
    have hreleased := flush_released (Bool.eq_false_iff.2 hopen)
    obtain ⟨e, s₁, hflush, hround⟩ | ⟨s₁, got, l, hflush, -⟩ := s.runOnce_outcome
    · rw [hreleased] at hflush
      cases hflush
      rw [hround]
      exact ⟨[], by simp, .released⟩
    · rw [hreleased] at hflush
      cases hflush

theorem runWithin_calls (rounds : Nat) (s : Session (Logged w) η) :
    ∃ calls, (runWithin rounds s).2.link.calls = s.link.calls ++ calls ∧ Conversation calls := by
  induction rounds generalizing s with
  | zero =>
      unfold runWithin
      split <;> exact ⟨[], by simp, .silence⟩
  | succ rounds ih =>
      unfold runWithin
      split
      next =>
        obtain ⟨calls, hcalls, hround⟩ := s.runOnce_calls
        rcases hs : s.runOnce with ⟨e | n, s₁⟩
        · rw [hs] at hcalls
          exact ⟨calls, hcalls, .round hround⟩
        · -- the round succeeded, and the other rounds follow
          obtain ⟨calls', hcalls', hrest⟩ := ih s₁
          rw [hs] at hcalls
          refine ⟨calls ++ calls', ?_, (Conversation.round hround).append hrest⟩
          rw [hcalls', hcalls, List.append_assoc]
      next => exact ⟨[], by simp, .silence⟩

/-! ## Operations -/

/-- An operation of the caller's on a session. A run is cut off behind some number of rounds. -/
inductive Op (β : Type)
  | submit (fields : List HeaderField) (body : Option β)
  | runOnce
  | run (rounds : Nat)

def Op.apply (s : Session w η) : Op β → Session w η
  | .submit fields body => (s.submit fields body).2
  | .runOnce => s.runOnce.2
  | .run rounds => (runWithin rounds s).2

def perform (s : Session w η) (ops : List (Op β)) : Session w η := ops.foldl Op.apply s

theorem Op.apply_calls (s : Session (Logged w) η) (op : Op β) :
    ∃ calls, (op.apply s).link.calls = s.link.calls ++ calls ∧ Conversation calls := by
  cases op with
  | submit fields body => exact s.submit_calls fields body
  | runOnce =>
      obtain ⟨calls, hcalls, hround⟩ := s.runOnce_calls
      exact ⟨calls, hcalls, .round hround⟩
  | run rounds => exact runWithin_calls rounds s

/-- What operations add to the log is a conversation. -/
theorem conversation_perform (s : Session (Logged w) η) (ops : List (Op β)) :
    ∃ calls, (s.perform ops).link.calls = s.link.calls ++ calls ∧ Conversation calls := by
  induction ops generalizing s with
  | nil => exact ⟨[], (List.append_nil _).symm, .silence⟩
  | cons op ops ih =>
      obtain ⟨calls, hcalls, hop⟩ := op.apply_calls s
      obtain ⟨calls', hcalls', hrest⟩ := ih (op.apply s)
      refine ⟨calls ++ calls', ?_, hop.append hrest⟩
      show ((op.apply s).perform ops).link.calls = _
      rw [hcalls', hcalls, List.append_assoc]

/-- The log of a session is a conversation, whatever was done with it. -/
theorem conversation_new {link : w} {handler : η} {s : Session (Logged w) η}
    (h : new (⟨link, []⟩ : Logged w) handler = .ok s) (ops : List (Op β)) :
    Conversation (s.perform ops).link.calls := by
  obtain ⟨calls, hcalls, hdrain⟩ := new_calls h
  obtain ⟨calls', hcalls', hrest⟩ := s.conversation_perform ops
  rw [hcalls', hcalls]
  exact ((Conversation.start true).append (.drain hdrain)).append hrest

end Session

end HttpExchange
