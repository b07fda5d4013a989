import HttpExchange.Proofs.Conversation
import HttpExchange.Proofs.Release
import HttpExchange.Session.LineEngine
import HttpExchange.Transport.Script

set_option autoImplicit false

/-! # The end of a session

The connection that a session was started over is closed once, and nothing is done to it behind
that. A construction that is refused drops the half-started session, and so closes the connection. A
session that was built holds its connection and has never closed it (`Held`), and every operation
leaves it so, whether it succeeds or fails: no turn of the session closes. Only its end does, and a
session that is closed finds nothing left to close when it is dropped right behind. The main
statement is `closes_once`. -/

namespace HttpExchange

/-! ## Turns that close nothing -/

theorem Drains.unclosed {calls : List Call} {answer : Except Error Unit}
    (h : Drains calls answer) : Unclosed calls :=
  fun call hcall => (h.isOutbound call hcall).not_isClose

theorem Round.unclosed {calls : List Call} {answer : Except Error Nat} (h : Round calls answer) :
    Unclosed calls := by
  cases h with
  | released => exact List.forall_mem_nil _
  | undrained h => exact h.unclosed
  | idle h => exact h.unclosed.concat id
  | failed h => exact h.unclosed.concat id
  | ended h => exact h.unclosed.concat id
  | rejected h => exact h.unclosed.append (by simp [Unclosed, Call.IsClose])
  | received h _ _ h' =>
      exact (h.unclosed.append (by simp [Unclosed, Call.IsClose])).append h'.unclosed

namespace Session

variable {w η β : Type} [Link w β]

/-! ## Sessions that hold their connection -/

/-- The session holds its connection, which was never closed. -/
structure Held (s : Session (Logged w) η) : Prop where
  isOpen : s.isOpen = true
  unclosed : Unclosed s.link.calls

theorem release_held {s : Session w η} (h : s.isOpen = true) :
    s.release = (some (Transport.close s.link).1,
      { s with link := (Transport.close s.link).2, isOpen := false }) := by
  rw [release, if_pos h]

theorem release_released {s : Session w η} (h : s.isOpen = false) : s.release = (none, s) := by
  rw [release, if_neg (by simp [h])]

@[simp] theorem isOpen_release (s : Session w η) : s.release.2.isOpen = false := by
  cases h : s.isOpen with
  | false => rw [release_released h, h]
  | true => rw [release_held h]

/-- Closing a session drops it too, and that finds nothing left to close. -/
theorem close_link (s : Session w η) : s.close.2 = s.drop := by
  have hclose : s.close.2 = s.release.2.drop := rfl
  rw [hclose, drop, release_released s.isOpen_release, drop]

/-- Closing a session tells whether its connection could be closed properly. -/
theorem close_answer {s : Session w η} (h : s.isOpen = true) :
    s.close.1 = (Transport.close s.link).1.mapError fun _ => .transportClosed := by
  unfold close
  rw [release_held h]
  cases (Transport.close s.link).1 with
  | error f => rfl
  | ok => rfl

namespace Held

variable {s : Session (Logged w) η}

theorem drop (h : s.Held) : ClosedOnce s.drop.calls := by
  obtain ⟨closing, hcalls⟩ := drop_calls h.isOpen
  exact ⟨s.link.calls, closing, hcalls, h.unclosed⟩

theorem close (h : s.Held) : ClosedOnce s.close.2.calls := by
  rw [close_link]
  exact h.drop

theorem submit (h : s.Held) (fields : List HeaderField) (body : Option β) :
    (s.submit fields body).2.Held := by
  unfold Session.submit
  rw [if_pos h.isOpen]
  -- accepted or not, the request is the only call
  split
  next stream l hsubmit =>
    refine ⟨h.isOpen, ?_⟩
    show Unclosed l.calls
    rw [(Logged.of_note hsubmit).2]
    exact h.unclosed.concat id
  next l hsubmit =>
    refine ⟨h.isOpen, ?_⟩
    show Unclosed l.calls
    rw [(Logged.of_note hsubmit).2]
    exact h.unclosed.concat id

end Held

/-! ## Construction -/

theorem held_of_new {link : w} {handler : η} {s : Session (Logged w) η}
    (h : new (⟨link, []⟩ : Logged w) handler = .ok s) : s.Held := by
  obtain ⟨calls, hcalls, hdrain⟩ := new_calls h
  refine ⟨?_, ?_⟩
  · unfold new at h
    split at h
    next => cases h
    next l _ =>
      have hflush := isOpen_flush (⟨l, handler, true⟩ : Session (Logged w) η)
      split at h
      next => cases h
      next hs =>
        cases h
        rwa [hs] at hflush
  · rw [hcalls]
    exact List.forall_mem_cons.2 ⟨id, hdrain.unclosed⟩

/-- A construction that is refused closes the connection as the last thing that it does. -/
theorem closedOnce_of_new {link : w} {handler : η} {r : Refusal (Logged w)}
    (h : new (⟨link, []⟩ : Logged w) handler = .error r) :
    ∃ l, r.released = some l ∧ ClosedOnce l.calls ∧
      ((r.error = .parameter ∧ ∃ closing, l.calls = [.start false, .close closing]) ∨
        r.error = .send ∧ ∃ drain closing, Drains drain (.error .send) ∧
          l.calls = .start true :: (drain ++ [.close closing])) := by
  obtain ⟨l, closing, hl, hcalls⟩ := refused_calls h
  refine ⟨l, hl, ?_⟩
  rcases hcalls with ⟨herror, hcalls⟩ | ⟨drain, hcalls, hdrain⟩
  · refine ⟨⟨[.start false], closing, hcalls, ?_⟩, .inl ⟨herror, closing, hcalls⟩⟩
    exact List.forall_mem_singleton.2 id
  · have herror := hdrain.of_error
    rw [herror] at hdrain
    refine ⟨⟨.start true :: drain, closing, hcalls, ?_⟩,
      .inr ⟨herror, drain, closing, hdrain, hcalls⟩⟩
    exact List.forall_mem_cons.2 ⟨id, hdrain.unclosed⟩

/-! ## Operations -/

variable [FrameHandler η]

theorem isOpen_deliver (s : Session w η) (input : Bytes) :
    (s.deliver input).2.isOpen = s.isOpen := rfl

/-- A round neither releases the connection nor takes it up again. -/
@[simp] theorem isOpen_runOnce (s : Session w η) : s.runOnce.2.isOpen = s.isOpen := by
  have hflush := s.isOpen_flush
  obtain ⟨e, s₁, hs₁, hround⟩ | ⟨s₁, got, l, hs₁, -, hround⟩ := s.runOnce_outcome
  · rw [hs₁] at hflush
    rw [hround]
    exact hflush
  · rw [hs₁] at hflush
    rcases hround with ⟨-, hround⟩ | ⟨-, hround⟩ | ⟨input, s₂, -, -, hround⟩
    · rw [hround]
      exact hflush
    · rw [hround]
      exact hflush
    · have hdeliver := isOpen_deliver { s₁ with link := l } input
      rcases hround with ⟨hs₂, hround⟩ | ⟨hs₂, hround⟩
      · rw [hs₂] at hdeliver
        rw [hround]
        exact hdeliver.trans hflush
      · rw [hs₂] at hdeliver
        rw [hround, isOpen_flush]
        exact hdeliver.trans hflush

namespace Held

variable {s : Session (Logged w) η}

theorem runOnce (h : s.Held) : s.runOnce.2.Held := by
  obtain ⟨calls, hcalls, hround⟩ := s.runOnce_calls
  refine ⟨s.isOpen_runOnce.trans h.isOpen, ?_⟩
  rw [hcalls]
  exact h.unclosed.append hround.unclosed

theorem runWithin (h : s.Held) (rounds : Nat) : (runWithin rounds s).2.Held := by
  fun_induction Session.runWithin rounds s with
  | case1 => exact h
  | case2 s _ rounds e s₁ hs₁ =>
      have h₁ := h.runOnce
      rwa [hs₁] at h₁
  | case3 s _ rounds n s₁ hs₁ ih =>
      have h₁ := h.runOnce
      rw [hs₁] at h₁
      exact ih h₁
  | case4 => exact h

/-- No operation of the caller's closes the connection. -/
theorem apply (h : s.Held) (op : Op β) : (op.apply s).Held := by
  cases op with
  | submit fields body => exact h.submit fields body
  | runOnce => exact h.runOnce
  | run rounds => exact h.runWithin rounds

theorem perform (h : s.Held) (ops : List (Op β)) : (s.perform ops).Held := by
  induction ops generalizing s with
  | nil => exact h
  | cons op ops ih => exact ih (h.apply op)

end Held

/-- **The connection of a session is closed once.** If the engine refuses to start, then the
connection is closed, and that is all that was done to it; if the preface cannot be drained, then
the connection is closed behind the drain that failed. Otherwise the preface was drained, and after
any operations, whatever they were answered with, the connection has not been closed. Dropping the
session and closing it then leave logs whose last call is their only close; so nothing is written,
flushed or read behind it, and a session that was closed is not closed again when it is dropped.
Closing fails if and only if the connection could not be closed properly. -/
theorem closes_once (link : w) (handler : η) :
    (∀ r, new (⟨link, []⟩ : Logged w) handler = .error r → ∃ l, r.released = some l ∧
      ClosedOnce l.calls ∧
      ((r.error = .parameter ∧ ∃ closing, l.calls = [.start false, .close closing]) ∨
        r.error = .send ∧ ∃ drain closing, Drains drain (.error .send) ∧
          l.calls = .start true :: (drain ++ [.close closing]))) ∧
    ∀ s, new (⟨link, []⟩ : Logged w) handler = .ok s →
      (∃ drain, Drains drain (.ok ()) ∧ s.link.calls = .start true :: drain) ∧
      ∀ ops : List (Op β), let s' := s.perform ops
        Unclosed s'.link.calls ∧ ClosedOnce s'.drop.calls ∧ ClosedOnce s'.close.2.calls ∧
        s'.close.1 = (Transport.close s'.link).1.mapError fun _ => .transportClosed := by
  refine ⟨fun r h => closedOnce_of_new h, fun s hnew => ⟨?_, fun ops => ?_⟩⟩
  · obtain ⟨drain, hcalls, hdrain⟩ := new_calls hnew
    exact ⟨drain, hdrain, hcalls⟩
  · intro s'
    have hs' : s'.Held := (held_of_new hnew).perform ops
    exact ⟨hs'.unclosed, hs'.drop, hs'.close, close_answer hs'.isOpen⟩

/-- A connection that cannot be closed properly and takes so many writes, beside an engine. -/
def abandonedLink (writesOk : Option Nat) (startFails : Bool) : Wire Script LineEngine :=
  ⟨{ steps := [], behaviour := { writesOk, closeFails := true } }, { settings := { startFails } }⟩

/-- The engine does not start; the preface cannot be written; and a session fails in a round, is
left open by that, and cannot be closed properly. -/
theorem closes_once_abandoned :
    (∃ r l, new (⟨abandonedLink none true, []⟩ : Logged _) () = .error r ∧
      r.error = .parameter ∧ r.released = some l ∧
      ∃ closing, l.calls = [.start false, .close closing]) ∧
    (∃ r l, new (⟨abandonedLink (some 0) false, []⟩ : Logged _) () = .error r ∧
      r.error = .send ∧ r.released = some l ∧ ClosedOnce l.calls) ∧
    ∃ s, new (⟨abandonedLink none false, []⟩ : Logged _) () = .ok s ∧
      let s' := s.perform [.submit [⟨":path", "/"⟩] none, .runOnce]
      s'.runOnce.1 = .error .transportClosed ∧ Unclosed s'.runOnce.2.link.calls ∧
      s'.close.1 = .error .transportClosed ∧ ClosedOnce s'.close.2.calls ∧
      ClosedOnce s'.drop.calls := by
  have hrefused : ((new (⟨abandonedLink none true, []⟩ : Logged _) ()).map fun _ =>
      ()).mapError Refusal.error = .error .parameter := by decide +kernel
  have hmute : ((new (⟨abandonedLink (some 0) false, []⟩ : Logged _) ()).map fun _ =>
      ()).mapError Refusal.error = .error .send := by decide +kernel
  have hround : (new (⟨abandonedLink none false, []⟩ : Logged _) ()).toOption.map (fun s =>
      let s' := s.perform [.submit [⟨":path", "/"⟩] none, .runOnce]
      (s'.runOnce.1, (Transport.close s'.link).1)) =
      some (.error .transportClosed, .error .connectionClosed) := by decide +kernel
  refine ⟨?_, ?_, ?_⟩
  · obtain ⟨r, hr, herror⟩ := error_of_mapError hrefused
    obtain ⟨l, hl, -, ⟨-, hcalls⟩ | ⟨hsend, -⟩⟩ := (closes_once (abandonedLink none true) ()).1 r hr
    · exact ⟨r, l, hr, herror, hl, hcalls⟩
    · cases herror.symm.trans hsend
  · obtain ⟨r, hr, herror⟩ := error_of_mapError hmute
    obtain ⟨l, hl, hclosed, -⟩ := (closes_once (abandonedLink (some 0) false) ()).1 r hr
    exact ⟨r, l, hr, herror, hl, hclosed⟩
  · obtain ⟨s, hs, hround⟩ := ok_of_map_toOption hround
    obtain ⟨hfails, hcloses⟩ := Prod.mk.inj hround
    obtain ⟨-, hlife⟩ := (closes_once (abandonedLink none false) ()).2 s hs
    obtain ⟨-, hdrop, hclose, hanswer⟩ := hlife [.submit [⟨":path", "/"⟩] none, .runOnce]
    obtain ⟨hunclosed, -⟩ := hlife [.submit [⟨":path", "/"⟩] none, .runOnce, .runOnce]
    rw [hcloses] at hanswer
    exact ⟨s, hs, hfails, hunclosed, hanswer, hclose, hdrop⟩

end Session

end HttpExchange
