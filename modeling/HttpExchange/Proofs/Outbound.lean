import HttpExchange.Proofs.Conversation
import HttpExchange.Session.LineEngine
import HttpExchange.Transport.Script
import Mathlib.Data.List.Forall2

set_option autoImplicit false

/-! # What reaches the wire of the engine's runs

The engine hands out runs of bytes, and a run counts as sent once the next one is asked for. At
every time the wire carries a front part of each run that was handed out, in their order, so nothing
is repeated and nothing comes out of order; and unless something was accepted behind a refused
write, it carries a front part of all that the engine has handed out (`Carried`). Each turn of a
conversation keeps to this and, if no write is refused, ends with all of its runs on the wire
(`Carries`); turns can be put together. Hence `outbound_carried`. A refused write ends its round
with an error, but the next round asks for the next run: if a later write succeeds, then what was
left of a run is missing on the wire (`not_outbound_prefix`). -/

namespace HttpExchange

def Call.run? : Call → Option Bytes
  | .pending run => run
  | _ => none

def runs (calls : List Call) : List Bytes := calls.filterMap Call.run?

@[simp] theorem runs_append (calls calls' : List Call) :
    runs (calls ++ calls') = runs calls ++ runs calls' := List.filterMap_append

@[simp] theorem runs_pending (run : Bytes) (calls : List Call) :
    runs (.pending (some run) :: calls) = run :: runs calls := rfl

/-- Behind a refused write nothing was accepted. -/
def RefusalsLast (calls : List Call) : Prop :=
  ∀ front call back, calls = front ++ call :: back → call.IsRefusal → onWire back = []

/-- The wire carries a front part of each run, in order, and a front part of all runs together
unless something was accepted behind a refused write. -/
structure Carried (past : List Call) : Prop where
  parts : ∃ parts, List.Forall₂ (· <+: ·) parts (runs past) ∧ onWire past = parts.flatten
  unbroken : RefusalsLast past → onWire past <+: (runs past).flatten

/-- At every time in these calls the wire carries the runs, and all of them are on the wire in the
end unless a write was refused. -/
structure Carries (calls : List Call) : Prop where
  carried : ∀ past, past <+: calls → Carried past
  whole : (∀ call ∈ calls, ¬ call.IsRefusal) → onWire calls = (runs calls).flatten

namespace RefusalsLast

variable {calls calls' : List Call}

/-- Once a write was refused, the wire stays as it is. -/
theorem behind {front back : List Call} {call : Call}
    (h : RefusalsLast (front ++ call :: back ++ calls')) (hrefused : call.IsRefusal) :
    onWire back = [] ∧ onWire calls' = [] := by
  have hback : onWire (back ++ calls') = [] :=
    h front call (back ++ calls') (List.append_assoc front _ calls') hrefused
  rwa [onWire_append, List.append_eq_nil_iff] at hback

theorem left (h : RefusalsLast (calls ++ calls')) : RefusalsLast calls := by
  rintro front call back rfl hrefused
  exact (h.behind hrefused).1

theorem right (h : RefusalsLast (calls ++ calls')) : RefusalsLast calls' := by
  rintro front call back rfl hrefused
  exact h (calls ++ front) call back (List.append_assoc calls front _).symm hrefused

end RefusalsLast

namespace Carried

theorem nil : Carried [] := ⟨⟨[], .nil, rfl⟩, fun _ => List.nil_prefix⟩

/-- What is carried comes behind what was carried before. -/
theorem append {calls past : List Call} (h : Carries calls) (h' : Carried past) :
    Carried (calls ++ past) := by
  have hcalls : Carried calls := h.carried calls (List.prefix_refl calls)
  constructor
  · obtain ⟨parts, hparts, hwire⟩ := hcalls.parts
    obtain ⟨parts', hparts', hwire'⟩ := h'.parts
    refine ⟨parts ++ parts', ?_, ?_⟩
    · rw [runs_append]
      exact List.rel_append hparts hparts'
    · rw [onWire_append, hwire, hwire', List.flatten_append]
  · intro hlast
    rw [onWire_append, runs_append, List.flatten_append]
    by_cases hnone : ∀ call ∈ calls, ¬ call.IsRefusal
    · rw [h.whole hnone]
      exact (List.prefix_append_right_inj _).2 (h'.unbroken hlast.right)
    · -- a write was refused, and nothing came on the wire since
      push Not at hnone
      obtain ⟨call, hcall, hrefused⟩ := hnone
      have hstill : onWire past = [] := by
        obtain ⟨front, back, rfl⟩ := List.append_of_mem hcall
        exact (hlast.behind hrefused).2
      rw [hstill, List.append_nil]
      exact (hcalls.unbroken hlast.left).trans (List.prefix_append _ _)

end Carried

namespace Carries

variable {calls calls' : List Call}

theorem append (h : Carries calls) (h' : Carries calls') : Carries (calls ++ calls') := by
  constructor
  · intro past hpast
    -- the past ends within the first part, or goes beyond it
    rcases List.prefix_or_prefix_of_prefix hpast (List.prefix_append calls calls') with
      hfront | ⟨back, rfl⟩
    · exact h.carried past hfront
    · exact .append h (h'.carried back ((List.prefix_append_right_inj calls).1 hpast))
  · intro hnone
    obtain ⟨hcalls, hcalls'⟩ := List.forall_mem_append.1 hnone
    rw [onWire_append, runs_append, List.flatten_append, h.whole hcalls, h'.whole hcalls']

/-- Calls that neither write nor ask for a run carry nothing. -/
theorem of_silent (hwrite : ∀ call ∈ calls, ¬ call.IsWrite)
    (hrun : ∀ call ∈ calls, call.run? = none) : Carries calls := by
  have hnothing : ∀ past, past <+: calls → onWire past = [] ∧ runs past = [] := by
    intro past hpast
    constructor
    · exact onWire_eq_nil fun call hcall => hwrite call (hpast.subset hcall)
    · exact List.filterMap_eq_nil_iff.2 fun call hcall => hrun call (hpast.subset hcall)
  constructor
  · intro past hpast
    obtain ⟨hwire, hruns⟩ := hnothing past hpast
    constructor
    · exact ⟨[], by rw [hruns]; exact .nil, hwire⟩
    · intro _
      rw [hwire]
      exact List.nil_prefix
  · intro _
    obtain ⟨hwire, hruns⟩ := hnothing calls (List.prefix_refl calls)
    rw [hwire, hruns]
    rfl

/-- A call that neither writes nor asks for a run. -/
theorem single {call : Call} (hwrite : ¬ call.IsWrite) (hrun : call.run? = none) :
    Carries [call] :=
  of_silent (by simpa using hwrite) (by simpa using hrun)

/-- A run that is being written out is on the wire with its front. -/
theorem run {run : Bytes} {writes : List Call} {answer : Except Error Unit}
    (h : WritesOut run writes answer) : Carries (.pending (some run) :: writes) := by
  -- no run is handed out while this one is written
  have hruns : ∀ past, past <+: writes → runs past = [] := by
    intro past hpast
    apply List.filterMap_eq_nil_iff.2
    intro call hcall
    obtain ⟨data, n, rfl, -⟩ := h.offers call (hpast.subset hcall)
    rfl
  constructor
  · intro past hpast
    rcases past with _ | ⟨call, past⟩
    · exact .nil
    · obtain ⟨rfl, htail⟩ := List.cons_prefix_cons.1 hpast
      have hfront : onWire past <+: run := h.onWire_prefix htail
      constructor
      · refine ⟨[onWire past], ?_, ?_⟩
        · rw [runs_pending, hruns past htail]
          exact .cons hfront .nil
        · exact (List.append_nil _).symm
      · intro _
        rw [runs_pending, hruns past htail, List.flatten_singleton]
        exact hfront
  · intro hnone
    rw [runs_pending, hruns writes (List.prefix_refl writes), List.flatten_singleton]
    cases answer with
    | ok => exact h.of_ok.1
    | error e =>
        obtain ⟨-, -, call, hcall, hrefused⟩ := h.of_error
        exact absurd hrefused (hnone call (List.mem_cons_of_mem _ hcall))

end Carries

/-! ## Turns -/

theorem Drains.carries {calls : List Call} {answer : Except Error Unit} (h : Drains calls answer) :
    Carries calls := by
  induction h with
  | unasked => exact .single id rfl
  | flushed => exact (Carries.run .done).append (.single id rfl)
  | unflushed => exact (Carries.run .done).append (.single id rfl)
  | stopped _ h => exact .run h
  | wrote _ h _ ih => exact (Carries.run h).append ih

theorem Round.carries {calls : List Call} {answer : Except Error Nat} (h : Round calls answer) :
    Carries calls := by
  cases h with
  | released => exact .of_silent (by simp) (by simp)
  | undrained h => exact h.carries
  | idle h => exact h.carries.append (.single id rfl)
  | failed h => exact h.carries.append (.single id rfl)
  | ended h => exact h.carries.append (.single id rfl)
  | rejected h => exact h.carries.append (.of_silent (by simp [Call.IsWrite]) (by simp [Call.run?]))
  | received h _ _ h' =>
      exact (h.carries.append (.of_silent (by simp [Call.IsWrite]) (by simp [Call.run?]))).append
        h'.carries

theorem Conversation.carries {calls : List Call} (h : Conversation calls) : Carries calls := by
  induction h with
  | silence => exact .of_silent (by simp) (by simp)
  | start => exact .single id rfl
  | submit => exact .single id rfl
  | drain h => exact h.carries
  | round h => exact h.carries
  | close => exact .single id rfl
  | append _ _ ih ih' => exact ih.append ih'

/-! ## A write that fails once -/

/-- A scripted connection on which the write with this number times out. -/
structure Lapse where
  script : Script
  number : Nat

namespace Lapse

def onScript {α : Type} (f : Script → α × Script) (c : Lapse) : α × Lapse :=
  ((f c.script).1, { c with script := (f c.script).2 })

theorem of_onScript {α : Type} {f : Script → α × Script} {c c' : Lapse} {a : α}
    (h : onScript f c = (a, c')) : f c.script = (a, c'.script) := by
  cases h
  rfl

/-- Counts the write, and accepts what the script lets it unless this is the one that fails. -/
def write (c : Lapse) (data : Bytes) : Except Fault Nat × Lapse :=
  if c.script.writes + 1 = c.number then
    (.error .timeout, { c with script := { c.script with writes := c.number } })
  else onScript (Script.write · data) c

theorem le_length_of_write {c c' : Lapse} {data : Bytes} {n : Nat}
    (h : c.write data = (.ok n, c')) : n ≤ data.length := by
  unfold write at h
  split at h
  next => cases h
  next => exact Script.le_length_of_write (of_onScript h)

instance : Transport Lapse where
  read c room := onScript (Script.read · room) c
  write := write
  flush := onScript Script.flush
  close := onScript Script.close
  supply c := Transport.supply c.script
  read_length_le h := Script.length_le_of_read (of_onScript h)
  supply_read h := Transport.supply_read (σ := Script) (of_onScript h)
  write_le_length := le_length_of_write

end Lapse

/-! ## Sessions -/

namespace Session

variable {w η β : Type} [Link w β] [FrameHandler η]

/-- **What the engine hands out reaches the wire in order.** Whatever the engine and the connection
do, and whatever is done with a session, failures included: at every time, and in a construction
that was refused too, the wire carries a front part of each run, in their order, and unless
something was accepted behind a refused write it carries a front part of all that was handed out.
From any point on, the same holds of the calls that come then, and if none of them is a refused
write, then all that was handed out in them is on the wire when the operations are over. -/
theorem outbound_carried (link : w) (handler : η) :
    (∀ r l, new (⟨link, []⟩ : Logged w) handler = .error r → r.released = some l →
      ∀ past, past <+: l.calls → Carried past) ∧
    ∀ s, new (⟨link, []⟩ : Logged w) handler = .ok s → ∀ ops : List (Op β),
      (∀ past, past <+: (s.perform ops).link.calls → Carried past) ∧
      ∀ later : List (Op β), ∃ calls,
        ((s.perform ops).perform later).link.calls = (s.perform ops).link.calls ++ calls ∧
        (∀ past, past <+: calls → Carried past) ∧
        ((∀ call ∈ calls, ¬ call.IsRefusal) → onWire calls = (runs calls).flatten) := by
  constructor
  · intro r l hnew hl
    exact (conversation_refused hnew hl).carries.carried
  · intro s hnew ops
    constructor
    · exact (conversation_new hnew ops).carries.carried
    · intro later
      obtain ⟨calls, hcalls, h⟩ := (s.perform ops).conversation_perform later
      exact ⟨calls, hcalls, h.carries.carried, h.carries.whole⟩

/-- A connection that takes eight bytes at a time and on which one write times out, with a line
engine beside it. -/
def lapseAt (number : Nat) : Wire Lapse LineEngine :=
  ⟨⟨{ steps := [.fault .timeout], behaviour := { writeLimit := some 8 } }, number⟩, {}⟩

def requestRound : List (Op BodyPieces) := [.submit [⟨":path", "/"⟩] none, .runOnce]

/-- The preface cannot be written; a request is cut off, and the next one is sent whole. -/
theorem outbound_carried_lapse :
    (∃ r l, new (⟨lapseAt 1, []⟩ : Logged (Wire Lapse LineEngine)) () = .error r ∧
      r.released = some l ∧ Carried l.calls) ∧
    ∃ s, new (⟨lapseAt 3, []⟩ : Logged (Wire Lapse LineEngine)) () = .ok s ∧
      Carried (s.perform requestRound).link.calls ∧
      ∃ calls, ((s.perform requestRound).perform requestRound).link.calls =
          (s.perform requestRound).link.calls ++ calls ∧
        onWire calls = (runs calls).flatten ∧ onWire calls = Text.encode "REQ 3 :path=/\n" := by
  constructor
  · have hnone : (new (⟨lapseAt 1, []⟩ : Logged (Wire Lapse LineEngine)) ()).toOption.isNone =
        true := by decide +kernel
    rcases hr : new (⟨lapseAt 1, []⟩ : Logged (Wire Lapse LineEngine)) () with r | s
    · obtain ⟨l, closing, hl, -⟩ := refused_calls hr
      exact ⟨r, l, rfl, hl, (outbound_carried (lapseAt 1) ()).1 r l hr hl _ (List.prefix_refl _)⟩
    · rw [hr] at hnone
      cases hnone
  · -- the second request and its round, call by call
    have hlog : (new (⟨lapseAt 3, []⟩ : Logged (Wire Lapse LineEngine)) ()).toOption.map
        (fun s => (((s.perform requestRound).perform requestRound).link.calls.drop
          (s.perform requestRound).link.calls.length)) = some
        [.submit [⟨":path", "/"⟩] (some 3), .pending (some (Text.encode "REQ 3 :path=/\n")),
          .write (Text.encode "REQ 3 :path=/\n") (.ok 8), .write (Text.encode "ath=/\n") (.ok 6),
          .pending (some []), .flush (.ok ()), .read receiveChunk (.error .timeout)] := by
      decide +kernel
    obtain ⟨s, hs, hdrop⟩ := ok_of_map_toOption hlog
    obtain ⟨hcarried, hlater⟩ := (outbound_carried (lapseAt 3) ()).2 s hs requestRound
    obtain ⟨calls, hcalls, -, hwhole⟩ := hlater requestRound
    rw [hcalls, List.drop_left] at hdrop
    refine ⟨s, hs, hcarried _ (List.prefix_refl _), calls, hcalls, hwhole ?_, ?_⟩
    · rw [hdrop]
      decide
    · rw [hdrop]
      decide +kernel

/-- What was left of the first request is missing on the wire in front of the second. -/
theorem not_outbound_prefix :
    ∃ s, new (⟨lapseAt 3, []⟩ : Logged (Wire Lapse LineEngine)) () = .ok s ∧
      onWire (s.perform (requestRound ++ requestRound)).link.calls =
        Text.encode "PREFACE\nREQ 1 :pREQ 3 :path=/\n" ∧
      (runs (s.perform (requestRound ++ requestRound)).link.calls).flatten =
        Text.encode "PREFACE\nREQ 1 :path=/\nREQ 3 :path=/\n" ∧
      ¬ onWire (s.perform (requestRound ++ requestRound)).link.calls <+:
        (runs (s.perform (requestRound ++ requestRound)).link.calls).flatten := by
  have hlog : (new (⟨lapseAt 3, []⟩ : Logged (Wire Lapse LineEngine)) ()).toOption.map
      (fun s => (onWire (s.perform (requestRound ++ requestRound)).link.calls,
        (runs (s.perform (requestRound ++ requestRound)).link.calls).flatten)) =
      some (Text.encode "PREFACE\nREQ 1 :pREQ 3 :path=/\n",
        Text.encode "PREFACE\nREQ 1 :path=/\nREQ 3 :path=/\n") := by decide +kernel
  obtain ⟨s, hs, hbytes⟩ := ok_of_map_toOption hlog
  obtain ⟨hwire, hruns⟩ := Prod.mk.inj hbytes
  refine ⟨s, hs, hwire, hruns, ?_⟩
  rw [hwire, hruns]
  decide +kernel

end Session

end HttpExchange
