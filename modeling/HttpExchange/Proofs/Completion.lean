import HttpExchange.Proofs.Conversation
import HttpExchange.Session.LineEngine
import HttpExchange.Transport.Script
import Mathlib.Data.Set.Card

set_option autoImplicit false

/-! # Runs that end

A session makes rounds as long as its engine is active, and nothing obliges the engine to come to
rest. The peer ends the run: if reads play a script of pieces and faults and then meet the close
(`Plays`), then every round that succeeds has used up a byte or a fault (`Plays.runOnce`), and the
close fails the round that meets it. So a run takes one round for each byte and each fault at most,
and one more (`Plays.completes`). `Completes` counts the rounds of a run without a bound on them,
and `runWithin` agrees with it as soon as its bound suffices (`Completes.runWithin`).

The drains within a round end because an engine has a backlog. That asks no more of it than that it
gives finitely many runs while nothing else is done to it: these can be counted
(`FrameEngine.Operations.engine`). The main statement `run_completes` is about every engine of that
kind. -/

namespace HttpExchange

/-! ## Peers that play a script -/

namespace Script

def Step.isFault : Step → Bool
  | .data _ => false
  | .fault _ => true

def stock (steps : List Step) : Nat := (steps.flatMap Step.bytes).length + steps.countP Step.isFault

@[simp] theorem stock_data (bs : Bytes) (rest : List Step) :
    stock (.data bs :: rest) = bs.length + stock rest := by
  simp [stock, Step.bytes, Step.isFault, Nat.add_assoc]

@[simp] theorem stock_fault (f : Fault) (rest : List Step) :
    stock (.fault f :: rest) = stock rest + 1 := by
  simp [stock, Step.bytes, List.countP_cons, Step.isFault, Nat.add_assoc]

/-- What a read may answer when these steps are next, and the steps that are left then: a piece or a
front part of it, a fault, or nothing if no step is left. -/
inductive Meets : List Step → Except Fault Bytes → List Step → Prop
  | ended : Meets [] (.ok []) []
  | fault (f : Fault) (rest : List Step) : Meets (.fault f :: rest) (.error f) rest
  | piece (bs : Bytes) (rest : List Step) : Meets (.data bs :: rest) (.ok bs) rest
  | front {front back : Bytes} (rest : List Step) (hfront : front ≠ []) (hback : back ≠ []) :
      Meets (.data (front ++ back) :: rest) (.ok front) (.data back :: rest)

/-- A read that does not meet the close uses something up. -/
theorem Meets.stock_lt {steps rest : List Step} {got : Except Fault Bytes}
    (h : Meets steps got rest) (hgot : got ≠ .ok []) : stock rest < stock steps := by
  cases h with
  | ended => exact absurd rfl hgot
  | fault f rest =>
      rw [stock_fault]
      exact Nat.lt_succ_self _
  | piece bs rest =>
      have hbs : bs ≠ [] := fun hnil => hgot (congrArg Except.ok hnil)
      have := List.length_pos_iff.2 hbs
      rw [stock_data]
      omega
  | front rest hfront =>
      have := List.length_pos_iff.2 hfront
      rw [stock_data, stock_data, List.length_append]
      omega

end Script

open Script (Step Meets stock)

section Peers

variable {σ : Type} [Transport σ]

/-- Reads follow the steps that the relation gives, and nothing else that is done to the connection
changes what they will meet. -/
structure Playback (R : σ → List Step → Prop) : Prop where
  read : ∀ {c c' : σ} {steps : List Step} {room : Nat} {got : Except Fault Bytes}, R c steps →
    0 < room → Transport.read c room = (got, c') → ∃ rest, Meets steps got rest ∧ R c' rest
  write : ∀ {c c' : σ} {steps : List Step} {data : Bytes} {answer : Except Fault Nat}, R c steps →
    Transport.write c data = (answer, c') → R c' steps
  flush : ∀ {c c' : σ} {steps : List Step} {answer : Except Fault Unit}, R c steps →
    Transport.flush c = (answer, c') → R c' steps

/-- The reads of the connection play these steps, in whatever pieces, and then meet the close. Its
writes and flushes may do anything. -/
def Plays (c : σ) (steps : List Step) : Prop := ∃ R : σ → List Step → Prop, Playback R ∧ R c steps

theorem plays_playback : Playback (Plays (σ := σ)) where
  read := by
    rintro c c' steps room got ⟨R, hR, hc⟩ hroom hr
    obtain ⟨rest, hmeets, hrest⟩ := hR.read hc hroom hr
    exact ⟨rest, hmeets, R, hR, hrest⟩
  write := by
    rintro c c' steps data answer ⟨R, hR, hc⟩ hw
    exact ⟨R, hR, hR.write hc hw⟩
  flush := by
    rintro c c' steps answer ⟨R, hR, hc⟩ hf
    exact ⟨R, hR, hR.flush hc hf⟩

/-- Writing out leaves the script alone, whether it succeeds or not. -/
theorem Playback.writeAll {R : σ → List Step → Prop} (hR : Playback R) {c : σ} {steps : List Step}
    (h : R c steps) (data : Bytes) : R (writeAll c data).2 steps := by
  fun_induction HttpExchange.writeAll c data with
  | case1 => exact h
  | case2 c b bs f c' hw => exact hR.write h hw
  | case3 c b bs c' hw => exact hR.write h hw
  | case4 c b bs n c' hw ih => exact ih (hR.write h hw)

/-- A connection beside an engine plays its script to the session. -/
theorem Playback.wire {R : σ → List Step → Prop} (hR : Playback R) (ε : Type) :
    Playback fun (l : Wire σ ε) steps => R l.connection steps where
  read h hroom hr := hR.read h hroom (Wire.of_onConnection hr).1
  write h hw := hR.write h (Wire.of_onConnection hw).1
  flush h hf := hR.flush h (Wire.of_onConnection hf).1

end Peers

theorem Script.playback : Playback fun (c : Script) steps => c.steps = steps where
  read := by
    rintro c c' _ room got rfl hroom hr
    change c.read room = (got, c') at hr
    unfold Script.read at hr
    simp only at hr
    split at hr
    next hs =>
      cases hr
      exact ⟨[], by rw [hs]; exact .ended, hs⟩
    next f rest hs =>
      cases hr
      exact ⟨rest, by rw [hs]; exact .fault f rest, rfl⟩
    next bs rest hs =>
      cases hr
      rw [hs]
      -- the piece is given whole, or its front is given and the back stays
      by_cases hback : bs.drop room = []
      · rw [if_pos hback, List.take_of_length_le (List.drop_eq_nil_iff.1 hback)]
        exact ⟨rest, .piece bs rest, rfl⟩
      · rw [if_neg hback]
        refine ⟨_, ?_, rfl⟩
        have hfront : bs.take room ≠ [] := by
          intro hnil
          rcases List.take_eq_nil_iff.1 hnil with hzero | rfl
          · exact absurd hzero (Nat.ne_of_gt hroom)
          · exact hback List.drop_nil
        have hmeets := Meets.front rest hfront hback
        rwa [List.take_append_drop] at hmeets
  write := by
    rintro c c' _ data answer rfl hw
    change c.write data = (answer, c') at hw
    unfold Script.write at hw
    simp only at hw
    split at hw <;> cases hw <;> rfl
  flush := by
    rintro c c' _ answer rfl hf
    cases hf
    rfl

/-- A script plays its own steps, however it treats what is written to it. -/
theorem Script.plays (c : Script) : Plays c c.steps := ⟨_, Script.playback, rfl⟩

/-! ## Engines that give finitely many runs -/

namespace FrameEngine

/-- The operations of a frame engine, without a bound on what it has queued. -/
structure Operations (ε β : Type) where
  start : ε → Bool × ε
  submit : ε → List HeaderField → Option β → Option Nat × ε
  pendingSend : ε → Option Bytes × ε
  receive : ε → Bytes → Received ε
  isActive : ε → Bool

namespace Operations

variable {ε β : Type} (ops : Operations ε β)

/-- The engine gives a run that is not empty when it is asked for one behind `n` other times, with
nothing else done to it in between. -/
def GivesRun (e : ε) (n : Nat) : Prop :=
  ∃ run, run ≠ [] ∧ (ops.pendingSend ((fun e => (ops.pendingSend e).2)^[n] e)).1 = some run

/-- Whatever state the engine is in, it gives finitely many runs that are not empty as long as
nothing else is done to it. -/
def FinitelyManyRuns : Prop := ∀ e, {n | ops.GivesRun e n}.Finite

/-- The number of runs that the engine would give if nothing else were done to it. -/
noncomputable def runsToCome (e : ε) : Nat := {n | ops.GivesRun e n}.ncard

variable {ops}

/-- A run that is given is no longer to come. -/
theorem runsToCome_lt (hops : ops.FinitelyManyRuns) {e e' : ε} {run : Bytes}
    (hask : ops.pendingSend e = (some run, e')) (hrun : run ≠ []) :
    ops.runsToCome e' < ops.runsToCome e := by
  have hgives : ops.GivesRun e 0 := ⟨run, hrun, congrArg Prod.fst hask⟩
  -- what comes behind this run came one asking later when it was still to come
  have hlater : ∀ n, ops.GivesRun e' n → ops.GivesRun e (n + 1) := by
    rintro n ⟨run', hrun', hask'⟩
    refine ⟨run', hrun', ?_⟩
    rwa [Function.iterate_succ_apply, hask]
  have hsubset : Nat.succ '' {n | ops.GivesRun e' n} ⊂ {n | ops.GivesRun e n} := by
    refine ⟨Set.image_subset_iff.2 hlater, ?_⟩
    intro hall
    obtain ⟨n, -, hn⟩ := hall hgives
    exact Nat.succ_ne_zero n hn
  calc ops.runsToCome e'
      = (Nat.succ '' {n | ops.GivesRun e' n}).ncard :=
        (Set.ncard_image_of_injective _ Nat.succ_injective).symm
    _ < ops.runsToCome e := Set.ncard_lt_ncard hsubset (hops e)

/-- The engine with these operations. Its backlog is the number of runs to come. -/
@[reducible] noncomputable def engine (ops : Operations ε β) (hops : ops.FinitelyManyRuns) :
    FrameEngine ε β where
  start := ops.start
  submit := ops.submit
  pendingSend := ops.pendingSend
  receive := ops.receive
  isActive := ops.isActive
  backlog := ops.runsToCome
  backlog_pendingSend := runsToCome_lt hops

end Operations

end FrameEngine

/-! ## Rounds -/

section Rounds

variable {σ ε η β : Type} [Transport σ] [FrameEngine ε β]

/-- Asking the engine for a run does nothing to the connection. -/
theorem Plays.asked {l l' : Wire σ ε} {steps : List Step} {run : Option Bytes}
    (h : Plays l.connection steps) (hask : FrameEngine.pendingSend l = (run, l')) :
    Plays l'.connection steps := by
  rwa [(Wire.of_onEngine hask).2]

/-- A drain writes and flushes, so what the next read will meet stays as it is. -/
theorem Plays.drainQueue {l : Wire σ ε} {steps : List Step} (h : Plays l.connection steps) :
    Plays (drainQueue l).2.connection steps := by
  have hwire := (plays_playback (σ := σ)).wire ε
  -- the cases are those of `drainQueue_calls`
  fun_induction HttpExchange.drainQueue l with
  | case1 l l₁ hp => exact h.asked hp
  | case2 l l₁ hp f l₂ hf => exact hwire.flush (h.asked hp) hf
  | case3 l l₁ hp l₂ hf => exact hwire.flush (h.asked hp) hf
  | case4 l b bs l₁ hp e l₂ hw =>
      have hwritten := hwire.writeAll (h.asked hp) (b :: bs)
      rwa [hw] at hwritten
  | case5 l b bs l₁ hp l₂ hw ih =>
      have hwritten := hwire.writeAll (h.asked hp) (b :: bs)
      rw [hw] at hwritten
      exact ih hwritten

theorem Plays.flush {s : Session (Wire σ ε) η} {steps : List Step}
    (h : Plays s.link.connection steps) : Plays s.flush.2.link.connection steps := by
  unfold Session.flush
  split
  · exact h.drainQueue
  · exact h

variable [FrameHandler η]

/-- A round that succeeds has used up a byte or a fault of the script. -/
theorem Plays.runOnce {s s' : Session (Wire σ ε) η} {steps : List Step} {n : Nat}
    (h : Plays s.link.connection steps) (hround : s.runOnce = (.ok n, s')) :
    ∃ rest, stock rest < stock steps ∧ Plays s'.link.connection rest := by
  obtain ⟨e, s₁, -, hfails⟩ | ⟨s₁, got, l, hflush, hr, hread⟩ := s.runOnce_outcome
  · cases hround.symm.trans hfails
  · -- the drain leaves the script alone, and the read takes a step of it
    have hdrained := h.flush
    rw [hflush] at hdrained
    obtain ⟨rest, hmeets, hrest⟩ :=
      plays_playback.read hdrained (by decide) (Wire.of_onConnection hr).1
    rcases hread with ⟨rfl, hidle⟩ | ⟨-, hfails⟩ | ⟨input, s₂, rfl, hinput, hdelivered⟩
    · cases hround.symm.trans hidle
      exact ⟨rest, hmeets.stock_lt nofun, hrest⟩
    · cases hround.symm.trans hfails
    · have hlt := hmeets.stock_lt fun hnil => hinput (Except.ok.inj hnil)
      rcases hdelivered with ⟨-, hfails⟩ | ⟨hdeliver, hanswer⟩
      · cases hround.symm.trans hfails
      · -- the engine takes the bytes without the connection, and the drain behind leaves the script
        have hengine : s₂.link.connection = l.connection :=
          congrArg (fun r => r.2.link.connection) hdeliver.symm
        have hs' : s' = s₂.flush.2 := congrArg Prod.snd (hround.symm.trans hanswer)
        rw [← hengine] at hrest
        rw [hs']
        exact ⟨rest, hlt, hrest.flush⟩

end Rounds

/-! ## Runs -/

namespace Session

section Runs

variable {w η β : Type} [Link w β] [FrameHandler η]

/-- Making rounds while the engine is active ends behind so many of them, with this answer and this
session: the engine is not active any more, or a round has failed. -/
inductive Completes : Session w η → Nat → Except Error Unit → Session w η → Prop
  | inactive {s : Session w η} (h : s.isActive = false) : Completes s 0 (.ok ()) s
  | failed {s s' : Session w η} {e : Error} (h : s.isActive = true)
      (hround : s.runOnce = (.error e, s')) : Completes s 1 (.error e) s'
  | again {s s₁ s' : Session w η} {n rounds : Nat} {answer : Except Error Unit}
      (h : s.isActive = true) (hround : s.runOnce = (.ok n, s₁))
      (hrest : Completes s₁ rounds answer s') : Completes s (rounds + 1) answer s'

namespace Completes

variable {s s' : Session w η} {rounds : Nat} {answer : Except Error Unit}

/-- A bound on the rounds changes nothing if it suffices. -/
theorem runWithin (h : Completes s rounds answer s') {bound : Nat} (hbound : rounds ≤ bound) :
    s.runWithin bound = (some answer, s') := by
  induction h generalizing bound with
  | inactive hactive =>
      unfold Session.runWithin
      rw [if_neg (by simp [hactive])]
  | failed hactive hround =>
      obtain ⟨bound, rfl⟩ := Nat.exists_eq_add_of_le' hbound
      unfold Session.runWithin
      rw [if_pos hactive, hround]
  | again hactive hround _ ih =>
      obtain ⟨bound, rfl⟩ := Nat.exists_eq_add_of_le' (Nat.le_of_add_left_le hbound)
      unfold Session.runWithin
      rw [if_pos hactive, hround]
      exact ih (Nat.le_of_add_le_add_right hbound)

/-- A run answers that all is done if the engine is not active any more, and otherwise what its last
round has failed with. -/
theorem answered (h : Completes s rounds answer s') :
    (answer = .ok () ∧ s'.isActive = false) ∨
    ∃ (e : Error) (s₁ : Session w η),
      answer = .error e ∧ s₁.isActive = true ∧ s₁.runOnce = (.error e, s') := by
  induction h with
  | inactive hactive => exact .inl ⟨rfl, hactive⟩
  | failed hactive hround => exact .inr ⟨_, _, rfl, hactive, hround⟩
  | again _ _ _ ih => exact ih

end Completes

end Runs

end Session

section FinitePeers

variable {σ ε η β : Type} [Transport σ] [FrameHandler η]

/-- A run against a peer that plays a script ends, with one round for each byte and each fault at
most and one more. -/
theorem Plays.completes [FrameEngine ε β] {s : Session (Wire σ ε) η} {steps : List Step}
    (h : Plays s.link.connection steps) :
    ∃ rounds answer s', s.Completes rounds answer s' ∧ rounds ≤ stock steps + 1 := by
  induction hstock : stock steps using Nat.strong_induction_on generalizing s steps with
  | _ k ih =>
      by_cases hactive : s.isActive = true
      · rcases hround : s.runOnce with ⟨e | n, s₁⟩
        · exact ⟨1, .error e, s₁, .failed hactive hround, Nat.le_add_left 1 k⟩
        · obtain ⟨rest, hlt, hrest⟩ := h.runOnce hround
          rw [hstock] at hlt
          obtain ⟨rounds, answer, s', hcompletes, hle⟩ := ih _ hlt hrest rfl
          exact ⟨rounds + 1, answer, s', .again hactive hround hcompletes, by omega⟩
      · exact ⟨0, .ok (), s, .inactive (Bool.eq_false_iff.2 hactive), Nat.zero_le _⟩

/-- The bound is met: a byte that is no line yet, a timeout and the close make three rounds of an
engine that waits for its stream to end. -/
example :
    let s : Session (Wire Script LineEngine) Unit :=
      ⟨⟨{ steps := [.data (Text.encode "D"), .fault .timeout] },
        { started := true, openStreams := 1 }⟩, (), true⟩
    (s.runWithin 2).1 = none ∧ (s.runWithin 3).1 = some (.error .transportClosed) := by
  decide +kernel

/-- **A run ends on every finite peer.** Let an engine give finitely many runs as long as nothing
else is done to it, and let the reads of a connection play a script and then meet the close,
whatever its writes and flushes do. Then the run of any session over the two ends, however long the
engine stays active. It makes one round at most for each byte and each fault that the script still
holds, and one more, and a bound on the rounds changes nothing if it suffices. The answer is that
all is done only if the engine is not active any more, and otherwise what the last round has failed
with. -/
theorem Session.run_completes (ops : FrameEngine.Operations ε β) (hops : ops.FinitelyManyRuns)
    {s : Session (Wire σ ε) η} {steps : List Step} (hplays : Plays s.link.connection steps) :
    letI := ops.engine hops
    ∃ rounds answer s', s.Completes rounds answer s' ∧
      rounds ≤ (steps.flatMap Step.bytes).length + steps.countP Step.isFault + 1 ∧
      (∀ bound, rounds ≤ bound → s.runWithin bound = (some answer, s')) ∧
      ((answer = .ok () ∧ s'.isActive = false) ∨
        ∃ (e : Error) (s₁ : Session (Wire σ ε) η),
          answer = .error e ∧ s₁.isActive = true ∧ s₁.runOnce = (.error e, s')) := by
  let _ := ops.engine hops
  obtain ⟨rounds, answer, s', hcompletes, hle⟩ := hplays.completes
  exact ⟨rounds, answer, s', hcompletes, hle, fun _ => hcompletes.runWithin, hcompletes.answered⟩

end FinitePeers

/-- An engine that is active for ever, owes a number of pings, and owes one more for each byte that
it is handed. -/
def restless : FrameEngine.Operations Nat Unit where
  start owed := (true, owed + 1)
  submit owed _ _ := (some 1, owed + 1)
  pendingSend
    | 0 => (some [], 0)
    | owed + 1 => (some (Text.encode "PING\n"), owed)
  receive owed input := ⟨[], true, owed + input.length⟩
  isActive _ := true

theorem restless_finitelyManyRuns : restless.FinitelyManyRuns := by
  intro owed
  apply (Set.finite_lt_nat owed).subset
  rintro n ⟨run, hrun, hask⟩
  have hpay : (fun owed => (restless.pendingSend owed).2) = Nat.pred := by
    funext owed
    cases owed with
    | zero => rfl
    | succ owed => rfl
  rw [hpay, Nat.pred_iterate] at hask
  by_contra hpaid
  rw [Nat.sub_eq_zero_of_le (Nat.not_lt.1 hpaid)] at hask
  exact hrun (Option.some.inj hask).symm

/-- A session of the restless engine, over a connection that takes one byte at a time and whose peer
sends four bytes in three pieces, with a timeout behind each of the first two. -/
def restlessSession : Session (Wire Script Nat) Unit :=
  ⟨⟨{ steps := [.data [72, 32], .fault .timeout, .data [49], .fault .timeout, .data [10]]
      behaviour := { writeLimit := some 1 } }, 2⟩, (), true⟩

/-- The engine never comes to rest, so its run fails, within seven rounds. -/
theorem Session.run_completes_restless :
    restless.FinitelyManyRuns ∧
    Plays restlessSession.link.connection restlessSession.link.connection.steps ∧
    letI := restless.engine restless_finitelyManyRuns
    ∃ rounds e s', restlessSession.Completes rounds (.error e) s' ∧ rounds ≤ 7 ∧
      restlessSession.runWithin 7 = (some (.error e), s') := by
  have hplays := restlessSession.link.connection.plays
  refine ⟨restless_finitelyManyRuns, hplays, ?_⟩
  obtain ⟨rounds, answer, s', hcompletes, hle, hwithin, ⟨-, hrest⟩ | ⟨e, s₁, rfl, -⟩⟩ :=
    run_completes restless restless_finitelyManyRuns hplays
  · cases hrest
  · exact ⟨rounds, e, s', hcompletes, hle, hwithin 7 hle⟩

end HttpExchange
