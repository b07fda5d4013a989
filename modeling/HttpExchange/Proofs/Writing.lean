import HttpExchange.Proofs.Conduct
import Mathlib.Data.List.Infix

set_option autoImplicit false

/-! # What writing puts on the wire

A write may accept any part of what it was offered, from the front. `onWire` is what the writes of
a log have accepted, in their order. `WritesOut data calls answer` says that the calls write the
data out and that this ends with the answer: each write offers bytes from the front of what is
left, and the first write that is refused is the last. So at every time a part of the data, from
its front, is on the wire (`WritesOut.onWire_prefix`), and all of it exactly if no write was
refused (`WritesOut.of_ok`, `WritesOut.of_error`). Data that are written out one behind the other
are written out as one (`WritesOut.append`). -/

namespace HttpExchange

deriving instance DecidableEq for Call

namespace Call

def accepted : Call → Bytes
  | write data (.ok n) => data.take n
  | _ => []

/-- A write that failed or that accepted nothing. -/
def IsRefusal : Call → Prop
  | write _ (.ok n) => n = 0
  | write _ (.error _) => True
  | _ => False

instance : DecidablePred IsRefusal
  | .write _ (.ok n) => inferInstanceAs (Decidable (n = 0))
  | .write _ (.error _) => .isTrue trivial
  | .read _ _ | .flush _ | .close _ | .start _ | .submit _ _ | .pending _ | .receive _ _ =>
      .isFalse id

theorem IsRefusal.accepted_eq {call : Call} (h : call.IsRefusal) : call.accepted = [] := by
  cases call with
  | write data answer =>
      cases answer with
      | ok n =>
          obtain rfl : n = 0 := h
          rfl
      | error f => rfl
  | _ => exact False.elim h

/-- Only a write puts bytes on the wire. -/
theorem accepted_eq_nil {call : Call} (h : ¬ call.IsWrite) : call.accepted = [] := by
  cases call with
  | write => exact absurd trivial h
  | _ => rfl

end Call

/-! ## Bytes on the wire -/

/-- The bytes that the connection accepted in these calls. -/
def onWire (calls : List Call) : Bytes := calls.flatMap Call.accepted

@[simp] theorem onWire_nil : onWire [] = [] := rfl

@[simp] theorem onWire_cons (call : Call) (calls : List Call) :
    onWire (call :: calls) = call.accepted ++ onWire calls := rfl

@[simp] theorem onWire_append (calls calls' : List Call) :
    onWire (calls ++ calls') = onWire calls ++ onWire calls' := List.flatMap_append

theorem onWire_eq_nil {calls : List Call} (h : ∀ call ∈ calls, ¬ call.IsWrite) :
    onWire calls = [] := by
  apply List.flatMap_eq_nil_iff.2
  intro call hcall
  exact Call.accepted_eq_nil (h call hcall)

/-! ## Writing out -/

/-- The calls write out what is left, and this ends with the answer. -/
inductive WritesOut : Bytes → List Call → Except Error Unit → Prop
  | done : WritesOut [] [] (.ok ())
  | refused {left offered : Bytes} {answer : Except Fault Nat} (hoffered : offered <+: left)
      (hsome : offered ≠ []) (hrefused : (Call.write offered answer).IsRefusal) :
      WritesOut left [.write offered answer] (.error .send)
  | accepted {left offered : Bytes} {n : Nat} {calls : List Call} {answer : Except Error Unit}
      (hoffered : offered <+: left) (hpos : 0 < n) (hle : n ≤ offered.length)
      (h : WritesOut (left.drop n) calls answer) :
      WritesOut left (.write offered (.ok n) :: calls) answer

namespace WritesOut

variable {left : Bytes} {calls : List Call} {answer : Except Error Unit}

/-- What a write accepts of its offer is the front of what was left. -/
private theorem take_append_drop_offered {offered : Bytes} {n : Nat} (hoffered : offered <+: left)
    (hle : n ≤ offered.length) : offered.take n ++ left.drop n = left := by
  have htake : left.take n = offered.take n := by
    obtain ⟨rest, rfl⟩ := hoffered
    exact List.take_append_of_le_length hle
  rw [← htake]
  exact List.take_append_drop n left

/-- Every call is a write that offers something. -/
theorem offers (h : WritesOut left calls answer) :
    ∀ call ∈ calls, ∃ data n, call = .write data n ∧ data ≠ [] := by
  induction h with
  | done =>
      intro call hcall
      cases hcall
  | @refused _ offered n _ hsome =>
      intro call hcall
      exact ⟨offered, n, List.mem_singleton.1 hcall, hsome⟩
  | @accepted _ offered n _ _ _ hpos hle _ ih =>
      have hsome : offered ≠ [] := List.ne_nil_of_length_pos (Nat.lt_of_lt_of_le hpos hle)
      exact List.forall_mem_cons.2 ⟨⟨offered, .ok n, rfl, hsome⟩, ih⟩

/-- There are not more writes than bytes. -/
theorem length_le (h : WritesOut left calls answer) : calls.length ≤ left.length := by
  induction h with
  | done => exact Nat.le_refl _
  | refused hoffered hsome =>
      have := List.length_pos_iff.2 hsome
      have := hoffered.length_le
      rw [List.length_singleton]
      omega
  | accepted hoffered hpos hle _ ih =>
      have := hoffered.length_le
      rw [List.length_drop] at ih
      rw [List.length_cons]
      omega

/-- At every time a front part of the data is on the wire. -/
theorem onWire_prefix (h : WritesOut left calls answer) {past : List Call}
    (hpast : past <+: calls) : onWire past <+: left := by
  induction h generalizing past with
  | done =>
      rw [List.prefix_nil.1 hpast]
      exact List.nil_prefix
  | @refused left _ _ _ _ hrefused =>
      rcases past with _ | ⟨call, past⟩
      · exact List.nil_prefix
      · obtain ⟨rfl, htail⟩ := List.cons_prefix_cons.1 hpast
        rw [List.prefix_nil.1 htail, onWire_cons, hrefused.accepted_eq]
        exact List.nil_prefix
  | @accepted left offered n _ _ hoffered _ hle _ ih =>
      -- one write more puts its accepted part in front of what the others put there
      rcases past with _ | ⟨call, past⟩
      · exact List.nil_prefix
      · obtain ⟨rfl, htail⟩ := List.cons_prefix_cons.1 hpast
        have hfront : offered.take n ++ onWire past <+: offered.take n ++ left.drop n :=
          (List.prefix_append_right_inj _).2 (ih htail)
        rwa [take_append_drop_offered hoffered hle] at hfront

/-- Writing that succeeds has put all of the data on the wire, and nothing was refused. -/
theorem of_ok (h : WritesOut left calls (.ok ())) :
    onWire calls = left ∧ ∀ call ∈ calls, ¬ call.IsRefusal := by
  generalize hanswer : Except.ok () = answer at h
  induction h with
  | done => exact ⟨rfl, by simp⟩
  | refused => cases hanswer
  | @accepted left offered n calls _ hoffered hpos hle _ ih =>
      obtain ⟨hwire, hnone⟩ := ih hanswer
      constructor
      · rw [onWire_cons, hwire]
        exact take_append_drop_offered hoffered hle
      · exact List.forall_mem_cons.2 ⟨Nat.ne_of_gt hpos, hnone⟩

/-- Writing that fails was refused, and has left some of the data off the wire. -/
theorem of_error {e : Error} (h : WritesOut left calls (.error e)) :
    e = .send ∧ onWire calls ≠ left ∧ ∃ call ∈ calls, call.IsRefusal := by
  generalize hanswer : Except.error e = answer at h
  induction h with
  | done => cases hanswer
  | @refused left offered answer hoffered hsome hrefused =>
      cases hanswer
      refine ⟨rfl, ?_, _, List.mem_singleton_self _, hrefused⟩
      intro hall
      rw [onWire_cons, hrefused.accepted_eq] at hall
      -- nothing was accepted, so all would be on the wire only if there were nothing
      have hleft : left = [] := hall.symm
      rw [hleft] at hoffered
      exact hsome (List.prefix_nil.1 hoffered)
  | @accepted left offered n calls _ hoffered _ hle _ ih =>
      obtain ⟨he, hsome, call, hcall, hrefused⟩ := ih hanswer
      refine ⟨he, ?_, call, List.mem_cons_of_mem _ hcall, hrefused⟩
      intro hall
      rw [onWire_cons] at hall
      have hfront : (Call.write offered (.ok n)).accepted ++ left.drop n = left :=
        take_append_drop_offered hoffered hle
      exact hsome (List.append_cancel_left (hall.trans hfront.symm))

/-- A write that is accepted in part goes on with what is left, whatever more there is to write. -/
private theorem accepted_append {offered : Bytes} {n : Nat} {more : Bytes}
    (hoffered : offered <+: left) (hpos : 0 < n) (hle : n ≤ offered.length)
    (h : WritesOut (left.drop n ++ more) calls answer) :
    WritesOut (left ++ more) (.write offered (.ok n) :: calls) answer := by
  rw [← List.drop_append_of_le_length (Nat.le_trans hle hoffered.length_le)] at h
  exact .accepted (hoffered.trans (List.prefix_append left more)) hpos hle h

/-- What is written out behind something else is written out with it. -/
theorem append (h : WritesOut left calls (.ok ())) {more : Bytes} {calls' : List Call}
    (h' : WritesOut more calls' answer) : WritesOut (left ++ more) (calls ++ calls') answer := by
  generalize hanswer : Except.ok () = written at h
  induction h with
  | done => exact h'
  | refused => cases hanswer
  | accepted hoffered hpos hle _ ih => exact accepted_append hoffered hpos hle (ih hanswer)

/-- What could not be written out keeps back what comes behind it. -/
theorem error_append {e : Error} (h : WritesOut left calls (.error e)) (more : Bytes) :
    WritesOut (left ++ more) calls (.error e) := by
  generalize hanswer : Except.error e = answer at h
  induction h with
  | done => cases hanswer
  | @refused left _ _ hoffered hsome hrefused =>
      cases hanswer
      exact .refused (hoffered.trans (List.prefix_append left more)) hsome hrefused
  | accepted hoffered hpos hle _ ih => exact accepted_append hoffered hpos hle (ih hanswer)

end WritesOut

/-- What writing all of some data does to a connection. -/
theorem writeAll_calls {σ : Type} [Transport σ] (l : Logged σ) (data : Bytes) :
    ∃ calls, (writeAll l data).2.calls = l.calls ++ calls ∧
      WritesOut data calls (writeAll l data).1 := by
  -- the cases are nothing left, a write that fails, one that accepts nothing, and one that goes on
  fun_induction writeAll l data with
  | case1 l => exact ⟨[], by simp, .done⟩
  | case2 l b bs f l' hw =>
      exact ⟨_, (Logged.of_note hw).2,
        .refused (List.prefix_refl _) (List.cons_ne_nil b bs) trivial⟩
  | case3 l b bs l' hw =>
      exact ⟨_, (Logged.of_note hw).2, .refused (List.prefix_refl _) (List.cons_ne_nil b bs) rfl⟩
  | case4 l b bs n l' hw ih =>
      obtain ⟨calls, hcalls, hrest⟩ := ih
      have hwrite : l'.calls = l.calls ++ [.write (b :: bs) (.ok (n + 1))] := (Logged.of_note hw).2
      refine ⟨.write (b :: bs) (.ok (n + 1)) :: calls, ?_, ?_⟩
      · rw [hcalls, hwrite, List.append_assoc]
        rfl
      · exact .accepted (List.prefix_refl _) (Nat.succ_pos n) (Transport.write_le_length hw) hrest

end HttpExchange
