import HttpExchange.HeaderBuffer
import Mathlib.Data.List.Infix

set_option autoImplicit false

/-! # Composing in the header storage

Every call on the header storage but `reset` writes some bytes behind what stands there, as far as
they fit (`Edit.apply_eq_push`), whether the call succeeds or not; what is written piece by piece is
written as one (`push_append`). So the storage holds the front of all that was written since it was
last reset, and behind that what stood there then (`run_eq_push`, `run_content`). No call changes
the size of the storage. -/

namespace HttpExchange.HeaderBuffer

/-! ## Writing behind what stands there -/

theorem remaining_push (b : HeaderBuffer) (bs : Bytes) :
    (b.push bs).remaining = b.remaining - bs.length := by
  simp [remaining]

@[simp] theorem push_nil (b : HeaderBuffer) : b.push [] = b := by
  simp [push_eq]

/-- Bytes written one behind the other are written as one. -/
theorem push_append (b : HeaderBuffer) (x y : Bytes) : b.push (x ++ y) = (b.push x).push y := by
  rw [push_eq (b.push x), remaining_push, push_eq, push_eq, List.take_append, List.length_append,
    ← List.drop_drop, List.append_assoc]

/-- Where no byte is free, nothing is written. -/
theorem push_full {b : HeaderBuffer} (h : b.remaining = 0) (bs : Bytes) : b.push bs = b := by
  have hspare : b.spare = [] := List.eq_nil_of_length_eq_zero h
  rw [push_eq, h, hspare, List.take_zero, List.append_nil, List.drop_nil, ← hspare]

/-- `b'` holds what `b` holds and perhaps more behind it, in storage of the same size. -/
structure Extends (b b' : HeaderBuffer) : Prop where
  written : b.written <+: b'.written
  capacity : b'.capacity = b.capacity

theorem extends_push (b : HeaderBuffer) (bs : Bytes) : b.Extends (b.push bs) :=
  ⟨by simp, capacity_push b bs⟩

theorem Extends.used_le {b b' : HeaderBuffer} (h : b.Extends b') : b.used ≤ b'.used :=
  h.written.length_le

/-! ## Formatting -/

/-- What a formatting writes into `room` free bytes until it stops: the texts in front of a failure
of its own, but none behind the first one that does not fit. -/
def formatted (room : Nat) : List Piece → Bytes
  | [] => []
  | .failure :: _ => []
  | .text s :: rest | .softText s :: rest =>
      Text.encode s ++
        if (Text.encode s).length ≤ room then formatted (room - (Text.encode s).length) rest else []

/-- Behind a text that did not fit, nothing is written. -/
theorem format_overflowed (b : HeaderBuffer) (pieces : List Piece) :
    (b.format true pieces).buffer = b := by
  induction pieces with
  | nil => rfl
  | cons piece rest ih =>
      cases piece with
      | text s => rfl
      | softText s => exact ih
      | failure => rfl

/-- However a formatting ends, the buffer holds what it has written. -/
theorem format_buffer (b : HeaderBuffer) (pieces : List Piece) :
    (b.format false pieces).buffer = b.push (formatted b.remaining pieces) := by
  induction pieces generalizing b with
  | nil => exact b.push_nil.symm
  | cons piece rest ih =>
      -- a text that fits, and the rest behind it
      have hfits : ∀ s : String, ((b.push (Text.encode s)).format false rest).buffer =
          b.push (Text.encode s ++ formatted (b.remaining - (Text.encode s).length) rest) := by
        intro s
        rw [ih, remaining_push, push_append]
      cases piece with
      | failure => exact b.push_nil.symm
      | text s =>
          rw [format, formatted, appendBytes]
          by_cases h : (Text.encode s).length ≤ b.remaining
          · simp only [if_pos h]
            exact hfits s
          · simp only [if_neg h, List.append_nil, Bool.false_eq_true, if_false]
      | softText s =>
          rw [format, formatted, appendBytes]
          by_cases h : (Text.encode s).length ≤ b.remaining
          · simp only [if_pos h]
            exact hfits s
          · simp only [if_neg h, List.append_nil, Bool.false_eq_true, if_false, format_overflowed]

/-- Texts that are written one after another are written as one, also if they do not all fit. -/
theorem push_formatted_texts (b : HeaderBuffer) (ss : List String) :
    b.push (formatted b.remaining (ss.map .text)) = b.push (ss.flatMap Text.encode) := by
  induction ss generalizing b with
  | nil => rfl
  | cons s ss ih =>
      rw [List.map_cons, List.flatMap_cons, formatted, push_append, push_append]
      split
      next h => rw [← remaining_push, ih]
      next h =>
        have hfull : (b.push (Text.encode s)).remaining = 0 := by
          rw [remaining_push]
          omega
        rw [push_full hfull, push_full hfull]

/-! ## Calls on the storage -/

inductive Edit
  | appendBytes (bs : Bytes)
  | append (pieces : List Piece)
  | requestLine (method : Method) (path : String)
  | field (name value : String)
  | endHeaders
  | reset
  deriving DecidableEq

/-- Makes the call. A reset writes nothing and never fails. -/
def Edit.apply : Edit → HeaderBuffer → Except Error Nat × HeaderBuffer
  | .appendBytes bs, b => b.appendBytes bs
  | .append pieces, b => b.append pieces
  | .requestLine method path, b => b.requestLine method path
  | .field name value, b => b.field name value
  | .endHeaders, b => b.endHeaders
  | .reset, b => (.ok 0, b.reset)

/-- What the call writes into `room` free bytes, the part that does not fit included. -/
def Edit.writes (room : Nat) : Edit → Bytes
  | .appendBytes bs => bs
  | .append pieces => formatted room pieces
  | .requestLine method path => Text.encode (method.token ++ " " ++ path ++ " HTTP/1.1\r\n")
  | .field name value => Text.encode (name ++ ": " ++ value ++ "\r\n")
  | .endHeaders => Ascii.crlf
  | .reset => []

/-- Every call but a reset writes its bytes as far as they fit, and does nothing else. -/
theorem Edit.apply_eq_push {e : Edit} (h : e ≠ .reset) (b : HeaderBuffer) :
    (e.apply b).2 = b.push (e.writes b.remaining) := by
  cases e with
  | appendBytes bs => rfl
  | append pieces => exact b.format_buffer pieces
  | requestLine method path =>
      have htexts := b.push_formatted_texts [method.token, " ", path, " HTTP/1.1\r\n"]
      refine (b.format_buffer _).trans (htexts.trans ?_)
      simp [writes]
  | field name value =>
      have htexts := b.push_formatted_texts [name, ": ", value, "\r\n"]
      refine (b.format_buffer _).trans (htexts.trans ?_)
      simp [writes]
  | endHeaders => rfl
  | reset => exact absurd rfl h

theorem Edit.extends {e : Edit} (h : e ≠ .reset) (b : HeaderBuffer) : b.Extends (e.apply b).2 := by
  rw [e.apply_eq_push h]
  exact b.extends_push _

theorem Edit.capacity_apply (e : Edit) (b : HeaderBuffer) :
    (e.apply b).2.capacity = b.capacity := by
  by_cases h : e = .reset
  · subst h
    exact b.capacity_reset
  · exact (e.extends h b).capacity

/-! ## Calls one after another -/

def run (b : HeaderBuffer) (edits : List Edit) : HeaderBuffer :=
  edits.foldl (fun b e => (e.apply b).2) b

theorem run_append (b : HeaderBuffer) (before after : List Edit) :
    run b (before ++ after) = run (run b before) after :=
  List.foldl_append

/-- What the calls have written since the last reset among them, if `past` was written before them
and there was no reset behind it. -/
def sinceReset (b : HeaderBuffer) (past : Bytes) : List Edit → Bytes
  | [] => past
  | e :: edits =>
      sinceReset (e.apply b).2 (if e = .reset then [] else past ++ e.writes b.remaining) edits

/-- The storage behind the last reset among the calls, or as it was if there is none. -/
def underneath (base : Bytes) (edits : List Edit) : Bytes :=
  if .reset ∈ edits then List.replicate base.length 0 else base

/-- Calls on a buffer leave behind what writing all at once into fresh storage leaves behind. -/
theorem run_push (base past : Bytes) (edits : List Edit) :
    let b := (ofStorage base).push past
    run b edits = (ofStorage (underneath base edits)).push (sinceReset b past edits) := by
  induction edits generalizing base past with
  | nil => rfl
  | cons e edits ih =>
      intro b
      show run (e.apply b).2 edits = _
      rw [sinceReset]
      by_cases h : e = .reset
      · -- from here on the storage is zero, and nothing has been written
        have hcapacity : b.capacity = base.length := by
          rw [capacity_push]
          simp [ofStorage]
        have hreset : (e.apply b).2 = (ofStorage (List.replicate base.length 0)).push [] := by
          subst h
          rw [push_nil, ← hcapacity]
          rfl
        have hbase : underneath (List.replicate base.length 0) edits =
            underneath base (e :: edits) := by
          simp [underneath, h]
        rw [if_pos h, ← hbase, hreset]
        exact ih _ []
      · -- every other call pushes behind the past, as far as there is room
        have hpush : (e.apply b).2 = (ofStorage base).push (past ++ e.writes b.remaining) := by
          rw [e.apply_eq_push h, push_append]
        have hbase : underneath base edits = underneath base (e :: edits) := by
          simp [underneath, Ne.symm h]
        rw [if_neg h, ← hbase, hpush]
        exact ih base _

theorem run_eq_push (storage : Bytes) (edits : List Edit) :
    run (ofStorage storage) edits =
      (ofStorage (underneath storage edits)).push (sinceReset (ofStorage storage) [] edits) := by
  have h := run_push storage [] edits
  rwa [push_nil] at h

/-- **What the storage holds.** After any calls on new storage, whether they succeeded or not, the
size of the storage is unchanged. Its written part is the front of all that was written since the
last reset, as much of it as the storage can hold; the spare part is zero if there was a reset, and
otherwise as it was at the start. No further call but a reset takes anything off the written
part. -/
theorem run_content (storage : Bytes) (edits : List Edit) :
    let b := run (ofStorage storage) edits
    let total := sinceReset (ofStorage storage) [] edits
    b.capacity = storage.length ∧ b.used ≤ b.capacity ∧
    b.used = min storage.length total.length ∧ b.written = total.take storage.length ∧
    b.spare =
      (if .reset ∈ edits then List.replicate storage.length 0 else storage).drop b.used ∧
    ∀ e : Edit, e ≠ .reset → b.used ≤ (e.apply b).2.used := by
  intro b total
  have hb : b = (ofStorage (underneath storage edits)).push total := run_eq_push storage edits
  have hlength : (underneath storage edits).length = storage.length := by
    unfold underneath
    split <;> simp
  have hwritten : b.written = total.take storage.length := by
    rw [hb, push_written]
    simp [ofStorage, remaining, hlength]
  have hused : b.used = min storage.length total.length := by
    rw [used, hwritten, List.length_take]
  refine ⟨?_, Nat.le_add_right _ _, hused, hwritten, ?_, fun e he => (e.extends he b).used_le⟩
  · rw [hb, capacity_push]
    simp [ofStorage, hlength]
  · rw [hused, hb, push_spare]
    show (underneath storage edits).drop total.length = (underneath storage edits).drop _
    rcases Nat.le_total total.length storage.length with h | h
    · rw [Nat.min_eq_right h]
    · -- what did not fit has left no spare part
      rw [Nat.min_eq_left h, List.drop_of_length_le (by omega), List.drop_of_length_le (by omega)]

/-- A reset behind some bytes, then a field, a formatting that fails behind its first text, and one
that goes on behind a text, whether it fits or not. -/
def resetAndCompose : List Edit :=
  [.appendBytes (Text.encode "old"), .reset, .field "A" "b",
    .append [.text "c", .failure, .text "d"], .append [.softText "xyz", .text "!"]]

/-- Storage of 12 bytes holds all that was written and one zero byte behind it; storage of 8 bytes
holds the front, and the last formatting stops at the text that is cut. -/
theorem run_content_resetAndCompose :
    let b := fun capacity => run (ofStorage (List.replicate capacity 255)) resetAndCompose
    (b 12).written = Text.encode "A: b\r\ncxyz!" ∧ (b 12).spare = [0] ∧
    (b 8).written = Text.encode "A: b\r\ncx" ∧ (b 8).spare = [] ∧
    Edit.endHeaders ≠ .reset ∧ (b 12).used ≤ (Edit.endHeaders.apply (b 12)).2.used := by
  intro b
  have hne : Edit.endHeaders ≠ .reset := by decide
  obtain ⟨-, -, hused, hwritten, hspare, hkept⟩ :=
    run_content (List.replicate 12 255) resetAndCompose
  obtain ⟨-, -, hused', hwritten', hspare', -⟩ :=
    run_content (List.replicate 8 255) resetAndCompose
  refine ⟨hwritten.trans (by decide +kernel), ?_, hwritten'.trans (by decide +kernel), ?_, hne,
    hkept _ hne⟩
  · rw [hused] at hspare
    exact hspare.trans (by decide +kernel)
  · rw [hused'] at hspare'
    exact hspare'.trans (by decide +kernel)

end HttpExchange.HeaderBuffer
