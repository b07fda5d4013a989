import HttpExchange.Body
import HttpExchange.Calls

set_option autoImplicit false

/-! # What is done to a connection

`Steps p c c'` says that the connection was led from `c` to `c'` by calls of the kind `p` alone.
Every function over a connection is such a run of calls: what reads lines, sections, heads and
bodies only reads, and never without room (`Call.IsRead`); what writes a request only writes
(`Call.IsWrite`). On a connection with a log, the run is what was added to the log
(`Steps.calls`). -/

namespace HttpExchange

variable {σ : Type} [Transport σ]

/-! ## Kinds of calls -/

namespace Call

/-- A read with room for at least one byte. -/
def IsRead : Call → Prop
  | read room _ => 0 < room
  | _ => False

def IsWrite : Call → Prop
  | write _ _ => True
  | _ => False

def IsSend : Call → Prop
  | write _ _ => True
  | flush _ => True
  | _ => False

def IsClose : Call → Prop
  | close _ => True
  | _ => False

theorem IsWrite.isSend {call : Call} (h : call.IsWrite) : call.IsSend := by
  cases call with
  | write => trivial
  | _ => exact False.elim h

theorem IsRead.not_isClose {call : Call} (h : call.IsRead) : ¬ call.IsClose := by
  intro hclose
  cases call with
  | close => exact h
  | _ => exact hclose

theorem IsSend.not_isClose {call : Call} (h : call.IsSend) : ¬ call.IsClose := by
  intro hclose
  cases call with
  | close => exact h
  | _ => exact hclose

end Call

/-! ## Runs of calls -/

/-- Calls of the kind `p` lead from one state of the connection to the other. -/
inductive Steps (p : Call → Prop) : σ → σ → Prop
  | nil (c : σ) : Steps p c c
  | read {c c₁ c' : σ} {room : Nat} {answer : Except Fault Bytes} (hp : p (.read room answer))
      (hr : Transport.read c room = (answer, c₁)) (h : Steps p c₁ c') : Steps p c c'
  | write {c c₁ c' : σ} {data : Bytes} {answer : Except Fault Nat} (hp : p (.write data answer))
      (hw : Transport.write c data = (answer, c₁)) (h : Steps p c₁ c') : Steps p c c'
  | flush {c c₁ c' : σ} {answer : Except Fault Unit} (hp : p (.flush answer))
      (hf : Transport.flush c = (answer, c₁)) (h : Steps p c₁ c') : Steps p c c'
  | close {c c₁ c' : σ} {answer : Except Fault Unit} (hp : p (.close answer))
      (hc : Transport.close c = (answer, c₁)) (h : Steps p c₁ c') : Steps p c c'

theorem Steps.append {p : Call → Prop} {c c₁ c' : σ} (h : Steps p c c₁) (h' : Steps p c₁ c') :
    Steps p c c' := by
  induction h with
  | nil => exact h'
  | read hp hr _ ih => exact .read hp hr (ih h')
  | write hp hw _ ih => exact .write hp hw (ih h')
  | flush hp hf _ ih => exact .flush hp hf (ih h')
  | close hp hc _ ih => exact .close hp hc (ih h')

theorem Steps.imp {p q : Call → Prop} (hpq : ∀ {call}, p call → q call) {c c' : σ}
    (h : Steps p c c') : Steps q c c' := by
  induction h with
  | nil c => exact .nil c
  | read hp hr _ ih => exact .read (hpq hp) hr ih
  | write hp hw _ ih => exact .write (hpq hp) hw ih
  | flush hp hf _ ih => exact .flush (hpq hp) hf ih
  | close hp hc _ ih => exact .close (hpq hp) hc ih

/-- A run of calls is noted at the end of the log. -/
theorem Steps.calls {p : Call → Prop} {l l' : Logged σ} (h : Steps p l l') :
    ∃ more, l'.calls = l.calls ++ more ∧ ∀ call ∈ more, p call := by
  -- one call, and the calls behind it
  have hcons : ∀ {l l₁ l' : Logged σ} {call : Call}, p call → l₁.calls = l.calls ++ [call] →
      (∃ more, l'.calls = l₁.calls ++ more ∧ ∀ call ∈ more, p call) →
      ∃ more, l'.calls = l.calls ++ more ∧ ∀ call ∈ more, p call := by
    rintro l l₁ l' call hp hcall ⟨more, hmore, hall⟩
    exact ⟨call :: more, by simp [hmore, hcall], List.forall_mem_cons.2 ⟨hp, hall⟩⟩
  induction h with
  | nil => exact ⟨[], by simp⟩
  | read hp hr _ ih => exact hcons hp (Logged.of_note hr).2 ih
  | write hp hw _ ih => exact hcons hp (Logged.of_note hw).2 ih
  | flush hp hf _ ih => exact hcons hp (Logged.of_note hf).2 ih
  | close hp hc _ ih => exact hcons hp (Logged.of_note hc).2 ih

/-- One read. -/
theorem Steps.single_read {c c' : σ} {room : Nat} {answer : Except Fault Bytes} (hroom : 0 < room)
    (hr : Transport.read c room = (answer, c')) : Steps Call.IsRead c c' :=
  .read hroom hr (.nil c')

/-! ## Reading lines and heads -/

theorem steps_gather (afterCr : Bool) (room : Nat) (c : σ) :
    Steps Call.IsRead c (gather afterCr room c).rest := by
  fun_induction gather afterCr room c with
  | case4 => exact .nil _
  | case8 _ _ _ _ _ _ hr _ _ ih => exact .read Nat.one_pos hr ih
  | _ => exact .single_read Nat.one_pos ‹_›

theorem steps_readLine (c : σ) (out : Bytes) : Steps Call.IsRead c (readLine c out).2.2 :=
  steps_gather false out.length c

theorem steps_skipSection (pos : Position) (c : σ) :
    Steps Call.IsRead c (skipSection pos c).2 := by
  fun_induction skipSection pos c with
  | case3 pos c _ _ _ ih => exact (steps_gather pos.afterCr pos.room c).append ih
  | case5 pos c _ _ _ ih => exact (steps_gather pos.afterCr pos.room c).append ih
  | _ pos c => exact steps_gather pos.afterCr pos.room c

theorem steps_capture (slots : Nat) (buffer : HeaderBuffer) (c : σ) :
    Steps Call.IsRead c (capture slots buffer c).rest := by
  fun_induction capture slots buffer c with
  | case1 => exact .nil _
  | case5 buffer c _ _ _ _ _ _ _ _ _ ih =>
      exact (steps_gather false buffer.remaining c).append ih
  | _ => exact steps_gather false _ _

theorem steps_readHead (buffer : HeaderBuffer) (c : σ) :
    Steps Call.IsRead c (readHead buffer c).2.2 := by
  have hcapture := steps_capture maxHeaderLines buffer.reset c
  unfold readHead
  simp only
  split
  · exact hcapture
  · exact hcapture
  · exact hcapture
  · next pos _ =>
      have hskip := steps_skipSection pos (capture maxHeaderLines buffer.reset c).rest
      split
      next h => exact hcapture.append (by rwa [h] at hskip)
      next h => exact hcapture.append (by rwa [h] at hskip)

/-! ## Reading bodies -/

theorem steps_readExact (c : σ) (n : Nat) : Steps Call.IsRead c (readExact c n).2 := by
  fun_induction readExact c n with
  | case1 c => exact .nil c
  | case2 _ _ _ _ hr => exact .single_read (Nat.succ_pos _) hr
  | case3 _ _ _ hr => exact .single_read (Nat.succ_pos _) hr
  | case4 _ _ _ _ _ hr _ _ hm ih =>
      rw [hm] at ih
      exact .read (Nat.succ_pos _) hr ih
  | case5 _ _ _ _ _ hr _ _ hm ih =>
      rw [hm] at ih
      exact .read (Nat.succ_pos _) hr ih

theorem steps_readChunkSize (c : σ) : Steps Call.IsRead c (readChunkSize c).2 := by
  have hline := steps_gather false maxChunkLine c
  unfold readChunkSize
  simp only
  split
  · exact hline
  · exact hline
  · exact hline
  · split <;> exact hline

theorem steps_readChunkData (c : σ) (size : Nat) :
    Steps Call.IsRead c (readChunkData c size).2 := by
  have hdata := steps_readExact c size
  unfold readChunkData
  generalize readExact c size = got at hdata ⊢
  rcases got with ⟨_ | bs, c₁⟩
  · exact hdata
  · have hending := steps_readExact c₁ Ascii.crlf.length
    simp only
    generalize readExact c₁ Ascii.crlf.length = got at hending ⊢
    rcases got with ⟨_ | ending, c₂⟩
    · exact hdata.append hending
    · exact hdata.append hending

namespace BodyReader

theorem steps_readNormal (r : BodyReader) {room : Nat} (hroom : 0 < room) (c : σ) :
    Steps Call.IsRead c (r.readNormal room c).2.2 := by
  unfold readNormal
  split
  next => exact .nil c
  next hleft =>
    -- with something left the read has room for it
    have hasks : 0 < (r.remaining.map (min · room)).getD room := by
      cases h : r.remaining with
      | none => exact hroom
      | some left =>
          have hpos : left ≠ 0 := fun h0 => hleft (by rw [h, h0])
          simp only [Option.map_some, Option.getD_some]
          omega
    split
    next hr => exact .single_read hasks hr
    next hr => split <;> exact .single_read hasks hr
    next hr => exact .single_read hasks hr

theorem steps_readSized (r : BodyReader) (size room : Nat) (c : σ) :
    Steps Call.IsRead c (r.readSized size room c).2.2 := by
  unfold readSized
  split
  next =>
    have hskip := steps_skipSection .lineStart c
    split
    next h => rwa [h] at hskip
    next h => rwa [h] at hskip
  next =>
    split
    · exact .nil c
    · exact steps_readChunkData c size

theorem steps_readChunk (r : BodyReader) (room : Nat) (c : σ) :
    Steps Call.IsRead c (r.readChunk room c).2.2 := by
  unfold readChunk
  split
  next => exact steps_readSized _ _ room c
  next =>
    have hsize := steps_readChunkSize c
    split
    next h => rwa [h] at hsize
    next c₁ h =>
      rw [h] at hsize
      exact hsize.append (r.steps_readSized _ room c₁)

/-- Reading a body only reads. -/
theorem steps_read (r : BodyReader) (mode : Mode) (room : Nat) (c : σ) :
    Steps Call.IsRead c (r.read mode room c).2.2 := by
  unfold BodyReader.read
  split
  next => exact .nil c
  next hroom =>
    split
    · exact .nil c
    · cases mode with
      | normal => exact r.steps_readNormal (Nat.pos_of_ne_zero hroom) c
      | chunked => exact r.steps_readChunk room c

end BodyReader

/-! ## Writing -/

theorem steps_writeAll (c : σ) (data : Bytes) : Steps Call.IsWrite c (writeAll c data).2 := by
  fun_induction writeAll c data with
  | case1 c => exact .nil c
  | case2 _ _ _ _ _ hw => exact .write trivial hw (.nil _)
  | case3 _ _ _ _ hw => exact .write trivial hw (.nil _)
  | case4 _ _ _ _ _ hw ih => exact .write trivial hw ih

/-- Data that is there is offered first. -/
theorem writeAll_offers (c : σ) {data : Bytes} (h : data ≠ []) :
    ∃ answer c₁, Transport.write c data = (answer, c₁) ∧
      Steps Call.IsWrite c₁ (writeAll c data).2 := by
  fun_cases writeAll c data with
  | case1 => exact absurd rfl h
  | case2 _ _ _ c₁ hw => exact ⟨_, c₁, hw, .nil c₁⟩
  | case3 _ _ c₁ hw => exact ⟨_, c₁, hw, .nil c₁⟩
  | case4 _ bs n c₁ hw => exact ⟨_, c₁, hw, steps_writeAll c₁ (bs.drop n)⟩

end HttpExchange
