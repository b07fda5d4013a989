import HttpExchange.Proofs.Interpretation
import HttpExchange.Transport.Script

set_option autoImplicit false

/-! # Header storage of two sizes

Storage that is too small for a header section keeps a front part of it, and the head is read off
that part. What the lines held whole say stays true in any larger storage, with one exception: a
`Content-Length` field that only the larger storage holds takes precedence over the chunked
coding. A line that is cut says what its bytes so far say, so a number in it may be cut as well.
-/

namespace HttpExchange

/-- **The same stream in larger storage.** Let a head be read with some storage, its status token
standing in a line that this storage holds whole and its framing being told by such lines alone.
Then reading the same stream with larger storage gives a head of the same status and the same
framing, unless the framing is chunked and the larger storage holds a `Content-Length`. -/
theorem readHead_of_larger_storage {σ τ : Type} [Transport σ] [Transport τ] {s : Bytes} {c₁ : σ}
    {c₂ : τ} {b₁ b₂ : HeaderBuffer} {head₁ : ResponseHead} (hc₁ : Delivers c₁ s)
    (hc₂ : Delivers c₂ s) (hcap : b₁.capacity ≤ b₂.capacity)
    (h₁ : (readHead b₁ c₁).1 = .ok head₁)
    (hstatus : ∃ l ∈ (wholeLines b₁.capacity (sectionLines s)).take (maxHeaderLines + 1),
      statusToken <:+: l)
    (hframing : parseFraming (.ofLines
      ((wholeLines b₁.capacity (sectionLines s)).take maxHeaderLines)) = .ok head₁.framing) :
    (∃ head₂, (readHead b₂ c₂).1 = .ok head₂ ∧ head₂.status = head₁.status ∧
      head₂.framing = head₁.framing) ↔
    (head₁.framing = .chunked →
      (Headers.ofLines (indexedLines b₂.capacity s)).get? "Content-Length" = none) := by
  have hwhole : ∀ {capacity : Nat}, b₁.capacity ≤ capacity → ∀ n,
      (wholeLines b₁.capacity (sectionLines s)).take n <+:
        (cutLines capacity (sectionLines s)).take n := by
    intro capacity h n
    exact (wholeLines_prefix_cutLines h (sectionLines s)).take n
  -- the whole lines stand in front of what either storage holds, so they settle the status
  have hcode : ∀ {capacity : Nat}, b₁.capacity ≤ capacity →
      parseStatus (table (storedLines capacity s)) = .ok head₁.status := by
    have hstored : ∀ {capacity : Nat}, b₁.capacity ≤ capacity →
        parseStatus (table (storedLines capacity s)) = parseStatus (table
          ((wholeLines b₁.capacity (sectionLines s)).take (maxHeaderLines + 1))) := by
      intro capacity h
      obtain ⟨more, hmore⟩ := hwhole h (maxHeaderLines + 1)
      rw [storedLines, ← hmore, parseStatus_table_append hstatus]
    intro capacity h
    rw [hstored h, ← hstored (Nat.le_refl _)]
    exact ((readHead_eq_ok_iff hc₁ head₁).1 h₁).1
  -- the framing is settled too, unless the lines behind them hold a length
  have hkept : parseFraming (.ofLines (indexedLines b₂.capacity s)) = .ok head₁.framing ↔
      (head₁.framing = .chunked →
        (Headers.ofLines (indexedLines b₂.capacity s)).get? "Content-Length" = none) := by
    obtain ⟨more, hmore⟩ := hwhole hcap maxHeaderLines
    rw [indexedLines, ← hmore]
    exact parseFraming_append hframing more
  rw [exists_readHead_iff hc₂, hkept]
  exact and_iff_right (hcode hcap)

def longFieldReply : Script where
  steps := [.data (Text.encode "HTTP/1.1 200 OK\r\nContent-Length: 2\r\nX-L"),
    .data (Text.encode "ong: aaaaaaaa\r\n\r\nOK")]

theorem readHead_of_larger_storage_long_field :
    Delivers longFieldReply longFieldReply.stream ∧
    wholeLines 40 (sectionLines longFieldReply.stream) =
      [Text.encode "HTTP/1.1 200 OK", Text.encode "Content-Length: 2"] ∧
    ∃ head₁, (readHead (.zeroed 40) longFieldReply).1 = .ok head₁ ∧
      head₁.status = 200 ∧ head₁.framing = .contentLength 2 ∧ head₁.complete = false ∧
      ∃ head₂, (readHead (.zeroed 80) longFieldReply).1 = .ok head₂ ∧ head₂.status = 200 ∧
        head₂.framing = .contentLength 2 := by
  have hd : Delivers longFieldReply longFieldReply.stream :=
    Script.Steady.delivers (by decide +kernel)
  refine ⟨hd, by decide +kernel, ?_⟩
  have htold : (readHead (.zeroed 40) longFieldReply).1.toOption.map
      (fun head => (head.status, head.framing, head.complete)) =
        some (200, .contentLength 2, false) := by decide +kernel
  cases h : (readHead (.zeroed 40) longFieldReply).1 with
  | error e =>
      rw [h] at htold
      cases htold
  | ok head₁ =>
      rw [h] at htold
      obtain ⟨hs, hf, hc⟩ : head₁.status = 200 ∧ head₁.framing = .contentLength 2 ∧
          head₁.complete = false := by
        simpa [Except.toOption] using htold
      have hframing : parseFraming (.ofLines ((wholeLines (HeaderBuffer.zeroed 40).capacity
          (sectionLines longFieldReply.stream)).take maxHeaderLines)) = .ok head₁.framing := by
        rw [hf]
        exact parseFraming_eq_contentLength_iff.2 ⟨"2", by decide +kernel, by decide +kernel⟩
      have hlarger := @readHead_of_larger_storage _ _ _ _ _ _ _ _ (.zeroed 80) head₁ hd hd
        (by decide) h (by decide +kernel) hframing
      obtain ⟨head₂, h₂, hs₂, hf₂⟩ := hlarger.2 (by simp [hf])
      exact ⟨head₁, rfl, hs, hf, hc, head₂, h₂, hs₂.trans hs, hf₂.trans hf⟩

/-- What a head read with storage of this size tells of a reply. -/
def toldBy (capacity : Nat) (reply : String) : Option (Nat × Framing) :=
  (readHead (.zeroed capacity) ({ steps := [.data (Text.encode reply)] } : Script)).1.toOption.map
    fun head => (head.status, head.framing)

/-- Storage that is too small can change what a head tells: it cuts a number short, in a length or
in a status code that comes last, and it loses a `Content-Length` that would take precedence. -/
theorem toldBy_small_storage :
    (toldBy 33 "HTTP/1.1 200 OK\r\nContent-Length: 25\r\n\r\n" = some (200, .contentLength 2) ∧
      toldBy 34 "HTTP/1.1 200 OK\r\nContent-Length: 25\r\n\r\n" =
        some (200, .contentLength 25)) ∧
    (toldBy 29 "Content-Length: 2\r\nHTTP/1.1 204 X\r\n\r\n" = some (20, .contentLength 2) ∧
      toldBy 30 "Content-Length: 2\r\nHTTP/1.1 204 X\r\n\r\n" =
        some (204, .contentLength 2)) ∧
    (toldBy 43 "HTTP/1.1 200 OK\r\nTransfer-Encoding: chunked\r\nContent-Length: 2\r\n\r\n" =
        some (200, .chunked) ∧
      toldBy 80 "HTTP/1.1 200 OK\r\nTransfer-Encoding: chunked\r\nContent-Length: 2\r\n\r\n" =
        some (200, .contentLength 2)) := by
  decide +kernel

end HttpExchange
