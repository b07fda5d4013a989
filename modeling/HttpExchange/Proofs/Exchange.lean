import HttpExchange.Proofs.Response
import HttpExchange.Proofs.Transaction

set_option autoImplicit false

/-! # A whole exchange

A client over a connection that takes what is written to it and sends a written response: the
request goes out, the response header is captured, and the body is received. What the caller gets
is the response that was written, however the connection cuts it.
-/

namespace HttpExchange

variable {σ : Type} [Transport σ]

/-! ## The request -/

/-- Data is written in full, and what the peer sends is not touched. -/
theorem writeAll_serves {c : σ} {s : Bytes} (h : Serves c s) (data : Bytes) :
    ∃ c', writeAll c data = (.ok (), c') ∧ Serves c' s := by
  obtain ⟨R, hR, hc⟩ := h
  -- on the length of what is left to write, within the one feed `R`
  suffices hall : ∀ n (data : Bytes), data.length = n → ∀ c, R c s →
      ∃ c', writeAll c data = (.ok (), c') ∧ R c' s by
    obtain ⟨c', hw, hc'⟩ := hall _ data rfl c hc
    exact ⟨c', hw, R, hR, hc'⟩
  intro n
  induction n using Nat.strongRecOn with
  | ind n ih =>
      intro data hn c hc
      cases data with
      | nil => exact ⟨c, writeAll_nil c, hc⟩
      | cons b bs =>
          obtain ⟨m, c₁, hw, hc₁⟩ := hR.write_ok hc (List.cons_ne_nil b bs)
          have hlt : (bs.drop m).length < n := by
            rw [← hn, List.length_drop, List.length_cons]
            omega
          obtain ⟨c', hrest, hc'⟩ := ih _ hlt (bs.drop m) rfl c₁ hc₁
          exact ⟨c', by rw [writeAll, hw]; exact hrest, hc'⟩

theorem Serves.flush {c : σ} {s : Bytes} (h : Serves c s) :
    ∃ c', Transport.flush c = (.ok (), c') ∧ Serves c' s := by
  obtain ⟨R, hR, hc⟩ := h
  obtain ⟨c', hf, hc'⟩ := hR.flush_ok hc
  exact ⟨c', hf, R, hR, hc'⟩

namespace Client

/-- The request goes out, and the response is still to come. -/
theorem transmit_serves {k : Client σ} {s : Bytes} (h : Serves k.connection s)
    (body : Option Bytes) :
    ∃ c', k.transmit body = (.ok (), { k with connection := c', stage := .awaiting }) ∧
      Serves c' s := by
  obtain ⟨c₁, hheader, h₁⟩ := writeAll_serves h k.header.written
  obtain ⟨c₂, hbody, h₂⟩ := writeAll_serves h₁ (body.getD [])
  obtain ⟨c', hflush, h'⟩ := h₂.flush
  refine ⟨c', ?_, h'⟩
  rw [transmit, hheader]
  simp only [hbody, hflush]

/-! ## Receiving -/

/-- Receives one after another, each with its room: their answers, and the client afterwards. -/
def receiveMany (mode : Mode) : List Nat → Client σ → List (Except Error Bytes) × Client σ
  | [], k => ([], k)
  | room :: rooms, k =>
      match k.receive mode room with
      | (answer, k) =>
          match receiveMany mode rooms k with
          | (answers, k) => (answer :: answers, k)

/-- Once the response head is known, receives are reads of its body; the body is streaming once one
of them has succeeded. -/
theorem receiveMany_eq {k : Client σ} {head : ResponseHead} {body : BodyReader}
    {streaming : Bool} (h : k.stage = .answered head body streaming) (mode : Mode)
    (rooms : List Nat) :
    let run := BodyReader.readMany (rooms.map (mode, ·)) body k.connection
    k.receiveMany mode rooms = (run.1, { k with
      connection := run.2.2
      stage := .answered head run.2.1 (streaming || run.1.any (·.toOption.isSome)) }) := by
  induction rooms generalizing k body streaming with
  | nil => simp [receiveMany, BodyReader.readMany, ← h]
  | cons room rooms ih =>
      rcases hread : body.read mode room k.connection with ⟨answer, body', c'⟩
      rw [List.map_cons, BodyReader.readMany_cons hread, receiveMany, receive_answered h]
      simp only [hread]
      rw [ih rfl, Bool.or_assoc]
      rfl

/-- What a client receives is what its body reader reads. -/
theorem receiveMany_answered {k : Client σ} {head : ResponseHead} {body : BodyReader}
    {streaming : Bool} (h : k.stage = .answered head body streaming) (mode : Mode)
    (rooms : List Nat) :
    (k.receiveMany mode rooms).1 =
        (BodyReader.readMany (rooms.map (mode, ·)) body k.connection).1 ∧
      (k.receiveMany mode rooms).2.connection =
        (BodyReader.readMany (rooms.map (mode, ·)) body k.connection).2.2 := by
  rw [receiveMany_eq h]
  exact ⟨rfl, rfl⟩

/-! ## The response -/

section Response

variable {k : Client σ} {r : Response} {rest : Bytes} (hr : r.Valid)
  (hserves : Serves k.connection (r.text ++ rest)) (hstage : k.stage = .composing)
  (hcomposed : k.header.used ≠ 0) (hlines : r.lines.length ≤ maxHeaderLines)
  (hroom : (table r.lines).length < k.header.capacity) (request : Option Bytes)
include hr hserves hstage hcomposed hlines hroom

/-- The request is answered with the status, and the connection is left at the body. -/
theorem sendRequest_response :
    ∃ k' head, k.sendRequest request = (.ok r.status, k') ∧
      k'.stage = .answered head (.ofFraming r.payload.framing) false ∧ head.status = r.status ∧
      head.framing = r.payload.framing ∧ head.complete = true ∧
      Delivers k'.connection (r.payload.text ++ rest) := by
  obtain ⟨c₁, hsent, h₁⟩ := k.transmit_serves hserves request
  obtain ⟨head, header, c₂, hread, hstatus, hframing, hcomplete, hd⟩ :=
    Response.readHead_response hr h₁.delivers hlines hroom
  refine ⟨{ k with
    header := header
    connection := c₂
    stage := .answered head (.ofFraming head.framing) false }, head, ?_, ?_, hstatus, hframing,
    hcomplete, hd⟩
  · have hidle : ¬ (k.stage ≠ .composing ∨ k.header.used = 0) := by simp [hstage, hcomposed]
    rw [sendRequest, if_neg hidle, transact, hsent]
    simp only [awaitHead, hread, hstatus]
  · rw [hframing]

/-- **A whole exchange.** A client composes a request over a connection that takes what is written
to it and then sends a response, cut into reads in any way; the storage has room for the lines of
the header section. Sending the request gives the status, and the head is complete and has the
framing of the body. Receiving in the mode of the framing, with any rooms that are not empty and
hold a chunk each, gives the body in pieces, chunk by chunk if it is chunked, and then only its end;
the end comes after at most as many receives as the body has bytes, or chunks if it is chunked, and
the connection is then left right behind the response. -/
theorem exchange_response :
    ∃ k' head, k.sendRequest request = (.ok r.status, k') ∧ k'.response? = some head ∧
      head.status = r.status ∧ head.complete = true ∧ head.framing = r.payload.framing ∧
      ∀ rooms : List Nat, (∀ room ∈ rooms, 0 < room ∧ r.payload.Fits room) →
        ∃ (pieces : List Bytes) (m : Nat),
          (k'.receiveMany r.payload.mode rooms).1 =
            pieces.map .ok ++ List.replicate m (.ok []) ∧
          r.payload.Pieces pieces ∧
          (m ≠ 0 → pieces.flatten = r.payload.body ∧
            Delivers (k'.receiveMany r.payload.mode rooms).2.connection rest) ∧
          (r.payload.mostPieces < rooms.length → m ≠ 0) := by
  obtain ⟨k', head, hsend, hstage', hstatus, hframing, hcomplete, hd⟩ :=
    sendRequest_response hr hserves hstage hcomposed hlines hroom request
  refine ⟨k', head, hsend, ?_, hstatus, hcomplete, hframing, fun rooms hrooms => ?_⟩
  · rw [response?, hstage']
  · obtain ⟨pieces, m, r', c', hrun, hpieces, hend⟩ :=
      Payload.readMany_payload hr.payload hd hrooms
    obtain ⟨hanswers, hconnection⟩ := receiveMany_answered hstage' r.payload.mode rooms
    rw [hrun] at hanswers hconnection
    refine ⟨pieces, m, hanswers, hpieces, ?_, ?_⟩
    · rw [hconnection]
      exact hend
    · rintro hlt rfl
      have hlength := BodyReader.length_readMany (rooms.map (r.payload.mode, ·))
        (.ofFraming r.payload.framing) k'.connection
      -- each receive has one answer, and no end of the body is among them
      have hle := hpieces.length_le
      rw [hrun, List.length_append, List.length_map, List.length_map,
        List.length_replicate] at hlength
      omega

end Response

/-- A response in two chunks, with an extension, a trailer and fields around its framing. -/
def wikiResponse : Response where
  status := 200
  reason := Text.encode "OK"
  before := [⟨Text.encode "Server", Text.encode "a: b"⟩]
  after := [⟨Text.encode "X-Empty", []⟩]
  payload := .chunked
    [⟨Text.encode "4;a=b", Text.encode "Wiki"⟩, ⟨Text.encode "005", Text.encode "pedia"⟩]
    (Text.encode "0") [Text.encode "X: y"]

/-- A peer that takes three bytes of each write and sends the response in five pieces. -/
def wikiPeer : Script where
  steps := [.data (Text.encode "HTTP/1.1 200 OK\r"),
    .data (Text.encode "\nServer: a: b\r\nTransfer-Enco"),
    .data (Text.encode "ding: chunked\r\nX-Empty: \r\n\r\n4;a=b\r\nWi"),
    .data (Text.encode "ki\r\n005\r\npedia\r\n0\r\nX: y\r\n\r"), .data (Text.encode "\nmore")]
  behaviour := { writeLimit := some 3 }

def wikiClient : Client Script :=
  let k := (ofTarget "h" "/" false wikiPeer (.zeroed 128)).compose (·.requestLine .get "/")
  (k.2.compose (·.endHeaders)).2

theorem exchange_response_wiki :
    wikiResponse.Valid ∧ Serves wikiClient.connection (wikiResponse.text ++ Text.encode "more") ∧
    wikiClient.stage = .composing ∧ wikiClient.header.used ≠ 0 ∧
    wikiResponse.lines.length ≤ maxHeaderLines ∧
    (table wikiResponse.lines).length < wikiClient.header.capacity ∧
    ∃ k' head, wikiClient.sendRequest (some (Text.encode "abcd")) = (.ok 200, k') ∧
      k'.response? = some head ∧ head.status = 200 ∧ head.complete = true ∧
      head.framing = .chunked ∧ ∃ (pieces : List Bytes) (m : Nat),
        (k'.receiveMany .chunked [5, 7, 6, 5]).1 = pieces.map .ok ++ List.replicate m (.ok []) ∧
        pieces <+: [Text.encode "Wiki", Text.encode "pedia"] ∧
        pieces.flatten = Text.encode "Wikipedia" ∧
        Delivers (k'.receiveMany .chunked [5, 7, 6, 5]).2.connection (Text.encode "more") := by
  have hpayload : wikiResponse.payload.Valid := by
    have hwiki : SizeLine (Text.encode "4;a=b") (Text.encode "Wiki").length :=
      ⟨by decide +kernel, by decide +kernel, [4], by decide +kernel, by decide, by decide +kernel⟩
    have hpedia : SizeLine (Text.encode "005") (Text.encode "pedia").length :=
      ⟨by decide +kernel, by decide +kernel, [0, 0, 5], by decide +kernel, by decide,
        by decide +kernel⟩
    refine ⟨?_, ⟨by decide +kernel, by decide +kernel, [0], by decide +kernel, by decide, rfl⟩,
      by decide +kernel⟩
    intro c hc
    rcases List.mem_pair.1 hc with rfl | rfl
    · exact ⟨hwiki, by decide +kernel, by decide +kernel⟩
    · exact ⟨hpedia, by decide +kernel, by decide +kernel⟩
  have hvalid : wikiResponse.Valid := ⟨by decide, by decide +kernel, by decide +kernel, hpayload⟩
  have hserves : Serves wikiClient.connection (wikiResponse.text ++ Text.encode "more") := by
    have hstream : wikiResponse.text ++ Text.encode "more" = wikiClient.connection.stream := by
      decide +kernel
    rw [hstream]
    exact Script.Steady.serves (by decide +kernel) ⟨by decide, by decide, by decide⟩
  have hcomposed : wikiClient.header.used ≠ 0 := by decide +kernel
  have hlines : wikiResponse.lines.length ≤ maxHeaderLines := by decide
  have hroom : (table wikiResponse.lines).length < wikiClient.header.capacity := by decide +kernel
  obtain ⟨k', head, hsend, hhead, hstatus, hcomplete, hframing, hreceive⟩ :=
    exchange_response hvalid hserves rfl hcomposed hlines hroom (some (Text.encode "abcd"))
  obtain ⟨pieces, m, hanswers, hpieces, hend, hlast⟩ := hreceive [5, 7, 6, 5] (by decide +kernel)
  obtain ⟨hall, hmore⟩ := hend (hlast (by decide))
  refine ⟨hvalid, hserves, rfl, hcomposed, hlines, hroom, k', head, hsend, hhead, hstatus,
    hcomplete, hframing, pieces, m, hanswers, hpieces, ?_, hmore⟩
  rw [hall]
  decide +kernel

end Client

end HttpExchange
