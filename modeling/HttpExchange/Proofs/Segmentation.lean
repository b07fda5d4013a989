import HttpExchange.Proofs.Exchange
import HttpExchange.Proofs.SameStream
import HttpExchange.Proofs.Transaction

set_option autoImplicit false

/-! # Segmentation does not matter

Two connections are twins if what is written to them is taken or refused alike and they then deliver
the same bytes (`Twins`); into which reads the bytes are cut is up to each of them. Two clients that
do the same over twins show the same, and take the same bytes off their connections, as long as the
body is not read in bounded reads (`Alike.run`). With such reads in between the answers to sends,
the response and the header storage are still the same (`Akin.run`). -/

namespace HttpExchange

variable {σ τ : Type}

/-! ## Handles -/

namespace Client

/-- A client apart from its connection. -/
def handle (k : Client σ) : Client Unit :=
  ⟨k.host, k.path, k.secure, (), k.header, k.stage⟩

theorem handle_eq_iff {k : Client σ} {k' : Client τ} :
    k.handle = k'.handle ↔ k.host = k'.host ∧ k.path = k'.path ∧ k.secure = k'.secure ∧
      k.header = k'.header ∧ k.stage = k'.stage := by
  simp [handle]

end Client

variable [Transport σ] [Transport τ]

/-! ## Twins -/

/-- The relation holds as long as what is written is taken by both; when that is flushed, it is by
both or by none, and then both deliver the same bytes. -/
structure TwinFeed (W : σ → τ → Prop) : Prop where
  write : ∀ {c d}, W c d → ∀ data, (writeAll c data).1 = (writeAll d data).1 ∧
    ((writeAll c data).1 = .ok () → W (writeAll c data).2 (writeAll d data).2)
  flush : ∀ {c d}, W c d →
    (Transport.flush c).1.toOption = (Transport.flush d).1.toOption ∧
    ((Transport.flush c).1 = .ok () → SameRest (Transport.flush c).2 (Transport.flush d).2)

section TwinFeed

variable {W : σ → τ → Prop} (hW : TwinFeed W) {c : σ} {d : τ} (h : W c d)
include hW h

theorem TwinFeed.write_cases (data : Bytes) :
    (∃ e c' d', writeAll c data = (.error e, c') ∧ writeAll d data = (.error e, d')) ∨
    ∃ c' d', writeAll c data = (.ok (), c') ∧ writeAll d data = (.ok (), d') ∧ W c' d' := by
  obtain ⟨hsame, hok⟩ := hW.write h data
  generalize writeAll c data = sent at hsame hok ⊢
  generalize writeAll d data = sent' at hsame hok ⊢
  obtain ⟨answer, c'⟩ := sent
  obtain ⟨answer', d'⟩ := sent'
  obtain rfl : answer = answer' := hsame
  cases answer with
  | error e => exact .inl ⟨e, c', d', rfl, rfl⟩
  | ok _ => exact .inr ⟨c', d', rfl, rfl, hok rfl⟩

theorem TwinFeed.flush_cases :
    (∃ f g c' d', Transport.flush c = (.error f, c') ∧ Transport.flush d = (.error g, d')) ∨
    ∃ c' d', Transport.flush c = (.ok (), c') ∧ Transport.flush d = (.ok (), d') ∧
      SameRest c' d' := by
  obtain ⟨hsame, hrest⟩ := hW.flush h
  generalize Transport.flush c = flushed at hsame hrest ⊢
  generalize Transport.flush d = flushed' at hsame hrest ⊢
  rcases flushed with ⟨f | _, c'⟩
  · rcases flushed' with ⟨g | _, d'⟩
    · exact .inl ⟨f, g, c', d', rfl, rfl⟩
    · cases hsame
  · rcases flushed' with ⟨g | _, d'⟩
    · cases hsame
    · exact .inr ⟨c', d', rfl, rfl, hrest rfl⟩

end TwinFeed

/-- What is written to the two connections is taken or refused alike, and behind a flush they
deliver the same bytes. -/
def Twins (c : σ) (d : τ) : Prop := ∃ W : σ → τ → Prop, TwinFeed W ∧ W c d

/-- Connections that take what is written to them and send the same bytes are twins. -/
theorem Serves.twins {c : σ} {d : τ} {s : Bytes} (hc : Serves c s) (hd : Serves d s) :
    Twins c d := by
  refine ⟨fun c d => Serves c s ∧ Serves d s, ⟨?_, ?_⟩, hc, hd⟩
  · rintro c d ⟨hc, hd⟩ data
    obtain ⟨c', hwc, hc'⟩ := writeAll_serves hc data
    obtain ⟨d', hwd, hd'⟩ := writeAll_serves hd data
    rw [hwc, hwd]
    exact ⟨rfl, fun _ => ⟨hc', hd'⟩⟩
  · rintro c d ⟨hc, hd⟩
    obtain ⟨c', hfc, hc'⟩ := hc.flush
    obtain ⟨d', hfd, hd'⟩ := hd.flush
    rw [hfc, hfd]
    exact ⟨rfl, fun _ => ⟨s, hc'.delivers, hd'.delivers⟩⟩

/-- A log does not change what becomes of data that is written. -/
theorem writeAll_logged (l : Logged σ) (data : Bytes) :
    writeAll l.inner data = ((writeAll l data).1, (writeAll l data).2.inner) := by
  fun_induction writeAll l data with
  | case1 l => rw [writeAll_nil]
  | case2 l b bs f l' hw => rw [writeAll, (Logged.of_note hw).1]
  | case3 l b bs l' hw => rw [writeAll, (Logged.of_note hw).1]
  | case4 l b bs n l' hw ih => rw [writeAll, (Logged.of_note hw).1, ← ih]

theorem Twins.logged {l : Logged σ} {m : Logged τ} (h : Twins l.inner m.inner) : Twins l m := by
  obtain ⟨W, hW, hlm⟩ := h
  refine ⟨fun l m => W l.inner m.inner, ⟨?_, ?_⟩, hlm⟩
  · intro l m hlm data
    have hwrite := hW.write hlm data
    rwa [writeAll_logged l, writeAll_logged m] at hwrite
  · intro l m hlm
    obtain ⟨hsame, hrest⟩ := hW.flush hlm
    refine ⟨hsame, fun hflush => ?_⟩
    obtain ⟨s, hl, hm⟩ := hrest hflush
    exact ⟨s, hl.logged, hm.logged⟩

namespace Client

/-- A request goes out over both twins or over none of them, and behind it they deliver the same
bytes. -/
theorem transmit_twins {k : Client σ} {k' : Client τ} (hheader : k.header = k'.header)
    (h : Twins k.connection k'.connection) (body : Option Bytes) :
    (∃ e c d, k.transmit body = (.error e, { k with connection := c }) ∧
      k'.transmit body = (.error e, { k' with connection := d })) ∨
    ∃ c d, k.transmit body = (.ok (), { k with connection := c, stage := .awaiting }) ∧
      k'.transmit body = (.ok (), { k' with connection := d, stage := .awaiting }) ∧
      SameRest c d := by
  obtain ⟨W, hW, h₀⟩ := h
  obtain ⟨e, c₁, d₁, hc₁, hd₁⟩ | ⟨c₁, d₁, hc₁, hd₁, h₁⟩ := hW.write_cases h₀ k.header.written
  · refine .inl ⟨e, c₁, d₁, ?_, ?_⟩
    · rw [transmit, hc₁]
    · rw [transmit, ← hheader, hd₁]
  obtain ⟨e, c₂, d₂, hc₂, hd₂⟩ | ⟨c₂, d₂, hc₂, hd₂, h₂⟩ := hW.write_cases h₁ (body.getD [])
  · refine .inl ⟨e, c₂, d₂, ?_, ?_⟩
    · simp [transmit, hc₁, hc₂]
    · simp [transmit, ← hheader, hd₁, hd₂]
  obtain ⟨f, g, c₃, d₃, hc₃, hd₃⟩ | ⟨c₃, d₃, hc₃, hd₃, h₃⟩ := hW.flush_cases h₂
  · refine .inl ⟨.send, c₃, d₃, ?_, ?_⟩
    · simp [transmit, hc₁, hc₂, hc₃]
    · simp [transmit, ← hheader, hd₁, hd₂, hd₃]
  · refine .inr ⟨c₃, d₃, ?_, ?_, h₃⟩
    · simp [transmit, hc₁, hc₂, hc₃]
    · simp [transmit, ← hheader, hd₁, hd₂, hd₃]

theorem steps_transmit (k : Client σ) (body : Option Bytes) :
    Steps Call.IsSend k.connection (k.transmit body).2.connection := by
  have hheader := (steps_writeAll k.connection k.header.written).imp Call.IsWrite.isSend
  unfold transmit
  generalize writeAll k.connection k.header.written = sent at hheader ⊢
  rcases sent with ⟨_ | _, c₁⟩
  · exact hheader
  · have hbody := hheader.append ((steps_writeAll c₁ (body.getD [])).imp Call.IsWrite.isSend)
    simp only
    generalize writeAll c₁ (body.getD []) = sent at hbody ⊢
    rcases sent with ⟨_ | _, c₂⟩
    · exact hbody
    · simp only
      rcases hflush : Transport.flush c₂ with ⟨_ | _, c₃⟩
      · exact hbody.append (.flush trivial hflush (.nil c₃))
      · exact hbody.append (.flush trivial hflush (.nil c₃))

/-! ## Clients that do the same -/

/-- The two clients show the same and took the same bytes off their connections, and over these
they can go on alike. -/
structure Alike (k : Client (Logged σ)) (k' : Client (Logged τ)) : Prop where
  handle : k.handle = k'.handle
  taken : k.connection.taken = k'.connection.taken
  /-- Before the request is sent, it will be taken or refused alike. -/
  twins : k.stage = .composing → Twins k.connection k'.connection
  /-- Behind the response header the same bytes are to come. -/
  rest : ∀ head, k.response? = some head → SameRest k.connection k'.connection

section Alike

variable {k : Client (Logged σ)} {k' : Client (Logged τ)}

theorem Alike.header (h : Alike k k') : k.header = k'.header := congrArg Client.header h.handle

theorem Alike.stage (h : Alike k k') : k.stage = k'.stage := congrArg Client.stage h.handle

theorem Alike.response (h : Alike k k') : k.response? = k'.response? := by
  unfold response?
  rw [h.stage]

theorem alike_release (hhandle : k.handle = k'.handle)
    (htaken : k.connection.taken = k'.connection.taken) (hopen : k.stage ≠ .closed) :
    Alike k.release.2 k'.release.2 := by
  obtain ⟨-, -, hsecure, hheader, hstage⟩ := handle_eq_iff.1 hhandle
  rw [release_open hopen, release_open (hstage ▸ hopen)]
  refine ⟨handle_eq_iff.2 ⟨rfl, rfl, hsecure, hheader, rfl⟩, ?_, nofun, nofun⟩
  rw [Logged.taken_close, Logged.taken_close, htaken]

/-- The response header is captured alike, or it is refused for the same reason. -/
theorem awaitHead_level (k : Client (Logged σ)) (k' : Client (Logged τ))
    (hheader : k.header = k'.header) (hlevel : Level k.connection k'.connection) :
    ∃ header l m, Level l m ∧
      ((∃ e, k.awaitHead = (.error e, { k with header := header, connection := l }) ∧
          k'.awaitHead = (.error e, { k' with header := header, connection := m })) ∨
        ∃ head, k.awaitHead = (.ok head.status, { k with
            header := header
            connection := l
            stage := .answered head (.ofFraming head.framing) false }) ∧
          k'.awaitHead = (.ok head.status, { k' with
            header := header
            connection := m
            stage := .answered head (.ofFraming head.framing) false })) := by
  have hreads := steps_readHead k.header k.connection
  have hreads' := steps_readHead k.header k'.connection
  obtain ⟨answer, header, l, m, hl, hm, hrest⟩ := readHead_same k.header hlevel.rest
  rw [hl] at hreads
  rw [hm] at hreads'
  refine ⟨header, l, m, hlevel.steps hreads hreads' hrest, ?_⟩
  cases answer with
  | error e => exact .inl ⟨e, by rw [awaitHead, hl], by rw [awaitHead, ← hheader, hm]⟩
  | ok head => exact .inr ⟨head, by rw [awaitHead, hl], by rw [awaitHead, ← hheader, hm]⟩

/-- A send answers the same over twins, and takes the same bytes. -/
theorem Alike.sendRequest (h : Alike k k') (body : Option Bytes) :
    (k.sendRequest body).1 = (k'.sendRequest body).1 ∧
      Alike (k.sendRequest body).2 (k'.sendRequest body).2 := by
  by_cases hready : k.Ready
  · have hready' : k'.Ready := ⟨h.stage ▸ hready.1, h.header ▸ hready.2⟩
    obtain ⟨hhost, hpath, hsecure, hheader, hstage⟩ := handle_eq_iff.1 h.handle
    have htaken := (k.steps_transmit body).taken_eq Call.IsSend.got_eq
    have htaken' := (k'.steps_transmit body).taken_eq Call.IsSend.got_eq
    obtain ⟨e, l, m, hk, hk'⟩ | ⟨l, m, hk, hk', hrest⟩ :=
      transmit_twins hheader (h.twins hready.1) body
    · -- the request does not go out, and nothing was read
      rw [hk] at htaken
      rw [hk'] at htaken'
      rw [hready.sendRequest_error (transact_of_unsent hk),
        hready'.sendRequest_error (transact_of_unsent hk')]
      refine ⟨rfl, alike_release ?_ ?_ (by simp [hready.1])⟩
      · exact handle_eq_iff.2 ⟨hhost, hpath, hsecure, hheader, hstage⟩
      · exact htaken.trans (h.taken.trans htaken'.symm)
    · rw [hk] at htaken
      rw [hk'] at htaken'
      have hlevel : Level l m := ⟨htaken.trans (h.taken.trans htaken'.symm), hrest⟩
      obtain ⟨header, l', m', hlevel', ⟨e, hawait, hawait'⟩ | ⟨head, hawait, hawait'⟩⟩ :=
        awaitHead_level { k with connection := l, stage := .awaiting }
          { k' with connection := m, stage := .awaiting } hheader hlevel
      · rw [hready.sendRequest_error ((transact_of_sent hk).trans hawait),
          hready'.sendRequest_error ((transact_of_sent hk').trans hawait')]
        exact ⟨rfl, alike_release (handle_eq_iff.2 ⟨hhost, hpath, hsecure, rfl, rfl⟩)
          hlevel'.taken (by simp)⟩
      · rw [hready.sendRequest_ok ((transact_of_sent hk).trans hawait),
          hready'.sendRequest_ok ((transact_of_sent hk').trans hawait')]
        exact ⟨rfl, handle_eq_iff.2 ⟨hhost, hpath, hsecure, rfl, rfl⟩, hlevel'.taken, nofun,
          fun _ _ => hlevel'.rest⟩
  · have hrefused : ¬ k'.Ready := by
      intro hready'
      exact hready ⟨h.stage.trans hready'.1, h.header ▸ hready'.2⟩
    rw [sendRequest_refused hready, sendRequest_refused hrefused]
    exact ⟨rfl, h⟩

/-- A chunked receive answers the same, and takes the same bytes. -/
theorem Alike.receive_chunked (h : Alike k k') (room : Nat) :
    (k.receive .chunked room).1 = (k'.receive .chunked room).1 ∧
      Alike (k.receive .chunked room).2 (k'.receive .chunked room).2 := by
  cases hk : k.stage with
  | answered head body streaming =>
      have hk' : k'.stage = .answered head body streaming := h.stage.symm.trans hk
      have hrest : SameRest k.connection k'.connection := h.rest head (by simp [response?, hk])
      have hreads := body.steps_read .chunked room k.connection
      have hreads' := body.steps_read .chunked room k'.connection
      obtain ⟨answer, body', l, m, hl, hm, hrest'⟩ := body.read_chunked_same room hrest
      rw [hl] at hreads
      rw [hm] at hreads'
      have hlevel : Level l m := Level.steps ⟨h.taken, hrest⟩ hreads hreads' hrest'
      obtain ⟨hhost, hpath, hsecure, hheader, -⟩ := handle_eq_iff.1 h.handle
      rw [receive_answered hk, receive_answered hk', hl, hm]
      refine ⟨rfl, handle_eq_iff.2 ⟨hhost, hpath, hsecure, hheader, rfl⟩, hlevel.taken, ?_,
        fun _ _ => hlevel.rest⟩
      intro hcomposing
      cases hcomposing
  | _ =>
      have hnone : k.response? = none := by simp [response?, hk]
      rw [receive_unanswered hnone, receive_unanswered (h.response ▸ hnone)]
      exact ⟨rfl, h⟩

/-- Every operation but a bounded receive keeps the clients alike. -/
theorem Alike.apply (h : Alike k k') {op : Op} (hop : ∀ room, op ≠ .receive .normal room) :
    Alike (op.apply k) (op.apply k') := by
  cases op with
  | edit e =>
      obtain ⟨hhost, hpath, hsecure, hheader, hstage⟩ := handle_eq_iff.1 h.handle
      have hedit : (e.apply k.header).2 = (e.apply k'.header).2 := by rw [hheader]
      exact ⟨handle_eq_iff.2 ⟨hhost, hpath, hsecure, hedit, hstage⟩, h.taken, h.twins, h.rest⟩
  | send body => exact (h.sendRequest body).2
  | receive mode room =>
      cases mode with
      | normal => exact absurd rfl (hop room)
      | chunked => exact (h.receive_chunked room).2

theorem Alike.run (h : Alike k k') {ops : List Op} (hops : ∀ room, .receive .normal room ∉ ops) :
    Alike (k.run ops) (k'.run ops) := by
  induction ops generalizing k k' with
  | nil => exact h
  | cons op ops ih =>
      refine ih (h.apply fun room hop => hops room ?_) fun room hmem => hops room ?_
      · rw [hop]
        exact List.mem_cons_self
      · exact List.mem_cons_of_mem op hmem

/-! ## Bounded receives -/

/-- The clients show the same response and the same header storage, and until the request is sent
they are alike. -/
structure Akin (k : Client (Logged σ)) (k' : Client (Logged τ)) : Prop where
  header : k.header = k'.header
  response : k.response? = k'.response?
  composing : k.stage = .composing ∨ k'.stage = .composing → Alike k k'

theorem Alike.akin (h : Alike k k') : Akin k k' := ⟨h.header, h.response, fun _ => h⟩

theorem Akin.sendRequest (h : Akin k k') (body : Option Bytes) :
    (k.sendRequest body).1 = (k'.sendRequest body).1 ∧
      Akin (k.sendRequest body).2 (k'.sendRequest body).2 := by
  by_cases hstage : k.stage = .composing ∨ k'.stage = .composing
  · obtain ⟨hanswer, hafter⟩ := (h.composing hstage).sendRequest body
    exact ⟨hanswer, hafter.akin⟩
  · have hrefused : ¬ k.Ready := fun hready => hstage (.inl hready.1)
    have hrefused' : ¬ k'.Ready := fun hready => hstage (.inr hready.1)
    rw [sendRequest_refused hrefused, sendRequest_refused hrefused']
    exact ⟨rfl, h⟩

theorem Akin.apply (h : Akin k k') (op : Op) : Akin (op.apply k) (op.apply k') := by
  cases op with
  | edit e =>
      have hedit : (e.apply k.header).2 = (e.apply k'.header).2 := by rw [h.header]
      exact ⟨hedit, h.response, fun hstage => (h.composing hstage).apply nofun⟩
  | send body => exact (h.sendRequest body).2
  | receive mode room =>
      by_cases hstage : k.stage = .composing ∨ k'.stage = .composing
      · -- nothing is received before the request is sent
        have halike := h.composing hstage
        have hcomposing : k.stage = .composing := hstage.elim id halike.stage.trans
        have hnone : k.response? = none := by rw [response?, hcomposing]
        show Akin (k.receive mode room).2 (k'.receive mode room).2
        rw [receive_unanswered hnone, receive_unanswered (h.response ▸ hnone)]
        exact h
      · obtain ⟨hk, hk'⟩ := not_or.1 hstage
        refine ⟨?_, ?_, fun hback => ?_⟩
        · exact (k.header_receive mode room).trans
            (h.header.trans (k'.header_receive mode room).symm)
        · exact (k.response?_receive mode room).trans
            (h.response.trans (k'.response?_receive mode room).symm)
        · exact (hback.elim (Op.stage_apply_ne hk _) (Op.stage_apply_ne hk' _)).elim

theorem Akin.run (h : Akin k k') (ops : List Op) : Akin (k.run ops) (k'.run ops) := by
  induction ops generalizing k k' with
  | nil => exact h
  | cons op ops ih => exact ih (h.apply op)

end Alike

/-- Reads pieces, each with a room of its own, until the end of the body or a failure: the pieces,
how it ended, and the client afterwards. -/
def drainWith (k : Client σ) (mode : Mode) (rooms : Nat → Nat) :
    List Bytes × Except Error Unit × Client σ :=
  match _h : k.receive mode (rooms 0) with
  | (.error e, k') => ([], .error e, k')
  | (.ok [], k') => ([], .ok (), k')
  | (.ok (b :: bs), k') =>
      match drainWith k' mode (fun i => rooms (i + 1)) with
      | (pieces, ending, k'') => ((b :: bs) :: pieces, ending, k'')
termination_by Transport.supply k.connection
decreasing_by exact supply_receive_lt _h

section Step

variable {k k' : Client σ} {mode : Mode} {rooms : Nat → Nat}

theorem drainWith_error {e : Error} (h : k.receive mode (rooms 0) = (.error e, k')) :
    k.drainWith mode rooms = ([], .error e, k') := by
  rw [drainWith]
  split <;> cases h.symm.trans ‹_›
  rfl

theorem drainWith_end (h : k.receive mode (rooms 0) = (.ok [], k')) :
    k.drainWith mode rooms = ([], .ok (), k') := by
  rw [drainWith]
  split <;> cases h.symm.trans ‹_›
  rfl

theorem drainWith_piece {b : UInt8} {bs : Bytes}
    (h : k.receive mode (rooms 0) = (.ok (b :: bs), k')) :
    k.drainWith mode rooms =
      ((b :: bs) :: (k'.drainWith mode fun i => rooms (i + 1)).1,
        (k'.drainWith mode fun i => rooms (i + 1)).2) := by
  rw [drainWith]
  split <;> cases h.symm.trans ‹_›
  rfl

end Step

/-- A drain with one room is one in which all rooms are the same. -/
theorem drain_eq_drainWith (k : Client σ) (mode : Mode) (room : Nat) :
    k.drain mode room = k.drainWith mode fun _ => room := by
  fun_induction drain k mode room with
  | case1 k e k' h => rw [drainWith_error h]
  | case2 k k' h => rw [drainWith_end h]
  | case3 k b bs k' h pieces ending k'' hrest ih => rw [drainWith_piece h, ← ih, hrest]

/-- Bounded reads to the end give what the body makes of the bytes to come, whatever their rooms
and however the peer cuts the bytes. -/
theorem drainWith_unread {k : Client σ} {head : ResponseHead} {body : BodyReader}
    {streaming : Bool} (hk : k.stage = .answered head body streaming) {s : Bytes}
    (hs : Delivers k.connection s) {rooms : Nat → Nat} (hrooms : ∀ i, 0 < rooms i) :
    ((k.drainWith .normal rooms).1.flatten, (k.drainWith .normal rooms).2.1) = body.unread s := by
  fun_induction drainWith k .normal rooms generalizing body streaming s with
  | case1 k rooms e k' h =>
      rw [receive_answered hk] at h
      obtain ⟨r, c, hread, -⟩ | ⟨e', r, c, hread, hend⟩ | ⟨b, bs, r, c, t, hread, -⟩ :=
        body.read_normal_unread (hrooms 0) hs
      · rw [hread] at h
        cases h
      · rw [hread] at h
        cases h
        exact hend.symm
      · rw [hread] at h
        cases h
  | case2 k rooms k' h =>
      rw [receive_answered hk] at h
      obtain ⟨r, c, hread, hend⟩ | ⟨e, r, c, hread, -⟩ | ⟨b, bs, r, c, t, hread, -⟩ :=
        body.read_normal_unread (hrooms 0) hs
      · exact hend.symm
      · rw [hread] at h
        cases h
      · rw [hread] at h
        cases h
  | case3 k rooms b bs k' h pieces ending k'' hrest ih =>
      rw [receive_answered hk] at h
      obtain ⟨r, c, hread, -⟩ | ⟨e, r, c, hread, -⟩ | ⟨b', bs', r, c, t, hread, ht, hpiece⟩ :=
        body.read_normal_unread (hrooms 0) hs
      · rw [hread] at h
        cases h
      · rw [hread] at h
        cases h
      · rw [hread] at h
        cases h
        -- a piece came, and the rest of the body is read with the later rooms
        have hbehind := ih rfl ht fun i => hrooms (i + 1)
        rw [hrest] at hbehind
        rw [hpiece, ← hbehind]
        rfl

section Alike

variable {k : Client (Logged σ)} {k' : Client (Logged τ)}

/-- Bounded reads to the end give the same, whatever their rooms. -/
theorem Alike.drainWith (h : Alike k k') {rooms rooms' : Nat → Nat} (hrooms : ∀ i, 0 < rooms i)
    (hrooms' : ∀ i, 0 < rooms' i) :
    (k.drainWith .normal rooms).1.flatten = (k'.drainWith .normal rooms').1.flatten ∧
      (k.drainWith .normal rooms).2.1 = (k'.drainWith .normal rooms').2.1 := by
  cases hk : k.stage with
  | answered head body streaming =>
      have hk' : k'.stage = .answered head body streaming := h.stage.symm.trans hk
      obtain ⟨s, hs, hs'⟩ := h.rest head (by simp [response?, hk])
      have hunread := drainWith_unread hk hs hrooms
      have hunread' := drainWith_unread hk' hs' hrooms'
      exact Prod.mk.inj (hunread.trans hunread'.symm)
  | _ =>
      have hnone : k.response? = none := by simp [response?, hk]
      rw [drainWith_error (receive_unanswered hnone .normal (rooms 0)),
        drainWith_error (receive_unanswered (h.response ▸ hnone) .normal (rooms' 0))]
      exact ⟨rfl, rfl⟩

end Alike

/-! ## Two clients of one target -/

/-- Over twins both constructions are refused for the same reason, or the clients are alike. -/
theorem new_twins {c : σ} {d : τ} (h : Twins c d) (uri : String) (storage : Bytes) :
    (∃ e l m, new uri (⟨c, []⟩ : Logged σ) storage = .error ⟨e, l⟩ ∧
      new uri (⟨d, []⟩ : Logged τ) storage = .error ⟨e, m⟩) ∨
    ∃ k k', new uri (⟨c, []⟩ : Logged σ) storage = .ok k ∧
      new uri (⟨d, []⟩ : Logged τ) storage = .ok k' ∧ Alike k k' := by
  cases hu : Uri.parse uri with
  | error e => exact .inl ⟨e, _, _, by rw [new, hu], by rw [new, hu]⟩
  | ok u =>
      cases ht : u.target with
      | error e =>
          refine .inl ⟨e, some (Transport.close ⟨c, []⟩).2, some (Transport.close ⟨d, []⟩).2,
            ?_, ?_⟩
          · simp only [new, hu, ht]
          · simp only [new, hu, ht]
      | ok target =>
          obtain ⟨host, path⟩ := target
          -- the constructions touch no connection, so the clients start over twins
          have htwins : Twins (⟨c, []⟩ : Logged σ) (⟨d, []⟩ : Logged τ) := Twins.logged h
          refine .inr ⟨ofTarget host path u.scheme.isSecure ⟨c, []⟩ (.ofStorage storage),
            ofTarget host path u.scheme.isSecure ⟨d, []⟩ (.ofStorage storage), ?_, ?_,
            rfl, rfl, fun _ => htwins, fun head hhead => ?_⟩
          · simp only [new, hu, ht]
          · simp only [new, hu, ht]
          · cases hhead

/-- **Segmentation does not matter.** Two connections take what is written to them alike and then
deliver the same bytes, cut into reads in any way. Over both, the construction of a client is
refused for the same reason, or it succeeds, and then after the same operations on the two clients:

* the response and the header storage are the same, and a send answers the same; if it is not
  refused, the clients are alike afterwards: they show the same, the same bytes were taken off the
  connections, and behind a response header the same bytes are to come;
* unless a bounded receive was among the operations, the clients are alike, a chunked receive
  answers the same, and receiving with bounded reads until the end of the body or a failure gives
  the same bytes and ends in the same way, whatever the rooms of these reads over the one connection
  and over the other. -/
theorem run_twins {c : σ} {d : τ} (h : Twins c d) (uri : String) (storage : Bytes) :
    (∃ e l m, new uri (⟨c, []⟩ : Logged σ) storage = .error ⟨e, l⟩ ∧
      new uri (⟨d, []⟩ : Logged τ) storage = .error ⟨e, m⟩) ∨
    ∃ k k', new uri (⟨c, []⟩ : Logged σ) storage = .ok k ∧
      new uri (⟨d, []⟩ : Logged τ) storage = .ok k' ∧ ∀ ops : List Op,
        let j := k.run ops
        let j' := k'.run ops
        j.response? = j'.response? ∧ j.header = j'.header ∧
        (∀ body, (j.sendRequest body).1 = (j'.sendRequest body).1 ∧
          (j.Ready → Alike (j.sendRequest body).2 (j'.sendRequest body).2)) ∧
        ((∀ room, .receive .normal room ∉ ops) → Alike j j' ∧
          (∀ room, (j.receive .chunked room).1 = (j'.receive .chunked room).1) ∧
          ∀ rooms rooms' : Nat → Nat, (∀ i, 0 < rooms i) → (∀ i, 0 < rooms' i) →
            (j.drainWith .normal rooms).1.flatten = (j'.drainWith .normal rooms').1.flatten ∧
            (j.drainWith .normal rooms).2.1 = (j'.drainWith .normal rooms').2.1) := by
  obtain hrefused | ⟨k, k', hk, hk', halike⟩ := new_twins h uri storage
  · exact .inl hrefused
  refine .inr ⟨k, k', hk, hk', fun ops => ?_⟩
  intro j j'
  have hakin : Akin j j' := halike.akin.run ops
  refine ⟨hakin.response, hakin.header, fun body => ⟨(hakin.sendRequest body).1, ?_⟩, ?_⟩
  · intro hready
    exact ((hakin.composing (.inl hready.1)).sendRequest body).2
  · intro hops
    have hj : Alike j j' := halike.run hops
    exact ⟨hj, fun room => (hj.receive_chunked room).1,
      fun rooms rooms' hrooms hrooms' => hj.drainWith hrooms hrooms'⟩

def wikiWhole : Script where
  steps := [.data wikiPeer.stream]

theorem run_twins_wiki :
    let ops : List Op := [.edit (.requestLine .get "/"), .edit .endHeaders, .send none]
    Twins wikiPeer wikiWhole ∧
    ∃ k k', new "http://h/" (⟨wikiPeer, []⟩ : Logged Script) (List.replicate 128 0) = .ok k ∧
      new "http://h/" (⟨wikiWhole, []⟩ : Logged Script) (List.replicate 128 0) = .ok k' ∧
      (∀ room, .receive .normal room ∉ ops) ∧ Alike (k.run ops) (k'.run ops) ∧
      ((k.run ops).receive .chunked 4).1 = .ok (Text.encode "Wiki") ∧
      ((k'.run ops).receive .chunked 4).1 = .ok (Text.encode "Wiki") ∧
      ((k.run ops).drainWith .normal fun _ => 1).1.flatten =
        ((k'.run ops).drainWith .normal fun i => i + 2).1.flatten := by
  intro ops
  have htwins : Twins wikiPeer wikiWhole := by
    have hwhole : wikiWhole.stream = wikiPeer.stream := by decide +kernel
    have hserves : Serves wikiPeer wikiPeer.stream :=
      Script.Steady.serves (by decide +kernel) ⟨by decide, by decide, by decide⟩
    have hserves' : Serves wikiWhole wikiWhole.stream :=
      Script.Steady.serves (by decide +kernel) ⟨by decide, by decide, by decide⟩
    exact hserves.twins (hwhole ▸ hserves')
  have hops : ∀ room, .receive .normal room ∉ ops := by simp [ops]
  obtain ⟨e, l, m, hrefused, -⟩ | ⟨k, k', hk, hk', hrun⟩ :=
    run_twins htwins "http://h/" (List.replicate 128 0)
  · cases hrefused
  · obtain ⟨-, -, -, hbounded⟩ := hrun ops
    obtain ⟨halike, hchunked, hdrain⟩ := hbounded hops
    have hpiece : ((k.run ops).receive .chunked 4).1 = .ok (Text.encode "Wiki") := by
      cases hk
      decide +kernel
    exact ⟨htwins, k, k', hk, hk', hops, halike, hpiece, (hchunked 4).symm.trans hpiece,
      (hdrain _ _ (fun _ => Nat.one_pos) fun i => Nat.succ_pos (i + 1)).1⟩

end Client

end HttpExchange
