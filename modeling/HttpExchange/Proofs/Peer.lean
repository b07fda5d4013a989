import HttpExchange.Calls
import HttpExchange.Transport.Script

set_option autoImplicit false

/-! # What a peer sends

The bytes that a peer sends before it closes do not depend on how reads cut them. A relation
between connections and byte strings is a `Feed` if every read respects it: what the read gives
stands in front of what is left, and nothing is given only if nothing is left. `Sends c s` says
that the peer of `c` sends `s` and then closes, whatever faults its reads meet; `Delivers c s`
excludes faults; `Pauses pause c s` allows timeouts, and only where `pause` holds of the bytes still
to come; `Serves c s` also promises that what is written to the peer is taken.

`Takes c u c'` is a run of one-byte reads that gave `u`. Header sections and lines are read in
no other way, so what was taken from a connection is said with it, and a `ByteFeed`, which has to
respect one-byte reads only, is enough to follow them. -/

namespace HttpExchange

variable {σ : Type} [Transport σ]

/-! ## Streams -/

/-- Every read respects the relation: it takes what it gives off the bytes still to come. -/
structure Feed (R : σ → Bytes → Prop) : Prop where
  read_ok : ∀ {c c' : σ} {s bs : Bytes} {room : Nat}, R c s → 0 < room →
    Transport.read c room = (.ok bs, c') → (bs = [] → s = []) ∧ ∃ t, s = bs ++ t ∧ R c' t
  read_error : ∀ {c c' : σ} {s : Bytes} {room : Nat} {f : Fault}, R c s → 0 < room →
    Transport.read c room = (.error f, c') → R c' s

structure SteadyFeed (R : σ → Bytes → Prop) : Prop extends Feed R where
  read_ne_error : ∀ {c c' : σ} {s : Bytes} {room : Nat} {f : Fault}, R c s → 0 < room →
    Transport.read c room ≠ (.error f, c')

/-- A feed in which reads fail with a timeout only, and only where `pause` holds of the bytes still
to come. -/
structure PausingFeed (pause : Bytes → Prop) (R : σ → Bytes → Prop) : Prop extends Feed R where
  pause_of_error : ∀ {c c' : σ} {s : Bytes} {room : Nat} {f : Fault}, R c s → 0 < room →
    Transport.read c room = (.error f, c') → f = .timeout ∧ pause s

structure WillingFeed (R : σ → Bytes → Prop) : Prop extends SteadyFeed R where
  write_ok : ∀ {c : σ} {s data : Bytes}, R c s → data ≠ [] →
    ∃ n c', Transport.write c data = (.ok (n + 1), c') ∧ R c' s
  flush_ok : ∀ {c : σ} {s : Bytes}, R c s → ∃ c', Transport.flush c = (.ok (), c') ∧ R c' s

/-- The peer sends `s` and then closes; reads may fail in between. -/
def Sends (c : σ) (s : Bytes) : Prop := ∃ R : σ → Bytes → Prop, Feed R ∧ R c s

/-- The peer sends `s` and then closes, and no read fails. -/
def Delivers (c : σ) (s : Bytes) : Prop := ∃ R : σ → Bytes → Prop, SteadyFeed R ∧ R c s

/-- The peer sends `s` and then closes; a read times out only where `pause` holds of the bytes still
to come. -/
def Pauses (pause : Bytes → Prop) (c : σ) (s : Bytes) : Prop :=
  ∃ R : σ → Bytes → Prop, PausingFeed pause R ∧ R c s

/-- The peer takes what is written, sends `s` and then closes, and nothing fails. -/
def Serves (c : σ) (s : Bytes) : Prop := ∃ R : σ → Bytes → Prop, WillingFeed R ∧ R c s

theorem Delivers.sends {c : σ} {s : Bytes} (h : Delivers c s) : Sends c s := by
  obtain ⟨R, hR, hc⟩ := h
  exact ⟨R, hR.toFeed, hc⟩

theorem Pauses.sends {pause : Bytes → Prop} {c : σ} {s : Bytes} (h : Pauses pause c s) :
    Sends c s := by
  obtain ⟨R, hR, hc⟩ := h
  exact ⟨R, hR.toFeed, hc⟩

theorem Serves.delivers {c : σ} {s : Bytes} (h : Serves c s) : Delivers c s := by
  obtain ⟨R, hR, hc⟩ := h
  exact ⟨R, hR.toSteadyFeed, hc⟩

theorem sends_feed : Feed (Sends (σ := σ)) where
  read_ok := by
    rintro c c' s bs room ⟨R, hR, hc⟩ hroom hr
    obtain ⟨hnil, t, hs, ht⟩ := hR.read_ok hc hroom hr
    exact ⟨hnil, t, hs, R, hR, ht⟩
  read_error := by
    rintro c c' s room f ⟨R, hR, hc⟩ hroom hr
    exact ⟨R, hR, hR.read_error hc hroom hr⟩

theorem pauses_feed (pause : Bytes → Prop) : PausingFeed pause (Pauses (σ := σ) pause) where
  read_ok := by
    rintro c c' s bs room ⟨R, hR, hc⟩ hroom hr
    obtain ⟨hnil, t, hs, ht⟩ := hR.read_ok hc hroom hr
    exact ⟨hnil, t, hs, R, hR, ht⟩
  read_error := by
    rintro c c' s room f ⟨R, hR, hc⟩ hroom hr
    exact ⟨R, hR, hR.read_error hc hroom hr⟩
  pause_of_error := by
    rintro c c' s room f ⟨R, hR, hc⟩ hroom hr
    exact hR.pause_of_error hc hroom hr

/-- A read times out at a pause, or gives a front part of the stream, and nothing only at its
end. -/
theorem Pauses.read {pause : Bytes → Prop} {c : σ} {s : Bytes} (h : Pauses pause c s) {room : Nat}
    (hroom : 0 < room) :
    (pause s ∧ ∃ c', Transport.read c room = (.error .timeout, c') ∧ Pauses pause c' s) ∨
    ∃ bs t c', Transport.read c room = (.ok bs, c') ∧ s = bs ++ t ∧ (bs = [] → s = []) ∧
      bs.length ≤ room ∧ Pauses pause c' t := by
  cases hr : Transport.read c room with
  | mk a c' =>
      cases a with
      | error f =>
          obtain ⟨rfl, hp⟩ := (pauses_feed pause).pause_of_error h hroom hr
          exact .inl ⟨hp, c', rfl, (pauses_feed pause).read_error h hroom hr⟩
      | ok bs =>
          obtain ⟨hnil, t, hs, ht⟩ := (pauses_feed pause).read_ok h hroom hr
          exact .inr ⟨bs, t, c', rfl, hs, hnil, Transport.read_length_le hr, ht⟩

/-- Only what holds of the bytes that are left matters for pauses to come. -/
theorem Pauses.imp {p q : Bytes → Prop} {c : σ} {s : Bytes} (h : Pauses p c s)
    (hpq : ∀ t, t.length ≤ s.length → p t → q t) : Pauses q c s := by
  obtain ⟨R, hR, hc⟩ := h
  refine ⟨fun c t => R c t ∧ t.length ≤ s.length, ⟨⟨?_, ?_⟩, ?_⟩, hc, Nat.le_refl _⟩
  · rintro c c' t bs room ⟨hc, hle⟩ hroom hr
    obtain ⟨hnil, t', rfl, ht'⟩ := hR.read_ok hc hroom hr
    rw [List.length_append] at hle
    exact ⟨hnil, t', rfl, ht', by omega⟩
  · rintro c c' t room f ⟨hc, hle⟩ hroom hr
    exact ⟨hR.read_error hc hroom hr, hle⟩
  · rintro c c' t room f ⟨hc, hle⟩ hroom hr
    obtain ⟨hf, ht⟩ := hR.pause_of_error hc hroom hr
    exact ⟨hf, hpq t hle ht⟩

/-- A stream without faults is one that never pauses. -/
theorem delivers_iff_pauses {c : σ} {s : Bytes} : Delivers c s ↔ Pauses (fun _ => False) c s := by
  constructor
  · rintro ⟨R, hR, hc⟩
    exact ⟨R, ⟨hR.toFeed, fun hc hroom hr => absurd hr (hR.read_ne_error hc hroom)⟩, hc⟩
  · rintro ⟨R, hR, hc⟩
    exact ⟨R, ⟨hR.toFeed, fun hc hroom hr => (hR.pause_of_error hc hroom hr).2⟩, hc⟩

theorem delivers_feed : SteadyFeed (Delivers (σ := σ)) where
  read_ok := by
    intro c c' s bs room hc hroom hr
    rw [delivers_iff_pauses] at hc
    obtain ⟨hnil, t, hs, ht⟩ := (pauses_feed _).read_ok hc hroom hr
    exact ⟨hnil, t, hs, delivers_iff_pauses.2 ht⟩
  read_error := by
    rintro c c' s room f ⟨R, hR, hc⟩ hroom hr
    exact absurd hr (hR.read_ne_error hc hroom)
  read_ne_error := by
    rintro c c' s room f ⟨R, hR, hc⟩ hroom
    exact hR.read_ne_error hc hroom

/-- A read without faults gives a front part of the stream, and nothing only at its end. -/
theorem Delivers.read {c : σ} {s : Bytes} (h : Delivers c s) {room : Nat} (hroom : 0 < room) :
    ∃ bs t c', Transport.read c room = (.ok bs, c') ∧ s = bs ++ t ∧ (bs = [] → s = []) ∧
      bs.length ≤ room ∧ Delivers c' t := by
  rcases (delivers_iff_pauses.1 h).read hroom with ⟨hp, -⟩ | ⟨bs, t, c', hr, hs, hnil, hle, ht⟩
  · cases hp
  · exact ⟨bs, t, c', hr, hs, hnil, hle, delivers_iff_pauses.2 ht⟩

/-- No pause stands within `u`, its front included, if `v` follows it. -/
def Quiet (pause : Bytes → Prop) (u v : Bytes) : Prop := ∀ w, w ≠ [] → w <:+ u → ¬ pause (w ++ v)

/-- A stream that pauses at its front or behind `u` only is quiet from the second byte of `u` on. -/
theorem Quiet.of_front_or_behind {pause : Bytes → Prop} {b : UInt8} {u v : Bytes}
    (h : ∀ t, pause t → t = b :: u ++ v ∨ t.length ≤ v.length) : Quiet pause u v := by
  intro w hne hw hp
  have hpos : 0 < w.length := List.length_pos_iff.2 hne
  have hle : w.length ≤ u.length := hw.length_le
  rcases h _ hp with hfront | hbehind
  · have hlen := congrArg List.length hfront
    simp only [List.length_append, List.length_cons] at hlen
    omega
  · rw [List.length_append] at hbehind
    omega

theorem Quiet.of_append_right {pause : Bytes → Prop} {x y v : Bytes} (h : Quiet pause (x ++ y) v) :
    Quiet pause y v :=
  fun w hne hw => h w hne (hw.trans (List.suffix_append x y))

theorem Quiet.of_append_left {pause : Bytes → Prop} {x y v : Bytes} (h : Quiet pause (x ++ y) v) :
    Quiet pause x (y ++ v) := by
  rintro w hne ⟨u, rfl⟩ hp
  have hw : w ++ y <:+ u ++ w ++ y := ⟨u, (List.append_assoc u w y).symm⟩
  exact h (w ++ y) (by simp [hne]) hw (by rwa [List.append_assoc])

/-! ## One byte at a time -/

/-- One-byte reads lead from one connection to the other and give these bytes. -/
inductive Takes : σ → Bytes → σ → Prop
  | nil (c : σ) : Takes c [] c
  | cons {c c₁ c₂ : σ} {b : UInt8} {u : Bytes} (hr : Transport.read c 1 = (.ok [b], c₁))
      (h : Takes c₁ u c₂) : Takes c (b :: u) c₂

theorem Takes.append {c c₁ c₂ : σ} {u v : Bytes} (h₁ : Takes c u c₁) (h₂ : Takes c₁ v c₂) :
    Takes c (u ++ v) c₂ := by
  induction h₁ with
  | nil => exact h₂
  | cons hr _ ih => exact .cons hr (ih h₂)

theorem Takes.of_append {c c₂ : σ} {u v : Bytes} (h : Takes c (u ++ v) c₂) :
    ∃ c₁, Takes c u c₁ ∧ Takes c₁ v c₂ := by
  induction u generalizing c with
  | nil => exact ⟨c, .nil c, h⟩
  | cons b u ih =>
      rcases h with _ | ⟨hr, h⟩
      obtain ⟨c₁, hu, hv⟩ := ih h
      exact ⟨c₁, .cons hr hu, hv⟩

/-- A one-byte read gives no more than one byte. -/
theorem eq_nil_of_read_one {c c' : σ} {b : UInt8} {bs : Bytes}
    (hr : Transport.read c 1 = (.ok (b :: bs), c')) : bs = [] := by
  have := Transport.read_length_le hr
  simpa using this

theorem Takes.single {c c' : σ} {b : UInt8} {bs : Bytes}
    (hr : Transport.read c 1 = (.ok (b :: bs), c')) : Takes c [b] c' := by
  rw [eq_nil_of_read_one hr] at hr
  exact .cons hr (.nil c')

/-- One-byte reads respect the relation: each takes the byte it gives off the bytes still to come,
and none is left when the peer has closed. -/
structure ByteFeed (R : σ → Bytes → Prop) : Prop where
  take : ∀ {c c' : σ} {s : Bytes} {b : UInt8}, R c s → Transport.read c 1 = (.ok [b], c') →
    ∃ t, s = b :: t ∧ R c' t
  close : ∀ {c c' : σ} {s : Bytes}, R c s → Transport.read c 1 = (.ok [], c') → s = []

theorem Feed.byteFeed {R : σ → Bytes → Prop} (hR : Feed R) : ByteFeed R where
  take := by
    intro c c' s b hs hr
    obtain ⟨-, t, rfl, ht⟩ := hR.read_ok hs Nat.one_pos hr
    exact ⟨t, rfl, ht⟩
  close := fun hs hr => (hR.read_ok hs Nat.one_pos hr).1 rfl

/-- What was taken stood at the front. -/
theorem Takes.front {R : σ → Bytes → Prop} (hR : ByteFeed R) {c c' : σ} {s u : Bytes}
    (h : Takes c u c') (hs : R c s) : ∃ t, s = u ++ t ∧ R c' t := by
  induction h generalizing s with
  | nil => exact ⟨s, rfl, hs⟩
  | cons hr _ ih =>
      obtain ⟨t, rfl, ht⟩ := hR.take hs hr
      obtain ⟨t', rfl, ht'⟩ := ih ht
      exact ⟨t', rfl, ht'⟩

theorem Takes.feed {R : σ → Bytes → Prop} (hR : Feed R) {c c' : σ} {s u : Bytes}
    (h : Takes c u c') (hs : R c s) : ∃ t, s = u ++ t ∧ R c' t :=
  h.front hR.byteFeed hs

theorem Takes.delivers {c c' : σ} {s u : Bytes} (h : Takes c u c') (hs : Delivers c s) :
    ∃ t, s = u ++ t ∧ Delivers c' t :=
  h.feed delivers_feed.toFeed hs

/-- A one-byte read times out at a pause, or gives the first byte. -/
theorem Pauses.read_one {pause : Bytes → Prop} {c : σ} {b : UInt8} {s : Bytes}
    (h : Pauses pause c (b :: s)) :
    (pause (b :: s) ∧ ∃ c', Transport.read c 1 = (.error .timeout, c') ∧ Pauses pause c' (b :: s)) ∨
    ∃ c', Transport.read c 1 = (.ok [b], c') ∧ Pauses pause c' s := by
  rcases h.read Nat.one_pos with hpause | ⟨bs, t, c', hr, hs, hnil, -, ht⟩
  · exact .inl hpause
  · cases bs with
    | nil => cases hnil rfl
    | cons b' bs =>
        obtain rfl := eq_nil_of_read_one hr
        obtain ⟨rfl, rfl⟩ := List.cons.inj hs
        exact .inr ⟨c', hr, ht⟩

/-- Whatever stands at the front of the stream can be taken, if no pause stands within it. -/
theorem Pauses.takes {pause : Bytes → Prop} {c : σ} {u v : Bytes} (h : Pauses pause c (u ++ v))
    (hq : Quiet pause u v) : ∃ c', Takes c u c' ∧ Pauses pause c' v := by
  induction u generalizing c with
  | nil => exact ⟨c, .nil c, h⟩
  | cons b u ih =>
      rcases h.read_one with ⟨hp, -⟩ | ⟨c₁, hr, hc⟩
      · exact absurd hp (hq (b :: u) (List.cons_ne_nil b u) List.suffix_rfl)
      · obtain ⟨c', hu, hv⟩ := ih hc (@Quiet.of_append_right _ [b] u v hq)
        exact ⟨c', .cons hr hu, hv⟩

/-- What stands at the front can be taken, unless the stream pauses right there, if no pause stands
behind its first byte. -/
theorem Pauses.takes_or_pause {pause : Bytes → Prop} {c : σ} {b : UInt8} {u v : Bytes}
    (h : Pauses pause c (b :: u ++ v)) (hq : Quiet pause u v) :
    (∃ c', Transport.read c 1 = (.error .timeout, c') ∧ Pauses pause c' (b :: u ++ v)) ∨
    ∃ c', Takes c (b :: u) c' ∧ Pauses pause c' v := by
  rcases h.read_one with ⟨-, hpause⟩ | ⟨c₁, hr, hc⟩
  · exact .inl hpause
  · obtain ⟨c', hu, hv⟩ := hc.takes hq
    exact .inr ⟨c', .cons hr hu, hv⟩

theorem Delivers.takes {c : σ} {u v : Bytes} (h : Delivers c (u ++ v)) :
    ∃ c', Takes c u c' ∧ Delivers c' v := by
  obtain ⟨c', hu, hv⟩ := (delivers_iff_pauses.1 h).takes fun _ _ _ => id
  exact ⟨c', hu, delivers_iff_pauses.2 hv⟩

/-- At the end of the stream a read reports the close. -/
theorem Delivers.read_nil {c : σ} (h : Delivers c []) {room : Nat} (hroom : 0 < room) :
    ∃ c', Transport.read c room = (.ok [], c') ∧ Delivers c' [] := by
  obtain ⟨bs, t, c', hr, hs, -, -, ht⟩ := h.read hroom
  obtain ⟨rfl, rfl⟩ := List.append_eq_nil_iff.1 hs.symm
  exact ⟨c', hr, ht⟩

/-- A connection delivers one stream only. -/
theorem Delivers.unique {c : σ} {s t : Bytes} (hs : Delivers c s) (ht : Delivers c t) : s = t := by
  have hs' : Delivers c (s ++ []) := by rwa [List.append_nil]
  obtain ⟨c', hu, hnil⟩ := hs'.takes
  obtain ⟨t', rfl, ht'⟩ := hu.delivers ht
  obtain ⟨c'', hr, -⟩ := hnil.read_nil Nat.one_pos
  rw [(delivers_feed.read_ok ht' Nat.one_pos hr).1 rfl, List.append_nil]

/-! ## The calls of one-byte reads -/

def Call.take (b : UInt8) : Call := .read 1 (.ok [b])

theorem Takes.calls {l l' : Logged σ} {u : Bytes} (h : Takes l u l') :
    Takes l.inner u l'.inner ∧ l'.calls = l.calls ++ u.map .take := by
  induction h with
  | nil => exact ⟨.nil _, by simp⟩
  | cons hr _ ih =>
      obtain ⟨hi, hc⟩ := Logged.of_note hr
      refine ⟨.cons hi ih.1, ?_⟩
      rw [ih.2, hc]
      simp [Call.take]

/-! ## Scripts -/

namespace Script

def Step.isPiece : Step → Bool
  | .data (_ :: _) => true
  | _ => false

def Steady (c : Script) : Prop := ∀ step ∈ c.steps, step.isPiece = true

instance (c : Script) : Decidable c.Steady :=
  inferInstanceAs (Decidable (∀ step ∈ c.steps, step.isPiece = true))

/-- Every write of some data accepts some of it, and every flush succeeds. -/
structure Willing (c : Script) : Prop where
  writeLimit_ne_zero : c.behaviour.writeLimit ≠ some 0
  writesOk_eq_none : c.behaviour.writesOk = none
  flushesOk_eq_none : c.behaviour.flushesOk = none

/-- The data steps hand out bytes, and the other steps are timeouts, each where `pause` holds of the
bytes behind it. -/
def PausesAt (pause : Bytes → Prop) : List Step → Prop
  | [] => True
  | .data bs :: rest => bs ≠ [] ∧ PausesAt pause rest
  | .fault f :: rest => f = .timeout ∧ pause (rest.flatMap Step.bytes) ∧ PausesAt pause rest

theorem steady_iff_pausesAt {c : Script} : c.Steady ↔ PausesAt (fun _ => False) c.steps := by
  unfold Steady
  induction c.steps with
  | nil => simp [PausesAt]
  | cons step rest ih =>
      rw [List.forall_mem_cons, ih]
      cases step with
      | data bs => cases bs <;> simp [PausesAt, Step.isPiece]
      | fault f => simp [PausesAt, Step.isPiece]

/-- A read leaves a script of that kind, and gives nothing only when no step is left. -/
theorem PausesAt.read_ok {pause : Bytes → Prop} {c c' : Script} {room : Nat} {bs : Bytes}
    (h : PausesAt pause c.steps) (hroom : 0 < room) (hr : c.read room = (.ok bs, c')) :
    (bs = [] → c.stream = []) ∧ PausesAt pause c'.steps ∧ c'.behaviour = c.behaviour := by
  unfold read at hr
  simp only at hr
  split at hr
  next hs =>
    cases hr
    exact ⟨fun _ => by simp [stream, hs], h, rfl⟩
  next => cases hr
  next ds rest hs =>
    cases hr
    rw [hs] at h
    obtain ⟨hne, hrest⟩ := h
    refine ⟨fun hnil => ?_, ?_, rfl⟩
    · rcases List.take_eq_nil_iff.1 hnil with h0 | hds
      · omega
      · exact absurd hds hne
    · simp only
      split
      next => exact hrest
      next hleft => exact ⟨hleft, hrest⟩

/-- A read fails with the timeout of a step that pauses there. -/
theorem PausesAt.read_error {pause : Bytes → Prop} {c c' : Script} {room : Nat} {f : Fault}
    (h : PausesAt pause c.steps) (hr : c.read room = (.error f, c')) :
    f = .timeout ∧ pause c.stream ∧ PausesAt pause c'.steps ∧ c'.stream = c.stream := by
  unfold read at hr
  simp only at hr
  split at hr
  next => cases hr
  next f' rest hs =>
    cases hr
    rw [hs] at h
    obtain ⟨rfl, hp, hrest⟩ := h
    have hstream : c.stream = rest.flatMap Step.bytes := by simp [stream, hs, Step.bytes]
    exact ⟨rfl, hstream ▸ hp, hrest, hstream.symm⟩
  next => cases hr

theorem pausingFeed (pause : Bytes → Prop) :
    PausingFeed pause fun (c : Script) s => PausesAt pause c.steps ∧ s = c.stream where
  read_ok := by
    rintro c c' s bs room ⟨h, rfl⟩ hroom hr
    obtain ⟨hnil, h', -⟩ := h.read_ok hroom hr
    exact ⟨hnil, c'.stream, stream_read hr, h', rfl⟩
  read_error := by
    rintro c c' s room f ⟨h, rfl⟩ - hr
    obtain ⟨-, -, h', hstream⟩ := h.read_error hr
    exact ⟨h', hstream.symm⟩
  pause_of_error := by
    rintro c c' s room f ⟨h, rfl⟩ - hr
    obtain ⟨hf, hp, -⟩ := h.read_error hr
    exact ⟨hf, hp⟩

theorem PausesAt.pauses {pause : Bytes → Prop} {c : Script} (h : PausesAt pause c.steps) :
    Pauses pause c c.stream :=
  ⟨_, pausingFeed pause, h, rfl⟩

theorem Steady.read_ne_error {c c' : Script} {room : Nat} {f : Fault} (h : c.Steady) :
    c.read room ≠ (.error f, c') :=
  fun hr => ((steady_iff_pausesAt.1 h).read_error hr).2.1

/-- A read keeps a script steady, and gives nothing only when no step is left. -/
theorem Steady.read_ok {c c' : Script} {room : Nat} {bs : Bytes} (h : c.Steady)
    (hroom : 0 < room) (hr : c.read room = (.ok bs, c')) :
    (bs = [] → c.stream = []) ∧ c'.Steady ∧ c'.behaviour = c.behaviour := by
  rw [steady_iff_pausesAt] at h ⊢
  exact h.read_ok hroom hr

/-- What a script accepts depends on its behaviour alone. -/
theorem Willing.of_behaviour {c c' : Script} (h : c.Willing) (hb : c'.behaviour = c.behaviour) :
    c'.Willing :=
  ⟨hb ▸ h.writeLimit_ne_zero, hb ▸ h.writesOk_eq_none, hb ▸ h.flushesOk_eq_none⟩

theorem Willing.write_ok {c : Script} {data : Bytes} (h : c.Willing) (hd : data ≠ []) :
    ∃ n c', c.write data = (.ok (n + 1), c') ∧ c'.steps = c.steps ∧
      c'.behaviour = c.behaviour := by
  have hpos : 0 < data.length := List.length_pos_iff.2 hd
  cases hl : c.behaviour.writeLimit with
  | none =>
      refine ⟨data.length - 1, { c with
        writes := c.writes + 1, written := c.written ++ data.take data.length }, ?_, rfl, rfl⟩
      simp [write, exceeds, h.writesOk_eq_none, hl, Nat.sub_add_cancel hpos]
  | some limit =>
      have hlimit : limit ≠ 0 := fun h0 => h.writeLimit_ne_zero (by rw [hl, h0])
      have hmin : min data.length limit - 1 + 1 = min data.length limit := by omega
      refine ⟨min data.length limit - 1, { c with
        writes := c.writes + 1
        written := c.written ++ data.take (min data.length limit) }, ?_, rfl, rfl⟩
      simp [write, exceeds, h.writesOk_eq_none, hl, hmin]

theorem Willing.flush_ok {c : Script} (h : c.Willing) :
    c.flush = (.ok (), { c with flushes := c.flushes + 1 }) := by
  simp [flush, exceeds, h.flushesOk_eq_none]

/-- A steady script delivers its stream. -/
theorem Steady.delivers {c : Script} (h : c.Steady) : Delivers c c.stream :=
  delivers_iff_pauses.2 (steady_iff_pausesAt.1 h).pauses

theorem willingFeed : WillingFeed fun (c : Script) s => c.Steady ∧ c.Willing ∧ s = c.stream where
  read_ok := by
    rintro c c' s bs room ⟨h, hw, rfl⟩ hroom hr
    obtain ⟨hnil, h', hb⟩ := h.read_ok hroom hr
    exact ⟨hnil, c'.stream, stream_read hr, h', hw.of_behaviour hb, rfl⟩
  read_error := by
    rintro c c' s room f ⟨h, -, rfl⟩ - hr
    exact absurd hr h.read_ne_error
  read_ne_error := by
    rintro c c' s room f ⟨h, -, rfl⟩ -
    exact h.read_ne_error
  write_ok := by
    rintro c s data ⟨h, hw, rfl⟩ hd
    obtain ⟨n, c', hwr, hs, hb⟩ := hw.write_ok hd
    refine ⟨n, c', hwr, ?_, hw.of_behaviour hb, ?_⟩
    · rwa [Steady, hs]
    · rw [stream, stream, hs]
  flush_ok := by
    rintro c s ⟨h, hw, rfl⟩
    exact ⟨_, hw.flush_ok, h, hw.of_behaviour rfl, rfl⟩

/-- A steady script that takes what is written to it serves its stream. -/
theorem Steady.serves {c : Script} (h : c.Steady) (hw : c.Willing) : Serves c c.stream :=
  ⟨_, willingFeed, h, hw, rfl⟩

end Script

end HttpExchange
