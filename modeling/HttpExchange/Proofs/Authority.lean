import HttpExchange.Connect
import HttpExchange.Proofs.Decimal
import HttpExchange.Proofs.TargetGrammar

set_option autoImplicit false

/-! # The host and the port of an authority

An authority is a host, or a host, a colon and the text of a port (`Splits`). Where it splits
depends on its first character: a literal in brackets ends at the first closing bracket and anything
may stand behind the colon; without brackets the last colon counts, and only if digits and nothing
else follow it. -/

namespace HttpExchange.Uri

/-- A literal in brackets: `[` begins it and its first `]` ends it. -/
def Bracketed (host : List Char) : Prop :=
  ∃ inner, host = '[' :: (inner ++ [']']) ∧ ']' ∉ inner

/-- The authority is this host, a colon and this text of a port. -/
def Splits (authority host port : List Char) : Prop :=
  authority = host ++ ':' :: port ∧
    (Bracketed host ∨ authority.head? ≠ some '[' ∧ port ≠ [] ∧ ∀ c ∈ port, c.isDigit = true)

def DecimalText (digits : List Char) (n : Nat) : Prop :=
  digits ≠ [] ∧ (∀ c ∈ digits, c.isDigit = true) ∧ Nat.ofDigitChars 10 digits 0 = n

/-! ## Where an authority splits -/

theorem splitLastColon?_eq_some_iff {cs before behind : List Char} :
    splitLastColon? cs = some (before, behind) ↔ cs = before ++ ':' :: behind ∧ ':' ∉ behind := by
  constructor
  · intro h
    unfold splitLastColon? at h
    split at h
    next => cases h
    next c rest hdrop =>
      cases h
      obtain ⟨hcs, hbehind, hcolon⟩ := Text.span_eq_iff.1 ⟨rfl, hdrop⟩
      have hc : c = ':' := by simpa using hcolon c rfl
      refine ⟨?_, fun hmem => by simpa using hbehind ':' (List.mem_reverse.1 hmem)⟩
      calc cs = cs.reverse.reverse := (List.reverse_reverse cs).symm
        _ = (cs.reverse.takeWhile (· != ':') ++ c :: rest).reverse := congrArg List.reverse hcs
        _ = _ := by rw [List.reverse_append, List.reverse_cons, hc, List.append_assoc]; rfl
  · rintro ⟨rfl, hbehind⟩
    -- seen from its end, the text has its first colon where it has the last one
    have hreverse : (before ++ ':' :: behind).reverse =
        behind.reverse ++ ':' :: before.reverse := by
      simp
    have hfront : ∀ c ∈ behind.reverse, (c != ':') = true := by
      intro c hc
      rw [bne_iff_ne]
      rintro rfl
      exact hbehind (List.mem_reverse.1 hc)
    obtain ⟨htake, hdrop⟩ := Text.span_eq_iff.2 ⟨hreverse, hfront, fun c hc => by
      rw [← Option.some.inj hc]; rfl⟩
    rw [splitLastColon?, htake, hdrop]
    simp only [List.reverse_reverse]

/-- Behind a bracket the first one that closes it ends the host. -/
theorem splitPort?_bracket_iff {rest host port : List Char} :
    splitPort? ('[' :: rest) = some (host, port) ↔
      '[' :: rest = host ++ ':' :: port ∧ Bracketed host := by
  constructor
  · intro h
    simp only [splitPort?] at h
    split at h
    next close port' hdrop =>
      cases h
      obtain ⟨hall, hfront, hback⟩ := Text.span_eq_iff.1 ⟨rfl, hdrop⟩
      have hclose : close = ']' := by simpa using hback close rfl
      have htake : ('[' :: rest).takeWhile (· != ']') = '[' :: rest.takeWhile (· != ']') := rfl
      rw [hclose] at hall
      rw [htake] at hall hfront ⊢
      refine ⟨?_, rest.takeWhile (· != ']'), rfl, ?_⟩
      · rw [List.append_assoc]
        exact hall
      · intro hmem
        simpa using hfront ']' (List.mem_cons_of_mem _ hmem)
    next => cases h
  · rintro ⟨hall, inner, rfl, hinner⟩
    -- the bracket that closes the host is the first one, as `inner` has none
    have hsplit : '[' :: rest = ('[' :: inner) ++ ']' :: ':' :: port := by
      rw [hall]
      simp
    have hfront : ∀ c ∈ '[' :: inner, (c != ']') = true := by
      intro c hc
      rw [bne_iff_ne]
      rintro rfl
      exact hinner (List.mem_of_ne_of_mem (by decide) hc)
    obtain ⟨htake, hdrop⟩ := Text.span_eq_iff.2 ⟨hsplit, hfront, fun c hc => by
      rw [← Option.some.inj hc]; rfl⟩
    simp only [splitPort?, htake, hdrop, List.cons_append]

/-- Without a bracket in front the last colon ends the host, if a number follows it. -/
theorem splitPort?_plain_iff {authority host port : List Char} (h : authority.head? ≠ some '[') :
    splitPort? authority = some (host, port) ↔
      authority = host ++ ':' :: port ∧ port ≠ [] ∧ ∀ c ∈ port, c.isDigit = true := by
  have hdigits : ∀ cs : List Char, cs.all Char.isDigit = true ↔ ∀ c ∈ cs, c.isDigit = true :=
    fun cs => List.all_eq_true
  constructor
  · intro hsplit
    unfold splitPort? at hsplit
    split at hsplit
    next => exact absurd rfl h
    next =>
      split at hsplit
      next host' port' hcolon =>
        split at hsplit
        next hport =>
          cases hsplit
          exact ⟨(splitLastColon?_eq_some_iff.1 hcolon).1, hport.1, (hdigits _).1 hport.2⟩
        next => cases hsplit
      next => cases hsplit
  · rintro ⟨rfl, hne, hport⟩
    -- a colon is no digit, so the one in front of the port is the last
    have hcolon : ':' ∉ port := fun hmem => absurd (hport ':' hmem) (by decide)
    have hlast := splitLastColon?_eq_some_iff.2 ⟨@rfl _ (host ++ ':' :: port), hcolon⟩
    unfold splitPort?
    split
    next heq => exact absurd (congrArg List.head? heq) h
    next => simp only [hlast, if_pos (And.intro hne ((hdigits port).2 hport))]

theorem splitPort?_eq_some_iff {authority host port : List Char} :
    splitPort? authority = some (host, port) ↔ Splits authority host port := by
  by_cases h : authority.head? = some '['
  · obtain ⟨rest, rfl⟩ := List.head?_eq_some_iff.1 h
    rw [splitPort?_bracket_iff]
    exact and_congr_right fun _ => ⟨.inl, fun hhost => hhost.resolve_right fun hplain => hplain.1 h⟩
  · rw [splitPort?_plain_iff h]
    refine and_congr_right fun hall => ⟨fun hport => .inr ⟨h, hport⟩, ?_⟩
    rintro (⟨inner, rfl, -⟩ | ⟨-, hport⟩)
    · exact absurd (by rw [hall]; rfl) h
    · exact hport

/-! ## The host and the port that are read -/

variable {u : Uri}

theorem host_of_splits {host port : List Char} (h : Splits u.authority.toList host port) :
    u.host = String.ofList host := by
  rw [Uri.host, splitPort?_eq_some_iff.2 h]

theorem port_of_splits {host port : List Char} (h : Splits u.authority.toList host port) :
    u.port = portNumber? port := by
  rw [Uri.port, splitPort?_eq_some_iff.2 h, Option.bind_some]

theorem splitPort?_eq_none {authority : List Char} (h : ∀ host port, ¬ Splits authority host port) :
    splitPort? authority = none := by
  rw [Option.eq_none_iff_forall_ne_some]
  rintro ⟨host, port⟩ hsplit
  exact h host port (splitPort?_eq_some_iff.1 hsplit)

theorem host_of_not_splits (h : ∀ host port, ¬ Splits u.authority.toList host port) :
    u.host = u.authority := by
  rw [Uri.host, splitPort?_eq_none h]

theorem port_eq_some_iff {p : Nat} : u.port = some p ↔
    ∃ host port, Splits u.authority.toList host port ∧ portNumber? port = some p := by
  rw [Uri.port, Option.bind_eq_some_iff, Prod.exists]
  simp only [splitPort?_eq_some_iff]

/-- A plus sign is no digit. -/
theorem not_digits_of_plus {rest : List Char} : ¬ ∀ c ∈ '+' :: rest, c.isDigit = true :=
  fun h => absurd (h '+' List.mem_cons_self) (by decide)

theorem portNumber?_eq_some_iff {port : List Char} {p : Nat} :
    portNumber? port = some p ↔ p < 65536 ∧
      (DecimalText port p ∨ ∃ digits, port = '+' :: digits ∧ DecimalText digits p) := by
  have hread : ∀ digits : List Char,
      Numeral.decimalText? Numeral.shortBound digits = some p ↔
        p < 65536 ∧ DecimalText digits p := by
    intro digits
    rw [decimalText?_eq_some_iff (by decide)]
    constructor
    · rintro ⟨hall, hne, hp, hlt⟩
      exact ⟨hlt, hne, hall, hp⟩
    · rintro ⟨hlt, hne, hall, hp⟩
      exact ⟨hall, hne, hp, hlt⟩
  unfold portNumber?
  split
  next rest =>
    -- a plus sign in front is passed over
    rw [hread]
    refine and_congr_right fun _ => ⟨fun h => .inr ⟨rest, rfl, h⟩, ?_⟩
    rintro (h | ⟨digits, heq, h⟩)
    · exact absurd h.2.1 not_digits_of_plus
    · cases heq
      exact h
  next hno =>
    rw [hread]
    refine and_congr_right fun _ => ⟨.inl, ?_⟩
    rintro (h | ⟨digits, rfl, -⟩)
    · exact h
    · exact absurd rfl (hno digits)

/-- Digits that denote a number of 16 bits are read as it; greater ones are not read at all. -/
theorem portNumber?_of_decimalText {digits : List Char} {n : Nat} (h : DecimalText digits n) :
    portNumber? digits = if n < 65536 then some n else none := by
  have hunique : ∀ p, portNumber? digits = some p ↔ p < 65536 ∧ p = n := by
    intro p
    rw [portNumber?_eq_some_iff]
    refine and_congr_right fun _ => ⟨?_, fun hp => .inl (hp ▸ h)⟩
    rintro (hp | ⟨rest, rfl, -⟩)
    · exact hp.2.2.symm.trans h.2.2
    · exact absurd h.2.1 not_digits_of_plus
  split
  next hn => exact (hunique n).2 ⟨hn, rfl⟩
  next hn =>
    rw [Option.eq_none_iff_forall_ne_some]
    intro p hp
    obtain ⟨hlt, rfl⟩ := (hunique p).1 hp
    exact hn hlt

/-! ## Ports -/

theorem connect_port {net : Network} {host : String} {port timeout : Nat} {s : Socket}
    (h : net.connect host port timeout = .ok s) : s.peer.2 = port := by
  unfold Network.connect at h
  split at h
  next => cases h
  next =>
    simp only at h
    split at h
    next => cases h
    next =>
      cases h
      rfl

/-- A socket that was made, whether it is handed out or closed again, is connected to the port of
the target. -/
theorem openStream_port {net : Network} {port : Option Nat} {options : Options} {s : Socket}
    (h : openStream net u port options = .ok s ∨
      ∃ e, openStream net u port options = .error ⟨e, some s⟩) :
    s.peer.2 = u.effectivePort port := by
  unfold openStream at h
  split at h
  next => obtain h | ⟨e, h⟩ := h <;> cases h
  next socket hsocket =>
    have hport : socket.peer.2 = u.effectivePort port := connect_port hsocket
    split at h
    · obtain h | ⟨e, h⟩ := h <;> cases h
      exact hport
    · obtain h | ⟨e, h⟩ := h <;> cases h
      exact hport

/-- Digits behind a colon split an authority, if its host is a literal in brackets or no bracket
stands in front. -/
theorem splits_of_decimalText {host digits : String} {n : Nat}
    (htext : u.authority = host ++ ":" ++ digits) (hdigits : DecimalText digits.toList n)
    (hhost : Bracketed host.toList ∨ u.authority.toList.head? ≠ some '[') :
    Splits u.authority.toList host.toList digits.toList :=
  ⟨by simp [htext], hhost.imp_right fun hplain => ⟨hplain, hdigits.1, hdigits.2.1⟩⟩

/-- **The port that is used.** Whenever an authority is a host, a colon and digits, where the host
is a literal in brackets or the authority does not begin with a bracket, the host is this one; the
port is the number that the digits denote, however many zeros stand in front, if it has 16 bits, and
without an explicit port this port is used. A greater number is no port, and the default of the
scheme is used. A port is read off nothing else, except that a plus sign may stand in front of the
digits behind a literal in brackets. Every socket that is made is connected to the port of its
target. -/
theorem port_written (u : Uri) :
    (∀ (host digits : String) (n : Nat), u.authority = host ++ ":" ++ digits →
      DecimalText digits.toList n →
      Bracketed host.toList ∨ u.authority.toList.head? ≠ some '[' →
      u.host = host ∧ u.port = (if n < 65536 then some n else none) ∧
      u.effectivePort none = if n < 65536 then n else u.scheme.defaultPort) ∧
    (∀ p, u.port = some p ↔ p < 65536 ∧ ∃ digits : String, DecimalText digits.toList p ∧
      (u.authority = u.host ++ ":" ++ digits ∧
          (Bracketed u.host.toList ∨ u.authority.toList.head? ≠ some '[') ∨
        u.authority = u.host ++ ":+" ++ digits ∧ Bracketed u.host.toList)) ∧
    ∀ net port options s, (openStream net u port options = .ok s ∨
      ∃ e, openStream net u port options = .error ⟨e, some s⟩) →
      s.peer.2 = u.effectivePort port := by
  refine ⟨?_, ?_, fun net port options s => openStream_port⟩
  · intro host digits n htext hdigits hhost
    have hsplits := splits_of_decimalText htext hdigits hhost
    have hport : u.port = if n < 65536 then some n else none :=
      (port_of_splits hsplits).trans (portNumber?_of_decimalText hdigits)
    refine ⟨(host_of_splits hsplits).trans String.ofList_toList, hport, ?_⟩
    rw [effectivePort, Option.none_or, hport]
    split <;> rfl
  · intro p
    constructor
    · -- what is read as a port is written in one of the two ways
      intro hport
      obtain ⟨host, port, hsplits, hnumber⟩ := port_eq_some_iff.1 hport
      have hhost : u.host.toList = host := by rw [host_of_splits hsplits, String.toList_ofList]
      obtain ⟨htext, hshape⟩ := hsplits
      rw [← hhost] at htext hshape
      obtain ⟨hlt, hdigits | ⟨digits, rfl, hdigits⟩⟩ := portNumber?_eq_some_iff.1 hnumber
      · refine ⟨hlt, String.ofList port, by rwa [String.toList_ofList], .inl ⟨?_, ?_⟩⟩
        · rw [← String.toList_inj, htext]
          simp
        · exact hshape.imp_right fun hplain => hplain.1
      · refine ⟨hlt, String.ofList digits, by rwa [String.toList_ofList], .inr ⟨?_, ?_⟩⟩
        · rw [← String.toList_inj, htext]
          simp
        · -- without brackets only digits follow the colon
          exact hshape.resolve_right fun hplain => absurd hplain.2.2 not_digits_of_plus
    · rintro ⟨hlt, digits, hdigits, ⟨htext, hhost⟩ | ⟨htext, hhost⟩⟩
      · rw [port_of_splits (splits_of_decimalText htext hdigits hhost),
          portNumber?_of_decimalText hdigits, if_pos hlt]
      · have hsplits : Splits u.authority.toList u.host.toList ('+' :: digits.toList) :=
          ⟨by rw [htext]; simp, .inl hhost⟩
        rw [port_of_splits hsplits]
        exact portNumber?_eq_some_iff.2 ⟨hlt, .inr ⟨_, rfl, hdigits⟩⟩

/-- A literal in brackets has colons of its own, and a zero in front of a number counts for
nothing. -/
theorem port_written_bracketed :
    ∃ u, parse "https://[::1]:08443/x" = .ok u ∧ u.authority = "[::1]" ++ ":" ++ "08443" ∧
      DecimalText "08443".toList 8443 ∧ Bracketed "[::1]".toList ∧
      u.host = "[::1]" ∧ u.port = some 8443 ∧ u.effectivePort none = 8443 := by
  have hdigits : DecimalText "08443".toList 8443 :=
    ⟨by decide, List.all_eq_true.1 (by decide), by decide⟩
  have hbracketed : Bracketed "[::1]".toList := ⟨"::1".toList, by decide, by decide⟩
  obtain ⟨hread, -, -⟩ := port_written ⟨.https, "[::1]:08443", "/x"⟩
  obtain ⟨hhost, hport, heffective⟩ := hread "[::1]" "08443" 8443 (by decide) hdigits
    (.inl hbracketed)
  exact ⟨_, rfl, by decide, hdigits, hbracketed, hhost, hport, heffective⟩

/-- A port that is written is not always the one that is used, and what is read as a port is not
always digits: the number 70000 has more than 16 bits, and `+8080` is read as 8080. -/
theorem port_passed_over :
    (∃ u, parse "http://host:70000/" = .ok u ∧ u.authority = "host" ++ ":" ++ "70000" ∧
      DecimalText "70000".toList 70000 ∧ u.authority.toList.head? ≠ some '[' ∧
      u.host = "host" ∧ u.effectivePort none = 80) ∧
    ∃ u, parse "http://[::1]:+8080/" = .ok u ∧ u.port = some 8080 ∧
      ∀ digits : String, (∀ c ∈ digits.toList, c.isDigit = true) →
        u.authority ≠ u.host ++ ":" ++ digits := by
  have hdigits : DecimalText "70000".toList 70000 :=
    ⟨by decide, List.all_eq_true.1 (by decide), by decide⟩
  refine ⟨⟨⟨.http, "host:70000", "/"⟩, rfl, rfl, hdigits, by decide, by decide, by decide⟩,
    ⟨.http, "[::1]:+8080", "/"⟩, rfl, by decide, ?_⟩
  intro digits hall hauthority
  have hhost : Uri.host ⟨.http, "[::1]:+8080", "/"⟩ = "[::1]" := by decide
  rw [hhost, ← String.toList_inj] at hauthority
  -- what follows the colon begins with the plus sign
  have hplus : digits.toList = '+' :: "8080".toList := by
    simpa using hauthority.symm
  rw [hplus] at hall
  exact not_digits_of_plus hall

/-! ## Hosts -/

/-- The host is empty if the authority is, or if it is a port and nothing else. -/
theorem host_eq_empty_iff (hne : u.authority ≠ "") :
    u.host = "" ↔ ∃ port : String, port ≠ "" ∧ (∀ c ∈ port.toList, c.isDigit = true) ∧
      u.authority = ":" ++ port := by
  constructor
  · intro hhost
    by_cases h : ∃ host port, Splits u.authority.toList host port
    · obtain ⟨host, port, hsplits⟩ := h
      have hnil : host = [] := by
        rw [host_of_splits hsplits] at hhost
        exact String.ofList_eq_empty_iff.1 hhost
      obtain ⟨htext, hshape⟩ := hsplits
      rw [hnil] at htext hshape
      -- a literal in brackets has the brackets at least
      obtain ⟨inner, hinner, -⟩ | ⟨-, hport, hdigits⟩ := hshape
      · cases hinner
      · refine ⟨String.ofList port, mt String.ofList_eq_empty_iff.1 hport,
          by rwa [String.toList_ofList], ?_⟩
        rw [← String.toList_inj, htext]
        simp
    · rw [host_of_not_splits fun host port hsplits => h ⟨host, port, hsplits⟩] at hhost
      exact absurd hhost hne
  · rintro ⟨port, hport, hdigits, htext⟩
    have hsplits : Splits u.authority.toList [] port.toList := by
      refine ⟨by simp [htext], .inr ⟨by simp [htext], by simpa using hport, hdigits⟩⟩
    exact host_of_splits hsplits

/-- Nothing comes of the text where a target is asked for: a connection that was handed over is
closed, and none is made. -/
structure Refused (text : String) : Prop where
  parse : Uri.parse text = .error .invalidUri
  new : ∀ {σ : Type} [Transport σ] (c : σ) (storage : Bytes),
    Client.new text c storage = .error ⟨.invalidUri, some (Transport.close c).2⟩
  dial : ∀ (net : Network) (port : Option Nat) (options : Options),
    HttpExchange.dial net text port options = .error ⟨.invalidUri, none⟩
  client : ∀ (net : Network) (port : Option Nat) (storage : Bytes) (options : Options),
    options.version = .http11 →
      Client.connect net text port storage options = .error ⟨.invalidUri, none⟩
  session : ∀ {ε β η : Type} [FrameEngine ε β] (net : Network) (port : Option Nat)
    (options : Options) (engine : ε) (handler : η),
    Session.connect (β := β) net text port options engine handler = .error ⟨.invalidUri, none⟩

theorem refused_of_no_target {text : String}
    (h : ∀ scheme authority path, ¬ Target text scheme authority path) : Refused text := by
  have hparse := parse_of_no_target h
  refine ⟨hparse, fun c storage => Client.new_of_no_target h c storage, ?_, ?_, ?_⟩
  · intro net port options
    rw [HttpExchange.dial, hparse]
  · intro net port storage options hversion
    rw [Client.connect, if_neg (not_not.2 hversion), hparse]
  · intro ε β η _ net port options engine handler
    rw [Session.connect, hparse]

/-- A marker without an authority behind it is no target. -/
theorem refused_of_no_authority {text path : String} {scheme : Scheme}
    (htext : text = String.ofList scheme.marker ++ path)
    (hpath : path = "" ∨ path.toList.head? = some '/') : Refused text := by
  refine refused_of_no_target fun scheme' authority' path' htarget => ?_
  have hlist : text.toList = scheme.marker ++ path.toList := by
    rw [htext]
    simp
  obtain ⟨-, hrest⟩ := Scheme.marker_append_inj (hlist.symm.trans htarget.toList_eq.1)
  -- the path would begin with the first character of the authority, which is no slash
  obtain ⟨c, cs, hauthority⟩ : ∃ c cs, authority'.toList = c :: cs :=
    List.exists_cons_of_ne_nil (by simpa using htarget.authority_ne)
  rw [hauthority, List.cons_append] at hrest
  rcases hpath with rfl | hslash
  · cases hrest
  · rw [hrest, List.head?_cons] at hslash
    apply htarget.no_slash
    rw [hauthority, Option.some.inj hslash]
    exact List.mem_cons_self

/-- **The host that is named.** A text that has nothing between the marker and the path, or the end,
is refused wherever a target is asked for. An authority that was accepted is not empty, and it names
a host unless it is a colon and digits and nothing else. -/
theorem host_of_accepted (text : String) :
    (∀ (scheme : Scheme) (path : String), text = String.ofList scheme.marker ++ path →
      path = "" ∨ path.toList.head? = some '/' → Refused text) ∧
    ∀ u, parse text = .ok u → u.authority ≠ "" ∧
      (u.host = "" ↔ ∃ port : String, port ≠ "" ∧ (∀ c ∈ port.toList, c.isDigit = true) ∧
        u.authority = ":" ++ port) := by
  refine ⟨fun scheme path => refused_of_no_authority, ?_⟩
  intro u hparse
  obtain ⟨path, htarget, -⟩ := parse_eq_ok_iff.1 hparse
  exact ⟨htarget.authority_ne, host_eq_empty_iff htarget.authority_ne⟩

/-- A path needs an authority in front of it. What follows a colon is part of the host unless it
consists of digits. -/
theorem host_of_accepted_colon :
    Refused "https:///path" ∧ ∃ u, parse "http://:x" = .ok u ∧ u.host ≠ "" := by
  constructor
  · obtain ⟨hrefused, -⟩ := host_of_accepted "https:///path"
    exact hrefused .https "/path" (by decide) (.inr (by decide))
  · have hparse : parse "http://:x" = .ok ⟨.http, ":x", "/"⟩ := rfl
    obtain ⟨-, haccepted⟩ := host_of_accepted "http://:x"
    obtain ⟨-, hempty⟩ := haccepted _ hparse
    refine ⟨_, hparse, mt hempty.1 ?_⟩
    rintro ⟨port, -, hdigits, htext⟩
    have hport : port.toList = ['x'] := by
      rw [← String.toList_inj] at htext
      simpa using htext.symm
    exact absurd (hdigits 'x' (by rw [hport]; decide)) (by decide)

/-- A target is accepted that names a port and no host: a client is built for it, and if the network
has an address for the empty name, a connection is made. -/
theorem host_missing :
    let net : Network := ⟨fun name => if name = "" then some [.loopback] else none, fun _ _ => true⟩
    (∃ u, parse "http://:80/" = .ok u ∧ u.authority = ":" ++ "80" ∧ u.host = "") ∧
    (∃ k, Client.new "http://:80/" ({ steps := [] } : Script) [] = .ok k) ∧
    (∃ s, dial net "http://:80/" none {} = .ok s ∧ s.peer = (.loopback, 80)) ∧
    ∃ k, Client.connect net "http://:80/" none [] {} = .ok k :=
  ⟨⟨⟨.http, ":80", "/"⟩, rfl, by decide, by decide⟩, ⟨_, rfl⟩, ⟨_, rfl, rfl⟩, _, rfl⟩

end HttpExchange.Uri
