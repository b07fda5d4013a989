import HttpExchange.Proofs.ClientRuns
import HttpExchange.Transport.Script

set_option autoImplicit false

/-! # The grammar of targets

A target is the marker of a scheme, an authority that is not empty and has no slash, and a path that
begins with one, or none (`Target`). A text is a target in one way at most, since the first slash
behind the marker ends the authority and the two markers differ in their fifth character. Parsing
accepts exactly the targets (`parse_eq_ok_iff`), and a client is built for exactly those whose
authority and path it can hold. A client that is not built costs its connection one close and no
other call (`new_grammar`). -/

namespace HttpExchange

/-- The text is a target with this authority and this path; a target without a path has the empty
one. -/
structure Target (text : String) (scheme : Scheme) (authority path : String) : Prop where
  text_eq : text = String.ofList scheme.marker ++ authority ++ path
  authority_ne : authority ≠ ""
  no_slash : '/' ∉ authority.toList
  path_slash : path = "" ∨ path.toList.head? = some '/'

/-! ## Schemes -/

/-- No text begins with both markers: they differ in their first five characters. -/
theorem Scheme.marker_append_inj {scheme scheme' : Scheme} {rest rest' : List Char}
    (h : scheme.marker ++ rest = scheme'.marker ++ rest') : scheme = scheme' ∧ rest = rest' := by
  -- the fifth character is `:` in one marker and `s` in the other
  have htake : ∀ (s : Scheme) (rest : List Char),
      (s.marker ++ rest).take 5 = s.marker.take 5 := by
    intro s rest
    apply List.take_append_of_le_length
    cases s <;> decide
  have hfront : scheme.marker.take 5 = scheme'.marker.take 5 := by
    rw [← htake scheme rest, h, htake]
  have hdiffer : ∀ s s' : Scheme, s.marker.take 5 = s'.marker.take 5 → s = s' := by
    intro s s'
    cases s <;> cases s' <;> decide
  obtain rfl := hdiffer scheme scheme' hfront
  exact ⟨rfl, List.append_cancel_left h⟩

theorem Scheme.split?_eq_some_iff {text rest : List Char} {scheme : Scheme} :
    Scheme.split? text = some (scheme, rest) ↔ text = scheme.marker ++ rest := by
  have hsplit : ∀ scheme' rest', text = Scheme.marker scheme' ++ rest' →
      (some (scheme', rest') = some (scheme, rest) ↔ text = scheme.marker ++ rest) := by
    rintro scheme' rest' rfl
    rw [Option.some.injEq, Prod.mk.injEq]
    constructor
    · rintro ⟨rfl, rfl⟩
      rfl
    · exact Scheme.marker_append_inj
  unfold Scheme.split?
  split
  next rest' hhttp =>
    exact hsplit .http rest' (List.isPrefixOf?_eq_some_iff_append_eq.1 hhttp).symm
  next hhttp =>
    cases hhttps : https.marker.isPrefixOf? text with
    | some rest' =>
        exact hsplit .https rest' (List.isPrefixOf?_eq_some_iff_append_eq.1 hhttps).symm
    | none =>
        -- the text begins with neither marker
        refine iff_of_false nofun ?_
        intro htext
        have hstart := List.isPrefixOf?_eq_some_iff_append_eq.2 htext.symm
        cases scheme with
        | http => simp [hstart] at hhttp
        | https => simp [hstart] at hhttps

/-! ## Parsing -/

/-- The path that is requested: the one of the target, or the root if it has none. -/
def requestPath (path : String) : String := if path = "" then "/" else path

theorem requestPath_ofList (cs : List Char) :
    requestPath (String.ofList cs) = if cs = [] then "/" else String.ofList cs := by
  by_cases h : cs = []
  · rw [if_pos h, h]
    rfl
  · rw [requestPath, if_neg (mt String.ofList_eq_empty_iff.1 h), if_neg h]

/-- Behind the marker of a target the first slash begins the path. -/
theorem Target.toList_eq {text authority path : String} {scheme : Scheme}
    (h : Target text scheme authority path) :
    text.toList = scheme.marker ++ (authority.toList ++ path.toList) ∧
    (authority.toList ++ path.toList).takeWhile (· != '/') = authority.toList ∧
    (authority.toList ++ path.toList).dropWhile (· != '/') = path.toList := by
  refine ⟨?_, Text.span_eq_iff.2 ⟨rfl, ?_, ?_⟩⟩
  · rw [h.text_eq]
    simp
  · intro c hc
    rw [bne_iff_ne]
    rintro rfl
    exact h.no_slash hc
  · intro c hc
    rcases h.path_slash with hnone | hslash
    · rw [hnone] at hc
      cases hc
    · rw [hslash] at hc
      simpa using (Option.some.inj hc).symm

theorem target_of_toList_eq {text : String} {scheme : Scheme} {rest : List Char}
    (htext : text.toList = scheme.marker ++ rest) (hne : rest.takeWhile (· != '/') ≠ []) :
    Target text scheme (String.ofList (rest.takeWhile (· != '/')))
      (String.ofList (rest.dropWhile (· != '/'))) := by
  obtain ⟨-, hfront, hback⟩ := Text.span_eq_iff.1 ⟨@rfl _ (rest.takeWhile (· != '/')), rfl⟩
  refine ⟨?_, ?_, ?_, ?_⟩
  · rw [← String.toList_inj, htext]
    simp
  · exact mt String.ofList_eq_empty_iff.1 hne
  · intro hmem
    rw [String.toList_ofList] at hmem
    simpa using hfront '/' hmem
  · cases hpath : rest.dropWhile (· != '/') with
    | nil => exact .inl rfl
    | cons c cs =>
        right
        rw [hpath] at hback
        have hc : c = '/' := by simpa using hback c rfl
        rw [String.toList_ofList, List.head?_cons, hc]

theorem Uri.parse_eq_ok_iff {text : String} {u : Uri} :
    Uri.parse text = .ok u ↔
      ∃ path, Target text u.scheme u.authority path ∧ u.path = requestPath path := by
  constructor
  · intro h
    unfold Uri.parse at h
    split at h
    next => cases h
    next scheme rest hsplit =>
      simp only at h
      split at h
      · cases h
      · next hne =>
        cases h
        exact ⟨_, target_of_toList_eq (Scheme.split?_eq_some_iff.1 hsplit) hne,
          (requestPath_ofList _).symm⟩
  · rintro ⟨path, htarget, hpath⟩
    obtain ⟨scheme, authority, path'⟩ := u
    obtain ⟨htext, hauthority, hrest⟩ := htarget.toList_eq
    have hsplit := Scheme.split?_eq_some_iff.2 htext
    have hne : authority.toList ≠ [] := by simpa using htarget.authority_ne
    have hrequest := requestPath_ofList path.toList
    rw [String.ofList_toList] at hrequest
    simp only at hpath
    unfold Uri.parse
    simp only [hsplit, hauthority, hrest, if_neg hne, String.ofList_toList, hpath, ← hrequest]

theorem Uri.parse_error {text : String} {e : Error} (h : Uri.parse text = .error e) :
    e = .invalidUri := by
  unfold Uri.parse at h
  split at h
  next => exact (Except.error.inj h).symm
  next =>
    simp only at h
    split at h
    · exact (Except.error.inj h).symm
    · cases h

/-- A text is a target in one way at most. -/
theorem Target.unique {text authority authority' path path' : String} {scheme scheme' : Scheme}
    (h : Target text scheme authority path) (h' : Target text scheme' authority' path') :
    scheme' = scheme ∧ authority' = authority ∧ path' = path := by
  obtain ⟨htext, hauthority, hpath⟩ := h.toList_eq
  obtain ⟨htext', hauthority', hpath'⟩ := h'.toList_eq
  obtain ⟨hscheme, hrest⟩ := Scheme.marker_append_inj (htext'.symm.trans htext)
  refine ⟨hscheme, ?_, ?_⟩
  · rw [← String.toList_inj, ← hauthority', hrest, hauthority]
  · rw [← String.toList_inj, ← hpath', hrest, hpath]

/-- A text that is no target is not parsed. -/
theorem Uri.parse_of_no_target {text : String}
    (h : ∀ scheme authority path, ¬ Target text scheme authority path) :
    Uri.parse text = .error .invalidUri := by
  cases hparse : Uri.parse text with
  | error e => rw [Uri.parse_error hparse]
  | ok u =>
      obtain ⟨path, htarget, -⟩ := Uri.parse_eq_ok_iff.1 hparse
      exact absurd htarget (h _ _ _)

theorem Uri.parse_of_target {text authority path : String} {scheme : Scheme}
    (h : Target text scheme authority path) :
    Uri.parse text = .ok ⟨scheme, authority, requestPath path⟩ :=
  Uri.parse_eq_ok_iff.2 ⟨path, h, rfl⟩

/-! ## Construction -/

/-- The root takes the place of a path that is missing, and it is never too long. -/
theorem utf8ByteSize_requestPath_le_iff {path : String} :
    (requestPath path).utf8ByteSize ≤ 1024 ↔ path.utf8ByteSize ≤ 1024 := by
  by_cases h : path = ""
  · rw [h]
    decide
  · rw [requestPath, if_neg h]

namespace Client

variable {σ : Type} [Transport σ]

/-- A target is refused only if it is too long. -/
theorem new_of_target {text authority path : String} {scheme : Scheme}
    (h : Target text scheme authority path) (c : σ) (storage : Bytes) :
    new text c storage =
      if authority.utf8ByteSize ≤ 256 ∧ path.utf8ByteSize ≤ 1024 then
        .ok (ofTarget authority (requestPath path) scheme.isSecure c (.ofStorage storage))
      else .error ⟨.memory, some (Transport.close c).2⟩ := by
  have hfits : authority.utf8ByteSize ≤ Uri.maxHostLength ∧
      (requestPath path).utf8ByteSize ≤ Uri.maxPathLength ↔
      authority.utf8ByteSize ≤ 256 ∧ path.utf8ByteSize ≤ 1024 :=
    and_congr_right fun _ => utf8ByteSize_requestPath_le_iff
  by_cases hsize : authority.utf8ByteSize ≤ 256 ∧ path.utf8ByteSize ≤ 1024
  · simp only [new, Uri.parse_of_target h, Uri.target, if_pos (hfits.2 hsize), if_pos hsize]
  · simp only [new, Uri.parse_of_target h, Uri.target, if_neg (mt hfits.1 hsize), if_neg hsize]

theorem new_of_no_target {text : String}
    (h : ∀ scheme authority path, ¬ Target text scheme authority path) (c : σ) (storage : Bytes) :
    new text c storage = .error ⟨.invalidUri, some (Transport.close c).2⟩ := by
  rw [new, Uri.parse_of_no_target h]

/-- **The grammar of targets, and construction that is all or nothing.** For every text and over
every connection, a client is built if and only if the text is a target whose authority takes at
most 256 bytes in UTF-8 and whose path at most 1024. The client shows what it was built from: the
marker, the host and the path are the text, with a slash behind it if it had no path; it is secure,
and starts as secured, if and only if the scheme is `https`; its connection has seen no call. If no
client is built, then the reason is `memory` if the text is a target that is too long, and
`invalidUri` if it is no target; the one call that the connection has seen is a close. -/
theorem new_grammar (text : String) (c : σ) (storage : Bytes) :
    let answer := new text (⟨c, []⟩ : Logged σ) storage
    ((∃ k, answer = .ok k) ↔ ∃ scheme authority path, Target text scheme authority path ∧
      authority.utf8ByteSize ≤ 256 ∧ path.utf8ByteSize ≤ 1024) ∧
    (∀ k, answer = .ok k → ∃ scheme path, Target text scheme k.host path ∧
      String.ofList scheme.marker ++ k.host ++ k.path =
        (if path = "" then text ++ "/" else text) ∧
      (k.secure = true ↔ scheme = .https) ∧
      k.state = (if scheme = .https then .secured else .connected) ∧
      k.connection = ⟨c, []⟩ ∧ k.header = .ofStorage storage) ∧
    ∀ r, answer = .error r →
      (r.error = .memory ↔ ∃ scheme authority path, Target text scheme authority path ∧
        (256 < authority.utf8ByteSize ∨ 1024 < path.utf8ByteSize)) ∧
      (r.error = .invalidUri ↔ ∀ scheme authority path, ¬ Target text scheme authority path) ∧
      r.released = some ⟨(Transport.close c).2, [.close (Transport.close c).1]⟩ := by
  intro answer
  by_cases h : ∃ scheme authority path, Target text scheme authority path
  · -- a target: the two lengths decide, and by `unique` no other reading of it can be shorter
    obtain ⟨scheme, authority, path, htarget⟩ := h
    have hanswer : answer = _ := new_of_target htarget _ storage
    by_cases hfits : authority.utf8ByteSize ≤ 256 ∧ path.utf8ByteSize ≤ 1024
    · rw [if_pos hfits] at hanswer
      rw [hanswer]
      refine ⟨iff_of_true ⟨_, rfl⟩ ⟨scheme, authority, path, htarget, hfits⟩, ?_, nofun⟩
      intro k hk
      cases hk
      refine ⟨scheme, path, htarget, ?_, ?_, ?_, rfl, rfl⟩
      · show String.ofList scheme.marker ++ authority ++ requestPath path = _
        by_cases hpath : path = ""
        · rw [if_pos hpath, requestPath, if_pos hpath, htarget.text_eq, hpath, String.append_empty]
        · rw [if_neg hpath, requestPath, if_neg hpath, htarget.text_eq]
      · show scheme.isSecure = true ↔ scheme = .https
        cases scheme <;> decide
      · cases scheme <;> rfl
    · rw [if_neg hfits] at hanswer
      rw [hanswer]
      refine ⟨iff_of_false nofun ?_, nofun, ?_⟩
      · rintro ⟨scheme', authority', path', htarget', hfits'⟩
        obtain ⟨-, rfl, rfl⟩ := htarget.unique htarget'
        exact hfits hfits'
      · intro r hr
        cases hr
        have hlong : 256 < authority.utf8ByteSize ∨ 1024 < path.utf8ByteSize := by omega
        exact ⟨iff_of_true rfl ⟨scheme, authority, path, htarget, hlong⟩,
          iff_of_false nofun fun hnone => hnone scheme authority path htarget, rfl⟩
  · -- no target: parsing fails, and its only error is `invalidUri`
    have hnone : ∀ scheme authority path, ¬ Target text scheme authority path :=
      fun scheme authority path htarget => h ⟨scheme, authority, path, htarget⟩
    have hanswer : answer = _ := new_of_no_target hnone _ storage
    rw [hanswer]
    refine ⟨iff_of_false nofun ?_, nofun, ?_⟩
    · rintro ⟨scheme, authority, path, htarget, -⟩
      exact hnone scheme authority path htarget
    · intro r hr
      cases hr
      refine ⟨iff_of_false nofun ?_, iff_of_true rfl hnone, rfl⟩
      rintro ⟨scheme, authority, path, htarget, -⟩
      exact hnone scheme authority path htarget

/-- A target whose authority has `n` characters of two bytes each, and no path. -/
def wideTarget (n : Nat) : String := "https://" ++ String.ofList (List.replicate n 'ö')

theorem target_wideTarget {n : Nat} (hn : 0 < n) :
    Target (wideTarget n) .https (String.ofList (List.replicate n 'ö')) "" := by
  refine ⟨?_, ?_, ?_, .inl rfl⟩
  · rw [String.append_empty]
    rfl
  · apply mt String.ofList_eq_empty_iff.1
    exact List.ne_nil_of_length_pos (by rwa [List.length_replicate])
  · rw [String.toList_ofList, List.mem_replicate]
    rintro ⟨-, hslash⟩
    exact absurd hslash (by decide)

/-- An authority of 256 bytes is held and one of 258 is not; a text without an authority is no
target. The connection cannot even be closed properly. -/
theorem new_grammar_bounds :
    let c : Logged Script := ⟨{ steps := [], behaviour := { closeFails := true } }, []⟩
    (∃ k, new (wideTarget 128) c [] = .ok k ∧ k.state = .secured ∧ k.connection = c ∧
      "https://" ++ k.host ++ k.path = wideTarget 128 ++ "/") ∧
    (∃ r, new (wideTarget 129) c [] = .error r ∧ r.error = .memory ∧
      r.released = some ⟨(Transport.close c.inner).2, [.close (Transport.close c.inner).1]⟩) ∧
    ∃ r, new "http:///path" c [] = .error r ∧ r.error = .invalidUri ∧
      (∀ scheme authority path, ¬ Target "http:///path" scheme authority path) ∧
      r.released = some ⟨(Transport.close c.inner).2, [.close (Transport.close c.inner).1]⟩ := by
  intro c
  refine ⟨?_, ?_, ?_⟩
  · have htarget := target_wideTarget (show 0 < 128 by decide)
    obtain ⟨hok, hclient, -⟩ := new_grammar (wideTarget 128) c.inner []
    obtain ⟨k, hk⟩ := hok.2 ⟨_, _, _, htarget, by decide +kernel, by decide⟩
    obtain ⟨scheme, path, hscheme, htext, -, hstate, hconnection, -⟩ := hclient k hk
    obtain ⟨rfl, -, rfl⟩ := htarget.unique hscheme
    exact ⟨k, hk, hstate, hconnection, htext⟩
  · have htarget := target_wideTarget (show 0 < 129 by decide)
    -- every character counts twice, as the bound is one on bytes
    have hwide : 256 < (String.ofList (List.replicate 129 'ö')).utf8ByteSize := by decide +kernel
    have hnew := new_of_target htarget c []
    rw [if_neg fun hfits => absurd hfits.1 (Nat.not_le.2 hwide)] at hnew
    obtain ⟨-, -, hrefusal⟩ := new_grammar (wideTarget 129) c.inner []
    obtain ⟨hmemory, -, hreleased⟩ := hrefusal _ hnew
    exact ⟨_, hnew, hmemory.2 ⟨_, _, _, htarget, .inl hwide⟩, hreleased⟩
  · have hnew : new "http:///path" c [] = .error ⟨.invalidUri, some (Transport.close c).2⟩ := rfl
    obtain ⟨-, -, hrefusal⟩ := new_grammar "http:///path" c.inner []
    obtain ⟨-, hinvalid, hreleased⟩ := hrefusal _ hnew
    exact ⟨_, hnew, rfl, hinvalid.1 rfl, hreleased⟩

end Client

end HttpExchange
