import HttpExchange.Bytes

set_option autoImplicit false

/-! # Text on the wire

Text goes over the wire in UTF-8. The main statement `decode?_eq_some_iff` says that bytes
decode to a text exactly if they are its encoding, so every text has one form on the wire. The
ASCII characters of a text are its ASCII bytes (`mem_toList_of_mem_encode`), and the case of their
letters is a matter of these bytes alone (`sameLetters_encode_iff`). -/

namespace HttpExchange.Text

def encode (s : String) : Bytes := s.toByteArray.data.toList

def decode? (bs : Bytes) : Option String := String.fromUTF8? ⟨bs.toArray⟩

@[simp] theorem decode?_encode (s : String) : decode? (encode s) = some s := by
  have h : (⟨(encode s).toArray⟩ : ByteArray) = s.toByteArray := by simp [encode]
  rw [decode?, h, String.fromUTF8?, dif_pos s.isValidUTF8]
  rfl

theorem encode_of_decode? {bs : Bytes} {s : String} (h : decode? bs = some s) :
    encode s = bs := by
  unfold decode? String.fromUTF8? at h
  split at h
  next hv =>
    cases h
    simp [encode, String.fromUTF8]
  next => cases h

theorem decode?_eq_some_iff {bs : Bytes} {s : String} : decode? bs = some s ↔ bs = encode s :=
  ⟨fun h => (encode_of_decode? h).symm, fun h => h ▸ decode?_encode s⟩

theorem encode_inj {s t : String} : encode s = encode t ↔ s = t := by
  constructor
  · intro h
    have hs := decode?_encode s
    rw [h, decode?_encode] at hs
    exact (Option.some.inj hs).symm
  · exact congrArg encode

@[simp] theorem encode_append (s t : String) : encode (s ++ t) = encode s ++ encode t := by
  simp [encode]

@[simp] theorem length_encode (s : String) : (encode s).length = s.utf8ByteSize := by
  simp [encode]

/-! ## ASCII characters -/

theorem encode_eq_flatMap (s : String) : encode s = s.toList.flatMap String.utf8EncodeChar := by
  have h : (String.ofList s.toList).toByteArray = s.toList.utf8Encode := String.toByteArray_ofList
  rw [String.ofList_toList] at h
  rw [encode, h, List.utf8Encode]
  simp

/-- An ASCII character takes one byte. -/
theorem utf8EncodeChar_of_ascii {c : Char} (h : c.toNat < 128) :
    String.utf8EncodeChar c = [UInt8.ofNat c.toNat] :=
  if_pos (Nat.le_of_lt_succ h)

/-- Every byte of another character lies outside ASCII. -/
theorem le_of_mem_utf8EncodeChar {c : Char} (h : ¬ c.toNat < 128) {b : UInt8}
    (hb : b ∈ String.utf8EncodeChar c) : 128 ≤ b.toNat := by
  have hv : ¬ c.val.toNat ≤ 127 := fun hle => h (Nat.lt_succ_of_le hle)
  simp only [String.utf8EncodeChar, if_neg hv] at hb
  -- characters of two, three and four bytes
  split at hb
  next =>
    simp only [List.mem_cons, List.not_mem_nil, or_false] at hb
    rcases hb with rfl | rfl <;> simp only [UInt8.toNat_ofNat'] <;> omega
  next =>
    split at hb
    next =>
      simp only [List.mem_cons, List.not_mem_nil, or_false] at hb
      rcases hb with rfl | rfl | rfl <;> simp only [UInt8.toNat_ofNat'] <;> omega
    next =>
      simp only [List.mem_cons, List.not_mem_nil, or_false] at hb
      rcases hb with rfl | rfl | rfl | rfl <;> simp only [UInt8.toNat_ofNat'] <;> omega

/-- An ASCII byte of a text stands for the character itself. -/
theorem mem_toList_of_mem_encode {s : String} {c : Char} (hc : c.toNat < 128)
    (h : UInt8.ofNat c.toNat ∈ encode s) : c ∈ s.toList := by
  rw [encode_eq_flatMap] at h
  obtain ⟨d, hd, hmem⟩ := List.mem_flatMap.1 h
  by_cases hascii : d.toNat < 128
  · rw [utf8EncodeChar_of_ascii hascii, List.mem_singleton] at hmem
    have hnat := congrArg UInt8.toNat hmem
    simp only [UInt8.toNat_ofNat'] at hnat
    have heq : c = d := by
      apply Char.toNat_inj.1
      omega
    rwa [heq]
  · have hhigh := le_of_mem_utf8EncodeChar hascii hmem
    simp only [UInt8.toNat_ofNat'] at hhigh
    omega

/-- Behind an ASCII byte at the front of a text stands a text. -/
theorem exists_encode_of_cons {s : String} {b : UInt8} {rest : Bytes} (hb : b.toNat < 128)
    (h : encode s = b :: rest) : ∃ t, rest = encode t := by
  rw [encode_eq_flatMap] at h
  cases hs : s.toList with
  | nil =>
      rw [hs] at h
      cases h
  | cons c cs =>
      rw [hs, List.flatMap_cons] at h
      by_cases hc : c.toNat < 128
      · rw [utf8EncodeChar_of_ascii hc] at h
        refine ⟨String.ofList cs, ?_⟩
        rw [encode_eq_flatMap, String.toList_ofList]
        exact (List.cons.inj h).2.symm
      · -- the first byte of any other character is no ASCII byte
        obtain ⟨d, ds, hds⟩ := List.exists_cons_of_ne_nil (String.utf8EncodeChar_ne_nil (c := c))
        rw [hds] at h
        have hhigh := le_of_mem_utf8EncodeChar hc (hds ▸ List.mem_cons_self)
        rw [(List.cons.inj h).1] at hhigh
        omega

/-- A character becomes a small letter as its bytes do. -/
theorem map_lower_utf8EncodeChar (c : Char) :
    (String.utf8EncodeChar c).map Ascii.lower = String.utf8EncodeChar c.toLower := by
  by_cases h : c.toNat < 128
  · have hall : ∀ n, n < 128 → (String.utf8EncodeChar (Char.ofNat n)).map Ascii.lower =
        String.utf8EncodeChar (Char.ofNat n).toLower := by decide +kernel
    have hc := hall c.toNat h
    rwa [Char.ofNat_toNat] at hc
  · have hchar : c.toLower = c := by
      apply dif_neg
      rintro ⟨-, hle⟩
      exact h (Nat.lt_of_le_of_lt (UInt32.le_iff_toNat_le.1 hle) (by decide))
    have hbyte : ∀ b ∈ String.utf8EncodeChar c, Ascii.lower b = b := by
      intro b hb
      have hhigh := le_of_mem_utf8EncodeChar h hb
      apply if_neg
      rintro ⟨-, hle⟩
      have hlow : b.toNat ≤ 90 := UInt8.le_iff_toNat_le.1 hle
      omega
    rw [hchar, List.map_congr_left hbyte, List.map_id']

theorem map_lower_encode (s : String) :
    (encode s).map Ascii.lower = encode (s.map Char.toLower) := by
  simp only [encode_eq_flatMap, String.toList_map, List.map_flatMap, List.flatMap_map,
    map_lower_utf8EncodeChar]

/-- Texts agree up to the case of ASCII letters if their bytes do. -/
theorem sameLetters_encode_iff {s t : String} :
    Ascii.sameLetters (encode s) (encode t) = true ↔
      s.toList.map Char.toLower = t.toList.map Char.toLower := by
  rw [Ascii.sameLetters_iff, map_lower_encode, map_lower_encode, encode_inj, ← String.toList_inj,
    String.toList_map, String.toList_map]

end HttpExchange.Text
