import LiveTree.Bytes

/-!
# The octets of a text

A text is told by its octets (`Bytes.octetsOf_injective`), and so is how it begins: octets that
begin with those of a text are those of a text that begins with it (`Bytes.octetsOf_prefix_iff`). An
octet below 128 stands for the character with its number and occurs in no other character
(`Bytes.mem_toList_of_mem_octetsOf`), so slashes and line feeds can be looked for among octets.
-/

namespace LiveTree.Bytes

theorem toByteArray_octetsOf (s : String) : (octetsOf s).toByteArray = s.toByteArray := by
  rw [← String.utf8Encode_toList]
  rfl

/-- Texts with the same octets are the same. -/
theorem octetsOf_injective {s t : String} (h : octetsOf s = octetsOf t) : s = t := by
  apply String.toByteArray_inj.mp
  rw [← toByteArray_octetsOf s, h, toByteArray_octetsOf t]

theorem length_octetsOf (s : String) : (octetsOf s).length = s.utf8ByteSize := by
  rw [← String.size_toByteArray, ← toByteArray_octetsOf, List.size_toByteArray]

@[simp] theorem octetsOf_append (s t : String) : octetsOf (s ++ t) = octetsOf s ++ octetsOf t := by
  simp [octetsOf]

/-- The octets of one text begin with those of another one only if the texts do. -/
theorem octetsOf_prefix_iff {s t : String} :
    octetsOf s <+: octetsOf t ↔ ∃ rest, t = s ++ rest := by
  constructor
  · rintro ⟨tail, htail⟩
    have hsize : s.utf8ByteSize ≤ t.utf8ByteSize := by
      rw [← length_octetsOf, ← length_octetsOf, ← htail, List.length_append]
      omega
    have hextract : t.toByteArray.extract 0 s.utf8ByteSize = s.toByteArray := by
      rw [← toByteArray_octetsOf t, ← htail, List.toByteArray_append, toByteArray_octetsOf]
      exact ByteArray.extract_append_eq_left rfl
    -- the octets up to there are those of a text, so `t` has a character boundary there
    have hvalid : (⟨s.utf8ByteSize⟩ : String.Pos.Raw).IsValid t := by
      rw [String.Pos.Raw.isValid_iff_isValidUTF8_extract_zero, hextract]
      exact ⟨hsize, s.isValidUTF8⟩
    obtain ⟨front, back, rfl, hfront⟩ := String.Pos.Raw.isValid_iff_exists_append.mp hvalid
    have hlength : (octetsOf s).length = (octetsOf front).length := by
      rw [length_octetsOf, length_octetsOf]
      exact congrArg String.Pos.Raw.byteIdx hfront
    rw [octetsOf_append] at htail
    exact ⟨back, by rw [octetsOf_injective (List.append_inj htail hlength).1]⟩
  · rintro ⟨rest, rfl⟩
    rw [octetsOf_append]
    exact List.prefix_append _ _

/-- An octet below 128 stands for the character with its number only. -/
theorem toNat_of_mem_utf8EncodeChar {c : Char} {b : UInt8} (hb : b.toNat < 128)
    (h : b ∈ String.utf8EncodeChar c) : c.toNat = b.toNat := by
  unfold String.utf8EncodeChar at h
  change b ∈ if c.toNat ≤ 0x7F then _ else if c.toNat ≤ 0x7FF then _ else
    if c.toNat ≤ 0xFFFF then _ else _ at h
  split at h
  · rw [List.mem_singleton] at h
    subst h
    rw [UInt8.toNat_ofNat']
    exact (Nat.mod_eq_of_lt (by omega)).symm
  · -- every octet of a longer encoding has its highest bit set
    have hlarge : 128 ≤ b.toNat := by
      split at h
      · simp only [List.mem_cons, List.not_mem_nil, or_false] at h
        rcases h with rfl | rfl <;> rw [UInt8.toNat_ofNat'] <;> omega
      · split at h
        · simp only [List.mem_cons, List.not_mem_nil, or_false] at h
          rcases h with rfl | rfl | rfl <;> rw [UInt8.toNat_ofNat'] <;> omega
        · simp only [List.mem_cons, List.not_mem_nil, or_false] at h
          rcases h with rfl | rfl | rfl | rfl <;> rw [UInt8.toNat_ofNat'] <;> omega
    omega

/-- Where a text has an octet below 128, it has the character with that number. -/
theorem mem_toList_of_mem_octetsOf {s : String} {b : UInt8} (hb : b.toNat < 128)
    (h : b ∈ octetsOf s) : Char.ofNat b.toNat ∈ s.toList := by
  obtain ⟨c, hmem, hc⟩ := List.mem_flatMap.mp h
  rw [← toNat_of_mem_utf8EncodeChar hb hc, Char.ofNat_toNat]
  exact hmem

end LiveTree.Bytes
