/-!
# Byte strings

The contents of files, as arrays of octets, with the two operations sessions need: the part of a
content that a bounded read sees (`slice`), and the buffer that a write at an offset leaves
(`overlay`).
-/

namespace LiveTree

/-- A content: octets in order. -/
abbrev Bytes := Array UInt8

namespace Bytes

/-- The part of `content` that a read of at most `size` octets at `offset` sees. Past the end it is
empty, whatever the offset. -/
def slice (content : Bytes) (offset size : Nat) : Bytes := content.extract offset (offset + size)

/-- `data` put over `buffer` at `offset`; a gap before it is filled with zeros, and what lies behind
it stays. -/
def overlay (buffer : Bytes) (offset : Nat) (data : Bytes) : Bytes :=
  buffer.take offset ++ Array.replicate (offset - buffer.size) 0 ++ data ++
    buffer.drop (offset + data.size)

/-- The octets of a text, in UTF-8. -/
def octetsOf (s : String) : List UInt8 := s.toList.flatMap String.utf8EncodeChar

/-- The content that is a text. -/
def ofString (s : String) : Bytes := (octetsOf s).toArray

/-! ### Lengths -/

theorem size_slice (content : Bytes) (offset size : Nat) :
    (content.slice offset size).size = min size (content.size - offset) := by
  simp only [slice, Array.size_extract]
  omega

theorem slice_eq_empty_of_size_le {content : Bytes} {offset : Nat} (h : content.size ≤ offset)
    (size : Nat) : content.slice offset size = #[] :=
  Array.eq_empty_of_size_eq_zero (by rw [size_slice]; omega)

theorem size_overlay (buffer : Bytes) (offset : Nat) (data : Bytes) :
    (buffer.overlay offset data).size = max buffer.size (offset + data.size) := by
  simp only [overlay, Array.size_append, Array.take_eq_extract, Array.size_extract,
    Array.size_replicate, Array.drop_eq_extract]
  omega

theorem ofString_append (s t : String) : ofString (s ++ t) = ofString s ++ ofString t := by
  simp [ofString, octetsOf]

end Bytes

end LiveTree
