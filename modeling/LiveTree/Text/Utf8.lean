import LiveTree.Bytes

/-!
# Reading octets as text

Strict reading of UTF-8, which reports where the first malformed part stands and how long it is, and
a lenient reading, which puts U+FFFD in the place of every malformed part. A malformed part is the
longest run of octets that begins some character and cannot be continued, or a single octet that
begins none.
-/

namespace LiveTree.Text.Utf8

/-- A range of octets, ends included. -/
structure Range where
  first : UInt8
  last : UInt8

/-- Whether `b` lies in the range. -/
def Range.has (r : Range) (b : UInt8) : Bool := r.first ≤ b && b ≤ r.last

/-- Octets that continue a character. -/
def continuation : Range := ⟨0x80, 0xBF⟩

/-- The bits that the first octet of a character of several octets contributes, and the ranges of
the octets that have to follow. Shortest forms only, no surrogates, nothing above U+10FFFF. -/
def lead? (b : UInt8) : Option (Nat × List Range) :=
  if b < 0xC2 then none
  else if b < 0xE0 then some (b.toNat - 0xC0, [continuation])
  else if b == 0xE0 then some (0, [⟨0xA0, 0xBF⟩, continuation])
  else if b == 0xED then some (0xD, [⟨0x80, 0x9F⟩, continuation])
  else if b < 0xF0 then some (b.toNat - 0xE0, [continuation, continuation])
  else if b == 0xF0 then some (0, [⟨0x90, 0xBF⟩, continuation, continuation])
  else if b < 0xF4 then some (b.toNat - 0xF0, [continuation, continuation, continuation])
  else if b == 0xF4 then some (4, [⟨0x80, 0x8F⟩, continuation, continuation])
  else none

/-- What stands at the front of a non-empty sequence of octets. The number counts the octets taken
beyond the first. -/
inductive Front where
  | char (c : Char) (more : Nat)
  | malformed (more : Nat)
  /-- The sequence ends inside a character. -/
  | unfinished

/-- Reads the octets that continue a character; `code` holds its bits so far, `taken` counts the
octets read. -/
def follow (code taken : Nat) : List Range → List UInt8 → Front
  | [], _ => .char (Char.ofNat code) taken
  | _ :: _, [] => .unfinished
  | range :: ranges, b :: rest =>
    if range.has b then follow (code * 64 + (b.toNat - 0x80)) (taken + 1) ranges rest
    else .malformed taken

/-- What stands at the front of `b :: rest`. -/
def front (b : UInt8) (rest : List UInt8) : Front :=
  if b < 0x80 then .char (Char.ofNat b.toNat) 0
  else match lead? b with
    | none => .malformed 0
    | some (bits, ranges) => follow bits 0 ranges rest

/-- Where and how a sequence of octets fails to be text. -/
inductive Malformed where
  /-- `count` octets at `index` belong to no character. -/
  | invalid (count index : Nat)
  /-- The sequence ends inside the character that begins at `index`. -/
  | incomplete (index : Nat)
deriving DecidableEq, Repr

/-- The defect in words. -/
def Malformed.message : Malformed → String
  | .invalid count index =>
    "invalid utf-8 sequence of " ++ toString count ++ " bytes from index " ++ toString index
  | .incomplete index => "incomplete utf-8 byte sequence from index " ++ toString index

/-- The text of `octets`, which stand at `index` behind the characters `done` (last one first). -/
def decodeFrom (index : Nat) (done : List Char) (octets : List UInt8) :
    Except Malformed String :=
  match octets with
  | [] => .ok (String.ofList done.reverse)
  | b :: rest =>
    match front b rest with
    | .char c more => decodeFrom (index + more + 1) (c :: done) (rest.drop more)
    | .malformed more => .error (.invalid (more + 1) index)
    | .unfinished => .error (.incomplete index)
termination_by octets.length
decreasing_by simp only [List.length_drop, List.length_cons]; omega

/-- The text whose octets these are, or the first defect. -/
def decode (octets : Bytes) : Except Malformed String := decodeFrom 0 [] octets.toList

/-- The character that stands for a malformed part. -/
def replacement : Char := '\uFFFD'

/-- The lenient reading of `octets` behind the characters `done` (last one first). -/
def decodeLossyFrom (done : List Char) (octets : List UInt8) : String :=
  match octets with
  | [] => String.ofList done.reverse
  | b :: rest =>
    match front b rest with
    | .char c more => decodeLossyFrom (c :: done) (rest.drop more)
    | .malformed more => decodeLossyFrom (replacement :: done) (rest.drop more)
    | .unfinished => String.ofList (replacement :: done).reverse
termination_by octets.length
decreasing_by all_goals simp only [List.length_drop, List.length_cons]; omega

/-- The text of `octets`, with U+FFFD for every malformed part. -/
def decodeLossy (octets : Bytes) : String := decodeLossyFrom [] octets.toList

end LiveTree.Text.Utf8
