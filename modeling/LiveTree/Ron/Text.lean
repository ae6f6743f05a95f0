import LiveTree.Ron.Number
import LiveTree.Text.Utf8

/-!
# Strings of RON

Strings with escapes, raw strings, characters, byte strings and single bytes.
-/

namespace LiveTree.Ron

/-- The character of a short escape. -/
def shortEscape? (c : Char) : Option Char :=
  match c with
  | '\'' | '"' | '\\' => some c
  | 'n' => some '\n'
  | 'r' => some '\r'
  | 't' => some '\t'
  | '0' => some '\x00'
  | _ => none

/-- Two hexadecimal digits. -/
def readOctet : Read Nat
  | a :: b :: rest => do return (16 * (← hexDigit? a) + (← hexDigit? b), rest)
  | _ => none

/-- One to six hexadecimal digits between braces, behind the value `value` of `taken` digits. -/
def readCodePoint (value taken : Nat) : Read Nat
  | [] => none
  | c :: rest =>
    if c == '\x7d' then if taken = 0 then none else some (value, rest)
    else if taken < 6 then do readCodePoint (16 * value + (← hexDigit? c)) (taken + 1) rest
    else none

/-- Whether `n` is the number of a character. -/
def isScalar (n : Nat) : Bool := n < 0xD800 || (0xDFFF < n && n < 0x110000)

/-- A character written as the octets of its UTF-8 form, each in an escape of its own. `octets`
holds those read so far, and `more` may follow. -/
def readOctets (octets : Bytes) : Nat → Read Char
  | 0, _ => none
  | more + 1, cs => do
    let (octet, rest) ← readOctet (← expect "\\x" cs)
    let octets := octets.push (UInt8.ofNat octet)
    match Text.Utf8.decode octets with
    | .ok text => (text.toList.head?).map (·, rest)
    | .error _ => readOctets octets more rest

/-- What the readers of escapes differ in. -/
inductive Quoting where
  /-- In a string, where octets may be put together to characters. -/
  | text
  /-- In a character literal. -/
  | char
  /-- In a byte string. -/
  | octets
  /-- In a byte, which is never written as a character's number. -/
  | octet
deriving DecidableEq

/-- An escape, behind its backslash. -/
def readEscape (quoting : Quoting) : Read Char
  | 'x' :: rest => do
    let (octet, behind) ← readOctet rest
    match quoting with
    | .octets | .octet => some (Char.ofNat octet, behind)
    | .char => if octet < 0x80 then some (Char.ofNat octet, behind) else none
    | .text =>
      if octet < 0x80 then some (Char.ofNat octet, behind)
      else readOctets #[UInt8.ofNat octet] 3 behind
  | 'u' :: '\x7b' :: rest => do
    let (n, behind) ← readCodePoint 0 0 rest
    if isScalar n && quoting ≠ .octet then some (Char.ofNat n, behind) else none
  | c :: rest => (shortEscape? c).map (·, rest)
  | [] => none

/-- The characters up to the closing quote, behind `done` (last one first). There are no more of
them than `bound` has. -/
def readQuotedIn (quoting : Quoting) (done : List Char) : (bound : List Char) → Read String
  | _ :: bound, c :: rest =>
    if c == '"' then some (String.ofList done.reverse, rest)
    else if c == '\\' then do
      let (c, rest) ← readEscape quoting rest
      readQuotedIn quoting (c :: done) bound rest
    else readQuotedIn quoting (c :: done) bound rest
  | _, _ => none

/-- The characters up to the closing quote. -/
def readQuoted (quoting : Quoting) : Read String := fun cs => readQuotedIn quoting [] cs cs

/-- The characters up to `mark`, behind `done` (last one first). -/
def readUpTo (mark : List Char) (done : List Char) : Read String
  | [] => none
  | c :: rest =>
    if mark.isPrefixOf (c :: rest) then
      some (String.ofList done.reverse, (c :: rest).drop mark.length)
    else readUpTo mark (c :: done) rest

/-- A raw string, behind its letters: any number of `#`, and a text between quotes that ends where a
quote and as many `#` follow. -/
def readRaw : Read String := fun cs =>
  let marks := cs.takeWhile (· == '#')
  match cs.dropWhile (· == '#') with
  | '"' :: rest => readUpTo ('"' :: marks) [] rest
  | _ => none

/-- A string. -/
def readString : Read String
  | '"' :: rest => readQuoted .text rest
  | 'r' :: rest => readRaw rest
  | _ => none

/-- Passes over a byte string. -/
def skipByteString : Skip := fun cs =>
  match expect "b\"" cs with
  | some rest => (readQuoted .octets rest).map (·.2)
  | none => do
    let rest ← expect "br" cs
    (readRaw rest).map (·.2)

/-- Passes over a character or a byte, behind its opening quote. -/
def skipCharacter (quoting : Quoting) : Skip
  | '\\' :: rest => do expect "'" (← readEscape quoting rest).2
  | c :: rest => if quoting = .octet && 0x80 ≤ c.toNat then none else expect "'" rest
  | [] => none

end LiveTree.Ron
