import LiveTree.Text.Numeral

/-!
# JSON values

The values a JSON text stands for, as far as typed data needs them: of numbers only the unsigned
integers of 64 bits are told apart, and a string that escapes half of a surrogate pair holds no
text.
-/

namespace LiveTree.Json

/-- A JSON value. -/
inductive Value where
  | null
  | bool (b : Bool)
  /-- A number; the value only if it is written in digits alone and fits into 64 bits. -/
  | number (word : Option Nat)
  /-- A string; no text if it holds half of a surrogate pair. -/
  | string (text : Option String)
  | array (items : List Value)
  | object (members : List (Option String × Value))

/-! ### Leaves -/

/-- Whether `c` may stand between tokens. -/
def isBlank (c : Char) : Bool := c == ' ' || c == '\n' || c == '\t' || c == '\r'

/-- The text behind the blanks at its front. -/
def skipBlank (cs : List Char) : List Char := cs.dropWhile isBlank

/-- The value of a hexadecimal digit. -/
def hexDigit? (c : Char) : Option Nat :=
  if c.isDigit then some (c.toNat - '0'.toNat)
  else if 'a' ≤ c && c ≤ 'f' then some (c.toNat - 'a'.toNat + 10)
  else if 'A' ≤ c && c ≤ 'F' then some (c.toNat - 'A'.toNat + 10)
  else none

/-- A piece of a string: a character as it is, or a number of 16 bits from an escape. -/
inductive Piece where
  | char (c : Char)
  | unit (n : Nat)

/-- The text of the pieces. Two escapes that form a surrogate pair are one character; half of a pair
is none. -/
def textOf : List Piece → Option (List Char)
  | [] => some []
  | .char c :: rest => (textOf rest).map (c :: ·)
  | .unit n :: rest =>
    if n < 0xD800 || 0xDFFF < n then (textOf rest).map (Char.ofNat n :: ·)
    else match rest with
      | .unit m :: rest =>
        if n < 0xDC00 && 0xDC00 ≤ m && m ≤ 0xDFFF then
          (textOf rest).map
            (Char.ofNat (0x10000 + (n - 0xD800) * 0x400 + (m - 0xDC00)) :: ·)
        else none
      | _ => none

/-- The character that a short escape stands for. -/
def shortEscape? (c : Char) : Option Char :=
  match c with
  | '"' | '\\' | '/' => some c
  | 'b' => some '\x08'
  | 'f' => some '\x0c'
  | 'n' => some '\n'
  | 'r' => some '\r'
  | 't' => some '\t'
  | _ => none

/-- The pieces up to the closing quote, behind `done` (last one first), and what follows it. -/
def readString (done : List Piece) : List Char → Option (Option String × List Char)
  | [] => none
  | '"' :: rest => some ((textOf done.reverse).map String.ofList, rest)
  | '\\' :: 'u' :: a :: b :: c :: d :: rest => do
    let n := ((← hexDigit? a) * 16 + (← hexDigit? b)) * 256 + (← hexDigit? c) * 16 + (← hexDigit? d)
    readString (.unit n :: done) rest
  | '\\' :: c :: rest => do readString (.char (← shortEscape? c) :: done) rest
  | c :: rest => if c.toNat < 0x20 then none else readString (.char c :: done) rest

/-- The digits at the front, at least one, and what follows them. -/
def readDigits (cs : List Char) : Option (List Char × List Char) :=
  match cs.takeWhile Char.isDigit with
  | [] => none
  | digits => some (digits, cs.dropWhile Char.isDigit)

/-- What follows a fraction, if there is one. -/
def skipFraction : List Char → Option (List Char)
  | '.' :: rest => (readDigits rest).map (·.2)
  | rest => some rest

/-- What follows an exponent, if there is one. -/
def skipExponent (cs : List Char) : Option (List Char) :=
  let digits (cs : List Char) := (readDigits cs).map (·.2)
  match cs with
  | c :: sign :: rest =>
    if c == 'e' || c == 'E' then
      if sign == '+' || sign == '-' then digits rest else digits (sign :: rest)
    else some cs
  | [c] => if c == 'e' || c == 'E' then none else some cs
  | [] => some []

/-- A number. No zeros stand before its other digits. -/
def readNumber (cs : List Char) : Option (Value × List Char) := do
  let (negative, cs) := match cs with
    | '-' :: rest => (true, rest)
    | _ => (false, cs)
  let (digits, afterDigits) ← readDigits cs
  if digits.head? == some '0' && digits.length != 1 then none
  else
    let rest ← skipExponent (← skipFraction afterDigits)
    let plain := !negative && !afterDigits.head?.any fun c => c == '.' || c == 'e' || c == 'E'
    return (.number (if plain then (Text.readNumeral digits).toOption else none), rest)

/-- What follows the word `w`. -/
def expect (w : String) (cs : List Char) : Option (List Char) :=
  if w.toList.isPrefixOf cs then some (cs.drop w.length) else none

/-! ### Nested values -/

/-- A reader of one value at the front of a text. -/
abbrev Read (α : Type) := List Char → Option (α × List Char)

/-- The items of an array up to its closing bracket, behind `done` (last one first). At least one is
to come, and no more than `bound` has characters. -/
def readItems (value : Read Value) (done : List Value) : (bound : List Char) → Read (List Value)
  | [], _ => none
  | _ :: bound, cs => do
    let (item, cs) ← value (skipBlank cs)
    match skipBlank cs with
    | ',' :: cs => readItems value (item :: done) bound cs
    | ']' :: cs => some ((item :: done).reverse, cs)
    | _ => none

/-- The members of an object up to its closing brace, behind `done` (last one first). At least one
is to come, and no more than `bound` has characters. -/
def readMembers (value : Read Value) (done : List (Option String × Value)) :
    (bound : List Char) → Read (List (Option String × Value))
  | [], _ => none
  | _ :: bound, cs =>
    match skipBlank cs with
    | '"' :: cs => do
      let (key, cs) ← readString [] cs
      match skipBlank cs with
      | ':' :: cs =>
        let (item, cs) ← value (skipBlank cs)
        match skipBlank cs with
        | ',' :: cs => readMembers value ((key, item) :: done) bound cs
        | '\x7d' :: cs => some (((key, item) :: done).reverse, cs)
        | _ => none
      | _ => none
    | _ => none

/-- A value at the front of a text; `depth` bounds how deep it is nested. -/
def readValue : Nat → Read Value
  | 0, _ => none
  | depth + 1, cs =>
    match cs with
    | '"' :: rest => (readString [] rest).map fun (text, rest) => (.string text, rest)
    | '[' :: rest =>
      match skipBlank rest with
      | ']' :: rest => some (.array [], rest)
      | rest => (readItems (readValue depth) [] rest rest).map fun (items, rest) =>
          (.array items, rest)
    | '\x7b' :: rest =>
      match skipBlank rest with
      | '\x7d' :: rest => some (.object [], rest)
      | rest => (readMembers (readValue depth) [] rest rest).map fun (members, rest) =>
          (.object members, rest)
    | 'n' :: _ => (expect "null" cs).map (.null, ·)
    | 't' :: _ => (expect "true" cs).map (.bool true, ·)
    | 'f' :: _ => (expect "false" cs).map (.bool false, ·)
    | _ => readNumber cs

/-- The value a whole text stands for. A text is nested less deep than it is long. -/
def parse (text : String) : Option Value := do
  let cs := text.toList
  let (value, rest) ← readValue (cs.length + 1) (skipBlank cs)
  if (skipBlank rest).isEmpty then some value else none

end LiveTree.Json
