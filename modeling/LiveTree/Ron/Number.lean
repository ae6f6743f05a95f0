import LiveTree.Ron.Token
import LiveTree.Text.Numeral

/-!
# Numbers of RON

Integers may have a sign, a base (`0b`, `0o`, `0x`), underscores behind the first digit and the name
of their type behind the last one. Other numbers are decimal, with a fraction or an exponent.
-/

namespace LiveTree.Ron

/-! ### Integers -/

/-- The types of integers, each with whether it has negative values and with its bits. -/
def integerTypes : List (String × Bool × Nat) :=
  [("i8", true, 8), ("i16", true, 16), ("i32", true, 32), ("i64", true, 64),
    ("u8", false, 8), ("u16", false, 16), ("u32", false, 32), ("u64", false, 64)]

/-- Whether the type has the number of that sign and magnitude. -/
def fits (signed : Bool) (bits : Nat) (negative : Bool) (magnitude : Nat) : Bool :=
  if negative then magnitude ≤ (if signed then 1 <<< (bits - 1) else 0)
  else magnitude < (if signed then 1 <<< (bits - 1) else 1 <<< bits)

/-- The value of a hexadecimal digit. -/
def hexDigit? (c : Char) : Option Nat :=
  if c.isDigit then some (c.toNat - '0'.toNat)
  else if 'a' ≤ c && c ≤ 'f' then some (c.toNat - 'a'.toNat + 10)
  else if 'A' ≤ c && c ≤ 'F' then some (c.toNat - 'A'.toNat + 10)
  else none

/-- Whether `c` belongs to the digits of an integer, in whatever base. -/
def isDigitLike (c : Char) : Bool := (hexDigit? c).isSome || c == '_'

/-- The base an integer is written in, and its digits on. -/
def readBase (cs : List Char) : Nat × List Char :=
  match cs with
  | '0' :: 'b' :: rest => (2, rest)
  | '0' :: 'o' :: rest => (8, rest)
  | '0' :: 'x' :: rest => (16, rest)
  | _ => (10, cs)

/-- The number the digits continue, `value` being what stands before them. -/
def digitsValue (base value : Nat) : List Char → Option Nat
  | [] => some value
  | '_' :: rest => digitsValue base value rest
  | c :: rest => do
    let d ← hexDigit? c
    if d < base then digitsValue base (value * base + d) rest else none

/-- An integer without its sign. -/
def readMagnitude : Read Nat := fun cs =>
  let (base, cs) := readBase cs
  let digits := cs.takeWhile isDigitLike
  if digits.isEmpty || digits.head? == some '_' then none
  else (digitsValue base 0 digits).map (·, cs.dropWhile isDigitLike)

/-- An integer: its sign, its magnitude, and the name of its type if that stands behind it. -/
structure Integer where
  negative : Bool
  magnitude : Nat
  type : Option String

/-- The sign of a number, and the number on. -/
def readSign (cs : List Char) : Bool × List Char :=
  match cs with
  | '+' :: rest => (false, rest)
  | '-' :: rest => (true, rest)
  | _ => (false, cs)

/-- The name of a type at the front. -/
def typeName? (cs : List Char) : Option (String × Bool × Nat) :=
  integerTypes.find? fun (name, _) => (expectWord name cs).isSome

/-- An integer. With the name of a type it has to fit that type, and without one 64 bits. -/
def readInteger : Read Integer := fun cs => do
  let (negative, cs) := readSign cs
  match typeName? (cs.dropWhile isDigitLike) with
  | some (name, signed, bits) =>
    let (magnitude, rest) ← readMagnitude cs
    if fits signed bits negative magnitude then
      some (⟨negative, magnitude, some name⟩, (skipName rest).getD rest)
    else none
  | none =>
    let (magnitude, rest) ← readMagnitude cs
    if fits negative 64 negative magnitude then some (⟨negative, magnitude, none⟩, rest) else none

/-- A word of 64 bits. -/
def readWord : Read Nat := fun cs => do
  let (n, rest) ← readInteger cs
  let ofType := n.type.all (· == "u64")
  if ofType && fits false 64 n.negative n.magnitude then some (n.magnitude, rest) else none

/-! ### Other numbers -/

/-- Whether `c` may stand in a decimal number. -/
def isDecimalLike (c : Char) : Bool :=
  c.isDigit || c == 'e' || c == 'E' || c == '.' || c == '+' || c == '-' || c == '_'

/-- The characters without their underscores. These may stand behind digits and exponent marks,
signs between not counted. -/
def dropUnderscores (allowed : Bool) : List Char → Option (List Char)
  | [] => some []
  | '_' :: rest => if allowed then dropUnderscores allowed rest else none
  | c :: rest =>
    let allowed := if c.isDigit || c == 'e' || c == 'E' then true else if c == '.' then false
      else allowed
    (dropUnderscores allowed rest).map (c :: ·)

/-- Whether `cs` is a decimal number: digits, with a point before, among or behind them, and perhaps
an exponent. -/
def isDecimal (cs : List Char) : Bool :=
  let cs := (readSign cs).2
  let whole := cs.takeWhile Char.isDigit
  let (fraction, rest) := match cs.dropWhile Char.isDigit with
    | '.' :: rest => (rest.takeWhile Char.isDigit, rest.dropWhile Char.isDigit)
    | rest => ([], rest)
  !(whole.isEmpty && fraction.isEmpty) && match rest with
    | [] => true
    | c :: rest =>
      let digits := (readSign rest).2
      (c == 'e' || c == 'E') && !digits.isEmpty && digits.all Char.isDigit

/-- The names of the numbers that are not finite. -/
def notFinite : List String := ["inf", "inff32", "inff64", "NaN", "NaNf32", "NaNf64"]

/-- Passes over a number that need not be an integer. -/
def skipDecimal : Skip := fun cs =>
  match expectAnyWord notFinite (readSign cs).2 with
  | some rest => some rest
  | none => do
    let chars := cs.takeWhile isDecimalLike
    let rest := cs.dropWhile isDecimalLike
    if isDecimal (← dropUnderscores false chars) then
      some ((expectAnyWord ["f32", "f64"] rest).getD rest)
    else none

/-- Passes over any number. -/
def skipNumber : Skip := fun cs =>
  let unsigned := (readSign cs).2
  if (unsigned.takeWhile isDigitLike).length < (unsigned.takeWhile isDecimalLike).length then
    skipDecimal cs
  else match readInteger cs with
    | some (_, rest) => some rest
    | none => skipDecimal cs

end LiveTree.Ron
