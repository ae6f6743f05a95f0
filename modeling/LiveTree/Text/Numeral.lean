/-!
# Numerals

Unsigned numbers of 64 bits written in decimal digits, after an optional plus sign.
-/

namespace LiveTree.Text

/-- The first number that does not fit into 64 bits. -/
def wordLimit : Nat := 18446744073709551616

/-- Why a text is no number. -/
inductive NumeralError where
  /-- There is nothing to read. -/
  | empty
  /-- A character is no digit. -/
  | invalidDigit
  /-- The number does not fit. -/
  | overflow
deriving DecidableEq, Repr

/-- The defect in words. -/
def NumeralError.message : NumeralError → String
  | .empty => "cannot parse integer from empty string"
  | .invalidDigit => "invalid digit found in string"
  | .overflow => "number too large to fit in target type"

/-- The number that `digits` continue, `value` being what stands before them. The first defect from
the left decides: a digit that makes the number too large, or a character that is no digit. -/
def readDigits (value : Nat) : List Char → Except NumeralError Nat
  | [] => .ok value
  | c :: rest =>
    if !c.isDigit then .error .invalidDigit
    else
      let next := 10 * value + (c.toNat - '0'.toNat)
      if wordLimit ≤ next then .error .overflow else readDigits next rest

/-- The number written by `text`. A sign without digits is no number. -/
def readNumeral (text : List Char) : Except NumeralError Nat :=
  match text with
  | [] => .error .empty
  | ['+'] => .error .invalidDigit
  | '+' :: digits => readDigits 0 digits
  | digits => readDigits 0 digits

end LiveTree.Text
