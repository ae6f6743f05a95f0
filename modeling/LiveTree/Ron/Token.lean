import LiveTree.Text.Identifier

/-!
# Tokens of RON

Readers for the leaves of a RON document. A reader looks at the front of a text, and gives what it
read and the text behind it, or `none` if the text is malformed there.
-/

namespace LiveTree.Ron

/-- A reader of an `α` at the front of a text. -/
abbrev Read (α : Type) := List Char → Option (α × List Char)

/-- A reader that only passes over something. -/
abbrev Skip := List Char → Option (List Char)

/-! ### Blanks and comments -/

/-- Whether `c` is white space: the Unicode property `Pattern_White_Space`. -/
def isBlank (c : Char) : Bool :=
  c == ' ' || (0x09 ≤ c.toNat && c.toNat ≤ 0x0D) || c == '\u0085' || c == '\u200E' ||
    c == '\u200F' || c == '\u2028' || c == '\u2029'

/-- Where a text stands with respect to comments. -/
inductive Place where
  | outside
  /-- In a comment that ends with the line. -/
  | inLine
  /-- In a comment that ends with a mark; such comments nest, here one more than `depth` deep. -/
  | inBlock (depth : Nat)

/-- Passes over blanks and comments. -/
def skipBlankFrom : Place → Skip
  | .outside, [] => some []
  | .outside, '/' :: '/' :: rest => skipBlankFrom .inLine rest
  | .outside, '/' :: '*' :: rest => skipBlankFrom (.inBlock 0) rest
  | .outside, c :: rest =>
    if c == '/' then none
    else if isBlank c then skipBlankFrom .outside rest else some (c :: rest)
  | .inLine, [] => some []
  | .inLine, c :: rest => skipBlankFrom (if c == '\n' then .outside else .inLine) rest
  | .inBlock _, [] => none
  | .inBlock depth, '/' :: '*' :: rest => skipBlankFrom (.inBlock (depth + 1)) rest
  | .inBlock 0, '*' :: '/' :: rest => skipBlankFrom .outside rest
  | .inBlock (depth + 1), '*' :: '/' :: rest => skipBlankFrom (.inBlock depth) rest
  | .inBlock depth, _ :: rest => skipBlankFrom (.inBlock depth) rest

/-- Passes over blanks and comments. -/
def skipBlank : Skip := skipBlankFrom .outside

/-! ### Marks and words -/

/-- Passes over the mark `mark`. -/
def expect (mark : String) : Skip := fun cs =>
  if mark.toList.isPrefixOf cs then some (cs.drop mark.length) else none

/-- Whether an identifier goes on at the front. -/
def goesOn (cs : List Char) : Bool := cs.head?.any Text.Identifier.isContinue

/-- Passes over the word `word`, which must not go on. -/
def expectWord (word : String) : Skip := fun cs => do
  let rest ← expect word cs
  if goesOn rest then none else some rest

/-- Passes over the first of `words` that stands at the front. -/
def expectAnyWord (words : List String) : Skip := fun cs => words.findSome? (expectWord · cs)

/-! ### Identifiers -/

/-- Whether `c` begins an identifier. -/
def isStart (c : Char) : Bool := c == '_' || Text.Identifier.isStart c

/-- Whether `c` continues an identifier that is written raw. -/
def isRaw (c : Char) : Bool :=
  c == '.' || c == '+' || c == '-' || Text.Identifier.isContinue c

/-- Whether a string, a byte string or a byte stands at the front. -/
def beginsString (cs : List Char) : Bool :=
  ["b\"", "b'", "br#", "br\"", "r\"", "r#\"", "r##"].any fun mark => (expect mark cs).isSome

/-- An identifier; `r#` in front of it makes it raw. -/
def readIdentifier : Read String := fun cs =>
  if beginsString cs then none
  else match expect "r#" cs with
    | some rest =>
      match rest.takeWhile isRaw with
      | [] => none
      | name => some (String.ofList name, rest.dropWhile isRaw)
    | none =>
      match cs with
      | [] => none
      | c :: rest =>
        if !isStart c then none
        else
          let behind := rest.dropWhile Text.Identifier.isContinue
          if behind.head?.any isRaw then none
          else some (String.ofList (c :: rest.takeWhile Text.Identifier.isContinue), behind)

/-- Passes over an identifier, or what begins like one. -/
def skipName : Skip := fun cs =>
  if beginsString cs then none
  else match expect "r#" cs with
    | some rest => if (rest.takeWhile isRaw).isEmpty then none else some (rest.dropWhile isRaw)
    | none =>
      match cs with
      | [] => none
      | c :: rest => if isStart c then some (rest.dropWhile Text.Identifier.isContinue) else none

end LiveTree.Ron
