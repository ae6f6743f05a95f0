import LiveTree.Ron.Text

/-!
# The shape of bare content

Where an option's content goes without parentheses of its own, it may be the fields of a record,
several items, or a single value. Which of these it is, is decided beforehand, by looking for the
first colon or comma on the outermost level.
-/

namespace LiveTree.Ron

/-- What the content of an option looks like. -/
inductive Shape where
  /-- Names with values. -/
  | fields
  /-- Several values. -/
  | items
  /-- One value. -/
  | single
deriving DecidableEq, Repr

/-! ### Passing over quoted texts -/

/-- Whether the closing quote is missing: no quote follows from the start on, or from behind an
escape. Behind what is no escape, any quote will do. -/
def lacksQuoteIn (quoting : Quoting) : (bound : List Char) → List Char → Bool
  | _ :: bound, c :: rest =>
    if c == '"' then false
    else if c == '\\' then
      match readEscape quoting rest with
      | some (_, rest) => lacksQuoteIn quoting bound rest
      | none => !rest.contains '"'
    else lacksQuoteIn quoting bound rest
  | _, _ => true

/-- Whether the closing quote is missing. -/
def lacksQuote (quoting : Quoting) (cs : List Char) : Bool := lacksQuoteIn quoting cs cs

/-- Whether a raw string, behind its letters, has begun and does not end. -/
def lacksRawEnd (cs : List Char) : Bool :=
  (cs.dropWhile (· == '#')).head? == some '"' && (readRaw cs).isNone

/-- Passes over a string, if one stands at the front. `mark` begins it, or `rawMark` if it is raw.
It has to end; what is wrong in it otherwise makes it no string. -/
def trySkipString (mark rawMark : String) (quoting : Quoting) : Skip := fun cs =>
  match expect mark cs with
  | some rest =>
    if lacksQuote quoting rest then none
    else some (((readQuoted quoting rest).map (·.2)).getD cs)
  | none =>
    match expect rawMark cs with
    | some rest => if lacksRawEnd rest then none else some (((readRaw rest).map (·.2)).getD cs)
    | none => some cs

/-- Passes over a character, a string and a byte string, each if it stands at the front. -/
def trySkipQuoted : Skip := fun cs => do
  let cs := ((expect "'" cs).bind (skipCharacter .char)).getD cs
  trySkipString "b\"" "br" .octets (← trySkipString "\"" "r" .text cs)

/-! ### The survey -/

/-- Whether there is more than one item up to the mark that closes what is open, `depth` brackets
being open inside it. What stands in quotes and comments does not count. `bound` has at least as
many characters as the text. -/
def hasSecond (depth : Nat) : (bound : List Char) → List Char → Option Bool
  | [], _ => none
  | _ :: bound, cs => do
    match ← trySkipQuoted (← skipBlank cs) with
    | [] => none
    | c :: rest =>
      if c == '(' || c == '[' || c == '\x7b' then hasSecond (depth + 1) bound rest
      else if c == ')' || c == ']' || c == '\x7d' then
        match depth with
        | 0 => some false
        | depth + 1 => hasSecond depth bound rest
      else if c == ',' && depth = 0 then return (← skipBlank rest).head? != some ')'
      else hasSecond depth bound rest

/-- The shape of what may go without parentheses, up to the parenthesis that closes it. -/
def survey (cs : List Char) : Option Shape := do
  let cs ← skipBlank cs
  let (named, rest) ← match skipName cs with
    | none => some (false, cs)
    | some rest => (skipBlank rest).map (true, ·)
  match named, rest.head? with
  | true, some ':' => return .fields
  | true, some ')' => return .single
  | _, _ => return if ← hasSecond 0 rest rest then .items else .single

end LiveTree.Ron
