import LiveTree.Ron.Extensions
import LiveTree.Ron.Survey

/-!
# Any value of RON

Passing over a value that nobody asks for. It may be nested, up to a limit: a sequence, a map or a
record takes one level for itself and one for each of its parts, an option takes one, and the unit
`()` takes none.
-/

namespace LiveTree.Ron

/-! ### Parts -/

/-- Passes over items, each perhaps followed by a comma, as far as the mark that closes them.
Between two items a comma has to stand. There are no more of them than `bound` has characters. -/
def skipItemsIn (item : Skip) (close : Char) : (bound : List Char) → Skip
  | [], _ => none
  | _ :: bound, cs => do
    let cs ← skipBlank cs
    if cs.head? == some close then some cs
    else
      match ← skipBlank (← item cs) with
      | ',' :: rest => skipItemsIn item close bound rest
      | cs => if cs.head? == some close then some cs else none

/-- Passes over items as far as the mark that closes them. -/
def skipItems (item : Skip) (close : Char) : Skip := fun cs => skipItemsIn item close cs cs

/-- Passes over a colon and the item behind it. -/
def skipColon (item : Skip) : Skip := fun cs => do
  item (← skipBlank (← expect ":" (← skipBlank cs)))

/-- Passes over a key, a colon and a value. -/
def skipPair (item : Skip) : Skip := fun cs => do skipColon item (← item cs)

/-- Passes over a name, a colon and a value. -/
def skipField (item : Skip) : Skip := fun cs => do skipColon item (← readIdentifier cs).2

/-- Passes over items and the mark that closes them. -/
def skipThrough (item : Skip) (close : Char) : Skip := fun cs => do
  (← skipItems item close cs).tail?

/-- Whether the first thing behind an opening parenthesis is a name with a colon. -/
def isNamed (cs : List Char) : Bool :=
  match (skipBlank cs).bind skipName with
  | some rest => ((skipBlank rest).bind List.head?) == some ':'
  | none => false

/-! ### Values

`below` are the readers of values one, two and more levels deeper, as far as there may be any. -/

/-- The reader of the parts of a nested value, if there may be such a value. -/
def partOf (below : List Skip) : Option Skip :=
  match below with
  | [] => none
  | _ :: deeper => some (deeper.headD fun _ => none)

/-- Passes over the parts of a record, behind its name: none at all, named ones, or values. -/
def skipParts (below : List Skip) : Skip
  | '(' :: rest => do
    let part ← partOf below
    skipThrough (if isNamed rest then skipField part else part) ')' rest
  | cs => some cs

/-- Passes over content that goes without parentheses of its own, as far as the parenthesis that
closes it. `value` reads a single value. -/
def skipBare (value : Skip) (below : List Skip) : Skip := fun cs => do
  if cs.head? == some ')' then some cs
  else
    match ← survey cs with
    | .fields => skipItems (skipField (← partOf below)) ')' cs
    | .items => skipItems (← partOf below) ')' cs
    | .single => value cs

/-- Passes over the content of an option: in parentheses, where a comma may follow it, or also
without them if options may be implicit. -/
def skipContent (e : Extensions) (below : List Skip) : Skip := fun cs =>
  match below, cs with
  | value :: deeper, '(' :: rest => do
    let rest ← skipBlank rest
    let rest ← skipBlank (← if e.bareContent then skipBare value deeper rest else value rest)
    let rest ← skipBlank ((expect "," rest).getD rest)
    expect ")" rest
  | value :: _, cs => if e.implicitSome then value cs else none
  | [], _ => none

/-- Passes over a value that does not begin with a word of its own. -/
def skipPlain (below : List Skip) : Skip := fun cs =>
  match cs with
  | '(' :: _ => skipParts below cs
  | '[' :: rest => do skipThrough (← partOf below) ']' rest
  | '\x7b' :: rest => do skipThrough (skipPair (← partOf below)) '\x7d' rest
  | '"' :: _ | 'r' :: _ => (readString cs).map (·.2)
  | '\'' :: rest => skipCharacter .char rest
  | 'b' :: '\'' :: rest => skipCharacter .octet rest
  | 'b' :: _ => skipByteString cs
  | c :: _ => if c.isDigit || c == '+' || c == '-' || c == '.' then skipNumber cs else none
  | [] => none

/-- Passes over a value. -/
def skipWith (e : Extensions) (below : List Skip) : Skip := fun cs =>
  match expectAnyWord ["true", "false"] cs with
  | some rest => some rest
  | none =>
    match expectWord "Some" cs with
    | some rest => do skipContent e below (← skipBlank rest)
    | none =>
      match expectWord "None" cs <|> expect "()" cs <|> expectAnyWord notFinite cs with
      | some rest => some rest
      | none =>
        match skipName cs with
        | some rest => do skipParts below (← skipBlank rest)
        | none => skipPlain below cs

/-- The readers of values that are nested at most `limit - 1`, `limit - 2`, … levels deep. -/
def skippers (e : Extensions) : (limit : Nat) → List Skip
  | 0 => []
  | limit + 1 =>
    let below := skippers e limit
    skipWith e below :: below

/-- Passes over a value that is nested at most `limit` levels deep. -/
def skipValue (e : Extensions) (limit : Nat) : Skip := skipWith e (skippers e limit)

end LiveTree.Ron
