import LiveTree.Ron.Value

/-!
# Records of RON

Reading a document that holds one record of named fields. The record may carry its name; its fields
may come in any order, each at most once; fields it does not know are passed over.
-/

namespace LiveTree.Ron

/-- How deep values may be nested. -/
def nestingLimit : Nat := 128

/-- A field of a record: its name, and how its value is read into the record. -/
structure Field (α : Type) where
  name : String
  read : Read (α → α)

/-- A field whose value is read by `read` and put into the record by `set`. -/
def field {α β : Type} (name : String) (read : Read β) (set : β → α → α) : Field α :=
  ⟨name, fun cs => (read cs).map fun (value, rest) => (set value, rest)⟩

/-- Reads the fields of a record up to its closing parenthesis, into `record`. `seen` are the known
fields read so far. -/
def readFields {α : Type} (fields : List (Field α)) (unknown : Skip) (seen : List String)
    (record : α) : Nat → Read α
  | 0, _ => none
  | fuel + 1, cs => do
    let cs ← skipBlank cs
    match cs with
    | ')' :: rest => some (record, rest)
    | cs =>
      let (name, cs) ← readIdentifier cs
      let cs ← skipBlank (← expect ":" (← skipBlank cs))
      let (seen, record, cs) ← match fields.find? (·.name == name) with
        | none => (unknown cs).map fun cs => (seen, record, cs)
        | some known =>
          if seen.contains name then none
          else (known.read cs).map fun (set, cs) => (name :: seen, set record, cs)
      match ← skipBlank cs with
      | ',' :: cs => readFields fields unknown seen record fuel cs
      | ')' :: rest => some (record, rest)
      | _ => none

/-- Passes over the name of a record, if it stands there. -/
def skipRecordName (extensions : Extensions) (name : String) : Skip := fun cs =>
  if goesOn cs then do
    let (found, rest) ← readIdentifier cs
    if found == name then some rest else none
  else if extensions.explicitNames then none else some cs

/-- Reads a record into `start`. Values in it are nested at most `limit` levels deep. -/
def readRecord {α : Type} (extensions : Extensions) (limit : Nat) (name : String)
    (fields : List (Field α)) (start : α) : Read α := fun cs => do
  let rest ← skipBlank (← skipRecordName extensions name cs)
  let rest ← expect "(" rest
  readFields fields (skipValue extensions limit) [] start (rest.length + 1) rest

/-! ### Documents -/

/-- The record that a whole document holds. -/
def readDocument {α : Type} (record : Extensions → Read α) (text : String) : Option α := do
  let cs ← skipBlank text.toList
  let (extensions, cs) ← readExtensions {} (cs.length + 1) cs
  let (value, rest) ← record extensions cs
  if (← skipBlank rest).isEmpty then some value else none

end LiveTree.Ron
