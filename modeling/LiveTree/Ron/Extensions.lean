import LiveTree.Ron.Token

/-!
# Extensions of RON

What a document asks for at its top, such as `#![enable(implicit_some)]`.
-/

namespace LiveTree.Ron

/-- What a document asks for at its top. -/
structure Extensions where
  /-- Options may stand without `Some`. -/
  implicitSome : Bool := false
  /-- Records have to carry their names. -/
  explicitNames : Bool := false
  /-- The content of `Some` goes without parentheses of its own. -/
  bareContent : Bool := false
deriving DecidableEq, Repr

/-- The extension of that name, added to others. -/
def Extensions.add (e : Extensions) (name : String) : Option Extensions :=
  match name with
  | "implicit_some" => some { e with implicitSome := true }
  | "explicit_struct_names" => some { e with explicitNames := true }
  | "unwrap_variant_newtypes" => some { e with bareContent := true }
  | "unwrap_newtypes" => some e
  | _ => none

/-- Passes over `marks`, with blanks behind each. -/
def expectAll (marks : List String) : Skip := fun cs =>
  marks.foldlM (fun cs mark => do skipBlank (← expect mark cs)) cs

/-- The names of extensions, added to `e`; a comma may follow the last. There are no more of them
than `bound` has characters. -/
def readExtensionNames (e : Extensions) : (bound : List Char) → Read Extensions
  | [], _ => none
  | _ :: bound, cs => do
    let (name, cs) ← readIdentifier cs
    let e ← e.add name
    match ← skipBlank cs with
    | ',' :: rest =>
      let rest ← skipBlank rest
      if goesOn rest then readExtensionNames e bound rest else some (e, rest)
    | cs => if goesOn cs then none else some (e, cs)

/-- The extensions that the top of a document asks for, and what follows. -/
def readExtensions (e : Extensions) : Nat → Read Extensions
  | 0, _ => none
  | fuel + 1, cs =>
    match cs with
    | '#' :: _ => do
      let cs ← expectAll ["#", "!", "[", "enable", "("] cs
      let (e, cs) ← readExtensionNames e cs cs
      let cs ← expectAll [")", "]"] (← skipBlank cs)
      readExtensions e fuel cs
    | cs => some (e, cs)

end LiveTree.Ron
