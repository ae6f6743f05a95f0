import LiveTree.Attributes
import LiveTree.Json.Value
import LiveTree.Publisher
import LiveTree.Settings

/-!
# Data as JSON

How attributes, entries and settings are written as JSON values, and read back. A record is an
object or an array of its fields in order. In an object unknown members are passed over and a known
one stands at most once; in an array the last fields may be missing. A constant is a string, or an
object with that one member and nothing under it.
-/

namespace LiveTree.Json

/-! ### Shapes -/

/-- The string `s` as a value. -/
def ofString (s : String) : Value := .string (some s)

/-- A record of named fields. -/
def record (fields : List (String × Value)) : Value :=
  .object (fields.map fun (name, value) => (some name, value))

/-- A word of 64 bits. -/
def word? : Value → Option Nat
  | .number word => word
  | _ => none

/-- A truth value. -/
def bool? : Value → Option Bool
  | .bool b => some b
  | _ => none

/-- A text. -/
def text? : Value → Option String
  | .string text => text
  | _ => none

/-- The name of a constant. -/
def constant? : Value → Option String
  | .string text => text
  | .object [(name, .null)] => name
  | _ => none

/-- The value of the field `name`, if there is one; fails if there are several. -/
def field? (members : List (Option String × Value)) (name : String) : Option (Option Value) :=
  match members.filter (·.1 = some name) with
  | [] => some none
  | [(_, value)] => some (some value)
  | _ => none

/-- The values of the fields with these names, in order; `none` for one that is missing. -/
def fields? (names : List String) : Value → Option (List (Option Value))
  | .object members =>
    if members.any (·.1.isNone) then none else names.mapM (field? members)
  | .array items =>
    if names.length < items.length then none
    else some (items.map some ++ List.replicate (names.length - items.length) none)
  | _ => none

/-- The value of a field that has to be there. -/
def required {α : Type} (read : Value → Option α) (field : Option Value) : Option α :=
  field.bind read

/-- The value of a field that may be missing. -/
def defaulted {α : Type} (read : Value → Option α) (default : α) : Option Value → Option α
  | none => some default
  | some value => read value

/-! ### Constants -/

/-- The kind of a path. -/
def fileKind : FileKind → Value
  | .file => ofString "File"
  | .directory => ofString "Directory"

/-- Reads the kind of a path. -/
def fileKind? (v : Value) : Option FileKind :=
  match constant? v with
  | some "File" => some .file
  | some "Directory" => some .directory
  | _ => none

/-- The kind of a node. -/
def nodeKind : NodeKind → Value
  | .readOnly => ofString "ReadOnly"
  | .readWrite => ofString "ReadWrite"
  | .keyStore => ofString "KeyStore"

/-- Reads the kind of a node. -/
def nodeKind? (v : Value) : Option NodeKind :=
  match constant? v with
  | some "ReadOnly" => some .readOnly
  | some "ReadWrite" => some .readWrite
  | some "KeyStore" => some .keyStore
  | _ => none

/-- What happens with several claims. -/
def overlapPolicy : OverlapPolicy → Value
  | .warn => ofString "Warn"
  | .ignore => ofString "Ignore"

/-- Reads what happens with several claims. -/
def overlapPolicy? (v : Value) : Option OverlapPolicy :=
  match constant? v with
  | some "Warn" => some .warn
  | some "Ignore" => some .ignore
  | _ => none

/-! ### Records -/

/-- Attributes of a path. -/
def attributes (a : Attributes) : Value :=
  record
    [("size", .number (some a.size)), ("kind", fileKind a.kind), ("writable", .bool a.writable)]

/-- Reads attributes; no field may be missing. -/
def attributes? (v : Value) : Option Attributes := do
  match ← fields? ["size", "kind", "writable"] v with
  | [size, kind, writable] =>
    return ⟨← required word? size, ← required fileKind? kind, ← required bool? writable⟩
  | _ => none

/-- A name of a listing. -/
def entry (e : Entry) : Value := record [("name", ofString e.name), ("kind", fileKind e.kind)]

/-- Reads a name of a listing; no field may be missing. -/
def entry? (v : Value) : Option Entry := do
  match ← fields? ["name", "kind"] v with
  | [name, kind] => return ⟨← required text? name, ← required fileKind? kind⟩
  | _ => none

/-- Settings of a tree. -/
def treeSettings (s : TreeSettings) : Value :=
  record [("max_write_bytes", .number (some s.maxWriteBytes)), ("overlap", overlapPolicy s.overlap)]

/-- Reads settings of a tree; missing fields have their defaults. -/
def treeSettings? (v : Value) : Option TreeSettings := do
  let d : TreeSettings := {}
  match ← fields? ["max_write_bytes", "overlap"] v with
  | [limit, overlap] =>
    return ⟨← defaulted word? d.maxWriteBytes limit, ← defaulted overlapPolicy? d.overlap overlap⟩
  | _ => none

/-- Settings of a server. -/
def serverSettings (s : ServerSettings) : Value :=
  record [("listen", ofString s.listen), ("root", ofString s.root),
    ("tick_interval_ms", .number (some s.tickIntervalMs)), ("proc", treeSettings s.tree)]

/-- Reads settings of a server; missing fields have their defaults. -/
def serverSettings? (v : Value) : Option ServerSettings := do
  let d : ServerSettings := {}
  match ← fields? ["listen", "root", "tick_interval_ms", "proc"] v with
  | [listen, root, interval, tree] =>
    return ⟨← defaulted text? d.listen listen, ← defaulted text? d.root root,
      ← defaulted word? d.tickIntervalMs interval, ← defaulted treeSettings? d.tree tree⟩
  | _ => none

end LiveTree.Json
