import LiveTree.Bytes

/-!
# Maps from names

A finite map from names, as the list of its bindings in increasing order of the names' octets. The
operations keep that order, so listings come out sorted and each name stands once.
-/

namespace LiveTree

/-- Bindings of names, in increasing order. -/
abbrev NameMap (α : Type) := List (String × α)

namespace NameMap

variable {α : Type}

/-- Order of names: that of their octets. -/
def before (a b : String) : Bool := decide (Bytes.octetsOf a < Bytes.octetsOf b)

/-- The value bound to `name`. -/
def get? (m : NameMap α) (name : String) : Option α :=
  match m with
  | [] => none
  | (key, value) :: rest => if key = name then some value else get? rest name

/-- Binds `name` to what `f` makes of its former value. -/
def alter (m : NameMap α) (name : String) (f : Option α → α) : NameMap α :=
  match m with
  | [] => [(name, f none)]
  | (key, value) :: rest =>
    if key = name then (name, f (some value)) :: rest
    else if before name key then (name, f none) :: (key, value) :: rest
    else (key, value) :: alter rest name f

/-- Binds `name` to `value`. -/
def insert (m : NameMap α) (name : String) (value : α) : NameMap α := m.alter name (fun _ => value)

/-- Takes the binding of `name` away. -/
def erase (m : NameMap α) (name : String) : NameMap α := m.filter (·.1 ≠ name)

/-- The bound names, in order. -/
def names (m : NameMap α) : List String := m.map (·.1)

end NameMap

end LiveTree
