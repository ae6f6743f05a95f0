/-!
# What the tree tells about a path

Access modes, and the answers to listings and attribute queries.
-/

namespace LiveTree

/-- What a session may do. -/
structure Access where
  read : Bool := false
  write : Bool := false
deriving DecidableEq, Repr

namespace Access

/-- Reading only. -/
def reading : Access := ⟨true, false⟩

/-- Writing only. -/
def writing : Access := ⟨false, true⟩

/-- Reading and writing. -/
def both : Access := ⟨true, true⟩

/-- One letter per permission, `-` for none. -/
def label (a : Access) : String :=
  match a.read, a.write with
  | true, true => "rw"
  | true, false => "r"
  | false, true => "w"
  | false, false => "-"

end Access

/-- Whether a name is a file or a directory. -/
inductive FileKind where
  | file | directory
deriving DecidableEq, Repr

/-- A file wins over a directory of the same name. -/
def FileKind.merge : FileKind → FileKind → FileKind
  | .directory, .directory => .directory
  | _, _ => .file

/-- Attributes of a path. -/
structure Attributes where
  /-- Octets a read would deliver now; none for a directory. -/
  size : Nat
  kind : FileKind
  /-- Whether the owning node accepts writes to the path. -/
  writable : Bool
deriving DecidableEq, Repr

namespace Attributes

/-- Attributes of a file. -/
def file (size : Nat) (writable : Bool) : Attributes := ⟨size, .file, writable⟩

/-- Attributes of every directory. -/
def directory : Attributes := ⟨0, .directory, false⟩

end Attributes

/-- One name of a listing. -/
structure Entry where
  name : String
  kind : FileKind
deriving DecidableEq, Repr

end LiveTree
