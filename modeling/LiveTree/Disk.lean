import LiveTree.Bytes
import LiveTree.Path

/-!
# Files of the host

What reading a file of the host by its path comes to. A *place* is given by the names that lead to
it from the root. A path is walked piece by piece, from the root if it starts with a slash and from
where the program runs otherwise, and every piece, an idle one too, is taken in a directory: a file
with a slash behind it is refused.
-/

namespace LiveTree

/-- Why a file gives no text. -/
inductive FileFault where
  | missing
  /-- A file stands where a directory has to be. -/
  | notDirectory
  | isDirectory
  /-- A name of the path, or the path, is longer than the host takes. -/
  | nameTooLong
  | denied
  | notText
  /-- The host says in its own words what is wrong. -/
  | other (words : String)
deriving DecidableEq, Repr

/-- The defect in words. -/
def FileFault.message : FileFault → String
  | .missing => "No such file or directory (os error 2)"
  | .notDirectory => "Not a directory (os error 20)"
  | .isDirectory => "Is a directory (os error 21)"
  | .nameTooLong => "File name too long (os error 36)"
  | .denied => "Permission denied (os error 13)"
  | .notText => "stream did not contain valid UTF-8"
  | .other words => words

namespace Disk

/-- What stands at a place. -/
inductive Entry where
  | file (octets : Bytes)
  | directory
deriving DecidableEq, Repr

/-- The most octets a name may have. -/
def maxNameSize : Nat := 255

/-- The most octets a path may have. -/
def maxPathSize : Nat := 4095

end Disk

/-- What stands where on a disk, and the place the program runs in. -/
structure Disk where
  entry? : List String → Option Disk.Entry
  here : List String

namespace Disk

/-! ### Reading -/

/-- The place that the pieces of a path lead to. Above the root is the root. -/
def walk (disk : Disk) (place : List String) : List String → Except FileFault (List String)
  | [] => .ok place
  | piece :: pieces =>
    match disk.entry? place with
    | none => .error .missing
    | some (.file _) => .error .notDirectory
    | some .directory =>
      if Path.isIdle piece then disk.walk place pieces
      else if piece == ".." then disk.walk place.dropLast pieces
      else if maxNameSize < piece.utf8ByteSize then .error .nameTooLong
      else disk.walk (place ++ [piece]) pieces

/-- What the file at a path holds. -/
def read (disk : Disk) (path : String) : Except FileFault Bytes :=
  if path == "" then .error .missing
  else if maxPathSize < path.utf8ByteSize then .error .nameTooLong
  else do
    let start := if path.startsWith "/" then [] else disk.here
    let place ← disk.walk start (Path.pieces path)
    match disk.entry? place with
    | none => .error .missing
    | some .directory => .error .isDirectory
    | some (.file octets) => .ok octets

/-! ### A directory of its own -/

/-- The directories below the root that every host has. -/
def commonDirectories : List String :=
  ["bin", "boot", "dev", "etc", "home", "lib", "media", "mnt", "opt", "proc", "root", "run", "sbin",
    "srv", "sys", "tmp", "usr", "var"]

/-- What every host has, as far as it has no settings to read: the directories below the root, and
the file that is always empty. -/
def common? : List String → Option Entry
  | [] => some .directory
  | [name] => if commonDirectories.contains name then some .directory else none
  | ["dev", "null"] => some (.file #[])
  | _ => none

/-- The disk of a program that runs in a new directory with these files, each given by its path from
there. No path spells the name of that directory. -/
def ofFiles (files : List (String × Bytes)) : Disk where
  here := ["tmp", ""]
  entry? place :=
    match ["tmp", ""].isPrefixOf? place with
    | none => common? place
    | some [] => some .directory
    | some names =>
      match files.lookup (String.intercalate "/" names) with
      | some octets => some (.file octets)
      | none =>
        if files.any fun (path, _) => names.isPrefixOf (Path.segments path) then some .directory
        else none

end Disk

end LiveTree
