import LiveTree.Fault

/-!
# Paths

Paths are texts whose segments are separated by `/`. A path is *canonical* when it is `/` alone or
every one of its segments stands behind a `/` and is a real name: neither empty, nor `.` or `..`.

Two functions bring a text into canonical form. `normalize` serves callers: it drops empty and `.`
segments and refuses `..` and NUL. `clean` serves publishers: it never fails, and `..` takes back
the segment before it. The remaining functions assume canonical arguments and are total on all
texts.
-/

namespace LiveTree.Path

/-! ### Segments -/

/-- The pieces of `path` between its slashes, empty ones included. -/
def pieces (path : String) : List String :=
  (path.toList.splitOn '/').map String.ofList

/-- A piece that names nothing: an empty one, or `.`. -/
def isIdle (piece : String) : Bool := piece == "" || piece == "."

/-- The pieces of `path` that are not idle. -/
def segments (path : String) : List String := (pieces path).filter (!isIdle ·)

/-- The path with the given segments; `/` for none. -/
def ofSegments : List String → String
  | [] => "/"
  | segments => String.join (segments.map ("/" ++ ·))

/-- A segment of a canonical path: not empty, not `.` or `..`, and without a slash. -/
def IsSegment (s : String) : Prop := s ≠ "" ∧ s ≠ "." ∧ s ≠ ".." ∧ '/' ∉ s.toList

/-- A path written in the one way `normalize` and `clean` leave. -/
def Canonical (path : String) : Prop :=
  ∃ segments : List String, (∀ s ∈ segments, IsSegment s) ∧ path = ofSegments segments

/-- A name that can stand as one segment: not empty, not `.` or `..`, without slash or NUL. -/
def isValidName (name : String) : Bool :=
  name != "" && name != "." && name != ".." && !name.toList.any (fun c => c == '/' || c == '\x00')

/-! ### Canonical form -/

/-- A segment callers may not use: `..`, or one that holds a NUL. -/
def isForbidden (segment : String) : Bool := segment == ".." || segment.toList.contains '\x00'

/-- The canonical form of a caller's path, refusing `..` and NUL. -/
def normalize (path : String) : Except Fault String :=
  if (segments path).any isForbidden then .error (.invalidPath path)
  else .ok (ofSegments (segments path))

/-- One segment onto a stack of segments, the last one on top: `..` takes the top away. -/
def push (stack : List String) (segment : String) : List String :=
  if segment == ".." then stack.tail else segment :: stack

/-- The canonical form of a publisher's path: `..` takes back the segment before it, and nothing at
the root. -/
def clean (path : String) : String := ofSegments ((segments path).foldl push []).reverse

/-! ### Parts -/

/-- The directory that holds `path`: everything before the last slash. The root has none. -/
def parent (path : String) : Option String :=
  if path == "/" then none
  else match path.toList.reverse.dropWhile (· != '/') with
    | [] => none
    | [_] => some "/"
    | _ :: before => some (String.ofList before.reverse)

/-- The last segment of `path`: everything behind the last slash. The root has none. -/
def fileName (path : String) : Option String :=
  if path == "/" then none
  else match path.toList.reverse.takeWhile (· != '/') with
    | [] => none
    | name => some (String.ofList name.reverse)

/-- The path of `name` in directory `dir`. -/
def join (dir name : String) : String :=
  if dir == "/" then "/" ++ name else dir ++ "/" ++ name

/-! ### Order -/

/-- What follows `ancestor` in `path`, when `path` starts with it. -/
def behind (ancestor path : String) : Option (List Char) :=
  if ancestor.toList.isPrefixOf path.toList then some (path.toList.drop ancestor.toList.length)
  else none

/-- Whether `ancestor` is `path` or lies above it. -/
def isAncestorOrSelf (ancestor path : String) : Bool :=
  ancestor == "/" || ancestor == path || (behind ancestor path).any (·.head? == some '/')

/-- The segment below `ancestor` on the way to `descendant`; `none` unless `ancestor` lies strictly
above. -/
def nextComponent (ancestor descendant : String) : Option String :=
  if ancestor == descendant || !isAncestorOrSelf ancestor descendant then none
  else
    let below := if ancestor == "/" then 1 else ancestor.toList.length + 1
    match (descendant.toList.drop below).takeWhile (· != '/') with
    | [] => none
    | name => some (String.ofList name)

end LiveTree.Path
