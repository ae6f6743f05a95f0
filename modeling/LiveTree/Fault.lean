/-!
# Faults

Everything that can go wrong in an operation on the tree, by cause, with the wording each cause has
and the class of operating-system error it stands for.
-/

namespace LiveTree

/-- A failure raised by a publisher: the first cause, and the contexts wrapped around it, innermost
first. -/
structure Failure where
  root : String
  contexts : List String := []
deriving DecidableEq, Repr

/-- The whole chain in one line, the outermost context first. -/
def Failure.message (f : Failure) : String := ": ".intercalate (f.contexts.reverse ++ [f.root])

/-- Why an operation on the tree failed. -/
inductive Fault where
  /-- No node serves this path or key. -/
  | notFound (path : String)
  /-- The node does not offer the operation. -/
  | unsupported (what : String)
  /-- There is no session to read, write or close. -/
  | noSession
  /-- The access asked for clashes with an open session or with what the node allows. -/
  | accessConflict (reason : String)
  /-- A publisher's provider or sink failed. -/
  | backing (reason : String)
  /-- The path cannot be brought into canonical form. -/
  | invalidPath (path : String)
  /-- A write would grow the pending buffer past the limit. -/
  | tooLarge (limit : Nat)
deriving DecidableEq, Repr

namespace Fault

/-- The fault of a publisher's failure. -/
def ofFailure (f : Failure) : Fault := .backing f.message

/-- Short stable tag of the cause. -/
def kind : Fault → String
  | .notFound _ => "not-found"
  | .unsupported _ => "unsupported"
  | .noSession => "no-session"
  | .accessConflict _ => "access-conflict"
  | .backing _ => "backing"
  | .invalidPath _ => "invalid-path"
  | .tooLarge _ => "too-large"

/-- The fault in words. -/
def message : Fault → String
  | .notFound path => "not found: " ++ path
  | .unsupported what => "unsupported: " ++ what
  | .noSession => "no open session"
  | .accessConflict reason => "access conflict: " ++ reason
  | .backing reason => "backing store error: " ++ reason
  | .invalidPath path => "invalid path: " ++ path
  | .tooLarge limit => "write exceeds " ++ toString limit ++ " byte limit"

/-- Classes of operating-system errors. -/
inductive SystemKind where
  | NotFound | Unsupported | InvalidInput | PermissionDenied | Other | FileTooLarge
deriving DecidableEq, Repr

/-- Name of the class. -/
def SystemKind.name : SystemKind → String
  | .NotFound => "NotFound"
  | .Unsupported => "Unsupported"
  | .InvalidInput => "InvalidInput"
  | .PermissionDenied => "PermissionDenied"
  | .Other => "Other"
  | .FileTooLarge => "FileTooLarge"

/-- The class an adapter to an operating system reports. -/
def systemKind : Fault → SystemKind
  | .notFound _ => .NotFound
  | .unsupported _ => .Unsupported
  | .noSession | .invalidPath _ => .InvalidInput
  | .accessConflict _ => .PermissionDenied
  | .backing _ => .Other
  | .tooLarge _ => .FileTooLarge

/-- The text that goes with the class: the bare subject where there is one. -/
def systemMessage : Fault → String
  | .notFound text | .unsupported text | .accessConflict text | .backing text
  | .invalidPath text => text
  | fault => fault.message

end Fault

end LiveTree
