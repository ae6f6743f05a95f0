import LiveTree.Attributes
import LiveTree.Fault
import LiveTree.Publisher

/-!
# Log events

What the tree reports about its work, each event with its severity, its wording and its fields.
-/

namespace LiveTree

/-- Severities, the gravest first. -/
inductive Severity where
  | warn | info | debug
deriving DecidableEq, Repr

namespace Severity

/-- Name of the severity. -/
def label : Severity → String
  | .warn => "WARN"
  | .info => "INFO"
  | .debug => "DEBUG"

/-- Position in the order of severities. -/
def rank : Severity → Nat
  | .warn => 0
  | .info => 1
  | .debug => 2

/-- Whether an event of severity `s` shows in a log kept at `threshold`. -/
def shows (threshold s : Severity) : Bool := s.rank ≤ threshold.rank

end Severity

/-- Something the tree reports. -/
inductive Event where
  | registered (node : NodeId) (kind : NodeKind) (directory : String)
  | unregistered (node : NodeId)
  /-- A session could not be closed properly when its node was unregistered. -/
  | closeOnUnregisterFailed (path : String) (error : Fault)
  /-- Several nodes claim a file; `others` besides the one that serves it. -/
  | overlap (path : String) (winner : NodeId) (others : Nat)
  /-- The session of an open that lost its node could not be closed properly. -/
  | closeAfterLostOpenFailed (path : String) (error : Fault)
  | unregisteredDuringOpen (path : String) (node : NodeId)
  | readOnlyOpened (path : String) (size : Nat)
  | readOnlyClosed (path : String)
  | readWriteOpened (path : String) (access : Access) (session : Nat)
  | committed (path : String) (size : Nat)
  | commitFailed (path : String) (error : Fault)
  | readWriteClosed (path : String) (session : Nat)
  | announced (path : String) (generation : Nat)
  | keyStoreOpened (path : String) (access : Access)
  | keyStoreClosed (key : String)
deriving DecidableEq, Repr

/-- The value of a field. -/
inductive Event.Value where
  | text (s : String)
  | number (n : Nat)
deriving DecidableEq, Repr

namespace Event

/-- How grave the event is. -/
def severity : Event → Severity
  | closeOnUnregisterFailed .. | overlap .. | closeAfterLostOpenFailed .. | commitFailed .. => .warn
  | registered .. | unregistered .. => .info
  | unregisteredDuringOpen .. | readOnlyOpened .. | readOnlyClosed .. | readWriteOpened ..
  | committed .. | readWriteClosed .. | announced .. | keyStoreOpened .. | keyStoreClosed .. =>
    .debug

/-- The event in words. -/
def message : Event → String
  | registered .. => "registered node"
  | unregistered .. => "unregistered node"
  | closeOnUnregisterFailed .. => "close on unregister failed"
  | overlap .. => "multiple nodes claim file; using first registered"
  | closeAfterLostOpenFailed .. => "close after lost open failed"
  | unregisteredDuringOpen .. => "node unregistered during open"
  | readOnlyOpened .. => "read-only session opened"
  | readOnlyClosed .. => "read-only session closed"
  | readWriteOpened .. => "read-write session opened"
  | committed .. => "committed write"
  | commitFailed .. => "commit on close failed"
  | readWriteClosed .. => "read-write session closed"
  | announced .. => "published change"
  | keyStoreOpened .. => "key-store session opened"
  | keyStoreClosed .. => "key-store session closed"

/-- The fields of the event by name. -/
def fields : Event → List (String × Value)
  | registered node kind directory =>
    [("node", .text node.label), ("kind", .text kind.label), ("dir", .text directory)]
  | unregistered node => [("node", .text node.label)]
  | closeOnUnregisterFailed path error | closeAfterLostOpenFailed path error
  | commitFailed path error => [("path", .text path), ("error", .text error.message)]
  | overlap path winner others =>
    [("path", .text path), ("winner", .text winner.label), ("others", .number others)]
  | unregisteredDuringOpen path node => [("path", .text path), ("node", .text node.label)]
  | readOnlyOpened path size | committed path size =>
    [("path", .text path), ("size", .number size)]
  | readOnlyClosed path => [("path", .text path)]
  | readWriteOpened path access session =>
    [("path", .text path), ("flags", .text access.label), ("session", .number session)]
  | readWriteClosed path session => [("path", .text path), ("session", .number session)]
  | announced path generation => [("path", .text path), ("generation", .number generation)]
  | keyStoreOpened path access => [("path", .text path), ("flags", .text access.label)]
  | keyStoreClosed key => [("key", .text key)]

/-- The value of a field in words. -/
def Value.label : Value → String
  | text s => s
  | number n => toString n

/-- The event as a line of a log. -/
def line (e : Event) : String :=
  e.severity.label ++ " " ++ e.message ++
    String.join (e.fields.map fun (name, value) => " " ++ name ++ "=" ++ value.label)

end Event

end LiveTree
