import LiveTree.Text.Quoted
import LiveTree.Tree.Basic

/-!
# Summaries

One-line descriptions of a tree and of its nodes, for people who look into a running program.
-/

namespace LiveTree

variable {σ ε : Type}

/-- A record: its name, and its fields between braces. -/
def summaryOf (name fields : String) : String := name ++ " \x7b " ++ fields ++ " \x7d"

/-- The directory as it was given; a moving one does not show its text. -/
def Directory.summary : Directory σ → String
  | .fixed text => "Fixed(" ++ Text.Quoted.encode text ++ ")"
  | .moving _ => "Dynamic(\"<fn>\")"

/-- The directory and the name. -/
def Location.summary (l : Location σ) : String :=
  summaryOf "FileLocation"
    ("dir: " ++ l.directory.summary ++ ", name: " ++ Text.Quoted.encode l.name)

/-- The place of the node. -/
def ReadOnly.summary (n : ReadOnly σ) : String :=
  summaryOf "ReadOnlyNode" ("location: " ++ n.location.summary ++ ", ..")

/-- The place of the node, and how often a change was announced. -/
def ReadWrite.summary (n : ReadWrite σ) : String :=
  summaryOf "ReadWriteNode" ("location: " ++ n.location.summary ++ ", generation: " ++
    toString n.published.generation ++ ", ..")

/-- How many nodes are registered and how many handles are open. -/
def Tree.summary (t : Tree σ ε) : String :=
  summaryOf "ProcRouter" ("nodes: " ++ toString t.registrations.length ++ ", open_handles: " ++
    toString t.handles.length)

end LiveTree
