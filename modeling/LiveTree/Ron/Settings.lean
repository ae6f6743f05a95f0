import LiveTree.Ron.Record
import LiveTree.Settings

/-!
# Settings as RON

```text
(
    listen: "127.0.0.1:7077",
    root: "/server",
    tick_interval_ms: 500,
    proc: (max_write_bytes: 1048576, overlap: Warn),
)
```

A field left out has its default.
-/

namespace LiveTree.Ron

/-- Reads what happens with several claims. -/
def readOverlap : Read OverlapPolicy := fun cs => do
  let (name, rest) ← readIdentifier cs
  match name with
  | "Warn" => some (.warn, rest)
  | "Ignore" => some (.ignore, rest)
  | _ => none

/-- The fields of a tree's settings. -/
def treeFields : List (Field TreeSettings) :=
  [field "max_write_bytes" readWord fun value s => { s with maxWriteBytes := value },
    field "overlap" readOverlap fun value s => { s with overlap := value }]

/-- Reads a tree's settings, as a record whose parts are nested at most `limit` levels deep. -/
def readTreeSettings (limit : Nat) (extensions : Extensions) : Read TreeSettings :=
  readRecord extensions limit "ProcConfig" treeFields {}

/-- The fields of a server's settings. -/
def serverFields (extensions : Extensions) : List (Field ServerSettings) :=
  [field "listen" readString fun value s => { s with listen := value },
    field "root" readString fun value s => { s with root := value },
    field "tick_interval_ms" readWord fun value s => { s with tickIntervalMs := value },
    field "proc" (readTreeSettings (nestingLimit - 4) extensions)
      fun value s => { s with tree := value }]

/-- Reads a server's settings. -/
def readServerSettings (extensions : Extensions) : Read ServerSettings :=
  readRecord extensions (nestingLimit - 2) "ServerConfig" (serverFields extensions) {}

end LiveTree.Ron

namespace LiveTree

/-- The tree's settings in a RON document. -/
def TreeSettings.ofRon? (text : String) : Option TreeSettings :=
  Ron.readDocument (Ron.readTreeSettings (Ron.nestingLimit - 2)) text

/-- The server's settings in a RON document. -/
def ServerSettings.ofRon? (text : String) : Option ServerSettings :=
  Ron.readDocument Ron.readServerSettings text

end LiveTree
