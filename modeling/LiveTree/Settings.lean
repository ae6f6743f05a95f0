/-!
# Settings

What a tree and a server can be configured with, and the defaults.
-/

namespace LiveTree

/-- No pending buffer grows past this, whatever the settings say. -/
def maxPendingBytes : Nat := 1073741824

/-- Octets a node is asked for in one call. -/
def readChunk : Nat := 65536

/-- What happens when several nodes claim one file. The first registered one always serves it. -/
inductive OverlapPolicy where
  /-- A warning is logged. -/
  | warn
  /-- Nothing is logged. -/
  | ignore
deriving DecidableEq, Repr

/-- Settings of a tree. -/
structure TreeSettings where
  /-- Largest end of a write a session accepts. -/
  maxWriteBytes : Nat := 16777216
  overlap : OverlapPolicy := .warn
deriving DecidableEq, Repr

/-- Settings of a server. -/
structure ServerSettings where
  /-- Address to listen on. -/
  listen : String := "127.0.0.1:7077"
  /-- Directory of the built-in nodes. -/
  root : String := "/server"
  /-- Milliseconds between heartbeats; zero for none. -/
  tickIntervalMs : Nat := 1000
  tree : TreeSettings := {}
deriving DecidableEq, Repr

/-- Milliseconds between heartbeats, if there are any. -/
def ServerSettings.tickInterval? (s : ServerSettings) : Option Nat :=
  if s.tickIntervalMs = 0 then none else some s.tickIntervalMs

end LiveTree
