import LiveTree.Attributes
import LiveTree.Publisher

/-!
# Foreign nodes

A tree also takes nodes of kinds that the embedding program defines. A kind is a type of node states
with the operations below; only the reads are bound by a law, so that a whole content can be read.
-/

namespace LiveTree

/-- The states `ε` are nodes of a foreign kind. -/
class Foreign (ε : Type) where
  kind : ε → NodeKind
  directory : ε → String
  /-- Whether the path is the node's directory or lies above it. -/
  coversDirectory : ε → String → Bool
  /-- Whether the path is a file of the node. -/
  matchesFile : ε → String → Bool
  /-- The names directly under the path. -/
  children : ε → String → List String
  isWritable : ε → String → Bool
  /-- Octets a read of the path would deliver now. -/
  size : ε → String → Except Fault Nat
  resize : ε → String → Nat → Except Fault ε
  /-- Whether the path may be opened. -/
  permit : ε → String → Access → Except Fault Unit
  /-- The node with a session on the path. -/
  begin : ε → String → Access → ε
  /-- The part of at most so many octets at an offset. -/
  read : ε → Nat → Nat → Except Fault Bytes
  /-- Nothing is read at or past this offset. -/
  extent : ε → Nat
  read_past : ∀ e offset size part, read e offset size = .ok part → extent e ≤ offset → part = #[]
  /-- How many octets of a write were taken, and the node afterwards. -/
  write : ε → Nat → Bytes → Except Fault (Nat × ε)
  /-- Ends the session; it is over even if that fails. -/
  close : ε → Except Fault Unit × ε
  /-- The node on whose next content a waiting reader goes on. It never has to wait. -/
  wake : ε → Except Fault ε

/-- There need not be any foreign kind. -/
instance : Foreign Empty where
  kind := nofun
  directory := nofun
  coversDirectory := nofun
  matchesFile := nofun
  children := nofun
  isWritable := nofun
  size := nofun
  resize := nofun
  permit := nofun
  begin := nofun
  read := nofun
  extent := nofun
  read_past := nofun
  write := nofun
  close := nofun
  wake := nofun

end LiveTree
