import LiveTree.Text.Blank
import LiveTree.Text.Numeral
import LiveTree.Tree.Watching

/-!
# The built-in nodes

What a server publishes about itself, under one root:

```text
version   read-only    the version
uptime    read-only    seconds since the start
nodes     read-only    a line for each registered node
motd      read-write   a text
tick      read-write   a counter that moves on with every heartbeat; writing a number sets it
state/    key store    keys for clients
```
-/

namespace LiveTree

/-- The values behind the built-in nodes. -/
structure Vitals where
  /-- Heartbeats; the counter starts again from zero after 64 bits. -/
  ticks : UInt64 := 0
  motd : String := "welcome\n"
  /-- Milliseconds since the start. -/
  elapsed : Nat := 0
deriving DecidableEq, Repr

/-- Where a publisher keeps such values in its state. -/
structure Vitals.Slot (σ : Type) where
  get : σ → Vitals
  put : Vitals → σ → σ

/-- A publisher that keeps nothing else. -/
def Vitals.Slot.whole : Vitals.Slot Vitals := ⟨id, fun v _ => v⟩

/-- The built-in nodes of a tree. -/
structure Builtins where
  motd : NodeRef
  tick : NodeRef
  state : NodeRef
  /-- Their registrations, in order. -/
  ids : List NodeId
deriving DecidableEq, Repr

namespace Builtins

variable {σ ε : Type}

/-! ### Contents -/

/-- The version of the program. -/
def version : String := "0.1.0"

/-- Seconds with three places. -/
def uptimeText (elapsed : Nat) : String :=
  let thousandths := toString (elapsed % 1000)
  toString (elapsed / 1000) ++ "." ++
    String.ofList (List.replicate (3 - thousandths.length) '0') ++ thousandths ++ "\n"

/-- The counter as it is served. -/
def tickText (ticks : UInt64) : String := toString ticks.toNat ++ "\n"

/-- A line for each registered node. -/
def nodesText (nodes : List NodeInfo) : String :=
  String.join (nodes.map fun info =>
    info.id.label ++ " " ++ info.kind.label ++ " " ++ info.directory ++ "\n")

/-- The number that a text written to the counter stands for: blanks around it do not matter. -/
def readTicks (text : String) : Except Text.NumeralError Nat :=
  Text.readNumeral (Text.trim text.toList)

/-- Takes a number for the counter. -/
def tickSink (slot : Vitals.Slot σ) : Sink σ := Sink.ofText fun text s =>
  match readTicks text with
  | .ok count => (.ok (), slot.put { slot.get s with ticks := UInt64.ofNat count } s)
  | .error defect => (.error ⟨defect.message, []⟩, s)

/-- Takes a text for the message of the day. -/
def motdSink (slot : Vitals.Slot σ) : Sink σ := Sink.ofText fun text s =>
  (.ok (), slot.put { slot.get s with motd := text } s)

/-! ### Nodes -/

/-- The place of a built-in file. -/
def location (root name : String) (valid : Path.isValidName name = true) : Location σ :=
  ⟨.fixed root, name, valid⟩

/-- The version. -/
def versionNode (root : String) : ReadOnly σ :=
  ⟨location root "version" (by decide), .ofText fun _ => version ++ "\n", none⟩

/-- The time since the start. -/
def uptimeNode (slot : Vitals.Slot σ) (root : String) : ReadOnly σ :=
  ⟨location root "uptime" (by decide), .ofText fun s => uptimeText (slot.get s).elapsed, none⟩

/-- The registered nodes. -/
def nodesNode (root : String) : ReadOnly σ where
  location := location root "nodes" (by decide)
  provider := { supply := fun nodes s => (.ok (Bytes.ofString (nodesText nodes)), s) }

/-- The message of the day. -/
def motdNode (slot : Vitals.Slot σ) (root : String) : ReadWrite σ where
  location := location root "motd" (by decide)
  provider := .ofText fun s => (slot.get s).motd
  sink := motdSink slot

/-- The counter of heartbeats. -/
def tickNode (slot : Vitals.Slot σ) (root : String) : ReadWrite σ where
  location := location root "tick" (by decide)
  provider := .ofText fun s => tickText (slot.get s).ticks
  sink := tickSink slot

/-- The keys for clients. -/
def stateNode (root : String) : KeyStore σ := { directory := .fixed (Path.join root "state") }

variable [Foreign ε]

/-- Takes nodes in and registers them, in order. -/
def registerAll (t : Tree σ ε) : List (Node σ ε) → List (NodeId × NodeRef) × Tree σ ε
  | [] => ([], t)
  | n :: rest =>
    let (ref, t) := t.addNode n
    let (id, t) := t.register ref
    let (more, t) := registerAll t rest
    ((id, ref) :: more, t)

/-- Publishes the built-in nodes under `root`. -/
def install (slot : Vitals.Slot σ) (t : Tree σ ε) (root : String) : Builtins × Tree σ ε :=
  let root := Path.clean root
  let first := t.nodes.length
  let (registered, t) := registerAll t
    [.readOnly (versionNode root), .readOnly (uptimeNode slot root), .readOnly (nodesNode root),
      .readWrite (motdNode slot root), .readWrite (tickNode slot root),
      .keyStore (stateNode root)]
  (⟨⟨first + 3⟩, ⟨first + 4⟩, ⟨first + 5⟩, registered.map (·.1)⟩, t)

/-! ### The publisher's side -/

/-- Changes the values behind the nodes. -/
def update (slot : Vitals.Slot σ) (t : Tree σ ε) (f : Vitals → Vitals) : Tree σ ε :=
  { t with publisher := slot.put (f (slot.get t.publisher)) t.publisher }

/-- A heartbeat: the counter moves on, and whoever waits for it is let through. -/
def heartbeat (slot : Vitals.Slot σ) (b : Builtins) (t : Tree σ ε) : Except Fault Bool × Tree σ ε :=
  (update slot t fun v => { v with ticks := v.ticks + 1 }).notify b.tick

/-- How many heartbeats fall into a time: one at the end of each interval, as long as that comes
before the time is over. -/
def beats (interval time : Nat) : Nat := (time - 1) / interval

/-- Replaces the message of the day, and lets through whoever waits for it. -/
def setMotd (slot : Vitals.Slot σ) (b : Builtins) (text : String) (t : Tree σ ε) :
    Except Fault Bool × Tree σ ε :=
  (update slot t fun v => { v with motd := text }).notify b.motd

/-- Removes the built-in nodes from the namespace. -/
def uninstall (b : Builtins) (t : Tree σ ε) : Tree σ ε :=
  b.ids.foldl (fun t id => (t.unregister id).2) t

end Builtins

end LiveTree
