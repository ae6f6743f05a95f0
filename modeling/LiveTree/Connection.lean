import LiveTree.Protocol.Reply
import LiveTree.Tree.Watching

/-!
# Connections

One client's side of the conversation. Input arrives in pieces of any size; each complete line is
served in turn. While a watch waits, the next line cancels it and is dropped. A line that is no text
ends the connection, and so do `quit` and the end of the input during a watch; an unfinished last
line is served when the input ends.
-/

namespace LiveTree

/-- What a connection is at. -/
inductive Connection.Phase where
  /-- Waiting for a line. -/
  | idle
  /-- Waiting for a change, for the client or for its next line. -/
  | watching (handle : Handle) (poll : Poll)
  | closed
deriving DecidableEq, Repr

/-- A connection. -/
structure Connection where
  phase : Connection.Phase := .idle
  /-- The line received so far. -/
  received : Bytes := #[]
deriving DecidableEq, Repr

namespace Connection

variable {σ ε : Type} [Foreign ε]

/-! ### Requests that are answered at once -/

/-- Serves a request other than `watch` and `quit`. -/
def execute (t : Tree σ ε) : Request → Bytes × Tree σ ε
  | .list path => (Reply.ofResult Reply.listing (t.list path), t)
  | .stat path =>
    let (result, t) := t.stat path
    (Reply.ofResult Reply.attributes result, t)
  | .cat path =>
    let (result, t) := t.readAll path
    (Reply.ofResult Reply.data result, t)
  | .put path data =>
    let (result, t) := t.writeAll path data
    (Reply.ofResult (fun count => Reply.ok (toString count)) result, t)
  | .truncate path size =>
    let (result, t) := t.truncate path size
    (Reply.ofResult (fun _ => Reply.ok "") result, t)
  | .watch _ | .quit => (Reply.fault (.unsupported "not a node request"), t)

/-! ### Watches -/

/-- Closes the handle of a watch, if it is still open. -/
def closeQuietly (t : Tree σ ε) (h : Handle) : Tree σ ε := (t.close h).2

/-- Begins a watch: its reply if there is one at once, and what the connection is at afterwards. -/
def beginWatch (t : Tree σ ε) (path : String) : Bytes × Phase × Tree σ ε :=
  match t.openFile path .reading with
  | (.error fault, t) => (Reply.fault fault, .idle, t)
  | (.ok h, t) =>
    match t.longPollAll h with
    | (.answered result, t) => (Reply.ofResult Reply.data result, .idle, closeQuietly t h)
    | (.waiting poll, t) => (#[], .watching h poll, t)

/-- Ends a watch whose poll has an answer. -/
def settle (t : Tree σ ε) (c : Connection) : Bytes × Connection × Tree σ ε :=
  match c.phase with
  | .watching h poll =>
    match t.finish? poll with
    | none => (#[], c, t)
    | some (result, t) =>
      (Reply.ofResult Reply.data result, { c with phase := .idle }, closeQuietly t h)
  | _ => (#[], c, t)

/-! ### Input -/

/-- Serves one line, without its line feed. -/
def serveLine (t : Tree σ ε) (phase : Phase) (line : Bytes) : Bytes × Phase × Tree σ ε :=
  match phase with
  | .closed => (#[], .closed, t)
  | .watching h _ =>
    let t := closeQuietly t h
    match Text.Utf8.decode line with
    | .error _ => (#[], .closed, t)
    | .ok _ => (Reply.fault .noSession, .idle, t)
  | .idle =>
    match Text.Utf8.decode line with
    | .error _ => (#[], .closed, t)
    | .ok text =>
      match Request.parse text with
      | .error e => (Reply.badRequest e, .idle, t)
      | .ok .quit => (#[], .closed, t)
      | .ok (.watch path) => beginWatch t path
      | .ok request =>
        let (reply, t) := execute t request
        (reply, .idle, t)

/-- Takes one octet of input. -/
def receiveOctet (t : Tree σ ε) (c : Connection) (b : UInt8) : Bytes × Connection × Tree σ ε :=
  if b == 0x0A then
    let (reply, phase, t) := serveLine t c.phase c.received
    (reply, ⟨phase, #[]⟩, t)
  else (#[], { c with received := c.received.push b }, t)

/-- Takes input: what is written in reply, behind `written`. -/
def receiveOnto (written : Bytes) (t : Tree σ ε) (c : Connection) :
    List UInt8 → Bytes × Connection × Tree σ ε
  | [] => (written, c, t)
  | b :: rest =>
    let (reply, c, t) := receiveOctet t c b
    receiveOnto (written ++ reply) t c rest

/-- Takes input, and tells what is written in reply. -/
def receive (t : Tree σ ε) (c : Connection) (input : Bytes) : Bytes × Connection × Tree σ ε :=
  receiveOnto #[] t c input.toList

/-- Takes the end of the input: an unfinished line is served, and the connection is over. -/
def finish (t : Tree σ ε) (c : Connection) : Bytes × Connection × Tree σ ε :=
  let (reply, phase, t) :=
    if c.received.isEmpty then (#[], c.phase, t) else serveLine t c.phase c.received
  match phase with
  | .watching h _ => (reply, ⟨.closed, #[]⟩, closeQuietly t h)
  | _ => (reply, ⟨.closed, #[]⟩, t)

end Connection

end LiveTree
