import LiveTree.Attributes
import LiveTree.Fault
import LiveTree.Protocol.Request

/-!
# Replies

How answers are written. Every reply begins with `ok` or `err`. A content follows the line that
tells its length, so it may hold anything; a fault is one line, whatever its wording holds.
-/

namespace LiveTree.Reply

/-- `ok` with an optional tail. -/
def ok (tail : String) : Bytes :=
  Bytes.ofString (if tail == "" then "ok\n" else "ok " ++ tail ++ "\n")

/-- A content: its length, the octets, and a line feed. -/
def data (content : Bytes) : Bytes :=
  Bytes.ofString ("ok " ++ toString content.size ++ "\n") ++ (content ++ Bytes.ofString "\n")

/-- One line of a listing; directories end in a slash. -/
def entryLine (e : Entry) : String :=
  e.name ++ (if e.kind = .directory then "/" else "") ++ "\n"

/-- A listing: the number of entries, and a line for each. -/
def listing (entries : List Entry) : Bytes :=
  Bytes.ofString ("ok " ++ toString entries.length ++ "\n" ++ String.join (entries.map entryLine))

/-- Attributes: `dir`, or `file` with the size. -/
def attributes (a : Attributes) : Bytes :=
  match a.kind with
  | .directory => ok "dir"
  | .file => ok ("file " ++ toString a.size)

/-- `text` on one line: carriage returns and line feeds become spaces. -/
def oneLine (text : String) : String :=
  String.ofList (text.toList.map fun c => if c == '\r' || c == '\n' then ' ' else c)

/-- A fault of the tree. -/
def fault (f : Fault) : Bytes :=
  Bytes.ofString ("err " ++ f.kind ++ " " ++ oneLine f.message ++ "\n")

/-- A line that is no request. -/
def badRequest (e : RequestError) : Bytes :=
  Bytes.ofString ("err bad-request " ++ oneLine e.message ++ "\n")

/-- The reply to a result: `encode` writes a value, and a fault has one form. -/
def ofResult {α : Type} (encode : α → Bytes) : Except Fault α → Bytes
  | .ok value => encode value
  | .error f => fault f

end LiveTree.Reply
