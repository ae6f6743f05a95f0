import LiveTree.Bytes
import LiveTree.Text.Blank
import LiveTree.Text.Numeral

/-!
# Requests

A request is one line: a command, an argument and the rest, separated by single spaces. What stands
behind the second space belongs to the rest, further spaces included.

| line | request |
|---|---|
| `ls <dir>` | list a directory |
| `stat <path>` | attributes |
| `cat <path>` | whole content |
| `put <path> <text>` | replace the content |
| `truncate <path> <size>` | resize |
| `watch <path>` | wait for the next change |
| `quit` | end the connection |
-/

namespace LiveTree

/-- What a client asks for. -/
inductive Request where
  | list (path : String)
  | stat (path : String)
  | cat (path : String)
  | put (path : String) (data : Bytes)
  | truncate (path : String) (size : Nat)
  | watch (path : String)
  | quit
deriving DecidableEq, Repr

/-- Why a line is no request. -/
inductive RequestError where
  | empty
  | unknownCommand (command : String)
  | missingArgument (command argument : String)
  | badNumber (text : String)
deriving DecidableEq, Repr

/-- The defect in words. -/
def RequestError.message : RequestError → String
  | .empty => "empty request"
  | .unknownCommand command => "unknown command: " ++ command
  | .missingArgument command argument => command ++ " needs a " ++ argument
  | .badNumber text => "not a number: " ++ text

namespace Request

/-- `line` without the carriage returns and line feeds at its end. -/
def trimEnd (line : List Char) : List Char :=
  (line.reverse.dropWhile (fun c => c == '\r' || c == '\n')).reverse

/-- What stands before the first space, and what stands behind it if there is one. -/
def cut (text : List Char) : List Char × Option (List Char) :=
  match text.dropWhile (· != ' ') with
  | [] => (text, none)
  | _ :: rest => (text.takeWhile (· != ' '), some rest)

/-- The three parts of a line. -/
structure Parts where
  command : String
  argument : Option String
  rest : Option String
deriving DecidableEq, Repr

/-- Splits a line at its first two spaces. -/
def split (line : String) : Parts :=
  match cut (trimEnd line.toList) with
  | (command, none) => ⟨String.ofList command, none, none⟩
  | (command, some more) =>
    ⟨String.ofList command, some (String.ofList (cut more).1), (cut more).2.map String.ofList⟩

/-- The argument as a path; it must not be missing or empty. -/
def Parts.path (p : Parts) : Except RequestError String :=
  match p.argument with
  | some path => if path == "" then .error (.missingArgument p.command "path") else .ok path
  | none => .error (.missingArgument p.command "path")

/-- The rest as a number of octets. -/
def Parts.size (p : Parts) : Except RequestError Nat :=
  match p.rest with
  | none => .error (.missingArgument p.command "size")
  | some text =>
    match Text.readNumeral (Text.trim text.toList) with
    | .ok size => .ok size
    | .error _ => .error (.badNumber text)

/-- The request in the three parts of a line. -/
def ofParts (p : Parts) : Except RequestError Request :=
  match p.command with
  | "" => .error .empty
  | "ls" => p.path.map .list
  | "stat" => p.path.map .stat
  | "cat" => p.path.map .cat
  | "watch" => p.path.map .watch
  | "put" => p.path.map (.put · (Bytes.ofString (p.rest.getD "")))
  | "truncate" => do
    let path ← p.path
    let size ← p.size
    return .truncate path size
  | "quit" => .ok .quit
  | command => .error (.unknownCommand command)

/-- The request that a line stands for. -/
def parse (line : String) : Except RequestError Request := ofParts (split line)

end Request

end LiveTree
