import LiveTree.Builtins
import LiveTree.CommandLine
import LiveTree.Service
import Std.Async.DNS
import Std.Async.Signal
import Std.Async.TCP
import Std.Async.Timer
import Std.Sync.Mutex

/-!
# The server program

Sockets, files, the clock and the interrupt. What they bring goes to the service, one thing at a
time, and what the service has to say is sent.
-/

namespace LiveTree.Main

open Std.Async Std.Net

/-- The service and the sockets of its connections. -/
structure Hall where
  service : Service Vitals Empty
  builtins : Builtins
  sockets : List (Nat × TCP.Socket.Client) := []
  /-- When the program started, by the clock that only moves on. -/
  started : Nat

/-- The hall with its clock set. -/
def Hall.atNow (hall : Hall) (now : Nat) : Hall :=
  let tree := hall.service.tree
  { hall with service := { hall.service with tree := { tree with
    publisher := { tree.publisher with elapsed := now - hall.started } } } }

/-- Sends what is to be written. -/
def send (hall : Hall) (output : Service.Output) : IO Unit :=
  for (id, octets) in output do
    if let some socket := hall.sockets.lookup id then
      let _ ← (socket.send ⟨octets⟩).toIO

/-- Writes down what the tree has reported, details left out. -/
def writeLog (tree : Tree Vitals Empty) : IO (Tree Vitals Empty) := do
  let (events, tree) := tree.takeLog
  for e in events do
    if Severity.info.shows e.severity then IO.eprintln e.line
  return tree

/-- Lets something happen to the service, and sends what it has to say. -/
def perform (shared : Std.Mutex Hall)
    (event : Service Vitals Empty → Service.Output × Service Vitals Empty) : IO Unit :=
  shared.atomically do
    let hall := (← get).atNow (← IO.monoMsNow)
    let (output, service) := event hall.service
    let hall := { hall with service := { service with tree := ← writeLog service.tree } }
    send hall output
    set hall

/-- Takes a socket in as a connection, and tells its number. -/
def enter (shared : Std.Mutex Hall) (socket : TCP.Socket.Client) : IO Nat :=
  shared.atomically do
    let hall ← get
    let (id, service) := hall.service.accept
    set { hall with service, sockets := (id, socket) :: hall.sockets }
    return id

/-- Whether a connection takes no more requests. -/
def isClosed (shared : Std.Mutex Hall) (id : Nat) : IO Bool :=
  shared.atomically do return (← get).service.isClosed id

/-- Forgets the socket of a connection. -/
def forget (shared : Std.Mutex Hall) (id : Nat) : IO Unit :=
  shared.atomically do
    modify fun hall => { hall with sockets := hall.sockets.filter (·.1 ≠ id) }

/-- Ends a connection. -/
def leave (shared : Std.Mutex Hall) (id : Nat) (socket : TCP.Socket.Client) : Async Unit := do
  perform shared (·.hangUp id)
  try socket.shutdown catch _ => pure ()
  forget shared id

/-- Serves one connection until its input ends or it is closed. -/
partial def serveClient (shared : Std.Mutex Hall) (id : Nat) (socket : TCP.Socket.Client) :
    Async Unit := do
  let input ← try socket.recv? 65536 catch _ => pure none
  match input with
  | none => leave shared id socket
  | some octets =>
    perform shared (·.receive id octets.data)
    if ← isClosed shared id then leave shared id socket else serveClient shared id socket

/-- Takes new connections in and serves each beside the others. -/
partial def acceptClients (shared : Std.Mutex Hall) (server : TCP.Socket.Server) : Async Unit := do
  let socket ← server.accept
  let id ← enter shared socket
  background (serveClient shared id socket)
  acceptClients shared server

/-- Waits so many milliseconds. -/
partial def pause (time : Nat) : Async Unit := do
  let part := min time 1000000000
  sleep (.ofNat part)
  if part < time then pause (time - part)

/-- Gives the heartbeats. -/
partial def beat (shared : Std.Mutex Hall) (builtins : Builtins) (interval : Nat) :
    Async Unit := do
  pause interval
  perform shared fun s => s.act fun t => (builtins.heartbeat .whole t).2
  beat shared builtins interval

/-- The address of a host. -/
def addressOf (host : String) (port : UInt16) : Async SocketAddress := do
  let inner := (host.toList.drop 1).dropLast
  match IPv4Addr.ofString host, IPv6Addr.ofString (String.ofList inner) with
  | some addr, _ => return .v4 ⟨addr, port⟩
  | none, some addr => return .v6 ⟨addr, port⟩
  | none, none =>
    let found : Array IPAddr ← DNS.getAddrInfo host ""
    match found.toList with
    | .v4 addr :: _ => return .v4 ⟨addr, port⟩
    | .v6 addr :: _ => return .v6 ⟨addr, port⟩
    | [] => throw (IO.userError "failed to lookup address information")

/-- Serves until the program is interrupted. -/
def serve (settings : ServerSettings) (host : String) (port : Nat) : Async UInt32 := do
  let empty : Tree Vitals Empty := { settings := settings.tree, publisher := {} }
  let (builtins, tree) := Builtins.install .whole empty settings.root
  let tree ← writeLog tree
  let hall : Hall := { service := { tree }, builtins, started := ← IO.monoMsNow }
  let shared ← Std.Mutex.new hall
  let server ← TCP.Socket.Server.mk
  try
    server.bind (← addressOf host port.toUInt16)
    server.listen 1024
  catch e =>
    IO.eprint (CommandLine.Report.text ⟨"binding " ++ settings.listen, [toString e]⟩)
    return 1
  if let some interval := settings.tickInterval? then
    background (beat shared builtins interval)
  background (acceptClients shared server)
  let interrupt ← Signal.Waiter.mk .sigint false
  let _ ← await (← interrupt.wait)
  perform shared fun s => s.act builtins.uninstall
  return 0

/-- What a file holds. -/
def readFile (path : String) : IO (Except FileFault Bytes) := do
  try
    return .ok (← IO.FS.readBinFile path).data
  catch
    | .noFileOrDirectory .. => return .error .missing
    | .inappropriateType _ code _ =>
      return .error (if code = 21 then .isDirectory else .notDirectory)
    | .invalidArgument _ 36 _ => return .error .nameTooLong
    | .permissionDenied .. => return .error .denied
    | e => return .error (.other (toString e))

end LiveTree.Main

open LiveTree in
/-- The server program. -/
def main (args : List String) : IO UInt32 := do
  let file ← match CommandLine.parse args with
    | .serve options =>
      match options.config with
      | some path => Main.readFile path
      | none => pure (.error .missing)
    | _ => pure (.error .missing)
  match CommandLine.start (fun _ => file) args with
  | .exit code output report =>
    IO.print output
    IO.eprint report
    return code.toUInt32
  | .run settings host port => (Main.serve settings host port).block
