import LiveTree.Disk
import LiveTree.Ron.Settings
import LiveTree.Text.Numeral
import LiveTree.Text.Utf8

/-!
# The command line

What the arguments ask for, the settings they lead to, and the report when that fails.

| argument | meaning |
|---|---|
| `-c`, `--config <PATH>` | read settings from a RON file |
| `--listen <ADDRESS>` | listen there, whatever the file says |
| `--root <DIR>` | directory of the built-in nodes, whatever the file says |
| `-h`, `--help` | show how to call the program |
| `-V`, `--version` | show the version |
-/

namespace LiveTree.CommandLine

/-! ### Arguments -/

/-- The options given. -/
structure Options where
  config : Option String := none
  listen : Option String := none
  root : Option String := none
deriving DecidableEq, Repr

/-- What the arguments ask for. -/
inductive Call where
  | serve (options : Options)
  | help
  | version
  /-- The arguments make no sense. -/
  | misused
deriving DecidableEq, Repr

/-- An option that takes a value. -/
inductive Key where
  | config | listen | root
deriving DecidableEq, Repr

/-- The option of that long name. -/
def Key.ofName? : List Char → Option Key
  | ['c', 'o', 'n', 'f', 'i', 'g'] => some .config
  | ['l', 'i', 's', 't', 'e', 'n'] => some .listen
  | ['r', 'o', 'o', 't'] => some .root
  | _ => none

/-- The options with one more value. None may be given twice, and a path is not empty. -/
def Options.set (o : Options) (key : Key) (value : String) : Option Options :=
  match key with
  | .config => if o.config.isSome || value == "" then none else some { o with config := value }
  | .listen => if o.listen.isSome then none else some { o with listen := value }
  | .root => if o.root.isSome then none else some { o with root := value }

/-- Whether an argument can only be an option: it starts with a dash and goes on. -/
def isDashed (arg : List Char) : Bool := arg.head? == some '-' && arg != ['-']

/-- One argument taken apart. -/
inductive Word where
  /-- An option whose value stands in the same argument. -/
  | attached (key : Key) (value : String)
  /-- An option whose value is the next argument. -/
  | awaiting (key : Key)
  | help
  | version
  /-- The mark behind which no options stand. -/
  | rest
  | unknown

/-- Takes an argument apart. -/
def wordOf : List Char → Word
  | ['-', '-'] => .rest
  | '-' :: '-' :: long =>
    let name := long.takeWhile (· != '=')
    match long.dropWhile (· != '='), Key.ofName? name with
    | [], some key => .awaiting key
    | _ :: value, some key => .attached key (String.ofList value)
    | [], none =>
      if name == ['h', 'e', 'l', 'p'] then .help
      else if name == ['v', 'e', 'r', 's', 'i', 'o', 'n'] then .version else .unknown
    | _, none => .unknown
  | ['-', 'c'] => .awaiting .config
  | '-' :: 'c' :: '=' :: value => .attached .config (String.ofList value)
  | '-' :: 'c' :: value => .attached .config (String.ofList value)
  | '-' :: 'h' :: _ => .help
  | '-' :: 'V' :: _ => .version
  | _ => .unknown

/-- What the arguments behind `given` ask for. They are taken from left to right, and the first that
decides the call ends the reading. -/
def parseFrom (given : Options) : List String → Call
  | [] => .serve given
  | arg :: args =>
    match wordOf arg.toList with
    | .help => .help
    | .version => .version
    | .unknown => .misused
    | .rest => if args.isEmpty then .serve given else .misused
    | .attached key value =>
      match given.set key value with
      | none => .misused
      | some given => parseFrom given args
    | .awaiting key =>
      match args with
      | [] => .misused
      | value :: args =>
        if isDashed value.toList then .misused
        else match given.set key value with
          | none => .misused
          | some given => parseFrom given args

/-- What the arguments ask for. -/
def parse (args : List String) : Call := parseFrom {} args

/-! ### Settings -/

/-- Why no settings could be loaded from a file. -/
inductive LoadFault where
  | unreadable (fault : FileFault)
  | malformed
deriving DecidableEq, Repr

/-- The defect in words, and what caused it. -/
def LoadFault.causes : LoadFault → List String
  | .unreadable fault => ["IO error: " ++ fault.message, fault.message]
  | .malformed => ["RON parse error: malformed document", "malformed document"]

/-- The text of a file with these octets. -/
def textOf (octets : Bytes) : Except FileFault String :=
  match Text.Utf8.decode octets with
  | .ok text => .ok text
  | .error _ => .error .notText

/-- Settings out of what a file holds: `read` reads them from a text. -/
def load {α : Type} (read : String → Option α) (file : Except FileFault Bytes) :
    Except LoadFault α :=
  match file.bind textOf with
  | .error fault => .error (.unreadable fault)
  | .ok text =>
    match read text with
    | none => .error .malformed
    | some settings => .ok settings

/-- A failure to start: what was being done, and the causes, the nearest first. -/
structure Report where
  doing : String
  causes : List String
deriving DecidableEq, Repr

/-- The report as it is printed. Several causes are numbered. -/
def Report.text (r : Report) : String :=
  let lines := match r.causes with
    | [cause] => ["    " ++ cause ++ "\n"]
    | causes => causes.mapIdx fun i cause => "    " ++ toString i ++ ": " ++ cause ++ "\n"
  "Error: " ++ r.doing ++ "\n\nCaused by:\n" ++ String.join lines

/-- The settings that options lead to, `files` being what the files hold. -/
def settings (files : String → Except FileFault Bytes) (o : Options) :
    Except Report ServerSettings := do
  let loaded ← match o.config with
    | none => .ok {}
    | some path =>
      match load ServerSettings.ofRon? (files path) with
      | .ok settings => .ok settings
      | .error fault => .error ⟨"loading config from " ++ path, fault.causes⟩
  return { loaded with
    listen := o.listen.getD loaded.listen
    root := o.root.getD loaded.root }

/-! ### Addresses -/

/-- The host and the port of an address: what stands before and behind its last colon. -/
def hostAndPort (address : String) : Option (List Char × List Char) :=
  match address.toList.reverse.dropWhile (· != ':') with
  | [] => none
  | _ :: host => some (host.reverse, (address.toList.reverse.takeWhile (· != ':')).reverse)

/-- The host and the number of the port; the report if the address has none. No host has a NUL in
its name. -/
def endpoint (address : String) : Except Report (String × Nat) :=
  match hostAndPort address with
  | none => .error ⟨"binding " ++ address, ["invalid socket address"]⟩
  | some (host, port) =>
    match Text.readNumeral port with
    | .ok number =>
      if 65536 ≤ number then .error ⟨"binding " ++ address, ["invalid port value"]⟩
      else if host.contains '\x00' then
        .error ⟨"binding " ++ address, ["file name contained an unexpected NUL byte"]⟩
      else .ok (String.ofList host, number)
    | .error _ => .error ⟨"binding " ++ address, ["invalid port value"]⟩

/-! ### Texts -/

/-- The answer to `--version`. -/
def versionText : String := "procnode-server 0.1.0\n"

/-- The answer to `--help`. -/
def helpText : String :=
  "Serve live process state as a synthetic file tree\n\n" ++
  "Usage: procnode-server [OPTIONS]\n\n" ++
  "Options:\n" ++
  "  -c, --config <CONFIG>  RON config file\n" ++
  "      --listen <LISTEN>  Listen address, overrides the config file\n" ++
  "      --root <ROOT>      Directory for the built-in nodes, overrides the config file\n" ++
  "  -h, --help             Print help\n" ++
  "  -V, --version          Print version\n"

/-- What is said about arguments that make no sense. -/
def misuseText : String :=
  "error: invalid arguments\n\n" ++
  "Usage: procnode-server [OPTIONS]\n\n" ++
  "For more information, try '--help'.\n"

/-! ### Starting -/

/-- How a call goes on. -/
inductive Start where
  /-- The program ends at once, with an exit code and what it prints. -/
  | exit (code : Nat) (output report : String)
  /-- It serves with these settings, at this host and port. -/
  | run (settings : ServerSettings) (host : String) (port : Nat)
deriving DecidableEq, Repr

/-- How the call with these arguments goes on, `files` being what the files hold. -/
def start (files : String → Except FileFault Bytes) (args : List String) : Start :=
  match parse args with
  | .help => .exit 0 helpText ""
  | .version => .exit 0 versionText ""
  | .misused => .exit 2 "" misuseText
  | .serve options =>
    let outcome := do
      let settings ← settings files options
      let (host, port) ← endpoint settings.listen
      return Start.run settings host port
    match outcome with
    | .ok start => start
    | .error report => .exit 1 "" report.text

end LiveTree.CommandLine
