import LiveTree.Tree.Basic

/-!
# The namespace

Queries by path. A file is served by the first registered node that claims it; a directory is there
if any node covers it, and its listing is what all of them know of it, put together.
-/

namespace LiveTree.Tree

variable {σ ε : Type} [Foreign ε]

/-! ### Owners -/

/-- Whether the registration's node claims the file. -/
def claims (t : Tree σ ε) (path : String) (r : Registration) : Bool :=
  (t.node? r.node).any (·.matchesFile t.publisher path)

/-- The registrations that claim the file, in order. -/
def claimants (t : Tree σ ε) (path : String) : List Registration :=
  t.registrations.filter (t.claims path)

/-- The registration that serves the file. -/
def owner? (t : Tree σ ε) (path : String) : Option Registration := (t.claimants path).head?

/-- Reports that a file has several claimants, if that is asked for. -/
def noteOverlap (t : Tree σ ε) (path : String) : Tree σ ε :=
  match t.claimants path, t.settings.overlap with
  | first :: second :: more, .warn => t.report (.overlap path first.id (second :: more).length)
  | _, _ => t

/-! ### Queries on one node -/

/-- The size of `path` on the node. A provider has to be run for it. -/
def sizeOn (t : Tree σ ε) (ref : NodeRef) (path : String) : Except Fault Nat × Tree σ ε :=
  match t.node? ref with
  | none => (.error (.notFound path), t)
  | some (.readOnly n) =>
    match n.location.check t.publisher path with
    | .error fault => (.error fault, t)
    | .ok () =>
      let (content, t) := t.provide n.provider
      (content.map (·.size), t)
  | some (.readWrite n) =>
    match n.location.check t.publisher path with
    | .error fault => (.error fault, t)
    | .ok () =>
      let (content, t) := t.provide n.provider
      (content.map (·.size), t)
  | some (.keyStore n) => ((n.content t.publisher path).map (·.size), t)
  | some (.foreign e _) => (Foreign.size e path, t)

/-- Whether `path` on the node accepts writes. -/
def isWritableOn (t : Tree σ ε) (ref : NodeRef) (path : String) : Bool :=
  (t.node? ref).any (·.isWritable t.publisher path)

/-- Resizes `path` on the node. -/
def resizeOn (t : Tree σ ε) (ref : NodeRef) (path : String) (size : Nat) :
    Except Fault Unit × Tree σ ε :=
  match t.node? ref with
  | none => (.error (.notFound path), t)
  | some (.readOnly n) => (n.resize t.publisher path, t)
  | some (.readWrite n) =>
    match n.resize t.publisher path size with
    | .error fault => (.error fault, t)
    | .ok (n, none) => (.ok (), t.setNode ref (.readWrite n))
    | .ok (_, some content) =>
      match n.sink content t.publisher with
      | (.ok (), s) => (.ok (), { t with publisher := s })
      | (.error failure, s) => (.error (.ofFailure failure), { t with publisher := s })
  | some (.keyStore n) =>
    match n.resize t.publisher path size with
    | .error fault => (.error fault, t)
    | .ok n => (.ok (), t.setNode ref (.keyStore n))
  | some (.foreign e removals) =>
    match Foreign.resize e path size with
    | .error fault => (.error fault, t)
    | .ok e => (.ok (), t.setNode ref (.foreign e removals))

/-! ### Queries by path -/

/-- Whether the registration's node covers the directory. -/
def covers (t : Tree σ ε) (path : String) (r : Registration) : Bool :=
  (t.node? r.node).any (·.coversDirectory t.publisher path)

/-- Whether `path` is a directory. The root always is. -/
def isDirectory (t : Tree σ ε) (path : String) : Bool :=
  match Path.normalize path with
  | .error _ => false
  | .ok path => path == "/" || t.registrations.any (t.covers path)

/-- What one node knows of a directory: its names there, each with its kind. -/
def entriesOf (s : σ) (path : String) (n : Node σ ε) : List Entry :=
  (n.children s path).map fun name =>
    ⟨name, if n.matchesFile s (Path.join path name) then .file else .directory⟩

/-- Puts an entry into a listing. A name that any node serves as a file is a file. -/
def mergeEntry (merged : NameMap FileKind) (e : Entry) : NameMap FileKind :=
  merged.alter e.name fun
    | none => e.kind
    | some kind => kind.merge e.kind

/-- The listing of a directory: the names all nodes know of it, in order. -/
def list (t : Tree σ ε) (path : String) : Except Fault (List Entry) :=
  match Path.normalize path with
  | .error fault => .error fault
  | .ok path =>
    let nodes := (t.registrations.filter (t.covers path)).filterMap (fun r => t.node? r.node)
    if nodes.isEmpty && path != "/" then .error (.notFound path)
    else
      let entries := nodes.flatMap (entriesOf t.publisher path)
      .ok ((entries.foldl mergeEntry []).map fun (name, kind) => ⟨name, kind⟩)

/-- The attributes of a path. A path that a node claims as a file is a file, even if it is a
directory of another node. -/
def stat (t : Tree σ ε) (path : String) : Except Fault Attributes × Tree σ ε :=
  match Path.normalize path with
  | .error fault => (.error fault, t)
  | .ok path =>
    match t.owner? path with
    | some r =>
      match (t.noteOverlap path).sizeOn r.node path with
      | (.error fault, t) => (.error fault, t)
      | (.ok size, t) => (.ok (.file size (t.isWritableOn r.node path)), t)
    | none =>
      if t.isDirectory path then (.ok .directory, t) else (.error (.notFound path), t)

/-- Whether there is anything at the path. -/
def «exists» (t : Tree σ ε) (path : String) : Bool × Tree σ ε :=
  match t.stat path with
  | (.ok _, t) => (true, t)
  | (.error _, t) => (false, t)

/-- Resizes the file at the path. -/
def truncate (t : Tree σ ε) (path : String) (size : Nat) : Except Fault Unit × Tree σ ε :=
  match Path.normalize path with
  | .error fault => (.error fault, t)
  | .ok path =>
    match t.owner? path with
    | none => (.error (.notFound path), t)
    | some r => (t.noteOverlap path).resizeOn r.node path size

end LiveTree.Tree
