import LiveTree.Proofs.Reading
import LiveTree.Proofs.Sinks

/-!
# What a session sees

A session that reads sees one content, from its beginning to its end: what its node offered when it
was opened. Only where its reader waits for a change and is let through, it sees the announced value
from then on. `Sight` says this of a session through all that may happen meanwhile, the changes of
the publisher among them, and `reads_one_snapshot` that each read is a part of what `Sight` says.

It is enough to look at strokes: none but a reader that is let through changes what a session
sees, as long as the session is there (`Stroke.showing`); and no use begins a session on a node that
has one.
-/

namespace LiveTree

variable {σ ε : Type}

/-- What a key store gives to read is the value of the key, and nothing where there is none. -/
theorem KeyStore.content_of_permit {n : KeyStore σ} {s : σ} {path : String} {access : Access}
    {content : Bytes} (h : n.permit s path access = .ok content) (hread : access.read = true) :
    ∃ key, n.keyFor? s path = some key ∧ (n.get? key).getD #[] = content := by
  obtain ⟨⟨key, hkey⟩, -, hidle⟩ := permit_eq_ok h
  refine ⟨key, hkey, ?_⟩
  rcases hvalue : n.get? key with _ | value <;> rcases hwrite : access.write with _ | _ <;>
    simp_all [permit, requireKey_eq_ok.mpr hkey]

namespace Tree

variable [Foreign ε] {t t' : Tree σ ε} {ref other : NodeRef} {content : Bytes} {trace : Trace}
  {quiet : (σ → σ) → Prop} {free : NodeRef → Prop}

/-! ## What is shown -/

/-- The node's session may read, and sees the content. A read-write node knows of a value then. -/
def Showing (t : Tree σ ε) (ref : NodeRef) (content : Bytes) : Prop :=
  ∃ n access, t.node? ref = some n ∧ n.view? = some (content, access) ∧ access.read = true ∧
    ∀ m, n = .readWrite m → m.published.last.isSome = true

/-- The session goes on to see the content, or it has ended. -/
def Persists (t : Tree σ ε) (ref : NodeRef) (content : Bytes) : Prop :=
  t.Showing ref content ∨ t.busy ref = false

omit [Foreign ε] in
theorem Persists.of_node? (h : t.Persists ref content) (hsame : t'.node? ref = t.node? ref) :
    t'.Persists ref content := by
  unfold Persists Showing busy at h ⊢
  rwa [hsame]

omit [Foreign ε] in
/-- A node takes the place of one with the same session in sight. -/
theorem Persists.setNode {n m : Node σ ε} (h : t.Persists ref content)
    (hn : t.node? other = some n) (hview : m.view? = n.view?)
    (hlast : ∀ l, m = .readWrite l → ∃ k, n = .readWrite k ∧
      (k.published.last.isSome = true → l.published.last.isSome = true)) :
    (t.setNode other m).Persists ref content := by
  by_cases he : ref = other
  · subst he
    rcases h with ⟨n', access, hn', hsees, hread, hknown⟩ | hidle
    · rw [hn] at hn'
      cases hn'
      refine .inl ⟨m, access, node?_setNode_self m hn, hview.trans hsees, hread, ?_⟩
      intro l hl
      obtain ⟨k, hk, hkeeps⟩ := hlast l hl
      exact hkeeps (hknown k hk)
    · have hsession : m.session?.isSome = n.session?.isSome := by
        simpa [Node.view?] using congrArg Option.isSome hview
      right
      rw [busy_setNode_self m hn, hsession, ← busy_of_node? hn, hidle]
  · exact h.of_node? (node?_setNode_of_ne m he)

/-- What a stroke leaves of a session in sight: it is on another node, or leaves the session as it
is, or ends it. -/
theorem Stroke.persists (h : Stroke quiet free trace t t') (hbusy : ¬ free ref)
    (hwaits : (ref, Mark.caughtUp) ∉ trace) (hshown : t.Persists ref content) :
    t'.Persists ref content := by
  cases h with
  | rests nodes publisher => exact hshown.of_node? (by rw [node?, nodes, node?])
  | publishes h => exact hshown
  | supplies hn hp infos => exact hshown
  | @begins _ other n hn idle hfree path access content =>
      have he : ref ≠ other := fun he => hbusy (he ▸ hfree)
      exact hshown.of_node? (node?_startSession_of_ne t he path access content)
  | writes hn h =>
      obtain ⟨m, hw, rfl⟩ := writeNode_eq_ok hn h
      obtain ⟨session, inner, hs, hinner, rfl⟩ := ReadWrite.write_eq_ok hw
      obtain ⟨hsnapshot, haccess⟩ := Session.write_eq_ok hinner
      refine hshown.setNode hn ?_ ?_
      · simp [Node.view?, Node.session?, Session.view, hs, hsnapshot, haccess]
      · rintro l ⟨⟩
        exact ⟨_, rfl, id⟩
  | cuts hn hw h =>
      obtain ⟨m, hr, rfl⟩ := resizeOn_eq_ok hn hw h
      obtain ⟨session, inner, hs, hinner, rfl, -⟩ | ⟨-, hcontent⟩ := ReadWrite.resize_eq_ok hr
      · obtain ⟨hsnapshot, haccess⟩ := Session.truncate_eq_ok hinner
        refine hshown.setNode hn ?_ ?_
        · simp [Node.view?, Node.session?, Session.view, hs, hsnapshot, haccess]
        · rintro l ⟨⟩
          exact ⟨_, rfl, id⟩
      · cases hcontent
  | clears hn hw hfile =>
      rw [resizeOn_of_clear hn hw hfile]
      exact hshown
  | @closes _ other busy =>
      by_cases he : ref = other
      · right
        simp [busy_closeNode, he]
      · exact hshown.of_node? (node?_closeNode_of_ne t he)
  | announces hn h =>
      obtain ⟨-, rfl⟩ := ReadWrite.announce?_eq_some h
      refine hshown.setNode hn rfl ?_
      rintro l ⟨⟩
      exact ⟨_, rfl, fun _ => rfl⟩
  | @wakes _ other n m ticket hn h =>
      have he : ref ≠ other := by
        rintro rfl
        exact hwaits List.mem_cons_self
      exact hshown.of_node? (node?_setNode_of_ne _ he)
  | keys hn h same => exact hshown.setNode hn same (by simp)
  | foreign hn e' => exact hshown.setNode hn rfl (by simp)

theorem Strokes.persists (h : Strokes quiet free trace t t') (hbusy : ¬ free ref)
    (hwaits : (ref, Mark.caughtUp) ∉ trace) (hshown : t.Persists ref content) :
    t'.Persists ref content := by
  induction h with
  | none t => exact hshown
  | more _ hlast ih =>
      rw [List.mem_append, not_or] at hwaits
      exact hlast.persists hbusy hwaits.2 (ih hwaits.1 hshown)

/-- A use in which the session's reader is not let through leaves the session what it sees, or ends
it. -/
theorem showing_use (h : t.Showing ref content) (u : Use σ)
    (hwaits : (ref, Mark.caughtUp) ∉ t.deedsOfUse u) (hopen : (t.use u).busy ref = true) :
    (t.use u).Showing ref content := by
  have hcourse : Course (fun _ => True) (fun ref => t.busy ref = false) _ t (t.use u) :=
    course_use t u (.of_all (fun _ => trivial) u) (fun _ => id)
  obtain ⟨trace, hstrokes, hdeeds⟩ := hcourse
  have hbusy : ¬ t.busy ref = false := by
    obtain ⟨n, access, hn, hview, -⟩ := h
    have hsome : n.session?.isSome = true := by
      simpa [Node.view?] using congrArg Option.isSome hview
    simp [busy_of_node? hn, hsome]
  have hwaits' : (ref, Mark.caughtUp) ∉ trace := by
    rw [← hdeeds] at hwaits
    simpa [Trace.deeds] using hwaits
  rcases hstrokes.persists hbusy hwaits' (.inl h) with hshown | hidle
  · exact hshown
  · rw [hidle] at hopen
    cases hopen

/-! ## What is offered -/

/-- What a session for reading of the path would begin with: what the provider supplies now, or the
value of the key. -/
def offered? (t : Tree σ ε) (ref : NodeRef) (path : String) : Option Bytes :=
  match t.node? ref with
  | some (.readOnly n) => (t.provide n.provider).1.toOption
  | some (.readWrite n) => (t.provide n.provider).1.toOption
  | some (.keyStore n) => (n.keyFor? t.publisher path).map fun key => (n.get? key).getD #[]
  | _ => none

/-- A session that is granted to read sees what was offered. -/
theorem showing_openNode {path : String} {access : Access} {n : Node σ ε}
    (hn : t.node? ref = some n) (hb : n.IsBuiltIn) (hread : access.read = true)
    (h : t.openNode ref path access = (.ok (), t')) :
    ∃ content, t.offered? ref path = some content ∧ t'.Showing ref content := by
  obtain ⟨n', source, fetched, content, hn', hp, hf, rfl⟩ := openNode_eq_ok h
  rw [hn] at hn'
  cases hn'
  have hkept : fetched.node? ref = some n := node?_fetch_of_permit hb hn hp hf
  refine ⟨content, ?_, _, access, node?_startSession_self hkept path access content, ?_, hread, ?_⟩
  · unfold offered?
    rw [hn]
    cases n with
    | readOnly n =>
        obtain ⟨-, -, -, rfl⟩ := ReadOnly.permit_eq_ok hp
        have hsupplied : t.provide n.provider = (.ok content, fetched) := hf
        simp [hsupplied, Except.toOption]
    | readWrite n =>
        obtain ⟨-, -, -, rfl⟩ := ReadWrite.permit_eq_ok hp
        rw [if_pos hread] at hf
        have hsupplied : t.provide n.provider = (.ok content, fetched) := hf
        simp [hsupplied, Except.toOption]
    | keyStore n =>
        obtain ⟨held, hheld, rfl⟩ := map_eq_ok.mp hp
        cases hf
        obtain ⟨key, hkey, hcontent⟩ := KeyStore.content_of_permit hheld hread
        simp [hkey, hcontent]
    | foreign e removals => exact hb.elim
  · cases n with
    | readOnly n => rfl
    | readWrite n => rfl
    | keyStore n =>
        obtain ⟨held, hheld, rfl⟩ := map_eq_ok.mp hp
        cases hf
        obtain ⟨key, hkey, -⟩ := KeyStore.content_of_permit hheld hread
        simp [Node.begin, KeyStore.begin, hkey, Node.view?, Node.session?, Session.view]
    | foreign e removals => exact hb.elim
  · intro m hm
    cases n with
    | readWrite n =>
        cases hm
        simp [ReadWrite.begin, hread]
    | _ => cases hm

/-! ## What a session sees -/

/-- By the use a reader that waits on the node is let through. -/
def LetsThrough (t : Tree σ ε) (u : Use σ) (ref : NodeRef) : Prop :=
  ∃ p t', u = .through (.look p) ∧ p.node = ref ∧ t.wake? p = some (.ok (), t')

/-- What the session of the node sees, from its beginning on and while it is there. -/
inductive Sight (ref : NodeRef) : Bytes → Tree σ ε → Prop where
  /-- It begins with what is offered. -/
  | opened {t t' : Tree σ ε} {path : String} {access : Access} {content : Bytes}
      (h : t.openNode ref path access = (.ok (), t')) (hread : access.read = true)
      (hoffered : t.offered? ref path = some content) : Sight ref content t'
  /-- So it does when the file is opened by its path. -/
  | handed {t t' : Tree σ ε} {path canonical : String} {access : Access} {r : Registration}
      {handle : Handle} {content : Bytes} (hpath : Path.normalize path = .ok canonical)
      (howner : t.owner? canonical = some r) (hnode : r.node = ref)
      (h : t.openFile path access = (.ok handle, t')) (hread : access.read = true)
      (hoffered : (t.noteOverlap canonical).offered? ref canonical = some content) :
      Sight ref content t'
  /-- It goes on to see this whatever is done, as long as it does not end. -/
  | goesOn {t : Tree σ ε} {content : Bytes} {u : Use σ} (h : Sight ref content t)
      (hwaits : ¬ t.LetsThrough u ref) (hopen : (t.use u).busy ref = true) :
      Sight ref content (t.use u)
  /-- Its reader is let through, and it sees the last value known. -/
  | catchesUp {t : Tree σ ε} {old content : Bytes} {u : Use σ} {n : ReadWrite σ}
      (h : Sight ref old t) (hlet : t.LetsThrough u ref)
      (hn : t.node? ref = some (.readWrite n)) (hlast : n.published.last = some content) :
      Sight ref content (t.use u)

/-! ### Who is let through -/

/-- A reader is let through only when it looks. -/
theorem letsThrough_of_mem {u : Use σ} (h : (ref, Mark.caughtUp) ∈ t.deedsOfUse u) :
    t.LetsThrough u ref := by
  rcases mem_deedsOfUse h with hplain | ⟨-, access, hopened⟩ | ⟨value, -, hannounced⟩ |
    ⟨p, t', rfl, hwake, he⟩
  · exact hplain.elim
  · cases hopened
  · cases hannounced
  · exact ⟨p, t', rfl, (congrArg Prod.fst he).symm, hwake⟩

/-! ### Through all that happens -/

/-- Only built-in nodes offer anything. -/
theorem isBuiltIn_of_offered? {path : String} (h : t.offered? ref path = some content) :
    ∃ n, t.node? ref = some n ∧ n.IsBuiltIn := by
  rcases hn : t.node? ref with _ | n
  · simp [offered?, hn] at h
  · refine ⟨n, rfl, ?_⟩
    cases n with
    | foreign e removals => simp [offered?, hn] at h
    | _ => trivial

theorem showing_of_offered? {path : String} {access : Access}
    (hoffered : t.offered? ref path = some content) (hread : access.read = true)
    (h : t.openNode ref path access = (.ok (), t')) : t'.Showing ref content := by
  obtain ⟨n, hn, hb⟩ := isBuiltIn_of_offered? hoffered
  obtain ⟨seen, hseen, hshown⟩ := showing_openNode hn hb hread h
  rw [hoffered] at hseen
  cases hseen
  exact hshown

/-- A reader that is let through leaves its session with the last value known. -/
theorem showing_of_letsThrough {old : Bytes} (h : t.Showing ref old) {u : Use σ}
    (hlet : t.LetsThrough u ref) : ∃ n value, t.node? ref = some (.readWrite n) ∧
      n.published.last = some value ∧ (t.use u).Showing ref value := by
  obtain ⟨p, t', rfl, rfl, hw⟩ := hlet
  have hlook : t.use (.through (.look p)) = t' := by
    show t.look p = _
    simp only [look, finish?, hw]
  obtain ⟨n, m, hn, hwake, rfl⟩ := wake?_eq_ok hw
  obtain ⟨session, hs, rfl⟩ := ReadWrite.wake?_eq_ok hwake
  obtain ⟨n', access, hn', hview, hread, hknown⟩ := h
  rw [hn] at hn'
  cases hn'
  obtain ⟨value, hvalue⟩ := Option.isSome_iff_exists.mp (hknown n rfl)
  have haccess : session.inner.access = access := by
    simp only [Node.view?, Node.session?, hs, Option.map_some, Option.some.injEq, Session.view,
      Prod.mk.injEq] at hview
    exact hview.2
  refine ⟨n, value, hn, hvalue, ?_⟩
  rw [hlook]
  refine ⟨_, access, node?_setNode_self _ hn, ?_, hread, ?_⟩
  · simp [Node.view?, Node.session?, Session.view, hvalue, haccess]
  · rintro l ⟨⟩
    exact hknown n rfl

/-- A session sees what `Sight` says. -/
theorem Sight.showing (h : Sight ref content t) : t.Showing ref content := by
  induction h with
  | opened h hread hoffered => exact showing_of_offered? hoffered hread h
  | handed hpath howner hnode h hread hoffered =>
      obtain ⟨canonical, r, opened, hpath', howner', hopen, -, rfl⟩ := openFile_eq_ok h
      rw [hpath] at hpath'
      cases hpath'
      rw [howner] at howner'
      cases howner'
      subst hnode
      have hshown : opened.Showing _ _ := showing_of_offered? hoffered hread hopen
      exact hshown
  | goesOn h hwaits hopen ih =>
      exact showing_use ih _ (fun hmem => hwaits (letsThrough_of_mem hmem)) hopen
  | catchesUp h hlet hn hlast ih =>
      obtain ⟨n, value, hn', hvalue, hshown⟩ := showing_of_letsThrough ih hlet
      rw [hn] at hn'
      cases hn'
      rw [hlast] at hvalue
      cases hvalue
      exact hshown

/-! ## How often providers run -/

/-- The node, if it has a provider and is asked so. -/
def asked (t : Tree σ ε) (ref : NodeRef) (asks : Node σ ε → Bool) : List NodeRef :=
  if (t.node? ref).any (fun n => n.provider?.isSome && asks n) then [ref] else []

/-- An open runs the provider if it is for reading and the node permits it. -/
def runsOfOpen (t : Tree σ ε) (ref : NodeRef) (path : String) (access : Access) : List NodeRef :=
  t.asked ref fun n => access.read && (n.permit t.publisher path access).isOk

/-- A size query runs the provider if it is for the node's file. -/
def runsOfSize (t : Tree σ ε) (ref : NodeRef) (path : String) : List NodeRef :=
  t.asked ref fun n => n.matchesFile t.publisher path

/-- What is said of the node that serves the path. -/
def atOwner (t : Tree σ ε) (path : String) (runs : NodeRef → String → List NodeRef) :
    List NodeRef :=
  match Path.normalize path with
  | .error _ => []
  | .ok path =>
    match t.owner? path with
    | none => []
    | some r => runs r.node path

/-- The nodes whose providers a use runs. -/
def runsOfUse (t : Tree σ ε) : Use σ → List NodeRef
  | .opens ref path access => t.runsOfOpen ref path access
  | .sizes ref path => t.runsOfSize ref path
  | .through (.openFile path access) => t.atOwner path (t.runsOfOpen · · access)
  | .through (.readAll path) => t.atOwner path (t.runsOfOpen · · .reading)
  | .through (.stat path) => t.atOwner path t.runsOfSize
  | .through (.notify ref) => t.asked ref fun n => n.kind == .readWrite
  | _ => []

theorem runs_deedsOfOpen (t : Tree σ ε) (ref : NodeRef) (path : String) (access : Access) :
    (t.deedsOfOpen ref path access).runs = t.runsOfOpen ref path access := by
  -- that a session begins is not the run of a provider
  have hopened : ∀ c : Bool, Trace.runs (if c then [(ref, .opened access)] else []) = [] := by
    rintro ⟨⟩ <;> rfl
  unfold deedsOfOpen runsOfOpen asked
  rcases hn : t.node? ref with _ | n
  · rfl
  · dsimp only
    rcases hp : n.permit t.publisher path access with fault | source
    · simp [hp, Except.isOk, Except.toBool]
    · dsimp only
      rw [Trace.runs_append, hopened, List.append_nil]
      rcases hread : access.read <;> rcases hprovider : n.provider? <;>
        simp [hp, hprovider, Except.isOk, Except.toBool, Trace.runs, Mark.supplier?]

theorem runs_deedsOfSize (t : Tree σ ε) (ref : NodeRef) (path : String) :
    (t.deedsOfSize ref path).runs = t.runsOfSize ref path := by
  unfold deedsOfSize runsOfSize asked
  rcases hn : t.node? ref with _ | n
  · rfl
  · cases n with
    | readOnly n =>
        rcases hm : n.location.matchesFile t.publisher path <;>
          simp [hm, Node.provider?, Node.matchesFile, Trace.runs, Mark.supplier?]
    | readWrite n =>
        rcases hm : n.location.matchesFile t.publisher path <;>
          simp [hm, Node.provider?, Node.matchesFile, Trace.runs, Mark.supplier?]
    | _ => simp [Node.provider?]

theorem runs_deedsOfNotify (t : Tree σ ε) (ref : NodeRef) :
    (t.deedsOfNotify ref).runs = t.asked ref fun n => n.kind == .readWrite := by
  unfold deedsOfNotify asked
  rcases hn : t.node? ref with _ | n
  · rfl
  · cases n with
    | readWrite n =>
        dsimp only
        split <;> simp [Node.provider?, Node.kind, Trace.runs, Mark.supplier?]
    | _ => simp [Node.provider?, Node.kind]

theorem runs_deedsOfOpenFile (t : Tree σ ε) (path : String) (access : Access) :
    (t.deedsOfOpenFile path access).runs = t.atOwner path (t.runsOfOpen · · access) := by
  unfold deedsOfOpenFile atOwner
  rcases Path.normalize path with fault | path
  · rfl
  · dsimp only
    rcases t.owner? path with _ | r
    · rfl
    · dsimp only
      rw [runs_deedsOfOpen]
      simp [runsOfOpen, asked]

theorem runs_deedsOfStat (t : Tree σ ε) (path : String) :
    (t.deedsOfStat path).runs = t.atOwner path t.runsOfSize := by
  unfold deedsOfStat atOwner
  rcases Path.normalize path with fault | path
  · rfl
  · dsimp only
    rcases t.owner? path with _ | r
    · rfl
    · dsimp only
      rw [runs_deedsOfSize]
      simp [runsOfSize, asked]

omit [Foreign ε] in
@[simp] theorem runs_deedsOfWrite (t : Tree σ ε) (ref : NodeRef) (offset : Nat) (data : Bytes) :
    (t.deedsOfWrite ref offset data).runs = [] := by
  unfold deedsOfWrite
  repeat' split
  all_goals rfl

omit [Foreign ε] in
@[simp] theorem runs_deedsOfHandleWrite (t : Tree σ ε) (h : Handle) (offset : Nat) (data : Bytes) :
    (t.deedsOfHandleWrite h offset data).runs = [] := by
  unfold deedsOfHandleWrite
  repeat' split
  all_goals simp

omit [Foreign ε] in
@[simp] theorem runs_deedsOfResize (t : Tree σ ε) (ref : NodeRef) (path : String) (size : Nat) :
    (t.deedsOfResize ref path size).runs = [] := by
  unfold deedsOfResize
  repeat' split
  all_goals rfl

/-- To write, no provider is run. -/
theorem runs_deedsOfWriteAll (t : Tree σ ε) (path : String) (data : Bytes) :
    (t.deedsOfWriteAll path data).runs = [] := by
  have hopen : (t.deedsOfOpenFile path .writing).runs = [] := by
    rw [runs_deedsOfOpenFile]
    unfold atOwner
    repeat' split
    all_goals simp [runsOfOpen, asked, Access.writing]
  unfold deedsOfWriteAll
  rw [Trace.runs_append, hopen]
  split <;> simp

theorem runs_deedsOfTruncate (t : Tree σ ε) (path : String) (size : Nat) :
    (t.deedsOfTruncate path size).runs = [] := by
  unfold deedsOfTruncate
  repeat' split
  all_goals simp

/-- Of the deeds of a use the runs of providers are those it is known for. -/
theorem runs_deedsOfUse (t : Tree σ ε) (u : Use σ) : (t.deedsOfUse u).runs = t.runsOfUse u := by
  cases u with
  | through a =>
      cases a with
      | openFile path access => exact runs_deedsOfOpenFile t path access
      | readAll path => exact runs_deedsOfOpenFile t path .reading
      | stat path => exact runs_deedsOfStat t path
      | «notify» ref => exact runs_deedsOfNotify t ref
      | write h offset data => exact runs_deedsOfHandleWrite t h offset data
      | writeAll path data => exact runs_deedsOfWriteAll t path data
      | truncate path size => exact runs_deedsOfTruncate t path size
      | look p =>
          simp only [deedsOfUse, deedsOf, deedsOfLook]
          split <;> rfl
      | _ => rfl
  | opens ref path access => exact runs_deedsOfOpen t ref path access
  | sizes ref path => exact runs_deedsOfSize t ref path
  | writes ref offset data => exact runs_deedsOfWrite t ref offset data
  | resizes ref path size => exact runs_deedsOfResize t ref path size
  | _ => rfl

/-- A use runs providers as it is known for, once each, and leaves them noting. -/
theorem supplied_use {calls : σ → List Call} (hnoted : t.Noted calls) {u : Use σ}
    (hquiet : u.Quiet (Call.Quiet calls)) : (t.use u).Noted calls ∧
      Call.supplies (calls (t.use u).publisher) =
        Call.supplies (calls t.publisher) ++ t.runsOfUse u := by
  have hcourse : Course (Call.Quiet calls) (fun _ => True) _ t (t.use u) :=
    course_use t u hquiet (fun _ _ => trivial)
  obtain ⟨trace, hstrokes, hdeeds⟩ := hcourse
  refine ⟨hnoted.moves hstrokes.moves, ?_⟩
  rw [hstrokes.supplied hnoted, ← runs_deedsOfUse, ← hdeeds, Trace.runs_deeds]

/-! ## Isolation -/

/-- What is read of a node that shows a content is that part of it. -/
theorem Showing.read (h : t.Showing ref content) (offset size : Nat) :
    (t.nodeReader ref).read offset size = .ok (content.slice offset size) := by
  obtain ⟨n, access, hn, hview, hread, -⟩ := h
  obtain ⟨session, hs, hsession⟩ := Option.map_eq_some_iff.mp hview
  cases hsession
  have hreads := Node.read_of_session? hs offset size
  rw [Session.read, if_pos hread] at hreads
  unfold nodeReader
  rw [hn]
  exact hreads

theorem Showing.shows (h : t.Showing ref content) : (t.nodeReader ref).Shows content :=
  fun offset size => ⟨size, h.read offset size, Nat.le_refl _, fun _ hsize => hsize⟩

/-- What a session reads is fixed when it begins, whatever happens meanwhile. It is what its node
offered to it then; all that is read of the node, and through its handles, is a part of it, until
the session ends. Only if the session's reader waits and is let through, the last known value takes
its place.

And providers run when a file is opened to read and the node permits it, when its size is asked for
and when the node is to announce its value: once each time, and never else. -/
theorem reads_one_snapshot (t : Tree σ ε) (ref : NodeRef) :
    (∀ content, Sight ref content t →
      (∀ offset size, (t.nodeReader ref).read offset size = .ok (content.slice offset size)) ∧
      ∀ h o, t.handle? h = some o → o.node = ref →
        (∀ offset size, t.read h offset size = .ok (content.slice offset size)) ∧
        ∀ position, t.drain h position = .ok (content.slice position content.size)) ∧
    (∀ n path access t', t.node? ref = some n → n.IsBuiltIn → access.read = true →
      t.openNode ref path access = (.ok (), t') →
      ∃ content, t.offered? ref path = some content ∧ Sight ref content t') ∧
    (∀ path access handle t', access.read = true → t.openFile path access = (.ok handle, t') →
      ∃ q r, Path.normalize path = .ok q ∧ t.owner? q = some r ∧
        ∀ n, t.node? r.node = some n → n.IsBuiltIn →
          ∃ content, (t.noteOverlap q).offered? r.node q = some content ∧
            Sight r.node content t') ∧
    (∀ content u, Sight ref content t → (t.use u).busy ref = true →
      ¬ t.LetsThrough u ref ∧ Sight ref content (t.use u) ∨
      t.LetsThrough u ref ∧ ∃ n value, t.node? ref = some (.readWrite n) ∧
        n.published.last = some value ∧ Sight ref value (t.use u)) ∧
    (∀ (calls : σ → List Call) u, t.Noted calls → u.Quiet (Call.Quiet calls) →
      (t.use u).Noted calls ∧ Call.supplies (calls (t.use u).publisher) =
        Call.supplies (calls t.publisher) ++ t.runsOfUse u) := by
  refine ⟨?_, ?_, ?_, ?_, ?_⟩
  · intro content hsight
    have hshows := hsight.showing.shows
    refine ⟨hsight.showing.read, ?_⟩
    rintro h o ho rfl
    have hreader : t.reader h = t.nodeReader o.node := by simp only [reader, ho]
    refine ⟨?_, ?_⟩
    · intro offset size
      rw [read, hreader]
      exact hshows.upTo offset size
    · intro position
      rw [drain, hreader]
      exact hshows.drain position
  · intro n path access t' hn hb hread h
    obtain ⟨content, hoffered, -⟩ := showing_openNode hn hb hread h
    exact ⟨content, hoffered, .opened h hread hoffered⟩
  · intro path access handle t' hread h
    obtain ⟨q, r, opened, hq, hr, hopen, -, -⟩ := openFile_eq_ok h
    refine ⟨q, r, hq, hr, ?_⟩
    intro n hn hb
    obtain ⟨content, hoffered, -⟩ :=
      showing_openNode ((node?_noteOverlap t q r.node).trans hn) hb hread hopen
    exact ⟨content, hoffered, .handed hq hr rfl h hread hoffered⟩
  · intro content u hsight hopen
    by_cases hlet : t.LetsThrough u ref
    · obtain ⟨n, value, hn, hvalue, -⟩ := showing_of_letsThrough hsight.showing hlet
      exact .inr ⟨hlet, n, value, hn, hvalue, .catchesUp hsight hlet hn hvalue⟩
    · exact .inl ⟨hlet, .goesOn hsight hlet hopen⟩
  · intro calls u hnoted hquiet
    exact supplied_use hnoted hquiet

/-- A file that stands for the publisher's state. -/
def waterline : ReadWrite Bytes where
  location := ⟨.fixed "/sea", "level", by decide⟩
  provider := { supply := fun _ s => (.ok s, s) }
  sink content _ := (.ok (), content)

def pier : Tree Bytes Empty where
  publisher := #[1]
  nodes := [.readWrite waterline]
  registrations := [⟨⟨1⟩, ⟨0⟩⟩]
  nextId := 2

def comes : Use (Bytes × List Call) := .through (.openFile "/sea/level" .reading)

def rises : Use (Bytes × List Call) := .through (.publish fun s => (#[2], s.2))

def rings : Use (Bytes × List Call) := .through (.notify ⟨0⟩)

def turns : Use (Bytes × List Call) := .through (.look ⟨⟨0⟩, ⟨1, 0⟩, .part 0 8⟩)

/-- A reader sees the old value when a new one is there, and when it is announced, and the new value
when it is let through. -/
theorem reads_one_snapshot_pier :
    Call.supplies (pier.noting.use comes).publisher.2 = [⟨0⟩] ∧
      (pier.noting.after [comes, rises, rings]).read ⟨1⟩ 0 8 = .ok #[1] ∧
      (pier.noting.after [comes, rises, rings, turns]).read ⟨1⟩ 0 8 = .ok #[2] := by
  obtain ⟨-, -, hopen, -, hruns⟩ := reads_one_snapshot pier.noting ⟨0⟩
  have hsupplied := (hruns Prod.snd comes pier.noted_noting trivial).2
  refine ⟨hsupplied.trans (by decide), ?_⟩
  -- the session begins
  have hopened : pier.noting.openFile "/sea/level" .reading = (.ok ⟨1⟩, pier.noting.use comes) :=
    rfl
  obtain ⟨q, r, hq, hr, hoffers⟩ := hopen _ _ _ _ rfl hopened
  obtain rfl : q = "/sea/level" := Except.ok.inj (hq.symm.trans rfl)
  obtain rfl : r = ⟨⟨1⟩, ⟨0⟩⟩ := Option.some.inj (hr.symm.trans (by decide))
  obtain ⟨content, hoffered, hbegun⟩ := hoffers _ rfl trivial
  obtain rfl : content = #[1] := Option.some.inj (hoffered.symm.trans (by decide))
  -- it goes on when the value rises, and when this is announced
  obtain ⟨-, -, -, hrises, -⟩ := reads_one_snapshot (pier.noting.use comes) ⟨0⟩
  obtain ⟨-, hhigh⟩ : _ ∧ Sight ⟨0⟩ #[1] (pier.noting.after [comes, rises]) :=
    (hrises _ rises hbegun (by decide)).resolve_right fun h => by
      obtain ⟨⟨p, t', hlook, -⟩, -⟩ := h
      cases hlook
  obtain ⟨-, -, -, hrings, -⟩ := reads_one_snapshot (pier.noting.after [comes, rises]) ⟨0⟩
  obtain ⟨-, hheard⟩ : _ ∧ Sight ⟨0⟩ #[1] (pier.noting.after [comes, rises, rings]) :=
    (hrings _ rings hhigh (by decide)).resolve_right fun h => by
      obtain ⟨⟨p, t', hlook, -⟩, -⟩ := h
      cases hlook
  obtain ⟨hreads, -, -, hturns, -⟩ :=
    reads_one_snapshot (pier.noting.after [comes, rises, rings]) ⟨0⟩
  refine ⟨((hreads _ hheard).2 ⟨1⟩ _ rfl rfl).1 0 8, ?_⟩
  -- and is let through
  obtain ⟨-, n, value, hn, hvalue, hseen⟩ := (hturns _ turns hheard (by decide)).resolve_left
    fun h => h.1 ⟨⟨⟨0⟩, ⟨1, 0⟩, .part 0 8⟩, _, rfl, rfl, rfl⟩
  obtain rfl : value = #[2] := by
    cases hn
    exact (Option.some.inj hvalue).symm
  obtain ⟨hsees, -⟩ := reads_one_snapshot (pier.noting.after [comes, rises, rings, turns]) ⟨0⟩
  exact ((hsees _ hseen).2 ⟨1⟩ _ rfl rfl).1 0 8

end Tree

end LiveTree
