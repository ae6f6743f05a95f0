import LiveTree.Proofs.Moves

/-!
# What a sink is handed

A caller of a read-write node cannot see when its sink is called. The publisher can: if its
providers and sinks keep a list of their calls (`Tree.Noted`), the list says afterwards what the
tree has called, in what order and with what contents, whether the calls failed or not. Every
publisher can be made to keep one (`Tree.noted_noting`).

What ought to be on that list is said on paper, from the marks of a run: `handed` follows the draft
of the open session, and notes its buffer when the session ends, if it was opened to write and
something was done to the buffer, and an empty content for each truncation past a session. Each
stroke makes the calls that it ought to (`Stroke.follows`) and leaves the session as the draft says
(`ReadWrite.Marked.draft`), so every run does (`Strokes.follows`, `sink_handed_outcomes`). The runs
of providers are on the list too (`Strokes.supplied`).

A list is not the only thing that may be kept. Whatever is seen of the publisher can be followed
through a run if every call changes it in a known way (`Follows`).
-/

namespace LiveTree

variable {σ ε : Type}

/-! ## Calls of the publisher -/

/-- A call of a provider or a sink. -/
inductive Call where
  | supply (node : NodeRef)
  | store (node : NodeRef) (content : Bytes)
deriving DecidableEq

namespace Call

/-- The node whose provider was run. -/
def supplier? : Call → Option NodeRef
  | .supply ref => some ref
  | .store _ _ => none

/-- What the sink of the node was handed. -/
def stored? (ref : NodeRef) : Call → Option Bytes
  | .store other content => if other = ref then some content else none
  | .supply _ => none

/-- The nodes whose providers were run, in order. -/
def supplies (calls : List Call) : List NodeRef := calls.filterMap supplier?

/-- What the sink of the node was handed, in order. -/
def stores (ref : NodeRef) (calls : List Call) : List Bytes := calls.filterMap (stored? ref)

/-- The publisher changes its state otherwise than by a provider or a sink. -/
def Quiet (calls : σ → List Call) (f : σ → σ) : Prop := ∀ s, calls (f s) = calls s

theorem supplies_append (calls more : List Call) :
    supplies (calls ++ more) = supplies calls ++ supplies more :=
  List.filterMap_append

theorem stores_append (ref : NodeRef) (calls more : List Call) :
    stores ref (calls ++ more) = stores ref calls ++ stores ref more :=
  List.filterMap_append

theorem stores_map_self (ref : NodeRef) (contents : List Bytes) :
    stores ref (contents.map (.store ref)) = contents := by
  simp [stores, stored?, List.filterMap_map, Function.comp_def]

theorem stores_map_of_ne {ref other : NodeRef} (h : other ≠ ref) (contents : List Bytes) :
    stores ref (contents.map (.store other)) = [] := by
  simp [stores, stored?, h]

theorem supplies_map_store (ref : NodeRef) (contents : List Bytes) :
    supplies (contents.map (.store ref)) = [] := by
  simp [supplies, supplier?]

end Call

/-- The sink of the node. -/
def Node.sink? : Node σ ε → Option (Sink σ)
  | .readWrite n => some n.sink
  | _ => none

/-- A node keeps its provider and its sink. -/
theorem Node.provider?_step {n m : Node σ ε} (h : Node.Step n m) :
    m.provider? = n.provider? ∧ m.sink? = n.sink? := by
  cases h with
  | readOnly h =>
      cases h with
      | begin s access content idle => exact ⟨rfl, rfl⟩
      | close h =>
          unfold ReadOnly.close at h
          split at h
          · cases h
          · cases h
            exact ⟨rfl, rfl⟩
  | readWrite h =>
      cases h with
      | begin s access content idle => exact ⟨rfl, rfl⟩
      | write h =>
          obtain ⟨session, inner, -, -, rfl⟩ := ReadWrite.write_eq_ok h
          exact ⟨rfl, rfl⟩
      | resize h =>
          obtain ⟨session, inner, -, -, rfl, -⟩ | ⟨rfl, -⟩ := ReadWrite.resize_eq_ok h <;>
            exact ⟨rfl, rfl⟩
      | close h =>
          obtain ⟨-, rfl⟩ := ReadWrite.close_eq_ok h
          exact ⟨rfl, rfl⟩
      | announce h =>
          obtain ⟨-, rfl⟩ := ReadWrite.announce?_eq_some h
          exact ⟨rfl, rfl⟩
      | wake h =>
          obtain ⟨session, -, rfl⟩ := ReadWrite.wake?_eq_ok h
          exact ⟨rfl, rfl⟩
      | rest n => exact ⟨rfl, rfl⟩
  | keyStore h => exact ⟨rfl, rfl⟩
  | foreign e e' removals => exact ⟨rfl, rfl⟩

namespace Tree

/-- What is seen of the publisher changes with each call of a provider or a sink as `after` says. -/
structure Follows {α : Type} (view : σ → α) (after : α → Call → α) (t : Tree σ ε) : Prop where
  supply : ∀ ref n p, t.node? ref = some n → n.provider? = some p → ∀ infos s,
    view (p.supply infos s).2 = after (view s) (.supply ref)
  store : ∀ ref n sink, t.node? ref = some n → n.sink? = some sink → ∀ content s,
    view (sink content s).2 = after (view s) (.store ref content)

/-- What the publisher does otherwise is not seen. -/
def Unseen {α : Type} (view : σ → α) (f : σ → σ) : Prop := ∀ s, view (f s) = view s

/-- Every provider and every sink notes its calls, whether they fail or not. -/
structure Noted (calls : σ → List Call) (t : Tree σ ε) : Prop where
  supply : ∀ ref n p, t.node? ref = some n → n.provider? = some p → ∀ infos s,
    calls (p.supply infos s).2 = calls s ++ [.supply ref]
  store : ∀ ref n sink, t.node? ref = some n → n.sink? = some sink → ∀ content s,
    calls (sink content s).2 = calls s ++ [.store ref content]

variable [Foreign ε] {calls : σ → List Call} {t t' : Tree σ ε}

omit [Foreign ε] in
theorem Noted.follows (h : t.Noted calls) : t.Follows calls fun made call => made ++ [call] :=
  ⟨h.supply, h.store⟩

omit [Foreign ε] in
/-- Nodes that move call what they called before. -/
theorem Moves.calls_same (hmoves : Moves t t') {ref : NodeRef} {m : Node σ ε}
    (hm : t'.node? ref = some m) :
    ∃ n, t.node? ref = some n ∧ m.provider? = n.provider? ∧ m.sink? = n.sink? := by
  have hrel := hmoves ref
  rw [hm] at hrel
  rcases hn : t.node? ref with _ | n
  · rw [hn] at hrel
    cases hrel
  · rw [hn] at hrel
    rcases hrel with hsteps | _
    refine ⟨n, rfl, ?_⟩
    clear hm
    induction hsteps with
    | refl => exact ⟨rfl, rfl⟩
    | tail _ hs ih =>
      obtain ⟨hprovider, hsink⟩ := Node.provider?_step hs
      exact ⟨hprovider.trans ih.1, hsink.trans ih.2⟩

omit [Foreign ε] in
/-- So what is seen follows the calls after whatever happens to the nodes. -/
theorem Follows.moves {α : Type} {view : σ → α} {after : α → Call → α} (h : t.Follows view after)
    (hmoves : Moves t t') : t'.Follows view after := by
  refine ⟨?_, ?_⟩
  · intro ref m p hm hp
    obtain ⟨n, hn, hprovider, -⟩ := hmoves.calls_same hm
    exact h.supply ref n p hn (hprovider.symm.trans hp)
  · intro ref m sink hm hsink
    obtain ⟨n, hn, -, hsame⟩ := hmoves.calls_same hm
    exact h.store ref n sink hn (hsame.symm.trans hsink)

omit [Foreign ε] in
/-- And the calls are noted. -/
theorem Noted.moves (h : t.Noted calls) (hmoves : Moves t t') : t'.Noted calls :=
  have hfollows := h.follows.moves hmoves
  ⟨hfollows.supply, hfollows.store⟩

end Tree

/-! ### Publishers that note -/

/-- The directory, whatever has been noted. -/
def Directory.noting : Directory σ → Directory (σ × List Call)
  | .fixed text => .fixed text
  | .moving text => .moving fun s => text s.1

def Location.noting (l : Location σ) : Location (σ × List Call) :=
  ⟨l.directory.noting, l.name, l.valid⟩

/-- The provider of the node, which notes each run. -/
def Provider.noting (ref : NodeRef) (p : Provider σ) : Provider (σ × List Call) where
  removals s := p.removals s.1
  supply infos s := ((p.supply infos s.1).1, (p.supply infos s.1).2, s.2 ++ [.supply ref])

/-- The sink of the node, which notes what it is handed. -/
def Sink.noting (ref : NodeRef) (sink : Sink σ) : Sink (σ × List Call) := fun content s =>
  ((sink content s.1).1, (sink content s.1).2, s.2 ++ [.store ref content])

def Node.noting (ref : NodeRef) : Node σ ε → Node (σ × List Call) ε
  | .readOnly n => .readOnly ⟨n.location.noting, n.provider.noting ref, n.session⟩
  | .readWrite n => .readWrite ⟨n.location.noting, n.provider.noting ref, Sink.noting ref n.sink,
      n.session, n.published, n.nextSession⟩
  | .keyStore n => .keyStore ⟨n.directory.noting, n.entries, n.session⟩
  | .foreign e removals => .foreign e fun s => removals s.1

/-- The tree over a publisher who notes, beside the state, what is called. -/
def Tree.noting (t : Tree σ ε) : Tree (σ × List Call) ε where
  settings := t.settings
  publisher := (t.publisher, [])
  nodes := t.nodes.mapIdx fun i n => n.noting ⟨i⟩
  registrations := t.registrations
  handles := t.handles
  nextId := t.nextId
  nextHandle := t.nextHandle
  log := t.log

/-- So every publisher can be made to note. -/
theorem Tree.noted_noting (t : Tree σ ε) : t.noting.Noted Prod.snd := by
  have hnode : ∀ ref m, t.noting.node? ref = some m → ∃ n : Node σ ε, m = n.noting ref := by
    intro ref m hm
    unfold node? noting at hm
    rw [List.getElem?_mapIdx] at hm
    obtain ⟨n, -, rfl⟩ := Option.map_eq_some_iff.mp hm
    exact ⟨n, rfl⟩
  refine ⟨?_, ?_⟩
  · intro ref m p hm hp infos s
    obtain ⟨n, rfl⟩ := hnode ref m hm
    cases n <;> cases hp <;> rfl
  · intro ref m sink hm hsink content s
    obtain ⟨n, rfl⟩ := hnode ref m hm
    cases n <;> cases hsink
    rfl

/-! ## On paper -/

/-- An open session as it is followed on paper. -/
structure ReadWrite.Draft where
  writes : Bool
  buffer : Bytes := #[]
  /-- Whether a write or a truncation has succeeded. -/
  touched : Bool := false

namespace ReadWrite.Draft

/-- The draft after what the mark says, if a session is open then. -/
def next (d : Option Draft) : Mark → Option Draft
  | .opened access => some { writes := access.write }
  | .wrote offset data =>
    d.map fun d => { d with buffer := d.buffer.overlay offset data, touched := true }
  | .cut size => d.map fun d => { d with buffer := d.buffer.take size, touched := true }
  | .closed => none
  | .supplied | .cleared | .announced _ | .caughtUp => d

/-- What the end of the session has to hand to the sink. -/
def outcome (d : Draft) : List Bytes := if d.writes && d.touched then [d.buffer] else []

/-- What has to be handed to the sink for the mark. -/
def due (d : Option Draft) : Mark → List Bytes
  | .closed => (d.map outcome).getD []
  | .cleared => [#[]]
  | _ => []

end ReadWrite.Draft

namespace ReadWrite

/-- What has to be handed to the sink for the marks, where the open session, if any, is as the draft
says. -/
def handed (d : Option Draft) : List Mark → List Bytes
  | [] => []
  | mark :: marks => Draft.due d mark ++ handed (Draft.next d mark) marks

theorem handed_append (d : Option Draft) (marks later : List Mark) :
    handed d (marks ++ later) = handed d marks ++ handed (marks.foldl Draft.next d) later := by
  induction marks generalizing d with
  | nil => rfl
  | cons mark marks ih => simp [handed, ih]

end ReadWrite

/-- The session as a draft. -/
def LiveSession.draft (s : LiveSession) : ReadWrite.Draft :=
  ⟨s.inner.access.write, s.inner.pending, s.inner.dirty⟩

/-- The open session as a draft. -/
def ReadWrite.draft? (n : ReadWrite σ) : Option ReadWrite.Draft := n.session.map LiveSession.draft

/-- What has happened to one node. -/
def Trace.marks (trace : Trace) (ref : NodeRef) : List Mark :=
  trace.filterMap fun e => if e.1 = ref then some e.2 else none

theorem Trace.marks_append (trace later : Trace) (ref : NodeRef) :
    Trace.marks (trace ++ later) ref = trace.marks ref ++ later.marks ref :=
  List.filterMap_append

theorem Trace.marks_self (ref : NodeRef) (mark : Mark) :
    Trace.marks [(ref, mark)] ref = [mark] := by
  simp [marks]

theorem Trace.marks_of_ne {ref other : NodeRef} (h : other ≠ ref) (mark : Mark) :
    Trace.marks [(other, mark)] ref = [] := by
  simp [marks, h]

/-! ## Sessions and drafts -/

theorem Session.write_eq {s s' : Session} {offset : Nat} {data : Bytes}
    (h : s.write offset data = .ok s') :
    s' = { s with pending := s.pending.overlay offset data, dirty := true } := by
  unfold write at h
  split at h
  · cases h
  · split at h
    · cases h
    · exact (Except.ok.inj h).symm

theorem Session.truncate_eq {s s' : Session} {size : Nat} (h : s.truncate size = .ok s') :
    s' = { s with pending := s.pending.take size, dirty := true } := by
  unfold truncate at h
  split at h
  · cases h
  · exact (Except.ok.inj h).symm

/-- What the end of a session commits is the outcome of its draft. -/
theorem LiveSession.outcome_draft (s : LiveSession) :
    s.draft.outcome = s.inner.commit?.toList := by
  unfold draft ReadWrite.Draft.outcome Session.commit?
  split <;> rfl

/-! ## Marks and nodes -/

namespace ReadWrite

/-- What the mark says of the node that it is on, before and after. -/
inductive Marked : ReadWrite σ → Mark → ReadWrite σ → Prop where
  | supplied (n : ReadWrite σ) : Marked n .supplied n
  | opened {n : ReadWrite σ} (idle : n.session = none) (s : σ) (access : Access)
      (content : Bytes) : Marked n (.opened access) (n.begin s access content)
  | wrote {n m : ReadWrite σ} {offset : Nat} {data : Bytes} (h : n.write offset data = .ok m) :
      Marked n (.wrote offset data) m
  | cut {n m : ReadWrite σ} {s : σ} {path : String} {size : Nat}
      (h : n.resize s path size = .ok (m, none)) : Marked n (.cut size) m
  | cleared (n : ReadWrite σ) : Marked n .cleared n
  | closed {n m : ReadWrite σ} {session : LiveSession} (h : n.close = .ok (session, m)) :
      Marked n .closed m
  | announced {n m : ReadWrite σ} {value : Bytes} (h : n.announce? value = some m) :
      Marked n (.announced value) m
  | caughtUp {n m : ReadWrite σ} {ticket : Ticket} (h : n.wake? ticket = some (.ok m)) :
      Marked n .caughtUp m

/-- What marks say, one after the other. -/
inductive MarkedBy : ReadWrite σ → List Mark → ReadWrite σ → Prop where
  | none (n : ReadWrite σ) : MarkedBy n [] n
  | more {n m l : ReadWrite σ} {marks : List Mark} {mark : Mark} : MarkedBy n marks m →
      Marked m mark l → MarkedBy n (marks ++ [mark]) l

/-- A mark leaves the session as the draft says. -/
theorem Marked.draft {n m : ReadWrite σ} {mark : Mark} (h : n.Marked mark m) :
    m.draft? = Draft.next n.draft? mark := by
  cases h with
  | supplied => rfl
  | opened idle s access content => rfl
  | wrote hw =>
      obtain ⟨session, inner, hs, hinner, rfl⟩ := write_eq_ok hw
      rw [Session.write_eq hinner]
      simp [draft?, hs, Draft.next, LiveSession.draft]
  | cut hr =>
      obtain ⟨session, inner, hs, hinner, rfl, -⟩ | ⟨-, hcontent⟩ := resize_eq_ok hr
      · rw [Session.truncate_eq hinner]
        simp [draft?, hs, Draft.next, LiveSession.draft]
      · cases hcontent
  | cleared => rfl
  | closed hc =>
      obtain ⟨-, rfl⟩ := close_eq_ok hc
      rfl
  | announced ha =>
      obtain ⟨-, rfl⟩ := announce?_eq_some ha
      rfl
  | caughtUp hw =>
      obtain ⟨session, hs, rfl⟩ := wake?_eq_ok hw
      simp [draft?, hs, Draft.next, LiveSession.draft]

theorem MarkedBy.draft {n m : ReadWrite σ} {marks : List Mark} (h : n.MarkedBy marks m) :
    m.draft? = marks.foldl Draft.next n.draft? := by
  induction h with
  | none => rfl
  | more _ hlast ih => rw [hlast.draft, ih, List.foldl_append, List.foldl_cons, List.foldl_nil]

end ReadWrite

namespace Tree

variable [Foreign ε] {calls : σ → List Call} {t t' : Tree σ ε} {free : NodeRef → Prop}
  {trace : Trace} {ref : NodeRef} {n : ReadWrite σ} {α : Type} {view : σ → α}
  {after : α → Call → α}

/-! ## One stroke -/

/-- What is handed to the sink when the session of the node ends. -/
def committed (t : Tree σ ε) (ref : NodeRef) : List Bytes :=
  match t.node? ref with
  | some (.readWrite n) => ReadWrite.Draft.due n.draft? .closed
  | _ => []

/-- The end of a session calls the sink once, or not at all. -/
theorem Follows.closeNode (h : t.Follows view after) (ref : NodeRef) :
    view (t.closeNode ref).2.publisher =
      ((t.committed ref).map (.store ref)).foldl after (view t.publisher) := by
  unfold committed
  rcases hn : t.node? ref with _ | n
  · simp [Tree.closeNode, hn]
  · cases n with
    | readOnly n =>
        rcases hc : n.close with fault | ⟨session, m⟩ <;> simp [Tree.closeNode, hn, hc]
    | keyStore n =>
        rcases hc : n.close with fault | ⟨session, m⟩ <;> simp [Tree.closeNode, hn, hc]
    | foreign e removals => simp [Tree.closeNode, hn]
    | readWrite n =>
        rcases hs : n.session with _ | session
        · simp [Tree.closeNode, hn, ReadWrite.close, hs, ReadWrite.draft?, ReadWrite.Draft.due]
        · have hdue : ReadWrite.Draft.due n.draft? .closed = session.inner.commit?.toList := by
            rw [← LiveSession.outcome_draft]
            simp [ReadWrite.draft?, hs, ReadWrite.Draft.due]
          dsimp only
          rw [hdue]
          rcases hc : session.inner.commit? with _ | content
          · simp [Tree.closeNode, hn, ReadWrite.close, hs, hc]
          · have hstore := h.store ref _ n.sink hn rfl content t.publisher
            rcases hsink : n.sink content t.publisher with ⟨failure | ⟨⟩, s⟩ <;>
              rw [hsink] at hstore <;>
              simpa [Tree.closeNode, hn, ReadWrite.close, hs, hc, hsink] using hstore

omit [Foreign ε] in
/-- A mark for which nothing is due, wherever it stands. -/
theorem handed_marks {d : Option ReadWrite.Draft} {mark : Mark}
    (hdue : ReadWrite.Draft.due d mark = []) (other ref : NodeRef) :
    ReadWrite.handed d (Trace.marks [(other, mark)] ref) = [] := by
  by_cases he : other = ref
  · rw [he, Trace.marks_self]
    simp [ReadWrite.handed, hdue]
  · rw [Trace.marks_of_ne he]
    rfl

/-- From `t` on, these are the runs of providers that the trace tells, and what is due to the sinks.
-/
def Due (t : Tree σ ε) (trace : Trace) (made : List Call) : Prop :=
  Call.supplies made = trace.runs ∧ ∀ ref n, t.node? ref = some (.readWrite n) →
    Call.stores ref made = ReadWrite.handed n.draft? (trace.marks ref)

/-- In a stroke just these calls are made. -/
theorem Stroke.follows (hfollows : t.Follows view after)
    (h : Stroke (Unseen view) free trace t t') :
    ∃ made, t.Due trace made ∧ view t'.publisher = made.foldl after (view t.publisher) := by
  -- most strokes leave the publisher alone
  have hunmarked : ∀ {t' : Tree σ ε}, view t'.publisher = view t.publisher →
      ∃ made, t.Due [] made ∧ view t'.publisher = made.foldl after (view t.publisher) :=
    fun hsame => ⟨[], ⟨rfl, fun _ _ _ => rfl⟩, hsame⟩
  have hstill : ∀ {other : NodeRef} {mark : Mark} {t' : Tree σ ε}, t'.publisher = t.publisher →
      (∀ d, ReadWrite.Draft.due d mark = []) → Trace.runs [(other, mark)] = [] →
      ∃ made, t.Due [(other, mark)] made ∧
        view t'.publisher = made.foldl after (view t.publisher) := by
    intro other mark t' hsame hdue hruns
    refine ⟨[], ⟨hruns.symm, ?_⟩, by rw [hsame, List.foldl_nil]⟩
    intro ref n _
    rw [handed_marks (hdue _)]
    rfl
  cases h with
  | rests nodes publisher => exact hunmarked (by rw [publisher])
  | publishes h => exact hunmarked (h _)
  | @supplies _ ref n p hn hp infos =>
      refine ⟨[.supply ref], ⟨rfl, ?_⟩, hfollows.supply ref n p hn hp infos _⟩
      intro other m _
      rw [handed_marks rfl]
      rfl
  | begins hn idle hfree path access content =>
      exact hstill (publisher_startSession ..) (fun _ => rfl) rfl
  | writes hn h =>
      obtain ⟨m, -, rfl⟩ := writeNode_eq_ok hn h
      exact hstill rfl (fun _ => rfl) rfl
  | cuts hn hw h =>
      obtain ⟨m, -, rfl⟩ := resizeOn_eq_ok hn hw h
      exact hstill rfl (fun _ => rfl) rfl
  | @clears _ ref n path hn hw hfile =>
      rw [resizeOn_of_clear hn hw hfile]
      refine ⟨[.store ref #[]], ⟨rfl, ?_⟩, hfollows.store ref _ n.sink hn rfl #[] _⟩
      intro other m _
      by_cases he : ref = other
      · rw [he, Trace.marks_self]
        simp [Call.stores, Call.stored?, ReadWrite.handed, ReadWrite.Draft.due]
      · rw [Trace.marks_of_ne he]
        simp [Call.stores, Call.stored?, he, ReadWrite.handed]
  | @closes _ ref busy =>
      refine ⟨_, ⟨Call.supplies_map_store ref _, ?_⟩, hfollows.closeNode ref⟩
      intro other m hm
      by_cases he : ref = other
      · subst he
        rw [Trace.marks_self, Call.stores_map_self]
        simp [committed, hm, ReadWrite.handed]
      · rw [Trace.marks_of_ne he, Call.stores_map_of_ne he]
        rfl
  | announces hn h => exact hstill rfl (fun _ => rfl) rfl
  | wakes hn h => exact hstill rfl (fun _ => rfl) rfl
  | keys hn h same => exact hunmarked rfl
  | foreign hn e' => exact hunmarked rfl

/-- A stroke on a read-write node does what its mark says, and one elsewhere leaves it alone. -/
theorem Stroke.marked {quiet : (σ → σ) → Prop} (h : Stroke quiet free trace t t')
    (hn : t.node? ref = some (.readWrite n)) :
    ∃ m, t'.node? ref = some (.readWrite m) ∧
      (trace.marks ref = [] ∧ m = n ∨ ∃ mark, trace.marks ref = [mark] ∧ n.Marked mark m) := by
  -- the stroke has no mark, or it is on another node
  have hunmarked : t'.node? ref = t.node? ref → trace.marks ref = [] →
      ∃ m, t'.node? ref = some (.readWrite m) ∧
        (trace.marks ref = [] ∧ m = n ∨ ∃ mark, trace.marks ref = [mark] ∧ n.Marked mark m) :=
    fun hsame hmarks => ⟨n, hsame.trans hn, .inl ⟨hmarks, rfl⟩⟩
  -- it is on this one
  have hhere : ∀ {m : ReadWrite σ} {mark : Mark} {t' : Tree σ ε},
      t'.node? ref = some (.readWrite m) → n.Marked mark m →
      ∃ m, t'.node? ref = some (.readWrite m) ∧ (Trace.marks [(ref, mark)] ref = [] ∧ m = n ∨
        ∃ mark', Trace.marks [(ref, mark)] ref = [mark'] ∧ n.Marked mark' m) :=
    fun hm hmark => ⟨_, hm, .inr ⟨_, Trace.marks_self ref _, hmark⟩⟩
  -- which can be seen by the node
  have hplace : ∀ {other : NodeRef} {m : Node σ ε}, t.node? other = some m →
      ref ≠ other ∨ ref = other ∧ m = .readWrite n := by
    intro other m hm
    refine (eq_or_ne ref other).symm.imp_right fun he => ?_
    subst he
    exact ⟨rfl, Option.some.inj (hm.symm.trans hn)⟩
  cases h with
  | rests nodes publisher => exact hunmarked (by rw [node?, nodes, node?]) rfl
  | publishes h => exact hunmarked rfl rfl
  | supplies hm hp infos =>
      obtain hne | ⟨rfl, rfl⟩ := hplace hm
      · exact hunmarked rfl (Trace.marks_of_ne hne.symm _)
      · exact hhere hn (.supplied n)
  | begins hm idle hfree path access content =>
      obtain hne | ⟨rfl, rfl⟩ := hplace hm
      · exact hunmarked (node?_startSession_of_ne t hne path access content)
          (Trace.marks_of_ne hne.symm _)
      · refine hhere (node?_startSession_self hn path access content) (.opened ?_ ..)
        simpa [Node.session?] using idle
  | writes hm h =>
      obtain ⟨l, hw, rfl⟩ := writeNode_eq_ok hm h
      obtain hne | ⟨rfl, he⟩ := hplace hm
      · exact hunmarked (node?_setNode_of_ne _ hne) (Trace.marks_of_ne hne.symm _)
      · cases he
        exact hhere (node?_setNode_self _ hn) (.wrote hw)
  | cuts hm hw h =>
      obtain ⟨l, hr, rfl⟩ := resizeOn_eq_ok hm hw h
      obtain hne | ⟨rfl, he⟩ := hplace hm
      · exact hunmarked (node?_setNode_of_ne _ hne) (Trace.marks_of_ne hne.symm _)
      · cases he
        exact hhere (node?_setNode_self _ hn) (.cut hr)
  | @clears _ other l path hm hw hfile =>
      have hsame : ∀ ref, (t.resizeOn other path 0).2.node? ref = t.node? ref := by
        rw [resizeOn_of_clear hm hw hfile]
        exact fun _ => rfl
      obtain hne | ⟨rfl, -⟩ := hplace hm
      · exact hunmarked (hsame ref) (Trace.marks_of_ne hne.symm _)
      · exact hhere ((hsame ref).trans hn) (.cleared n)
  | @closes _ other busy =>
      by_cases he : ref = other
      · subst he
        have hopen : n.session.isSome = true := by
          simpa [busy_of_node? hn, Node.session?] using busy
        obtain ⟨session, hs⟩ := Option.isSome_iff_exists.mp hopen
        have hclosed := node?_closeNode_self hn
        simp only [Node.closed, ReadWrite.close, hs] at hclosed
        exact hhere hclosed (.closed (by rw [ReadWrite.close, hs]))
      · exact hunmarked (node?_closeNode_of_ne t he) (Trace.marks_of_ne (Ne.symm he) _)
  | announces hm h =>
      obtain hne | ⟨rfl, he⟩ := hplace hm
      · exact hunmarked (node?_setNode_of_ne _ hne) (Trace.marks_of_ne hne.symm _)
      · cases he
        exact hhere (node?_setNode_self _ hn) (.announced h)
  | wakes hm h =>
      obtain hne | ⟨rfl, he⟩ := hplace hm
      · exact hunmarked (node?_setNode_of_ne _ hne) (Trace.marks_of_ne hne.symm _)
      · cases he
        exact hhere (node?_setNode_self _ hn) (.caughtUp h)
  | keys hm h same =>
      obtain hne | ⟨-, he⟩ := hplace hm
      · exact hunmarked (node?_setNode_of_ne _ hne) rfl
      · cases he
  | foreign hm e' =>
      obtain hne | ⟨-, he⟩ := hplace hm
      · exact hunmarked (node?_setNode_of_ne _ hne) rfl
      · cases he

/-! ## Runs -/

/-- Any number of strokes do to a read-write node what their marks say. -/
theorem Strokes.marked {quiet : (σ → σ) → Prop} (h : Strokes quiet free trace t t')
    (hn : t.node? ref = some (.readWrite n)) :
    ∃ m, t'.node? ref = some (.readWrite m) ∧ n.MarkedBy (trace.marks ref) m := by
  induction h with
  | none t => exact ⟨n, hn, .none n⟩
  | more _ hlast ih =>
      obtain ⟨m, hm, hmarks⟩ := ih hn
      obtain ⟨l, hl, ⟨hnone, rfl⟩ | ⟨mark, hmark, hlast⟩⟩ := hlast.marked hm
      · rw [Trace.marks_append, hnone, List.append_nil]
        exact ⟨l, hl, hmarks⟩
      · rw [Trace.marks_append, hmark]
        exact ⟨l, hl, hmarks.more hlast⟩

/-- Each session goes as its draft does. -/
theorem Strokes.draft {quiet : (σ → σ) → Prop} (h : Strokes quiet free trace t t')
    (hn : t.node? ref = some (.readWrite n)) :
    ∃ m, t'.node? ref = some (.readWrite m) ∧
      m.draft? = (trace.marks ref).foldl ReadWrite.Draft.next n.draft? := by
  obtain ⟨m, hm, hmarks⟩ := h.marked hn
  exact ⟨m, hm, hmarks.draft⟩

/-- Over any number of strokes the calls are made that the trace makes due. -/
theorem Strokes.follows (hfollows : t.Follows view after)
    (h : Strokes (Unseen view) free trace t t') :
    ∃ made, t.Due trace made ∧ view t'.publisher = made.foldl after (view t.publisher) := by
  induction h with
  | none t => exact ⟨[], ⟨rfl, fun _ _ _ => rfl⟩, rfl⟩
  | more hfirst hlast ih =>
      obtain ⟨made, ⟨hruns, hdue⟩, hmade⟩ := ih hfollows
      obtain ⟨more, ⟨hruns', hdue'⟩, hmore⟩ := hlast.follows (hfollows.moves hfirst.moves)
      refine ⟨made ++ more, ⟨?_, ?_⟩, ?_⟩
      · rw [Call.supplies_append, hruns, hruns', Trace.runs_append]
      · intro ref n hn
        obtain ⟨m, hm, hdraft⟩ := hfirst.draft hn
        rw [Call.stores_append, hdue ref n hn, hdue' ref m hm, hdraft, Trace.marks_append,
          ReadWrite.handed_append]
      · rw [hmore, hmade, List.foldl_append]

/-- From `t` to `t'` the publisher notes the runs of providers that the trace tells, and what is due
to the sinks. -/
def Records (calls : σ → List Call) (trace : Trace) (t t' : Tree σ ε) : Prop :=
  ∃ made, calls t'.publisher = calls t.publisher ++ made ∧ Call.supplies made = trace.runs ∧
    ∀ ref n, t.node? ref = some (.readWrite n) →
      Call.stores ref made = ReadWrite.handed n.draft? (trace.marks ref)

/-- The list that a publisher keeps grows by these calls. -/
theorem Strokes.noted (hnoted : t.Noted calls) (h : Strokes (Call.Quiet calls) free trace t t') :
    Records calls trace t t' := by
  obtain ⟨made, hdue, hmade⟩ := h.follows hnoted.follows
  have hlist : made.foldl (fun made call => made ++ [call]) (calls t.publisher) =
      calls t.publisher ++ made := by
    rw [List.foldl_append_eq_append, ← List.flatMap_def, List.flatMap_singleton']
  exact ⟨made, hmade.trans hlist, hdue⟩

/-- Over any number of strokes the publisher notes the runs of providers that the marks say. -/
theorem Strokes.supplied (hnoted : t.Noted calls)
    (h : Strokes (Call.Quiet calls) free trace t t') :
    Call.supplies (calls t'.publisher) = Call.supplies (calls t.publisher) ++ trace.runs := by
  obtain ⟨made, hmade, hruns, -⟩ := h.noted hnoted
  rw [hmade, Call.supplies_append, hruns]

/-- And its sinks what the marks make due, while the session goes as its draft does. -/
theorem Strokes.stored (hnoted : t.Noted calls) (h : Strokes (Call.Quiet calls) free trace t t')
    (hn : t.node? ref = some (.readWrite n)) :
    (∃ m, t'.node? ref = some (.readWrite m) ∧
      m.draft? = (trace.marks ref).foldl ReadWrite.Draft.next n.draft?) ∧
    Call.stores ref (calls t'.publisher) =
      Call.stores ref (calls t.publisher) ++ ReadWrite.handed n.draft? (trace.marks ref) := by
  obtain ⟨made, hmade, -, hdue⟩ := h.noted hnoted
  refine ⟨h.draft hn, ?_⟩
  rw [hmade, Call.stores_append, hdue ref n hn]

/-- However a tree is used, through its paths and handles and past it, a read-write node that was
idle hands its sink what is due and nothing else: the buffer of each session that was to write and
was written or cut, when the session ends, and an empty content for each truncation of its file to
nothing that no session had to take. Nothing is handed twice, whether the sink fails or not; and
where a session has been closed, there is none.

What has happened is told by `trace`. But for the ends of sessions it is what the uses were and how
they went; and a session that is told to end was there, so its end stands behind all that was done
in it and before all that could not be done with it. -/
theorem sink_handed_outcomes (hnoted : t.Noted calls) (hn : t.node? ref = some (.readWrite n))
    (hidle : n.session = none) {uses : List (Use σ)}
    (hquiet : ∀ u ∈ uses, u.Quiet (Call.Quiet calls)) :
    (∃ trace, Strokes (Call.Quiet calls) (fun _ => True) trace t (t.after uses) ∧
      trace.deeds = t.deedsOfUses uses ∧
      Call.stores ref (calls (t.after uses).publisher) =
        Call.stores ref (calls t.publisher) ++ ReadWrite.handed none (trace.marks ref) ∧
      ∃ m, (t.after uses).node? ref = some (.readWrite m) ∧
        m.draft? = (trace.marks ref).foldl ReadWrite.Draft.next none) ∧
    ((t.after uses).closeNode ref).2.busy ref = false ∧
    (∀ h o, (t.after uses).handle? h = some o → o.node = ref →
      ((t.after uses).close h).2.busy ref = false ∧
      ((t.after uses).isRegistered o.id = true →
        ((t.after uses).unregister o.id).2.busy ref = false)) := by
  refine ⟨?_, ?_, ?_⟩
  · obtain ⟨trace, hstrokes, hdeeds⟩ := course_after t hquiet
    have hdraft : n.draft? = none := by simp [ReadWrite.draft?, hidle]
    obtain ⟨hnode, hstores⟩ := hstrokes.stored hnoted hn
    rw [hdraft] at hnode hstores
    exact ⟨trace, hstrokes, hdeeds, hstores, hnode⟩
  · simp [busy_closeNode]
  · rintro h o ho rfl
    exact ⟨busy_close ho, busy_unregister ho⟩

/-- A file whose sink refuses an empty content. -/
def ledger : ReadWrite Unit where
  location := ⟨.fixed "/desk", "ledger", by decide⟩
  provider := .ofText fun _ => "nothing yet"
  sink content s := (if content = #[] then .error ⟨"blank", []⟩ else .ok (), s)

def desk : Tree Unit Empty where
  publisher := ()
  nodes := [.readWrite ledger]
  registrations := [⟨⟨1⟩, ⟨0⟩⟩]
  nextId := 2

/-- A session is written, cut and ended by the removal of its registration; then the file is
truncated, for which the sink fails, and a session that reads ends. -/
def errands : List (Use (Unit × List Call)) :=
  [.through (.openFile "/desk/ledger" .writing), .through (.write ⟨1⟩ 0 #[1, 2, 3]),
    .through (.truncate "/desk/ledger" 2), .through (.unregister ⟨1⟩),
    .resizes ⟨0⟩ "/desk/ledger" 0, .opens ⟨0⟩ "/desk/ledger" .reading, .closes ⟨0⟩]

/-- The sink is handed the buffer of the first session, and the empty content once. -/
theorem sink_handed_outcomes_desk :
    ∃ trace : Trace, trace.deeds =
      [(⟨0⟩, .opened .writing), (⟨0⟩, .wrote 0 #[1, 2, 3]), (⟨0⟩, .cut 2), (⟨0⟩, .cleared),
        (⟨0⟩, .supplied), (⟨0⟩, .opened .reading)] ∧
      Call.stores ⟨0⟩ (desk.noting.after errands).publisher.2 =
        ReadWrite.handed none (trace.marks ⟨0⟩) ∧
      ReadWrite.handed none (trace.marks ⟨0⟩) = [#[1, 2], #[]] := by
  have hquiet : ∀ u ∈ errands, u.Quiet (Call.Quiet Prod.snd) := by
    simp [errands, Use.Quiet, Action.Quiet]
  have hledger : desk.noting.node? ⟨0⟩ = some (.readWrite _) := rfl
  obtain ⟨⟨trace, -, hdeeds, hstores, -⟩, -⟩ :=
    sink_handed_outcomes desk.noted_noting hledger rfl hquiet
  have hseen : Call.stores ⟨0⟩ (desk.noting.after errands).publisher.2 = [#[1, 2], #[]] := by
    decide
  have hnone : Call.stores ⟨0⟩ desk.noting.publisher.2 = [] := rfl
  rw [hnone, List.nil_append] at hstores
  exact ⟨trace, hdeeds.trans (by decide), hstores, hstores.symm.trans hseen⟩

end Tree

end LiveTree
