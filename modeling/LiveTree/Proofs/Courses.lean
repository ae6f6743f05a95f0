import LiveTree.Proofs.Strokes

/-!
# Courses

Trees are used through their paths and handles, and nodes are used past the tree as well: whoever
made a node may open, write and close it. A `Use` is one or the other. Each use takes its `Course`:
it is made of strokes, of which all but the ends of sessions can be told from what the use was and
how it ended (`Tree.deedsOfUse`). So does any number of uses (`course_after`).
-/

namespace LiveTree

variable {σ ε : Type}

namespace Tree

variable [Foreign ε] {quiet : (σ → σ) → Prop} {free : NodeRef → Prop} {trace : Trace}
  {t t' u v : Tree σ ε}

/-! ## Uses of one node -/

/-- Strokes with these deeds, in this order. -/
def Course (quiet : (σ → σ) → Prop) (free : NodeRef → Prop) (deeds : Trace)
    (t t' : Tree σ ε) : Prop :=
  ∃ trace, Strokes quiet free trace t t' ∧ Trace.deeds trace = deeds

variable {deeds moreDeeds : Trace}

theorem Stroke.deed {ref : NodeRef} {mark : Mark} (h : Stroke quiet free [(ref, mark)] t t')
    (hmark : mark ≠ .closed) : Course quiet free [(ref, mark)] t t' :=
  ⟨_, h.strokes, by simp [Trace.deeds, hmark]⟩

theorem Stroke.unmarked (h : Stroke quiet free [] t t') : Course quiet free [] t t' :=
  ⟨[], h.strokes, rfl⟩

theorem Course.rests (nodes : t'.nodes = t.nodes) (publisher : t'.publisher = t.publisher) :
    Course quiet free [] t t' :=
  (Stroke.rests nodes publisher).unmarked

theorem Course.refl (t : Tree σ ε) : Course quiet free [] t t := .rests rfl rfl

theorem Course.trans (h : Course quiet free deeds t u) (h' : Course quiet free moreDeeds u v) :
    Course quiet free (deeds ++ moreDeeds) t v := by
  obtain ⟨trace, hstrokes, rfl⟩ := h
  obtain ⟨later, hstrokes', rfl⟩ := h'
  exact ⟨trace ++ later, hstrokes.trans hstrokes', Trace.deeds_append trace later⟩

/-- Behind a course nothing is done but that sessions end. -/
theorem Course.still (h : Course quiet free deeds t u) (h' : Course quiet free [] u v) :
    Course quiet free deeds t v := by
  have htrans := h.trans h'
  rwa [List.append_nil] at htrans

theorem Closings.course (h : Closings quiet free t t') : Course quiet free [] t t' := by
  obtain ⟨trace, hstrokes, hclosed⟩ := h
  refine ⟨trace, hstrokes, List.filter_eq_nil_iff.mpr ?_⟩
  intro e he
  simp [hclosed e he]

theorem course_noteOverlap (t : Tree σ ε) (path : String) :
    Course quiet free [] t (t.noteOverlap path) :=
  .rests (nodes_noteOverlap t path) (publisher_noteOverlap t path)

/-! ### Providers -/

/-- A provider of a foreign kind of node supplies nothing and leaves the publisher as it is; only
its removals are made. -/
theorem course_provide_removals (t : Tree σ ε) (removals : σ → List NodeId) :
    Course quiet free [] t (t.provide ⟨removals, fun _ s => (.ok #[], s)⟩).2 :=
  (closings_afterRemovals t _).course.still (.rests rfl rfl)

/-- A node's provider is run: the removals, and then one run. -/
theorem course_provide {ref : NodeRef} {n : Node σ ε} {p : Provider σ}
    (hn : t.node? ref = some n) (hp : n.provider? = some p) :
    Course quiet free [(ref, .supplied)] t (t.provide p).2 := by
  -- what the removals have closed has kept its provider
  obtain ⟨m, hm, hmp⟩ : ∃ m, (t.afterRemovals p).node? ref = some m ∧ m.provider? = some p := by
    obtain ⟨k, hk⟩ := onlyCloses_afterRemovals t p ref
    rw [hn, Option.map_some] at hk
    refine ⟨_, hk, ?_⟩
    clear hk
    induction k with
    | zero => exact hp
    | succ k ih => rw [Function.iterate_succ_apply', Node.provider?_closed, ih]
  have hsupplied : Course quiet free [(ref, .supplied)] (t.afterRemovals p) (t.provide p).2 := by
    rw [provide_eq_supply]
    exact (Stroke.supplies hm hmp (t.afterRemovals p).listing).deed nofun
  exact (closings_afterRemovals t p).course.trans hsupplied

/-- What is done when the node is opened: an open that is permitted runs the provider if there is
one and the session is to read, and one that is granted begins the session. -/
def deedsOfOpen (t : Tree σ ε) (ref : NodeRef) (path : String) (access : Access) : Trace :=
  match t.node? ref with
  | none => []
  | some n =>
    match n.permit t.publisher path access with
    | .error _ => []
    | .ok _ =>
      (if access.read && n.provider?.isSome then [(ref, .supplied)] else []) ++
        (if (t.openNode ref path access).1.isOk then [(ref, .opened access)] else [])

theorem course_fetch {ref : NodeRef} {n : Node σ ε} {path : String} {access : Access}
    {source : Source σ} (hn : t.node? ref = some n)
    (hp : n.permit t.publisher path access = .ok source) :
    Course quiet free (if access.read && n.provider?.isSome then [(ref, .supplied)] else []) t
      (t.fetch source).2 := by
  cases n with
  | readOnly n =>
      obtain ⟨-, rfl, -, rfl⟩ := ReadOnly.permit_eq_ok hp
      exact course_provide hn rfl
  | readWrite n =>
      obtain ⟨-, -, -, rfl⟩ := ReadWrite.permit_eq_ok hp
      rcases hread : access.read with _ | _
      · exact .refl t
      · exact course_provide hn rfl
  | keyStore n =>
      obtain ⟨content, -, rfl⟩ := map_eq_ok.mp hp
      simp only [Node.provider?, Option.isSome_none, Bool.and_false]
      exact .refl t
  | foreign e removals =>
      obtain ⟨-, -, rfl⟩ := map_eq_ok.mp hp
      simp only [Node.provider?, Option.isSome_none, Bool.and_false]
      exact course_provide_removals t removals

/-- An open runs the provider, and begins a session if it is granted. -/
theorem course_openNode (t : Tree σ ε) (ref : NodeRef) (path : String) (access : Access)
    (hfree : t.busy ref = false → free ref) :
    Course quiet free (t.deedsOfOpen ref path access) t (t.openNode ref path access).2 := by
  unfold deedsOfOpen
  rcases hn : t.node? ref with _ | n
  · simpa [openNode, hn] using .refl t
  · dsimp only
    rcases hp : n.permit t.publisher path access with fault | source
    · simpa [openNode, hn, hp] using .refl t
    · have hfetched : Course quiet free _ t (t.fetch source).2 := course_fetch hn hp
      have hcloses := onlyCloses_fetch t source
      dsimp only
      rcases hf : t.fetch source with ⟨fault | content, fetched⟩
      · have hopen : t.openNode ref path access = (.error fault, fetched) := by
          simp only [openNode, hn, hp, hf]
        rw [hf] at hfetched
        rw [hopen]
        simpa [Except.isOk, Except.toBool] using hfetched
      · have hopen : t.openNode ref path access =
            (.ok (), fetched.startSession ref path access content) := by
          simp only [openNode, hn, hp, hf]
        rw [hf] at hfetched hcloses
        rw [hopen]
        have hidle := Node.session?_of_permit hp
        have hbusy : t.busy ref = false := by simp [busy_of_node? hn, hidle]
        obtain ⟨k, hk⟩ := hcloses ref
        rw [hn, Option.map_some] at hk
        exact hfetched.trans ((Stroke.begins hk (session?_of_onlyCloses hcloses hn hk hidle)
          (hfree hbusy) path access content).deed nofun)

omit [Foreign ε] in
/-- A key store that goes on with its session lets it see the same. -/
theorem view?_setInner {n : KeyStore σ} {session : KeySession} {inner : Session}
    (hs : n.session = some session) (hsnapshot : inner.snapshot = session.inner.snapshot)
    (haccess : inner.access = session.inner.access) :
    (Node.keyStore { n with session := some { session with inner } } : Node σ ε).view? =
      (Node.keyStore n : Node σ ε).view? := by
  simp [Node.view?, Node.session?, Session.view, hs, hsnapshot, haccess]

/-- What is done when the node is written. A key store's own writes are of no concern. -/
def deedsOfWrite (t : Tree σ ε) (ref : NodeRef) (offset : Nat) (data : Bytes) : Trace :=
  match t.node? ref with
  | some (.readWrite n) => if (n.write offset data).isOk then [(ref, .wrote offset data)] else []
  | _ => []

theorem course_writeNode (t : Tree σ ε) (ref : NodeRef) (offset : Nat) (data : Bytes) :
    Course quiet free (t.deedsOfWrite ref offset data) t (t.writeNode ref offset data).2 := by
  unfold deedsOfWrite
  rcases hn : t.node? ref with _ | n
  · simpa [writeNode, hn] using .refl t
  · cases n with
    | readOnly n => simpa [writeNode, hn] using .refl t
    | readWrite n =>
        dsimp only
        rcases hw : n.write offset data with fault | m
        · simpa [writeNode, hn, hw, Except.isOk, Except.toBool] using .refl t
        · have hwrite : t.writeNode ref offset data =
              (.ok data.size, t.setNode ref (.readWrite m)) := by simp [writeNode, hn, hw]
          rw [hwrite]
          exact (Stroke.writes hn hwrite).deed nofun
    | keyStore n =>
        rcases hw : n.write offset data with fault | m
        · simpa [writeNode, hn, hw] using .refl t
        · obtain ⟨session, inner, hs, hinner, rfl⟩ := KeyStore.write_eq_ok hw
          obtain ⟨hsnapshot, haccess⟩ := Session.write_eq_ok hinner
          simpa [writeNode, hn, hw] using
            (Stroke.keys hn (.write hw) (view?_setInner hs hsnapshot haccess)).unmarked
    | foreign e removals =>
        rcases hw : Foreign.write e offset data with fault | ⟨count, e'⟩
        · simpa [writeNode, hn, hw] using .refl t
        · simpa [writeNode, hn, hw] using (Stroke.foreign hn e').unmarked

/-- What is done when the file is resized: the pending buffer is cut, or the sink is called. -/
def deedsOfResize (t : Tree σ ε) (ref : NodeRef) (path : String) (size : Nat) : Trace :=
  match t.node? ref with
  | some (.readWrite n) =>
    match n.resize t.publisher path size with
    | .error _ => []
    | .ok (_, none) => [(ref, .cut size)]
    | .ok (_, some _) => [(ref, .cleared)]
  | _ => []

theorem course_resizeOn (t : Tree σ ε) (ref : NodeRef) (path : String) (size : Nat) :
    Course quiet free (t.deedsOfResize ref path size) t (t.resizeOn ref path size).2 := by
  unfold deedsOfResize
  rcases hn : t.node? ref with _ | n
  · simpa [resizeOn, hn] using .refl t
  · cases n with
    | readOnly n => simpa [resizeOn, hn] using .refl t
    | readWrite n =>
        dsimp only
        rcases hr : n.resize t.publisher path size with fault | ⟨m, content⟩
        · simpa [resizeOn, hn, hr] using .refl t
        · rcases ReadWrite.resize_cases hr with ⟨hwriter, rfl⟩ | ⟨hnone, rfl, hfile, rfl, rfl⟩
          · have hcut : t.resizeOn ref path size = (.ok (), t.setNode ref (.readWrite m)) := by
              simp [resizeOn, hn, hr]
            rw [hcut]
            exact (Stroke.cuts hn hwriter hcut).deed nofun
          · exact (Stroke.clears hn hnone hfile).deed nofun
    | keyStore n =>
        rcases hr : n.resize t.publisher path size with fault | m
        · simpa [resizeOn, hn, hr] using .refl t
        · have hview : (Node.keyStore m : Node σ ε).view? = (Node.keyStore n : Node σ ε).view? := by
            obtain ⟨session, inner, hs, hinner, rfl⟩ | ⟨key, value, -, -, rfl⟩ :=
              KeyStore.resize_eq_ok hr
            · obtain ⟨hsnapshot, haccess⟩ := Session.truncate_eq_ok hinner
              exact view?_setInner hs hsnapshot haccess
            · rfl
          simpa [resizeOn, hn, hr] using (Stroke.keys hn (.resize hr) hview).unmarked
    | foreign e removals =>
        rcases hr : Foreign.resize e path size with fault | e'
        · simpa [resizeOn, hn, hr] using .refl t
        · simpa [resizeOn, hn, hr] using (Stroke.foreign hn e').unmarked

/-- What is done for the size of the path: a provider is run for its file. -/
def deedsOfSize (t : Tree σ ε) (ref : NodeRef) (path : String) : Trace :=
  match t.node? ref with
  | some (.readOnly n) =>
    if n.location.matchesFile t.publisher path then [(ref, .supplied)] else []
  | some (.readWrite n) =>
    if n.location.matchesFile t.publisher path then [(ref, .supplied)] else []
  | _ => []

theorem course_sizeOn (t : Tree σ ε) (ref : NodeRef) (path : String) :
    Course quiet free (t.deedsOfSize ref path) t (t.sizeOn ref path).2 := by
  unfold deedsOfSize sizeOn Location.check
  rcases hn : t.node? ref with _ | n
  · exact .refl t
  · cases n with
    | readOnly n =>
        dsimp only
        split
        · exact course_provide hn rfl
        · exact .refl t
    | readWrite n =>
        dsimp only
        split
        · exact course_provide hn rfl
        · exact .refl t
    | keyStore n => exact .refl t
    | foreign e removals => exact .refl t

/-- What is done when the node is to announce its value: the provider is run, and what it supplied
is announced if it is new. -/
def deedsOfNotify (t : Tree σ ε) (ref : NodeRef) : Trace :=
  match t.node? ref with
  | some (.readWrite n) =>
    (ref, .supplied) ::
      match (t.provide n.provider).1, (t.notify ref).1 with
      | .ok value, .ok true => [(ref, .announced value)]
      | _, _ => []
  | _ => []

theorem course_notify (t : Tree σ ε) (ref : NodeRef) :
    Course quiet free (t.deedsOfNotify ref) t (t.notify ref).2 := by
  unfold deedsOfNotify
  rcases hn : t.node? ref with _ | n
  · simpa [«notify», hn] using .refl t
  · cases n with
    | readWrite n =>
        have hprovided : Course quiet free _ t (t.provide n.provider).2 := course_provide hn rfl
        dsimp only
        rcases hs : t.provide n.provider with ⟨fault | value, supplied⟩
        · rw [hs] at hprovided
          simpa [«notify», hn, hs] using hprovided
        · rw [hs] at hprovided
          obtain ⟨m, -, hm⟩ := step_provide hn n.provider
          rw [hs] at hm
          rcases notify_of_provide hn hs hm with ⟨-, hnotify⟩ | ⟨announced, ha, e, hnotify⟩
          · rw [hnotify]
            exact hprovided
          · rw [hnotify]
            have hannounced := hprovided.trans ((Stroke.announces hm ha).deed nofun)
            exact hannounced.still (.rests rfl rfl)
    | _ => simpa [«notify», hn] using .refl t

theorem course_poll (t : Tree σ ε) (ref : NodeRef) (goal : Poll.Goal) :
    Course quiet free [] t (t.poll ref goal).2 := by
  unfold poll
  split
  · exact .refl t
  · exact .refl t
  · exact .refl t
  · split <;> exact .refl t
  · next hn =>
    split
    · exact .refl t
    · exact (Stroke.foreign hn _).unmarked

omit [Foreign ε] in
/-- Waiting readers that are let through make a stroke on their node. -/
theorem wake?_eq_ok {p : Poll} (h : t.wake? p = some (.ok (), t')) :
    ∃ n m, t.node? p.node = some (.readWrite n) ∧ n.wake? p.ticket = some (.ok m) ∧
      t' = t.setNode p.node (.readWrite m) := by
  unfold wake? at h
  split at h
  · next n hn =>
    split at h
    · cases h
    · cases h
    · next m hw =>
      cases h
      exact ⟨n, m, hn, hw, rfl⟩
  · cases h

/-- What a waiting reader that looks does to the tree. -/
theorem look_cases (t : Tree σ ε) (p : Poll) :
    (t.look p = t ∧ ∀ t', t.wake? p ≠ some (.ok (), t')) ∨ t.wake? p = some (.ok (), t.look p) := by
  unfold look finish?
  rcases hw : t.wake? p with _ | ⟨fault | ⟨⟩, t'⟩
  · exact .inl ⟨rfl, nofun⟩
  · refine .inl ⟨?_, nofun⟩
    unfold wake? at hw
    split at hw
    · split at hw <;> cases hw
      rfl
    · cases hw
      rfl
  · exact .inr rfl

/-- What is done when a waiting reader looks: it may be let through. -/
def deedsOfLook (t : Tree σ ε) (p : Poll) : Trace :=
  match t.wake? p with
  | some (.ok (), _) => [(p.node, .caughtUp)]
  | _ => []

theorem course_look (t : Tree σ ε) (p : Poll) :
    Course quiet free (t.deedsOfLook p) t (t.look p) := by
  unfold deedsOfLook
  rcases look_cases t p with ⟨hsame, hw⟩ | hw
  · rw [hsame]
    split
    · next hw' => exact absurd hw' (hw _)
    · exact .refl t
  · obtain ⟨n, m, hn, hwake, he⟩ := wake?_eq_ok hw
    rw [hw]
    dsimp only
    rw [he]
    exact (Stroke.wakes hn hwake).deed nofun

theorem course_insertKey (t : Tree σ ε) (ref : NodeRef) (key : String) (value : Bytes) :
    Course quiet free [] t (t.insertKey ref key value) := by
  unfold insertKey
  split
  · next n hn =>
    split
    · exact .refl t
    · next m hi =>
      refine (Stroke.keys hn (.insert hi) ?_).unmarked
      unfold KeyStore.insert at hi
      split at hi <;> cases hi
      rfl
  · exact .refl t

theorem course_removeKey (t : Tree σ ε) (ref : NodeRef) (key : String) :
    Course quiet free [] t (t.removeKey ref key) := by
  unfold removeKey
  split
  · next hn => exact (Stroke.keys hn (.remove key) rfl).unmarked
  · exact .refl t

/-! ## Uses through the tree -/

/-- What is done when the file at the path is opened. That the open may be undone ends a session
only. -/
def deedsOfOpenFile (t : Tree σ ε) (path : String) (access : Access) : Trace :=
  match Path.normalize path with
  | .error _ => []
  | .ok path =>
    match t.owner? path with
    | none => []
    | some r => (t.noteOverlap path).deedsOfOpen r.node path access

theorem course_openFile (t : Tree σ ε) (path : String) (access : Access)
    (hfree : ∀ ref, t.busy ref = false → free ref) :
    Course quiet free (t.deedsOfOpenFile path access) t (t.openFile path access).2 := by
  unfold deedsOfOpenFile openFile
  rcases Path.normalize path with fault | path
  · exact .refl t
  · dsimp only
    rcases t.owner? path with _ | r
    · exact .refl t
    · have hnoted : ∀ ref, (t.noteOverlap path).busy ref = t.busy ref :=
        busy_of_nodes (nodes_noteOverlap t path)
      have hopened : Course quiet free _ t ((t.noteOverlap path).openNode r.node path access).2 :=
        (course_noteOverlap t path).trans (course_openNode (t.noteOverlap path) r.node path access
          (fun h => hfree _ ((hnoted _).symm.trans h)))
      rw [List.nil_append] at hopened
      dsimp only
      rcases ho : (t.noteOverlap path).openNode r.node path access with ⟨fault | ⟨⟩, opened⟩
      · rw [ho] at hopened
        exact hopened
      · rw [ho] at hopened
        have hadded : Course quiet free [] opened (opened.addHandle r path).2 := .rests rfl rfl
        exact hopened.still (hadded.still (closings_confirmOpen _ _).course)

/-- What is done when a handle is written. -/
def deedsOfHandleWrite (t : Tree σ ε) (h : Handle) (offset : Nat) (data : Bytes) : Trace :=
  match t.handle? h with
  | none => []
  | some o =>
    if t.settings.maxWriteBytes < writeEnd offset data.size then []
    else t.deedsOfWrite o.node offset data

theorem course_write (t : Tree σ ε) (h : Handle) (offset : Nat) (data : Bytes) :
    Course quiet free (t.deedsOfHandleWrite h offset data) t (t.write h offset data).2 := by
  unfold deedsOfHandleWrite write
  rcases t.handle? h with _ | o
  · exact .refl t
  · dsimp only
    split
    · exact .refl t
    · exact course_writeNode t _ offset data

theorem course_readAll (t : Tree σ ε) (path : String)
    (hfree : ∀ ref, t.busy ref = false → free ref) :
    Course quiet free (t.deedsOfOpenFile path .reading) t (t.readAll path).2 := by
  have hopened : Course quiet free _ t (t.openFile path .reading).2 :=
    course_openFile t path .reading hfree
  unfold readAll
  rcases ho : t.openFile path .reading with ⟨fault | h, opened⟩
  · rw [ho] at hopened
    exact hopened
  · rw [ho] at hopened
    exact hopened.still (closings_close opened h).course

/-- What is done when a whole content is written. -/
def deedsOfWriteAll (t : Tree σ ε) (path : String) (data : Bytes) : Trace :=
  t.deedsOfOpenFile path .writing ++
    match t.openFile path .writing with
    | (.error _, _) => []
    | (.ok h, opened) => opened.deedsOfHandleWrite h 0 data

theorem course_writeAll (t : Tree σ ε) (path : String) (data : Bytes)
    (hfree : ∀ ref, t.busy ref = false → free ref) :
    Course quiet free (t.deedsOfWriteAll path data) t (t.writeAll path data).2 := by
  have hopened : Course quiet free _ t (t.openFile path .writing).2 :=
    course_openFile t path .writing hfree
  unfold deedsOfWriteAll writeAll
  rcases ho : t.openFile path .writing with ⟨fault | h, opened⟩
  · rw [ho] at hopened
    simpa using hopened
  · rw [ho] at hopened
    exact hopened.trans ((course_write opened h 0 data).still (closings_close _ h).course)

/-- What is done when the file at the path is resized. -/
def deedsOfTruncate (t : Tree σ ε) (path : String) (size : Nat) : Trace :=
  match Path.normalize path with
  | .error _ => []
  | .ok path =>
    match t.owner? path with
    | none => []
    | some r => (t.noteOverlap path).deedsOfResize r.node path size

theorem course_truncate (t : Tree σ ε) (path : String) (size : Nat) :
    Course quiet free (t.deedsOfTruncate path size) t (t.truncate path size).2 := by
  unfold deedsOfTruncate truncate
  rcases Path.normalize path with fault | path
  · exact .refl t
  · dsimp only
    rcases t.owner? path with _ | r
    · exact .refl t
    · exact (course_noteOverlap t path).trans (course_resizeOn _ _ path size)

/-- What is done for the attributes of the path. -/
def deedsOfStat (t : Tree σ ε) (path : String) : Trace :=
  match Path.normalize path with
  | .error _ => []
  | .ok path =>
    match t.owner? path with
    | none => []
    | some r => (t.noteOverlap path).deedsOfSize r.node path

theorem course_stat (t : Tree σ ε) (path : String) :
    Course quiet free (t.deedsOfStat path) t (t.stat path).2 := by
  unfold deedsOfStat stat
  rcases Path.normalize path with fault | path
  · exact .refl t
  · dsimp only
    rcases t.owner? path with _ | r
    · dsimp only
      split <;> exact .refl t
    · have hsize : Course quiet free _ t ((t.noteOverlap path).sizeOn r.node path).2 :=
        (course_noteOverlap t path).trans (course_sizeOn (t.noteOverlap path) r.node path)
      rw [List.nil_append] at hsize
      dsimp only
      rcases hs : (t.noteOverlap path).sizeOn r.node path with ⟨fault | size, sized⟩
      · rw [hs] at hsize
        exact hsize
      · rw [hs] at hsize
        exact hsize

theorem course_longPoll (t : Tree σ ε) (h : Handle) (offset size : Nat) :
    Course quiet free [] t (t.longPoll h offset size).2 := by
  unfold longPoll
  split
  · exact .refl t
  · exact course_poll t _ _

theorem course_longPollAll (t : Tree σ ε) (h : Handle) :
    Course quiet free [] t (t.longPollAll h).2 := by
  unfold longPollAll
  split
  · exact .refl t
  · exact course_poll t _ _

/-- What is done by an action, but for the ends of sessions. -/
def deedsOf (t : Tree σ ε) : Action σ → Trace
  | .openFile path access => t.deedsOfOpenFile path access
  | .write h offset data => t.deedsOfHandleWrite h offset data
  | .look p => t.deedsOfLook p
  | .readAll path => t.deedsOfOpenFile path .reading
  | .writeAll path data => t.deedsOfWriteAll path data
  | .truncate path size => t.deedsOfTruncate path size
  | .stat path => t.deedsOfStat path
  | .notify ref => t.deedsOfNotify ref
  | _ => []

theorem course_perform (t : Tree σ ε) (a : Action σ) (hquiet : a.Quiet quiet)
    (hfree : ∀ ref, t.busy ref = false → free ref) :
    Course quiet free (t.deedsOf a) t (t.perform a) := by
  cases a with
  | register ref =>
      have hnodes : (t.register ref).2.nodes = t.nodes := by
        unfold register
        dsimp only
        split <;> rfl
      have hpublisher : (t.register ref).2.publisher = t.publisher := by
        unfold register
        dsimp only
        split <;> rfl
      exact .rests hnodes hpublisher
  | unregister id => exact (closings_unregister t id).course
  | openFile path access => exact course_openFile t path access hfree
  | read h offset size => exact .refl t
  | write h offset data => exact course_write t h offset data
  | close h => exact (closings_close t h).course
  | longPoll h offset size => exact course_longPoll t h offset size
  | longPollAll h => exact course_longPollAll t h
  | look p => exact course_look t p
  | readAll path => exact course_readAll t path hfree
  | writeAll path data => exact course_writeAll t path data hfree
  | truncate path size => exact course_truncate t path size
  | stat path => exact course_stat t path
  | list path => exact .refl t
  | publish f => exact (Stroke.publishes hquiet).unmarked
  | «notify» ref => exact course_notify t ref
  | insert ref key value => exact course_insertKey t ref key value
  | remove ref key => exact course_removeKey t ref key
  | takeLog => exact .rests rfl rfl

end Tree

/-! ## Uses -/

/-- Something done through a tree, or to one of its nodes past the tree. -/
inductive Use (σ : Type) where
  | through (a : Action σ)
  | opens (node : NodeRef) (path : String) (access : Access)
  | reads (node : NodeRef) (offset size : Nat)
  | writes (node : NodeRef) (offset : Nat) (data : Bytes)
  | resizes (node : NodeRef) (path : String) (size : Nat)
  | sizes (node : NodeRef) (path : String)
  /-- A reader begins to wait. It looks again by an action. -/
  | polls (node : NodeRef) (goal : Poll.Goal)
  | closes (node : NodeRef)

/-- What the publisher itself does is quiet. -/
def Use.Quiet (quiet : (σ → σ) → Prop) : Use σ → Prop
  | .through a => a.Quiet quiet
  | _ => True

theorem Use.Quiet.of_all {quiet : (σ → σ) → Prop} (h : ∀ f, quiet f) (u : Use σ) :
    u.Quiet quiet := by
  cases u with
  | through a => exact Action.Quiet.of_all h a
  | _ => trivial

/-- The use may begin a session. -/
def Use.Opens : Use σ → Prop
  | .through (.openFile _ _) | .through (.readAll _) | .through (.writeAll _ _) => True
  | .opens _ _ _ => True
  | _ => False

/-- The mark neither begins a session nor is anything that a reader is told. -/
def Mark.IsPlain : Mark → Prop
  | .opened _ | .announced _ | .caughtUp => False
  | _ => True

namespace Tree

variable [Foreign ε] {quiet : (σ → σ) → Prop} {free : NodeRef → Prop} {t : Tree σ ε}

/-- The tree after a use. -/
def use (t : Tree σ ε) : Use σ → Tree σ ε
  | .through a => t.perform a
  | .opens ref path access => (t.openNode ref path access).2
  | .reads _ _ _ => t
  | .writes ref offset data => (t.writeNode ref offset data).2
  | .resizes ref path size => (t.resizeOn ref path size).2
  | .sizes ref path => (t.sizeOn ref path).2
  | .polls ref goal => (t.poll ref goal).2
  | .closes ref => (t.closeNode ref).2

/-- The tree after some uses. -/
def after (t : Tree σ ε) (uses : List (Use σ)) : Tree σ ε := uses.foldl use t

/-- What is done by a use, but for the ends of sessions. -/
def deedsOfUse (t : Tree σ ε) : Use σ → Trace
  | .through a => t.deedsOf a
  | .opens ref path access => t.deedsOfOpen ref path access
  | .writes ref offset data => t.deedsOfWrite ref offset data
  | .resizes ref path size => t.deedsOfResize ref path size
  | .sizes ref path => t.deedsOfSize ref path
  | .reads _ _ _ | .polls _ _ | .closes _ => []

/-- What is done by some uses, in order. -/
def deedsOfUses (t : Tree σ ε) : List (Use σ) → Trace
  | [] => []
  | u :: uses => t.deedsOfUse u ++ (t.use u).deedsOfUses uses

/-! ### Which deeds there are -/

section

variable {ref : NodeRef} {path : String} {access : Access} {handle : Handle} {offset size : Nat}
  {data : Bytes} {e : NodeRef × Mark}

theorem mem_deedsOfOpen (h : e ∈ t.deedsOfOpen ref path access) :
    e.2.IsPlain ∨ e = (ref, .opened access) := by
  unfold deedsOfOpen at h
  repeat' split at h
  all_goals simp_all [Mark.IsPlain]
  rcases h with rfl | rfl <;> simp

omit [Foreign ε] in
theorem isPlain_of_write (h : e ∈ t.deedsOfWrite ref offset data) : e.2.IsPlain := by
  unfold deedsOfWrite at h
  repeat' split at h
  all_goals simp_all [Mark.IsPlain]

omit [Foreign ε] in
theorem isPlain_of_resize (h : e ∈ t.deedsOfResize ref path size) : e.2.IsPlain := by
  unfold deedsOfResize at h
  repeat' split at h
  all_goals simp_all [Mark.IsPlain]

omit [Foreign ε] in
theorem isPlain_of_size (h : e ∈ t.deedsOfSize ref path) : e.2.IsPlain := by
  unfold deedsOfSize at h
  repeat' split at h
  all_goals simp_all [Mark.IsPlain]

theorem mem_deedsOfNotify (h : e ∈ t.deedsOfNotify ref) :
    e.2.IsPlain ∨ ∃ value, e = (ref, .announced value) := by
  unfold deedsOfNotify at h
  repeat' split at h
  all_goals simp_all [Mark.IsPlain]
  rcases h with rfl | rfl <;> simp

theorem mem_deedsOfOpenFile (h : e ∈ t.deedsOfOpenFile path access) :
    e.2.IsPlain ∨ e.2 = .opened access := by
  unfold deedsOfOpenFile at h
  repeat' split at h
  · cases h
  · cases h
  · exact (mem_deedsOfOpen h).imp_right (congrArg Prod.snd)

omit [Foreign ε] in
theorem isPlain_of_handleWrite (h : e ∈ t.deedsOfHandleWrite handle offset data) :
    e.2.IsPlain := by
  unfold deedsOfHandleWrite at h
  repeat' split at h
  · cases h
  · cases h
  · exact isPlain_of_write h

theorem mem_deedsOfWriteAll (h : e ∈ t.deedsOfWriteAll path data) :
    e.2.IsPlain ∨ e.2 = .opened .writing := by
  unfold deedsOfWriteAll at h
  rcases List.mem_append.mp h with hopen | hwrite
  · exact mem_deedsOfOpenFile hopen
  · split at hwrite
    · cases hwrite
    · exact .inl (isPlain_of_handleWrite hwrite)

theorem isPlain_of_truncate (h : e ∈ t.deedsOfTruncate path size) : e.2.IsPlain := by
  unfold deedsOfTruncate at h
  repeat' split at h
  · cases h
  · cases h
  · exact isPlain_of_resize h

theorem isPlain_of_stat (h : e ∈ t.deedsOfStat path) : e.2.IsPlain := by
  unfold deedsOfStat at h
  repeat' split at h
  · cases h
  · cases h
  · exact isPlain_of_size h

end

/-- Only opens begin sessions, only notifications announce, and a reader is let through only when it
looks. -/
theorem mem_deedsOfUse {u : Use σ} {e : NodeRef × Mark} (h : e ∈ t.deedsOfUse u) :
    e.2.IsPlain ∨ (u.Opens ∧ ∃ access, e.2 = .opened access) ∨
      (∃ value, u = .through (.notify e.1) ∧ e.2 = .announced value) ∨
      ∃ p t', u = .through (.look p) ∧ t.wake? p = some (.ok (), t') ∧ e = (p.node, .caughtUp) := by
  cases u with
  | through a =>
      cases a with
      | openFile path access =>
          exact (mem_deedsOfOpenFile h).imp_right fun hopened => .inl ⟨trivial, _, hopened⟩
      | readAll path =>
          exact (mem_deedsOfOpenFile h).imp_right fun hopened => .inl ⟨trivial, _, hopened⟩
      | writeAll path data =>
          exact (mem_deedsOfWriteAll h).imp_right fun hopened => .inl ⟨trivial, _, hopened⟩
      | write handle offset data => exact .inl (isPlain_of_handleWrite h)
      | truncate path size => exact .inl (isPlain_of_truncate h)
      | stat path => exact .inl (isPlain_of_stat h)
      | «notify» ref =>
          rcases mem_deedsOfNotify h with hplain | ⟨value, rfl⟩
          · exact .inl hplain
          · exact .inr (.inr (.inl ⟨value, rfl, rfl⟩))
      | look p =>
          simp only [deedsOfUse, deedsOf, deedsOfLook] at h
          split at h
          · next t' hw => exact .inr (.inr (.inr ⟨p, t', rfl, hw, List.mem_singleton.mp h⟩))
          · cases h
      | _ => cases h
  | opens ref path access =>
      exact (mem_deedsOfOpen h).imp_right fun he => .inl ⟨trivial, _, congrArg Prod.snd he⟩
  | writes ref offset data => exact .inl (isPlain_of_write h)
  | resizes ref path size => exact .inl (isPlain_of_resize h)
  | sizes ref path => exact .inl (isPlain_of_size h)
  | _ => cases h

/-- A use is made of strokes, which begin sessions on nodes that were idle only. -/
theorem course_use (t : Tree σ ε) (u : Use σ) (hquiet : u.Quiet quiet)
    (hfree : ∀ ref, t.busy ref = false → free ref) :
    Course quiet free (t.deedsOfUse u) t (t.use u) := by
  cases u with
  | through a => exact course_perform t a hquiet hfree
  | opens ref path access => exact course_openNode t ref path access (hfree ref)
  | reads ref offset size => exact .refl t
  | writes ref offset data => exact course_writeNode t ref offset data
  | resizes ref path size => exact course_resizeOn t ref path size
  | sizes ref path => exact course_sizeOn t ref path
  | polls ref goal => exact course_poll t ref goal
  | closes ref => exact (closings_closeNode t ref).course

/-- So is any number of uses. -/
theorem course_after (t : Tree σ ε) {uses : List (Use σ)} (hquiet : ∀ u ∈ uses, u.Quiet quiet) :
    Course quiet (fun _ => True) (t.deedsOfUses uses) t (t.after uses) := by
  induction uses generalizing t with
  | nil => exact .refl t
  | cons u uses ih =>
      have hfirst := course_use t u (hquiet u List.mem_cons_self) (fun _ _ => trivial)
      exact hfirst.trans (ih (t.use u) fun v hv => hquiet v (List.mem_cons_of_mem u hv))

end Tree

end LiveTree
