import LiveTree.Proofs.Outcomes
import LiveTree.Proofs.Occupancy

/-!
# The numbers of registrations and handles

A tree counts its registrations and its handles, and takes the numbers it gives from the counts. An
open takes a number as soon as its node has let it in, whether or not the open stands in the end, so
some numbers are never seen by a caller.

`Spends` says of an operation that it takes so many numbers for handles, and that it registers
nothing. What all actions of a run take are the numbers from the one count to the other, each once
(`handlesGiven_run`, `idsGiven_run`).
-/

namespace LiveTree.Tree

variable {σ ε : Type} [Foreign ε]

/-! ## What an action takes -/

/-- The handle that an open takes, if it gets as far as that. -/
def handleGiven? (t : Tree σ ε) (path : String) (access : Access) : Option Handle :=
  match Path.normalize path with
  | .error _ => none
  | .ok path =>
    match t.owner? path with
    | none => none
    | some r =>
      match (t.noteOverlap path).openNode r.node path access with
      | (.error _, _) => none
      | (.ok (), t) => some (t.addHandle r path).1.handle

/-- The handles that an action takes. -/
def handlesGiven (t : Tree σ ε) : Action σ → List Handle
  | .openFile path access => (t.handleGiven? path access).toList
  | .readAll path => (t.handleGiven? path .reading).toList
  | .writeAll path _ => (t.handleGiven? path .writing).toList
  | _ => []

/-- The ids that an action takes. -/
def idsGiven (t : Tree σ ε) : Action σ → List NodeId
  | .register ref => [(t.register ref).1]
  | _ => []

/-! ## Operations that register nothing -/

/-- From `t` to `t'` so many handles have been taken, and nothing has been registered. -/
structure Spends (given : Nat) (t t' : Tree σ ε) : Prop where
  registrations : t'.registrations.Sublist t.registrations
  nextId : t'.nextId = t.nextId
  nextHandle : t'.nextHandle = t.nextHandle + given

variable {t t' u : Tree σ ε}

omit [Foreign ε] in
theorem Spends.of_books (h : t'.books = t.books) : Spends 0 t t' := by
  simp only [books, Books.mk.injEq] at h
  obtain ⟨-, hr, -, hi, hn⟩ := h
  exact ⟨hr ▸ List.Sublist.refl _, hi, hn⟩

omit [Foreign ε] in
theorem Spends.trans {given more : Nat} (h : Spends given t t') (h' : Spends more t' u) :
    Spends (given + more) t u where
  registrations := h'.registrations.trans h.registrations
  nextId := h'.nextId.trans h.nextId
  nextHandle := by rw [h'.nextHandle, h.nextHandle, Nat.add_assoc]

theorem spends_unregister (t : Tree σ ε) (id : NodeId) : Spends 0 t (t.unregister id).2 := by
  have hb := books_unregister t id
  split at hb
  · simp only [books, Books.mk.injEq] at hb
    obtain ⟨-, hr, -, hi, hn⟩ := hb
    exact ⟨hr ▸ List.filter_sublist, hi, hn⟩
  · exact .of_books hb

theorem spends_provide (t : Tree σ ε) (p : Provider σ) : Spends 0 t (t.provide p).2 := by
  have hremovals : Spends 0 t (t.afterRemovals p) := by
    refine afterRemovals_induction ?_ (.of_books rfl) p
    intro t' id h
    exact h.trans (spends_unregister t' id)
  exact hremovals.trans (.of_books (books_provide t p))

theorem spends_openNode (t : Tree σ ε) (ref : NodeRef) (path : String) (access : Access) :
    Spends 0 t (t.openNode ref path access).2 := by
  have hfetch : ∀ source : Source σ, Spends 0 t (t.fetch source).2 := by
    intro source
    cases source with
    | provided p => exact spends_provide t p
    | held content => exact .of_books rfl
  unfold openNode
  split
  · exact .of_books rfl
  · split
    · exact .of_books rfl
    · next source _ =>
      have hsource := hfetch source
      split <;> next hs => rw [hs] at hsource; exact hsource.trans (.of_books (by simp))

/-- A session takes a number when it is given a handle, also if the handle is taken back. -/
theorem spends_confirmOpen (t : Tree σ ε) (r : Registration) (path : String) :
    Spends 1 t ((t.addHandle r path).2.confirmOpen (t.addHandle r path).1).2 := by
  rw [addHandle_eq]
  unfold confirmOpen
  split
  · exact ⟨.refl _, rfl, rfl⟩
  · have hb := books_undoOpen { t with
        handles := t.handles ++ [⟨⟨t.nextHandle⟩, r.id, r.node, path⟩]
        nextHandle := t.nextHandle + 1 } ⟨⟨t.nextHandle⟩, r.id, r.node, path⟩
    simp only [books, Books.mk.injEq] at hb
    obtain ⟨-, hr, -, hi, hn⟩ := hb
    refine ⟨?_, hi, hn⟩
    show List.Sublist (Tree.undoOpen _ _).registrations t.registrations
    rw [hr]

theorem spends_openFile (t : Tree σ ε) (path : String) (access : Access) :
    Spends (t.handleGiven? path access).toList.length t (t.openFile path access).2 := by
  rcases hpath : Path.normalize path with fault | canonical
  · simp only [handleGiven?, openFile, hpath]
    exact .of_books rfl
  rcases howner : t.owner? canonical with _ | r
  · simp only [handleGiven?, openFile, hpath, howner]
    exact .of_books rfl
  have hopen := (Spends.of_books (books_noteOverlap t canonical)).trans
    (spends_openNode (t.noteOverlap canonical) r.node canonical access)
  rcases hnode : (t.noteOverlap canonical).openNode r.node canonical access with
    ⟨fault | ⟨⟩, opened⟩
  · simp only [handleGiven?, openFile, hpath, howner, hnode]
    rw [hnode] at hopen
    exact hopen
  · simp only [handleGiven?, openFile, hpath, howner, hnode]
    rw [hnode] at hopen
    exact hopen.trans (spends_confirmOpen opened r canonical)

theorem spends_close (t : Tree σ ε) (h : Handle) : Spends 0 t (t.close h).2 := by
  unfold close
  split
  · exact .of_books rfl
  · next ht =>
    obtain ⟨-, -, rfl⟩ := takeHandle_eq_some ht
    have htake : Spends 0 t { t with handles := t.handles.filter (·.handle ≠ h) } :=
      ⟨.refl _, rfl, rfl⟩
    exact htake.trans (.of_books (books_closeNode _ _))

theorem spends_readAll (t : Tree σ ε) (path : String) :
    Spends (t.handleGiven? path .reading).toList.length t (t.readAll path).2 := by
  have hopen := spends_openFile t path .reading
  unfold readAll
  split <;> next hs => rw [hs] at hopen; first | exact hopen | exact hopen.trans (spends_close _ _)

theorem spends_writeAll (t : Tree σ ε) (path : String) (data : Bytes) :
    Spends (t.handleGiven? path .writing).toList.length t (t.writeAll path data).2 := by
  have hopen := spends_openFile t path .writing
  unfold writeAll
  split
  · next hs =>
    rw [hs] at hopen
    exact hopen
  · next opened hs =>
    rw [hs] at hopen
    exact hopen.trans ((Spends.of_books (books_write _ _ _ _)).trans (spends_close _ _))

theorem spends_stat (t : Tree σ ε) (path : String) : Spends 0 t (t.stat path).2 := by
  have hsizeOn : ∀ (u : Tree σ ε) (ref : NodeRef) (path : String),
      Spends 0 u (u.sizeOn ref path).2 := by
    intro u ref path
    unfold sizeOn
    split
    · exact .of_books rfl
    · split
      · exact .of_books rfl
      · exact spends_provide u _
    · split
      · exact .of_books rfl
      · exact spends_provide u _
    · exact .of_books rfl
    · exact .of_books rfl
  unfold stat
  split
  · exact .of_books rfl
  · next path _ =>
    split
    · next r _ =>
      have hsize := (Spends.of_books (books_noteOverlap t path)).trans
        (hsizeOn (t.noteOverlap path) r.node path)
      split <;> next hs => rwa [hs] at hsize
    · split <;> exact .of_books rfl

theorem spends_truncate (t : Tree σ ε) (path : String) (size : Nat) :
    Spends 0 t (t.truncate path size).2 := by
  unfold truncate
  split
  · exact .of_books rfl
  · split
    · exact .of_books rfl
    · exact .of_books (by simp)

theorem spends_notify (t : Tree σ ε) (ref : NodeRef) : Spends 0 t (t.notify ref).2 := by
  unfold «notify»
  split
  · next n _ =>
    have hprovide := spends_provide t n.provider
    split
    · next hs => rwa [hs] at hprovide
    · next hs =>
      rw [hs] at hprovide
      split
      · split
        · exact hprovide
        · exact hprovide.trans (.of_books (by simp))
      · exact hprovide
  · exact .of_books rfl

/-! ## Actions -/

/-- Every action but a registration spends the handles it takes, and nothing else. -/
theorem spends_perform (t : Tree σ ε) {a : Action σ} (ha : ∀ ref, a ≠ .register ref) :
    Spends (t.handlesGiven a).length t (t.perform a) := by
  cases a with
  | register ref => exact absurd rfl (ha ref)
  | unregister id => exact spends_unregister t id
  | openFile path access => exact spends_openFile t path access
  | read h offset size => exact .of_books rfl
  | write h offset data => exact .of_books (books_write t h offset data)
  | close h => exact spends_close t h
  | longPoll h offset size => exact .of_books (books_longPoll t h offset size)
  | longPollAll h => exact .of_books (books_longPollAll t h)
  | look p => exact .of_books (books_look t p)
  | readAll path => exact spends_readAll t path
  | writeAll path data => exact spends_writeAll t path data
  | truncate path size => exact spends_truncate t path size
  | stat path => exact spends_stat t path
  | list path => exact .of_books rfl
  | publish f => exact .of_books rfl
  | «notify» ref => exact spends_notify t ref
  | insert ref key value => exact .of_books (books_insertKey t ref key value)
  | remove ref key => exact .of_books (books_removeKey t ref key)
  | takeLog => exact .of_books rfl

theorem register_eq (t : Tree σ ε) (ref : NodeRef) :
    (t.register ref).1 = ⟨t.nextId⟩ ∧
      (t.register ref).2.registrations = t.registrations ++ [⟨⟨t.nextId⟩, ref⟩] ∧
      (t.register ref).2.nextId = t.nextId + 1 ∧
      (t.register ref).2.nextHandle = t.nextHandle := by
  have hb := books_register t ref
  simp only [books, Books.mk.injEq] at hb
  exact ⟨rfl, hb.2.1, hb.2.2.2.1, hb.2.2.2.2⟩

theorem handleGiven?_eq_some {path : String} {access : Access} {handle : Handle}
    (h : t.handleGiven? path access = some handle) : handle = ⟨t.nextHandle⟩ := by
  unfold handleGiven? at h
  split at h
  · cases h
  · next canonical _ =>
    split at h
    · cases h
    · next r _ =>
      have hopen := (Spends.of_books (books_noteOverlap t canonical)).trans
        (spends_openNode (t.noteOverlap canonical) r.node canonical access)
      split at h
      · cases h
      · next hnode =>
        cases h
        rw [hnode] at hopen
        exact congrArg Handle.mk hopen.nextHandle

/-- An action takes at most one handle, and it is the next one. -/
theorem handlesGiven_eq (t : Tree σ ε) (a : Action σ) :
    t.handlesGiven a = (List.range' t.nextHandle (t.handlesGiven a).length).map Handle.mk ∧
      (t.perform a).nextHandle = t.nextHandle + (t.handlesGiven a).length := by
  have hopening : ∀ (path : String) (access : Access),
      (t.handleGiven? path access).toList =
        (List.range' t.nextHandle (t.handleGiven? path access).toList.length).map Handle.mk := by
    intro path access
    rcases hh : t.handleGiven? path access with _ | handle
    · rfl
    · rw [handleGiven?_eq_some hh]
      rfl
  constructor
  · cases a with
    | openFile path access => exact hopening path access
    | readAll path => exact hopening path .reading
    | writeAll path data => exact hopening path .writing
    | _ => rfl
  · by_cases ha : ∃ ref, a = .register ref
    · obtain ⟨ref, rfl⟩ := ha
      exact (register_eq t ref).2.2.2
    · exact (spends_perform t fun ref he => ha ⟨ref, he⟩).nextHandle

/-- An action takes at most one id, and it is the next one. -/
theorem idsGiven_eq (t : Tree σ ε) (a : Action σ) :
    t.idsGiven a = (List.range' t.nextId (t.idsGiven a).length).map NodeId.mk ∧
      (t.perform a).nextId = t.nextId + (t.idsGiven a).length := by
  cases a with
  | register ref => exact ⟨rfl, (register_eq t ref).2.2.1⟩
  | _ => exact ⟨rfl, (spends_perform t fun _ he => by cases he).nextId⟩

/-! ## Runs -/

/-- What takes the next numbers of a count with every action takes those from the one count to the
other with a run. -/
theorem along_eq_range' {α : Type} {number : Nat → α} {count : Tree σ ε → Nat}
    {given : Tree σ ε → Action σ → List α}
    (hstep : ∀ t a, given t a = (List.range' (count t) (given t a).length).map number ∧
      count (t.perform a) = count t + (given t a).length)
    (t : Tree σ ε) (actions : List (Action σ)) :
    t.along given actions = (List.range' (count t) (t.along given actions).length).map number ∧
      count (t.performAll actions) = count t + (t.along given actions).length := by
  induction actions generalizing t with
  | nil => exact ⟨rfl, rfl⟩
  | cons a actions ih =>
      obtain ⟨hfirst, hcount⟩ := hstep t a
      obtain ⟨hrest, hcounts⟩ := ih (t.perform a)
      rw [along_cons, performAll_cons, List.length_append]
      constructor
      · rw [← List.range'_append_1, List.map_append, ← hfirst, ← hcount, ← hrest]
      · rw [hcounts, hcount, Nat.add_assoc]

/-- The handles that a run takes, those of opens that do not stand among them. -/
def allHandles (t : Tree σ ε) (actions : List (Action σ)) : List Handle :=
  t.along handlesGiven actions

/-- The ids that a run takes. -/
def allIds (t : Tree σ ε) (actions : List (Action σ)) : List NodeId := t.along idsGiven actions

theorem allHandles_eq (t : Tree σ ε) (actions : List (Action σ)) :
    t.allHandles actions =
      (List.range' t.nextHandle (t.allHandles actions).length).map Handle.mk :=
  (along_eq_range' handlesGiven_eq t actions).1

theorem allIds_eq (t : Tree σ ε) (actions : List (Action σ)) :
    t.allIds actions = (List.range' t.nextId (t.allIds actions).length).map NodeId.mk :=
  (along_eq_range' idsGiven_eq t actions).1

/-! ## The order of registration -/

/-- The registrations stand in the order in which they were made: later ones have higher ids. -/
theorem Reachable.ascending {t : Tree σ ε} (h : Reachable t) :
    t.registrations.Pairwise (fun r r' => r.id.number < r'.id.number) := by
  induction h with
  | empty settings publisher => exact .nil
  | addNode n _ _ ih => exact ih
  | @perform t a ht ih =>
      by_cases ha : ∃ ref, a = .register ref
      · obtain ⟨ref, rfl⟩ := ha
        show (t.register ref).2.registrations.Pairwise _
        rw [(register_eq t ref).2.1]
        refine List.pairwise_append.mpr ⟨ih, List.pairwise_singleton _ _, ?_⟩
        intro r hr r' hr'
        rw [List.mem_singleton.mp hr']
        exact ht.id_lt r hr
      · exact ih.sublist (spends_perform t fun ref he => ha ⟨ref, he⟩).registrations

end LiveTree.Tree
