import LiveTree.Tree.Watching

/-!
# The books of a tree

Besides its nodes a tree keeps books: its settings, its registrations, its table of handles, and the
next number of each kind. Nothing that happens to a node is written there. What does change the
books are four small operations: a registration is added or dropped, and a handle is added or taken.

`Proceeds` says what the books have in common before and after any number of operations, however
these were put together: numbers only go up, what is new has a new number, and a handle that is in
the table afterwards is registered, or was there before and unregistered already.
-/

namespace LiveTree

/-- What a tree keeps besides its nodes. -/
structure Books where
  settings : TreeSettings
  registrations : List Registration
  handles : List OpenHandle
  nextId : Nat
  nextHandle : Nat

namespace Tree

variable {σ ε : Type}

/-- The books of the tree. -/
def books (t : Tree σ ε) : Books :=
  ⟨t.settings, t.registrations, t.handles, t.nextId, t.nextHandle⟩

/-- Whether the node `ref` leads to has a session open. -/
def busy (t : Tree σ ε) (ref : NodeRef) : Bool := (t.node? ref).any (·.session?.isSome)

/-! ## Nodes in their places -/

theorem node?_setNode_self {t : Tree σ ε} {ref : NodeRef} {n : Node σ ε} (m : Node σ ε)
    (h : t.node? ref = some n) : (t.setNode ref m).node? ref = some m := by
  have hlt : ref.index < t.nodes.length := (List.getElem?_eq_some_iff.mp h).1
  simp [node?, setNode, hlt]

theorem node?_setNode_of_ne {t : Tree σ ε} {ref other : NodeRef} (m : Node σ ε)
    (h : other ≠ ref) : (t.setNode ref m).node? other = t.node? other := by
  have hne : ref.index ≠ other.index := fun he => h (by cases other; cases ref; simp_all)
  simp [node?, setNode, hne]

/-- A node that is taken in comes behind the others. -/
theorem node?_addNode (t : Tree σ ε) (n : Node σ ε) (ref : NodeRef) :
    (t.addNode n).2.node? ref = if ref.index = t.nodes.length then some n else t.node? ref := by
  show (t.nodes ++ [n])[ref.index]? = _
  rcases Nat.lt_trichotomy ref.index t.nodes.length with hlt | heq | hgt
  · rw [List.getElem?_append_left hlt, if_neg (Nat.ne_of_lt hlt)]
    rfl
  · rw [if_pos heq, heq, List.getElem?_concat_length]
  · rw [if_neg (Nat.ne_of_gt hgt), node?, List.getElem?_eq_none (Nat.le_of_lt hgt),
      List.getElem?_eq_none]
    rw [List.length_append, List.length_singleton]
    exact hgt

@[simp] theorem node?_report (t : Tree σ ε) (e : Event) (ref : NodeRef) :
    (t.report e).node? ref = t.node? ref := rfl

theorem busy_of_node? {t : Tree σ ε} {ref : NodeRef} {n : Node σ ε} (h : t.node? ref = some n) :
    t.busy ref = n.session?.isSome := by
  simp [busy, h]

theorem busy_of_nodes {t t' : Tree σ ε} (h : t'.nodes = t.nodes) (ref : NodeRef) :
    t'.busy ref = t.busy ref := by
  simp only [busy, node?, h]

theorem busy_setNode_self {t : Tree σ ε} {ref : NodeRef} {n : Node σ ε} (m : Node σ ε)
    (h : t.node? ref = some n) : (t.setNode ref m).busy ref = m.session?.isSome :=
  busy_of_node? (node?_setNode_self m h)

theorem busy_setNode_of_ne {t : Tree σ ε} {ref other : NodeRef} (m : Node σ ε)
    (h : other ≠ ref) : (t.setNode ref m).busy other = t.busy other := by
  simp only [busy, node?_setNode_of_ne m h]

@[simp] theorem busy_report (t : Tree σ ε) (e : Event) (ref : NodeRef) :
    (t.report e).busy ref = t.busy ref := rfl

/-- A node put in the place of one that was as busy leaves every place as busy as it was. -/
theorem busy_setNode {t : Tree σ ε} {ref : NodeRef} {n m : Node σ ε} (h : t.node? ref = some n)
    (hs : m.session?.isSome = n.session?.isSome) (other : NodeRef) :
    (t.setNode ref m).busy other = t.busy other := by
  by_cases he : other = ref
  · subst he
    rw [busy_setNode_self m h, busy_of_node? h, hs]
  · exact busy_setNode_of_ne m he

/-! ## What leaves the books alone -/

@[simp] theorem books_setNode (t : Tree σ ε) (ref : NodeRef) (n : Node σ ε) :
    (t.setNode ref n).books = t.books := rfl

@[simp] theorem books_report (t : Tree σ ε) (e : Event) : (t.report e).books = t.books := rfl

@[simp] theorem books_publisher (t : Tree σ ε) (s : σ) :
    ({ t with publisher := s } : Tree σ ε).books = t.books := rfl

@[simp] theorem publisher_setNode (t : Tree σ ε) (ref : NodeRef) (n : Node σ ε) :
    (t.setNode ref n).publisher = t.publisher := rfl

@[simp] theorem publisher_report (t : Tree σ ε) (e : Event) :
    (t.report e).publisher = t.publisher := rfl

variable [Foreign ε]

@[simp] theorem books_noteOverlap (t : Tree σ ε) (path : String) :
    (t.noteOverlap path).books = t.books := by
  unfold noteOverlap
  split <;> rfl

@[simp] theorem nodes_noteOverlap (t : Tree σ ε) (path : String) :
    (t.noteOverlap path).nodes = t.nodes := by
  unfold noteOverlap
  split <;> rfl

@[simp] theorem publisher_noteOverlap (t : Tree σ ε) (path : String) :
    (t.noteOverlap path).publisher = t.publisher := by
  unfold noteOverlap
  split <;> rfl

@[simp] theorem publisher_startSession (t : Tree σ ε) (ref : NodeRef) (path : String)
    (access : Access) (content : Bytes) :
    (t.startSession ref path access content).publisher = t.publisher := by
  unfold startSession
  split
  · rfl
  · dsimp only
    split <;> rfl

@[simp] theorem node?_noteOverlap (t : Tree σ ε) (path : String) (ref : NodeRef) :
    (t.noteOverlap path).node? ref = t.node? ref := by
  rw [node?, nodes_noteOverlap, node?]

theorem claims_iff {t : Tree σ ε} {path : String} {r : Registration} :
    t.claims path r = true ↔
      ∃ n, t.node? r.node = some n ∧ n.matchesFile t.publisher path = true :=
  Option.any_eq_true _ _

theorem covers_iff {t : Tree σ ε} {path : String} {r : Registration} :
    t.covers path r = true ↔
      ∃ n, t.node? r.node = some n ∧ n.coversDirectory t.publisher path = true :=
  Option.any_eq_true _ _

/-- The owner of a file is registered and claims it. -/
theorem claims_of_owner? {t : Tree σ ε} {path : String} {r : Registration}
    (h : t.owner? path = some r) : r ∈ t.registrations ∧ t.claims path r = true :=
  List.mem_filter.mp (List.mem_of_mem_head? h)

/-- A file has no owner when no registration claims it. -/
theorem owner?_eq_none {t : Tree σ ε} {path : String} :
    t.owner? path = none ↔ ∀ r ∈ t.registrations, t.claims path r = false := by
  rw [owner?, List.head?_eq_none_iff, claimants, List.filter_eq_nil_iff]
  simp

/-- Where the registrations claim the same, the owner is the same. -/
theorem owner?_congr {t t' : Tree σ ε} {q : String} (hr : t'.registrations = t.registrations)
    (hclaims : ∀ r, t'.claims q r = t.claims q r) : t'.owner? q = t.owner? q := by
  unfold owner? claimants
  rw [funext hclaims, hr]

omit [Foreign ε] in
/-- Whether an id is registered is a matter of the registrations. -/
theorem isRegistered_congr {t t' : Tree σ ε} (h : t'.registrations = t.registrations)
    (id : NodeId) : t'.isRegistered id = t.isRegistered id :=
  congrArg (·.any (·.id = id)) h

theorem claims_congr {t t' : Tree σ ε} {q : String} {r : Registration}
    (h : t'.node? r.node = t.node? r.node) (hpublisher : t'.publisher = t.publisher) :
    t'.claims q r = t.claims q r := by
  unfold claims
  rw [h, hpublisher]

@[simp] theorem books_closeNode (t : Tree σ ε) (ref : NodeRef) :
    (t.closeNode ref).2.books = t.books := by
  unfold closeNode
  split
  · rfl
  · split <;> rfl
  · split
    · rfl
    · dsimp only
      split
      · rfl
      · split <;> rfl
  · split <;> rfl
  · rfl

@[simp] theorem books_startSession (t : Tree σ ε) (ref : NodeRef) (path : String)
    (access : Access) (content : Bytes) :
    (t.startSession ref path access content).books = t.books := by
  unfold startSession
  split
  · rfl
  · dsimp only
    split <;> rfl

@[simp] theorem books_writeNode (t : Tree σ ε) (ref : NodeRef) (offset : Nat) (data : Bytes) :
    (t.writeNode ref offset data).2.books = t.books := by
  unfold writeNode
  split
  · rfl
  · rfl
  · split <;> rfl
  · split <;> rfl
  · split <;> rfl

@[simp] theorem books_resizeOn (t : Tree σ ε) (ref : NodeRef) (path : String) (size : Nat) :
    (t.resizeOn ref path size).2.books = t.books := by
  unfold resizeOn
  split
  · rfl
  · rfl
  · split
    · rfl
    · rfl
    · split <;> rfl
  · split <;> rfl
  · split <;> rfl

@[simp] theorem books_poll (t : Tree σ ε) (ref : NodeRef) (goal : Poll.Goal) :
    (t.poll ref goal).2.books = t.books := by
  unfold poll
  split
  · rfl
  · rfl
  · rfl
  · split <;> rfl
  · split <;> rfl

/-! ## What changes the books -/

omit [Foreign ε] in
/-- Taking a handle finds it in the table, and leaves the table without its number. -/
theorem takeHandle_eq_some {t t' : Tree σ ε} {h : Handle} {o : OpenHandle}
    (ht : t.takeHandle h = some (o, t')) :
    o ∈ t.handles ∧ o.handle = h ∧
      t' = { t with handles := t.handles.filter (·.handle ≠ h) } := by
  unfold takeHandle handle? at ht
  split at ht
  · cases ht
  · next found hf =>
    cases ht
    exact ⟨List.mem_of_find?_eq_some hf, by simpa using List.find?_some hf, rfl⟩

omit [Foreign ε] in
/-- A handle that cannot be taken has no entry in the table. -/
theorem takeHandle_eq_none {t : Tree σ ε} {h : Handle} (ht : t.takeHandle h = none) :
    t.handles.filter (·.handle ≠ h) = t.handles := by
  unfold takeHandle handle? at ht
  split at ht
  · next hf => exact List.filter_eq_self.mpr (by simpa using hf)
  · cases ht

/-- Closing a handle whose registration is gone strikes its number off the table. -/
theorem books_closeStale (t : Tree σ ε) (h : Handle) :
    (t.closeStale h).books =
      ({ t with handles := t.handles.filter (·.handle ≠ h) } : Tree σ ε).books := by
  unfold closeStale
  split
  · next ht => rw [takeHandle_eq_none ht]
  · next o taken ht =>
    obtain ⟨-, -, rfl⟩ := takeHandle_eq_some ht
    have hclose := books_closeNode { t with handles := t.handles.filter (·.handle ≠ h) } o.node
    split <;> next hc => rw [hc] at hclose; exact hclose

omit [Foreign ε] in
/-- Striking numbers off one after the other strikes them all off. -/
theorem books_foldl_strikes {f : Tree σ ε → Handle → Tree σ ε}
    (hf : ∀ t h, (f t h).books =
      ({ t with handles := t.handles.filter (·.handle ≠ h) } : Tree σ ε).books)
    (hs : List Handle) (t : Tree σ ε) : (hs.foldl f t).books =
      ({ t with handles := t.handles.filter (·.handle ∉ hs) } : Tree σ ε).books := by
  induction hs generalizing t with
  | nil => simp [books, List.filter_eq_self.mpr]
  | cons h hs ih =>
      have hb := hf t h
      simp only [books, Books.mk.injEq] at hb ih ⊢
      obtain ⟨hs₁, hr, hh, hi, hn⟩ := hb
      rw [List.foldl_cons]
      obtain ⟨hs₁', hr', hh', hi', hn'⟩ := ih (f t h)
      refine ⟨hs₁'.trans hs₁, hr'.trans hr, ?_, hi'.trans hi, hn'.trans hn⟩
      rw [hh', hh, List.filter_filter]
      congr 1
      funext o
      simp [Bool.and_comm]

/-- So it is when several handles are closed whose registration is gone. -/
theorem books_foldl_closeStale (hs : List Handle) (t : Tree σ ε) :
    (hs.foldl closeStale t).books =
      ({ t with handles := t.handles.filter (·.handle ∉ hs) } : Tree σ ε).books :=
  books_foldl_strikes books_closeStale hs t

/-- Removing a registration takes it and all its handles out of the books. -/
theorem books_unregister (t : Tree σ ε) (id : NodeId) :
    (t.unregister id).2.books =
      if t.isRegistered id then
        ({ t with
          registrations := t.registrations.filter (·.id ≠ id)
          handles := t.handles.filter (·.handle ∉ t.handlesOf id) } : Tree σ ε).books
      else t.books := by
  unfold unregister
  split
  · exact books_foldl_closeStale _ _
  · rfl

/-! ## What any operation keeps -/

/-- What the books of `t'` may be when `t'` came out of `t`: numbers only go up, what is new bears a
number that was not given yet, and an entry of the table is registered unless it was there before
without being so. -/
structure Proceeds (t t' : Tree σ ε) : Prop where
  settings : t'.settings = t.settings
  nextId : t.nextId ≤ t'.nextId
  nextHandle : t.nextHandle ≤ t'.nextHandle
  registration : ∀ r ∈ t'.registrations,
    r ∈ t.registrations ∨ (t.nextId ≤ r.id.number ∧ r.id.number < t'.nextId)
  handle : ∀ o ∈ t'.handles,
    o ∈ t.handles ∨ (t.nextHandle ≤ o.handle.number ∧ o.handle.number < t'.nextHandle)
  settled : ∀ o ∈ t'.handles,
    t'.isRegistered o.id = true ∨ (o ∈ t.handles ∧ t.isRegistered o.id = false)

omit [Foreign ε] in
/-- What leaves the books alone proceeds. -/
theorem Proceeds.of_books {t t' : Tree σ ε} (h : t'.books = t.books) : Proceeds t t' := by
  simp only [books, Books.mk.injEq] at h
  obtain ⟨hs, hr, hh, hi, hn⟩ := h
  have hreg : ∀ id, t'.isRegistered id = t.isRegistered id := isRegistered_congr hr
  refine ⟨hs, Nat.le_of_eq hi.symm, Nat.le_of_eq hn.symm, ?_, ?_, ?_⟩
  · intro r hmem
    exact .inl (hr ▸ hmem)
  · intro o hmem
    exact .inl (hh ▸ hmem)
  · intro o hmem
    rw [hreg]
    rcases hb : t.isRegistered o.id with _ | _
    · exact .inr ⟨hh ▸ hmem, rfl⟩
    · exact .inl rfl

omit [Foreign ε] in
theorem Proceeds.refl (t : Tree σ ε) : Proceeds t t := .of_books rfl

omit [Foreign ε] in
theorem Proceeds.trans {t₁ t₂ t₃ : Tree σ ε} (h : Proceeds t₁ t₂) (h' : Proceeds t₂ t₃) :
    Proceeds t₁ t₃ := by
  refine ⟨h'.settings.trans h.settings, Nat.le_trans h.nextId h'.nextId,
    Nat.le_trans h.nextHandle h'.nextHandle, ?_, ?_, ?_⟩
  · intro r hr
    have := h.nextId
    have := h'.nextId
    rcases h'.registration r hr with hr | hr
    · rcases h.registration r hr with hr | hr
      · exact .inl hr
      · exact .inr (by omega)
    · exact .inr (by omega)
  · intro o ho
    have := h.nextHandle
    have := h'.nextHandle
    rcases h'.handle o ho with ho | ho
    · rcases h.handle o ho with ho | ho
      · exact .inl ho
      · exact .inr (by omega)
    · exact .inr (by omega)
  · intro o ho
    rcases h'.settled o ho with hr | ⟨ho, hr⟩
    · exact .inl hr
    · -- an entry without a registration in the middle was without one from the start
      rcases h.settled o ho with hr' | hold
      · rw [hr] at hr'
        cases hr'
      · exact .inr hold

/-- Every open handle has a number that has been given. -/
def Numbered (t : Tree σ ε) : Prop := ∀ o ∈ t.handles, o.handle.number < t.nextHandle

omit [Foreign ε] in
theorem Proceeds.numbered {t t' : Tree σ ε} (h : Proceeds t t') (hnumbered : t.Numbered) :
    t'.Numbered := by
  intro o ho
  rcases h.handle o ho with hold | hnew
  · exact Nat.lt_of_lt_of_le (hnumbered o hold) h.nextHandle
  · exact hnew.2

theorem proceeds_unregister (t : Tree σ ε) (id : NodeId) : Proceeds t (t.unregister id).2 := by
  have hb := books_unregister t id
  split at hb
  · simp only [books, Books.mk.injEq] at hb
    obtain ⟨hs, hr, hh, hi, hn⟩ := hb
    refine ⟨hs, Nat.le_of_eq hi.symm, Nat.le_of_eq hn.symm, ?_, ?_, ?_⟩
    · intro r hmem
      rw [hr] at hmem
      exact .inl (List.mem_filter.mp hmem).1
    · intro o hmem
      rw [hh] at hmem
      exact .inl (List.mem_filter.mp hmem).1
    · intro o hmem
      rw [hh, List.mem_filter] at hmem
      obtain ⟨hmem, hnot⟩ := hmem
      -- an entry of the removed registration would have been struck off
      have hne : o.id ≠ id := by
        rintro rfl
        exact of_decide_eq_true hnot (List.mem_map_of_mem (List.mem_filter.mpr ⟨hmem, by simp⟩))
      have hsame : (t.unregister id).2.isRegistered o.id = t.isRegistered o.id := by
        simp only [isRegistered, hr, List.any_filter]
        congr 1
        funext r
        by_cases he : r.id = o.id
        · simp [he, hne]
        · simp [he]
      rw [hsame]
      rcases hreg : t.isRegistered o.id with _ | _
      · exact .inr ⟨hmem, rfl⟩
      · exact .inl rfl
  · exact .of_books hb

/-- The tree as a provider finds it, after the removals it asks for. -/
def afterRemovals (t : Tree σ ε) (p : Provider σ) : Tree σ ε :=
  (p.removals t.publisher).foldl (fun t id => (t.unregister id).2) t

/-- What every removal keeps is so after the removals that a provider asks for. -/
theorem afterRemovals_induction {P : Tree σ ε → Prop}
    (hstep : ∀ t id, P t → P (t.unregister id).2) {t : Tree σ ε} (h : P t) (p : Provider σ) :
    P (t.afterRemovals p) := by
  unfold afterRemovals
  induction p.removals t.publisher generalizing t with
  | nil => exact h
  | cons id ids ih => exact ih (hstep t id h)

theorem afterRemovals_eq_self {t : Tree σ ε} {p : Provider σ} (h : p.removals t.publisher = []) :
    t.afterRemovals p = t := by
  rw [afterRemovals, h, List.foldl_nil]

/-- Running a provider: it finds the tree after its removals, and supplies something once. -/
theorem provide_eq_supply (t : Tree σ ε) (p : Provider σ) : t.provide p =
    ((p.supply (t.afterRemovals p).listing (t.afterRemovals p).publisher).1.mapError .ofFailure,
      { t.afterRemovals p with
        publisher := (p.supply (t.afterRemovals p).listing (t.afterRemovals p).publisher).2 }) := by
  unfold provide
  dsimp only
  rw [← afterRemovals]
  split <;> next hs => rw [hs]; rfl

/-- Running a provider does nothing to the nodes but the removals. -/
theorem nodes_provide (t : Tree σ ε) (p : Provider σ) :
    (t.provide p).2.nodes = (t.afterRemovals p).nodes := by
  rw [provide_eq_supply]

/-- Nor does it do anything else to the books. -/
theorem books_provide (t : Tree σ ε) (p : Provider σ) :
    (t.provide p).2.books = (t.afterRemovals p).books := by
  rw [provide_eq_supply]
  rfl

theorem proceeds_provide (t : Tree σ ε) (p : Provider σ) : Proceeds t (t.provide p).2 := by
  have hremovals : Proceeds t (t.afterRemovals p) := by
    refine afterRemovals_induction ?_ (.refl t) p
    intro t' id h
    exact h.trans (proceeds_unregister t' id)
  exact hremovals.trans (.of_books (books_provide t p))

theorem proceeds_fetch (t : Tree σ ε) (source : Source σ) : Proceeds t (t.fetch source).2 := by
  cases source with
  | provided p => exact proceeds_provide t p
  | held content => exact .refl t

/-! ### Queries -/

theorem proceeds_sizeOn (t : Tree σ ε) (ref : NodeRef) (path : String) :
    Proceeds t (t.sizeOn ref path).2 := by
  unfold sizeOn
  split
  · exact .refl t
  · split
    · exact .refl t
    · exact proceeds_provide t _
  · split
    · exact .refl t
    · exact proceeds_provide t _
  · exact .refl t
  · exact .refl t

theorem proceeds_stat (t : Tree σ ε) (path : String) : Proceeds t (t.stat path).2 := by
  unfold stat
  split
  · exact .refl t
  · next path _ =>
    split
    · next r _ =>
      have hsize := (Proceeds.of_books (books_noteOverlap t path)).trans
        (proceeds_sizeOn (t.noteOverlap path) r.node path)
      split <;> next hs => rwa [hs] at hsize
    · split <;> exact .refl t

theorem proceeds_truncate (t : Tree σ ε) (path : String) (size : Nat) :
    Proceeds t (t.truncate path size).2 := by
  unfold truncate
  split
  · exact .refl t
  · split
    · exact .refl t
    · exact .of_books (by simp)

/-! ### Sessions -/

theorem proceeds_openNode (t : Tree σ ε) (ref : NodeRef) (path : String) (access : Access) :
    Proceeds t (t.openNode ref path access).2 := by
  unfold openNode
  split
  · exact .refl t
  · split
    · exact .refl t
    · next source _ =>
      have hfetch := proceeds_fetch t source
      split <;> next hs => rw [hs] at hfetch; exact hfetch.trans (.of_books (by simp))

/-- The handles are numbered still when the node of a file has been opened. -/
theorem Numbered.openNode {t opened : Tree σ ε} {ref : NodeRef} {path : String} {access : Access}
    {result : Except Fault Unit} (h : t.Numbered)
    (ho : (t.noteOverlap path).openNode ref path access = (result, opened)) : opened.Numbered := by
  have hproceeds := (Proceeds.of_books (books_noteOverlap t path)).trans
    (proceeds_openNode (t.noteOverlap path) ref path access)
  rw [ho] at hproceeds
  exact hproceeds.numbered h

omit [Foreign ε] in
/-- The entry that an open adds, and the books behind it. -/
theorem addHandle_eq (t : Tree σ ε) (r : Registration) (path : String) :
    t.addHandle r path = (⟨⟨t.nextHandle⟩, r.id, r.node, path⟩,
      { t with
        handles := t.handles ++ [⟨⟨t.nextHandle⟩, r.id, r.node, path⟩]
        nextHandle := t.nextHandle + 1 }) := rfl

theorem books_undoOpen (t : Tree σ ε) (o : OpenHandle) :
    (t.undoOpen o).books =
      ({ t with handles := t.handles.filter (·.handle ≠ o.handle) } : Tree σ ε).books := by
  unfold undoOpen
  split
  · next ht => rw [takeHandle_eq_none ht]
  · next o' taken ht =>
    obtain ⟨-, -, rfl⟩ := takeHandle_eq_some ht
    have hclose :=
      books_closeNode { t with handles := t.handles.filter (·.handle ≠ o.handle) } o'.node
    split <;> next hc => rw [hc] at hclose; exact hclose

/-- A session gets a handle for good only while its registration is there. -/
theorem proceeds_confirmOpen (t : Tree σ ε) (r : Registration) (path : String) :
    Proceeds t ((t.addHandle r path).2.confirmOpen (t.addHandle r path).1).2 := by
  rw [addHandle_eq]
  unfold confirmOpen
  split
  · next hreg =>
    -- the new entry stays, and its registration was seen to be there
    refine ⟨rfl, Nat.le_refl _, Nat.le_succ _, fun _ hr => .inl hr, ?_, ?_⟩
    · intro o ho
      rcases List.mem_append.mp ho with ho | ho
      · exact .inl ho
      · rw [List.mem_singleton.mp ho]
        exact .inr ⟨Nat.le_refl _, Nat.lt_succ_self _⟩
    · intro o ho
      rcases List.mem_append.mp ho with ho | ho
      · rcases hb : t.isRegistered o.id with _ | _
        · exact .inr ⟨ho, rfl⟩
        · exact .inl hb
      · rw [List.mem_singleton.mp ho]
        exact .inl hreg
  · next hreg =>
    -- the entry that was added bears the number that is struck off again
    have hb := books_undoOpen { t with
        handles := t.handles ++ [⟨⟨t.nextHandle⟩, r.id, r.node, path⟩]
        nextHandle := t.nextHandle + 1 } ⟨⟨t.nextHandle⟩, r.id, r.node, path⟩
    simp only [books, Books.mk.injEq] at hb
    obtain ⟨hs, hr, hh, hi, hn⟩ := hb
    have hback : ∀ o ∈ ((t.addHandle r path).2.undoOpen (t.addHandle r path).1).handles,
        o ∈ t.handles := by
      intro o ho
      rw [addHandle_eq, hh, List.mem_filter, List.mem_append, List.mem_singleton] at ho
      obtain ⟨ho | rfl, hne⟩ := ho
      · exact ho
      · simp at hne
    refine ⟨hs, Nat.le_of_eq hi.symm, Nat.le_trans (Nat.le_succ _) (Nat.le_of_eq hn.symm),
      fun r' hr' => .inl (hr ▸ hr'), fun o ho => .inl (hback o ho), ?_⟩
    intro o ho
    have hsame : ((t.addHandle r path).2.undoOpen (t.addHandle r path).1).isRegistered o.id =
        t.isRegistered o.id := isRegistered_congr hr o.id
    rcases hb : t.isRegistered o.id with _ | _
    · exact .inr ⟨hback o ho, rfl⟩
    · exact .inl (hsame.trans hb)

theorem proceeds_openFile (t : Tree σ ε) (path : String) (access : Access) :
    Proceeds t (t.openFile path access).2 := by
  unfold openFile
  split
  · exact .refl t
  · next path _ =>
    split
    · exact .refl t
    · next r _ =>
      have hopen := (Proceeds.of_books (books_noteOverlap t path)).trans
        (proceeds_openNode (t.noteOverlap path) r.node path access)
      split
      · next hs =>
        rw [hs] at hopen
        exact hopen
      · next hs =>
        rw [hs] at hopen
        exact hopen.trans (proceeds_confirmOpen _ r path)

theorem books_write (t : Tree σ ε) (h : Handle) (offset : Nat) (data : Bytes) :
    (t.write h offset data).2.books = t.books := by
  unfold write
  split
  · rfl
  · split
    · rfl
    · simp

theorem proceeds_write (t : Tree σ ε) (h : Handle) (offset : Nat) (data : Bytes) :
    Proceeds t (t.write h offset data).2 :=
  .of_books (books_write t h offset data)

omit [Foreign ε] in
/-- Taking a handle off the table proceeds. -/
theorem proceeds_takeHandle {t t' : Tree σ ε} {h : Handle} {o : OpenHandle}
    (ht : t.takeHandle h = some (o, t')) : Proceeds t t' := by
  obtain ⟨-, -, rfl⟩ := takeHandle_eq_some ht
  refine ⟨rfl, Nat.le_refl _, Nat.le_refl _, fun _ hr => .inl hr, ?_, ?_⟩
  · intro o ho
    exact .inl (List.mem_filter.mp ho).1
  · intro o ho
    rcases hb : t.isRegistered o.id with _ | _
    · exact .inr ⟨(List.mem_filter.mp ho).1, rfl⟩
    · exact .inl hb

theorem proceeds_close (t : Tree σ ε) (h : Handle) : Proceeds t (t.close h).2 := by
  unfold close
  split
  · exact .refl t
  · next ht => exact (proceeds_takeHandle ht).trans (.of_books (by simp))

theorem proceeds_readAll (t : Tree σ ε) (path : String) : Proceeds t (t.readAll path).2 := by
  unfold readAll
  have hopen := proceeds_openFile t path .reading
  split
  · next hs =>
    rw [hs] at hopen
    exact hopen
  · next hs =>
    rw [hs] at hopen
    exact hopen.trans (proceeds_close _ _)

theorem proceeds_writeAll (t : Tree σ ε) (path : String) (data : Bytes) :
    Proceeds t (t.writeAll path data).2 := by
  unfold writeAll
  have hopen := proceeds_openFile t path .writing
  split
  · next hs =>
    rw [hs] at hopen
    exact hopen
  · next hs =>
    rw [hs] at hopen
    exact hopen.trans ((proceeds_write _ _ _ _).trans (proceeds_close _ _))

/-! ### Changes -/

theorem proceeds_notify (t : Tree σ ε) (ref : NodeRef) : Proceeds t (t.notify ref).2 := by
  unfold «notify»
  split
  · next n _ =>
    have hprovide := proceeds_provide t n.provider
    split
    · next hs =>
      rw [hs] at hprovide
      exact hprovide
    · next hs =>
      rw [hs] at hprovide
      split
      · split
        · exact hprovide
        · exact hprovide.trans (.of_books (by simp))
      · exact hprovide
  · exact .refl t

theorem books_longPoll (t : Tree σ ε) (h : Handle) (offset size : Nat) :
    (t.longPoll h offset size).2.books = t.books := by
  unfold longPoll
  split
  · rfl
  · simp

theorem books_longPollAll (t : Tree σ ε) (h : Handle) :
    (t.longPollAll h).2.books = t.books := by
  unfold longPollAll
  split
  · rfl
  · simp

theorem proceeds_longPoll (t : Tree σ ε) (h : Handle) (offset size : Nat) :
    Proceeds t (t.longPoll h offset size).2 :=
  .of_books (books_longPoll t h offset size)

theorem proceeds_longPollAll (t : Tree σ ε) (h : Handle) : Proceeds t (t.longPollAll h).2 :=
  .of_books (books_longPollAll t h)

omit [Foreign ε] in
/-- A reader that is let through, or told that its session has ended, leaves the books alone. -/
theorem books_wake? {t t' : Tree σ ε} {p : Poll} {result : Except Fault Unit}
    (h : t.wake? p = some (result, t')) : t'.books = t.books := by
  unfold wake? at h
  split at h
  · split at h <;> cases h <;> rfl
  · cases h
    rfl

theorem books_finish? {t t' : Tree σ ε} {p : Poll} {result : Except Fault Bytes}
    (h : t.finish? p = some (result, t')) : t'.books = t.books := by
  unfold finish? at h
  split at h
  · cases h
  · next hw =>
    cases h
    exact books_wake? hw
  · next hw =>
    cases h
    exact books_wake? hw

/-- A registration takes the next id, and is put behind the others. -/
theorem books_register (t : Tree σ ε) (ref : NodeRef) :
    (t.register ref).2.books =
      ({ t with registrations := t.registrations ++ [⟨⟨t.nextId⟩, ref⟩], nextId := t.nextId + 1 } :
        Tree σ ε).books := by
  unfold register
  dsimp only
  split <;> rfl

theorem proceeds_register (t : Tree σ ε) (ref : NodeRef) : Proceeds t (t.register ref).2 := by
  have hb := books_register t ref
  simp only [books, Books.mk.injEq] at hb
  obtain ⟨hs, hr, hh, hi, hn⟩ := hb
  refine ⟨hs, Nat.le_trans (Nat.le_succ _) (Nat.le_of_eq hi.symm), Nat.le_of_eq hn.symm,
    ?_, fun o ho => .inl (hh ▸ ho), ?_⟩
  · intro r hmem
    rw [hr] at hmem
    rcases List.mem_append.mp hmem with hmem | hmem
    · exact .inl hmem
    · rw [List.mem_singleton.mp hmem, hi]
      exact .inr ⟨Nat.le_refl _, Nat.lt_succ_self _⟩
  · intro o ho
    rcases hb : t.isRegistered o.id with _ | _
    · exact .inr ⟨hh ▸ ho, rfl⟩
    · refine .inl ?_
      simp only [isRegistered, hr, List.any_append, Bool.or_eq_true] at hb ⊢
      exact .inl hb

end Tree

end LiveTree
