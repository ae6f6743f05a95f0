import LiveTree.Proofs.Changes
import LiveTree.Proofs.Moves
import Mathlib.Logic.Relation

/-!
# Ticks

An operation on a tree may run a provider, close several sessions and open one. Taken apart, it is a
sequence of *ticks*: a node goes on with the session it has, a session begins on an idle node and is
given a handle, or a handle is taken and the session of its node ends (`ticks_perform`). Only an
announcement and a reader that is let through are no ticks; they are told apart by `notify_eq` and
`look_eq`.

So what every tick keeps is kept by every operation. One such thing is that a handle of a read-write
node is the only one of it, and its session is open (`Held`). Another is the *bond* between a handle
and the session it was given for: the two are there together, and go together (`Bond.tick`).
-/

namespace LiveTree

open Relation (ReflTransGen)

variable {σ ε : Type}

/-- The node goes on with its session, or without one. A reader that waits there is told nothing. -/
inductive Node.GoesOn : Node σ ε → Node σ ε → Prop where
  | readWrite {n m : ReadWrite σ} (step : ReadWrite.Step .nothing n m)
      (same : m.session.map (·.number) = n.session.map (·.number)) :
      GoesOn (.readWrite n) (.readWrite m)
  | keyStore {n m : KeyStore σ} (step : n.Step m)
      (same : m.session.isSome = n.session.isSome) : GoesOn (.keyStore n) (.keyStore m)
  | foreign (e e' : ε) (removals : σ → List NodeId) :
      GoesOn (.foreign e removals) (.foreign e' removals)

/-- A node that is a read-write node once it has been closed was one before. -/
theorem Node.eq_readWrite_of_closed [Foreign ε] {n : Node σ ε} {m : ReadWrite σ}
    (h : n.closed = .readWrite m) : ∃ n', n = .readWrite n' := by
  cases n with
  | readWrite n => exact ⟨n, rfl⟩
  | foreign e removals => cases h
  | _ => simp only [closed] at h; split at h <;> cases h

/-- Nothing is announced by it, and no reader is let through. -/
def Sign.IsQuiet : Sign → Prop
  | .nothing | .opened => True
  | .announced _ | .caughtUp => False

/-! ## What writes and resizes leave as it is -/

theorem ReadWrite.number_write {n m : ReadWrite σ} {offset : Nat} {data : Bytes}
    (h : n.write offset data = .ok m) :
    m.session.map (·.number) = n.session.map (·.number) := by
  obtain ⟨session, inner, hs, -, rfl⟩ := write_eq_ok h
  rw [hs]
  rfl

theorem ReadWrite.number_resize {n m : ReadWrite σ} {s : σ} {path : String} {size : Nat}
    {content : Option Bytes} (h : n.resize s path size = .ok (m, content)) :
    m.session.map (·.number) = n.session.map (·.number) := by
  obtain ⟨session, inner, hs, -, rfl, -⟩ | ⟨rfl, -⟩ := resize_eq_ok h
  · rw [hs]
    rfl
  · rfl

namespace Tree

variable [Foreign ε]

/-! ## Ticks -/

/-- The least that happens to a tree, announcements apart. -/
inductive Tick : Tree σ ε → Tree σ ε → Prop where
  /-- Neither a node nor the table of handles is touched. -/
  | rests {t t' : Tree σ ε} (nodes : t'.nodes = t.nodes) (handles : t'.handles = t.handles)
      (next : t'.nextHandle = t.nextHandle) : Tick t t'
  | goesOn {t : Tree σ ε} {ref : NodeRef} {n m : Node σ ε} (hn : t.node? ref = some n)
      (h : n.GoesOn m) : Tick t (t.setNode ref m)
  | begins {t : Tree σ ε} {r : Registration} {n : Node σ ε}
      (hn : t.node? r.node = some n) (idle : n.session? = none) (path : String) (access : Access)
      (content : Bytes) :
      Tick t ((t.startSession r.node path access content).addHandle r path).2
  | ends {t taken : Tree σ ε} {handle : Handle} {o : OpenHandle}
      (ht : t.takeHandle handle = some (o, taken)) : Tick t (taken.closeNode o.node).2

variable {t t' : Tree σ ε}

theorem ticks_of_books (hn : t'.nodes = t.nodes) (hb : t'.books = t.books) :
    ReflTransGen Tick t t' := by
  simp only [books, Books.mk.injEq] at hb
  exact .single (.rests hn hb.2.2.1 hb.2.2.2.2)

theorem ticks_report (h : ReflTransGen Tick t t') (e : Event) :
    ReflTransGen Tick t (t'.report e) :=
  h.trans (ticks_of_books rfl rfl)

theorem ticks_noteOverlap (t : Tree σ ε) (path : String) :
    ReflTransGen Tick t (t.noteOverlap path) :=
  ticks_of_books (nodes_noteOverlap t path) (books_noteOverlap t path)

/-! ## Removals and providers -/

/-- A handle is taken and the session of its node ends; a failure of that is reported. -/
theorem ticks_reporting {handle : Handle} {o : OpenHandle} {taken : Tree σ ε}
    (ht : t.takeHandle handle = some (o, taken)) (failed : Fault → Event) :
    ReflTransGen Tick t (match taken.closeNode o.node with
      | (.ok (), t) => t
      | (.error fault, t) => t.report (failed fault)) := by
  have hends : ReflTransGen Tick t (taken.closeNode o.node).2 := .single (.ends ht)
  split
  · next hc =>
    rw [hc] at hends
    exact hends
  · next hc =>
    rw [hc] at hends
    exact ticks_report hends _

theorem ticks_closeStale (t : Tree σ ε) (handle : Handle) :
    ReflTransGen Tick t (t.closeStale handle) := by
  unfold closeStale
  split
  · exact .refl
  · next ht => exact ticks_reporting ht _

theorem ticks_unregister (t : Tree σ ε) (id : NodeId) :
    ReflTransGen Tick t (t.unregister id).2 := by
  have hfold : ∀ (stale : List Handle) (t : Tree σ ε),
      ReflTransGen Tick t (stale.foldl closeStale t) := by
    intro stale
    induction stale with
    | nil => exact fun t => .refl
    | cons handle stale ih => exact fun t => (ticks_closeStale t handle).trans (ih _)
  unfold unregister
  split
  · have hdropped : ReflTransGen Tick t (t.dropRegistration id) := .single (.rests rfl rfl rfl)
    exact ticks_report (hdropped.trans (hfold _ _)) _
  · exact .refl

theorem ticks_provide (t : Tree σ ε) (p : Provider σ) :
    ReflTransGen Tick t (t.provide p).2 := by
  have hremovals : ReflTransGen Tick t (t.afterRemovals p) := by
    apply afterRemovals_induction _ .refl p
    intro t' id h
    exact h.trans (ticks_unregister t' id)
  exact hremovals.trans (ticks_of_books (nodes_provide t p) (books_provide t p))

theorem ticks_fetch (t : Tree σ ε) (source : Source σ) :
    ReflTransGen Tick t (t.fetch source).2 := by
  cases source with
  | provided p => exact ticks_provide t p
  | held content => exact .refl

theorem ticks_sizeOn (t : Tree σ ε) (ref : NodeRef) (path : String) :
    ReflTransGen Tick t (t.sizeOn ref path).2 := by
  unfold sizeOn
  split
  · exact .refl
  · split
    · exact .refl
    · exact ticks_provide t _
  · split
    · exact .refl
    · exact ticks_provide t _
  · exact .refl
  · exact .refl

theorem ticks_stat (t : Tree σ ε) (path : String) : ReflTransGen Tick t (t.stat path).2 := by
  unfold stat
  split
  · exact .refl
  · next path _ =>
    split
    · next r _ =>
      have hsize := (ticks_noteOverlap t path).trans
        (ticks_sizeOn (t.noteOverlap path) r.node path)
      split <;> next hs => rwa [hs] at hsize
    · split <;> exact .refl

/-! ## Opening, writing, closing -/

theorem ticks_undoOpen (t : Tree σ ε) (o : OpenHandle) :
    ReflTransGen Tick t (t.undoOpen o) := by
  unfold undoOpen
  split
  · exact .refl
  · next ht => exact ticks_reporting ht _

theorem ticks_confirmOpen (t : Tree σ ε) (o : OpenHandle) :
    ReflTransGen Tick t (t.confirmOpen o).2 := by
  unfold confirmOpen
  split
  · exact .refl
  · exact ticks_report (ticks_undoOpen t o) _

/-- A granted open runs the provider, and then a session begins: the node was idle, and is so still
when the provider has run. -/
theorem ticks_openNode {r : Registration} {path : String} {access : Access}
    (h : t.openNode r.node path access = (.ok (), t')) :
    ReflTransGen Tick t (t'.addHandle r path).2 := by
  obtain ⟨n, source, fetched, content, hn, hp, hf, rfl⟩ := openNode_eq_ok h
  have hfetched := ticks_fetch t source
  have hcloses := onlyCloses_fetch t source
  rw [hf] at hfetched hcloses
  obtain ⟨k, hk⟩ := hcloses r.node
  rw [hn, Option.map_some] at hk
  have hidle := session?_of_onlyCloses hcloses hn hk (Node.session?_of_permit hp)
  exact hfetched.tail (.begins hk hidle path access content)

theorem ticks_openFile (t : Tree σ ε) (path : String) (access : Access) :
    ReflTransGen Tick t (t.openFile path access).2 := by
  unfold openFile
  split
  · exact .refl
  · next path _ =>
    split
    · exact .refl
    · next r _ =>
      have hnoted := ticks_noteOverlap t path
      split
      · next ho =>
        rcases openNode_eq_error ho with rfl | ⟨source, rfl⟩
        · exact hnoted
        · exact hnoted.trans (ticks_fetch _ source)
      · next ho => exact (hnoted.trans (ticks_openNode ho)).trans (ticks_confirmOpen _ _)

theorem ticks_writeNode (t : Tree σ ε) (ref : NodeRef) (offset : Nat) (data : Bytes) :
    ReflTransGen Tick t (t.writeNode ref offset data).2 := by
  unfold writeNode
  split
  · exact .refl
  · exact .refl
  · next n hn =>
    split
    · exact .refl
    · next m hw =>
      exact .single (.goesOn hn (.readWrite (.write hw) (ReadWrite.number_write hw)))
  · next n hn =>
    split
    · exact .refl
    · next m hw =>
      exact .single (.goesOn hn (.keyStore (.write hw) (KeyStore.isSome_session_write hw)))
  · next e removals hn =>
    split
    · exact .refl
    · next e' _ => exact .single (.goesOn hn (.foreign e e' removals))

theorem ticks_write (t : Tree σ ε) (handle : Handle) (offset : Nat) (data : Bytes) :
    ReflTransGen Tick t (t.write handle offset data).2 := by
  unfold write
  split
  · exact .refl
  · split
    · exact .refl
    · exact ticks_writeNode t _ offset data

theorem ticks_close (t : Tree σ ε) (handle : Handle) :
    ReflTransGen Tick t (t.close handle).2 := by
  unfold close
  split
  · exact .refl
  · next o taken ht => exact .single (.ends ht)

theorem ticks_readAll (t : Tree σ ε) (path : String) :
    ReflTransGen Tick t (t.readAll path).2 := by
  unfold readAll
  have hopen := ticks_openFile t path .reading
  split
  · next ho =>
    rw [ho] at hopen
    exact hopen
  · next ho =>
    rw [ho] at hopen
    exact hopen.trans (ticks_close _ _)

theorem ticks_writeAll (t : Tree σ ε) (path : String) (data : Bytes) :
    ReflTransGen Tick t (t.writeAll path data).2 := by
  unfold writeAll
  have hopen := ticks_openFile t path .writing
  split
  · next ho =>
    rw [ho] at hopen
    exact hopen
  · next ho =>
    rw [ho] at hopen
    exact hopen.trans ((ticks_write _ _ _ _).trans (ticks_close _ _))

/-! ## Other changes -/

theorem ticks_resizeOn (t : Tree σ ε) (ref : NodeRef) (path : String) (size : Nat) :
    ReflTransGen Tick t (t.resizeOn ref path size).2 := by
  unfold resizeOn
  split
  · exact .refl
  · exact .refl
  · next n hn =>
    split
    · exact .refl
    · next m hr =>
      exact .single (.goesOn hn (.readWrite (.resize hr) (ReadWrite.number_resize hr)))
    · split <;> exact ticks_of_books rfl rfl
  · next n hn =>
    split
    · exact .refl
    · next m hr =>
      exact .single (.goesOn hn (.keyStore (.resize hr) (KeyStore.isSome_session_resize hr)))
  · next e removals hn =>
    split
    · exact .refl
    · next e' _ => exact .single (.goesOn hn (.foreign e e' removals))

theorem ticks_truncate (t : Tree σ ε) (path : String) (size : Nat) :
    ReflTransGen Tick t (t.truncate path size).2 := by
  unfold truncate
  split
  · exact .refl
  · next path _ =>
    split
    · exact .refl
    · exact (ticks_noteOverlap t path).trans (ticks_resizeOn _ _ path size)

theorem ticks_insertKey (t : Tree σ ε) (ref : NodeRef) (key : String) (value : Bytes) :
    ReflTransGen Tick t (t.insertKey ref key value) := by
  unfold insertKey
  split
  · next n hn =>
    split
    · exact .refl
    · next m hi =>
      refine .single (.goesOn hn (.keyStore (.insert hi) ?_))
      unfold KeyStore.insert at hi
      split at hi <;> cases hi
      rfl
  · exact .refl

theorem ticks_removeKey (t : Tree σ ε) (ref : NodeRef) (key : String) :
    ReflTransGen Tick t (t.removeKey ref key) := by
  unfold removeKey
  split
  · next n hn => exact .single (.goesOn hn (.keyStore (.remove key) rfl))
  · exact .refl

theorem ticks_register (t : Tree σ ε) (ref : NodeRef) :
    ReflTransGen Tick t (t.register ref).2 := by
  unfold register
  dsimp only
  split <;> exact .single (.rests rfl rfl rfl)

/-- A poll begins with no more than a tick: a foreign node may go on with its next content. -/
theorem ticks_poll (t : Tree σ ε) (ref : NodeRef) (goal : Poll.Goal) :
    ReflTransGen Tick t (t.poll ref goal).2 := by
  unfold poll
  split
  · exact .refl
  · exact .refl
  · exact .refl
  · split <;> exact .refl
  · next e removals hn =>
    split
    · exact .refl
    · next e' _ => exact .single (.goesOn hn (.foreign e e' removals))

theorem ticks_longPoll (t : Tree σ ε) (handle : Handle) (offset size : Nat) :
    ReflTransGen Tick t (t.longPoll handle offset size).2 := by
  unfold longPoll
  split
  · exact .refl
  · exact ticks_poll t _ _

theorem ticks_longPollAll (t : Tree σ ε) (handle : Handle) :
    ReflTransGen Tick t (t.longPollAll handle).2 := by
  unfold longPollAll
  split
  · exact .refl
  · exact ticks_poll t _ _

/-! ## Announcements, and readers that are let through -/

/-- What becomes of the tree when the node announces what its provider supplies: the provider has
run, and if the value is announced the node has announced it then. -/
theorem notify_eq (t : Tree σ ε) (ref : NodeRef) :
    ((t.notify ref).1 ≠ .ok true ∧ ReflTransGen Tick t (t.notify ref).2) ∨
    ∃ n m announced supplied value e, t.node? ref = some (.readWrite n) ∧
      t.provide n.provider = (.ok value, supplied) ∧ supplied.node? ref = some (.readWrite m) ∧
      m.announce? value = some announced ∧
      t.notify ref = (.ok true, (supplied.setNode ref (.readWrite announced)).report e) := by
  rcases hn : t.node? ref with _ | n
  · exact .inl (by simp [«notify», hn, ReflTransGen.refl])
  · cases n with
    | readWrite n =>
        have hprovided := ticks_provide t n.provider
        obtain ⟨m, -, hm⟩ := step_provide hn n.provider
        rcases hp : t.provide n.provider with ⟨fault | value, supplied⟩
        · rw [hp] at hprovided
          exact .inl (by simp [«notify», hn, hp, hprovided])
        · rw [hp] at hprovided hm
          rcases notify_of_provide hn hp hm with ⟨-, hquiet⟩ | ⟨announced, ha, e, hloud⟩
          · rw [hquiet]
            exact .inl ⟨by simp, hprovided⟩
          · exact .inr ⟨n, m, announced, supplied, value, e, rfl, hp, hm, ha, hloud⟩
    | _ => exact .inl (by simp [«notify», hn, ReflTransGen.refl])

/-- A reader that looks is let through, or nothing changes. -/
theorem look_eq (t : Tree σ ε) (p : Poll) :
    t.look p = t ∨ ∃ n m, t.node? p.node = some (.readWrite n) ∧
      n.wake? p.ticket = some (.ok m) ∧ t.look p = t.setNode p.node (.readWrite m) := by
  rcases look_cases t p with ⟨hsame, -⟩ | hw
  · exact .inl hsame
  · exact .inr (wake?_eq_ok hw)

/-! ## Actions -/

/-- The action announces a value, or is that of a reader that waits. -/
def IsLoud : Action σ → Prop
  | .notify _ => True
  | .look _ => True
  | _ => False

/-- Every other action is a sequence of ticks. -/
theorem ticks_perform (t : Tree σ ε) {a : Action σ} (ha : ¬ IsLoud a) :
    ReflTransGen Tick t (t.perform a) := by
  cases a with
  | register ref => exact ticks_register t ref
  | unregister id => exact ticks_unregister t id
  | openFile path access => exact ticks_openFile t path access
  | read handle offset size => exact .refl
  | write handle offset data => exact ticks_write t handle offset data
  | close handle => exact ticks_close t handle
  | longPoll handle offset size => exact ticks_longPoll t handle offset size
  | longPollAll handle => exact ticks_longPollAll t handle
  | look p => exact absurd trivial ha
  | readAll path => exact ticks_readAll t path
  | writeAll path data => exact ticks_writeAll t path data
  | truncate path size => exact ticks_truncate t path size
  | stat path => exact ticks_stat t path
  | list path => exact .refl
  | publish f => exact .single (.rests rfl rfl rfl)
  | «notify» ref => exact absurd trivial ha
  | insert ref key value => exact ticks_insertKey t ref key value
  | remove ref key => exact ticks_removeKey t ref key
  | takeLog => exact .single (.rests rfl rfl rfl)

/-! ## What ticks keep -/

/-- A read-write node takes a quiet step in a tick, or rests. -/
theorem Tick.step (h : Tick t t') {ref : NodeRef} {n : ReadWrite σ}
    (hn : t.node? ref = some (.readWrite n)) :
    ∃ sign m, sign.IsQuiet ∧ ReadWrite.Step sign n m ∧ t'.node? ref = some (.readWrite m) := by
  have hrests : ∀ {u : Tree σ ε}, u.node? ref = t.node? ref →
      ∃ sign m, sign.IsQuiet ∧ ReadWrite.Step sign n m ∧ u.node? ref = some (.readWrite m) :=
    fun hu => ⟨.nothing, n, trivial, .rest n, hu.trans hn⟩
  cases h with
  | rests nodes handles next => exact hrests (by rw [node?, nodes, node?])
  | @goesOn other _ _ hn' h =>
      by_cases he : ref = other
      · subst he
        rw [hn] at hn'
        cases hn'
        cases h with
        | readWrite step => exact ⟨.nothing, _, trivial, step, node?_setNode_self _ hn⟩
      · exact hrests (node?_setNode_of_ne _ he)
  | @begins r _ hn' idle path access content =>
      by_cases he : ref = r.node
      · subst he
        rw [hn] at hn'
        cases hn'
        refine ⟨.opened, _, trivial, .begin t.publisher access content ?_,
          node?_startSession_self hn path access content⟩
        simpa [Node.session?] using idle
      · exact hrests (node?_startSession_of_ne t he path access content)
  | @ends _ handle o ht =>
      obtain ⟨-, -, rfl⟩ := takeHandle_eq_some ht
      obtain ⟨m, hstep, hm⟩ := step_of_onlyCloses hn (onlyCloses_closeNode
        { t with handles := t.handles.filter (·.handle ≠ handle) } o.node ref)
      exact ⟨.nothing, m, trivial, hstep, hm⟩

/-- What the quiet steps of a read-write node keep is kept by ticks. -/
theorem ticks_readWrite {P : ReadWrite σ → Prop}
    (hstep : ∀ sign n m, sign.IsQuiet → P n → ReadWrite.Step sign n m → P m)
    (h : ReflTransGen Tick t t') {ref : NodeRef} {n : ReadWrite σ}
    (hn : t.node? ref = some (.readWrite n)) (hP : P n) :
    ∃ m, t'.node? ref = some (.readWrite m) ∧ P m := by
  induction h with
  | refl => exact ⟨n, hn, hP⟩
  | tail _ ht ih =>
      obtain ⟨l, hl, hPl⟩ := ih
      obtain ⟨sign, m, hquiet, hs, hm⟩ := ht.step hl
      exact ⟨m, hm, hstep sign l m hquiet hPl hs⟩

/-! ## Handles that go -/

section

variable {handle : Handle}

omit [Foreign ε] in
/-- A handle that is gone does not come back. -/
theorem handle?_of_proceeds (h : Proceeds t t') (hgiven : handle.number < t.nextHandle)
    (hgone : t.handle? handle = none) : t'.handle? handle = none := by
  apply List.find?_eq_none.mpr
  intro o ho he
  have hhandle : o.handle = handle := of_decide_eq_true he
  rcases h.handle o ho with hold | ⟨hnew, -⟩
  · exact List.find?_eq_none.mp hgone o hold he
  · rw [hhandle] at hnew
    omega

/-- A handle that has been closed is gone. -/
theorem handle?_close (t : Tree σ ε) (handle : Handle) :
    (t.close handle).2.handle? handle = none := by
  unfold close
  split
  · next ht =>
    unfold takeHandle at ht
    split at ht
    · next hgone => exact hgone
    · cases ht
  · next ht =>
    have hends : (closeNode _ _).2.handle? handle = _ := handle?_ends ht
    rw [hends, if_pos rfl]

/-- Removing the registration that a handle was opened through closes the handle. -/
theorem handle?_unregister {o : OpenHandle} (ho : t.handle? handle = some o)
    (hregistered : t.isRegistered o.id = true) :
    (t.unregister o.id).2.handle? handle = none := by
  have hbooks := books_unregister t o.id
  rw [if_pos hregistered] at hbooks
  have hhandles : (t.unregister o.id).2.handles =
      t.handles.filter (·.handle ∉ t.handlesOf o.id) := congrArg Books.handles hbooks
  have hmem : o ∈ t.handles := List.mem_of_find?_eq_some ho
  have hhandle : o.handle = handle := by simpa using List.find?_some ho
  have hstale : handle ∈ t.handlesOf o.id := by
    rw [← hhandle]
    exact List.mem_map_of_mem (List.mem_filter.mpr ⟨hmem, decide_eq_true rfl⟩)
  apply List.find?_eq_none.mpr
  intro other hother he
  rw [hhandles, List.mem_filter] at hother
  have hkept := of_decide_eq_true hother.2
  rw [of_decide_eq_true he] at hkept
  exact hkept hstale

end

/-! ## The handles of read-write nodes -/

/-- Every handle is of a node that is there. A handle of a read-write node is the only one of it,
and the session of the node is open. -/
structure Held (t : Tree σ ε) : Prop where
  placed : ∀ o ∈ t.handles, (t.node? o.node).isSome = true
  sole : ∀ o ∈ t.handles, ∀ n, t.node? o.node = some (.readWrite n) →
    n.session.isSome = true ∧ ∀ o' ∈ t.handles, o'.node = o.node → o' = o

namespace Held

omit [Foreign ε] in
/-- Only the handles matter that are left, and the nodes that they are of. -/
theorem of_subset (h : Held t) (hhandles : ∀ o ∈ t'.handles, o ∈ t.handles)
    (hplaced : ∀ o ∈ t'.handles, (t'.node? o.node).isSome = (t.node? o.node).isSome)
    (hnode : ∀ o ∈ t'.handles, ∀ m, t'.node? o.node = some (.readWrite m) →
      ∃ n, t.node? o.node = some (.readWrite n) ∧ m.session.isSome = n.session.isSome) :
    Held t' := by
  refine ⟨?_, ?_⟩
  · intro o ho
    rw [hplaced o ho]
    exact h.placed o (hhandles o ho)
  · intro o ho m hm
    obtain ⟨n, hn, hsame⟩ := hnode o ho m hm
    obtain ⟨hopen, hsole⟩ := h.sole o (hhandles o ho) n hn
    rw [hsame]
    exact ⟨hopen, fun o' ho' => hsole o' (hhandles o' ho')⟩

omit [Foreign ε] in
theorem of_same (h : Held t) (hhandles : t'.handles = t.handles) (hnodes : t'.nodes = t.nodes) :
    Held t' := by
  have hnode : ∀ ref, t'.node? ref = t.node? ref := fun ref => by rw [node?, hnodes, node?]
  apply h.of_subset
  · rw [hhandles]
    exact fun _ ho => ho
  · exact fun o _ => congrArg Option.isSome (hnode o.node)
  · intro o _ m hm
    exact ⟨m, (hnode o.node).symm.trans hm, rfl⟩

omit [Foreign ε] in
/-- A node is put in the place of another one that is as busy. -/
theorem setNode (h : Held t) {ref : NodeRef} {n m : Node σ ε} (hn : t.node? ref = some n)
    (hsame : ∀ m', m = .readWrite m' → ∃ n', n = .readWrite n' ∧
      m'.session.isSome = n'.session.isSome) : Held (t.setNode ref m) := by
  apply h.of_subset
  · exact fun _ ho => ho
  · intro o _
    by_cases he : o.node = ref
    · rw [he, node?_setNode_self m hn, hn]
      rfl
    · rw [node?_setNode_of_ne m he]
  · intro o _ m' hm
    by_cases he : o.node = ref
    · rw [he, node?_setNode_self m hn] at hm
      obtain ⟨n', rfl, hbusy⟩ := hsame m' (Option.some.inj hm)
      exact ⟨n', he ▸ hn, hbusy⟩
    · rw [node?_setNode_of_ne m he] at hm
      exact ⟨m', hm, rfl⟩

/-- A session that begins on a node without one is given the only handle of it. -/
theorem begins (h : Held t) {r : Registration} {n : Node σ ε} (hn : t.node? r.node = some n)
    (hidle : n.session? = none) (path : String) (access : Access) (content : Bytes) :
    Held ((t.startSession r.node path access content).addHandle r path).2 := by
  have hhandles : (t.startSession r.node path access content).handles = t.handles :=
    congrArg Books.handles (books_startSession t r.node path access content)
  have hself := node?_startSession_self hn path access content
  have hother : ∀ {ref : NodeRef}, ref ≠ r.node →
      (t.startSession r.node path access content).node? ref = t.node? ref :=
    fun he => node?_startSession_of_ne t he path access content
  obtain ⟨new, hnew, hmem⟩ : ∃ new : OpenHandle, new.node = r.node ∧
      ∀ o ∈ ((t.startSession r.node path access content).addHandle r path).2.handles,
        o ∈ t.handles ∨ o = new := by
    refine ⟨((t.startSession r.node path access content).addHandle r path).1, rfl, ?_⟩
    intro o ho
    rw [addHandle_eq, hhandles] at ho
    exact (List.mem_append.mp ho).imp_right List.mem_singleton.mp
  refine ⟨?_, ?_⟩
  · intro o ho
    show ((t.startSession r.node path access content).node? o.node).isSome = true
    by_cases he : o.node = r.node
    · rw [he, hself]
      rfl
    · rw [hother he]
      rcases hmem o ho with ho | rfl
      · exact h.placed o ho
      · exact absurd hnew he
  · intro o ho m hm
    change (t.startSession r.node path access content).node? o.node = _ at hm
    by_cases he : o.node = r.node
    · rw [he, hself] at hm
      cases n with
      | readWrite n =>
          cases hm
          -- an older handle would have had its session open
          have honly : ∀ o', o' ∈ t.handles ∨ o' = new → o'.node = r.node → o' = new := by
            rintro o' (hold | hsame) he'
            · have hopen := (h.sole o' hold n (he' ▸ hn)).1
              have hnone : n.session = none := by simpa [Node.session?] using hidle
              rw [hnone] at hopen
              cases hopen
            · exact hsame
          refine ⟨rfl, fun o' ho' he' => ?_⟩
          rw [honly o' (hmem o' ho') (he'.trans he), honly o (hmem o ho) he]
      | _ => cases hm
    · rw [hother he] at hm
      rcases hmem o ho with hold | rfl
      · obtain ⟨hopen, hsole⟩ := h.sole o hold m hm
        refine ⟨hopen, fun o' ho' he' => ?_⟩
        rcases hmem o' ho' with hold' | rfl
        · exact hsole o' hold' he'
        · exact absurd (he'.symm.trans hnew) he
      · exact absurd hnew he

/-- A handle is taken, and the session of its node ends. The other handles are of other nodes, or of
a node of another kind. -/
theorem ends (h : Held t) {taken : Tree σ ε} {handle : Handle} {o : OpenHandle}
    (ht : t.takeHandle handle = some (o, taken)) : Held (taken.closeNode o.node).2 := by
  obtain ⟨ho, rfl, htaken⟩ := takeHandle_eq_some ht
  have hhandles : (taken.closeNode o.node).2.handles =
      t.handles.filter (·.handle ≠ o.handle) := by
    rw [htaken]
    exact congrArg Books.handles (books_closeNode _ _)
  have hnodes : ∀ ref, taken.node? ref = t.node? ref := fun ref => by rw [htaken]; rfl
  have hleft : ∀ o' ∈ (taken.closeNode o.node).2.handles, o' ∈ t.handles ∧ o' ≠ o := by
    intro o' ho'
    rw [hhandles, List.mem_filter] at ho'
    exact ⟨ho'.1, fun he => of_decide_eq_true ho'.2 (congrArg OpenHandle.handle he)⟩
  apply h.of_subset
  · exact fun o' ho' => (hleft o' ho').1
  · intro o' ho'
    obtain ⟨k, hk⟩ := onlyCloses_closeNode taken o.node o'.node
    rw [hk, hnodes, Option.isSome_map]
  · intro o' ho' m hm
    obtain ⟨hmem, hne⟩ := hleft o' ho'
    by_cases he : o'.node = o.node
    · -- a read-write node has no handle but the one that is taken
      obtain ⟨n, hn⟩ := Option.isSome_iff_exists.mp (h.placed o' hmem)
      have hclosed := node?_closeNode_self ((hnodes o.node).trans (he ▸ hn))
      rw [he, hclosed] at hm
      obtain ⟨n, rfl⟩ := Node.eq_readWrite_of_closed (Option.some.inj hm)
      exact absurd ((h.sole o' hmem n hn).2 o ho he.symm).symm hne
    · rw [node?_closeNode_of_ne taken he, hnodes] at hm
      exact ⟨m, hm, rfl⟩

end Held

theorem Tick.held (h : Tick t t') (hheld : Held t) : Held t' := by
  cases h with
  | rests nodes handles next => exact hheld.of_same handles nodes
  | goesOn hn h =>
      refine hheld.setNode hn ?_
      rintro m rfl
      cases h with
      | @readWrite n _ _ same => exact ⟨n, rfl, by simpa using congrArg Option.isSome same⟩
  | begins hn idle path access content => exact hheld.begins hn idle path access content
  | ends ht => exact hheld.ends ht

theorem Held.ticks (h : Held t) (ht : ReflTransGen Tick t t') : Held t' := by
  induction ht with
  | refl => exact h
  | tail _ ht ih => exact ht.held ih

omit [Foreign ε] in
/-- A new node has no handles yet. -/
theorem Held.addNode (h : Held t) (n : Node σ ε) : Held (t.addNode n).2 := by
  have hkept : ∀ o ∈ t.handles, (t.addNode n).2.node? o.node = t.node? o.node := by
    intro o ho
    obtain ⟨m, hm⟩ := Option.isSome_iff_exists.mp (h.placed o ho)
    rw [node?_addNode, if_neg]
    exact Nat.ne_of_lt (List.getElem?_eq_some_iff.mp hm).1
  apply h.of_subset
  · exact fun _ ho => ho
  · exact fun o ho => congrArg Option.isSome (hkept o ho)
  · exact fun o ho m hm => ⟨m, (hkept o ho).symm.trans hm, rfl⟩

/-- An announcement leaves its node as busy as the provider did. -/
theorem Held.notify (h : Held t) (ref : NodeRef) : Held (t.notify ref).2 := by
  rcases notify_eq t ref with ⟨-, hticks⟩ |
    ⟨n, m, announced, supplied, value, e, -, hp, hm, ha, hnotify⟩
  · exact h.ticks hticks
  · have hticks := ticks_provide t n.provider
    rw [hp] at hticks
    obtain ⟨-, rfl⟩ := ReadWrite.announce?_eq_some ha
    rw [hnotify]
    refine ((h.ticks hticks).setNode hm ?_).of_same rfl rfl
    rintro m' ⟨⟩
    exact ⟨m, rfl, rfl⟩

/-- So does a reader that is let through, or not. -/
theorem Held.look (h : Held t) (p : Poll) : Held (t.look p) := by
  rcases look_eq t p with hsame | ⟨n, m, hn, hwake, hlook⟩
  · rw [hsame]
    exact h
  · rw [hlook]
    refine h.setNode hn ?_
    rintro m' ⟨⟩
    exact ⟨n, rfl, ReadWrite.isSome_session_wake hwake⟩

/-- Between any two operations on a tree, a read-write node has a session open if there is a handle
of it, and there is no other one. -/
theorem Reachable.held (h : Reachable t) : Held t := by
  induction h with
  | empty settings publisher => exact ⟨nofun, nofun⟩
  | addNode n _ _ ih => exact ih.addNode n
  | @perform t a _ ih =>
      by_cases ha : IsLoud a
      · cases a with
        | «notify» ref => exact ih.notify ref
        | look p => exact ih.look p
        | _ => exact ha.elim
      · exact ih.ticks (ticks_perform t ha)

/-! ## The bond between a handle and a session -/

/-- A handle was given for the session of that number of a read-write node. Either the handle is in
the table and the session is open, or the handle is gone and the session is over. -/
structure Bond (handle : Handle) (ref : NodeRef) (number : Nat) (t : Tree σ ε) : Prop where
  given : handle.number < t.nextHandle
  both : ∃ n, t.node? ref = some (.readWrite n) ∧ number < n.nextSession ∧
    ((∃ o s, t.handle? handle = some o ∧ o.node = ref ∧ n.session = some s ∧ s.number = number) ∨
      (t.handle? handle = none ∧ n.Over number))

namespace Bond

variable {handle : Handle} {ref : NodeRef} {number : Nat}

omit [Foreign ε] in
/-- A step in which no session ends leaves the bond as it is, if nothing happens to the handle. -/
theorem of_step (h : Bond handle ref number t) (hnext : t.nextHandle ≤ t'.nextHandle)
    (hhandle : t'.handle? handle = t.handle? handle)
    (hstep : ∀ n, t.node? ref = some (.readWrite n) → ∃ sign m, ReadWrite.Step sign n m ∧
      t'.node? ref = some (.readWrite m) ∧
      ∀ s, n.session = some s → m.session.map (·.number) = some s.number) :
    Bond handle ref number t' := by
  obtain ⟨hgiven, n, hn, hknown, hboth⟩ := h
  obtain ⟨sign, m, hs, hm, hsame⟩ := hstep n hn
  refine ⟨Nat.lt_of_lt_of_le hgiven hnext, m, hm, ?_, ?_⟩
  · exact Nat.lt_of_lt_of_le hknown (ReadWrite.session_of_step hs).1
  · rw [hhandle]
    rcases hboth with ⟨o, s, ho, href, hsession, rfl⟩ | ⟨ho, hover⟩
    · obtain ⟨s', hs', hnumber⟩ := Option.map_eq_some_iff.mp (hsame s hsession)
      exact .inl ⟨o, s', ho, href, hs', hnumber⟩
    · exact .inr ⟨ho, ReadWrite.over_step hover hs⟩

omit [Foreign ε] in
/-- So does what happens to neither. -/
theorem of_same (h : Bond handle ref number t) (hnext : t.nextHandle ≤ t'.nextHandle)
    (hhandle : t'.handle? handle = t.handle? handle) (hnode : t'.node? ref = t.node? ref) :
    Bond handle ref number t' := by
  apply h.of_step hnext hhandle
  intro n hn
  refine ⟨.nothing, n, .rest n, hnode.trans hn, ?_⟩
  intro s hs
  rw [hs]
  rfl

omit [Foreign ε] in
/-- A node is put in the place of another one that has the same session. -/
theorem setNode (h : Bond handle ref number t) {other : NodeRef} {n m : ReadWrite σ} {sign : Sign}
    (hn : t.node? other = some (.readWrite n)) (hstep : ReadWrite.Step sign n m)
    (hsame : m.session.map (·.number) = n.session.map (·.number)) :
    Bond handle ref number (t.setNode other (.readWrite m)) := by
  by_cases he : ref = other
  · subst he
    apply h.of_step
    · exact Nat.le_refl _
    · rfl
    · intro n' hn'
      rw [hn] at hn'
      cases hn'
      refine ⟨sign, m, hstep, node?_setNode_self _ hn, ?_⟩
      intro s hs
      rw [hsame, hs]
      rfl
  · exact h.of_same (Nat.le_refl _) rfl (node?_setNode_of_ne _ he)

/-- A session that begins elsewhere, or here after the end of the one before, is given another
handle. -/
theorem begins (h : Bond handle ref number t) {r : Registration} {n : Node σ ε}
    (hn : t.node? r.node = some n) (hidle : n.session? = none) (path : String) (access : Access)
    (content : Bytes) :
    Bond handle ref number ((t.startSession r.node path access content).addHandle r path).2 := by
  have hbooks := books_startSession t r.node path access content
  simp only [books, Books.mk.injEq] at hbooks
  obtain ⟨-, -, hhandles, -, hnext⟩ := hbooks
  apply h.of_step
  · show t.nextHandle ≤ (t.startSession r.node path access content).nextHandle + 1
    omega
  · have hne : (⟨t.nextHandle⟩ : Handle) ≠ handle := by
      rintro rfl
      exact Nat.lt_irrefl _ h.given
    show ((t.startSession r.node path access content).handles ++ [_]).find? _ = _
    rw [hhandles, hnext, List.find?_append]
    simp [handle?, hne]
  · intro n' hn'
    by_cases he : ref = r.node
    · subst he
      rw [hn] at hn'
      cases hn'
      have hnone : n'.session = none := by simpa [Node.session?] using hidle
      refine ⟨.opened, _, .begin t.publisher access content hnone,
        node?_startSession_self hn path access content, ?_⟩
      intro s hs
      rw [hnone] at hs
      cases hs
    · refine ⟨.nothing, n', .rest n', (node?_startSession_of_ne t he path access content).trans hn',
        ?_⟩
      intro s hs
      rw [hs]
      rfl

/-- The session that the handle stands for is over when the handle is taken. -/
theorem over_ends {taken : Tree σ ε} {o : OpenHandle} {n m : ReadWrite σ}
    (hn : taken.node? o.node = some (.readWrite n))
    (hm : (taken.closeNode o.node).2.node? o.node = some (.readWrite m))
    (hknown : number < m.nextSession) : m.Over number := by
  have hclosed := node?_closeNode_self hn
  rw [hm] at hclosed
  have hidle := Node.session?_closed (.readWrite n : Node σ ε)
  rw [← Option.some.inj hclosed] at hidle
  refine ⟨hknown, ?_⟩
  intro s hs
  simp [Node.session?, hs] at hidle

/-- A handle is taken, and the session of its node ends. That is the handle of the bond, or a node
other than the one of the bond, since no two handles are of the same node. -/
theorem ends (h : Bond handle ref number t) (hheld : Held t) {taken : Tree σ ε}
    {other : Handle} {o : OpenHandle} (ht : t.takeHandle other = some (o, taken)) :
    Bond handle ref number (taken.closeNode o.node).2 := by
  have hhandle : (taken.closeNode o.node).2.handle? handle = _ := handle?_ends ht
  obtain ⟨ho, hown, htaken⟩ := takeHandle_eq_some ht
  have hnodes : ∀ ref, taken.node? ref = t.node? ref := by
    intro ref
    rw [htaken]
    rfl
  have hnext : (taken.closeNode o.node).2.nextHandle = t.nextHandle := by
    have hbooks := congrArg Books.nextHandle (books_closeNode taken o.node)
    rw [htaken] at hbooks ⊢
    exact hbooks
  obtain ⟨hgiven, n, hn, hknown, hboth⟩ := h
  have hn' : taken.node? ref = some (.readWrite n) := (hnodes ref).trans hn
  obtain ⟨m, hstep, hm⟩ := step_of_onlyCloses hn' (onlyCloses_closeNode taken o.node ref)
  have hknown' := Nat.lt_of_lt_of_le hknown (ReadWrite.session_of_step hstep).1
  refine ⟨hnext ▸ hgiven, m, hm, hknown', ?_⟩
  rw [hhandle]
  by_cases he : handle = other
  · rw [if_pos he]
    refine .inr ⟨rfl, ?_⟩
    rcases hboth with ⟨o', s, ho', rfl, -⟩ | ⟨-, hover⟩
    · -- the entry that is taken is the one of the bond
      obtain rfl : o' = o := by
        unfold takeHandle at ht
        rw [← he, ho'] at ht
        cases ht
        rfl
      exact over_ends hn' hm hknown'
    · exact ReadWrite.over_step hover hstep
  · rw [if_neg he]
    rcases hboth with ⟨o', s, ho', href, hs, hnumber⟩ | ⟨ho', hover⟩
    · have hne : ref ≠ o.node := by
        intro hnode
        have hmem : o' ∈ t.handles := List.mem_of_find?_eq_some ho'
        have hhandle' : o'.handle = handle := by simpa using List.find?_some ho'
        have hentry : o' = o :=
          ((hheld.sole o' hmem n (href ▸ hn)).2 o ho (hnode.symm.trans href.symm)).symm
        apply he
        rw [← hhandle', hentry, hown]
      have hkept := node?_closeNode_of_ne taken hne
      rw [hm, hn'] at hkept
      cases hkept
      exact .inl ⟨o', s, ho', href, hs, hnumber⟩
    · exact .inr ⟨ho', ReadWrite.over_step hover hstep⟩

/-- Every tick keeps the bond. -/
theorem tick (h : Bond handle ref number t) (hheld : Held t) (ht : Tick t t') :
    Bond handle ref number t' := by
  cases ht with
  | rests nodes handles next =>
      apply h.of_same (Nat.le_of_eq next.symm)
      · rw [handle?, handles, handle?]
      · rw [node?, nodes, node?]
  | @goesOn other n m hn hgoes =>
      by_cases he : ref = other
      · subst he
        obtain ⟨l, hl, -⟩ := h.both
        rw [hn] at hl
        cases hl
        cases hgoes with
        | readWrite step same => exact h.setNode hn step same
      · exact h.of_same (Nat.le_refl _) rfl (node?_setNode_of_ne _ he)
  | begins hn idle path access content => exact h.begins hn idle path access content
  | ends ht => exact h.ends hheld ht

theorem ticks (h : Bond handle ref number t) (hheld : Held t)
    (ht : ReflTransGen Tick t t') : Bond handle ref number t' := by
  induction ht with
  | refl => exact h
  | tail hticks ht ih => exact ih.tick (hheld.ticks hticks) ht

end Bond

end Tree

end LiveTree
