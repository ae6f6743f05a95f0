import LiveTree.Proofs.Runs
import Mathlib.Data.List.Nodup
import Mathlib.Logic.Function.Basic

/-!
# Operations and the table of handles

Two operations only change the table on purpose. `openFile` puts one entry behind those that it
finds (`Opens`), and `close` takes one away. Whatever else is done to a tree *sheds* at most: it puts
no entry into the table, and an entry whose registration is still there stays (`Sheds`). That holds
of the whole reads and writes too, which open a file and close it again, however they end.
-/

namespace LiveTree.Tree

variable {σ ε : Type}

/-- Open handles have numbers that have been given, each its own. -/
structure Tidy (t : Tree σ ε) : Prop where
  numbered : t.Numbered
  distinct : (t.handles.map (·.handle)).Nodup

/-- Entries of a tidy table with the same number are the same. -/
theorem Tidy.eq_of_handle {t : Tree σ ε} (h : t.Tidy) {o o' : OpenHandle} (ho : o ∈ t.handles)
    (ho' : o' ∈ t.handles) (he : o.handle = o'.handle) : o = o' :=
  List.inj_on_of_nodup_map h.distinct ho ho' he

/-- The number of an entry leads to it. -/
theorem Tidy.handle?_eq_some {t : Tree σ ε} (h : t.Tidy) {o : OpenHandle} (ho : o ∈ t.handles) :
    t.handle? o.handle = some o := by
  rcases hfound : t.handle? o.handle with _ | o'
  · have hne := List.find?_eq_none.mp hfound o ho
    simp at hne
  · have hnumber : o'.handle = o.handle := by simpa using List.find?_some hfound
    rw [h.eq_of_handle (List.mem_of_find?_eq_some hfound) ho hnumber]

/-- Nothing is put into the table, and what is of a registration that is still there stays. -/
structure Sheds (t t' : Tree σ ε) : Prop where
  proceeds : Proceeds t t'
  table : t'.handles.Sublist t.handles
  kept : ∀ o ∈ t.handles, o.id.number < t.nextId → t'.isRegistered o.id = true → o ∈ t'.handles

/-- A registration with a number that had been given was there before. -/
theorem Proceeds.isRegistered {t t' : Tree σ ε} (h : Proceeds t t') {id : NodeId}
    (hold : id.number < t.nextId) (hr : t'.isRegistered id = true) : t.isRegistered id = true := by
  obtain ⟨r, hmem, he⟩ := List.any_eq_true.mp hr
  have hid : r.id = id := of_decide_eq_true he
  rcases h.registration r hmem with hmem | hnew
  · exact List.any_eq_true.mpr ⟨r, hmem, he⟩
  · rw [hid] at hnew
    omega

theorem Sheds.of_books {t t' : Tree σ ε} (h : t'.books = t.books) : Sheds t t' := by
  have hhandles : t'.handles = t.handles := congrArg Books.handles h
  refine ⟨.of_books h, ?_, ?_⟩
  · exact hhandles ▸ List.Sublist.refl _
  · intro o ho _ _
    rw [hhandles]
    exact ho

theorem Sheds.refl (t : Tree σ ε) : Sheds t t := .of_books rfl

theorem Sheds.trans {t u v : Tree σ ε} (h : Sheds t u) (h' : Sheds u v) : Sheds t v := by
  refine ⟨h.proceeds.trans h'.proceeds, h'.table.trans h.table, ?_⟩
  intro o ho hold hr
  have hold' : o.id.number < u.nextId := Nat.lt_of_lt_of_le hold h.proceeds.nextId
  -- it was there all the time
  apply h'.kept o _ hold' hr
  exact h.kept o ho hold (h'.proceeds.isRegistered hold' hr)

theorem Sheds.tidy {t t' : Tree σ ε} (h : Sheds t t') (ht : t.Tidy) : t'.Tidy where
  numbered := h.proceeds.numbered ht.numbered
  distinct := (h.table.map _).nodup ht.distinct

variable [Foreign ε] {t t' : Tree σ ε}

/-! ## Removals and providers -/

theorem sheds_unregister (ht : t.Tidy) (id : NodeId) : Sheds t (t.unregister id).2 := by
  have hb := books_unregister t id
  split at hb
  · have hhandles : (t.unregister id).2.handles =
        t.handles.filter (·.handle ∉ t.handlesOf id) := congrArg Books.handles hb
    have hregistrations : (t.unregister id).2.registrations =
        t.registrations.filter (·.id ≠ id) := congrArg Books.registrations hb
    refine ⟨proceeds_unregister t id, ?_, ?_⟩
    · rw [hhandles]
      exact List.filter_sublist
    · intro o ho _ hr
      obtain ⟨r, hmem, he⟩ := List.any_eq_true.mp hr
      rw [hregistrations, List.mem_filter] at hmem
      have hne : o.id ≠ id := by
        rw [← of_decide_eq_true he]
        exact of_decide_eq_true hmem.2
      rw [hhandles, List.mem_filter]
      refine ⟨ho, decide_eq_true ?_⟩
      intro hstale
      obtain ⟨o', ho', hsame⟩ := List.mem_map.mp hstale
      obtain ⟨ho', hid⟩ := List.mem_filter.mp ho'
      rw [ht.eq_of_handle ho' ho hsame] at hid
      exact hne (of_decide_eq_true hid)
  · exact .of_books hb

theorem sheds_provide (ht : t.Tidy) (p : Provider σ) : Sheds t (t.provide p).2 := by
  have hremovals : Sheds t (t.afterRemovals p) := by
    apply afterRemovals_induction _ (Sheds.refl t) p
    intro t' id h
    exact h.trans (sheds_unregister (h.tidy ht) id)
  exact hremovals.trans (.of_books (books_provide t p))

theorem sheds_fetch (ht : t.Tidy) (source : Source σ) : Sheds t (t.fetch source).2 := by
  cases source with
  | provided p => exact sheds_provide ht p
  | held content => exact .refl t

theorem sheds_noteOverlap (t : Tree σ ε) (path : String) : Sheds t (t.noteOverlap path) :=
  .of_books (books_noteOverlap t path)

theorem sheds_sizeOn (ht : t.Tidy) (ref : NodeRef) (path : String) :
    Sheds t (t.sizeOn ref path).2 := by
  unfold sizeOn
  split
  · exact .refl t
  · split
    · exact .refl t
    · exact sheds_provide ht _
  · split
    · exact .refl t
    · exact sheds_provide ht _
  · exact .refl t
  · exact .refl t

theorem sheds_stat (ht : t.Tidy) (path : String) : Sheds t (t.stat path).2 := by
  unfold stat
  split
  · exact .refl t
  · next path _ =>
    split
    · next r _ =>
      have hnote := sheds_noteOverlap t path
      have hsize := hnote.trans (sheds_sizeOn (hnote.tidy ht) r.node path)
      split <;> next hs => rwa [hs] at hsize
    · split <;> exact .refl t

theorem sheds_truncate (t : Tree σ ε) (path : String) (size : Nat) :
    Sheds t (t.truncate path size).2 := by
  unfold truncate
  split
  · exact .refl t
  · split
    · exact .refl t
    · exact .of_books (by simp)

theorem sheds_notify (ht : t.Tidy) (ref : NodeRef) : Sheds t (t.notify ref).2 := by
  unfold «notify»
  split
  · next n _ =>
    have hprovide := sheds_provide ht n.provider
    split
    · next hs =>
      rw [hs] at hprovide
      exact hprovide
    · next hs =>
      rw [hs] at hprovide
      split
      · split
        · exact hprovide
        · exact hprovide.trans (.of_books (by simp))
      · exact hprovide
  · exact .refl t

/-! ## Opening and closing -/

/-- One entry, with a new number and of a registration that is there, has been put behind others;
the others are what was shed. -/
structure Opens (t t' : Tree σ ε) (o : OpenHandle) : Prop where
  proceeds : Proceeds t t'
  fresh : t.nextHandle ≤ o.handle.number ∧ o.handle.number < t'.nextHandle
  registered : t'.isRegistered o.id = true
  table : ∃ others, t'.handles = others ++ [o] ∧ others.Sublist t.handles ∧
    ∀ o' ∈ t.handles, o'.id.number < t.nextId → t'.isRegistered o'.id = true → o' ∈ others

omit [Foreign ε] in
theorem Opens.mem {o : OpenHandle} (h : Opens t t' o) : o ∈ t'.handles := by
  obtain ⟨others, htable, -⟩ := h.table
  rw [htable]
  exact List.mem_append_right others (List.mem_singleton_self o)

theorem sheds_openNode (ht : t.Tidy) (ref : NodeRef) (path : String) (access : Access) :
    Sheds t (t.openNode ref path access).2 := by
  unfold openNode
  split
  · exact .refl t
  · split
    · exact .refl t
    · next source _ =>
      have hfetch := sheds_fetch ht source
      split <;> next hs => rw [hs] at hfetch; exact hfetch.trans (.of_books (by simp))

omit [Foreign ε] in
/-- Striking a number off that has not been given changes nothing. -/
theorem filter_handle_ne (h : t.Numbered) {handles : List OpenHandle}
    (hs : handles.Sublist t.handles) {handle : Handle} (hn : t.nextHandle ≤ handle.number) :
    handles.filter (·.handle ≠ handle) = handles := by
  apply List.filter_eq_self.mpr
  intro o ho
  apply decide_eq_true
  rintro rfl
  have hlt := h o (hs.subset ho)
  omega

/-- The last step of an open gives the handle, or takes the entry back. -/
theorem confirmOpen_addHandle (ht : t.Numbered) (r : Registration) (path : String) :
    (t.isRegistered r.id = true ∧ (t.addHandle r path).2.confirmOpen (t.addHandle r path).1 =
      (.ok ⟨t.nextHandle⟩, (t.addHandle r path).2)) ∨
    ∃ t', (t.addHandle r path).2.confirmOpen (t.addHandle r path).1 =
      (.error (.notFound path), t') ∧
      t'.books = { t.books with nextHandle := t.nextHandle + 1 } := by
  have hsame : (t.addHandle r path).2.isRegistered (t.addHandle r path).1.id =
      t.isRegistered r.id := rfl
  unfold confirmOpen
  rw [hsame]
  split
  · next hr => exact .inl ⟨hr, rfl⟩
  · refine .inr ⟨_, rfl, ?_⟩
    rw [books_report, books_undoOpen, addHandle_eq]
    have hstruck : (t.handles ++ [(⟨⟨t.nextHandle⟩, r.id, r.node, path⟩ : OpenHandle)]).filter
        (·.handle ≠ ⟨t.nextHandle⟩) = t.handles := by
      rw [List.filter_append, filter_handle_ne ht (List.Sublist.refl _) (Nat.le_refl _)]
      simp
    simp only [books]
    rw [hstruck]

/-- An open that fails, also one that is undone at the end, leaves no entry; any other leaves one. -/
theorem sheds_or_opens (ht : t.Tidy) (path : String) (access : Access) :
    (∃ fault t', t.openFile path access = (.error fault, t') ∧ Sheds t t') ∨
    ∃ o t', t.openFile path access = (.ok o.handle, t') ∧ Opens t t' o := by
  unfold openFile
  split
  · exact .inl ⟨_, _, rfl, .refl t⟩
  · next path _ =>
    split
    · exact .inl ⟨_, _, rfl, .refl t⟩
    · next r _ =>
      have hnote := sheds_noteOverlap t path
      have hopen := hnote.trans (sheds_openNode (hnote.tidy ht) r.node path access)
      split
      · next ho =>
        rw [ho] at hopen
        exact .inl ⟨_, _, rfl, hopen⟩
      · next u ho =>
        rw [ho] at hopen
        have hu := (hopen.tidy ht).numbered
        dsimp only
        rcases confirmOpen_addHandle hu r path with ⟨hr, hc⟩ | ⟨t', hc, hb⟩
        · rw [hc]
          refine .inr ⟨⟨⟨u.nextHandle⟩, r.id, r.node, path⟩, _, rfl, ?_, ?_, hr, ?_⟩
          · have hconfirmed := proceeds_confirmOpen u r path
            rw [hc] at hconfirmed
            exact hopen.proceeds.trans hconfirmed
          · exact ⟨hopen.proceeds.nextHandle, Nat.lt_succ_self _⟩
          · exact ⟨u.handles, rfl, hopen.table, hopen.kept⟩
        · rw [hc]
          refine .inl ⟨_, _, rfl, ?_⟩
          have hconfirmed := proceeds_confirmOpen u r path
          rw [hc] at hconfirmed
          have hhandles : t'.handles = u.handles := congrArg Books.handles hb
          have hregistrations : t'.registrations = u.registrations :=
            congrArg Books.registrations hb
          refine hopen.trans ⟨hconfirmed, ?_, ?_⟩
          · exact hhandles ▸ List.Sublist.refl _
          · intro o ho _ _
            rw [hhandles]
            exact ho

/-- Closing takes the entry of the handle away. -/
theorem books_close (t : Tree σ ε) (h : Handle) : (t.close h).2.books =
    ({ t with handles := t.handles.filter (·.handle ≠ h) } : Tree σ ε).books := by
  unfold close
  split
  · next ht => rw [takeHandle_eq_none ht]
  · next o taken ht =>
    obtain ⟨-, -, rfl⟩ := takeHandle_eq_some ht
    exact books_closeNode { t with handles := t.handles.filter (·.handle ≠ h) } o.node

/-- What was opened and is closed again, after anything that leaves the books alone, sheds at most. -/
theorem Opens.close {o : OpenHandle} (h : Opens t t' o) (ht : t.Tidy) {u : Tree σ ε}
    (hu : u.books = t'.books) : Sheds t (u.close o.handle).2 := by
  obtain ⟨others, htable, hothers, hkept⟩ := h.table
  have huhandles : u.handles = others ++ [o] := (congrArg Books.handles hu).trans htable
  have huregistrations : u.registrations = t'.registrations := congrArg Books.registrations hu
  have hhandles : (u.close o.handle).2.handles = others := by
    have hb := congrArg Books.handles (books_close u o.handle)
    refine hb.trans ?_
    show u.handles.filter _ = others
    rw [huhandles, List.filter_append, filter_handle_ne ht.numbered hothers h.fresh.1]
    simp
  have hregistrations : (u.close o.handle).2.registrations = t'.registrations :=
    (congrArg Books.registrations (books_close u o.handle)).trans huregistrations
  refine ⟨h.proceeds.trans ((Proceeds.of_books hu).trans (proceeds_close u o.handle)), ?_, ?_⟩
  · rw [hhandles]
    exact hothers
  · intro o' ho' hold hr
    rw [hhandles]
    apply hkept o' ho' hold
    rwa [isRegistered_congr hregistrations] at hr

/-! ## Whole contents -/

/-- However a whole read ends, its own handle is closed again. -/
theorem sheds_readAll (ht : t.Tidy) (path : String) : Sheds t (t.readAll path).2 := by
  unfold readAll
  rcases sheds_or_opens ht path .reading with ⟨fault, t', ho, hsheds⟩ | ⟨o, t', ho, hopens⟩
  · rw [ho]
    exact hsheds
  · rw [ho]
    exact hopens.close ht rfl

/-- However a whole write ends, its own handle is closed again. -/
theorem sheds_writeAll (ht : t.Tidy) (path : String) (data : Bytes) :
    Sheds t (t.writeAll path data).2 := by
  unfold writeAll
  rcases sheds_or_opens ht path .writing with ⟨fault, t', ho, hsheds⟩ | ⟨o, t', ho, hopens⟩
  · rw [ho]
    exact hsheds
  · rw [ho]
    exact hopens.close ht (books_write t' o.handle 0 data)

/-! ## Actions -/

/-- The action opens a handle for somebody, or closes one. -/
def IsHandled : Action σ → Prop
  | .openFile _ _ => True
  | .close _ => True
  | _ => False

/-- Any other action sheds at most. -/
theorem sheds_perform (ht : t.Tidy) {a : Action σ} (ha : ¬ IsHandled a) :
    Sheds t (t.perform a) := by
  cases a with
  | register ref =>
      have hhandles : (t.register ref).2.handles = t.handles :=
        congrArg Books.handles (books_register t ref)
      refine ⟨proceeds_register t ref, hhandles ▸ List.Sublist.refl _, ?_⟩
      intro o ho _ _
      show o ∈ (t.register ref).2.handles
      rw [hhandles]
      exact ho
  | unregister id => exact sheds_unregister ht id
  | openFile path access => exact absurd trivial ha
  | read h offset size => exact .refl t
  | write h offset data => exact .of_books (books_write t h offset data)
  | close h => exact absurd trivial ha
  | longPoll h offset size => exact .of_books (books_longPoll t h offset size)
  | longPollAll h => exact .of_books (books_longPollAll t h)
  | look p => exact .of_books (books_look t p)
  | readAll path => exact sheds_readAll ht path
  | writeAll path data => exact sheds_writeAll ht path data
  | truncate path size => exact sheds_truncate t path size
  | stat path => exact sheds_stat ht path
  | list path => exact .refl t
  | publish f => exact .of_books rfl
  | «notify» ref => exact sheds_notify ht ref
  | insert ref key value => exact .of_books (books_insertKey t ref key value)
  | remove ref key => exact .of_books (books_removeKey t ref key)
  | takeLog => exact .of_books rfl

/-! ## Holders -/

/-- The table belongs to holders, each with one entry or none: every entry of the table has one
holder, and the entry of a holder is in the table if its registration is there. -/
structure Assigned (e : Nat → Option OpenHandle) (t : Tree σ ε) : Prop where
  held : ∀ o ∈ t.handles, ∃ id, e id = some o
  apart : ∀ id id' o o', e id = some o → e id' = some o' → o.handle = o'.handle → id = id'
  given : ∀ id o, e id = some o → o.handle.number < t.nextHandle ∧ o.id.number < t.nextId
  kept : ∀ id o, e id = some o → t.isRegistered o.id = true → o ∈ t.handles

variable {e : Nat → Option OpenHandle} {id : Nat} {o : OpenHandle}

/-- Who has an entry after one holder has changed is that holder, or had it before. -/
theorem eq_some_of_update {x : Option OpenHandle} {i : Nat} {p : OpenHandle}
    (h : Function.update e id x i = some p) : (i = id ∧ x = some p) ∨ (i ≠ id ∧ e i = some p) := by
  rw [Function.update_apply] at h
  split at h
  · next heq => exact .inl ⟨heq, h⟩
  · next hne => exact .inr ⟨hne, h⟩

omit [Foreign ε] in
/-- What is shed is in the table no more; its holder keeps it. -/
theorem Assigned.sheds (h : Assigned e t) (hs : Sheds t t') : Assigned e t' := by
  have hgiven : ∀ id o, e id = some o →
      o.handle.number < t'.nextHandle ∧ o.id.number < t'.nextId := by
    intro id o he
    have := h.given id o he
    have := hs.proceeds.nextHandle
    have := hs.proceeds.nextId
    omega
  refine ⟨?_, h.apart, hgiven, ?_⟩
  · intro o ho
    exact h.held o (hs.table.subset ho)
  · intro id o he hr
    have hold := (h.given id o he).2
    apply hs.kept o _ hold hr
    exact h.kept id o he (hs.proceeds.isRegistered hold hr)

omit [Foreign ε] in
/-- A holder without an entry takes the one that is put into the table. -/
theorem Assigned.opens (h : Assigned e t) (hfree : e id = none) (ho : Opens t t' o)
    (hdated : o.id.number < t'.nextId) : Assigned (Function.update e id (some o)) t' := by
  obtain ⟨others, htable, hothers, hkept⟩ := ho.table
  -- all other entries have smaller numbers
  have hsmaller : ∀ id' o', e id' = some o' → o'.handle ≠ o.handle := by
    intro id' o' he heq
    have hlt := (h.given id' o' he).1
    have hfresh := ho.fresh.1
    rw [heq] at hlt
    omega
  refine ⟨?_, ?_, ?_, ?_⟩
  · intro o' ho'
    rw [htable, List.mem_append, List.mem_singleton] at ho'
    rcases ho' with ho' | rfl
    · obtain ⟨id', he⟩ := h.held o' (hothers.subset ho')
      refine ⟨id', ?_⟩
      rw [Function.update_of_ne, he]
      rintro rfl
      rw [hfree] at he
      cases he
    · exact ⟨id, Function.update_self id _ e⟩
  · intro i i' p p' he he' heq
    rcases eq_some_of_update he with ⟨rfl, ⟨⟩⟩ | ⟨-, hp⟩
    · rcases eq_some_of_update he' with ⟨rfl, -⟩ | ⟨-, hp'⟩
      · rfl
      · exact absurd heq.symm (hsmaller i' p' hp')
    · rcases eq_some_of_update he' with ⟨-, ⟨⟩⟩ | ⟨-, hp'⟩
      · exact absurd heq (hsmaller i p hp)
      · exact h.apart i i' p p' hp hp' heq
  · intro i p he
    rcases eq_some_of_update he with ⟨-, ⟨⟩⟩ | ⟨-, he⟩
    · exact ⟨ho.fresh.2, hdated⟩
    · have := h.given i p he
      have := ho.proceeds.nextHandle
      have := ho.proceeds.nextId
      omega
  · intro i p he hr
    rw [htable, List.mem_append, List.mem_singleton]
    rcases eq_some_of_update he with ⟨-, ⟨⟩⟩ | ⟨-, he⟩
    · exact .inr rfl
    · have hold := (h.given i p he).2
      have hmem := h.kept i p he (ho.proceeds.isRegistered hold hr)
      exact .inl (hkept p hmem hold hr)

/-- What is closed leaves its holder and the table. -/
theorem Assigned.close (h : Assigned e t) (ho : e id = some o) :
    Assigned (Function.update e id none) (t.close o.handle).2 := by
  have hbooks := books_close t o.handle
  simp only [books, Books.mk.injEq] at hbooks
  obtain ⟨-, hregistrations, hhandles, hid, hhandle⟩ := hbooks
  have hcases : ∀ {i p}, Function.update e id none i = some p → i ≠ id ∧ e i = some p := by
    intro i p he
    rcases eq_some_of_update he with ⟨-, ⟨⟩⟩ | hother
    exact hother
  refine ⟨?_, ?_, ?_, ?_⟩
  · intro o' ho'
    rw [hhandles, List.mem_filter] at ho'
    obtain ⟨ho', hne⟩ := ho'
    obtain ⟨id', he⟩ := h.held o' ho'
    refine ⟨id', ?_⟩
    rw [Function.update_of_ne, he]
    rintro rfl
    rw [ho] at he
    cases he
    exact of_decide_eq_true hne rfl
  · intro i i' p p' he he' heq
    exact h.apart i i' p p' (hcases he).2 (hcases he').2 heq
  · intro i p he
    rw [hid, hhandle]
    exact h.given i p (hcases he).2
  · intro i p he hr
    obtain ⟨hne, he⟩ := hcases he
    rw [isRegistered_congr hregistrations] at hr
    rw [hhandles, List.mem_filter]
    refine ⟨h.kept i p he hr, decide_eq_true ?_⟩
    intro heq
    exact hne (h.apart i id p o he ho heq)

end LiveTree.Tree
