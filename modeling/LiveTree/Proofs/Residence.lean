import LiveTree.Proofs.Balance
import LiveTree.Proofs.Failures
import LiveTree.Proofs.Outcomes

/-!
# Nodes that stay

A node is made for a place, with a provider and a sink, and keeps them whatever happens to it
(`Node.Stays`). Its registration goes only if somebody removes it: by an action, or as a provider
that asks for removals. As long as nobody does (`Action.IsVisit`, `Tree.AlwaysCalm`), the
registrations are what they were (`registrations_performAll`), and so are the places of the
registered nodes.
-/

namespace LiveTree

open Relation (ReflTransGen)

variable {σ ε : Type}

/-! ## What a node keeps -/

/-- The node `m` may be what has become of `n`: it has the same place, and hands on to the same
provider and the same sink. -/
inductive Node.Stays : Node σ ε → Node σ ε → Prop where
  | readOnly {n m : ReadOnly σ} (location : m.location = n.location)
      (provider : m.provider = n.provider) : Stays (.readOnly n) (.readOnly m)
  | readWrite {n m : ReadWrite σ} (location : m.location = n.location)
      (provider : m.provider = n.provider) (sink : m.sink = n.sink) :
      Stays (.readWrite n) (.readWrite m)
  | keyStore {n m : KeyStore σ} (directory : m.directory = n.directory) :
      Stays (.keyStore n) (.keyStore m)
  | foreign (e e' : ε) (removals : σ → List NodeId) :
      Stays (.foreign e removals) (.foreign e' removals)

namespace Node

variable {n m l : Node σ ε}

theorem Stays.refl (n : Node σ ε) : n.Stays n := by
  cases n with
  | readOnly n => exact .readOnly rfl rfl
  | readWrite n => exact .readWrite rfl rfl rfl
  | keyStore n => exact .keyStore rfl
  | foreign e removals => exact .foreign e e removals

theorem Stays.trans (h : n.Stays m) (h' : m.Stays l) : n.Stays l := by
  cases h with
  | readOnly hl hp =>
      cases h' with
      | readOnly hl' hp' => exact .readOnly (hl'.trans hl) (hp'.trans hp)
  | readWrite hl hp hs =>
      cases h' with
      | readWrite hl' hp' hs' => exact .readWrite (hl'.trans hl) (hp'.trans hp) (hs'.trans hs)
  | keyStore hd =>
      cases h' with
      | keyStore hd' => exact .keyStore (hd'.trans hd)
  | foreign e e' removals =>
      cases h' with
      | foreign _ e'' _ => exact .foreign e e'' removals

theorem Stays.symm (h : n.Stays m) : m.Stays n := by
  cases h with
  | readOnly hl hp => exact .readOnly hl.symm hp.symm
  | readWrite hl hp hs => exact .readWrite hl.symm hp.symm hs.symm
  | keyStore hd => exact .keyStore hd.symm
  | foreign e e' removals => exact .foreign e' e removals

theorem stays_step (h : Node.Step n m) : n.Stays m := by
  cases h with
  | readOnly h =>
      cases h with
      | begin s access content idle => exact .readOnly rfl rfl
      | close h =>
          unfold ReadOnly.close at h
          split at h
          · cases h
          · cases h
            exact .readOnly rfl rfl
  | readWrite h =>
      cases h with
      | begin s access content idle => exact .readWrite rfl rfl rfl
      | write h =>
          obtain ⟨session, inner, -, -, rfl⟩ := ReadWrite.write_eq_ok h
          exact .readWrite rfl rfl rfl
      | resize h =>
          obtain ⟨session, inner, -, -, rfl, -⟩ | ⟨rfl, -⟩ := ReadWrite.resize_eq_ok h <;>
            exact .readWrite rfl rfl rfl
      | close h =>
          obtain ⟨-, rfl⟩ := ReadWrite.close_eq_ok h
          exact .readWrite rfl rfl rfl
      | announce h =>
          obtain ⟨-, rfl⟩ := ReadWrite.announce?_eq_some h
          exact .readWrite rfl rfl rfl
      | wake h =>
          obtain ⟨session, -, rfl⟩ := ReadWrite.wake?_eq_ok h
          exact .readWrite rfl rfl rfl
      | rest n => exact .refl _
  | keyStore h =>
      cases h with
      | insert h =>
          unfold KeyStore.insert at h
          split at h
          · cases h
            exact .keyStore rfl
          · cases h
      | remove key => exact .keyStore rfl
      | begin s path access content idle =>
          apply Stays.keyStore
          unfold KeyStore.begin
          split <;> rfl
      | write h =>
          obtain ⟨session, inner, -, -, rfl⟩ := KeyStore.write_eq_ok h
          exact .keyStore rfl
      | resize h =>
          obtain ⟨session, inner, -, -, rfl⟩ | ⟨key, value, -, -, rfl⟩ :=
            KeyStore.resize_eq_ok h <;> exact .keyStore rfl
      | close h =>
          obtain ⟨-, rfl⟩ := KeyStore.close_eq_ok h
          exact .keyStore rfl
  | foreign e e' removals => exact .foreign e e' removals

theorem stays_of_moves (h : ReflTransGen Node.Step n m) : n.Stays m := by
  induction h with
  | refl => exact .refl n
  | tail _ hs ih => exact ih.trans (stays_step hs)

/-! ### What follows for its removals -/

theorem Stays.calm (h : n.Stays m) {s : σ} (hn : n.Calm s) : m.Calm s := by
  cases h with
  | readOnly _ hp =>
      show Provider.removals _ s = []
      rw [hp]
      exact hn
  | readWrite _ hp =>
      show Provider.removals _ s = []
      rw [hp]
      exact hn
  | keyStore => trivial
  | foreign => exact hn

end Node

namespace Tree

variable {t t' u : Tree σ ε} {ref : NodeRef} {n m : Node σ ε}

/-! ## Trees whose nodes stayed -/

/-- In the same places are nodes that were made for the same. -/
def Kin (t u : Tree σ ε) : Prop := ∀ ref, Option.Rel Node.Stays (t.node? ref) (u.node? ref)

theorem Kin.symm (h : Kin t u) : Kin u t := by
  intro ref
  have hrel := h ref
  revert hrel
  rcases t.node? ref with _ | n <;> rcases u.node? ref with _ | m <;> rintro (hstays | _)
  · exact .none
  · exact .some hstays.symm

theorem Kin.trans (h : Kin t t') (h' : Kin t' u) : Kin t u := by
  intro ref
  have hrel := h ref
  have hrel' := h' ref
  revert hrel hrel'
  rcases t.node? ref with _ | n <;> rcases t'.node? ref with _ | m <;>
    rcases u.node? ref with _ | l <;> rintro (hstays | _) (hstays' | _)
  · exact .none
  · exact .some (hstays.trans hstays')

theorem Kin.of_moves (h : Moves t u) : Kin t u := by
  intro ref
  have hrel := h ref
  revert hrel
  rcases t.node? ref with _ | n <;> rcases u.node? ref with _ | m <;> rintro (hmoves | _)
  · exact .none
  · exact .some (Node.stays_of_moves hmoves)

theorem Kin.node?_eq_none (h : Kin t u) (hn : t.node? ref = none) : u.node? ref = none := by
  have hrel := h ref
  rw [hn] at hrel
  rcases hm : u.node? ref with _ | m
  · rfl
  · rw [hm] at hrel
    cases hrel

theorem Kin.exists_stays (h : Kin t u) (hn : t.node? ref = some n) :
    ∃ m, u.node? ref = some m ∧ n.Stays m := by
  have hrel := h ref
  rw [hn] at hrel
  rcases hm : u.node? ref with _ | m
  · rw [hm] at hrel
    cases hrel
  · rw [hm] at hrel
    rcases hrel with hstays | _
    exact ⟨m, rfl, hstays⟩

theorem Moves.exists_stays (h : Moves t u) (hn : t.node? ref = some n) :
    ∃ m, u.node? ref = some m ∧ n.Stays m :=
  (Kin.of_moves h).exists_stays hn

theorem Moves.exists_stayed (h : Moves t u) (hm : u.node? ref = some m) :
    ∃ n, t.node? ref = some n ∧ n.Stays m := by
  obtain ⟨n, hn, hstays⟩ := (Kin.of_moves h).symm.exists_stays hm
  exact ⟨n, hn, hstays.symm⟩

/-! ## Registrations that stay -/

/-- No provider asks for removals, now or later. -/
def AlwaysCalm (t : Tree σ ε) : Prop := ∀ ref n, t.node? ref = some n → ∀ s, n.Calm s

theorem AlwaysCalm.calm (h : t.AlwaysCalm) : t.Calm :=
  fun ref n hn => h ref n hn t.publisher

theorem AlwaysCalm.moves (h : t.AlwaysCalm) (hmoves : Moves t t') : t'.AlwaysCalm := by
  intro ref m hm s
  obtain ⟨n, hn, hstays⟩ := hmoves.exists_stayed hm
  exact hstays.calm (h ref n hn s)

end Tree

/-- The action neither registers nor unregisters a node. -/
def Action.IsVisit : Action σ → Prop
  | .register _ | .unregister _ => False
  | _ => True

namespace Tree

variable [Foreign ε] {t t' u : Tree σ ε}

omit [Foreign ε] in
theorem registrations_of_books (h : t'.books = t.books) : t'.registrations = t.registrations :=
  congrArg Books.registrations h

theorem registrations_openFile (hcalm : t.Calm) (path : String) (access : Access) :
    (t.openFile path access).2.registrations = t.registrations := by
  rcases hopen : t.openFile path access with ⟨fault | h, u⟩
  · exact registrations_of_books (same_openFile hcalm hopen).2
  · obtain ⟨q, r, opened, -, -, hnode, -, rfl⟩ := openFile_eq_ok hopen
    have hopened := books_openNode (hcalm.noteOverlap q) hnode
    rw [books_noteOverlap] at hopened
    exact congrArg Books.registrations hopened

theorem registrations_close (t : Tree σ ε) (h : Handle) :
    (t.close h).2.registrations = t.registrations :=
  congrArg Books.registrations (books_close t h)

theorem registrations_notify (hcalm : t.Calm) (ref : NodeRef) :
    (t.notify ref).2.registrations = t.registrations := by
  rcases hnotify : t.notify ref with ⟨fault | announced, u⟩
  · exact registrations_of_books (same_notify hcalm hnotify).2
  · unfold «notify» at hnotify
    split at hnotify
    · next n hn =>
      have hprovide : Same t (t.provide n.provider).2 := same_provide (hcalm ref _ hn)
      split at hnotify
      · cases hnotify
      · next hs =>
        rw [hs] at hprovide
        split at hnotify
        · split at hnotify <;> cases hnotify <;> exact registrations_of_books hprovide.2
        · cases hnotify
          exact registrations_of_books hprovide.2
    · cases hnotify

/-- An action that neither registers nor unregisters leaves the registrations alone. -/
theorem registrations_perform (hcalm : t.Calm) {a : Action σ} (ha : a.IsVisit) :
    (t.perform a).registrations = t.registrations := by
  cases a with
  | register ref => exact ha.elim
  | unregister id => exact ha.elim
  | openFile path access => exact registrations_openFile hcalm path access
  | read h offset size => rfl
  | write h offset data => exact registrations_of_books (books_write t h offset data)
  | close h => exact registrations_close t h
  | longPoll h offset size => exact registrations_of_books (books_longPoll t h offset size)
  | longPollAll h => exact registrations_of_books (books_longPollAll t h)
  | look p => exact registrations_of_books (books_look t p)
  | readAll path =>
      have hopen := registrations_openFile hcalm path .reading
      show (t.readAll path).2.registrations = _
      unfold readAll
      split
      · next hs =>
        rw [hs] at hopen
        exact hopen
      · next h opened hs =>
        rw [hs] at hopen
        exact (registrations_close opened h).trans hopen
  | writeAll path data =>
      have hopen := registrations_openFile hcalm path .writing
      show (t.writeAll path data).2.registrations = _
      unfold writeAll
      split
      · next hs =>
        rw [hs] at hopen
        exact hopen
      · next h opened hs =>
        rw [hs] at hopen
        have hwrite := registrations_of_books (books_write opened h 0 data)
        exact (registrations_close _ h).trans (hwrite.trans hopen)
  | truncate path size =>
      show (t.truncate path size).2.registrations = _
      unfold truncate
      split
      · rfl
      · split
        · rfl
        · exact registrations_of_books (by simp)
  | stat path => exact registrations_of_books (same_stat hcalm path).2
  | list path => rfl
  | publish f => rfl
  | «notify» ref => exact registrations_notify hcalm ref
  | insert ref key value => exact registrations_of_books (books_insertKey t ref key value)
  | remove ref key => exact registrations_of_books (books_removeKey t ref key)
  | takeLog => rfl

theorem moves_performAll (t : Tree σ ε) (actions : List (Action σ)) :
    Moves t (t.performAll actions) := by
  induction actions generalizing t with
  | nil => exact .refl t
  | cons a actions ih => exact (moves_perform t a).trans (ih (t.perform a))

theorem registrations_performAll (hcalm : t.AlwaysCalm) {actions : List (Action σ)}
    (hvisits : ∀ a ∈ actions, a.IsVisit) :
    (t.performAll actions).registrations = t.registrations := by
  induction actions generalizing t with
  | nil => rfl
  | cons a actions ih =>
      obtain ⟨ha, hrest⟩ := List.forall_mem_cons.mp hvisits
      rw [performAll_cons, ih (hcalm.moves (moves_perform t a)) hrest]
      exact registrations_perform hcalm.calm ha

end Tree

end LiveTree
