import LiveTree.Proofs.Moves
import LiveTree.Proofs.News
import LiveTree.Proofs.Occupancy
import LiveTree.Proofs.Reading
import LiveTree.Proofs.Refusals

/-!
# Operations that fail

An operation can fail early, when its path is refused, or late, when a provider or a sink fails. As
long as no provider removes registrations while it runs, it makes no difference: an operation that
fails leaves the nodes and the books as they were (`Fails.same`).

The exception is a close. A session is over even if its sink refuses what it wrote, and a handle is
taken off the table even if its node has been closed past the tree. `error_effects` puts the two
together.
-/

namespace LiveTree

variable {σ ε : Type}

/-- No provider of the node asks for removals. -/
def Node.Calm (s : σ) : Node σ ε → Prop
  | .readOnly n => n.provider.removals s = []
  | .readWrite n => n.provider.removals s = []
  | .keyStore _ => True
  | .foreign _ removals => removals s = []

namespace Tree

variable {t t' u : Tree σ ε}

/-- No provider of a node asks for removals. -/
def Calm (t : Tree σ ε) : Prop := ∀ ref n, t.node? ref = some n → n.Calm t.publisher

/-- The nodes and the books are the same. -/
def Same (t t' : Tree σ ε) : Prop := t'.nodes = t.nodes ∧ t'.books = t.books

theorem Same.refl (t : Tree σ ε) : Same t t := ⟨rfl, rfl⟩

theorem Same.trans (h : Same t u) (h' : Same u t') : Same t t' :=
  ⟨h'.1.trans h.1, h'.2.trans h.2⟩

variable [Foreign ε]

theorem same_noteOverlap (t : Tree σ ε) (path : String) : Same t (t.noteOverlap path) :=
  ⟨nodes_noteOverlap t path, books_noteOverlap t path⟩

theorem Calm.noteOverlap (h : t.Calm) (path : String) : (t.noteOverlap path).Calm := by
  intro ref n hn
  rw [node?_noteOverlap] at hn
  rw [publisher_noteOverlap]
  exact h ref n hn

/-! ## Providers -/

/-- Running a provider that asks for no removals changes neither nodes nor books. -/
theorem same_provide {p : Provider σ} (h : p.removals t.publisher = []) :
    Same t (t.provide p).2 := by
  refine ⟨?_, ?_⟩
  · rw [nodes_provide, afterRemovals_eq_self h]
  · rw [books_provide, afterRemovals_eq_self h]

/-- Nor does fetching what a calm node wants to be fetched. -/
theorem same_fetch {n : Node σ ε} {path : String} {access : Access} {source : Source σ}
    (hcalm : n.Calm t.publisher) (hp : n.permit t.publisher path access = .ok source) :
    Same t (t.fetch source).2 := by
  cases n with
  | readOnly n =>
      obtain ⟨-, -, -, rfl⟩ := ReadOnly.permit_eq_ok hp
      exact same_provide hcalm
  | readWrite n =>
      obtain ⟨-, -, -, rfl⟩ := ReadWrite.permit_eq_ok hp
      split
      · exact same_provide hcalm
      · exact .refl t
  | keyStore n =>
      obtain ⟨content, -, rfl⟩ := map_eq_ok.mp hp
      exact .refl t
  | foreign e removals =>
      obtain ⟨-, -, rfl⟩ := map_eq_ok.mp hp
      exact same_provide hcalm

theorem same_sizeOn (hcalm : t.Calm) (ref : NodeRef) (path : String) :
    Same t (t.sizeOn ref path).2 := by
  unfold sizeOn
  split
  · exact .refl t
  · next n hn =>
    split
    · exact .refl t
    · exact same_provide (hcalm ref _ hn)
  · next n hn =>
    split
    · exact .refl t
    · exact same_provide (hcalm ref _ hn)
  · exact .refl t
  · exact .refl t

/-! ## Opening -/

/-- An open of a node that fails has at most run the provider. -/
theorem same_openNode {ref : NodeRef} {path : String} {access : Access} {fault : Fault}
    (hcalm : t.Calm) (h : t.openNode ref path access = (.error fault, t')) : Same t t' := by
  unfold openNode at h
  split at h
  · cases h
    exact .refl t
  · next n hn =>
    split at h
    · cases h
      exact .refl t
    · next source hp =>
      have hfetch := same_fetch (hcalm ref n hn) hp
      split at h
      · next hf =>
        cases h
        rw [hf] at hfetch
        exact hfetch
      · cases h

/-- An open of a node that succeeds leaves the books alone. -/
theorem books_openNode {ref : NodeRef} {path : String} {access : Access} (hcalm : t.Calm)
    (h : t.openNode ref path access = (.ok (), t')) : t'.books = t.books := by
  obtain ⟨n, source, fetched, content, hn, hp, hf, rfl⟩ := openNode_eq_ok h
  have hfetch := same_fetch (hcalm ref n hn) hp
  rw [hf] at hfetch
  rw [books_startSession]
  exact hfetch.2

/-- The registration that was found is there to the end, so an open fails before the session has
begun. -/
theorem same_openFile {path : String} {access : Access} {fault : Fault} (hcalm : t.Calm)
    (h : t.openFile path access = (.error fault, t')) : Same t t' := by
  unfold openFile at h
  split at h
  · cases h
    exact .refl t
  · next path _ =>
    split at h
    · cases h
      exact .refl t
    · next r howner =>
      have hnoted := hcalm.noteOverlap path
      split at h
      · next ho =>
        cases h
        exact (same_noteOverlap t path).trans (same_openNode hnoted ho)
      · next opened ho =>
        have hbooks := (books_openNode hnoted ho).trans (books_noteOverlap t path)
        simp only [books, Books.mk.injEq] at hbooks
        obtain ⟨-, hregistrations, -⟩ := hbooks
        have hregistered : ((opened.addHandle r path).2).isRegistered r.id = true := by
          show opened.registrations.any (·.id = r.id) = true
          rw [hregistrations]
          exact List.any_eq_true.mpr ⟨r, (claims_of_owner? howner).1, by simp⟩
        rw [addHandle_eq] at h hregistered
        simp [confirmOpen, hregistered] at h

/-! ## Writing, resizing, announcing, waiting -/

theorem same_writeNode {ref : NodeRef} {offset : Nat} {data : Bytes} {fault : Fault}
    (h : t.writeNode ref offset data = (.error fault, t')) : Same t t' := by
  unfold writeNode at h
  split at h
  · cases h
    exact .refl t
  · cases h
    exact .refl t
  all_goals
    split at h
    · cases h
      exact .refl t
    · cases h

theorem same_write {handle : Handle} {offset : Nat} {data : Bytes} {fault : Fault}
    (h : t.write handle offset data = (.error fault, t')) : Same t t' := by
  unfold write at h
  split at h
  · cases h
    exact .refl t
  · split at h
    · cases h
      exact .refl t
    · exact same_writeNode h

/-- The publisher may have changed with a sink that fails, but not the tree. -/
theorem same_resizeOn {ref : NodeRef} {path : String} {size : Nat} {fault : Fault}
    (h : t.resizeOn ref path size = (.error fault, t')) : Same t t' := by
  unfold resizeOn at h
  split at h
  · cases h
    exact .refl t
  · simp only [Prod.mk.injEq] at h
    obtain ⟨-, rfl⟩ := h
    exact .refl t
  · split at h
    · cases h
      exact .refl t
    · cases h
    · split at h
      · cases h
      · cases h
        exact ⟨rfl, rfl⟩
  all_goals
    split at h
    · cases h
      exact .refl t
    · cases h

theorem same_truncate {path : String} {size : Nat} {fault : Fault}
    (h : t.truncate path size = (.error fault, t')) : Same t t' := by
  unfold truncate at h
  split at h
  · cases h
    exact .refl t
  · next path _ =>
    split at h
    · cases h
      exact .refl t
    · exact (same_noteOverlap t path).trans (same_resizeOn h)

theorem same_stat (hcalm : t.Calm) (path : String) : Same t (t.stat path).2 := by
  unfold stat
  split
  · exact .refl t
  · next path _ =>
    split
    · next r _ =>
      have hsize := (same_noteOverlap t path).trans
        (same_sizeOn (hcalm.noteOverlap path) r.node path)
      split <;> next hs => rwa [hs] at hsize
    · split <;> exact .refl t

theorem same_notify {ref : NodeRef} {fault : Fault} (hcalm : t.Calm)
    (h : t.notify ref = (.error fault, t')) : Same t t' := by
  unfold «notify» at h
  split at h
  · next n hn =>
    have hprovide : Same t (t.provide n.provider).2 := same_provide (hcalm ref _ hn)
    split at h
    · next hp =>
      cases h
      rw [hp] at hprovide
      exact hprovide
    · split at h
      · split at h <;> cases h
      · cases h
  · cases h
    exact .refl t

end Tree

/-! ## Waits that come to an end -/

/-- The session of that number reads, as long as it is open. -/
def ReadWrite.Reads (number : Nat) (n : ReadWrite σ) : Prop :=
  number < n.nextSession ∧ ∀ s, n.session = some s → s.number = number → s.inner.access.read = true

theorem ReadWrite.reads_step {number : Nat} {sign : Sign} {n m : ReadWrite σ}
    (h : n.Reads number) (hstep : Step sign n m) : m.Reads number := by
  obtain ⟨hlt, hreads⟩ := h
  refine ⟨Nat.lt_of_lt_of_le hlt (session_of_step hstep).1, ?_⟩
  cases hstep with
  | begin s access content idle =>
      -- the number of the new session has not been given before
      rintro s' ⟨⟩ hnumber
      exact absurd hnumber (Nat.ne_of_gt hlt)
  | write hw =>
      obtain ⟨session, inner, hs, hinner, rfl⟩ := write_eq_ok hw
      rintro s' ⟨⟩ hnumber
      rw [(Session.write_eq_ok hinner).2]
      exact hreads session hs hnumber
  | resize hr =>
      obtain ⟨session, inner, hs, hinner, rfl, -⟩ | ⟨rfl, -⟩ := resize_eq_ok hr
      · rintro s' ⟨⟩ hnumber
        rw [(Session.truncate_eq_ok hinner).2]
        exact hreads session hs hnumber
      · exact hreads
  | close hc =>
      obtain ⟨-, rfl⟩ := close_eq_ok hc
      exact nofun
  | announce ha =>
      obtain ⟨-, rfl⟩ := announce?_eq_some ha
      exact hreads
  | wake hw =>
      obtain ⟨session, hs, rfl⟩ := wake?_eq_ok hw
      rintro s' ⟨⟩ hnumber
      exact hreads session hs hnumber
  | rest n => exact hreads

/-- What is known of a read-write node whatever has been done to it: its counts and its session
agree, for some news. -/
def Node.InTune : Node σ ε → Prop
  | .readWrite n => ∃ signs, n.Attuned (latestNews signs)
  | _ => True

theorem Node.inTune_of_isNew {n : Node σ ε} (h : n.IsNew) : n.InTune := by
  cases n with
  | readWrite n => exact ⟨[], ReadWrite.attuned_of_idle h.1 (by rw [h.2.1])⟩
  | _ => trivial

theorem Node.InTune.step {n m : Node σ ε} (h : n.InTune) (hs : Node.Step n m) : m.InTune := by
  cases hs with
  | @readWrite n m sign hs =>
      obtain ⟨signs, hattuned⟩ := h
      exact ⟨sign :: signs, ReadWrite.attuned_step hattuned hs⟩
  | _ => trivial

namespace Tree

open Relation (ReflTransGen)

variable [Foreign ε] {t t' : Tree σ ε}

theorem InUse.inTune (h : InUse t) {ref : NodeRef} {n : ReadWrite σ}
    (hn : t.node? ref = some (.readWrite n)) : ∃ signs, n.Attuned (latestNews signs) :=
  h.forall_node (P := Node.InTune) (fun _ => Node.inTune_of_isNew) (fun _ _ => Node.InTune.step)
    ref _ hn

/-- Only a session that is open may be waited in. -/
theorem InUse.live_eq (h : InUse t) {ref : NodeRef} {n : ReadWrite σ}
    (hn : t.node? ref = some (.readWrite n)) :
    n.published.live = n.session.map (·.number) := by
  obtain ⟨signs, hattuned⟩ := h.inTune hn
  exact hattuned.live

omit [Foreign ε] in
/-- A read-write node that moves is a read-write node still, and what its steps keep is kept. -/
theorem Moves.readWrite {P : ReadWrite σ → Prop} (h : Moves t t')
    (hstep : ∀ sign n m, P n → ReadWrite.Step sign n m → P m) {ref : NodeRef} {n : ReadWrite σ}
    (hn : t.node? ref = some (.readWrite n)) (hP : P n) :
    ∃ m, t'.node? ref = some (.readWrite m) ∧ P m := by
  have hrel := h ref
  rw [hn] at hrel
  rcases hm : t'.node? ref with _ | m
  · rw [hm] at hrel
    cases hrel
  · rw [hm] at hrel
    rcases hrel with hmoves | _
    clear hm
    induction hmoves with
    | refl => exact ⟨n, rfl, hP⟩
    | tail _ hs ih =>
        obtain ⟨l, hl, hPl⟩ := ih
        cases hl
        rcases hs with _ | @⟨_, m, sign, hs⟩
        exact ⟨m, rfl, hstep sign l m hPl hs⟩

/-- A range of a content that is shown is read. -/
theorem readRange_of_shows {r : Reader} {content : Bytes} (h : r.Shows content)
    (offset size : Nat) : ∃ part, readRange r offset size = .ok part := by
  obtain ⟨count, hread, -⟩ := h offset (min size readChunk)
  unfold readRange
  rw [hread]
  dsimp only
  split
  · next hmore => exact ⟨_, h.upTo_onto count (Nat.le_of_lt hmore.2)⟩
  · exact ⟨_, rfl⟩

/-- A reader that is let through in a session that reads is given what it wants. So its poll fails
only if it is turned away, and that changes nothing. -/
theorem finish?_eq_error {p : Poll} {n : ReadWrite σ} {fault : Fault}
    (hn : t.node? p.node = some (.readWrite n)) (hreads : n.Reads p.ticket.session)
    (hgoal : ∀ handle, p.goal ≠ .whole handle) (h : t.finish? p = some (.error fault, t')) :
    t' = t := by
  rcases hwake : n.wake? p.ticket with _ | ⟨refused | m⟩
  · simp [finish?, wake?, hn, hwake] at h
  · simp only [finish?, wake?, hn, hwake, Option.some.injEq, Prod.mk.injEq] at h
    exact h.2.symm
  · obtain ⟨session, hs, hnumber, -, rfl⟩ := ReadWrite.wake?_eq_caughtUp hwake
    have hread := hreads.2 session hs hnumber
    have hnode := node?_setNode_self
      (.readWrite (n.caughtUp session (n.published.last.getD #[]))) hn
    have hshows := Node.shows_snapshot (σ := σ) (ε := ε)
      (n := .readWrite (n.caughtUp session (n.published.last.getD #[]))) rfl hread
    simp only [finish?, wake?, hn, hwake, Option.some.injEq, Prod.mk.injEq] at h
    obtain ⟨hharvest, -⟩ := h
    rcases hg : p.goal with ⟨offset, size⟩ | ⟨offset, size⟩ | handle
    · obtain ⟨count, hpart, -⟩ := hshows offset size
      rw [hg] at hharvest
      simp only [harvest, nodeReader, hnode, hpart] at hharvest
      cases hharvest
    · obtain ⟨part, hpart⟩ := readRange_of_shows hshows offset size
      rw [hg] at hharvest
      simp only [harvest, nodeReader, hnode, hpart] at hharvest
      cases hharvest
    · exact absurd hg (hgoal handle)

/-! ## What fails changes nothing -/

/-- An operation other than a close fails at `t`, and leaves `t'`. -/
inductive Fails (t : Tree σ ε) : Fault → Tree σ ε → Prop where
  | openFile {path : String} {access : Access} {fault : Fault} {t' : Tree σ ε}
      (h : t.openFile path access = (.error fault, t')) : Fails t fault t'
  | openNode {ref : NodeRef} {path : String} {access : Access} {fault : Fault} {t' : Tree σ ε}
      (h : t.openNode ref path access = (.error fault, t')) : Fails t fault t'
  | read {handle : Handle} {offset size : Nat} {fault : Fault}
      (h : t.read handle offset size = .error fault) : Fails t fault t
  | readNode {ref : NodeRef} {offset size : Nat} {fault : Fault}
      (h : (t.nodeReader ref).read offset size = .error fault) : Fails t fault t
  | write {handle : Handle} {offset : Nat} {data : Bytes} {fault : Fault} {t' : Tree σ ε}
      (h : t.write handle offset data = (.error fault, t')) : Fails t fault t'
  | writeNode {ref : NodeRef} {offset : Nat} {data : Bytes} {fault : Fault} {t' : Tree σ ε}
      (h : t.writeNode ref offset data = (.error fault, t')) : Fails t fault t'
  | truncate {path : String} {size : Nat} {fault : Fault} {t' : Tree σ ε}
      (h : t.truncate path size = (.error fault, t')) : Fails t fault t'
  | resizeNode {ref : NodeRef} {path : String} {size : Nat} {fault : Fault} {t' : Tree σ ε}
      (h : t.resizeOn ref path size = (.error fault, t')) : Fails t fault t'
  | stat {path : String} {fault : Fault} {t' : Tree σ ε}
      (h : t.stat path = (.error fault, t')) : Fails t fault t'
  | sizeOfNode {ref : NodeRef} {path : String} {fault : Fault} {t' : Tree σ ε}
      (h : t.sizeOn ref path = (.error fault, t')) : Fails t fault t'
  | list {path : String} {fault : Fault} (h : t.list path = .error fault) : Fails t fault t
  | «notify» {ref : NodeRef} {fault : Fault} {t' : Tree σ ε}
      (h : t.notify ref = (.error fault, t')) : Fails t fault t'
  /-- A poll is refused at once. -/
  | longPoll {handle : Handle} {offset size : Nat} {fault : Fault} {t' : Tree σ ε}
      (h : t.longPoll handle offset size = (.answered (.error fault), t')) : Fails t fault t'
  | pollNode {ref : NodeRef} {goal : Poll.Goal} {fault : Fault} {t' : Tree σ ε}
      (h : t.poll ref goal = (.answered (.error fault), t')) : Fails t fault t'
  /-- A poll that has begun before is answered with a fault, whatever has happened meanwhile. -/
  | wait {begun waiting t' : Tree σ ε} {ref : NodeRef} {goal : Poll.Goal} {p : Poll} {fault : Fault}
      (huse : InUse begun) (hbegin : begun.poll ref goal = (.waiting p, waiting))
      (hgoal : ∀ handle, goal ≠ .whole handle) (hmoves : Moves waiting t)
      (h : t.finish? p = some (.error fault, t')) : Fails t fault t'

end Tree

namespace Tree

variable {t t' : Tree σ Empty}

/-- Only read-write nodes can be waited on. -/
theorem node?_of_poll {ref : NodeRef} {goal : Poll.Goal} {p : Poll}
    (h : t.poll ref goal = (.waiting p, t')) : ∃ n, t.node? ref = some (.readWrite n) := by
  unfold poll at h
  split at h
  · cases h
  · cases h
  · cases h
  · next n hn => exact ⟨n, hn⟩
  · next e removals _ => exact e.elim

theorem same_poll {ref : NodeRef} {goal : Poll.Goal} {fault : Fault}
    (h : t.poll ref goal = (.answered (.error fault), t')) : Same t t' := by
  unfold poll at h
  split at h
  · cases h
    exact .refl t
  · cases h
    exact .refl t
  · cases h
    exact .refl t
  · split at h
    · cases h
      exact .refl t
    · cases h
  · next e removals _ => exact e.elim

theorem same_longPoll {handle : Handle} {offset size : Nat} {fault : Fault}
    (h : t.longPoll handle offset size = (.answered (.error fault), t')) : Same t t' := by
  unfold longPoll at h
  split at h
  · cases h
    exact .refl t
  · exact same_poll h

/-- A wait that ends with a fault has changed nothing: its session reads, so whoever is let through
is given what is there. -/
theorem same_finish? {begun waiting : Tree σ Empty} {ref : NodeRef} {goal : Poll.Goal} {p : Poll}
    {fault : Fault} (huse : InUse begun) (hbegin : begun.poll ref goal = (.waiting p, waiting))
    (hgoal : ∀ handle, goal ≠ .whole handle) (hmoves : Moves waiting t)
    (h : t.finish? p = some (.error fault, t')) : Same t t' := by
  obtain ⟨n, hn⟩ := node?_of_poll hbegin
  obtain ⟨rfl, session, hs, hread, rfl⟩ := poll_eq_waiting hn hbegin
  obtain ⟨signs, hattuned⟩ := huse.inTune hn
  have hreads : n.Reads session.number := by
    refine ⟨hattuned.number_lt session hs, ?_⟩
    intro s hs' _
    rw [hs] at hs'
    cases hs'
    exact hread
  obtain ⟨m, hm, hreads'⟩ :=
    hmoves.readWrite (fun _ _ _ h hstep => ReadWrite.reads_step h hstep) hn hreads
  rw [finish?_eq_error hm hreads' hgoal h]
  exact .refl t

/-- An operation other than a close that fails leaves the nodes and the books as they were. -/
theorem Fails.same {fault : Fault} (hcalm : t.Calm) (h : Fails t fault t') : Same t t' := by
  cases h with
  | openFile h => exact same_openFile hcalm h
  | openNode h => exact same_openNode hcalm h
  | read h => exact .refl t
  | readNode h => exact .refl t
  | write h => exact same_write h
  | writeNode h => exact same_writeNode h
  | truncate h => exact same_truncate h
  | resizeNode h => exact same_resizeOn h
  | @stat path _ _ h =>
      have hstat := same_stat hcalm path
      rwa [h] at hstat
  | @sizeOfNode ref path _ _ h =>
      have hsize := same_sizeOn hcalm ref path
      rwa [h] at hsize
  | list h => exact .refl t
  | «notify» h => exact same_notify hcalm h
  | longPoll h => exact same_longPoll h
  | pollNode h => exact same_poll h
  | wait huse hbegin hgoal hmoves h => exact same_finish? huse hbegin hgoal hmoves h

/-! ## Closes that fail -/

end Tree

/-- The node without a session, and without a reader that may wait. -/
def ReadWrite.vacated (n : ReadWrite σ) : ReadWrite σ :=
  { n with session := none, published := { n.published with live := none } }

namespace Tree

/-- A close finds no session, and leaves the nodes as they are. -/
def FindsNoSession (t : Tree σ ε) (ref : NodeRef) (fault : Fault) (t' : Tree σ ε) : Prop :=
  fault = .noSession ∧ t.busy ref = false ∧ t'.nodes = t.nodes

/-- A close ends the session of a read-write node, and the sink refuses what the session commits. The
node has neither a session nor a live reader since, and is otherwise as it was; so the next open of
its file is granted. -/
def SinkRefuses (t : Tree σ ε) (ref : NodeRef) (fault : Fault) (t' : Tree σ ε) : Prop :=
  ∃ n session content failure, t.node? ref = some (.readWrite n) ∧ n.session = some session ∧
    session.inner.commit? = some content ∧
    n.sink content t.publisher = (.error failure, t'.publisher) ∧ fault = .ofFailure failure ∧
    t'.nodes = t.nodes.set ref.index (.readWrite n.vacated) ∧
    ∀ s path access, n.location.matchesFile s path = true →
      access.read = true ∨ access.write = true →
      ∃ source, n.vacated.permit s path access = .ok source

variable {t t' : Tree σ Empty} {ref : NodeRef} {fault : Fault}

/-- A close of a node fails if there is no session, or if the sink refuses. -/
theorem closeNode_eq_error (hlive : ∀ n, t.node? ref = some (.readWrite n) →
      n.published.live = n.session.map (·.number))
    (hfail : t.closeNode ref = (.error fault, t')) :
    FindsNoSession t ref fault t' ∨ SinkRefuses t ref fault t' := by
  unfold closeNode at hfail
  split at hfail
  · next hn =>
    cases hfail
    exact .inl ⟨rfl, by simp [busy, hn], rfl⟩
  · next n hn =>
    rcases hs : n.session with _ | session
    · simp only [ReadOnly.close, hs, Prod.mk.injEq] at hfail
      obtain ⟨hfault, rfl⟩ := hfail
      cases hfault
      exact .inl ⟨rfl, by simp [busy, hn, Node.session?, hs], rfl⟩
    · simp [ReadOnly.close, hs] at hfail
  · next n hn =>
    rcases hs : n.session with _ | session
    · simp only [ReadWrite.close, hs, Prod.mk.injEq] at hfail
      obtain ⟨hfault, rfl⟩ := hfail
      cases hfault
      exact .inl ⟨rfl, by simp [busy, hn, Node.session?, hs], rfl⟩
    · have hnumber : n.published.live = some session.number := by
        rw [hlive n hn, hs]
        rfl
      simp only [ReadWrite.close, hs, hnumber, if_true] at hfail
      split at hfail
      · cases hfail
      · next content hc =>
        split at hfail
        · cases hfail
        · next failure s hsink =>
          simp only [Prod.mk.injEq] at hfail
          obtain ⟨hfault, rfl⟩ := hfail
          cases hfault
          refine .inr ⟨n, session, content, failure, hn, hs, hc, hsink, rfl, rfl, ?_⟩
          intro s path access hmatches haccess
          exact ⟨_, ReadWrite.permit_of_idle (ε := Empty) (n := n.vacated) hmatches rfl haccess⟩
  · next n hn =>
    rcases hs : n.session with _ | session
    · simp only [KeyStore.close, hs, Prod.mk.injEq] at hfail
      obtain ⟨hfault, rfl⟩ := hfail
      cases hfault
      exact .inl ⟨rfl, by simp [busy, hn, Node.session?, hs], rfl⟩
    · simp [KeyStore.close, hs] at hfail
  · next e removals _ => exact e.elim

/-- In a tree of built-in nodes, however its nodes are used and as long as no provider removes
registrations while it runs, an operation that fails leaves every node and all the books as they
were, with the following exceptions, all of them closes.

A close whose sink refuses the content ends the session all the same, and the node can be opened
again. A close through a handle takes the handle off the table, and no other; it does so even if it
fails since there is no session, because the node has been closed past the tree. -/
theorem error_effects (h : InUse t) (hcalm : t.Calm) :
    (∀ fault t', Fails t fault t' → t'.nodes = t.nodes ∧ t'.books = t.books) ∧
    (∀ ref fault t', t.closeNode ref = (.error fault, t') → t'.books = t.books ∧
      (FindsNoSession t ref fault t' ∨ SinkRefuses t ref fault t')) ∧
    (∀ handle fault t', t.close handle = (.error fault, t') →
      (t.handle? handle = none ∧ fault = .noSession ∧ t' = t) ∨
      ∃ o, t.handle? handle = some o ∧
        t'.books = { t.books with handles := t.handles.filter (·.handle ≠ handle) } ∧
        (FindsNoSession t o.node fault t' ∨ SinkRefuses t o.node fault t')) := by
  refine ⟨fun _ _ hfails => hfails.same hcalm, ?_, ?_⟩
  · intro ref fault t' hfail
    have hbooks := books_closeNode t ref
    rw [hfail] at hbooks
    exact ⟨hbooks, closeNode_eq_error (fun _ hn => h.live_eq hn) hfail⟩
  · intro handle fault t' hfail
    unfold close takeHandle at hfail
    rcases ho : t.handle? handle with _ | o
    · rw [ho] at hfail
      cases hfail
      exact .inl ⟨rfl, rfl, rfl⟩
    · rw [ho] at hfail
      dsimp only at hfail
      refine .inr ⟨o, rfl, ?_, ?_⟩
      · have hbooks := books_closeNode
          { t with handles := t.handles.filter (·.handle ≠ handle) } o.node
        rw [hfail] at hbooks
        exact hbooks
      · have hlive : ∀ n, t.node? o.node = some (.readWrite n) →
            n.published.live = n.session.map (·.number) := fun _ hn => h.live_eq hn
        -- the tree without the handle has the nodes and the publisher of the tree with it
        have hclose : FindsNoSession { t with handles := t.handles.filter (·.handle ≠ handle) }
              o.node fault t' ∨
            SinkRefuses { t with handles := t.handles.filter (·.handle ≠ handle) }
              o.node fault t' := closeNode_eq_error hlive hfail
        exact hclose

/-- The full disk again, with the file open and an octet written to it. -/
def overdrawn : Tree Full Empty :=
  [.openFile "/disk/file" .writing, .write ⟨1⟩ 0 #[2]].foldl perform crammed

theorem inUse_overdrawn : InUse overdrawn :=
  .perform (.write ⟨1⟩ 0 #[2]) (.perform (.openFile "/disk/file" .writing)
    reachable_crammed.inUse)

theorem calm_overdrawn : overdrawn.Calm := by
  rintro ⟨index⟩ n hn
  match index, hn with
  | 0, hn =>
      cases hn
      rfl
  | 1, hn =>
      cases hn
      trivial
  | index + 2, hn => cases hn

/-- Another open is refused and changes nothing. The close is refused by the sink: the handle is
gone, and the file can be opened again. -/
theorem error_effects_overdrawn :
    (∃ reason t', overdrawn.openFile "/disk/file" .reading = (.error (.accessConflict reason), t') ∧
      t'.nodes = overdrawn.nodes ∧ t'.books = overdrawn.books) ∧
    ∃ t', overdrawn.close ⟨1⟩ = (.error (.ofFailure ⟨"disk full", []⟩), t') ∧ t'.handles = [] ∧
      SinkRefuses overdrawn ⟨0⟩ (.ofFailure ⟨"disk full", []⟩) t' := by
  obtain ⟨hfails, -, hclose⟩ := error_effects inUse_overdrawn calm_overdrawn
  constructor
  · have hbusy : ∃ reason t', overdrawn.openFile "/disk/file" .reading =
        (.error (.accessConflict reason), t') := ⟨_, _, rfl⟩
    obtain ⟨reason, t', ho⟩ := hbusy
    exact ⟨reason, t', ho, hfails _ _ (.openFile ho)⟩
  · have hrefused : ∃ t', overdrawn.close ⟨1⟩ =
        (.error (.ofFailure ⟨"disk full", []⟩), t') ∧ t'.handles = [] := ⟨_, rfl, rfl⟩
    obtain ⟨t', hc, hhandles⟩ := hrefused
    refine ⟨t', hc, hhandles, ?_⟩
    rcases hclose _ _ _ hc with ⟨-, hfault, -⟩ | ⟨o, ho, -, ⟨hfault, -⟩ | hrefuses⟩
    · cases hfault
    · cases hfault
    · have hentry : overdrawn.handle? ⟨1⟩ = some ⟨⟨1⟩, ⟨1⟩, ⟨0⟩, "/disk/file"⟩ := rfl
      cases hentry.symm.trans ho
      exact hrefuses

/-- A file that is open through a handle, while its node has been closed past the tree. -/
def parted : Tree Bytes Empty :=
  ([.register ⟨0⟩, .openFile "/dev/gauge" .reading].foldl perform gauges).setNode ⟨0⟩
    (.readWrite { gauge with published := { last := some #[1] }, nextSession := 2 })

theorem inUse_parted : InUse parted := by
  have hgauges : InUse gauges := .addNode (.readWrite gauge) (.empty {} #[1]) ⟨rfl, rfl, rfl⟩
  have hopened := (hgauges.perform (.register ⟨0⟩)).perform (.openFile "/dev/gauge" .reading)
  have hclosed : ReadWrite.close { gauge with
      session := some ⟨1, ⟨"/dev/gauge", .reading, #[1], #[], false⟩, 0⟩
      published := { last := some #[1], live := some 1 }
      nextSession := 2 } =
    .ok (⟨1, ⟨"/dev/gauge", .reading, #[1], #[], false⟩, 0⟩,
      { gauge with published := { last := some #[1] }, nextSession := 2 }) := rfl
  exact .direct hopened rfl (.readWrite (.close hclosed))

/-- Its handle is taken off the table by a close that fails, though the sink never does. -/
theorem close_parted :
    InUse parted ∧ parted.Calm ∧
      (∀ ref n, parted.node? ref = some (.readWrite n) →
        ∀ content s, (n.sink content s).1 = .ok ()) ∧
      (parted.close ⟨1⟩).1 = .error .noSession ∧
      parted.handles = [⟨⟨1⟩, ⟨1⟩, ⟨0⟩, "/dev/gauge"⟩] ∧ (parted.close ⟨1⟩).2.handles = [] := by
  have hnode : ∀ ref n, parted.node? ref = some n →
      n = .readWrite { gauge with published := { last := some #[1] }, nextSession := 2 } := by
    rintro ⟨index⟩ n hn
    match index, hn with
    | 0, hn =>
        cases hn
        rfl
    | index + 1, hn => cases hn
  refine ⟨inUse_parted, ?_, ?_, rfl, rfl, rfl⟩
  · intro ref n hn
    cases hnode ref n hn
    rfl
  · intro ref n hn content s
    cases hnode ref _ hn
    rfl

end Tree

end LiveTree
