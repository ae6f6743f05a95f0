import LiveTree.Proofs.Counting
import LiveTree.Proofs.Deliveries
import LiveTree.Proofs.Framing
import LiveTree.Proofs.Visits
import Mathlib.Algebra.Group.Nat.Defs

/-!
# Heartbeats are heard

Clients may write to the counter, and what they write is not announced. So the next heartbeat need
not be news: the counter may have been set to the number before the last value. To whoever reads the
counter it is news. While that session is open no other can write, and the file cannot be emptied
past it, since the sink takes no empty content. So the counter stands at what the session was handed
when it began, or was told since (`Tree.Ticking`), the next heartbeat makes another number of it,
and every reader that waits in the session is let through with that (`Heard`).

The last value of a node is renewed when a session begins there and when a value is announced. What
renews it on no account leaves it to whoever reads the node (`ReadWrite.MarkedBy.knows`); of all
uses only opens and notifications renew it (`Tree.still_use`), and those of the counter hand out and
announce the count itself.
-/

namespace LiveTree

variable {σ ε : Type}

/-! ## What renews the last value -/

/-- A session begins on the node, or it announces a value. -/
def Mark.Renews : Mark → Prop
  | .opened _ | .announced _ => True
  | _ => False

theorem Mark.IsPlain.not_renews {mark : Mark} (h : mark.IsPlain) : ¬ mark.Renews := by
  cases mark with
  | opened access => exact h.elim
  | announced value => exact h.elim
  | _ => exact id

namespace Trace

variable {trace : Trace} {ref : NodeRef} {mark : Mark}

/-- Nothing renews the last value of the node. -/
def Still (trace : Trace) (ref : NodeRef) : Prop := ∀ mark, (ref, mark) ∈ trace → ¬ mark.Renews

theorem still_nil (ref : NodeRef) : Still [] ref := nofun

theorem still_of_plain (h : ∀ e ∈ trace, e.2.IsPlain) : Still trace ref :=
  fun _ hmem => (h _ hmem).not_renews

/-- The ends of sessions renew nothing. -/
theorem still_deeds : Still (deeds trace) ref ↔ Still trace ref := by
  refine forall_congr' fun mark => ?_
  cases mark <;> simp [deeds, Mark.Renews]

theorem mem_marks : mark ∈ marks trace ref ↔ (ref, mark) ∈ trace := by
  simp [marks]

end Trace

namespace ReadWrite

/-- No session comes about where none begins. -/
theorem draft_none {marks : List Mark} (hstill : ∀ mark ∈ marks, ¬ mark.Renews) :
    marks.foldl Draft.next none = none := by
  induction marks with
  | nil => rfl
  | cons mark marks ih =>
      rw [List.forall_mem_cons] at hstill
      rw [List.foldl_cons]
      cases mark with
      | opened access => exact absurd trivial hstill.1
      | _ => exact ih hstill.2

/-- Where none begins, there is none after one has ended. -/
theorem draft_of_closed {marks : List Mark} (hstill : ∀ mark ∈ marks, ¬ mark.Renews)
    (hclosed : .closed ∈ marks) (d : Option Draft) : marks.foldl Draft.next d = none := by
  obtain ⟨earlier, later, rfl⟩ := List.append_of_mem hclosed
  rw [List.forall_mem_append, List.forall_mem_cons] at hstill
  rw [List.foldl_append, List.foldl_cons]
  exact draft_none hstill.2.2

/-- While the session does not end its sink is handed nothing, unless the file is emptied. -/
theorem handed_of_not_closed {marks : List Mark} (h : .closed ∉ marks) (d : Option Draft) :
    ∀ content ∈ handed d marks, content = #[] := by
  induction marks generalizing d with
  | nil => exact List.forall_mem_nil _
  | cons mark marks ih =>
      rw [List.mem_cons, not_or] at h
      rw [handed, List.forall_mem_append]
      refine ⟨?_, ih h.2 _⟩
      cases mark with
      | closed => exact absurd rfl h.1
      | cleared => simp [Draft.due]
      | _ => exact List.forall_mem_nil _

/-- Whoever reads the node knows of its last value, which is `value`. -/
def Knows (n : ReadWrite σ) (value : Bytes) : Prop :=
  ∀ s, n.session = some s → s.inner.access.read = true → n.published.last = some value

theorem knows_of_idle {n : ReadWrite σ} (h : n.session = none) (value : Bytes) :
    n.Knows value := by
  intro s hs
  rw [h] at hs
  cases hs

/-- So it is while the session goes on. -/
theorem Knows.of_inner {n : ReadWrite σ} {value : Bytes} (h : n.Knows value)
    {session : LiveSession} (hs : n.session = some session) {inner : Session} {observed : Nat}
    (haccess : inner.access = session.inner.access) :
    Knows { n with session := some { session with inner, observed } } value := by
  rintro s ⟨⟩ hread
  exact h session hs (haccess ▸ hread)

/-- What renews nothing leaves the last value to whoever reads the node. -/
theorem Marked.knows {n m : ReadWrite σ} {mark : Mark} {value : Bytes} (h : n.Marked mark m)
    (hstill : ¬ mark.Renews) (hknows : n.Knows value) : m.Knows value := by
  cases h with
  | supplied => exact hknows
  | opened idle s access content => exact absurd trivial hstill
  | wrote hw =>
      obtain ⟨session, inner, hs, hinner, rfl⟩ := write_eq_ok hw
      exact hknows.of_inner hs (Session.write_eq_ok hinner).2
  | cut hr =>
      obtain ⟨session, inner, hs, hinner, rfl, -⟩ | ⟨-, hcontent⟩ := resize_eq_ok hr
      · exact hknows.of_inner hs (Session.truncate_eq_ok hinner).2
      · cases hcontent
  | cleared => exact hknows
  | closed hc =>
      obtain ⟨-, rfl⟩ := close_eq_ok hc
      exact knows_of_idle rfl value
  | announced ha => exact absurd trivial hstill
  | caughtUp hw =>
      obtain ⟨session, hs, rfl⟩ := wake?_eq_ok hw
      exact hknows.of_inner hs rfl

theorem MarkedBy.knows {n m : ReadWrite σ} {marks : List Mark} {value : Bytes}
    (h : n.MarkedBy marks m) (hstill : ∀ mark ∈ marks, ¬ mark.Renews) (hknows : n.Knows value) :
    m.Knows value := by
  induction h with
  | none => exact hknows
  | more _ hlast ih =>
      rw [List.forall_mem_append] at hstill
      exact hlast.knows (hstill.2 _ List.mem_cons_self) (ih hstill.1)

end ReadWrite

namespace Tree

variable [Foreign ε] {t : Tree σ ε} {ref other : NodeRef}

theorem still_open {path : String} {access : Access} (h : other ≠ ref) :
    (t.deedsOfOpen other path access).Still ref := by
  intro mark hmem
  rcases mem_deedsOfOpen hmem with hplain | he
  · exact hplain.not_renews
  · exact absurd (congrArg Prod.fst he).symm h

theorem still_notify (h : other ≠ ref) : (t.deedsOfNotify other).Still ref := by
  intro mark hmem
  rcases mem_deedsOfNotify hmem with hplain | ⟨value, he⟩
  · exact hplain.not_renews
  · exact absurd (congrArg Prod.fst he).symm h

/-- Only opens and notifications renew anything. -/
theorem still_use {u : Use σ} (hopens : ¬ u.Opens) (hnotify : u ≠ .through (.notify ref)) :
    (t.deedsOfUse u).Still ref := by
  intro mark hmem
  rcases mem_deedsOfUse hmem with hplain | ⟨hu, -⟩ | ⟨value, hu, -⟩ | ⟨p, t', -, -, he⟩
  · exact hplain.not_renews
  · exact absurd hu hopens
  · exact absurd hu hnotify
  · cases he
    exact id

end Tree

open Builtins

/-! ## Whoever reads the counter knows the count -/

namespace Tree

/-- A node serves the counter, and whoever reads it knows of the count. -/
structure Ticking (slot : Vitals.Slot σ) (tick : NodeRef) (t : Tree σ ε) : Prop where
  counter : t.Counter slot tick
  knows : ∀ n, t.node? tick = some (.readWrite n) → n.Knows (slot.served t.publisher)

variable [Foreign ε] {slot : Vitals.Slot σ} {tick : NodeRef} {t t' : Tree σ ε}
  {free : NodeRef → Prop} {deeds : Trace}

/-- A course that renews nothing leaves it so: the counter does not change while the session goes
on, for the only content that its sink may be handed meanwhile is empty. -/
theorem Ticking.course (h : t.Ticking slot tick) (hslot : slot.Lawful)
    (hcourse : Course (Unseen slot.ticks) free deeds t t') (hstill : deeds.Still tick) :
    t'.Ticking slot tick := by
  obtain ⟨trace, hstrokes, rfl⟩ := hcourse
  rw [Trace.still_deeds] at hstill
  have hmarks : ∀ mark ∈ trace.marks tick, ¬ mark.Renews :=
    fun mark hmark => hstill mark (Trace.mem_marks.mp hmark)
  obtain ⟨n, hn, -⟩ := h.counter.node
  obtain ⟨m, hm, hlives⟩ := hstrokes.marked hn
  refine ⟨h.counter.moves hstrokes.moves, ?_⟩
  intro m' hm'
  rw [hm] at hm'
  cases hm'
  by_cases hclosed : .closed ∈ trace.marks tick
  · have hdraft := hlives.draft
    rw [ReadWrite.draft_of_closed hmarks hclosed] at hdraft
    exact ReadWrite.knows_of_idle (Option.map_eq_none_iff.mp hdraft) _
  · have hempty := ReadWrite.handed_of_not_closed hclosed n.draft?
    have hsame : slot.ticks t'.publisher = slot.ticks t.publisher := by
      rw [h.counter.ticks_strokes hslot hn hstrokes, foldl_taken_of_empty hempty]
    rw [Vitals.Slot.served, hsame]
    exact hlives.knows hmarks (h.knows n hn)

/-- A session that begins on the counter is handed the count. -/
theorem Ticking.openNode (h : t.Ticking slot tick) (hslot : slot.Lawful) (ref : NodeRef)
    (path : String) (access : Access) : (t.openNode ref path access).2.Ticking slot tick := by
  have hcourse : Course (Unseen slot.ticks) (fun _ => True) _ t (t.openNode ref path access).2 :=
    course_openNode t ref path access (fun _ => trivial)
  by_cases he : ref = tick
  · subst he
    obtain ⟨trace, hstrokes, -⟩ := hcourse
    refine ⟨h.counter.moves hstrokes.moves, ?_⟩
    obtain ⟨n, hn, hcounter⟩ := h.counter.node
    rcases openNode_counter hn hcounter path access with
      ⟨fault, hrefused⟩ | ⟨content, hcontent, hopened⟩
    · rw [hrefused]
      exact h.knows
    · rw [hopened, publisher_startSession, node?_startSession_self hn]
      rintro m ⟨⟩ s ⟨⟩ hread
      show (if access.read then some content else n.published.last) = _
      have haccess : access.read = true := hread
      rw [if_pos haccess, hcontent haccess]
  · exact h.course hslot hcourse (still_open he)

theorem Ticking.openFile (h : t.Ticking slot tick) (hslot : slot.Lawful) (path : String)
    (access : Access) : (t.openFile path access).2.Ticking slot tick := by
  unfold Tree.openFile
  split
  · exact h
  · next path _ =>
    split
    · exact h
    · next r _ =>
      have hnoted : Course (Unseen slot.ticks) (fun _ => True) [] t (t.noteOverlap path) :=
        course_noteOverlap t path
      have hnothing := h.course hslot hnoted (Trace.still_nil tick)
      have hopened := hnothing.openNode hslot r.node path access
      split
      · next ho =>
        rw [ho] at hopened
        exact hopened
      · next opened ho =>
        rw [ho] at hopened
        have hadded : Course (Unseen slot.ticks) (fun _ => True) [] opened
            (opened.addHandle r path).2 := .rests rfl rfl
        exact hopened.course hslot (hadded.still (closings_confirmOpen _ _).course)
          (Trace.still_nil tick)

theorem Ticking.close (h : t.Ticking slot tick) (hslot : slot.Lawful) (handle : Handle) :
    (t.close handle).2.Ticking slot tick := by
  have hclosed : Course (Unseen slot.ticks) (fun _ => True) [] t (t.close handle).2 :=
    (closings_close t handle).course
  exact h.course hslot hclosed (Trace.still_nil tick)

theorem Ticking.readAll (h : t.Ticking slot tick) (hslot : slot.Lawful) (path : String) :
    (t.readAll path).2.Ticking slot tick := by
  have hopened := h.openFile hslot path .reading
  unfold Tree.readAll
  rcases ho : t.openFile path .reading with ⟨fault | handle, opened⟩
  · rw [ho] at hopened
    exact hopened
  · rw [ho] at hopened
    exact hopened.close hslot handle

theorem Ticking.writeAll (h : t.Ticking slot tick) (hslot : slot.Lawful) (path : String)
    (data : Bytes) : (t.writeAll path data).2.Ticking slot tick := by
  have hopened := h.openFile hslot path .writing
  unfold Tree.writeAll
  rcases ho : t.openFile path .writing with ⟨fault | handle, opened⟩
  · rw [ho] at hopened
    exact hopened
  · rw [ho] at hopened
    have hwritten : Course (Unseen slot.ticks) (fun _ => True) _ opened
        (opened.write handle 0 data).2 := course_write opened handle 0 data
    have hstill : (opened.deedsOfHandleWrite handle 0 data).Still tick :=
      Trace.still_of_plain fun _ => isPlain_of_handleWrite
    exact (hopened.course hslot hwritten hstill).close hslot handle

/-- When the counter has been announced, or is known anyway, it is the last value. -/
theorem Counter.notify (h : t.Counter slot tick) : (t.notify tick).2.Ticking slot tick := by
  obtain ⟨n, hn, hcounter⟩ := h.node
  refine ⟨h.moves (moves_perform t (.notify tick)), ?_⟩
  rcases notify_counter hn hcounter with ⟨hlast, hquiet⟩ | ⟨-, e, hloud⟩
  · rw [hquiet, hn]
    rintro m ⟨⟩ s - -
    exact hlast
  · rw [hloud]
    intro m hm s _ _
    have hset := hm.symm.trans (node?_setNode_self _ hn)
    cases hset
    rfl

theorem Ticking.notify (h : t.Ticking slot tick) (hslot : slot.Lawful) (ref : NodeRef) :
    (t.notify ref).2.Ticking slot tick := by
  by_cases he : ref = tick
  · subst he
    exact h.counter.notify
  · have hcourse : Course (Unseen slot.ticks) (fun _ => True) _ t (t.notify ref).2 :=
      course_notify t ref
    exact h.course hslot hcourse (still_notify he)

/-- Whatever a tree is used for, whoever reads the counter knows of the count. -/
theorem Ticking.use (h : t.Ticking slot tick) (hslot : slot.Lawful) {u : Use σ}
    (hquiet : u.Quiet (Unseen slot.ticks)) : (t.use u).Ticking slot tick := by
  have hcourse : Course (Unseen slot.ticks) (fun _ => True) _ t (t.use u) :=
    course_use t u hquiet (fun _ _ => trivial)
  have hstill : (t.deedsOfUse u).Still tick → (t.use u).Ticking slot tick :=
    h.course hslot hcourse
  cases u with
  | through a =>
      cases a with
      | openFile path access => exact h.openFile hslot path access
      | readAll path => exact h.readAll hslot path
      | writeAll path data => exact h.writeAll hslot path data
      | «notify» ref => exact h.notify hslot ref
      | _ => exact hstill (still_use id nofun)
  | opens ref path access => exact h.openNode hslot ref path access
  | _ => exact hstill (still_use id nofun)

theorem Ticking.happen {b : Builtins} (h : t.Ticking slot b.tick) (hslot : slot.Lawful)
    {o : Occasion σ} (hquiet : o.Quiet slot) : (happen slot b t o).Ticking slot b.tick := by
  cases o with
  | heartbeat =>
      have hadvanced : Moves t (advanced slot t) := .of_nodes rfl
      exact (h.counter.moves hadvanced).notify
  | use u => exact h.use hslot hquiet

end Tree

/-! ## What a heartbeat brings -/

/-- A text has at most four octets for each of its characters. -/
theorem Bytes.length_octetsOf_le (s : String) : (octetsOf s).length ≤ 4 * s.toList.length := by
  unfold octetsOf
  induction s.toList with
  | nil => rfl
  | cons c rest ih =>
      have hc : (String.utf8EncodeChar c).length ≤ 4 := by
        rw [String.length_utf8EncodeChar]
        exact Char.utf8Size_le_four c
      rw [List.flatMap_cons, List.length_append, List.length_cons]
      omega

namespace Vitals.Slot

variable (slot : Vitals.Slot σ)

/-- Different counters are served differently. -/
theorem served_injective {s s' : σ} (h : slot.served s = slot.served s') :
    slot.ticks s = slot.ticks s' := by
  have hoctets : Bytes.octetsOf (tickText (slot.ticks s)) =
      Bytes.octetsOf (tickText (slot.ticks s')) := congrArg Array.toList h
  unfold tickText at hoctets
  rw [Bytes.octetsOf_append, Bytes.octetsOf_append, List.append_cancel_right_eq] at hoctets
  exact UInt64.toNat_inj.mp (Bytes.toString_injective hoctets)

/-- The counter is read in one part. -/
theorem size_served_lt (s : σ) : (slot.served s).size < readChunk := by
  have hdigits : (Nat.toDigits 10 (slot.ticks s).toNat).length ≤ 20 :=
    (Nat.length_toDigits_le_iff (by decide) (by decide)).mpr
      (Nat.lt_trans (slot.ticks s).toNat_lt (by decide))
  have hoctets := Bytes.length_octetsOf_le (tickText (slot.ticks s))
  have hlength : (tickText (slot.ticks s)).toList.length =
      (Nat.toDigits 10 (slot.ticks s).toNat).length + 1 := by simp [tickText]
  have hsize : (slot.served s).size = (Bytes.octetsOf (tickText (slot.ticks s))).length := rfl
  unfold readChunk
  omega

end Vitals.Slot

/-- What a reader that waits wants of the content. -/
def Poll.Goal.of : Poll.Goal → Bytes → Bytes
  | .part offset size, content | .range offset size, content => content.slice offset size
  | .whole _, content => content

namespace Tree

variable [Foreign ε] {t : Tree σ ε} {ref : NodeRef} {n : ReadWrite σ} {session : LiveSession}

/-- A reader gets all that it wants of a content that is read in one part. -/
theorem harvest_of_lt (hn : t.node? ref = some (.readWrite n)) (hs : n.session = some session)
    (hread : session.inner.access.read = true) (hshort : session.inner.snapshot.size < readChunk)
    (goal : Poll.Goal) : t.harvest ref goal = .ok (goal.of session.inner.snapshot) := by
  have hpart := fun offset size => read_nodeReader hn hs hread offset size
  have hrange : ∀ offset size, readRange (t.nodeReader ref) offset size =
      .ok (session.inner.snapshot.slice offset size) := by
    intro offset size
    have hsize := Bytes.size_slice session.inner.snapshot offset (min size readChunk)
    have hsame : session.inner.snapshot.slice offset (min size readChunk) =
        session.inner.snapshot.slice offset size := by
      apply Bytes.slice_congr
      omega
    rw [readRange, hpart]
    dsimp only
    split
    · omega
    · rw [hsame]
  cases goal with
  | part offset size => exact hpart offset size
  | range offset size => exact hrange offset size
  | whole handle =>
      have hall : session.inner.snapshot.slice 0 readChunk = session.inner.snapshot :=
        Bytes.slice_zero_of_size_le (Nat.le_of_lt hshort)
      show readWhole _ _ _ = _
      rw [readWhole, hrange, hall]
      dsimp only
      rw [if_pos hshort]
      rfl

end Tree

namespace Builtins

variable [Foreign ε] {slot : Vitals.Slot σ} {b : Builtins} {t : Tree σ ε} {n : ReadWrite σ}
  {s : LiveSession}

/-- The session reads the counter's node, and no heartbeat is missed in it. -/
structure Heard (slot : Vitals.Slot σ) (b : Builtins) (t : Tree σ ε) (n : ReadWrite σ)
    (s : LiveSession) : Prop where
  last : n.published.last = some (slot.served t.publisher)
  /-- A poll may begin, and waits for the next announcement. -/
  begins : ∀ goal, t.poll b.tick goal = (.waiting (Tree.pollOf b.tick s goal), t)
  waits : ∀ p, p.node = b.tick → p.ticket = ⟨s.number, n.published.generation⟩ →
    t.finish? p = none
  /-- The next heartbeat is announced, and ends the wait of every poll with the new count. -/
  beats : ∃ t' m, heartbeat slot b t = (.ok true, t') ∧
    slot.ticks t'.publisher = slot.ticks t.publisher + 1 ∧
    t'.node? b.tick = some (.readWrite m) ∧ m.session = some s ∧
    m.published.generation = n.published.generation + 1 ∧
    m.published.last = some (slot.served t'.publisher) ∧
    ∀ p, p.node = b.tick → p.ticket.session = s.number →
      p.ticket.observed ≤ n.published.generation →
      ∃ t'', t'.finish? p = some (.ok (p.goal.of (slot.served t'.publisher)), t'')

omit [Foreign ε] in
/-- The counter is another one after a heartbeat. -/
theorem served_advanced (hslot : slot.Lawful) (t : Tree σ ε) :
    slot.served (advanced slot t).publisher ≠ slot.served t.publisher := by
  intro hsame
  have hticks := slot.served_injective hsame
  rw [ticks_advanced hslot] at hticks
  exact absurd (UInt64.add_eq_left.mp hticks) (by decide)

/-- A reader that waits for what has just been announced is let through, and gets it. -/
theorem finish?_of_announced {m : ReadWrite σ} {p : Poll} {value : Bytes}
    (hm : t.node? p.node = some (.readWrite m)) (hs : m.session = some s)
    (hread : s.inner.access.read = true) (hlive : m.published.live = some s.number)
    (hlast : m.published.last = some value) (hshort : value.size < readChunk)
    (hsession : p.ticket.session = s.number) (hnews : p.ticket.observed < m.published.generation) :
    ∃ t', t.finish? p = some (.ok (p.goal.of value), t') := by
  have hwake : m.wake? p.ticket = some (.ok (m.caughtUp s value)) := by
    simp [ReadWrite.wake?, ReadWrite.caughtUp, hlive, hsession, Nat.ne_of_gt hnews, hs, hlast,
      Option.filter]
  have hnode := Tree.node?_setNode_self (.readWrite (m.caughtUp s value)) hm
  refine ⟨t.setNode p.node (.readWrite (m.caughtUp s value)), ?_⟩
  simp only [Tree.finish?, Tree.wake?, hm, hwake]
  rw [Tree.harvest_of_lt hnode rfl hread hshort]

/-- Whoever reads the counter, where nobody who reads it misses the count, hears the next heartbeat.
-/
theorem heard (hslot : slot.Lawful) (h : t.Ticking slot b.tick)
    (hn : t.node? b.tick = some (.readWrite n)) (hs : n.session = some s)
    (hread : s.inner.access.read = true) : Heard slot b t n s := by
  have hcounter := h.counter.isCounter hn
  obtain ⟨signs, hattuned⟩ := hcounter.tuned
  have hlast := h.knows n hn s hs hread
  have hlive : n.published.live = some s.number := by
    rw [hattuned.live, hs]
    rfl
  refine ⟨hlast, Tree.poll_of_read hn hs hread, ?_, ?_⟩
  · rintro ⟨-, ⟨number, observed⟩, goal⟩ rfl hticket
    cases hticket
    simp [Tree.finish?, Tree.wake?, hn, ReadWrite.wake?, hlive]
  · have hn' : (advanced slot t).node? b.tick = some (.readWrite n) := hn
    rcases Tree.notify_counter hn' hcounter with ⟨hsame, -⟩ | ⟨-, e, hloud⟩
    · rw [hlast, Option.some.injEq] at hsame
      exact absurd hsame.symm (served_advanced hslot t)
    · have hnode := Tree.node?_setNode_self (.readWrite { n with published := { n.published with
        last := some (slot.served (advanced slot t).publisher)
        generation := n.published.generation + 1 } }) hn'
      refine ⟨_, _, (heartbeat_eq slot b t).trans hloud, ticks_advanced hslot t, hnode, hs, rfl,
        rfl, ?_⟩
      rintro ⟨node, ticket, goal⟩ rfl hsession hobserved
      exact finish?_of_announced hnode hs hread hlive rfl (slot.size_served_lt _) hsession
        (Nat.lt_succ_of_le hobserved)

end Builtins

/-! ## What is refused changes nothing -/

namespace Tree

variable [Foreign ε] {slot : Vitals.Slot σ} {tick : NodeRef} {t : Tree σ ε}

/-- A write goes into a session's buffer. -/
theorem publisher_writeNode (t : Tree σ ε) (ref : NodeRef) (offset : Nat) (data : Bytes) :
    (t.writeNode ref offset data).2.publisher = t.publisher := by
  unfold writeNode
  repeat' split
  all_goals rfl

theorem publisher_write (t : Tree σ ε) (handle : Handle) (offset : Nat) (data : Bytes) :
    (t.write handle offset data).2.publisher = t.publisher := by
  unfold write
  split
  · rfl
  · split
    · rfl
    · exact publisher_writeNode t _ offset data

/-- No truncation changes the counter. It cuts the buffer of a session, or it would empty the file,
and the sink takes no empty content. -/
theorem Counter.ticks_resizeOn (h : t.Counter slot tick) (hslot : slot.Lawful) (ref : NodeRef)
    (path : String) (size : Nat) :
    slot.ticks (t.resizeOn ref path size).2.publisher = slot.ticks t.publisher := by
  unfold resizeOn
  split
  · rfl
  · rfl
  · next n hn =>
    split
    · rfl
    · rfl
    · next m content hr =>
      obtain ⟨-, hnone⟩ | ⟨-, -, -, -, hcontent⟩ := ReadWrite.resize_cases hr
      · cases hnone
      · cases hcontent
        have hstore := (h.follows hslot).store ref _ n.sink hn rfl #[] t.publisher
        rw [called_empty] at hstore
        rcases hsink : n.sink #[] t.publisher with ⟨failure | ⟨⟩, s⟩ <;> rwa [hsink] at hstore
  · split <;> rfl
  · split <;> rfl

theorem Counter.ticks_truncate (h : t.Counter slot tick) (hslot : slot.Lawful) (path : String)
    (size : Nat) : slot.ticks (t.truncate path size).2.publisher = slot.ticks t.publisher := by
  unfold truncate
  split
  · rfl
  · next path _ =>
    split
    · rfl
    · next r _ =>
      have hnoted := h.moves (.of_nodes (nodes_noteOverlap t path))
      rw [hnoted.ticks_resizeOn hslot, publisher_noteOverlap]

/-- The end of a session that fails changes nothing: the sink has refused what it was handed. -/
theorem Counter.ticks_closeNode (h : t.Counter slot tick) (hslot : slot.Lawful) {ref : NodeRef}
    {fault : Fault} (hfail : (t.closeNode ref).1 = .error fault) :
    slot.ticks (t.closeNode ref).2.publisher = slot.ticks t.publisher := by
  by_cases he : ref = tick
  · subst he
    obtain ⟨n, hn, hcounter⟩ := h.node
    rcases hs : n.session with _ | session
    · rw [closeNode_of_idle (n := .readWrite n) trivial hn (by simp [Node.session?, hs])]
    · rcases hc : session.inner.commit? with _ | content
      · rw [(closeNode_readWrite_of_clean hn hs hc).2]
      · obtain ⟨hresult, hpublisher⟩ := closeNode_readWrite_of_dirty hn hs hc
        rw [hcounter.sink] at hresult hpublisher
        rw [hpublisher]
        rcases hsink : (tickSink slot content t.publisher).1 with failure | ⟨⟩
        · rw [tickSink_of_error hsink]
        · rw [hresult, hsink] at hfail
          cases hfail
  · rw [(h.follows hslot).closeNode, foldl_called, Call.stores_map_of_ne he, List.foldl_nil]

theorem Counter.ticks_close (h : t.Counter slot tick) (hslot : slot.Lawful) {handle : Handle}
    {fault : Fault} (hfail : (t.close handle).1 = .error fault) :
    slot.ticks (t.close handle).2.publisher = slot.ticks t.publisher := by
  unfold close at hfail ⊢
  rcases ht : t.takeHandle handle with _ | ⟨o, taken⟩
  · rfl
  · rw [ht] at hfail
    obtain ⟨-, -, rfl⟩ := takeHandle_eq_some ht
    have htaken : Counter slot tick
        { t with handles := t.handles.filter (·.handle ≠ handle) } := h.moves (.of_nodes rfl)
    exact htaken.ticks_closeNode hslot hfail

/-- A file that is open is not opened again to be written. -/
theorem writeAll_of_busy {n : ReadWrite σ} {session : LiveSession} {path canonical : String}
    {r : Registration} (hpath : Path.normalize path = .ok canonical)
    (howner : t.owner? canonical = some r) (hn : t.node? r.node = some (.readWrite n))
    (hs : n.session = some session) (data : Bytes) :
    ∃ fault, t.writeAll path data = (.error fault, t.noteOverlap canonical) := by
  rcases hp : (Node.readWrite n : Node σ ε).permit t.publisher canonical .writing with
    refused | source
  · refine ⟨refused, ?_⟩
    have hopen : (t.noteOverlap canonical).openNode r.node canonical .writing =
        (.error refused, t.noteOverlap canonical) := by
      simp only [openNode, node?_noteOverlap, hn, publisher_noteOverlap, hp]
    simp only [writeAll, openFile, hpath, howner, hopen]
  · have hidle := Node.session?_of_permit hp
    simp [Node.session?, hs] at hidle

/-- A whole write to the counter that fails changes nothing. -/
theorem Counter.ticks_writeAll (h : t.Counter slot tick) (hnumbered : t.Numbered)
    {path canonical : String} {data : Bytes} {r : Registration} {fault : Fault}
    (hpath : Path.normalize path = .ok canonical) (howner : t.owner? canonical = some r)
    (hnode : r.node = tick) (hfail : (t.writeAll path data).1 = .error fault) :
    slot.ticks (t.writeAll path data).2.publisher = slot.ticks t.publisher := by
  subst hnode
  obtain ⟨n, hn, hcounter⟩ := h.node
  rcases hs : n.session with _ | session
  · by_cases hfits : t.Fits data
    · obtain ⟨t', hall, hpublisher, -⟩ :=
        writeAll_readWrite hnumbered hpath howner hn hs hfits
      rw [hall] at hfail ⊢
      rw [hcounter.sink] at hfail hpublisher
      rw [hpublisher]
      rcases hsink : (tickSink slot data t.publisher).1 with failure | ⟨⟩
      · rw [tickSink_of_error hsink]
      · rw [hsink] at hfail
        cases hfail
    · obtain ⟨limit, t', hall, hpublisher, -⟩ :=
        writeAll_readWrite_of_not_fits hnumbered hpath howner hn hs hfits
      rw [hall, hpublisher]
  · obtain ⟨refused, hall⟩ := writeAll_of_busy hpath howner hn hs data
    rw [hall, publisher_noteOverlap]

/-- Something that would write to the counter, or cut what is written, is refused. -/
inductive Refuses (tick : NodeRef) (t : Tree σ ε) : Use σ → Prop where
  | write {handle : Handle} {offset : Nat} {data : Bytes} {fault : Fault}
      (h : (t.write handle offset data).1 = .error fault) :
      Refuses tick t (.through (.write handle offset data))
  | close {handle : Handle} {fault : Fault} (h : (t.close handle).1 = .error fault) :
      Refuses tick t (.through (.close handle))
  | writeAll {path canonical : String} {data : Bytes} {r : Registration} {fault : Fault}
      (hpath : Path.normalize path = .ok canonical) (howner : t.owner? canonical = some r)
      (hnode : r.node = tick) (h : (t.writeAll path data).1 = .error fault) :
      Refuses tick t (.through (.writeAll path data))
  | truncate {path : String} {size : Nat} {fault : Fault}
      (h : (t.truncate path size).1 = .error fault) :
      Refuses tick t (.through (.truncate path size))
  | writes {ref : NodeRef} {offset : Nat} {data : Bytes} {fault : Fault}
      (h : (t.writeNode ref offset data).1 = .error fault) :
      Refuses tick t (.writes ref offset data)
  | closes {ref : NodeRef} {fault : Fault} (h : (t.closeNode ref).1 = .error fault) :
      Refuses tick t (.closes ref)
  | resizes {ref : NodeRef} {path : String} {size : Nat} {fault : Fault}
      (h : (t.resizeOn ref path size).1 = .error fault) : Refuses tick t (.resizes ref path size)

/-- What is refused leaves the counter as it is. -/
theorem Refuses.ticks_eq {u : Use σ} (hrefuses : t.Refuses tick u) (h : t.Counter slot tick)
    (hslot : slot.Lawful) (hnumbered : t.Numbered) :
    slot.ticks (t.use u).publisher = slot.ticks t.publisher := by
  cases hrefuses with
  | write hfail => exact congrArg slot.ticks (publisher_write t _ _ _)
  | close hfail => exact h.ticks_close hslot hfail
  | writeAll hpath howner hnode hfail =>
      exact h.ticks_writeAll hnumbered hpath howner hnode hfail
  | truncate hfail => exact h.ticks_truncate hslot _ _
  | writes hfail => exact congrArg slot.ticks (publisher_writeNode t _ _ _)
  | closes hfail => exact h.ticks_closeNode hslot hfail
  | resizes hfail => exact h.ticks_resizeOn hslot _ _ _

end Tree

/-! ## Runs -/

/-- Announcements are never taken back. -/
theorem ReadWrite.generation_step {sign : Sign} {n m : ReadWrite σ}
    (h : ReadWrite.Step sign n m) : n.published.generation ≤ m.published.generation := by
  cases h with
  | begin s access content idle => exact Nat.le_refl _
  | write hw =>
      obtain ⟨session, inner, -, -, rfl⟩ := write_eq_ok hw
      exact Nat.le_refl _
  | resize hr =>
      obtain ⟨session, inner, -, -, rfl, -⟩ | ⟨rfl, -⟩ := resize_eq_ok hr <;> exact Nat.le_refl _
  | close hc =>
      obtain ⟨-, rfl⟩ := close_eq_ok hc
      exact Nat.le_refl _
  | announce ha =>
      obtain ⟨-, rfl⟩ := announce?_eq_some ha
      exact Nat.le_succ _
  | wake hw =>
      obtain ⟨session, -, rfl⟩ := wake?_eq_ok hw
      exact Nat.le_refl _
  | rest n => exact Nat.le_refl _

namespace Builtins

variable [Foreign ε] {slot : Vitals.Slot σ} {b : Builtins} {t₀ start t u : Tree σ ε}

/-- Where the built-in nodes have just been published, nobody reads the counter. -/
theorem ticking_install (hslot : slot.Lawful)
    (hspares : ∀ ref n, t.node? ref = some n → n.Spares slot) (root : String) :
    (install slot t root).2.Ticking slot (install slot t root).1.tick := by
  refine ⟨counter_install hslot hspares, ?_⟩
  intro n hn
  rw [node?_install] at hn
  cases hn
  exact ReadWrite.knows_of_idle rfl _

/-- Whatever has been done since, whoever reads the counter knows of the count. -/
theorem ticking_run (hslot : slot.Lawful) (h : t.Ticking slot b.tick)
    {occasions : List (Occasion σ)} (hquiet : ∀ o ∈ occasions, o.Quiet slot) :
    (run slot b t occasions).Ticking slot b.tick := by
  induction occasions using List.reverseRecOn with
  | nil => exact h
  | append_singleton occasions o ih =>
      rw [List.forall_mem_append] at hquiet
      rw [run_append_singleton]
      exact (ih hquiet.1).happen hslot (hquiet.2 o List.mem_cons_self)

theorem numbered_run (h : t.Numbered) (occasions : List (Occasion σ)) :
    (run slot b t occasions).Numbered := by
  induction occasions using List.reverseRecOn with
  | nil => exact h
  | append_singleton occasions o ih =>
      rw [run_append_singleton]
      exact (proceeds_happen slot b _ o).numbered ih

/-- A poll that began at some time has seen no more announcements than there have been since. -/
theorem observed_le_of_moves {n : ReadWrite σ} {p : Poll} {goal : Poll.Goal}
    (h : t.Counter slot b.tick) (hpoll : t.poll b.tick goal = (.waiting p, u))
    {later : Tree σ ε} (hmoves : Tree.Moves t later)
    (hn : later.node? b.tick = some (.readWrite n)) :
    p.node = b.tick ∧ p.ticket.observed ≤ n.published.generation := by
  obtain ⟨m, hm, hcounter⟩ := h.node
  obtain ⟨signs, hattuned⟩ := hcounter.tuned
  obtain ⟨-, s, hs, -, rfl⟩ := Tree.poll_eq_waiting hm hpoll
  obtain ⟨n', hn', hle⟩ := hmoves.readWrite
    (P := fun n => s.observed ≤ n.published.generation)
    (fun _ _ _ hle hstep => Nat.le_trans hle (ReadWrite.generation_step hstep)) hm
    (hattuned.observed_le s hs)
  rw [hn] at hn'
  cases hn'
  exact ⟨rfl, hle⟩

/-- The built-in nodes are published in a tree where nothing else touches the counter, which stands
at zero. Whatever happens since, heartbeats and uses of the tree in any order:

Whoever reads the counter hears of every heartbeat. The last value is the count as it is served, so
the next heartbeat is announced, and every poll that began in the session at some time and waits is
answered with the new count.

The counter is the last number written, or zero, and the heartbeats since, in 64 bits; a write or a
truncation that is refused leaves it as it is. -/
theorem heartbeats_heard (hslot : slot.Lawful) (huse : Tree.InUse t₀)
    (hspares : ∀ ref n, t₀.node? ref = some n → n.Spares slot)
    (hzero : slot.ticks t₀.publisher = 0) {root : String}
    (hinstall : install slot t₀ root = (b, start)) {occasions : List (Occasion σ)}
    (hquiet : ∀ o ∈ occasions, o.Quiet slot) :
    (∃ n, (run slot b start occasions).node? b.tick = some (.readWrite n) ∧
      (∀ s, n.session = some s → s.inner.access.read = true →
        Heard slot b (run slot b start occasions) n s) ∧
      ∀ earlier later goal p u, occasions = earlier ++ later →
        (run slot b start earlier).poll b.tick goal = (.waiting p, u) →
        p.node = b.tick ∧ p.ticket.observed ≤ n.published.generation) ∧
    (∃ changes, Chronicle slot b start occasions changes (run slot b start occasions)) ∧
    (∀ changes t, Chronicle slot b start occasions changes t →
      (slot.ticks t.publisher).toNat = Change.count changes % 2 ^ 64) ∧
    ∀ u, (run slot b start occasions).Refuses b.tick u →
      slot.ticks ((run slot b start occasions).use u).publisher =
        slot.ticks (run slot b start occasions).publisher := by
  have hticking := ticking_install hslot hspares root
  have hnumbered := numbered_install huse.numbered slot root
  have hpublisher := publisher_install slot t₀ root
  rw [hinstall] at hticking hnumbered hpublisher
  dsimp only at hticking hnumbered hpublisher
  rw [← hpublisher] at hzero
  have hrun := ticking_run hslot hticking hquiet
  refine ⟨?_, exists_chronicle hticking.counter hquiet, ?_, ?_⟩
  · obtain ⟨n, hn, -⟩ := hrun.counter.node
    refine ⟨n, hn, fun s hs hread => heard hslot hrun hn hs hread, ?_⟩
    rintro earlier later goal p u rfl hpoll
    have hearlier := hticking.counter.moves (moves_run slot b start earlier)
    have hlater : Tree.Moves (run slot b start earlier) (run slot b start (earlier ++ later)) := by
      rw [run_append]
      exact moves_run slot b _ later
    exact observed_le_of_moves hearlier hpoll hlater hn
  · intro changes t hchronicle
    rw [(hchronicle.ticks_eq hslot hticking.counter hzero).2, UInt64.toNat_ofNat']
  · exact fun u hrefuses => hrefuses.ticks_eq hrun.counter hslot (numbered_run hnumbered _)

/-- The built-in nodes of a server that publishes nothing else. -/
def server : Builtins × Tree Vitals Empty := install .whole { publisher := {} } "/server"

/-- A number is written, and a heartbeat comes; something that is no number is refused, and so is an
empty content. Then a client reads. -/
def morning : List (Occasion Vitals) :=
  [.use (.through (.writeAll "/server/tick" (.ofString "41"))), .heartbeat,
    .use (.through (.writeAll "/server/tick" (.ofString "noon"))),
    .use (.through (.truncate "/server/tick" 0)),
    .use (.through (.openFile "/server/tick" .reading))]

/-- The client hears the next heartbeat. The count is 42, and stays so where the file is to be
emptied while the client reads. -/
theorem heartbeats_heard_server :
    (∃ n s, (run .whole server.1 server.2 morning).node? server.1.tick = some (.readWrite n) ∧
      n.session = some s ∧ s.inner.snapshot = .ofString "42\n" ∧
      Heard .whole server.1 (run .whole server.1 server.2 morning) n s) ∧
    (∃ changes, Chronicle .whole server.1 server.2 morning changes
      (run .whole server.1 server.2 morning) ∧ 42 = Change.count changes % 2 ^ 64) ∧
    ((run .whole server.1 server.2 morning).truncate "/server/tick" 0).2.publisher.ticks = 42 := by
  have hlawful : Vitals.Slot.whole.Lawful := fun _ _ => rfl
  have huse : Tree.InUse ({ publisher := {} } : Tree Vitals Empty) := .empty _ _
  have hspares : ∀ ref n, ({ publisher := {} } : Tree Vitals Empty).node? ref = some n →
      n.Spares Vitals.Slot.whole := by simp [Tree.node?]
  have hzero : Vitals.Slot.whole.ticks ({ publisher := {} } : Tree Vitals Empty).publisher = 0 :=
    rfl
  have hinstall : install .whole ({ publisher := {} } : Tree Vitals Empty) "/server" =
      (server.1, server.2) := rfl
  have hquiet : ∀ o ∈ morning, o.Quiet Vitals.Slot.whole := by
    simp [morning, Occasion.Quiet, Use.Quiet, Action.Quiet]
  obtain ⟨⟨n, hn, hheard, -⟩, ⟨changes, hchronicle⟩, hcount, hrefused⟩ :=
    heartbeats_heard hlawful huse hspares hzero hinstall hquiet
  have hsession : ((run .whole server.1 server.2 morning).node? server.1.tick).bind Node.session? =
      some ⟨"/server/tick", .reading, .ofString "42\n", #[], false⟩ := by decide +kernel
  have hticks : (run .whole server.1 server.2 morning).publisher.ticks = 42 := by decide +kernel
  have htruncate : ((run .whole server.1 server.2 morning).truncate "/server/tick" 0).1 =
      .error (.ofFailure ⟨Text.NumeralError.empty.message, []⟩) := by decide +kernel
  rw [hn, Option.bind_some, Node.session?, Option.map_eq_some_iff] at hsession
  obtain ⟨s, hs, hinner⟩ := hsession
  refine ⟨⟨n, s, hn, hs, by rw [hinner], hheard s hs (by rw [hinner]; rfl)⟩,
    ⟨changes, hchronicle, ?_⟩, ?_⟩
  · rw [← hcount changes _ hchronicle]
    exact (congrArg UInt64.toNat hticks).symm
  · exact (hrefused _ (.truncate htruncate)).trans hticks

end Builtins

end LiveTree
