import LiveTree.Proofs.Runs
import LiveTree.Proofs.Sessions

/-!
# Changes are heard

A read-write node counts its announcements, and its session remembers the count that its snapshot
belongs to. A reader waits while the two counts agree. `ReadWrite.Attuned` says what keeps this
right: if they agree, the snapshot is the last known value, and if they do not, the last known value
is the latest announced one.

What has been announced is read off a history of signs, one for each operation on the node, so what
a reader is told can be compared with what has happened (`poll_hears_changes`): no announcement is
missed, none is made up, and a reader whose session has ended is told so, whatever came after it.
-/

namespace LiveTree

variable {σ ε : Type}

/-- The value a reader that waits has not seen yet. The latest sign comes first. -/
def latestNews : List Sign → Option Bytes
  | [] => none
  | .nothing :: signs => latestNews signs
  | .opened :: _ => none
  | .announced value :: _ => some value
  | .caughtUp :: _ => none

/-! ## One node -/

namespace ReadWrite

/-- The counts, the last value and the session of a node agree with the news there are. -/
structure Attuned (news : Option Bytes) (n : ReadWrite σ) : Prop where
  live : n.published.live = n.session.map (·.number)
  number_lt : ∀ s, n.session = some s → s.number < n.nextSession
  observed_le : ∀ s, n.session = some s → s.observed ≤ n.published.generation
  snapshot : ∀ s, n.session = some s → s.inner.access.read = true →
    s.observed = n.published.generation → n.published.last = some s.inner.snapshot
  quiet : ∀ s, n.session = some s → news = none → s.observed = n.published.generation
  fresh : ∀ s, n.session = some s → ∀ value, news = some value →
    s.observed < n.published.generation ∧ n.published.last = some value

/-- A session that goes on with the same snapshot leaves all as it was. -/
theorem Attuned.of_inner {news : Option Bytes} {n : ReadWrite σ} (h : n.Attuned news)
    {session : LiveSession} {inner : Session} (hs : n.session = some session)
    (hsnapshot : inner.snapshot = session.inner.snapshot)
    (haccess : inner.access = session.inner.access) :
    Attuned news { n with session := some { session with inner } } := by
  refine ⟨?_, ?_, ?_, ?_, ?_, ?_⟩
  · rw [h.live, hs]
    rfl
  all_goals
    intro s he
    cases he
  · exact h.number_lt session hs
  · exact h.observed_le session hs
  · intro hread hobserved
    show n.published.last = some inner.snapshot
    rw [hsnapshot]
    refine h.snapshot session hs ?_ hobserved
    rw [← haccess]
    exact hread
  · exact h.quiet session hs
  · exact h.fresh session hs

/-- A node without a session is attuned to any news. -/
theorem attuned_of_idle {news : Option Bytes} {n : ReadWrite σ} (hs : n.session = none)
    (hlive : n.published.live = none) : n.Attuned news := by
  refine ⟨?_, ?_, ?_, ?_, ?_, ?_⟩
  · rw [hs, hlive]
    rfl
  all_goals
    intro s he
    rw [hs] at he
    cases he

/-- The node after its session has caught up with `value`. -/
def caughtUp (n : ReadWrite σ) (s : LiveSession) (value : Bytes) : ReadWrite σ :=
  { n with session := some { s with
    inner := { s.inner with snapshot := value }
    observed := n.published.generation } }

theorem Attuned.wake?_eq_none {n : ReadWrite σ} (h : n.Attuned none) {s : LiveSession}
    (hs : n.session = some s) : n.wake? ⟨s.number, s.observed⟩ = none := by
  have hlive : n.published.live = some s.number := by
    rw [h.live, hs]
    rfl
  have hcount := (h.quiet s hs rfl).symm
  simp [wake?, hlive, hcount]

theorem Attuned.wake?_eq_some {value : Bytes} {n : ReadWrite σ} (h : n.Attuned (some value))
    {s : LiveSession} (hs : n.session = some s) :
    n.wake? ⟨s.number, s.observed⟩ = some (.ok (n.caughtUp s value)) := by
  obtain ⟨hlt, hlast⟩ := h.fresh s hs value rfl
  have hlive : n.published.live = some s.number := by
    rw [h.live, hs]
    rfl
  have hne := Nat.ne_of_gt hlt
  simp [wake?, caughtUp, hlive, hne, hs, hlast, Option.filter]

theorem attuned_step {signs : List Sign} {sign : Sign} {n m : ReadWrite σ}
    (h : n.Attuned (latestNews signs)) (hstep : Step sign n m) :
    m.Attuned (latestNews (sign :: signs)) := by
  cases hstep with
  | begin s access content idle =>
      refine ⟨rfl, ?_, ?_, ?_, ?_, ?_⟩
      all_goals
        intro s he
        cases he
      · exact Nat.lt_succ_self _
      · exact Nat.le_refl _
      · intro hread _
        exact if_pos hread
      · exact fun _ => rfl
      · exact nofun
  | write hw =>
      obtain ⟨session, inner, hs, hinner, rfl⟩ := write_eq_ok hw
      obtain ⟨hsnapshot, haccess⟩ := Session.write_eq_ok hinner
      exact h.of_inner hs hsnapshot haccess
  | resize hr =>
      obtain ⟨session, inner, hs, hinner, rfl, -⟩ | ⟨rfl, -⟩ := resize_eq_ok hr
      · obtain ⟨hsnapshot, haccess⟩ := Session.truncate_eq_ok hinner
        exact h.of_inner hs hsnapshot haccess
      · exact h
  | close hc =>
      obtain ⟨hs, rfl⟩ := close_eq_ok hc
      refine attuned_of_idle rfl ?_
      show (if n.published.live = some _ then none else n.published.live) = none
      rw [h.live, hs]
      exact if_pos rfl
  | announce ha =>
      obtain ⟨-, rfl⟩ := announce?_eq_some ha
      refine ⟨h.live, h.number_lt, ?_, ?_, ?_, ?_⟩
      · intro s hs
        exact Nat.le_succ_of_le (h.observed_le s hs)
      · intro s hs _ hobserved
        -- the session has not seen the announcement that was just made
        have hle := h.observed_le s hs
        rw [hobserved] at hle
        exact absurd hle (Nat.not_succ_le_self _)
      · exact nofun
      · intro s hs value hvalue
        cases hvalue
        exact ⟨Nat.lt_succ_of_le (h.observed_le s hs), rfl⟩
  | wake hw =>
      obtain ⟨session, hs, rfl⟩ := wake?_eq_ok hw
      refine ⟨?_, ?_, ?_, ?_, ?_, ?_⟩
      · rw [h.live, hs]
        rfl
      all_goals
        intro s he
        cases he
      · exact h.number_lt session hs
      · exact Nat.le_refl _
      · intro hread _
        show n.published.last = some (n.published.last.getD #[])
        -- there is a last value: the snapshot, or what was announced since
        rcases hnews : latestNews signs with _ | value
        · rw [h.snapshot session hs hread (h.quiet session hs hnews)]
          rfl
        · rw [(h.fresh session hs value hnews).2]
          rfl
      · exact fun _ => rfl
      · exact nofun
  | rest n => exact h

/-- What tells a reader nothing leaves the last value as it was. -/
theorem last_of_step {n m : ReadWrite σ} (hstep : Step .nothing n m) :
    m.published.last = n.published.last := by
  cases hstep with
  | write hw =>
      obtain ⟨session, inner, -, -, rfl⟩ := write_eq_ok hw
      rfl
  | resize hr =>
      obtain ⟨session, inner, -, -, rfl, -⟩ | ⟨rfl, -⟩ := resize_eq_ok hr <;> rfl
  | close hc =>
      obtain ⟨-, rfl⟩ := close_eq_ok hc
      rfl
  | rest n => rfl

/-- After a step the session is the one of before, or has a new number. -/
theorem session_of_step {sign : Sign} {n m : ReadWrite σ} (hstep : Step sign n m) :
    n.nextSession ≤ m.nextSession ∧ ∀ s, m.session = some s →
      (∃ s', n.session = some s' ∧ s'.number = s.number) ∨ s.number = n.nextSession := by
  cases hstep with
  | begin s access content idle =>
      refine ⟨Nat.le_succ _, ?_⟩
      intro s he
      cases he
      exact .inr rfl
  | write hw =>
      obtain ⟨session, inner, hs, -, rfl⟩ := write_eq_ok hw
      refine ⟨Nat.le_refl _, ?_⟩
      intro s he
      cases he
      exact .inl ⟨session, hs, rfl⟩
  | resize hr =>
      obtain ⟨session, inner, hs, -, rfl, -⟩ | ⟨rfl, -⟩ := resize_eq_ok hr
      · refine ⟨Nat.le_refl _, ?_⟩
        intro s he
        cases he
        exact .inl ⟨session, hs, rfl⟩
      · exact ⟨Nat.le_refl _, fun s hs => .inl ⟨s, hs, rfl⟩⟩
  | close hc =>
      obtain ⟨-, rfl⟩ := close_eq_ok hc
      exact ⟨Nat.le_refl _, nofun⟩
  | announce ha =>
      obtain ⟨-, rfl⟩ := announce?_eq_some ha
      exact ⟨Nat.le_refl _, fun s hs => .inl ⟨s, hs, rfl⟩⟩
  | wake hw =>
      obtain ⟨session, hs, rfl⟩ := wake?_eq_ok hw
      refine ⟨Nat.le_refl _, ?_⟩
      intro s he
      cases he
      exact .inl ⟨session, hs, rfl⟩
  | rest n => exact ⟨Nat.le_refl _, fun s hs => .inl ⟨s, hs, rfl⟩⟩

/-- The number was given to a session, and that is not open. -/
def Over (number : Nat) (n : ReadWrite σ) : Prop :=
  number < n.nextSession ∧ ∀ s, n.session = some s → s.number ≠ number

/-- A session that is over does not come back. -/
theorem over_step {number : Nat} {sign : Sign} {n m : ReadWrite σ} (h : n.Over number)
    (hstep : Step sign n m) : m.Over number := by
  obtain ⟨hlt, hne⟩ := h
  obtain ⟨hle, hsession⟩ := session_of_step hstep
  refine ⟨Nat.lt_of_lt_of_le hlt hle, ?_⟩
  intro s hs
  rcases hsession s hs with ⟨s', hs', hsame⟩ | hnew
  · rw [← hsame]
    exact hne s' hs'
  · rw [hnew]
    exact (Nat.ne_of_lt hlt).symm

end ReadWrite

namespace Tree

variable [Foreign ε]

/-! ## One node of a tree -/

/-- Something is done to the node `ref` leads to, with what it tells a reader that waits there.
Whatever else is done to the tree may close the node too, and does nothing else to it. -/
inductive Happens (ref : NodeRef) : Sign → Tree σ ε → Tree σ ε → Prop where
  | opens {t t' : Tree σ ε} {path : String} {access : Access}
      (h : t.openNode ref path access = (.ok (), t')) : Happens ref .opened t t'
  | refuses {t t' : Tree σ ε} {path : String} {access : Access} {fault : Fault}
      (h : t.openNode ref path access = (.error fault, t')) : Happens ref .nothing t t'
  | writes (t : Tree σ ε) (offset : Nat) (data : Bytes) :
      Happens ref .nothing t (t.writeNode ref offset data).2
  | resizes (t : Tree σ ε) (path : String) (size : Nat) :
      Happens ref .nothing t (t.resizeOn ref path size).2
  | closes (t : Tree σ ε) : Happens ref .nothing t (t.closeNode ref).2
  | announces {t supplied t' : Tree σ ε} {n : ReadWrite σ} {value : Bytes}
      (hn : t.node? ref = some (.readWrite n))
      (hp : t.provide n.provider = (.ok value, supplied))
      (h : t.notify ref = (.ok true, t')) : Happens ref (.announced value) t t'
  | keepsStill {t t' : Tree σ ε} {result : Except Fault Bool}
      (h : t.notify ref = (result, t')) (hr : result ≠ .ok true) : Happens ref .nothing t t'
  | letsThrough {t t' : Tree σ ε} {p : Poll} (hp : p.node = ref)
      (h : t.wake? p = some (.ok (), t')) : Happens ref .caughtUp t t'
  | turnsAway {t t' : Tree σ ε} {p : Poll} {fault : Fault}
      (h : t.wake? p = some (.error fault, t')) : Happens ref .nothing t t'
  | elsewhere {t t' : Tree σ ε}
      (h : ∃ k, t'.node? ref = (t.node? ref).map Node.closed^[k]) : Happens ref .nothing t t'

/-- What may happen to the node, the latest sign first. -/
inductive History (ref : NodeRef) (first : Tree σ ε) : List Sign → Tree σ ε → Prop where
  | start : History ref first [] first
  | next {signs : List Sign} {sign : Sign} {t t' : Tree σ ε} :
      History ref first signs t → Happens ref sign t t' → History ref first (sign :: signs) t'

variable {t t' : Tree σ ε} {ref : NodeRef} {n : ReadWrite σ}

/-- Without an announcement the node is as the provider left it. -/
theorem step_notify_quiet {result : Except Fault Bool} (hn : t.node? ref = some (.readWrite n))
    (h : t.notify ref = (result, t')) (hr : result ≠ .ok true) :
    ∃ m, ReadWrite.Step .nothing n m ∧ t'.node? ref = some (.readWrite m) := by
  obtain ⟨m, hstep, hm⟩ := step_provide hn n.provider
  rcases hp : t.provide n.provider with ⟨fault | value, supplied⟩
  · have hnotify : t.notify ref = (.error fault, supplied) := by
      simp only [«notify», hn, hp]
    rw [h] at hnotify
    cases hnotify
    rw [hp] at hm
    exact ⟨m, hstep, hm⟩
  · rw [hp] at hm
    rcases notify_of_provide hn hp hm with ⟨-, hquiet⟩ | ⟨announced, -, e, hloud⟩
    · rw [h] at hquiet
      cases hquiet
      exact ⟨m, hstep, hm⟩
    · rw [h] at hloud
      cases hloud
      exact absurd rfl hr

/-- Whatever happens to a read-write node, it takes the step that its sign tells of; a provider that
is run for it may have closed it before. -/
theorem step_of_happens {sign : Sign} (hn : t.node? ref = some (.readWrite n))
    (h : Happens ref sign t t') :
    ∃ m m', ReadWrite.Step .nothing n m ∧ ReadWrite.Step sign m m' ∧
      t'.node? ref = some (.readWrite m') := by
  cases h with
  | opens h =>
      rename_i path access
      obtain ⟨n', source, supplied, content, hn', hp, hf, rfl⟩ := openNode_eq_ok h
      rw [hn] at hn'
      cases hn'
      have hidle := Node.session?_of_permit hp
      have hstill := node?_fetch_of_permit (n := .readWrite n) trivial hn hp hf
      refine ⟨n, _, .rest n, .begin supplied.publisher access content ?_,
        node?_startSession_self hstill path access content⟩
      simpa [Node.session?] using hidle
  | refuses h =>
      rcases openNode_eq_error h with rfl | ⟨source, rfl⟩
      · exact ⟨n, n, .rest n, .rest n, hn⟩
      · obtain ⟨m, hstep, hm⟩ := step_of_onlyCloses hn (onlyCloses_fetch t source ref)
        exact ⟨n, m, .rest n, hstep, hm⟩
  | writes offset data =>
      unfold writeNode
      rw [hn]
      dsimp only
      split
      · exact ⟨n, n, .rest n, .rest n, hn⟩
      · next m hw => exact ⟨n, m, .rest n, .write hw, node?_setNode_self _ hn⟩
  | resizes path size =>
      unfold resizeOn
      rw [hn]
      dsimp only
      split
      · exact ⟨n, n, .rest n, .rest n, hn⟩
      · next m hr => exact ⟨n, m, .rest n, .resize hr, node?_setNode_self _ hn⟩
      · split <;> exact ⟨n, n, .rest n, .rest n, hn⟩
  | closes =>
      obtain ⟨m, hstep, hm⟩ := step_of_onlyCloses hn (onlyCloses_closeNode t ref ref)
      exact ⟨n, m, .rest n, hstep, hm⟩
  | announces hn' hp h =>
      rw [hn] at hn'
      cases hn'
      obtain ⟨m, hstep, hm⟩ := step_provide hn n.provider
      rw [hp] at hm
      rcases notify_of_provide hn hp hm with ⟨-, hquiet⟩ | ⟨announced, ha, e, hloud⟩
      · rw [h] at hquiet
        cases hquiet
      · rw [h] at hloud
        cases hloud
        exact ⟨m, announced, hstep, .announce ha, node?_setNode_self _ hm⟩
  | keepsStill h hr =>
      obtain ⟨m, hstep, hm⟩ := step_notify_quiet hn h hr
      exact ⟨n, m, .rest n, hstep, hm⟩
  | letsThrough hp h =>
      subst hp
      unfold wake? at h
      rw [hn] at h
      dsimp only at h
      split at h
      · cases h
      · cases h
      · next m hw =>
        cases h
        exact ⟨n, m, .rest n, .wake hw, node?_setNode_self _ hn⟩
  | turnsAway h =>
      have hsame : t' = t := by
        unfold wake? at h
        split at h
        · split at h <;> cases h
          rfl
        · cases h
          rfl
      exact ⟨n, n, .rest n, .rest n, hsame ▸ hn⟩
  | elsewhere h =>
      obtain ⟨m, hstep, hm⟩ := step_of_onlyCloses hn h
      exact ⟨n, m, .rest n, hstep, hm⟩

/-! ## Whole histories -/

namespace History

variable {first : Tree σ ε} {signs : List Sign}

/-- A history goes on where another one ended. -/
theorem trans {later : List Sign} (h : History ref first signs t) (h' : History ref t later t') :
    History ref first (later ++ signs) t' := by
  induction h' with
  | start => exact h
  | next _ hs ih => exact .next ih hs

theorem attuned (h : History ref first signs t) (hn : first.node? ref = some (.readWrite n))
    (hnew : (Node.readWrite n : Node σ ε).IsNew) :
    ∃ m, t.node? ref = some (.readWrite m) ∧ m.Attuned (latestNews signs) := by
  induction h with
  | start =>
      obtain ⟨hidle, hpublished, -⟩ := hnew
      exact ⟨n, hn, ReadWrite.attuned_of_idle hidle (by rw [hpublished])⟩
  | @next signs sign t t' _ hs ih =>
      obtain ⟨m, hm, hattuned⟩ := ih
      obtain ⟨m₁, m₂, hquiet, hstep, hm₂⟩ := step_of_happens hm hs
      have hsilent : m₁.Attuned (latestNews signs) := ReadWrite.attuned_step hattuned hquiet
      exact ⟨m₂, hm₂, ReadWrite.attuned_step hsilent hstep⟩

theorem nextSession_le (h : History ref first signs t)
    (hn : first.node? ref = some (.readWrite n)) :
    ∃ m, t.node? ref = some (.readWrite m) ∧ n.nextSession ≤ m.nextSession := by
  induction h with
  | start => exact ⟨n, hn, Nat.le_refl _⟩
  | next _ hs ih =>
      obtain ⟨m, hm, hle⟩ := ih
      obtain ⟨m₁, m₂, hquiet, hstep, hm₂⟩ := step_of_happens hm hs
      refine ⟨m₂, hm₂, ?_⟩
      have := (ReadWrite.session_of_step hquiet).1
      have := (ReadWrite.session_of_step hstep).1
      omega

theorem isOver {number : Nat} (h : History ref first signs t)
    (hn : first.node? ref = some (.readWrite n)) (hover : n.Over number) :
    ∃ m, t.node? ref = some (.readWrite m) ∧ m.Over number := by
  induction h with
  | start => exact ⟨n, hn, hover⟩
  | next _ hs ih =>
      obtain ⟨m, hm, hover⟩ := ih
      obtain ⟨m₁, m₂, hquiet, hstep, hm₂⟩ := step_of_happens hm hs
      exact ⟨m₂, hm₂, ReadWrite.over_step (ReadWrite.over_step hover hquiet) hstep⟩

end History

/-! ## Waiting -/

/-- The poll that a reader begins now. -/
def pollOf (ref : NodeRef) (s : LiveSession) (goal : Poll.Goal) : Poll :=
  ⟨ref, ⟨s.number, s.observed⟩, goal⟩

theorem poll_of_read (hn : t.node? ref = some (.readWrite n)) {s : LiveSession}
    (hs : n.session = some s) (hread : s.inner.access.read = true) (goal : Poll.Goal) :
    t.poll ref goal = (.waiting (pollOf ref s goal), t) := by
  have hticket : n.ticket = .ok ⟨s.number, s.observed⟩ := by
    simp only [ReadWrite.ticket, hs, hread, if_true]
  simp only [poll, hn, hticket]
  rfl

/-- A reader that is let through finds the latest value in its session. -/
theorem finish?_eq_some {value : Bytes} (hn : t.node? ref = some (.readWrite n))
    (h : n.Attuned (some value)) {s : LiveSession} (hs : n.session = some s) (goal : Poll.Goal) :
    ∃ t', t.finish? (pollOf ref s goal) = some (t'.harvest ref goal, t') ∧
      t'.node? ref = some (.readWrite (n.caughtUp s value)) := by
  refine ⟨_, ?_, node?_setNode_self (.readWrite (n.caughtUp s value)) hn⟩
  have hwake : t.wake? (pollOf ref s goal) =
      some (.ok (), t.setNode ref (.readWrite (n.caughtUp s value))) := by
    simp only [wake?, pollOf, hn, h.wake?_eq_some hs]
  rw [finish?, hwake]
  rfl

/-- A reader waits while there are no news. -/
theorem finish?_eq_none {news : Option Bytes} (hn : t.node? ref = some (.readWrite n))
    (h : n.Attuned news) {s : LiveSession} (hs : n.session = some s) (goal : Poll.Goal) :
    t.finish? (pollOf ref s goal) = none ↔ news = none := by
  constructor
  · intro hwait
    rcases news with _ | value
    · rfl
    · obtain ⟨t', hthrough, -⟩ := finish?_eq_some hn h hs goal
      rw [hwait] at hthrough
      cases hthrough
  · rintro rfl
    have hwake : t.wake? (pollOf ref s goal) = none := by
      simp only [wake?, pollOf, hn, h.wake?_eq_none hs]
    rw [finish?, hwake]

/-- A reader whose session is over is told so. -/
theorem finish?_of_over {news : Option Bytes} {p : Poll}
    (hn : t.node? p.node = some (.readWrite n)) (h : n.Attuned news)
    (hover : n.Over p.ticket.session) : t.finish? p = some (.error .noSession, t) := by
  have hne : n.published.live ≠ some p.ticket.session := by
    rw [h.live]
    intro hsome
    obtain ⟨s, hs, hnumber⟩ := Option.map_eq_some_iff.mp hsome
    exact hover.2 s hs hnumber
  simp [finish?, wake?, hn, ReadWrite.wake?, hne]

/-- Whether a value is announced depends on the last one alone, also if the provider has the node
closed while it runs. -/
theorem notify_eq_ok (hn : t.node? ref = some (.readWrite n)) {supplied : Tree σ ε}
    {value last : Bytes} (hp : t.provide n.provider = (.ok value, supplied))
    (hlast : n.published.last = some last) :
    (t.notify ref).1 = .ok (decide (value ≠ last)) := by
  obtain ⟨m, hstep, hm⟩ := step_provide hn n.provider
  rw [hp] at hm
  have hsame : m.published.last = some last := (ReadWrite.last_of_step hstep).trans hlast
  rcases notify_of_provide hn hp hm with ⟨hnone, h⟩ | ⟨announced, hsome, e, h⟩
  · have heq := ReadWrite.announce?_eq_none.mp hnone
    rw [hsame] at heq
    cases heq
    simp [h]
  · have hne := (ReadWrite.announce?_eq_some hsome).1
    have hdiffers : value ≠ last := by
      rintro rfl
      exact hne hsame
    simp [h, hdiffers]

/-- Whatever has happened to a read-write node since it was made: the session that may wait is the
open one; its count is not ahead of the announcements; and where the two agree in a session that
reads, the snapshot is the last known value.

So a reader that polls now has to wait exactly if nothing was announced since its session began or
last caught up, and is given the latest announced value otherwise. While it has to wait, the next
run of the provider is announced exactly if it differs from the snapshot. And once its session is
over, the poll fails, even if the node has been opened again. -/
theorem poll_hears_changes {first t : Tree σ ε} {ref : NodeRef} {made : ReadWrite σ}
    {signs : List Sign} (hmade : first.node? ref = some (.readWrite made))
    (hnew : (Node.readWrite made : Node σ ε).IsNew) (h : History ref first signs t) :
    ∃ n, t.node? ref = some (.readWrite n) ∧
      (∀ number, n.published.live = some number ↔
        ∃ s, n.session = some s ∧ s.number = number) ∧
      (∀ s, n.session = some s → s.observed ≤ n.published.generation ∧
        (s.inner.access.read = true → s.observed = n.published.generation →
          n.published.last = some s.inner.snapshot)) ∧
      (∀ s goal, n.session = some s → s.inner.access.read = true →
        ∃ p, t.poll ref goal = (.waiting p, t) ∧
          (t.finish? p = none ↔ latestNews signs = none) ∧
          (∀ value, latestNews signs = some value → ∃ t',
            t.finish? p = some (t'.harvest ref goal, t') ∧
            t'.node? ref = some (.readWrite (n.caughtUp s value))) ∧
          (t.finish? p = none → ∀ value supplied,
            t.provide n.provider = (.ok value, supplied) →
            (t.notify ref).1 = .ok (decide (value ≠ s.inner.snapshot))) ∧
          (∀ ended last before after, History ref t before ended →
            (∀ m s', ended.node? ref = some (.readWrite m) → m.session = some s' →
              s'.number ≠ s.number) →
            History ref ended after last →
            last.finish? p = some (.error .noSession, last))) := by
  obtain ⟨n, hn, hattuned⟩ := h.attuned hmade hnew
  refine ⟨n, hn, ?_, ?_, ?_⟩
  · intro number
    rw [hattuned.live]
    exact Option.map_eq_some_iff
  · intro s hs
    exact ⟨hattuned.observed_le s hs, hattuned.snapshot s hs⟩
  · intro s goal hs hread
    refine ⟨pollOf ref s goal, poll_of_read hn hs hread goal,
      finish?_eq_none hn hattuned hs goal, ?_, ?_, ?_⟩
    · intro value hnews
      rw [hnews] at hattuned
      exact finish?_eq_some hn hattuned hs goal
    · intro hwait value supplied hp
      have hquiet := (finish?_eq_none hn hattuned hs goal).mp hwait
      have hcount := hattuned.quiet s hs hquiet
      exact notify_eq_ok hn hp (hattuned.snapshot s hs hread hcount)
    · intro ended last before after hbefore hended hafter
      obtain ⟨m, hm, hle⟩ := hbefore.nextSession_le hn
      have hgone : m.Over s.number :=
        ⟨Nat.lt_of_lt_of_le (hattuned.number_lt s hs) hle, fun s' hs' => hended m s' hm hs'⟩
      obtain ⟨m', hm', hgone'⟩ := hafter.isOver hm hgone
      obtain ⟨m'', hm'', hattuned'⟩ := ((h.trans hbefore).trans hafter).attuned hmade hnew
      rw [hm'] at hm''
      cases hm''
      exact finish?_of_over hm' hattuned' hgone'

/-- A file whose provider supplies the state of its publisher. -/
def gauge : ReadWrite Bytes where
  location := ⟨.fixed "/dev", "gauge", rfl⟩
  provider := { supply := fun _ s => (.ok s, s) }
  sink := fun content _ => (.ok (), content)

/-- A tree with that file alone. -/
def gauges : Tree Bytes Empty := { publisher := #[1], nodes := [.readWrite gauge] }

/-- The file is opened, and then its value changes. -/
def changed : Tree Bytes Empty :=
  { (gauges.openNode ⟨0⟩ "/dev/gauge" .reading).2 with publisher := #[2] }

/-- The change is announced. -/
def announced : Tree Bytes Empty := (changed.notify ⟨0⟩).2

/-- A reader that polls then need not wait, and its session sees the value announced. -/
theorem poll_hears_changes_announced :
    ∃ p t' n, announced.poll ⟨0⟩ (.part 0 1) = (.waiting p, announced) ∧
      announced.finish? p = some (t'.harvest ⟨0⟩ (.part 0 1), t') ∧
      t'.node? ⟨0⟩ = some (.readWrite n) ∧
      n.session.map (·.inner.snapshot) = some #[2] := by
  have hopened : History ⟨0⟩ gauges [.opened] (gauges.openNode ⟨0⟩ "/dev/gauge" .reading).2 := by
    have hgranted : gauges.openNode ⟨0⟩ "/dev/gauge" .reading =
        (.ok (), (gauges.openNode ⟨0⟩ "/dev/gauge" .reading).2) := rfl
    exact .next .start (.opens hgranted)
  have hchanged : History ⟨0⟩ gauges [.nothing, .opened] changed :=
    .next hopened (.elsewhere ⟨0, rfl⟩)
  have hannounced : History ⟨0⟩ gauges [.announced #[2], .nothing, .opened] announced :=
    .next hchanged (.announces rfl rfl rfl)
  obtain ⟨n, hn, -, -, hpoll⟩ := poll_hears_changes rfl ⟨rfl, rfl, rfl⟩ hannounced
  obtain ⟨s, hs, hread⟩ : ∃ s, n.session = some s ∧ s.inner.access.read = true := by
    have hopen : (announced.node? ⟨0⟩).any (·.session?.any (·.access.read)) = true := rfl
    rw [hn] at hopen
    rcases hs : n.session with _ | s
    · simp [Node.session?, hs] at hopen
    · exact ⟨s, rfl, by simpa [Node.session?, hs] using hopen⟩
  obtain ⟨p, hwaits, -, hthrough, -⟩ := hpoll s (.part 0 1) hs hread
  obtain ⟨t', hfinish, hnode⟩ := hthrough #[2] rfl
  exact ⟨p, t', n.caughtUp s #[2], hwaits, hfinish, hnode, rfl⟩

end Tree

end LiveTree
