import LiveTree.Proofs.Changes
import Mathlib.Data.List.Chain

/-!
# What a wait brings

A reader that waits is let through when the count of announcements has moved on, whatever the values
were. So what the wait has brought is told by the values announced since the reader's snapshot was
taken, the latest first. They lead back to the snapshot, and each of them differs from the one before
it (`ReadWrite.Trail`).

The reader is given the latest of them, and there is one at least (`poll_brings_news`). If it is the
only one it differs from the snapshot. If there are more, the value may have gone away and come back,
and then the reader is let through to what it has seen already.
-/

namespace LiveTree

variable {σ ε : Type}

/-! ## Announced values -/

/-- The values an operation on the node announces: one, or none. -/
def Sign.values : Sign → List Bytes
  | .announced value => [value]
  | _ => []

/-- The values that have been announced, the latest first. -/
def announcements (signs : List Sign) : List Bytes := signs.flatMap Sign.values

/-- The values announced since the session began or last caught up, the latest first. -/
def unseen : List Sign → List Bytes
  | [] => []
  | .opened :: _ => []
  | .caughtUp :: _ => []
  | sign :: signs => sign.values ++ unseen signs

theorem announcements_cons (sign : Sign) (signs : List Sign) :
    announcements (sign :: signs) = sign.values ++ announcements signs :=
  List.flatMap_cons

/-! ## One node -/

namespace ReadWrite

/-- The values announced since the count was `observed` are `values`, the latest first. As long as
the session of that number is open, they lead from the content `old` to the last known value, and
each differs from the one before it. -/
structure Trail (number observed : Nat) (values : List Bytes) (old : Bytes) (n : ReadWrite σ) :
    Prop where
  known : number < n.nextSession
  count : n.published.generation = observed + values.length
  last : ∀ s, n.session = some s → s.number = number →
    n.published.last = (values ++ [old]).head?
  changes : ∀ s, n.session = some s → s.number = number → (values ++ [old]).IsChain (· ≠ ·)

variable {n m : ReadWrite σ} {number observed : Nat} {values : List Bytes} {old : Bytes}

/-- A node that has made nothing known meanwhile goes on as before. -/
theorem Trail.of_published (h : n.Trail number observed values old)
    (hpublished : m.published.last = n.published.last ∧
      m.published.generation = n.published.generation)
    (hnext : n.nextSession ≤ m.nextSession)
    (hsession : ∀ s, m.session = some s → s.number = number →
      ∃ s', n.session = some s' ∧ s'.number = number) :
    m.Trail number observed values old where
  known := Nat.lt_of_lt_of_le h.known hnext
  count := hpublished.2.trans h.count
  last s hs hnumber := by
    obtain ⟨s', hs', hsame⟩ := hsession s hs hnumber
    rw [hpublished.1]
    exact h.last s' hs' hsame
  changes s hs hnumber := by
    obtain ⟨s', hs', hsame⟩ := hsession s hs hnumber
    exact h.changes s' hs' hsame

/-- A session that has just seen the last value starts a new trail. -/
theorem trail_start (hknown : number < n.nextSession) (hcount : n.published.generation = observed)
    (hlast : n.published.last = some old) : n.Trail number observed [] old where
  known := hknown
  count := hcount
  last _ _ _ := hlast
  changes _ _ _ := List.isChain_singleton old

theorem trail_step {sign : Sign} (h : n.Trail number observed values old)
    (hstep : Step sign n m) : m.Trail number observed (sign.values ++ values) old := by
  obtain ⟨hnext, hnumbers⟩ := session_of_step hstep
  -- a session that has begun since has another number
  have hsession : ∀ s, m.session = some s → s.number = number →
      ∃ s', n.session = some s' ∧ s'.number = number := by
    intro s hs hnumber
    rcases hnumbers s hs with ⟨s', hs', hsame⟩ | hfresh
    · exact ⟨s', hs', hsame.trans hnumber⟩
    · have := h.known
      omega
  cases hstep with
  | begin s access content idle =>
      refine ⟨Nat.lt_of_lt_of_le h.known hnext, h.count, ?_, ?_⟩
      all_goals
        intro s' hs' hnumber
        obtain ⟨s₀, hs₀, -⟩ := hsession s' hs' hnumber
        rw [idle] at hs₀
        cases hs₀
  | write hw =>
      obtain ⟨session, inner, -, -, rfl⟩ := write_eq_ok hw
      exact h.of_published ⟨rfl, rfl⟩ hnext hsession
  | resize hr =>
      obtain ⟨session, inner, -, -, rfl, -⟩ | ⟨rfl, -⟩ := resize_eq_ok hr
      · exact h.of_published ⟨rfl, rfl⟩ hnext hsession
      · exact h
  | close hc =>
      obtain ⟨-, rfl⟩ := close_eq_ok hc
      exact h.of_published ⟨rfl, rfl⟩ hnext hsession
  | @announce _ _ value ha =>
      obtain ⟨hne, rfl⟩ := announce?_eq_some ha
      refine ⟨h.known, ?_, fun s hs hnumber => rfl, ?_⟩
      · show n.published.generation + 1 = observed + (values.length + 1)
        rw [h.count, Nat.add_assoc]
      · intro s hs hnumber
        have hlast := h.last s hs hnumber
        -- the new value is not the last one known, so it differs from the head of the trail
        refine List.isChain_cons.mpr ⟨?_, h.changes s hs hnumber⟩
        rintro value' hhead rfl
        apply hne
        rw [hlast]
        exact hhead
  | wake hw =>
      obtain ⟨session, -, rfl⟩ := wake?_eq_ok hw
      exact h.of_published ⟨rfl, rfl⟩ hnext hsession
  | rest n => exact h

/-- In a session that reads, the values it has not seen lead from its snapshot to the last one. -/
def Abreast (values : List Bytes) (n : ReadWrite σ) : Prop :=
  ∀ s, n.session = some s → s.inner.access.read = true →
    n.Trail s.number s.observed values s.inner.snapshot

/-- A session that goes on with its snapshot goes on with its trail. -/
theorem Abreast.of_inner {session : LiveSession} {inner : Session} (h : n.Abreast values)
    (hs : n.session = some session) (hsnapshot : inner.snapshot = session.inner.snapshot)
    (haccess : inner.access = session.inner.access) :
    Abreast values { n with session := some { session with inner } } := by
  rintro s ⟨⟩ hread
  show Trail session.number session.observed values inner.snapshot _
  replace hread : inner.access.read = true := hread
  rw [haccess] at hread
  rw [hsnapshot]
  refine (h session hs hread).of_published ⟨rfl, rfl⟩ (Nat.le_refl _) ?_
  exact fun _ _ _ => ⟨session, hs, rfl⟩

theorem abreast_step {signs : List Sign} {sign : Sign} (h : n.Abreast (unseen signs))
    (hstep : Step sign n m) : m.Abreast (unseen (sign :: signs)) := by
  have htrail : ∀ s, n.session = some s → s.inner.access.read = true →
      m.Trail s.number s.observed (sign.values ++ unseen signs) s.inner.snapshot :=
    fun s hs hread => trail_step (h s hs hread) hstep
  cases hstep with
  | begin s access content idle =>
      rintro s' ⟨⟩ hread
      show Trail n.nextSession n.published.generation [] content _
      exact trail_start (Nat.lt_succ_self _) rfl (if_pos hread)
  | write hw =>
      obtain ⟨session, inner, hs, hinner, rfl⟩ := write_eq_ok hw
      obtain ⟨hsnapshot, haccess⟩ := Session.write_eq_ok hinner
      exact h.of_inner hs hsnapshot haccess
  | resize hr =>
      obtain ⟨session, inner, hs, hinner, rfl, -⟩ | ⟨rfl, -⟩ := resize_eq_ok hr
      · obtain ⟨hsnapshot, haccess⟩ := Session.truncate_eq_ok hinner
        exact h.of_inner hs hsnapshot haccess
      · exact h
  | close hc =>
      obtain ⟨-, rfl⟩ := close_eq_ok hc
      exact nofun
  | announce ha =>
      obtain ⟨-, rfl⟩ := announce?_eq_some ha
      exact htrail
  | wake hw =>
      obtain ⟨session, hs, rfl⟩ := wake?_eq_ok hw
      rintro s' ⟨⟩ hread
      have hold := h session hs hread
      show Trail session.number n.published.generation [] (n.published.last.getD #[]) _
      refine trail_start hold.known rfl ?_
      -- there is a last value: one that was announced since, or the snapshot
      show n.published.last = some (n.published.last.getD #[])
      rw [hold.last session hs rfl]
      cases unseen signs <;> rfl
  | rest n => exact h

/-- A reader that is let through sees the last value, and the count has moved on since its wait
began. -/
theorem wake?_eq_caughtUp {ticket : Ticket} (h : n.wake? ticket = some (.ok m)) :
    ∃ s, n.session = some s ∧ s.number = ticket.session ∧
      n.published.generation ≠ ticket.observed ∧
      m = n.caughtUp s (n.published.last.getD #[]) := by
  unfold wake? at h
  split at h
  · cases h
  · split at h
    · cases h
    · next hcount =>
      split at h
      · cases h
      · next s hs =>
        cases h
        obtain ⟨hs, hnumber⟩ := Option.filter_eq_some_iff.mp hs
        exact ⟨s, hs, of_decide_eq_true hnumber, hcount, rfl⟩

end ReadWrite

namespace Tree

/-- The session of the read-write node `ref` leads to. -/
def liveSession? (t : Tree σ ε) (ref : NodeRef) : Option LiveSession :=
  match t.node? ref with
  | some (.readWrite n) => n.session
  | _ => none

variable [Foreign ε] {t t' : Tree σ ε} {ref : NodeRef} {n : ReadWrite σ}

omit [Foreign ε] in
theorem liveSession?_of_node? (hn : t.node? ref = some (.readWrite n)) :
    t.liveSession? ref = n.session := by
  rw [liveSession?, hn]

omit [Foreign ε] in
theorem liveSession?_eq_some {session : LiveSession} (h : t.liveSession? ref = some session) :
    ∃ n, t.node? ref = some (.readWrite n) ∧ n.session = some session := by
  unfold liveSession? at h
  split at h
  · next n hn => exact ⟨n, hn, h⟩
  · cases h

/-! ## Whole histories -/

/-- What every step keeps, as its sign says, holds of the node at the end of every history. -/
theorem History.forall_node {P : List Sign → ReadWrite σ → Prop} {first : Tree σ ε}
    {signs : List Sign} (hquiet : ∀ signs m, P (.nothing :: signs) m → P signs m)
    (hstep : ∀ signs sign n m, P signs n → ReadWrite.Step sign n m → P (sign :: signs) m)
    (h : History ref first signs t) (hn : first.node? ref = some (.readWrite n)) (hstart : P [] n) :
    ∃ m, t.node? ref = some (.readWrite m) ∧ P signs m := by
  induction h with
  | start => exact ⟨n, hn, hstart⟩
  | @next signs sign _ _ _ hs ih =>
      obtain ⟨m, hm, hP⟩ := ih
      obtain ⟨m₁, m₂, hsilent, htaken, hm₂⟩ := step_of_happens hm hs
      have hrun : P signs m₁ := hquiet signs m₁ (hstep signs .nothing m m₁ hP hsilent)
      exact ⟨m₂, hm₂, hstep signs sign m₁ m₂ hrun htaken⟩

theorem History.abreast {first : Tree σ ε} {signs : List Sign} (h : History ref first signs t)
    (hn : first.node? ref = some (.readWrite n)) (hnew : (Node.readWrite n : Node σ ε).IsNew) :
    ∃ m, t.node? ref = some (.readWrite m) ∧ m.Abreast (unseen signs) := by
  refine h.forall_node (P := fun signs m => m.Abreast (unseen signs)) (fun _ _ h => h)
    (fun _ _ _ _ => ReadWrite.abreast_step) hn ?_
  intro s hs
  rw [hnew.1] at hs
  cases hs

theorem History.trail {first : Tree σ ε} {later : List Sign} {number observed : Nat}
    {values : List Bytes} {old : Bytes} (h : History ref first later t)
    (hn : first.node? ref = some (.readWrite n)) (htrail : n.Trail number observed values old) :
    ∃ m, t.node? ref = some (.readWrite m) ∧
      m.Trail number observed (announcements later ++ values) old := by
  refine h.forall_node
    (P := fun signs m => m.Trail number observed (announcements signs ++ values) old)
    (fun _ _ h => h) ?_ hn htrail
  intro signs sign n m h hstep
  rw [announcements_cons, List.append_assoc]
  exact ReadWrite.trail_step h hstep

/-! ## Polls -/

/-- A reader begins to wait only in a session that reads, and that changes nothing. -/
theorem poll_eq_waiting {goal : Poll.Goal} {p : Poll} (hn : t.node? ref = some (.readWrite n))
    (h : t.poll ref goal = (.waiting p, t')) :
    t' = t ∧ ∃ s, n.session = some s ∧ s.inner.access.read = true ∧ p = pollOf ref s goal := by
  unfold poll at h
  rw [hn] at h
  dsimp only at h
  split at h
  · cases h
  · next ticket hticket =>
    cases h
    refine ⟨rfl, ?_⟩
    unfold ReadWrite.ticket at hticket
    split at hticket
    · cases hticket
    · next s hs =>
      split at hticket
      · next hread =>
        cases hticket
        exact ⟨s, hs, hread, rfl⟩
      · cases hticket

/-- A poll is only answered with octets when its reader has been let through. -/
theorem wake_of_finish? {p : Poll} {content : Bytes} (hn : t.node? p.node = some (.readWrite n))
    (h : t.finish? p = some (.ok content, t')) :
    ∃ m, n.wake? p.ticket = some (.ok m) ∧ t'.node? p.node = some (.readWrite m) := by
  rcases hwake : n.wake? p.ticket with _ | ⟨fault | m⟩
  · simp [finish?, wake?, hn, hwake] at h
  · simp [finish?, wake?, hn, hwake] at h
  · simp only [finish?, wake?, hn, hwake, Option.some.injEq, Prod.mk.injEq] at h
    obtain ⟨-, rfl⟩ := h
    exact ⟨m, rfl, node?_setNode_self _ hn⟩

/-- Whatever has happened to a read-write node since it was made, and whatever happens to it while a
reader waits: a poll that is answered with octets leaves the session with a snapshot that was
announced since the former one was taken. It is the latest value announced. The values announced in
between lead back to the former snapshot, each differing from the one before it; so the new snapshot
differs from the former one, unless the value has gone away and come back meanwhile. -/
theorem poll_brings_news {first t begun t' t'' : Tree σ ε} {ref : NodeRef} {made : ReadWrite σ}
    {signs later : List Sign} {goal : Poll.Goal} {p : Poll} {content : Bytes}
    (hmade : first.node? ref = some (.readWrite made))
    (hnew : (Node.readWrite made : Node σ ε).IsNew) (h : History ref first signs t)
    (hbegin : t.poll ref goal = (.waiting p, begun)) (hlater : History ref begun later t')
    (hfinish : t'.finish? p = some (.ok content, t'')) :
    ∃ before after earlier, t.liveSession? ref = some before ∧
      t''.liveSession? ref = some after ∧ after.number = before.number ∧
      announcements later ++ unseen signs = after.inner.snapshot :: earlier ∧
      (after.inner.snapshot :: (earlier ++ [before.inner.snapshot])).IsChain (· ≠ ·) ∧
      (after.inner.snapshot = before.inner.snapshot → earlier ≠ []) := by
  obtain ⟨n, hn, habreast⟩ := h.abreast hmade hnew
  obtain ⟨rfl, before, hbefore, hread, rfl⟩ := poll_eq_waiting hn hbegin
  obtain ⟨n', hn', htrail⟩ := hlater.trail hn (habreast before hbefore hread)
  obtain ⟨m, hwake, hm⟩ := wake_of_finish? hn' hfinish
  obtain ⟨s, hs, hnumber, hcount, rfl⟩ := ReadWrite.wake?_eq_caughtUp hwake
  have hlast := htrail.last s hs hnumber
  have hchanges := htrail.changes s hs hnumber
  rcases hvalues : announcements later ++ unseen signs with _ | ⟨value, earlier⟩
  · -- nothing was announced, so the count stands where it stood
    refine absurd ?_ hcount
    rw [htrail.count, hvalues]
    rfl
  · rw [hvalues] at hlast hchanges
    have hsnapshot : n'.published.last.getD #[] = value := by
      rw [hlast]
      rfl
    refine ⟨before, { s with
      inner := { s.inner with snapshot := n'.published.last.getD #[] }
      observed := n'.published.generation }, earlier, ?_, ?_, hnumber, ?_, ?_, ?_⟩
    · rw [liveSession?_of_node? hn, hbefore]
    · exact liveSession?_of_node? hm
    · exact congrArg (· :: earlier) hsnapshot.symm
    · show (n'.published.last.getD #[] :: (earlier ++ [before.inner.snapshot])).IsChain (· ≠ ·)
      rw [hsnapshot]
      exact hchanges
    · show n'.published.last.getD #[] = before.inner.snapshot → earlier ≠ []
      rw [hsnapshot]
      rintro hback rfl
      exact (List.isChain_cons_cons.mp hchanges).1 hback

/-- The value goes back to what it was, and that is announced too. -/
def returned : Tree Bytes Empty := (({ announced with publisher := #[1] }).notify ⟨0⟩).2

/-- A reader that began to wait before is let through, to the content that it had seen. -/
theorem poll_brings_news_returned :
    ∃ p before after t, (gauges.openNode ⟨0⟩ "/dev/gauge" .reading).2.poll ⟨0⟩ (.part 0 1) =
        (.waiting p, (gauges.openNode ⟨0⟩ "/dev/gauge" .reading).2) ∧
      returned.finish? p = some (.ok #[1], t) ∧
      (gauges.openNode ⟨0⟩ "/dev/gauge" .reading).2.liveSession? ⟨0⟩ = some before ∧
      t.liveSession? ⟨0⟩ = some after ∧ after.inner.snapshot = before.inner.snapshot := by
  have hopened : History ⟨0⟩ gauges [.opened] (gauges.openNode ⟨0⟩ "/dev/gauge" .reading).2 := by
    have hgranted : gauges.openNode ⟨0⟩ "/dev/gauge" .reading =
        (.ok (), (gauges.openNode ⟨0⟩ "/dev/gauge" .reading).2) := rfl
    exact .next .start (.opens hgranted)
  have hchanged : History ⟨0⟩ (gauges.openNode ⟨0⟩ "/dev/gauge" .reading).2 [.nothing] changed :=
    .next .start (.elsewhere ⟨0, rfl⟩)
  have hannounced : History ⟨0⟩ (gauges.openNode ⟨0⟩ "/dev/gauge" .reading).2
      [.announced #[2], .nothing] announced :=
    .next hchanged (.announces rfl rfl rfl)
  have hback : History ⟨0⟩ (gauges.openNode ⟨0⟩ "/dev/gauge" .reading).2
      [.nothing, .announced #[2], .nothing] { announced with publisher := #[1] } :=
    .next hannounced (.elsewhere ⟨0, rfl⟩)
  have hreturned : History ⟨0⟩ (gauges.openNode ⟨0⟩ "/dev/gauge" .reading).2
      [.announced #[1], .nothing, .announced #[2], .nothing] returned :=
    .next hback (.announces rfl rfl rfl)
  have hbegin : (gauges.openNode ⟨0⟩ "/dev/gauge" .reading).2.poll ⟨0⟩ (.part 0 1) =
      (.waiting ⟨⟨0⟩, ⟨1, 0⟩, .part 0 1⟩, (gauges.openNode ⟨0⟩ "/dev/gauge" .reading).2) := rfl
  have hfinish : returned.finish? ⟨⟨0⟩, ⟨1, 0⟩, .part 0 1⟩ = some (.ok #[1], _) := rfl
  obtain ⟨before, after, earlier, hbefore, hafter, -, hvalues, -⟩ :=
    poll_brings_news rfl ⟨rfl, rfl, rfl⟩ hopened hbegin hreturned hfinish
  refine ⟨_, before, after, _, hbegin, hfinish, hbefore, hafter, ?_⟩
  have hlatest : after.inner.snapshot = #[1] := (List.cons.inj hvalues).1.symm
  have hfirst : (gauges.openNode ⟨0⟩ "/dev/gauge" .reading).2.liveSession? ⟨0⟩ =
      some ⟨1, ⟨"/dev/gauge", .reading, #[1], #[], false⟩, 0⟩ := rfl
  rw [hfirst] at hbefore
  cases hbefore
  exact hlatest

end Tree

end LiveTree
