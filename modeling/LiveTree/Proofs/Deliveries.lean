import LiveTree.Proofs.Errands
import LiveTree.Proofs.Failures
import LiveTree.Proofs.Ticks

/-!
# What a watch delivers

The snapshot of a session changes only when its reader is let through (`ReadWrite.sees_step`), and
as long as the handle of a watch is there the session is the one that was opened (`Tree.Bond`). So
the chunks of one delivery are parts of one value, whatever is announced between them, and all of
them make up the whole. `Sound` says what is known at each stage of a watch, and every turn keeps it
(`Sound.turn`).

The main result, `watch_delivers_announced`, is what follows for the replies: what a watch delivers
has been announced since it began, and is whole. There are no data to deliver before the first
announcement, and none after the handle has gone (`IsBarren`).
-/

namespace LiveTree

open Relation (ReflTransGen)

variable {σ ε : Type} [Foreign ε]

/-- Data and faults are told apart by their first octet. -/
theorem Reply.data_ne_fault (content : Bytes) (f : Fault) : Reply.data content ≠ Reply.fault f := by
  have hok : (Bytes.ofString "ok ").toList.head? = some 0x6F := by decide
  have herr : (Bytes.ofString "err ").toList.head? = some 0x65 := by decide
  have hdata : (Reply.data content).toList.head? = some 0x6F := by
    simp [Reply.data, Bytes.ofString_append, hok]
  have hfault : (Reply.fault f).toList.head? = some 0x65 := by
    simp [Reply.fault, Bytes.ofString_append, herr]
  intro he
  rw [he, hfault] at hdata
  cases hdata

/-! ## The session of a watch -/

/-- As long as the session of that number is open, its snapshot is this one, from when there had been
so many announcements. -/
def ReadWrite.Sees (number observed : Nat) (snapshot : Bytes) (n : ReadWrite σ) : Prop :=
  ∀ s, n.session = some s → s.number = number →
    s.observed = observed ∧ s.inner.snapshot = snapshot

/-- Only a reader that is let through changes what its session sees. -/
theorem ReadWrite.sees_step {number observed : Nat} {snapshot : Bytes} {sign : Sign}
    {n m : ReadWrite σ} (h : n.Sees number observed snapshot) (hknown : number < n.nextSession)
    (hother : sign = .caughtUp → ∀ s, n.session = some s → s.number ≠ number)
    (hstep : Step sign n m) : m.Sees number observed snapshot := by
  cases hstep with
  | begin s access content idle =>
      rintro s' ⟨⟩ hnumber
      exact absurd hnumber (Nat.ne_of_gt hknown)
  | write hw =>
      obtain ⟨session, inner, hs, hinner, rfl⟩ := write_eq_ok hw
      rintro s' ⟨⟩ hnumber
      rw [(Session.write_eq_ok hinner).1]
      exact h session hs hnumber
  | resize hr =>
      obtain ⟨session, inner, hs, hinner, rfl, -⟩ | ⟨rfl, -⟩ := resize_eq_ok hr
      · rintro s' ⟨⟩ hnumber
        rw [(Session.truncate_eq_ok hinner).1]
        exact h session hs hnumber
      · exact h
  | close hc =>
      obtain ⟨-, rfl⟩ := close_eq_ok hc
      exact nofun
  | announce ha =>
      obtain ⟨-, rfl⟩ := announce?_eq_some ha
      exact h
  | wake hw =>
      obtain ⟨session, hs, rfl⟩ := wake?_eq_ok hw
      rintro s' ⟨⟩ hnumber
      exact absurd hnumber (hother rfl session hs)
  | rest n => exact h

namespace Errand

variable {e : Errand} {begun : Nat} {old : Bytes} {n m : ReadWrite σ}

/-- What is known at each stage of a watch. When it began the count of announcements was `begun`, and
its snapshot was `old`. -/
def Fits (e : Errand) (begun : Nat) (old : Bytes) (n : ReadWrite σ) : Stage → Prop
  | .opened => n.Sees e.number begun old
  | .waiting poll => poll = ⟨e.node, ⟨e.number, begun⟩, .whole e.handle⟩
  | .reading got => ∃ value ∈ e.said, (∃ observed, n.Sees e.number observed value) ∧
      got = value.slice 0 got.size
  | .answered result => result = .error .noSession ∨ ∃ value ∈ e.said, result = .ok value
  | .finished none => True
  | .finished (some reply) =>
    reply = Reply.fault .noSession ∨ ∃ value ∈ e.said, reply = Reply.data value

/-- What is known of the node of a watch. -/
structure Attends (e : Errand) (begun : Nat) (old : Bytes) (n : ReadWrite σ) : Prop where
  trail : n.Trail e.number begun e.said old
  reads : n.Reads e.number
  fits : e.Fits begun old n e.stage

/-- Whatever the node does, it goes on as the watch needs it, unless the reader of the watch is let
through. -/
theorem Attends.step {sign : Sign} (h : e.Attends begun old n)
    (hother : sign = .caughtUp → ∀ s, n.session = some s → s.number ≠ e.number)
    (hstep : ReadWrite.Step sign n m) :
    Attends { e with said := sign.values ++ e.said } begun old m := by
  refine ⟨ReadWrite.trail_step h.trail hstep, ReadWrite.reads_step h.reads hstep, ?_⟩
  have hsees : ∀ {observed snapshot}, n.Sees e.number observed snapshot →
      m.Sees e.number observed snapshot :=
    fun hs => ReadWrite.sees_step hs h.reads.1 hother hstep
  have hsaid : ∀ {value}, value ∈ e.said → value ∈ sign.values ++ e.said :=
    fun hv => List.mem_append_right _ hv
  have hfits := h.fits
  show Fits _ begun old m e.stage
  rcases hstage : e.stage with _ | poll | got | result | _ | reply
  all_goals rw [hstage] at hfits
  · exact hsees hfits
  · exact hfits
  · obtain ⟨value, hv, ⟨observed, hs⟩, hgot⟩ := hfits
    exact ⟨value, hsaid hv, ⟨observed, hsees hs⟩, hgot⟩
  · exact hfits.imp_right fun ⟨value, hv, hresult⟩ => ⟨value, hsaid hv, hresult⟩
  · trivial
  · exact hfits.imp_right fun ⟨value, hv, hreply⟩ => ⟨value, hsaid hv, hreply⟩

/-- So it does in any number of ticks. -/
theorem Attends.ticks {t t' : Tree σ ε} (ht : ReflTransGen Tree.Tick t t')
    (hn : t.node? e.node = some (.readWrite n)) (h : e.Attends begun old n) :
    ∃ m, t'.node? e.node = some (.readWrite m) ∧ e.Attends begun old m := by
  refine Tree.ticks_readWrite ?_ ht hn h
  intro sign n m hquiet h hstep
  cases sign with
  | nothing => exact h.step (by rintro ⟨⟩) hstep
  | opened => exact h.step (by rintro ⟨⟩) hstep
  | announced value => exact hquiet.elim
  | caughtUp => exact hquiet.elim

end Errand

namespace Tree

variable {t : Tree σ ε} {ref : NodeRef} {n : ReadWrite σ} {session : LiveSession}

/-- What is read in a session is the part of its snapshot that was asked for. -/
theorem read_nodeReader (hn : t.node? ref = some (.readWrite n)) (hs : n.session = some session)
    (hread : session.inner.access.read = true) (offset size : Nat) :
    (t.nodeReader ref).read offset size = .ok (session.inner.snapshot.slice offset size) := by
  simp [nodeReader, hn, Node.reader, Node.read, ReadWrite.read, hs, Session.read, hread]

/-- A reader that looks and is let through leaves its session with the new snapshot. -/
theorem look_of_wake? {m : ReadWrite σ} {p : Poll} (hn : t.node? p.node = some (.readWrite n))
    (hwake : n.wake? p.ticket = some (.ok m)) : t.look p = t.setNode p.node (.readWrite m) := by
  simp [look, finish?, wake?, hn, hwake]

/-- A range that fits into one part is read at once. -/
theorem readRange_of_le {r : Reader} {offset size : Nat} {part : Bytes}
    (hread : r.read offset size = .ok part) (hsize : size ≤ readChunk) :
    readRange r offset size = .ok part := by
  rw [readRange, Nat.min_eq_left hsize, hread]
  dsimp only
  split
  · next hmore => omega
  · rfl

/-- The session of a read-write node that has just been opened for reading sees what the provider has
supplied. -/
theorem openNode_reading {t t' : Tree σ ε} {ref : NodeRef} {path : String}
    (h : t.openNode ref path .reading = (.ok (), t')) {m : ReadWrite σ}
    (hm : t'.node? ref = some (.readWrite m)) :
    ∃ (n : ReadWrite σ) (s : σ) (content : Bytes), m = n.begin s .reading content := by
  obtain ⟨n, source, fetched, content, hn, hp, hf, rfl⟩ := openNode_eq_ok h
  obtain ⟨k, hk⟩ := onlyCloses_fetch t source ref
  rw [hf, hn, Option.map_some] at hk
  rw [node?_startSession_self hk] at hm
  generalize Node.closed^[k] n = still at hm
  cases still with
  | readWrite n =>
      cases hm
      exact ⟨n, fetched.publisher, content, rfl⟩
  | _ => cases hm

/-- The handle that an open for reading gives leads to the session that has just begun. -/
theorem openFile_reading {t t' : Tree σ ε} {path : String} {handle : Handle} (h : t.Reachable)
    (ho : t.openFile path .reading = (.ok handle, t')) :
    handle.number < t'.nextHandle ∧ ∃ o, t'.handle? handle = some o ∧
      ∀ m, t'.node? o.node = some (.readWrite m) →
        ∃ (n : ReadWrite σ) (s : σ) (content : Bytes), m = n.begin s .reading content := by
  obtain ⟨canonical, r, opened, -, -, hopen, rfl, rfl⟩ := openFile_eq_ok ho
  have hnumbered : opened.Numbered := h.inUse.numbered.openNode hopen
  refine ⟨Nat.lt_succ_self _, _, handle?_addHandle hnumbered r canonical, ?_⟩
  intro m hm
  exact openNode_reading hopen hm

end Tree

namespace Delivery

variable {s : Delivery σ ε} {begun : Nat} {old : Bytes} {t : Tree σ ε}

/-! ## What holds at every moment -/

/-- What holds at every moment of a watch. -/
structure Sound (begun : Nat) (old : Bytes) (s : Delivery σ ε) : Prop where
  reachable : s.tree.Reachable
  bond : s.tree.Bond s.handle s.node s.number
  node : ∃ n, s.tree.node? s.node = some (.readWrite n) ∧ s.Attends begun old n

namespace Sound

theorem ticks (h : s.Sound begun old) (hreach : t.Reachable)
    (ht : ReflTransGen Tree.Tick s.tree t) : Sound begun old { s with tree := t } := by
  obtain ⟨n, hn, hattends⟩ := h.node
  exact ⟨hreach, h.bond.ticks h.reachable.held ht, hattends.ticks ht hn⟩

/-- The watch comes to another stage. -/
theorem setStage (h : s.Sound begun old) {stage : Errand.Stage}
    (hfits : ∀ n, s.tree.node? s.node = some (.readWrite n) → s.Attends begun old n →
      s.Fits begun old n stage) : Sound begun old { s with stage } := by
  obtain ⟨n, hn, hattends⟩ := h.node
  refine ⟨h.reachable, h.bond, n, hn, hattends.trail, hattends.reads, ?_⟩
  exact hfits n hn hattends

/-- The handle is closed, whatever has become of it, and the watch is over. -/
theorem close (h : s.Sound begun old) {reply : Option Bytes}
    (hfits : ∀ r, reply = some r →
      r = Reply.fault .noSession ∨ ∃ value ∈ s.said, r = Reply.data value) :
    (s.close reply).Sound begun old := by
  have hclosed := h.ticks (.perform (.close s.handle) h.reachable) (Tree.ticks_close s.tree s.handle)
  refine hclosed.setStage fun n _ _ => ?_
  rcases reply with _ | r
  · trivial
  · exact hfits r rfl

/-! ### Others -/

/-- An announcement is counted among those of its node. -/
theorem «notify» (h : s.Sound begun old) (ref : NodeRef) :
    (s.turn (.others (.notify ref))).Sound begun old := by
  have hreach : (s.tree.notify ref).2.Reachable := .perform (.notify ref) h.reachable
  rcases Tree.notify_eq s.tree ref with ⟨hquiet, hticks⟩ |
    ⟨n, m, announced, supplied, value, event, hn, hp, hm, ha, hnotify⟩
  · have hsound := h.ticks hreach hticks
    have hnothing : s.tree.announcedBy s.node (.notify ref) = [] := by
      unfold Tree.announcedBy
      dsimp only
      split
      · next hloud => exact absurd hloud hquiet
      · rfl
    show Sound begun old { s with
      tree := (s.tree.notify ref).2
      said := s.tree.announcedBy s.node (.notify ref) ++ s.said }
    rw [hnothing]
    exact hsound
  · have hticks := Tree.ticks_provide s.tree n.provider
    rw [hp] at hticks
    have hsaid : s.tree.announcedBy s.node (.notify ref) =
        if ref = s.node then [value] else [] := by
      simp only [Tree.announcedBy, hnotify]
      split
      · next he =>
        subst he
        simp [Tree.supplied?, hn, hp, Except.toOption]
      · rfl
    have htree : s.tree.perform (.notify ref) =
        (supplied.setNode ref (.readWrite announced)).report event := congrArg Prod.snd hnotify
    have hsame : announced.session.map (·.number) = m.session.map (·.number) := by
      obtain ⟨-, rfl⟩ := ReadWrite.announce?_eq_some ha
      rfl
    have hbond := (h.bond.ticks h.reachable.held hticks).setNode hm (.announce ha) hsame
    obtain ⟨n₀, hn₀, hattends⟩ := h.node
    obtain ⟨m₀, hm₀, hattends⟩ := hattends.ticks hticks hn₀
    refine ⟨hreach, ?_, ?_⟩
    · show Tree.Bond s.handle s.node s.number (s.tree.perform (.notify ref))
      rw [htree]
      exact hbond.of_same (Nat.le_refl _) rfl rfl
    · show ∃ l, (s.tree.perform (.notify ref)).node? s.node = some (.readWrite l) ∧
        Errand.Attends { s.toErrand with
          said := s.tree.announcedBy s.node (.notify ref) ++ s.said } begun old l
      rw [htree, hsaid, Tree.node?_report]
      split
      · next he =>
        -- the values of the watch are those of its own node
        subst he
        rw [hm] at hm₀
        cases hm₀
        exact ⟨announced, Tree.node?_setNode_self _ hm,
          hattends.step (by rintro ⟨⟩) (.announce ha)⟩
      · next hne =>
        exact ⟨m₀, (Tree.node?_setNode_of_ne _ (Ne.symm hne)).trans hm₀, hattends⟩

/-- A reader that is let through in another session changes nothing for the watch. -/
theorem look (h : s.Sound begun old) {p : Poll}
    (hother : ¬ (p.node = s.node ∧ p.ticket.session = s.number)) :
    (s.turn (.others (.look p))).Sound begun old := by
  have hreach : (s.tree.look p).Reachable := .perform (.look p) h.reachable
  obtain ⟨n₀, hn₀, hattends⟩ := h.node
  rcases Tree.look_eq s.tree p with hsame | ⟨n, m, hn, hwake, hlook⟩
  · show Sound begun old { s with tree := s.tree.look p }
    rw [hsame]
    exact h
  · obtain ⟨session, hs, hnumber, -, hm⟩ := ReadWrite.wake?_eq_caughtUp hwake
    have hsame : m.session.map (·.number) = n.session.map (·.number) := by
      rw [hm, hs]
      rfl
    show Sound begun old { s with tree := s.tree.look p }
    rw [hlook] at hreach ⊢
    refine ⟨hreach, h.bond.setNode hn (.wake hwake) hsame, ?_⟩
    by_cases he : p.node = s.node
    · rw [he] at hn
      rw [hn] at hn₀
      cases hn₀
      refine ⟨m, ?_, hattends.step ?_ (.wake hwake)⟩
      · show (s.tree.setNode p.node (.readWrite m)).node? s.node = _
        rw [he]
        exact Tree.node?_setNode_self _ hn
      · intro _ s' hs' hnumber'
        rw [hs] at hs'
        cases hs'
        exact hother ⟨he, hnumber.symm.trans hnumber'⟩
    · exact ⟨n₀, (Tree.node?_setNode_of_ne _ (Ne.symm he)).trans hn₀, hattends⟩

theorem others (h : s.Sound begun old) {a : Action σ} (hallowed : s.Allows (.others a)) :
    (s.turn (.others a)).Sound begun old := by
  by_cases ha : Tree.IsLoud a
  · cases a with
    | «notify» ref => exact h.notify ref
    | look p => exact h.look hallowed
    | _ => exact ha.elim
  · have hnothing : s.tree.announcedBy s.node a = [] := by
      cases a with
      | «notify» ref => exact absurd trivial ha
      | _ => rfl
    have hsound := h.ticks (.perform a h.reachable) (Tree.ticks_perform s.tree ha)
    show Sound begun old { s with
      tree := s.tree.perform a
      said := s.tree.announcedBy s.node a ++ s.said }
    rw [hnothing]
    exact hsound

/-- A new node comes behind the one of the watch. -/
theorem newNode (h : s.Sound begun old) {n : Node σ ε} (hnew : n.IsNew) :
    (s.turn (.newNode n)).Sound begun old := by
  obtain ⟨n₀, hn₀, hattends⟩ := h.node
  have hkept : (s.tree.addNode n).2.node? s.node = s.tree.node? s.node := by
    rw [Tree.node?_addNode, if_neg]
    exact Nat.ne_of_lt (List.getElem?_eq_some_iff.mp hn₀).1
  exact ⟨.addNode n h.reachable hnew, h.bond.of_same (Nat.le_refl _) rfl hkept,
    n₀, hkept.trans hn₀, hattends⟩

/-! ### The watch itself -/

/-- While the handle is there, the session of the watch is open. -/
theorem session (h : s.Sound begun old) (hthere : s.tree.handle? s.handle ≠ none) :
    ∃ o n session, s.tree.handle? s.handle = some o ∧ o.node = s.node ∧
      s.tree.node? s.node = some (.readWrite n) ∧ s.Attends begun old n ∧
      n.session = some session ∧ session.number = s.number ∧
      session.inner.access.read = true := by
  obtain ⟨n, hn, hattends⟩ := h.node
  obtain ⟨-, n', hn', -, ⟨o, session, ho, href, hs, hnumber⟩ | ⟨hgone, -⟩⟩ := h.bond
  · rw [hn] at hn'
    cases hn'
    exact ⟨o, n, session, ho, href, hn, hattends, hs, hnumber, hattends.reads.2 session hs hnumber⟩
  · exact absurd hgone hthere

/-- Once the handle is gone, a poll that is not over fails. -/
theorem goOn_of_gone (h : s.Sound begun old) (hgone : s.tree.handle? s.handle = none)
    (hpending : s.IsPending) :
    s.goOn = { s with stage := .answered (.error .noSession) } := by
  obtain ⟨n, hn, hattends⟩ := h.node
  obtain ⟨-, n', hn', -, ⟨o, -, ho, -⟩ | ⟨-, hover⟩⟩ := h.bond
  · rw [hgone] at ho
    cases ho
  · rw [hn] at hn'
    cases hn'
    unfold goOn
    have hfits := hattends.fits
    rcases hstage : s.stage with _ | poll | got | result | reply
    · simp only [Tree.longPollAll, hgone]
    · rw [hstage] at hfits
      cases hfits
      have hlive : n.published.live ≠ some s.number := by
        rw [h.reachable.inUse.live_eq hn]
        intro hsome
        obtain ⟨session, hs, hnumber⟩ := Option.map_eq_some_iff.mp hsome
        exact hover.2 session hs hnumber
      simp [Tree.wake?, hn, ReadWrite.wake?, hlive]
    · have hread : s.tree.read s.handle got.size readChunk = .error .noSession := by
        unfold Tree.read Tree.reader
        rw [hgone, Reader.upTo]
        rfl
      simp only [hread]
    · simp [IsPending, hstage] at hpending
    · simp [IsPending, hstage] at hpending

/-- While the handle is there, the beginning of the poll leads to waiting. -/
theorem goOn_opened (h : s.Sound begun old) (hthere : s.tree.handle? s.handle ≠ none)
    (hstage : s.stage = .opened) :
    s.goOn = { s with stage := .waiting ⟨s.node, ⟨s.number, begun⟩, .whole s.handle⟩ } := by
  obtain ⟨o, n, session, ho, href, hn, hattends, hs, hnumber, hread⟩ := h.session hthere
  have hfits := hattends.fits
  rw [hstage] at hfits
  obtain ⟨hobserved, -⟩ := hfits session hs hnumber
  have hpoll := Tree.poll_of_read hn hs hread (.whole s.handle)
  rw [Tree.pollOf, hnumber, hobserved] at hpoll
  unfold goOn
  simp only [hstage, Tree.longPollAll, ho, href, hpoll]

/-- While the handle is there, the watch waits as long as nothing is announced. -/
theorem goOn_waiting_nil (h : s.Sound begun old) (hthere : s.tree.handle? s.handle ≠ none)
    {poll : Poll} (hstage : s.stage = .waiting poll) (hsaid : s.said = []) : s.goOn = s := by
  obtain ⟨o, n, session, ho, href, hn, hattends, hs, hnumber, hread⟩ := h.session hthere
  have hfits := hattends.fits
  rw [hstage] at hfits
  cases hfits
  have hlive : n.published.live = some s.number := by
    rw [h.reachable.inUse.live_eq hn, hs, Option.map_some, hnumber]
  have hwake : n.wake? ⟨s.number, begun⟩ = none := by
    rw [ReadWrite.wake?, if_neg (by simp [hlive]), if_pos]
    rw [hattends.trail.count, hsaid]
    rfl
  unfold goOn
  simp only [hstage, Tree.wake?, hn, hwake]

/-- Once something has been announced, the session sees the latest value and the first chunk of it is
read. -/
theorem goOn_waiting_cons (h : s.Sound begun old) (hthere : s.tree.handle? s.handle ≠ none)
    {poll : Poll} (hstage : s.stage = .waiting poll) {value : Bytes} {earlier : List Bytes}
    (hsaid : s.said = value :: earlier) :
    ∃ n session, s.tree.node? s.node = some (.readWrite n) ∧ s.Attends begun old n ∧
      n.wake? ⟨s.number, begun⟩ = some (.ok (n.caughtUp session value)) ∧
      n.session = some session ∧
      s.goOn = { s with
        tree := s.tree.setNode s.node (.readWrite (n.caughtUp session value))
        stage :=
          if (value.slice 0 readChunk).size < readChunk then
            .answered (.ok (value.slice 0 readChunk))
          else .reading (value.slice 0 readChunk) } := by
  obtain ⟨o, n, session, ho, href, hn, hattends, hs, hnumber, hread⟩ := h.session hthere
  have hfits := hattends.fits
  rw [hstage] at hfits
  cases hfits
  have hlive : n.published.live = some s.number := by
    rw [h.reachable.inUse.live_eq hn, hs, Option.map_some, hnumber]
  have hcount : n.published.generation ≠ begun := by
    rw [hattends.trail.count, hsaid, List.length_cons]
    omega
  have hlast : n.published.last = some value := by
    rw [hattends.trail.last session hs hnumber, hsaid]
    rfl
  have hwake : n.wake? ⟨s.number, begun⟩ = some (.ok (n.caughtUp session value)) := by
    simp [ReadWrite.wake?, ReadWrite.caughtUp, hlive, hcount, hs, hnumber, hlast, Option.filter]
  refine ⟨n, session, hn, hattends, hwake, hs, ?_⟩
  have hput := Tree.node?_setNode_self (.readWrite (n.caughtUp session value)) hn
  have hfirst := Tree.readRange_of_le (Tree.read_nodeReader hput rfl hread 0 readChunk)
    (Nat.le_refl _)
  unfold goOn
  simp only [hstage, Tree.wake?, hn, hwake]
  rw [hfirst]

/-- While the handle is there, the value that is being read is the one that the session sees. -/
theorem shows_reading (h : s.Sound begun old) (hthere : s.tree.handle? s.handle ≠ none)
    {got : Bytes} (hstage : s.stage = .reading got) :
    ∃ value ∈ s.said, got = value.slice 0 got.size ∧
      (∀ n, s.tree.node? s.node = some (.readWrite n) →
        ∃ observed, n.Sees s.number observed value) ∧
      (s.tree.reader s.handle).Shows value := by
  obtain ⟨o, n, session, ho, href, hn, hattends, hs, hnumber, hread⟩ := h.session hthere
  have hfits := hattends.fits
  rw [hstage] at hfits
  obtain ⟨value, hv, ⟨observed, hsees⟩, hgot⟩ := hfits
  refine ⟨value, hv, hgot, ?_, ?_⟩
  · intro n' hn'
    rw [hn] at hn'
    cases hn'
    exact ⟨observed, hsees⟩
  have hshows : (Node.readWrite n : Node σ ε).reader.Shows session.inner.snapshot :=
    Node.shows_snapshot (by simp [Node.session?, hs]) hread
  rw [(hsees session hs hnumber).2] at hshows
  show Reader.Shows (s.tree.reader s.handle) value
  unfold Tree.reader Tree.nodeReader
  rw [ho]
  dsimp only
  rw [href, hn]
  exact hshows

/-! ### Turns -/

/-- The value that the session sees is announced, and its first chunk is the front of it. -/
theorem goOn_waiting (h : s.Sound begun old) (hthere : s.tree.handle? s.handle ≠ none)
    {poll : Poll} (hstage : s.stage = .waiting poll) : s.goOn.Sound begun old := by
  rcases hsaid : s.said with _ | ⟨value, earlier⟩
  · rw [h.goOn_waiting_nil hthere hstage hsaid]
    exact h
  · obtain ⟨n, session, hn, hattends, hwake, hs, hgoOn⟩ :=
      h.goOn_waiting_cons hthere hstage hsaid
    have hmem : value ∈ s.said := hsaid ▸ List.mem_cons_self
    have hsame : (n.caughtUp session value).session.map (·.number) =
        n.session.map (·.number) := by
      rw [hs]
      rfl
    have hreach := Tree.Reachable.perform (.look ⟨s.node, ⟨s.number, begun⟩, .whole s.handle⟩)
      h.reachable
    rw [Tree.perform, Tree.look_of_wake? hn hwake] at hreach
    rw [hgoOn]
    refine ⟨hreach, h.bond.setNode hn (.wake hwake) hsame, n.caughtUp session value,
      Tree.node?_setNode_self _ hn, ReadWrite.trail_step hattends.trail (.wake hwake),
      ReadWrite.reads_step hattends.reads (.wake hwake), ?_⟩
    show s.Fits begun old (n.caughtUp session value) (if _ then _ else _)
    split
    · next hshort =>
      -- a chunk that is not full is the whole value
      refine .inr ⟨value, hmem, ?_⟩
      rw [Bytes.size_slice] at hshort
      rw [Bytes.slice_zero_of_size_le (by omega)]
    · refine ⟨value, hmem, ⟨n.published.generation, ?_⟩, Bytes.slice_zero_size value readChunk⟩
      rintro s' ⟨⟩ -
      exact ⟨rfl, rfl⟩

/-- Each further chunk stands in the same value, behind those before it; there is none behind the
whole. -/
theorem goOn_reading (h : s.Sound begun old) (hthere : s.tree.handle? s.handle ≠ none)
    {got : Bytes} (hstage : s.stage = .reading got) : s.goOn.Sound begun old := by
  obtain ⟨value, hv, hgot, hsees, hshows⟩ := h.shows_reading hthere hstage
  have hgoOn : s.goOn = { s with
      stage :=
        if (value.slice got.size readChunk).size = 0 then .answered (.ok got)
        else .reading (got ++ value.slice got.size readChunk) } := by
    unfold Delivery.goOn
    simp only [hstage, Tree.read, hshows.upTo]
  rw [hgoOn]
  refine h.setStage fun n hn _ => ?_
  split
  · next hend =>
    refine .inr ⟨value, hv, ?_⟩
    have hchunk : 0 < readChunk := by decide
    rw [Bytes.size_slice] at hend
    rw [hgot, Bytes.slice_zero_of_size_le (by omega)]
  · refine ⟨value, hv, hsees n hn, ?_⟩
    rw [Bytes.slice_zero_append hgot]
    exact Bytes.slice_zero_size value _

/-- A turn of the watch itself keeps what holds. -/
theorem goOn (h : s.Sound begun old) : s.goOn.Sound begun old := by
  by_cases hgone : s.IsPending ∧ s.tree.handle? s.handle = none
  · rw [h.goOn_of_gone hgone.2 hgone.1]
    exact h.setStage fun _ _ _ => .inl rfl
  · rw [not_and] at hgone
    rcases hstage : s.stage with _ | poll | got | result | reply
    · rw [h.goOn_opened (hgone (by simp [IsPending, hstage])) hstage]
      exact h.setStage fun _ _ _ => rfl
    · exact h.goOn_waiting (hgone (by simp [IsPending, hstage])) hstage
    · exact h.goOn_reading (hgone (by simp [IsPending, hstage])) hstage
    · obtain ⟨n, hn, hattends⟩ := h.node
      have hfits := hattends.fits
      rw [hstage] at hfits
      have hgoOn : s.goOn = s.close (some (Reply.ofResult Reply.data result)) := by
        rw [Delivery.goOn, hstage]
      rw [hgoOn]
      apply h.close
      rintro _ ⟨⟩
      rcases hfits with rfl | ⟨value, hv, rfl⟩
      · exact .inl rfl
      · exact .inr ⟨value, hv, rfl⟩
    · have hgoOn : s.goOn = s := by rw [Delivery.goOn, hstage]
      rw [hgoOn]
      exact h

/-- A watch that is cancelled has no data to deliver. -/
theorem cancel (h : s.Sound begun old) {reply : Option Bytes}
    (hreply : ∀ r, reply = some r → r = Reply.fault .noSession) :
    (s.cancel reply).Sound begun old := by
  unfold Delivery.cancel
  split
  · exact h
  · exact h.close fun r hr => .inl (hreply r hr)

theorem turn (h : s.Sound begun old) {next : Turn σ ε} (hallowed : s.Allows next) :
    (s.turn next).Sound begun old := by
  cases next with
  | watch => exact h.goOn
  | line line =>
      apply h.cancel
      intro r hr
      unfold replyTo at hr
      split at hr
      · cases hr
      · exact (Option.some.inj hr).symm
  | hangUp => exact h.cancel nofun
  | others a => exact h.others hallowed
  | newNode n => exact h.newNode hallowed

theorem run {first : Delivery σ ε} (h : first.Sound begun old) (hrun : Run first s) :
    s.Sound begun old := by
  induction hrun with
  | start => exact h
  | turn next _ hallowed ih => exact ih.turn hallowed

end Sound

/-! ## The beginning -/

/-- Every read-write node that is opened for reading can be watched. -/
theorem exists_begin? {t' : Tree σ ε} {path : String} {handle : Handle} (h : t.Reachable)
    (ho : t.openFile path .reading = (.ok handle, t')) :
    ∃ o, t'.handle? handle = some o ∧ ∀ m, t'.node? o.node = some (.readWrite m) →
      ∃ number, begin? t path = some { tree := t', handle, node := o.node, number } := by
  obtain ⟨-, o, hentry, hnode⟩ := Tree.openFile_reading h ho
  refine ⟨o, hentry, ?_⟩
  intro m hm
  obtain ⟨n, publisher, content, rfl⟩ := hnode m hm
  refine ⟨n.nextSession, ?_⟩
  simp only [begin?, ho, hentry, Tree.liveSession?_of_node? hm]
  rfl

/-- A watch that has just begun is sound. -/
theorem sound_begin? {path : String} (h : t.Reachable) (hbegin : begin? t path = some s) :
    ∃ begun old, s.Sound begun old := by
  unfold begin? at hbegin
  split at hbegin
  · cases hbegin
  · next handle t' ho =>
    obtain ⟨hgiven, o, hentry, hnode⟩ := Tree.openFile_reading h ho
    rw [hentry] at hbegin
    obtain ⟨session, hsession, rfl⟩ := Option.map_eq_some_iff.mp hbegin
    obtain ⟨m, hm, hs⟩ := Tree.liveSession?_eq_some hsession
    obtain ⟨n, publisher, content, rfl⟩ := hnode m hm
    cases hs
    have hreach : t'.Reachable := by
      have hopened := Tree.Reachable.perform (.openFile path .reading) h
      rwa [Tree.perform, ho] at hopened
    -- the count and the content that the session has begun with
    refine ⟨n.published.generation, content, hreach, ?_, _, hm, ?_, ?_, ?_⟩
    · exact ⟨hgiven, _, hm, Nat.lt_succ_self _, .inl ⟨_, _, hentry, rfl, rfl, rfl⟩⟩
    · exact ReadWrite.trail_start (Nat.lt_succ_self _) rfl rfl
    · refine ⟨Nat.lt_succ_self _, ?_⟩
      rintro s ⟨⟩ -
      rfl
    · rintro s ⟨⟩ -
      exact ⟨rfl, rfl⟩

/-! ## Watches whose handle is gone -/

/-- The handle is gone while the poll was not over, so there are no data to deliver. -/
structure IsBarren (s : Delivery σ ε) : Prop where
  gone : s.tree.handle? s.handle = none
  answered : ∀ result, s.stage = .answered result → result = .error .noSession
  finished : ∀ reply, s.stage = .finished (some reply) → reply = Reply.fault .noSession

omit [Foreign ε] in
theorem isBarren_of_gone (hpending : s.IsPending) (hgone : s.tree.handle? s.handle = none) :
    s.IsBarren := by
  refine ⟨hgone, ?_, ?_⟩
  all_goals
    intro _ hstage
    simp [IsPending, hstage] at hpending

theorem IsBarren.close (h : s.IsBarren) {reply : Option Bytes}
    (hreply : ∀ r, reply = some r → r = Reply.fault .noSession) : (s.close reply).IsBarren := by
  have htree : Connection.closeQuietly s.tree s.handle = s.tree := by
    simp only [Connection.closeQuietly, Tree.close, Tree.takeHandle, h.gone]
  refine ⟨?_, ?_, ?_⟩
  · show (Connection.closeQuietly s.tree s.handle).handle? s.handle = none
    rw [htree]
    exact h.gone
  · rintro result ⟨⟩
  · rintro r ⟨⟩
    exact hreply r rfl

theorem IsBarren.goOn (h : s.IsBarren) (hsound : s.Sound begun old) : s.goOn.IsBarren := by
  by_cases hpending : s.IsPending
  · rw [hsound.goOn_of_gone h.gone hpending]
    refine ⟨h.gone, ?_, nofun⟩
    rintro result ⟨⟩
    rfl
  · rcases hstage : s.stage with _ | poll | got | result | reply
    · simp [IsPending, hstage] at hpending
    · simp [IsPending, hstage] at hpending
    · simp [IsPending, hstage] at hpending
    · rw [Delivery.goOn, hstage]
      apply h.close
      rintro r ⟨⟩
      rw [h.answered result hstage]
      rfl
    · rw [Delivery.goOn, hstage]
      exact h

theorem IsBarren.turn (h : s.IsBarren) (hsound : s.Sound begun old) (next : Turn σ ε) :
    (s.turn next).IsBarren := by
  have hcancel : ∀ reply, (∀ r, reply = some r → r = Reply.fault .noSession) →
      (s.cancel reply).IsBarren := by
    intro reply hreply
    unfold cancel
    split
    · exact h
    · exact h.close hreply
  cases next with
  | watch => exact h.goOn hsound
  | line line =>
      apply hcancel
      intro r hr
      unfold replyTo at hr
      split at hr
      · cases hr
      · exact (Option.some.inj hr).symm
  | hangUp => exact hcancel none nofun
  | others a =>
      have hproceeds := Tree.proceeds_perform s.tree a
      exact ⟨Tree.handle?_of_proceeds hproceeds hsound.bond.given h.gone, h.answered, h.finished⟩
  | newNode n => exact ⟨h.gone, h.answered, h.finished⟩

theorem IsBarren.run {later : Delivery σ ε} (h : s.IsBarren) (hsound : s.Sound begun old)
    (hrun : Run s later) : later.IsBarren := by
  induction hrun with
  | start => exact h
  | turn next hrun hallowed ih => exact ih.turn (hsound.run hrun) next

/-! ## What is delivered -/

namespace Sound

/-- A watch that is given data has been given them by an announcement. -/
theorem reply_eq (h : s.Sound begun old) {reply : Bytes}
    (hstage : s.stage = .finished (some reply)) :
    reply = Reply.fault .noSession ∨ ∃ value ∈ s.said, reply = Reply.data value := by
  obtain ⟨n, -, hattends⟩ := h.node
  have hfits := hattends.fits
  rwa [hstage] at hfits

/-- Until something is announced a watch that keeps its handle goes on waiting. -/
theorem waits (h : s.Sound begun old) (hpending : s.IsPending)
    (hthere : s.tree.handle? s.handle ≠ none) (hsaid : s.said = []) (k : Nat) :
    (Delivery.goOn^[k] s).IsPending := by
  induction k generalizing s with
  | zero => exact hpending
  | succ k ih =>
      rw [Function.iterate_succ_apply]
      have hnext := h.goOn
      rcases hstage : s.stage with _ | poll | got | result | reply
      · rw [h.goOn_opened hthere hstage] at hnext ⊢
        exact ih hnext trivial hthere hsaid
      · rw [h.goOn_waiting_nil hthere hstage hsaid]
        exact ih h hpending hthere hsaid
      · -- what is being read has been announced
        obtain ⟨value, hv, -⟩ := h.shows_reading hthere hstage
        rw [hsaid] at hv
        cases hv
      · simp [IsPending, hstage] at hpending
      · simp [IsPending, hstage] at hpending

/-- A watch that has begun to read delivers the whole value. -/
theorem comesTo_of_reading (h : s.Sound begun old) (hthere : s.tree.handle? s.handle ≠ none)
    {got : Bytes} (hstage : s.stage = .reading got) :
    ∃ value ∈ s.said, s.ComesTo (Reply.data value) := by
  obtain ⟨value, hv, hgot, -, hshows⟩ := h.shows_reading hthere hstage
  obtain ⟨k, hk⟩ := reading_alone hstage
  have hdrain : (s.tree.reader s.handle).drainOnto got got.size = .ok value := by
    have hfront : (s.tree.reader s.handle).drainOnto (value.slice 0 got.size)
        (0 + (value.slice 0 got.size).size) = .ok (value.slice 0 value.size) :=
      hshows.drainOnto got.size
    rw [← hgot, Nat.zero_add] at hfront
    rw [hfront, Bytes.slice_zero_of_size_le (Nat.le_refl _)]
  rw [hdrain] at hk
  refine ⟨value, hv, k + 1, ?_⟩
  rw [Function.iterate_succ_apply', hk]
  rfl

/-- A watch that waits is let through by an announcement, and delivers the value. -/
theorem comesTo_of_waiting (h : s.Sound begun old) (hthere : s.tree.handle? s.handle ≠ none)
    {poll : Poll} (hstage : s.stage = .waiting poll) (hsaid : s.said ≠ []) :
    ∃ value ∈ s.said, s.ComesTo (Reply.data value) := by
  obtain ⟨value, earlier, hvalues⟩ := List.exists_cons_of_ne_nil hsaid
  obtain ⟨n, session, hn, -, -, -, hgoOn⟩ := h.goOn_waiting_cons hthere hstage hvalues
  have hnext := h.goOn
  split at hgoOn
  · next hshort =>
    refine ⟨value, hvalues ▸ List.mem_cons_self, .of_goOn ?_⟩
    have hanswered : s.goOn.stage = .answered (.ok (value.slice 0 readChunk)) := by rw [hgoOn]
    have hwhole : value.slice 0 readChunk = value := by
      rw [Bytes.size_slice] at hshort
      exact Bytes.slice_zero_of_size_le (by omega)
    rw [hwhole] at hanswered
    exact comesTo_of_answered hanswered
  · have hthere' : s.goOn.tree.handle? s.goOn.handle ≠ none := by
      rw [hgoOn]
      exact hthere
    obtain ⟨value', hv, hcomes⟩ := hnext.comesTo_of_reading hthere' (by rw [hgoOn])
    refine ⟨value', ?_, hcomes.of_goOn⟩
    rw [hgoOn] at hv
    exact hv

/-- While its handle is there, a watch delivers once something has been announced. -/
theorem comesTo_of_said (h : s.Sound begun old) (hpending : s.IsPending)
    (hthere : s.tree.handle? s.handle ≠ none) (hsaid : s.said ≠ []) :
    ∃ value ∈ s.said, s.ComesTo (Reply.data value) := by
  rcases hstage : s.stage with _ | poll | got | result | reply
  · have hgoOn := h.goOn_opened hthere hstage
    have hnext := h.goOn
    rw [hgoOn] at hnext
    obtain ⟨value, hv, hcomes⟩ := hnext.comesTo_of_waiting hthere rfl hsaid
    rw [← hgoOn] at hcomes
    exact ⟨value, hv, hcomes.of_goOn⟩
  · exact h.comesTo_of_waiting hthere hstage hsaid
  · exact h.comesTo_of_reading hthere hstage
  · simp [IsPending, hstage] at hpending
  · simp [IsPending, hstage] at hpending

/-- Once its handle is gone, a watch whose poll is not over comes to a fault. -/
theorem comesTo_of_gone (h : s.Sound begun old) (hpending : s.IsPending)
    (hgone : s.tree.handle? s.handle = none) : s.ComesTo (Reply.fault .noSession) := by
  apply ComesTo.of_goOn
  have hanswered : s.goOn.stage = .answered (.error .noSession) := by
    rw [h.goOn_of_gone hgone hpending]
  exact comesTo_of_answered hanswered

end Sound

/-- Whatever happens between the steps of a watch, and however long the values are that its node
announces: if the reply is data, they are exactly one value that was announced after the session of
the watch began. Without an announcement there are no data.

If the handle goes while the poll is not over, the watch comes to the fault that there is no session,
and to no other reply. It goes when its registration is removed, and when a line cancels the watch,
which is answered with that fault at any time.

As long as the handle is there, the watch waits until something is announced, and then it comes to a
reply with data. -/
theorem watch_delivers_announced {t : Tree σ ε} {path : String} {first s : Delivery σ ε}
    (h : t.Reachable) (hbegin : begin? t path = some first) (hrun : Run first s) :
    (∀ reply, s.stage = .finished (some reply) →
      reply = Reply.fault .noSession ∨ ∃ value ∈ s.said, reply = Reply.data value) ∧
    (s.said = [] → ∀ value, s.stage ≠ .finished (some (Reply.data value))) ∧
    (s.IsPending → s.tree.handle? s.handle = none →
      s.ComesTo (Reply.fault .noSession) ∧
      ∀ later reply, Run s later → later.stage = .finished (some reply) →
        reply = Reply.fault .noSession) ∧
    (∀ o, s.tree.handle? s.handle = some o →
      (s.turn (.others (.unregister o.id))).tree.handle? s.handle = none) ∧
    (∀ line text, (∀ reply, s.stage ≠ .finished reply) → Text.Utf8.decode line = .ok text →
      (s.turn (.line line)).stage = .finished (some (Reply.fault .noSession)) ∧
      (s.turn (.line line)).tree.handle? s.handle = none) ∧
    (s.IsPending → s.tree.handle? s.handle ≠ none →
      (s.said = [] → ∀ k, (goOn^[k] s).IsPending) ∧
      (s.said ≠ [] → ∃ value ∈ s.said, s.ComesTo (Reply.data value))) := by
  obtain ⟨begun, old, hfirst⟩ := sound_begin? h hbegin
  have hsound := hfirst.run hrun
  refine ⟨fun reply => hsound.reply_eq, ?_, ?_, ?_, ?_, ?_⟩
  · intro hsaid value hstage
    rcases hsound.reply_eq hstage with hfault | ⟨value', hv, -⟩
    · exact Reply.data_ne_fault value .noSession hfault
    · rw [hsaid] at hv
      cases hv
  · intro hpending hgone
    refine ⟨hsound.comesTo_of_gone hpending hgone, ?_⟩
    intro later reply hlater hstage
    exact ((isBarren_of_gone hpending hgone).run hsound hlater).finished reply hstage
  · intro o ho
    have hregistered := hsound.reachable.isRegistered_of_mem o (List.mem_of_find?_eq_some ho)
    exact Tree.handle?_unregister ho hregistered
  · intro line text hgoing hdecode
    have hturn : s.turn (.line line) = s.close (some (Reply.fault .noSession)) := by
      simp only [turn, cancel, replyTo, hdecode]
    rw [hturn]
    exact ⟨rfl, Tree.handle?_close s.tree s.handle⟩
  · intro hpending hthere
    exact ⟨hsound.waits hpending hthere, hsound.comesTo_of_said hpending hthere⟩

/-- The file of the gauge is registered. -/
def dashboard : Tree Bytes Empty := Tree.gauges.perform (.register ⟨0⟩)

theorem reachable_dashboard : dashboard.Reachable :=
  .perform (.register ⟨0⟩) (.addNode (.readWrite Tree.gauge) (.empty {} #[1]) ⟨rfl, rfl, rfl⟩)

/-- A watch of it begins. -/
def watching : Delivery Bytes Empty where
  tree := (dashboard.openFile "/dev/gauge" .reading).2
  handle := ⟨1⟩
  node := ⟨0⟩
  number := 1

/-- While it waits, the value changes and is announced. -/
def told : Delivery Bytes Empty :=
  [.watch, .others (.publish fun _ => #[2]), .others (.notify ⟨0⟩)].foldl turn watching

/-- It delivers what was announced. -/
theorem watch_delivers_announced_told :
    begin? dashboard "/dev/gauge" = some watching ∧ Run watching told ∧ told.said = [#[2]] ∧
      told.ComesTo (Reply.data #[2]) := by
  have hbegin : begin? dashboard "/dev/gauge" = some watching := rfl
  have hrun : Run watching told :=
    .turn (.others (.notify ⟨0⟩)) (.turn (.others (.publish fun _ => #[2]))
      (.turn .watch .start trivial) trivial) trivial
  have hsaid : told.said = [#[2]] := rfl
  obtain ⟨-, -, -, -, -, hdelivers⟩ := watch_delivers_announced reachable_dashboard hbegin hrun
  have hpending : told.IsPending := True.intro
  have hthere : told.tree.handle? told.handle ≠ none := by decide
  obtain ⟨value, hv, hcomes⟩ := (hdelivers hpending hthere).2 (by rw [hsaid]; exact nofun)
  rw [hsaid] at hv
  cases List.mem_singleton.mp hv
  exact ⟨hbegin, hrun, hsaid, hcomes⟩

end Delivery

end LiveTree
