import LiveTree.Service
import LiveTree.Proofs.Traffic

/-!
# The service as traffic

What the service does is made of the turns of a `Traffic`. It takes some of them at once: it begins a
poll as soon as the file is open, and it writes a reply as soon as there is one. So its connections
are seen at fewer stages, and each of its operations is a run of turns: a line is served by
`reaches_serveLine`, a connection takes input by `reaches_receive` and its end by `reaches_finish`,
and a whole service by `Mirrors.receive` and its like. What holds of any traffic holds of the service
(`service_holds_handles`).
-/

namespace LiveTree

variable {σ : Type}

/-- A stage of a connection that the service shows as that phase. -/
inductive Connection.Phase.Mirrors : Connection.Phase → Stage → Prop where
  | idle : Mirrors .idle .idle
  | watching (h : Handle) (poll : Poll) (entry : Option OpenHandle) :
      Mirrors (.watching h poll) (.watching ⟨h, entry, .polling poll⟩)
  | closed : Mirrors .closed .ended

namespace Connection

/-- The tree without the handle of a connection at that phase. -/
def Phase.release (t : Tree σ Empty) : Phase → Tree σ Empty
  | .watching h _ => closeQuietly t h
  | _ => t

/-- The end of the input is the last line, if there is one, and the release of the handle. -/
theorem finish_tree (t : Tree σ Empty) (c : Connection) : (finish t c).2.2 =
    if c.received.isEmpty then c.phase.release t
    else (serveLine t c.phase c.received).2.1.release (serveLine t c.phase c.received).2.2 := by
  unfold finish
  by_cases hempty : c.received.isEmpty = true
  · rw [if_pos hempty, if_pos hempty]
    rcases c.phase with _ | _ | _ <;> rfl
  · rw [if_neg hempty, if_neg hempty]
    rcases serveLine t c.phase c.received with ⟨reply, _ | _ | _, t'⟩ <;> rfl

end Connection

open Connection (Phase)

namespace Traffic

variable {s s' : Traffic σ} {id : Nat} {phase : Phase} {stage : Stage} {t t' : Tree σ Empty}

@[simp] theorem tree_step (s : Traffic σ) (id : Nat) (stage : Stage) (t : Tree σ Empty) :
    (s.step id stage t).tree = t :=
  rfl

@[simp] theorem stage_step_self (s : Traffic σ) (id : Nat) (stage : Stage) (t : Tree σ Empty) :
    (s.step id stage t).stage id = stage := by
  simp [step]

theorem stage_step_of_ne (s : Traffic σ) {id other : Nat} (h : other ≠ id) (stage : Stage)
    (t : Tree σ Empty) : (s.step id stage t).stage other = s.stage other := by
  simp [step, h]

/-- Turns bring a connection to a phase and the tree to `t`, and leave the other connections where
they are. -/
def Reaches (s : Traffic σ) (id : Nat) (phase : Phase) (t : Tree σ Empty) : Prop :=
  ∃ s', Run s s' ∧ s'.tree = t ∧ phase.Mirrors (s'.stage id) ∧
    ∀ other, other ≠ id → s'.stage other = s.stage other

theorem reaches_self (h : phase.Mirrors (s.stage id)) : Reaches s id phase s.tree :=
  ⟨s, .start, rfl, h, fun _ _ => rfl⟩

theorem reaches_step (s : Traffic σ) (id : Nat) (t : Tree σ Empty) (h : phase.Mirrors stage) :
    Reaches (s.step id stage t) id phase t := by
  apply reaches_self
  rw [stage_step_self]
  exact h

/-- After a turn that is a step of the connection, others may follow. -/
theorem Reaches.after {next : Turn σ} (h : Reaches (s.step id stage t) id phase t')
    (hturn : s.turn next = s.step id stage t) (hallowed : next.Allowed) :
    Reaches s id phase t' := by
  obtain ⟨s', hrun, htree, hphase, hothers⟩ := h
  refine ⟨s', ?_, htree, hphase, ?_⟩
  · have hfirst : Run s (s.step id stage t) := hturn ▸ .turn next .start hallowed
    exact hfirst.trans hrun
  · intro other hne
    exact (hothers other hne).trans (stage_step_of_ne s hne stage t)

theorem Reaches.trans {phase' : Phase} (h : Reaches s id phase t)
    (h' : ∀ {u : Traffic σ}, u.tree = t → phase.Mirrors (u.stage id) → Reaches u id phase' t') :
    Reaches s id phase' t' := by
  obtain ⟨u, hrun, htree, hphase, hothers⟩ := h
  obtain ⟨v, hrun', htree', hphase', hothers'⟩ := h' htree hphase
  refine ⟨v, hrun.trans hrun', htree', hphase', ?_⟩
  intro other hne
  exact (hothers' other hne).trans (hothers other hne)

/-! ## One connection -/

/-- A watch whose poll is over is answered. -/
theorem reaches_reply (s : Traffic σ) (id : Nat) (h : Handle) (entry : Option OpenHandle)
    (t : Tree σ Empty) :
    Reaches (s.step id (.watching ⟨h, entry, .answered⟩) t) id .idle
      (Connection.closeQuietly t h) := by
  have hturn : (s.step id (.watching ⟨h, entry, .answered⟩) t).turn (.watch id) =
      (s.step id (.watching ⟨h, entry, .answered⟩) t).step id .idle
        (Connection.closeQuietly t h) := by
    simp only [turn, goOn, stage_step_self]
    rfl
  exact (reaches_step _ id _ .idle).after hturn trivial

/-- A watch begins its poll at once, and is answered at once if the poll is. -/
theorem reaches_beginWatch {next : Turn σ} {path : String}
    (hturn : s.turn next = s.openWatch id path) (hallowed : next.Allowed) :
    Reaches s id (Connection.beginWatch s.tree path).2.1
      (Connection.beginWatch s.tree path).2.2 := by
  unfold openWatch at hturn
  unfold Connection.beginWatch
  split
  · next ho =>
    rw [ho] at hturn
    exact (reaches_step s id _ .idle).after hturn hallowed
  · next h t ho =>
    rw [ho] at hturn
    refine Reaches.after ?_ hturn hallowed
    -- the turn that begins the poll
    have hpoll : (s.step id (.watching ⟨h, t.handle? h, .opened⟩) t).turn (.watch id) =
        (s.step id (.watching ⟨h, t.handle? h, .opened⟩) t).goOn id := rfl
    simp only [goOn, stage_step_self, tree_step] at hpoll
    split
    · next hs =>
      rw [hs] at hpoll
      exact (reaches_reply _ id h _ _).after hpoll trivial
    · next poll _ hs =>
      rw [hs] at hpoll
      exact (reaches_step _ id _ (.watching h poll _)).after hpoll trivial

/-- A line is served while nothing waits. -/
theorem reaches_request (hidle : s.stage id = .idle) (line : Bytes) :
    Reaches s id (Connection.serveLine s.tree .idle line).2.1
      (Connection.serveLine s.tree .idle line).2.2 := by
  have hturn : s.turn (.line id line) = s.receive id line := rfl
  rw [receive, hidle] at hturn
  change s.turn (.line id line) = s.request id line at hturn
  unfold request at hturn
  unfold Connection.serveLine
  dsimp only
  split
  · next hd =>
    rw [hd] at hturn
    exact (reaches_step s id s.tree .closed).after hturn trivial
  · next text hd =>
    rw [hd] at hturn
    dsimp only at hturn
    split
    · exact reaches_self (hidle ▸ .idle)
    · next hp =>
      rw [hp] at hturn
      exact (reaches_step s id s.tree .closed).after hturn trivial
    · next path hp =>
      rw [hp] at hturn
      exact reaches_beginWatch hturn trivial
    · next r hquit hwatch hp =>
      have hserved : s.turn (.line id line) =
          s.step id .idle (Connection.execute s.tree r).2 := by
        rw [hturn, hp]
        cases r with
        | quit => exact absurd rfl hquit
        | watch path => exact absurd rfl (hwatch path)
        | _ => rfl
      exact (reaches_step s id _ .idle).after hserved trivial

/-- A line is served, or cancels a watch. -/
theorem reaches_serveLine (h : phase.Mirrors (s.stage id)) (line : Bytes) :
    Reaches s id (Connection.serveLine s.tree phase line).2.1
      (Connection.serveLine s.tree phase line).2.2 := by
  have hself := reaches_self h
  generalize hs : s.stage id = stage at h
  cases h with
  | idle => exact reaches_request hs line
  | watching number poll entry =>
      have hturn : s.turn (.line id line) = s.receive id line := rfl
      rw [receive, hs] at hturn
      dsimp only at hturn
      unfold Connection.serveLine
      dsimp only
      split
      · next hd =>
        rw [hd] at hturn
        exact (reaches_step s id _ .closed).after hturn trivial
      · next hd =>
        rw [hd] at hturn
        exact (reaches_step s id _ .idle).after hturn trivial
  | closed => exact hself

/-- What one octet of input brings about. -/
theorem reaches_receiveOctet {c : Connection} (h : c.phase.Mirrors (s.stage id)) (b : UInt8) :
    Reaches s id (Connection.receiveOctet s.tree c b).2.1.phase
      (Connection.receiveOctet s.tree c b).2.2 := by
  unfold Connection.receiveOctet
  split
  · exact reaches_serveLine h c.received
  · exact reaches_self h

theorem reaches_receiveOnto {c : Connection} (h : c.phase.Mirrors (s.stage id)) (written : Bytes)
    (input : List UInt8) :
    Reaches s id (Connection.receiveOnto written s.tree c input).2.1.phase
      (Connection.receiveOnto written s.tree c input).2.2 := by
  induction input generalizing s c written with
  | nil => exact reaches_self h
  | cons b rest ih =>
      apply (reaches_receiveOctet h b).trans
      intro u htree hphase
      have hrest := ih hphase (written ++ (Connection.receiveOctet s.tree c b).1)
      rw [htree] at hrest
      exact hrest

/-- Input is taken. -/
theorem reaches_receive {c : Connection} (h : c.phase.Mirrors (s.stage id)) (input : Bytes) :
    Reaches s id (Connection.receive s.tree c input).2.1.phase
      (Connection.receive s.tree c input).2.2 :=
  reaches_receiveOnto h #[] input.toList

/-- A poll that has an answer is answered. -/
theorem reaches_settle {c : Connection} (h : c.phase.Mirrors (s.stage id)) :
    Reaches s id (Connection.settle s.tree c).2.1.phase (Connection.settle s.tree c).2.2 := by
  have hself := reaches_self h
  unfold Connection.settle
  split
  · next number poll hc =>
    rw [hc] at h
    generalize hs : s.stage id = stage at h
    cases h with
    | watching _ _ entry =>
        have hturn : s.turn (.watch id) = s.goOn id := rfl
        unfold goOn at hturn
        rw [hs] at hturn
        dsimp only at hturn
        split
        · exact hself
        · next hf =>
          rw [hf] at hturn
          exact (reaches_reply s id number entry _).after hturn trivial
  · exact hself

/-- A connection whose client is gone is over, and so is its watch. -/
theorem reaches_hangUp (h : phase.Mirrors (s.stage id)) :
    Reaches s id .closed (phase.release s.tree) := by
  have hturn : s.turn (.hangUp id) = s.hangUp id := rfl
  unfold hangUp at hturn
  generalize hs : s.stage id = stage at h
  rw [hs] at hturn
  cases h with
  | idle => exact (reaches_step s id _ .closed).after hturn trivial
  | watching number poll entry => exact (reaches_step s id _ .closed).after hturn trivial
  | closed => exact (reaches_step s id _ .closed).after hturn trivial

/-- The end of the input is taken: an unfinished line is served first. -/
theorem reaches_finish {c : Connection} (h : c.phase.Mirrors (s.stage id)) :
    Reaches s id .closed (Connection.finish s.tree c).2.2 := by
  have hover : ∀ {phase : Phase} {t : Tree σ Empty}, Reaches s id phase t →
      Reaches s id .closed (phase.release t) := by
    intro phase t hline
    apply hline.trans
    rintro u rfl hphase
    exact reaches_hangUp hphase
  rw [Connection.finish_tree]
  split
  · exact hover (reaches_self h)
  · exact hover (reaches_serveLine h c.received)

end Traffic

/-! ## The service -/

open Traffic (Run)

namespace Service

variable {v : Service σ Empty} {s : Traffic σ}

/-- The polls of some connections are looked at one after the other. -/
theorem settleAll_run (connections : List (Nat × Connection)) {s : Traffic σ}
    (hphase : ∀ p ∈ connections, p.2.phase.Mirrors (s.stage p.1))
    (hdistinct : (connections.map (·.1)).Nodup) :
    ∃ s', Run s s' ∧ s'.tree = (settleAll s.tree connections).2.2 ∧
      (settleAll s.tree connections).2.1.map (·.1) = connections.map (·.1) ∧
      (∀ p ∈ (settleAll s.tree connections).2.1, p.2.phase.Mirrors (s'.stage p.1)) ∧
      ∀ id, id ∉ connections.map (·.1) → s'.stage id = s.stage id := by
  induction connections generalizing s with
  | nil => exact ⟨s, .start, rfl, rfl, nofun, fun _ _ => rfl⟩
  | cons first rest ih =>
      obtain ⟨id, c⟩ := first
      obtain ⟨hnot, hdistinct⟩ := List.nodup_cons.mp hdistinct
      obtain ⟨u, hrun, htree, hfirst, hothers⟩ :=
        Traffic.reaches_settle (hphase (id, c) List.mem_cons_self)
      have hrest : ∀ p ∈ rest, p.2.phase.Mirrors (u.stage p.1) := by
        intro p hp
        rw [hothers]
        · exact hphase p (List.mem_cons_of_mem _ hp)
        · intro he
          exact hnot (List.mem_map.mpr ⟨p, hp, he⟩)
      obtain ⟨w, hrun', htree', hids, hphases, hothers'⟩ := ih hrest hdistinct
      rw [htree] at htree' hids hphases
      refine ⟨w, hrun.trans hrun', htree', congrArg (id :: ·) hids, ?_, ?_⟩
      · intro p hp
        rcases List.mem_cons.mp hp with rfl | hp
        · show Connection.Phase.Mirrors _ (w.stage id)
          rw [hothers' id hnot]
          exact hfirst
        · exact hphases p hp
      · intro other hother
        obtain ⟨hne, hnot'⟩ := not_or.mp (mt List.mem_cons.mpr hother)
        exact (hothers' other hnot').trans (hothers other hne)

theorem mem_of_connection? {id : Nat} {c : Connection} (hc : v.connection? id = some c) :
    (id, c) ∈ v.connections := by
  obtain ⟨before, after, he, -⟩ := List.lookup_eq_some_iff.mp hc
  rw [he]
  exact List.mem_append_right before List.mem_cons_self

/-- The traffic has the tree of the service, and its connections are at the stages that the service
shows. Who has hung up is gone, and who has not been accepted has not begun. -/
structure Mirrors (v : Service σ Empty) (s : Traffic σ) : Prop where
  tree : s.tree = v.tree
  phase : ∀ p ∈ v.connections, p.2.phase.Mirrors (s.stage p.1)
  distinct : (v.connections.map (·.1)).Nodup
  numbered : ∀ id ∈ v.connections.map (·.1), id < v.nextConnection
  gone : ∀ id < v.nextConnection, id ∉ v.connections.map (·.1) → s.stage id = .ended
  new : ∀ id, v.nextConnection ≤ id → s.stage id = .idle

namespace Mirrors

/-- Looking at the polls is a run. -/
theorem settle (h : v.Mirrors s) : ∃ s', Run s s' ∧ v.settle.2.Mirrors s' := by
  obtain ⟨s', hrun, htree, hids, hphase, hothers⟩ := settleAll_run v.connections h.phase h.distinct
  rw [h.tree] at htree hids hphase
  refine ⟨s', hrun, htree, hphase, ?_, ?_, ?_, ?_⟩
  · show ((settleAll v.tree v.connections).2.1.map (·.1)).Nodup
    rw [hids]
    exact h.distinct
  · intro id hid
    change id ∈ (settleAll v.tree v.connections).2.1.map (·.1) at hid
    rw [hids] at hid
    exact h.numbered id hid
  · intro id hlt hid
    change id ∉ (settleAll v.tree v.connections).2.1.map (·.1) at hid
    rw [hids] at hid
    rw [hothers id hid]
    exact h.gone id hlt hid
  · intro id hle
    rw [hothers id]
    · exact h.new id hle
    · intro hid
      exact Nat.lt_irrefl _ (Nat.lt_of_lt_of_le (h.numbered id hid) hle)

/-- A connection that is accepted is one that has not begun. -/
theorem accept (h : v.Mirrors s) : v.accept.2.Mirrors s := by
  have hfresh : v.nextConnection ∉ v.connections.map (·.1) :=
    fun hid => Nat.lt_irrefl _ (h.numbered _ hid)
  have hids : v.accept.2.connections.map (·.1) =
      v.connections.map (·.1) ++ [v.nextConnection] := by
    simp [Service.accept]
  refine ⟨h.tree, ?_, ?_, ?_, ?_, ?_⟩
  · intro p hp
    rcases List.mem_append.mp hp with hp | hp
    · exact h.phase p hp
    · rw [List.mem_singleton.mp hp]
      show Connection.Phase.Mirrors .idle (s.stage v.nextConnection)
      rw [h.new v.nextConnection (Nat.le_refl _)]
      exact .idle
  · rw [hids]
    exact List.nodup_append.mpr ⟨h.distinct, List.nodup_singleton _, by
      rintro id hid _ hnew rfl
      exact hfresh (List.mem_singleton.mp hnew ▸ hid)⟩
  · intro id hid
    rw [hids, List.mem_append, List.mem_singleton] at hid
    show id < v.nextConnection + 1
    rcases hid with hid | rfl
    · exact Nat.lt_succ_of_lt (h.numbered id hid)
    · exact Nat.lt_succ_self _
  · intro id hlt hid
    rw [hids, List.mem_append, List.mem_singleton, not_or] at hid
    change id < v.nextConnection + 1 at hlt
    exact h.gone id (by omega) hid.1
  · intro id hle
    exact h.new id (Nat.le_of_succ_le hle)

theorem ids_setConnection (v : Service σ Empty) (id : Nat) (c : Connection) :
    (v.setConnection id c).connections.map (·.1) = v.connections.map (·.1) := by
  show (v.connections.map _).map _ = _
  rw [List.map_map]
  apply List.map_congr_left
  intro p _
  show (if p.1 = id then (id, c) else p).1 = p.1
  split
  · next he => exact he.symm
  · rfl

/-- One connection goes on. -/
theorem setConnection (h : v.Mirrors s) {id : Nat} {c c' : Connection} {t : Tree σ Empty}
    (hc : v.connection? id = some c) (hr : s.Reaches id c'.phase t) :
    ∃ s', Run s s' ∧ (({ v with tree := t } : Service σ Empty).setConnection id c').Mirrors s' := by
  obtain ⟨s', hrun, htree, hphase, hothers⟩ := hr
  have hmem : id ∈ v.connections.map (·.1) := List.mem_map_of_mem (mem_of_connection? hc)
  have hids := ids_setConnection { v with tree := t } id c'
  refine ⟨s', hrun, htree, ?_, ?_, ?_, ?_, ?_⟩
  · intro p hp
    obtain ⟨q, hq, rfl⟩ := List.mem_map.mp hp
    show (if q.1 = id then (id, c') else q).2.phase.Mirrors
      (s'.stage (if q.1 = id then (id, c') else q).1)
    split
    · exact hphase
    · next hne =>
      rw [hothers q.1 hne]
      exact h.phase q hq
  · rw [hids]
    exact h.distinct
  · rw [hids]
    exact h.numbered
  · intro other hlt hother
    rw [hids] at hother
    rw [hothers other]
    · exact h.gone other hlt hother
    · rintro rfl
      exact hother hmem
  · intro other hle
    rw [hothers other]
    · exact h.new other hle
    · rintro rfl
      exact Nat.lt_irrefl _ (Nat.lt_of_lt_of_le (h.numbered _ hmem) hle)

/-- One connection is over, and not the service's any more. -/
theorem dropConnection (h : v.Mirrors s) {id : Nat} {c : Connection} {t : Tree σ Empty}
    (hc : v.connection? id = some c) (hr : s.Reaches id .closed t) :
    ∃ s', Run s s' ∧ ({ v with
      tree := t
      connections := v.connections.filter (·.1 ≠ id) } : Service σ Empty).Mirrors s' := by
  obtain ⟨s', hrun, htree, hphase, hothers⟩ := hr
  have hlt : id < v.nextConnection :=
    h.numbered id (List.mem_map_of_mem (mem_of_connection? hc))
  have hended : s'.stage id = .ended := by
    generalize s'.stage id = stage at hphase
    cases hphase
    rfl
  refine ⟨s', hrun, htree, ?_, ?_, ?_, ?_, ?_⟩
  · intro p hp
    obtain ⟨hp, hne⟩ := List.mem_filter.mp hp
    rw [hothers p.1 (of_decide_eq_true hne)]
    exact h.phase p hp
  · exact (List.filter_sublist.map _).nodup h.distinct
  · intro other hother
    exact h.numbered other ((List.filter_sublist.map _).subset hother)
  · intro other hother hnot
    by_cases he : other = id
    · rw [he]
      exact hended
    · rw [hothers other he]
      apply h.gone other hother
      intro hin
      obtain ⟨p, hp, rfl⟩ := List.mem_map.mp hin
      exact hnot (List.mem_map_of_mem (List.mem_filter.mpr ⟨hp, decide_eq_true he⟩))
  · intro other hle
    change v.nextConnection ≤ other at hle
    rw [hothers other (by omega)]
    exact h.new other hle

/-- Input is taken by a run. -/
theorem receive (h : v.Mirrors s) (id : Nat) (input : Bytes) :
    ∃ s', Run s s' ∧ (v.receive id input).2.Mirrors s' := by
  unfold Service.receive
  split
  · exact ⟨s, .start, h⟩
  · next c hc =>
    have hreach := Traffic.reaches_receive (h.phase _ (mem_of_connection? hc)) input
    rw [h.tree] at hreach
    obtain ⟨u, hrun, hu⟩ := h.setConnection hc hreach
    obtain ⟨w, hrun', hw⟩ := hu.settle
    exact ⟨w, hrun.trans hrun', hw⟩

/-- The end of the input is taken by a run. -/
theorem hangUp (h : v.Mirrors s) (id : Nat) :
    ∃ s', Run s s' ∧ (v.hangUp id).2.Mirrors s' := by
  unfold Service.hangUp
  split
  · exact ⟨s, .start, h⟩
  · next c hc =>
    have hreach := Traffic.reaches_finish (h.phase _ (mem_of_connection? hc))
    rw [h.tree] at hreach
    obtain ⟨u, hrun, hu⟩ := h.dropConnection hc hreach
    obtain ⟨w, hrun', hw⟩ := hu.settle
    exact ⟨w, hrun.trans hrun', hw⟩

/-- What others do to the tree is a turn of theirs. -/
theorem act (h : v.Mirrors s) (f : Tree σ Empty → Tree σ Empty) (next : Traffic.Turn σ)
    (hturn : s.turn next = { s with tree := f s.tree }) (hallowed : next.Allowed) :
    ∃ s', Run s s' ∧ (v.act f).2.Mirrors s' := by
  have hu : ({ v with tree := f v.tree } : Service σ Empty).Mirrors (s.turn next) := by
    rw [hturn]
    exact ⟨congrArg f h.tree, h.phase, h.distinct, h.numbered, h.gone, h.new⟩
  obtain ⟨w, hrun, hw⟩ := hu.settle
  exact ⟨w, (Run.turn next .start hallowed).trans hrun, hw⟩

end Mirrors

/-! ## Handles of the service -/

/-- What a service may come to that begins with a tree whose handles are all closed, when nobody
else opens or closes handles. -/
inductive Reachable : Service σ Empty → Prop where
  | start {t : Tree σ Empty} : t.Reachable → t.handles = [] → Reachable { tree := t }
  | accept {v : Service σ Empty} : Reachable v → Reachable v.accept.2
  | receive {v : Service σ Empty} (id : Nat) (input : Bytes) :
      Reachable v → Reachable (v.receive id input).2
  | hangUp {v : Service σ Empty} (id : Nat) : Reachable v → Reachable (v.hangUp id).2
  | act {v : Service σ Empty} (a : Action σ) :
      Reachable v → ¬ Tree.IsHandled a → Reachable (v.act (·.perform a)).2
  | newNode {v : Service σ Empty} (n : Node σ Empty) :
      Reachable v → n.IsNew → Reachable (v.act fun t => (t.addNode n).2).2

/-- Whatever the service comes to is shown by some traffic. -/
theorem Reachable.exists_run (h : Reachable v) :
    ∃ start s : Traffic σ, start.IsStart ∧ Run start s ∧ v.Mirrors s := by
  induction h with
  | @start t hreach hnone =>
      exact ⟨{ tree := t }, _, ⟨hreach, hnone, fun _ => rfl⟩, .start,
        rfl, nofun, List.nodup_nil, nofun, nofun, fun _ _ => rfl⟩
  | accept _ ih =>
      obtain ⟨start, s, hstart, hrun, hv⟩ := ih
      exact ⟨start, s, hstart, hrun, hv.accept⟩
  | receive id input _ ih =>
      obtain ⟨start, s, hstart, hrun, hv⟩ := ih
      obtain ⟨s', hrun', hv'⟩ := hv.receive id input
      exact ⟨start, s', hstart, hrun.trans hrun', hv'⟩
  | hangUp id _ ih =>
      obtain ⟨start, s, hstart, hrun, hv⟩ := ih
      obtain ⟨s', hrun', hv'⟩ := hv.hangUp id
      exact ⟨start, s', hstart, hrun.trans hrun', hv'⟩
  | act a _ ha ih =>
      obtain ⟨start, s, hstart, hrun, hv⟩ := ih
      obtain ⟨s', hrun', hv'⟩ := hv.act (·.perform a) (.others a) rfl ha
      exact ⟨start, s', hstart, hrun.trans hrun', hv'⟩
  | newNode n _ hn ih =>
      obtain ⟨start, s, hstart, hrun, hv⟩ := ih
      obtain ⟨s', hrun', hv'⟩ := hv.act (fun t => (t.addNode n).2) (.newNode n) rfl hn
      exact ⟨start, s', hstart, hrun.trans hrun', hv'⟩

/-- Every open handle of a service is that of exactly one of its connections, which is watching
through it, and no two connections watch the same node. -/
theorem service_holds_handles (h : Reachable v) :
    (∀ o ∈ v.tree.handles, ∃! id, ∃ c poll, (id, c) ∈ v.connections ∧
      c.phase = .watching o.handle poll) ∧
    (v.tree.handles.map (·.node)).Nodup := by
  obtain ⟨start, s, hstart, hrun, hv⟩ := h.exists_run
  have hs := hrun.balanced hstart.balanced
  rw [← hv.tree]
  refine ⟨?_, hs.reachable.matched.apart⟩
  intro o ho
  obtain ⟨id, hid⟩ := hs.assigned.held o ho
  obtain ⟨w, hw, hhandle⟩ := hs.exists_watch hid
  -- a connection that watches is one of the service's
  have hmem : id ∈ v.connections.map (·.1) := by
    by_contra hnot
    by_cases hlt : id < v.nextConnection
    · rw [hv.gone id hlt hnot] at hw
      cases hw
    · rw [hv.new id (Nat.le_of_not_lt hlt)] at hw
      cases hw
  obtain ⟨⟨id, c⟩, hc, rfl⟩ := List.mem_map.mp hmem
  have hshown := hv.phase _ hc
  rw [hw] at hshown
  generalize hphase : c.phase = phase at hshown
  cases hshown with
  | watching number poll entry =>
      refine ⟨id, ⟨c, poll, hc, hhandle ▸ hphase⟩, ?_⟩
      rintro other ⟨c', poll', hc', hphase'⟩
      have hshown' := hv.phase _ hc'
      rw [hphase'] at hshown'
      generalize hw' : s.stage other = stage at hshown'
      cases hshown' with
      | watching number' poll' entry' =>
          obtain ⟨o', -, hhandle', ho'⟩ := hs.exists_held hw'
          exact hs.assigned.apart other id o' o ho' hid hhandle'

end Service

end LiveTree
