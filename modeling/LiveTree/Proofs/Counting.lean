import LiveTree.Builtins
import LiveTree.Proofs.Failures
import LiveTree.Proofs.Numerals
import LiveTree.Proofs.Sinks

/-!
# Counting

The counter of heartbeats is a read-write node. A heartbeat moves it on, and a number that is
written to it takes its place. So on paper it is the last number written, or zero, and the
heartbeats since (`Change.count`), and a `Chronicle` of a run says which changes there have been:
the heartbeats, and those of the contents handed to its sink that are numbers.

The publisher's word for the counter is that number, modulo 2^64 (`Chronicle.ticks_eq`). For this
nothing else may touch the counter (`Tree.Counter`), which is so where it has just been published
(`counter_install`) and goes on being so whatever is done.
-/

namespace LiveTree

variable {σ ε : Type}

namespace Vitals.Slot

/-- What is put is there afterwards. -/
def Lawful (slot : Vitals.Slot σ) : Prop := ∀ v s, slot.get (slot.put v s) = v

/-- The counter. -/
def ticks (slot : Vitals.Slot σ) (s : σ) : UInt64 := (slot.get s).ticks

/-- The counter as its file serves it. -/
def served (slot : Vitals.Slot σ) (s : σ) : Bytes := .ofString (Builtins.tickText (slot.ticks s))

end Vitals.Slot

namespace Builtins

/-! ## Numbers that are written -/

/-- The number that a content stands for. -/
def number? (content : Bytes) : Option Nat :=
  match Text.Utf8.decode content with
  | .ok text => (readTicks text).toOption
  | .error _ => none

/-- It is a text that spells the number. -/
theorem number?_eq_some {content : Bytes} {n : Nat} : number? content = some n ↔
    ∃ text, Text.Utf8.decode content = .ok text ∧ Text.Spells text.toList n := by
  unfold number?
  rcases Text.Utf8.decode content with defect | text
  · simp
  · simp only [Except.ok.injEq, exists_eq_left', ← Text.readNumeral_trim_eq_ok, readTicks]
    rcases Text.readNumeral (Text.trim text.toList) with defect | count <;>
      simp [Except.toOption]

/-- An empty content is no number. -/
theorem number?_empty : number? #[] = none := by cbv

/-- The counter after a content has been handed to its sink. -/
def taken (ticks : UInt64) (content : Bytes) : UInt64 :=
  (number? content).elim ticks UInt64.ofNat

theorem taken_empty (ticks : UInt64) : taken ticks #[] = ticks := by
  rw [taken, number?_empty, Option.elim_none]

theorem foldl_taken_of_empty {contents : List Bytes} (h : ∀ content ∈ contents, content = #[])
    (ticks : UInt64) : contents.foldl taken ticks = ticks := by
  induction contents with
  | nil => rfl
  | cons content contents ih =>
      rw [List.forall_mem_cons] at h
      rw [List.foldl_cons, h.1, taken_empty, ih h.2]

/-- The sink takes numbers. Anything else changes nothing. -/
theorem tickSink_cases (slot : Vitals.Slot σ) (content : Bytes) (s : σ) :
    (∃ count, number? content = some count ∧ tickSink slot content s =
      (.ok (), slot.put { slot.get s with ticks := UInt64.ofNat count } s)) ∨
    (∃ failure, number? content = none ∧ tickSink slot content s = (.error failure, s)) := by
  unfold number? tickSink Sink.ofText
  rcases Text.Utf8.decode content with defect | text
  · exact .inr ⟨_, rfl, rfl⟩
  · dsimp only
    rcases readTicks text with defect | count
    · exact .inr ⟨_, rfl, rfl⟩
    · exact .inl ⟨count, rfl, rfl⟩

theorem ticks_tickSink {slot : Vitals.Slot σ} (hslot : slot.Lawful) (content : Bytes) (s : σ) :
    slot.ticks (tickSink slot content s).2 = taken (slot.ticks s) content := by
  unfold taken
  rcases tickSink_cases slot content s with ⟨count, hnumber, hsink⟩ | ⟨failure, hnumber, hsink⟩
  · rw [hnumber, hsink]
    simp [Vitals.Slot.ticks, hslot _ _]
  · rw [hnumber, hsink]
    rfl

/-- A content that the sink refuses changes nothing. -/
theorem tickSink_of_error {slot : Vitals.Slot σ} {content : Bytes} {s : σ} {failure : Failure}
    (h : (tickSink slot content s).1 = .error failure) : (tickSink slot content s).2 = s := by
  rcases tickSink_cases slot content s with ⟨count, -, hsink⟩ | ⟨failure, -, hsink⟩
  · rw [hsink] at h
    cases h
  · rw [hsink]

/-! ## Changes -/

/-- What changes the counter. -/
inductive Change where
  | beat
  /-- A number is written. -/
  | set (number : Nat)

namespace Change

/-- What the changes come to, the latest first: the last number written, or zero, and the heartbeats
since. -/
def count : List Change → Nat
  | [] => 0
  | .beat :: earlier => count earlier + 1
  | .set number :: _ => number

/-- The changes that contents make, one handed after the other. The latest comes first. -/
def ofContents (contents : List Bytes) : List Change :=
  contents.reverse.filterMap fun content => (number? content).map .set

/-- Contents are counted one by one. -/
theorem count_ofContents (contents : List Bytes) (earlier : List Change) :
    UInt64.ofNat (count (ofContents contents ++ earlier)) =
      contents.foldl taken (UInt64.ofNat (count earlier)) := by
  induction contents generalizing earlier with
  | nil => rfl
  | cons content contents ih =>
      have hfirst : ofContents (content :: contents) ++ earlier =
          ofContents contents ++ (((number? content).map set).toList ++ earlier) := by
        rcases hnumber : number? content with _ | number <;> simp [ofContents, hnumber]
      rw [hfirst, ih, List.foldl_cons, taken]
      rcases number? content with _ | number <;> rfl

end Change

end Builtins

open Builtins

/-! ## Trees with the counter -/

/-- Neither the provider nor the sink of the node changes the counter. -/
structure Node.Spares (slot : Vitals.Slot σ) (n : Node σ ε) : Prop where
  supply : ∀ p, n.provider? = some p → ∀ infos s, slot.ticks (p.supply infos s).2 = slot.ticks s
  store : ∀ sink, n.sink? = some sink → ∀ content s, slot.ticks (sink content s).2 = slot.ticks s

/-- The node serves the counter. Its counts and its session agree. -/
structure ReadWrite.IsCounter (slot : Vitals.Slot σ) (n : ReadWrite σ) : Prop where
  provider : n.provider = .ofText fun s => tickText (slot.ticks s)
  sink : n.sink = tickSink slot
  tuned : ∃ signs, n.Attuned (latestNews signs)

/-- Whatever is done to the node, it goes on serving the counter. -/
theorem ReadWrite.IsCounter.step {slot : Vitals.Slot σ} {n m : ReadWrite σ} {sign : Sign}
    (h : n.IsCounter slot) (hstep : ReadWrite.Step sign n m) : m.IsCounter slot := by
  obtain ⟨hprovider, hsink⟩ := Node.provider?_step (ε := Empty) (.readWrite hstep)
  obtain ⟨signs, hattuned⟩ := h.tuned
  exact ⟨(Option.some.inj hprovider).trans h.provider, (Option.some.inj hsink).trans h.sink,
    sign :: signs, attuned_step hattuned hstep⟩

/-- The counter after a call of a provider or a sink, where nothing else touches it. -/
def Builtins.called (tick : NodeRef) (ticks : UInt64) : Call → UInt64
  | .supply _ => ticks
  | .store ref content => if ref = tick then taken ticks content else ticks

theorem Builtins.called_empty (tick : NodeRef) (ticks : UInt64) (ref : NodeRef) :
    called tick ticks (.store ref #[]) = ticks := by
  rw [called, taken_empty, ite_self]

/-- Of all calls only the contents for the counter matter. -/
theorem Builtins.foldl_called (tick : NodeRef) (made : List Call) (ticks : UInt64) :
    made.foldl (called tick) ticks = (Call.stores tick made).foldl taken ticks := by
  induction made generalizing ticks with
  | nil => rfl
  | cons call made ih =>
      rw [List.foldl_cons, ih]
      cases call with
      | supply ref => rfl
      | store ref content =>
          by_cases he : ref = tick <;> simp [called, Call.stores, Call.stored?, he]

namespace Tree

/-- A node serves the counter, and no other node touches it. -/
structure Counter (slot : Vitals.Slot σ) (tick : NodeRef) (t : Tree σ ε) : Prop where
  node : ∃ n, t.node? tick = some (.readWrite n) ∧ n.IsCounter slot
  spares : ∀ ref n, ref ≠ tick → t.node? ref = some n → n.Spares slot

variable {slot : Vitals.Slot σ} {tick : NodeRef} {t t' : Tree σ ε} {n : ReadWrite σ}

theorem Counter.isCounter (h : t.Counter slot tick) (hn : t.node? tick = some (.readWrite n)) :
    n.IsCounter slot := by
  obtain ⟨m, hm, hcounter⟩ := h.node
  rw [hn] at hm
  cases hm
  exact hcounter

variable [Foreign ε] {free : NodeRef → Prop} {trace : Trace}

omit [Foreign ε] in
theorem Counter.moves (h : t.Counter slot tick) (hmoves : Moves t t') : t'.Counter slot tick := by
  refine ⟨?_, ?_⟩
  · obtain ⟨n, hn, hcounter⟩ := h.node
    exact hmoves.readWrite (fun _ _ _ h hstep => h.step hstep) hn hcounter
  · intro ref m hne hm
    obtain ⟨n, hn, hprovider, hsink⟩ := hmoves.calls_same hm
    have hspares := h.spares ref n hne hn
    exact ⟨hprovider ▸ hspares.supply, hsink ▸ hspares.store⟩

omit [Foreign ε] in
/-- The counter changes with the contents that its own sink is handed, and with no other call. -/
theorem Counter.follows (h : t.Counter slot tick) (hslot : slot.Lawful) :
    t.Follows slot.ticks (called tick) := by
  obtain ⟨n, hn, hcounter⟩ := h.node
  refine ⟨?_, ?_⟩
  · intro ref m p hm hp infos s
    by_cases he : ref = tick
    · subst he
      rw [hn] at hm
      cases hm
      cases hp
      rw [hcounter.provider]
      rfl
    · exact (h.spares ref m he hm).supply p hp infos s
  · intro ref m sink hm hsink content s
    by_cases he : ref = tick
    · subst he
      rw [hn] at hm
      cases hm
      cases hsink
      rw [hcounter.sink, called, if_pos rfl]
      exact ticks_tickSink hslot content s
    · rw [called, if_neg he]
      exact (h.spares ref m he hm).store sink hsink content s

/-- The counter's provider supplies the counter, and does nothing else. -/
theorem provide_counter (t : Tree σ ε) (h : n.IsCounter slot) :
    t.provide n.provider = (.ok (slot.served t.publisher), t) := by
  rw [h.provider]
  rfl

/-- An open of the counter is refused, or its session is handed the count to read. -/
theorem openNode_counter (hn : t.node? tick = some (.readWrite n)) (h : n.IsCounter slot)
    (path : String) (access : Access) :
    (∃ fault, t.openNode tick path access = (.error fault, t)) ∨
    ∃ content, (access.read = true → content = slot.served t.publisher) ∧
      t.openNode tick path access = (.ok (), t.startSession tick path access content) := by
  unfold openNode
  rw [hn]
  dsimp only
  rcases hp : (Node.readWrite n : Node σ ε).permit t.publisher path access with fault | source
  · exact .inl ⟨fault, rfl⟩
  · obtain ⟨-, -, -, rfl⟩ := ReadWrite.permit_eq_ok hp
    right
    rcases access.read with _ | _
    · exact ⟨#[], nofun, rfl⟩
    · have hsupplied : t.fetch (.provided n.provider) = (.ok (slot.served t.publisher), t) :=
        t.provide_counter h
      refine ⟨_, fun _ => rfl, ?_⟩
      dsimp only
      rw [if_pos rfl, hsupplied]

/-- The counter is announced if it is not the last value anyway. -/
theorem notify_counter (hn : t.node? tick = some (.readWrite n)) (h : n.IsCounter slot) :
    (n.published.last = some (slot.served t.publisher) ∧ t.notify tick = (.ok false, t)) ∨
    (n.published.last ≠ some (slot.served t.publisher) ∧ ∃ e, t.notify tick =
      (.ok true, (t.setNode tick (.readWrite { n with published := { n.published with
        last := some (slot.served t.publisher)
        generation := n.published.generation + 1 } })).report e)) := by
  rcases notify_of_provide hn (t.provide_counter h) hn with ⟨hsame, hquiet⟩ | ⟨m, ha, e, hloud⟩
  · exact .inl ⟨ReadWrite.announce?_eq_none.mp hsame, hquiet⟩
  · obtain ⟨hnews, rfl⟩ := ReadWrite.announce?_eq_some ha
    exact .inr ⟨hnews, e, hloud⟩

/-- Strokes change the counter by the contents that they make due for its sink. -/
theorem Counter.ticks_strokes (h : t.Counter slot tick) (hslot : slot.Lawful)
    (hn : t.node? tick = some (.readWrite n))
    (hstrokes : Strokes (Unseen slot.ticks) free trace t t') :
    slot.ticks t'.publisher =
      (ReadWrite.handed n.draft? (trace.marks tick)).foldl taken (slot.ticks t.publisher) := by
  obtain ⟨made, ⟨-, hdue⟩, hmade⟩ := hstrokes.follows (h.follows hslot)
  rw [hmade, foldl_called, hdue tick n hn]

end Tree

/-! ## The built-in nodes -/

namespace Builtins

variable {slot : Vitals.Slot σ}

/-- A content that is only read leaves the publisher alone. -/
theorem spares_readOnly {n : ReadOnly σ} (h : ∀ infos s, (n.provider.supply infos s).2 = s) :
    (Node.readOnly n : Node σ ε).Spares slot where
  supply := by
    rintro p ⟨⟩ infos s
    rw [h]
  store := nofun

/-- The message of the day is kept beside the counter. -/
theorem spares_motdNode (hslot : slot.Lawful) (root : String) :
    (Node.readWrite (motdNode slot root) : Node σ ε).Spares slot where
  supply := by
    rintro p ⟨⟩ infos s
    rfl
  store := by
    rintro sink ⟨⟩ content s
    unfold motdNode motdSink Sink.ofText
    dsimp only
    split
    · simp [Vitals.Slot.ticks, hslot _ _]
    · rfl

theorem spares_keyStore (n : KeyStore σ) : (Node.keyStore n : Node σ ε).Spares slot where
  supply := nofun
  store := nofun

/-- The counter's node serves the counter. -/
theorem isCounter_tickNode (slot : Vitals.Slot σ) (root : String) :
    (tickNode slot root).IsCounter slot where
  provider := by
    unfold tickNode
    rfl
  sink := by
    unfold tickNode
    rfl
  tuned := ⟨[], ReadWrite.attuned_of_idle rfl rfl⟩

variable [Foreign ε] {root : String} {t : Tree σ ε}

theorem nodes_registerAll (t : Tree σ ε) (nodes : List (Node σ ε)) :
    (registerAll t nodes).2.nodes = t.nodes ++ nodes := by
  induction nodes generalizing t with
  | nil => simp [registerAll]
  | cons n rest ih =>
      have hregister : ∀ ref, ((t.addNode n).2.register ref).2.nodes = t.nodes ++ [n] := by
        intro ref
        unfold Tree.register
        dsimp only
        split <;> rfl
      simp only [registerAll]
      rw [ih, hregister, List.append_assoc, List.singleton_append]

theorem publisher_registerAll (t : Tree σ ε) (nodes : List (Node σ ε)) :
    (registerAll t nodes).2.publisher = t.publisher := by
  induction nodes generalizing t with
  | nil => rfl
  | cons n rest ih =>
      have hregister : ∀ ref, ((t.addNode n).2.register ref).2.publisher = t.publisher := by
        intro ref
        unfold Tree.register
        dsimp only
        split <;> rfl
      simp only [registerAll]
      rw [ih, hregister]

theorem numbered_registerAll {t : Tree σ ε} (h : t.Numbered) (nodes : List (Node σ ε)) :
    (registerAll t nodes).2.Numbered := by
  induction nodes generalizing t with
  | nil => exact h
  | cons n rest ih =>
      have hadded : (t.addNode n).2.Numbered := h
      exact ih ((Tree.proceeds_register _ _).numbered hadded)

theorem nodes_install (slot : Vitals.Slot σ) (t : Tree σ ε) (root : String) :
    (install slot t root).2.nodes = t.nodes ++
      [.readOnly (versionNode (Path.clean root)), .readOnly (uptimeNode slot (Path.clean root)),
        .readOnly (nodesNode (Path.clean root)), .readWrite (motdNode slot (Path.clean root)),
        .readWrite (tickNode slot (Path.clean root)),
        .keyStore (stateNode (Path.clean root))] := by
  unfold install
  exact nodes_registerAll t _

theorem publisher_install (slot : Vitals.Slot σ) (t : Tree σ ε) (root : String) :
    (install slot t root).2.publisher = t.publisher := by
  unfold install
  exact publisher_registerAll t _

theorem numbered_install (h : t.Numbered) (slot : Vitals.Slot σ) (root : String) :
    (install slot t root).2.Numbered := by
  unfold install
  exact numbered_registerAll h _

theorem node?_install (slot : Vitals.Slot σ) (t : Tree σ ε) (root : String) :
    (install slot t root).2.node? (install slot t root).1.tick =
      some (.readWrite (tickNode slot (Path.clean root))) := by
  have htick : (install slot t root).1.tick = ⟨t.nodes.length + 4⟩ := rfl
  rw [htick, Tree.node?, nodes_install, List.getElem?_append_right (Nat.le_add_right _ _)]
  simp

/-- Where the built-in nodes have just been published, the counter is there. -/
theorem counter_install (hslot : slot.Lawful)
    (hspares : ∀ ref n, t.node? ref = some n → n.Spares slot) :
    (install slot t root).2.Counter slot (install slot t root).1.tick := by
  refine ⟨⟨_, node?_install slot t root, isCounter_tickNode slot _⟩, ?_⟩
  rintro ⟨i⟩ n hne hn
  rw [Tree.node?, nodes_install] at hn
  rcases Nat.lt_or_ge i t.nodes.length with hold | hnew
  · rw [List.getElem?_append_left hold] at hn
    exact hspares ⟨i⟩ n hn
  · obtain ⟨k, rfl⟩ := Nat.exists_eq_add_of_le hnew
    rw [List.getElem?_append_right hnew, Nat.add_sub_cancel_left] at hn
    rcases k with _ | _ | _ | _ | _ | _ | k
    · cases hn
      exact spares_readOnly fun _ _ => rfl
    · cases hn
      exact spares_readOnly fun _ _ => rfl
    · cases hn
      exact spares_readOnly fun _ _ => rfl
    · cases hn
      exact spares_motdNode hslot _
    · exact absurd rfl hne
    · cases hn
      exact spares_keyStore _
    · cases hn

end Builtins

/-! ## Runs -/

/-- What is done to a tree with the built-in nodes. -/
inductive Occasion (σ : Type) where
  | heartbeat
  | use (u : Use σ)

/-- What the publisher itself does leaves the counter alone, heartbeats apart. -/
def Occasion.Quiet (slot : Vitals.Slot σ) : Occasion σ → Prop
  | .heartbeat => True
  | .use u => u.Quiet (Tree.Unseen slot.ticks)

namespace Builtins

variable [Foreign ε] {slot : Vitals.Slot σ} {b : Builtins} {t t' first : Tree σ ε}
  {n : ReadWrite σ}

/-- The tree with the counter moved on. -/
def advanced (slot : Vitals.Slot σ) (t : Tree σ ε) : Tree σ ε :=
  update slot t fun v => { v with ticks := v.ticks + 1 }

/-- The tree after the occasion. -/
def happen (slot : Vitals.Slot σ) (b : Builtins) (t : Tree σ ε) : Occasion σ → Tree σ ε
  | .heartbeat => (heartbeat slot b t).2
  | .use u => t.use u

/-- The tree after some occasions. -/
def run (slot : Vitals.Slot σ) (b : Builtins) (t : Tree σ ε) (occasions : List (Occasion σ)) :
    Tree σ ε :=
  occasions.foldl (happen slot b) t

theorem run_append (slot : Vitals.Slot σ) (b : Builtins) (t : Tree σ ε)
    (occasions later : List (Occasion σ)) :
    run slot b t (occasions ++ later) = run slot b (run slot b t occasions) later :=
  List.foldl_append

theorem run_append_singleton (slot : Vitals.Slot σ) (b : Builtins) (t : Tree σ ε)
    (occasions : List (Occasion σ)) (o : Occasion σ) :
    run slot b t (occasions ++ [o]) = happen slot b (run slot b t occasions) o :=
  run_append slot b t occasions [o]

/-- What has become of `first` by these occasions, and what changes of the counter there have been,
the latest first. What the sink of the counter has been handed is told by the marks of the strokes
that a use is made of. -/
inductive Chronicle (slot : Vitals.Slot σ) (b : Builtins) (first : Tree σ ε) :
    List (Occasion σ) → List Change → Tree σ ε → Prop where
  | start : Chronicle slot b first [] [] first
  | heartbeat {occasions : List (Occasion σ)} {changes : List Change} {t : Tree σ ε} :
      Chronicle slot b first occasions changes t →
      Chronicle slot b first (occasions ++ [.heartbeat]) (.beat :: changes) (heartbeat slot b t).2
  | use {occasions : List (Occasion σ)} {changes : List Change} {t : Tree σ ε} {u : Use σ}
      {trace : Trace} {n : ReadWrite σ} (hn : t.node? b.tick = some (.readWrite n))
      (hstrokes : Tree.Strokes (Tree.Unseen slot.ticks) (fun _ => True) trace t (t.use u))
      (hdeeds : trace.deeds = t.deedsOfUse u) :
      Chronicle slot b first occasions changes t →
      Chronicle slot b first (occasions ++ [.use u])
        (Change.ofContents (ReadWrite.handed n.draft? (trace.marks b.tick)) ++ changes) (t.use u)

/-! ### The counter goes on being there -/

theorem moves_happen (slot : Vitals.Slot σ) (b : Builtins) (t : Tree σ ε) (o : Occasion σ) :
    Tree.Moves t (happen slot b t o) := by
  cases o with
  | heartbeat =>
      have hupdated : Tree.Moves t (advanced slot t) := .of_nodes rfl
      exact hupdated.trans (Tree.moves_perform _ (.notify b.tick))
  | use u =>
      obtain ⟨trace, hstrokes, -⟩ :=
        Tree.course_use t u (.of_all (fun _ => trivial) u) (fun _ _ => trivial)
      exact hstrokes.moves

theorem proceeds_happen (slot : Vitals.Slot σ) (b : Builtins) (t : Tree σ ε) (o : Occasion σ) :
    Tree.Proceeds t (happen slot b t o) := by
  cases o with
  | heartbeat =>
      have hupdated : Tree.Proceeds t (advanced slot t) := .of_books rfl
      exact hupdated.trans (Tree.proceeds_notify _ b.tick)
  | use u => exact Tree.proceeds_use t u

/-! ### The counter is the count -/

theorem heartbeat_eq (slot : Vitals.Slot σ) (b : Builtins) (t : Tree σ ε) :
    heartbeat slot b t = (advanced slot t).notify b.tick := rfl

omit [Foreign ε] in
theorem ticks_advanced (hslot : slot.Lawful) (t : Tree σ ε) :
    slot.ticks (advanced slot t).publisher = slot.ticks t.publisher + 1 := by
  simp [advanced, update, Vitals.Slot.ticks, hslot _ _]

/-- A heartbeat moves the counter on, whether it is announced or not. -/
theorem ticks_heartbeat (hslot : slot.Lawful) (h : t.Counter slot b.tick) :
    slot.ticks (heartbeat slot b t).2.publisher = slot.ticks t.publisher + 1 := by
  obtain ⟨n, hn, hcounter⟩ := h.node
  have hn' : (advanced slot t).node? b.tick = some (.readWrite n) := hn
  rw [heartbeat_eq, ← ticks_advanced hslot]
  rcases Tree.notify_counter hn' hcounter with ⟨-, hquiet⟩ | ⟨-, e, hloud⟩
  · rw [hquiet]
  · rw [hloud]
    rfl

theorem moves_run (slot : Vitals.Slot σ) (b : Builtins) (t : Tree σ ε)
    (occasions : List (Occasion σ)) : Tree.Moves t (run slot b t occasions) := by
  induction occasions using List.reverseRecOn with
  | nil => exact .refl t
  | append_singleton occasions o ih =>
      rw [run_append_singleton]
      exact ih.trans (moves_happen slot b _ o)

/-- Every run has a chronicle. -/
theorem exists_chronicle (h : first.Counter slot b.tick) {occasions : List (Occasion σ)}
    (hquiet : ∀ o ∈ occasions, o.Quiet slot) :
    ∃ changes, Chronicle slot b first occasions changes (run slot b first occasions) := by
  induction occasions using List.reverseRecOn with
  | nil => exact ⟨[], .start⟩
  | append_singleton occasions o ih =>
      rw [List.forall_mem_append] at hquiet
      obtain ⟨changes, hchronicle⟩ := ih hquiet.1
      rw [run_append_singleton]
      cases o with
      | heartbeat => exact ⟨_, hchronicle.heartbeat⟩
      | use u =>
          obtain ⟨n, hn, -⟩ := (h.moves (moves_run slot b first occasions)).node
          have hu : u.Quiet (Tree.Unseen slot.ticks) := hquiet.2 _ List.mem_cons_self
          obtain ⟨trace, hstrokes, hdeeds⟩ :=
            Tree.course_use (run slot b first occasions) u hu (fun _ _ => trivial)
          exact ⟨_, hchronicle.use hn hstrokes hdeeds⟩

/-- Whatever its chronicle, the counter is what the changes come to, in 64 bits. -/
theorem Chronicle.ticks_eq (hslot : slot.Lawful) (h : first.Counter slot b.tick)
    (hzero : slot.ticks first.publisher = 0) {occasions : List (Occasion σ)}
    {changes : List Change} (hchronicle : Chronicle slot b first occasions changes t) :
    t.Counter slot b.tick ∧ slot.ticks t.publisher = UInt64.ofNat (Change.count changes) := by
  induction hchronicle with
  | start => exact ⟨h, hzero⟩
  | heartbeat _ ih =>
      obtain ⟨hcounter, hticks⟩ := ih
      refine ⟨hcounter.moves (moves_happen slot b _ .heartbeat), ?_⟩
      rw [ticks_heartbeat hslot hcounter, hticks, Change.count, UInt64.ofNat_add]
      rfl
  | @use _ changes t u trace n hn hstrokes _ _ ih =>
      obtain ⟨hcounter, hticks⟩ := ih
      refine ⟨hcounter.moves hstrokes.moves, ?_⟩
      rw [hcounter.ticks_strokes hslot hn hstrokes, hticks, Change.count_ofContents]

end Builtins

end LiveTree
