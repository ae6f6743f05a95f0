import LiveTree.Connection
import LiveTree.Proofs.News
import LiveTree.Proofs.Reading
import Mathlib.Logic.Function.Iterate

/-!
# A watch step by step

A watch opens its file, waits for an announcement, reads the value by chunks through its handle
and closes the handle with its reply. Between any two of these steps anything may happen to the
tree: the publisher announces further values, other connections come and go, registrations are
removed, and the client may take the watch back. A `Delivery` is what there is in such a moment,
with an account of the values announced since the session began.

Whose turn it is is not determined. A turn belongs to the watch, to its client, or to others, who
may do anything to the tree but wait in the session of the watch, whose handle they do not have. To
read a chunk is one step, and so is to be let through and to read the first chunk. Given all turns,
a watch is what a connection makes of it (`beginWatch_alone`, `settle_alone`), and a turn of the
client is what the connection does about a line or the end of the input (`serveLine_alone`,
`finish_alone`).
-/

namespace LiveTree

variable {σ ε : Type}

/-! ## Watches in progress -/

/-- How far a watch has come. -/
inductive Errand.Stage where
  | opened
  | waiting (poll : Poll)
  /-- These octets have been read, and others may follow. -/
  | reading (got : Bytes)
  /-- The poll is over, and the reply is not written yet. -/
  | answered (result : Except Fault Bytes)
  /-- The watch is over, with this reply or with none. -/
  | finished (reply : Option Bytes)

/-- A watch of a read-write node. -/
structure Errand where
  handle : Handle
  node : NodeRef
  /-- The number of the session that the watch has opened. -/
  number : Nat
  stage : Errand.Stage := .opened
  /-- The values that the node has announced since then, the latest first. -/
  said : List Bytes := []

/-- A watch, and the tree it is served from. -/
structure Delivery (σ ε : Type) extends Errand where
  tree : Tree σ ε

variable [Foreign ε]

/-- What the provider of a read-write node supplies now. -/
def Tree.supplied? (t : Tree σ ε) (ref : NodeRef) : Option Bytes :=
  match t.node? ref with
  | some (.readWrite n) => (t.provide n.provider).1.toOption
  | _ => none

/-- The value that the action announces at the node: one if it is told that it was, or none. -/
def Tree.announcedBy (t : Tree σ ε) (ref : NodeRef) : Action σ → List Bytes
  | .notify other =>
    match (t.notify other).1 with
    | .ok true => if other = ref then (t.supplied? ref).toList else []
    | _ => []
  | _ => []

namespace Delivery

/-- Opens the file of a watch; `none` if that is refused, or if the file is none to wait for. -/
def begin? (t : Tree σ ε) (path : String) : Option (Delivery σ ε) :=
  match t.openFile path .reading with
  | (.error _, _) => none
  | (.ok handle, t) =>
    match t.handle? handle with
    | none => none
    | some o => (t.liveSession? o.node).map fun session =>
      { tree := t, handle, node := o.node, number := session.number }

/-- Closes the handle of the watch, which is over. -/
def close (s : Delivery σ ε) (reply : Option Bytes) : Delivery σ ε :=
  { s with tree := Connection.closeQuietly s.tree s.handle, stage := .finished reply }

/-- Goes on with the watch: begins its poll, looks whether the reader is let through and reads the
first chunk, reads another chunk, or writes the reply. -/
def goOn (s : Delivery σ ε) : Delivery σ ε :=
  match s.stage with
  | .opened =>
    let (start, t) := s.tree.longPollAll s.handle
    { s with
      tree := t
      stage := match start with
        | .answered result => .answered result
        | .waiting poll => .waiting poll }
  | .waiting poll =>
    match s.tree.wake? poll with
    | none => s
    | some (.error fault, t) => { s with tree := t, stage := .answered (.error fault) }
    | some (.ok (), t) =>
      match Tree.readRange (t.nodeReader poll.node) 0 readChunk with
      | .error fault => { s with tree := t, stage := .answered (.error fault) }
      | .ok first =>
        { s with
          tree := t
          stage := if first.size < readChunk then .answered (.ok first) else .reading first }
  | .reading got =>
    match s.tree.read s.handle got.size readChunk with
    | .error fault => { s with stage := .answered (.error fault) }
    | .ok part =>
      { s with stage := if part.size = 0 then .answered (.ok got) else .reading (got ++ part) }
  | .answered result => s.close (some (Reply.ofResult Reply.data result))
  | .finished _ => s

/-- The client takes the watch back, by a line or by hanging up. -/
def cancel (s : Delivery σ ε) (reply : Option Bytes) : Delivery σ ε :=
  match s.stage with
  | .finished _ => s
  | _ => s.close reply

/-- What a line is answered with that cancels a watch. -/
def replyTo (line : Bytes) : Option Bytes :=
  match Text.Utf8.decode line with
  | .error _ => none
  | .ok _ => some (Reply.fault .noSession)

/-- Who is next, and with what. -/
inductive Turn (σ ε : Type) where
  | watch
  | line (line : Bytes)
  | hangUp
  | others (a : Action σ)
  | newNode (n : Node σ ε)

/-- The delivery after a turn. -/
def turn (s : Delivery σ ε) : Turn σ ε → Delivery σ ε
  | .watch => s.goOn
  | .line line => s.cancel (replyTo line)
  | .hangUp => s.cancel none
  | .others a =>
    { s with tree := s.tree.perform a, said := s.tree.announcedBy s.node a ++ s.said }
  | .newNode n => { s with tree := (s.tree.addNode n).2 }

/-- Nobody else waits in the session of the watch: who has its handle is the watch alone. -/
def Allows (s : Delivery σ ε) : Turn σ ε → Prop
  | .others (.look p) => ¬ (p.node = s.node ∧ p.ticket.session = s.number)
  | .newNode n => n.IsNew
  | _ => True

/-- What a watch may come to. -/
inductive Run (start : Delivery σ ε) : Delivery σ ε → Prop where
  | start : Run start start
  | turn {s : Delivery σ ε} (next : Turn σ ε) :
      Run start s → s.Allows next → Run start (s.turn next)

/-- The poll of the watch is not over. -/
def IsPending (s : Delivery σ ε) : Prop :=
  match s.stage with
  | .opened | .waiting _ | .reading _ => True
  | .answered _ | .finished _ => False

/-! ## Watches that are left to themselves -/

variable {s : Delivery σ ε}

/-- Left to itself, the watch comes to this reply. -/
def ComesTo (s : Delivery σ ε) (reply : Bytes) : Prop :=
  ∃ k, (goOn^[k] s).stage = .finished (some reply)

theorem ComesTo.of_goOn {reply : Bytes} (h : s.goOn.ComesTo reply) : s.ComesTo reply := by
  obtain ⟨k, hk⟩ := h
  exact ⟨k + 1, hk⟩

theorem comesTo_of_answered {result : Except Fault Bytes} (h : s.stage = .answered result) :
    s.ComesTo (Reply.ofResult Reply.data result) := by
  refine ⟨1, ?_⟩
  rw [Function.iterate_one, goOn, h]
  rfl

/-- Left to itself, a watch that has begun to read reads all that is left. -/
theorem reading_alone {got : Bytes} (hstage : s.stage = .reading got) :
    ∃ k, goOn^[k] s = { s with
      stage := .answered ((s.tree.reader s.handle).drainOnto got got.size) } := by
  generalize hreader : s.tree.reader s.handle = r
  generalize hposition : got.size = position
  induction got, position using Reader.drainOnto.induct r generalizing s with
  | case1 got position fault hread =>
      refine ⟨1, ?_⟩
      subst hposition
      rw [Function.iterate_one, goOn, hstage, Reader.drainOnto_eq, hread]
      simp only [Tree.read, hreader, hread]
  | case2 got position part hread hend =>
      refine ⟨1, ?_⟩
      subst hposition
      rw [Function.iterate_one, goOn, hstage, Reader.drainOnto_eq, hread]
      simp only [Tree.read, hreader, hread, hend, if_true]
  | case3 got position part hread hmore ih =>
      subst hposition
      have hgoOn : s.goOn = { s with stage := .reading (got ++ part) } := by
        rw [goOn, hstage]
        simp only [Tree.read, hreader, hread, hmore, if_false]
      have hdrain : r.drainOnto got got.size =
          r.drainOnto (got ++ part) (got.size + part.size) := by
        rw [Reader.drainOnto_eq, hread]
        simp only [hmore, if_false]
      obtain ⟨k, hk⟩ := ih (s := s.goOn) (by rw [hgoOn]) (by rw [hgoOn]; exact hreader)
        Array.size_append
      refine ⟨k + 1, ?_⟩
      rw [Function.iterate_succ_apply, hk, hgoOn, hdrain]

/-- Left to itself, a watch that waits gets the answer of its poll. -/
theorem waiting_alone {p : Poll} (hstage : s.stage = .waiting p) (hgoal : p.goal = .whole s.handle)
    {result : Except Fault Bytes} {t : Tree σ ε}
    (hfinish : s.tree.finish? p = some (result, t)) :
    ∃ k, goOn^[k] s = { s with tree := t, stage := .answered result } := by
  rcases hwake : s.tree.wake? p with _ | ⟨fault | ⟨⟩, t'⟩
  · simp [Tree.finish?, hwake] at hfinish
  · simp only [Tree.finish?, hwake, Option.some.injEq, Prod.mk.injEq] at hfinish
    obtain ⟨rfl, rfl⟩ := hfinish
    refine ⟨1, ?_⟩
    simp only [Function.iterate_one, goOn, hstage, hwake]
  · simp only [Tree.finish?, hwake, Option.some.injEq, Prod.mk.injEq, hgoal, Tree.harvest,
      Tree.readWhole] at hfinish
    obtain ⟨hresult, rfl⟩ := hfinish
    rcases hfirst : Tree.readRange (t'.nodeReader p.node) 0 readChunk with fault | first
    · rw [hfirst] at hresult
      cases hresult
      refine ⟨1, ?_⟩
      simp only [Function.iterate_one, goOn, hstage, hwake, hfirst]
    · rw [hfirst] at hresult
      dsimp only at hresult
      have hgoOn : s.goOn = { s with
          tree := t'
          stage := if first.size < readChunk then .answered (.ok first) else .reading first } := by
        simp only [goOn, hstage, hwake, hfirst]
      split at hresult
      · next hshort =>
        cases hresult
        rw [if_pos hshort] at hgoOn
        exact ⟨1, hgoOn⟩
      · next hfull =>
        rw [if_neg hfull] at hgoOn
        have hreading : s.goOn.stage = .reading first := by rw [hgoOn]
        obtain ⟨k, hk⟩ := reading_alone hreading
        refine ⟨k + 1, ?_⟩
        rw [Function.iterate_succ_apply, hk, hgoOn]
        -- draining behind the first chunk is draining onto it
        have hdrain := Reader.drainOnto_append (t'.reader s.handle) first #[] first.size
        rw [Array.append_empty] at hdrain
        rw [hdrain, ← hresult]
        rfl

/-- Left to itself, a watch that has its answer writes it. So a watch that waits is `settle`. -/
theorem settle_alone {p : Poll} (hstage : s.stage = .waiting p) (hgoal : p.goal = .whole s.handle)
    {result : Except Fault Bytes} {t : Tree σ ε} (hfinish : s.tree.finish? p = some (result, t))
    (received : Bytes) :
    ∃ k, (goOn^[k] s).stage = .finished (some (Reply.ofResult Reply.data result)) ∧
      Connection.settle s.tree ⟨.watching s.handle p, received⟩ =
        (Reply.ofResult Reply.data result, ⟨.idle, received⟩, (goOn^[k] s).tree) := by
  obtain ⟨k, hk⟩ := waiting_alone hstage hgoal hfinish
  refine ⟨k + 1, ?_⟩
  rw [Function.iterate_succ_apply', hk]
  refine ⟨rfl, ?_⟩
  simp only [Connection.settle, hfinish]
  rfl

/-- What begins a watch is its first turn, and its second if the answer is there at once. -/
theorem beginWatch_alone {t : Tree σ ε} {path : String} (h : begin? t path = some s) :
    (∃ p, s.goOn.stage = .waiting p ∧
      Connection.beginWatch t path = (#[], .watching s.handle p, s.goOn.tree)) ∨
    ∃ result, s.goOn.stage = .answered result ∧
      Connection.beginWatch t path =
        (Reply.ofResult Reply.data result, .idle, s.goOn.goOn.tree) := by
  unfold begin? at h
  split at h
  · cases h
  · next handle opened ho =>
    split at h
    · cases h
    · next o hentry =>
      obtain ⟨session, -, rfl⟩ := Option.map_eq_some_iff.mp h
      rcases hpoll : opened.longPollAll handle with ⟨result | p, t'⟩
      · refine .inr ⟨result, ?_, ?_⟩
        · simp only [goOn, hpoll]
        · simp only [Connection.beginWatch, ho, hpoll, goOn]
          rfl
      · refine .inl ⟨p, ?_, ?_⟩
        · simp only [goOn, hpoll]
        · simp only [Connection.beginWatch, ho, hpoll, goOn]

/-- What a line does to a watch that waits is a turn of the client. -/
theorem serveLine_alone {p : Poll} (hstage : s.stage = .waiting p) (line : Bytes) :
    ∃ phase, (s.turn (.line line)).stage = .finished (replyTo line) ∧
      Connection.serveLine s.tree (.watching s.handle p) line =
        ((replyTo line).getD #[], phase, (s.turn (.line line)).tree) := by
  have hturn : s.turn (.line line) = s.close (replyTo line) := by
    simp only [turn, cancel, hstage]
  rw [hturn]
  rcases hdecode : Text.Utf8.decode line with fault | text
  · refine ⟨.closed, rfl, ?_⟩
    simp only [Connection.serveLine, replyTo, hdecode]
    rfl
  · refine ⟨.idle, rfl, ?_⟩
    simp only [Connection.serveLine, replyTo, hdecode]
    rfl

/-- So is the end of the client's input. -/
theorem finish_alone {p : Poll} (hstage : s.stage = .waiting p) :
    (s.turn .hangUp).stage = .finished none ∧
      Connection.finish s.tree ⟨.watching s.handle p, #[]⟩ =
        (#[], ⟨.closed, #[]⟩, (s.turn .hangUp).tree) := by
  have hturn : s.turn .hangUp = s.close none := by
    simp only [turn, cancel, hstage]
  rw [hturn]
  exact ⟨rfl, rfl⟩

end Delivery

end LiveTree
