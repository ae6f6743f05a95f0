import LiveTree.Proofs.Runs

/-!
# What a run answers

An action changes the tree and answers something. A run is a list of actions, performed one after
the other. It leaves a tree, `performAll`, and whatever is noted `along` it, action by action: its
answers, `outcomes`, are one such list.
-/

namespace LiveTree

/-- What an action answers. -/
inductive Outcome where
  | registered (id : NodeId)
  | unregistered (there : Bool)
  | opened (result : Except Fault Handle)
  | content (result : Except Fault Bytes)
  | taken (result : Except Fault Nat)
  | ended (result : Except Fault Unit)
  | began (start : Poll.Start)
  | looked (answer : Option (Except Fault Bytes))
  | attributes (result : Except Fault Attributes)
  | entries (result : Except Fault (List Entry))
  | announced (result : Except Fault Bool)
  /-- Nobody waits for an answer. -/
  | done

namespace Tree

variable {σ ε : Type} [Foreign ε]

/-- The answer to an action. -/
def outcome (t : Tree σ ε) : Action σ → Outcome
  | .register ref => .registered (t.register ref).1
  | .unregister id => .unregistered (t.unregister id).1
  | .openFile path access => .opened (t.openFile path access).1
  | .read h offset size => .content (t.read h offset size)
  | .write h offset data => .taken (t.write h offset data).1
  | .close h => .ended (t.close h).1
  | .longPoll h offset size => .began (t.longPoll h offset size).1
  | .longPollAll h => .began (t.longPollAll h).1
  | .look p => .looked ((t.finish? p).map (·.1))
  | .readAll path => .content (t.readAll path).1
  | .writeAll path data => .taken (t.writeAll path data).1
  | .truncate path size => .ended (t.truncate path size).1
  | .stat path => .attributes (t.stat path).1
  | .list path => .entries (t.list path)
  | .notify ref => .announced (t.notify ref).1
  | .publish _ | .insert _ _ _ | .remove _ _ | .takeLog => .done

/-- The tree after a run. -/
def performAll (t : Tree σ ε) (actions : List (Action σ)) : Tree σ ε := actions.foldl perform t

/-- What `note` says of every action of a run and the tree it was performed on. -/
def along {α : Type} (note : Tree σ ε → Action σ → List α) (t : Tree σ ε) :
    List (Action σ) → List α
  | [] => []
  | a :: actions => note t a ++ along note (t.perform a) actions

/-- The answers of a run. -/
def outcomes (t : Tree σ ε) (actions : List (Action σ)) : List Outcome :=
  t.along (fun t a => [t.outcome a]) actions

@[simp] theorem performAll_cons (t : Tree σ ε) (a : Action σ) (actions : List (Action σ)) :
    t.performAll (a :: actions) = (t.perform a).performAll actions := rfl

theorem performAll_append (t : Tree σ ε) (first second : List (Action σ)) :
    t.performAll (first ++ second) = (t.performAll first).performAll second :=
  List.foldl_append

@[simp] theorem along_cons {α : Type} (note : Tree σ ε → Action σ → List α) (t : Tree σ ε)
    (a : Action σ) (actions : List (Action σ)) :
    t.along note (a :: actions) = note t a ++ (t.perform a).along note actions := rfl

@[simp] theorem outcomes_cons (t : Tree σ ε) (a : Action σ) (actions : List (Action σ)) :
    t.outcomes (a :: actions) = t.outcome a :: (t.perform a).outcomes actions := rfl

/-- What is noted of the answers alone. -/
theorem filterMap_outcomes {α : Type} (f : Outcome → Option α) (t : Tree σ ε)
    (actions : List (Action σ)) :
    (t.outcomes actions).filterMap f = t.along (fun t a => (f (t.outcome a)).toList) actions := by
  induction actions generalizing t with
  | nil => rfl
  | cons a actions ih =>
      rw [outcomes_cons, along_cons, ← ih (t.perform a), List.filterMap_cons]
      cases f (t.outcome a) <;> rfl

theorem along_sublist {α : Type} {note note' : Tree σ ε → Action σ → List α}
    (h : ∀ t a, (note t a).Sublist (note' t a)) (t : Tree σ ε) (actions : List (Action σ)) :
    (t.along note actions).Sublist (t.along note' actions) := by
  induction actions generalizing t with
  | nil => exact .slnil
  | cons a actions ih => exact (h t a).append (ih (t.perform a))

theorem Reachable.performAll {t : Tree σ ε} (h : Reachable t) (actions : List (Action σ)) :
    Reachable (t.performAll actions) := by
  induction actions generalizing t with
  | nil => exact h
  | cons a actions ih => exact ih (h.perform a)

theorem proceeds_performAll (t : Tree σ ε) (actions : List (Action σ)) :
    Proceeds t (t.performAll actions) := by
  induction actions generalizing t with
  | nil => exact .refl t
  | cons a actions ih => exact (proceeds_perform t a).trans (ih (t.perform a))

end Tree

end LiveTree
