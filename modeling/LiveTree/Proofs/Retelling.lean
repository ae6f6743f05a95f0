import LiveTree.Proofs.Outcomes
import LiveTree.Proofs.Occupancy

/-!
# Trees with another policy and another log

A `Retelling` gives a tree another policy for overlaps, and another log in the place of its own. It
makes no difference to any operation (`Indifferent`): the results are the same, and what is reported
comes behind the one log as behind the other. The one exception is the note of an overlap, for which
the policy is asked, and which operations make before they do anything else.
-/

namespace LiveTree

/-- Whether the event tells that a file has several claimants. -/
def Event.isOverlap : Event → Bool
  | .overlap .. => true
  | _ => false

/-- Another policy, and another log in the place of the one there is. What is reported from then on,
overlaps apart, comes behind the new log as it came behind the old one. -/
structure Retelling where
  policy : OverlapPolicy
  log : List Event → List Event
  log_append : ∀ (events : List Event) (e : Event),
    e.isOverlap = false → log (events ++ [e]) = log events ++ [e]

namespace Retelling

/-- What has been said of overlaps is left out. -/
def withoutOverlaps (policy : OverlapPolicy) : Retelling where
  policy
  log events := events.filter (!·.isOverlap)
  log_append events e he := by simp [he]

/-- Some events went before. -/
def behind (policy : OverlapPolicy) (before : List Event) : Retelling where
  policy
  log events := before ++ events
  log_append events e _ := (List.append_assoc before events [e]).symm

end Retelling

namespace Tree

variable {σ ε : Type}

/-- The tree with another policy and log. -/
def retold (t : Tree σ ε) (k : Retelling) : Tree σ ε :=
  { t with settings := { t.settings with overlap := k.policy }, log := k.log t.log }

/-- The operation asks for the policy nowhere and reports no overlap: it gives the same result after
a retelling, and a tree that differs by that retelling only. -/
def Indifferent {α : Type} (f : Tree σ ε → α × Tree σ ε) : Prop :=
  ∀ (k : Retelling) (t : Tree σ ε), f (t.retold k) = ((f t).1, (f t).2.retold k)

variable {k : Retelling} {t : Tree σ ε}

/-! ## What a retelling leaves as it is -/

@[simp] theorem publisher_retold : (t.retold k).publisher = t.publisher := rfl

@[simp] theorem node?_retold (ref : NodeRef) : (t.retold k).node? ref = t.node? ref := rfl

@[simp] theorem handle?_retold (h : Handle) : (t.retold k).handle? h = t.handle? h := rfl

@[simp] theorem isRegistered_retold (id : NodeId) :
    (t.retold k).isRegistered id = t.isRegistered id := rfl

@[simp] theorem maxWriteBytes_retold :
    (t.retold k).settings.maxWriteBytes = t.settings.maxWriteBytes := rfl

@[simp] theorem setNode_retold (ref : NodeRef) (n : Node σ ε) :
    (t.retold k).setNode ref n = (t.setNode ref n).retold k := rfl

@[simp] theorem publish_retold (s : σ) :
    ({ t.retold k with publisher := s } : Tree σ ε) = ({ t with publisher := s }).retold k := rfl

theorem report_retold {e : Event} (he : e.isOverlap = false) :
    (t.retold k).report e = (t.report e).retold k := by
  simp only [report, retold, k.log_append t.log e he]

/-! ## The operations -/

variable [Foreign ε]

@[simp] theorem listing_retold : (t.retold k).listing = t.listing := rfl

@[simp] theorem drain_retold (h : Handle) (position : Nat) :
    (t.retold k).drain h position = t.drain h position := rfl

@[simp] theorem harvest_retold (ref : NodeRef) (goal : Poll.Goal) :
    (t.retold k).harvest ref goal = t.harvest ref goal := by
  cases goal <;> rfl

omit [Foreign ε] in
theorem isOverlap_openedEvent? {path : String} {access : Access} {n : Node σ ε} {e : Event}
    (he : openedEvent? path access n = some e) : e.isOverlap = false := by
  cases n <;> simp only [openedEvent?, Option.map_eq_some_iff, reduceCtorEq] at he <;>
    obtain ⟨session, -, rfl⟩ := he <;> rfl

theorem closeNode_retold (ref : NodeRef) :
    (t.retold k).closeNode ref = ((t.closeNode ref).1, (t.closeNode ref).2.retold k) := by
  rcases hn : t.node? ref with _ | n | n | n | ⟨e, removals⟩
  · simp only [closeNode, node?_retold, hn]
  · rcases hc : n.close with fault | ⟨session, n'⟩ <;>
      simp only [closeNode, node?_retold, hn, hc, setNode_retold]
    rw [report_retold rfl]
  · rcases hc : n.close with fault | ⟨session, n'⟩ <;>
      simp only [closeNode, node?_retold, hn, hc, setNode_retold]
    rcases session.inner.commit? with _ | content
    · dsimp only
      rw [report_retold rfl]
    · dsimp only
      rcases hsink : n.sink content t.publisher with ⟨_ | _, s⟩ <;>
      · simp only [publisher_setNode, publisher_retold, hsink, publish_retold]
        rw [report_retold rfl, report_retold rfl]
  · rcases hc : n.close with fault | ⟨session, n'⟩ <;>
      simp only [closeNode, node?_retold, hn, hc, setNode_retold]
    rw [report_retold rfl]
  · simp only [closeNode, node?_retold, hn, setNode_retold]

omit [Foreign ε] in
theorem takeHandle_retold (h : Handle) :
    (t.retold k).takeHandle h = (t.takeHandle h).map fun r => (r.1, r.2.retold k) := by
  rcases ho : t.handle? h with _ | o <;> simp only [takeHandle, handle?_retold, ho] <;> rfl

theorem closeStale_retold (h : Handle) :
    (t.retold k).closeStale h = (t.closeStale h).retold k := by
  rcases ht : t.takeHandle h with _ | ⟨o, taken⟩
  · simp only [closeStale, takeHandle_retold, ht, Option.map_none]
  · simp only [closeStale, takeHandle_retold, ht, Option.map_some, closeNode_retold]
    rcases taken.closeNode o.node with ⟨_ | _, closed⟩
    · exact report_retold rfl
    · rfl

theorem foldl_closeStale_retold (stale : List Handle) :
    stale.foldl closeStale (t.retold k) = (stale.foldl closeStale t).retold k := by
  induction stale generalizing t with
  | nil => rfl
  | cons h stale ih => rw [List.foldl_cons, closeStale_retold, ih, List.foldl_cons]

theorem unregister_retold (id : NodeId) :
    (t.retold k).unregister id = ((t.unregister id).1, (t.unregister id).2.retold k) := by
  by_cases hreg : t.isRegistered id = true
  · have hdrop : (t.retold k).dropRegistration id = (t.dropRegistration id).retold k := rfl
    have hstale : ((t.dropRegistration id).retold k).handlesOf id =
      (t.dropRegistration id).handlesOf id := rfl
    simp only [unregister, isRegistered_retold, hreg, if_true, hdrop, hstale,
      foldl_closeStale_retold]
    rw [report_retold rfl]
  · simp only [unregister, isRegistered_retold, hreg, Bool.false_eq_true, if_false]

theorem register_retold (ref : NodeRef) :
    (t.retold k).register ref = ((t.register ref).1, (t.register ref).2.retold k) := by
  rcases hn : t.node? ref with _ | n
  · simp only [register, node?_retold, hn]
    rfl
  · simp only [register, node?_retold, hn, publisher_retold]
    rw [report_retold rfl]
    rfl

theorem afterRemovals_retold (p : Provider σ) :
    (t.retold k).afterRemovals p = (t.afterRemovals p).retold k := by
  unfold afterRemovals
  rw [publisher_retold]
  induction p.removals t.publisher generalizing t with
  | nil => rfl
  | cons id ids ih => rw [List.foldl_cons, unregister_retold, ih, List.foldl_cons]

theorem provide_retold (p : Provider σ) :
    (t.retold k).provide p = ((t.provide p).1, (t.provide p).2.retold k) := by
  rw [provide_eq_supply, provide_eq_supply, afterRemovals_retold, listing_retold, publisher_retold]
  rfl

theorem fetch_retold (source : Source σ) :
    (t.retold k).fetch source = ((t.fetch source).1, (t.fetch source).2.retold k) := by
  cases source with
  | provided p => exact provide_retold p
  | held content => rfl

theorem sizeOn_retold (ref : NodeRef) (path : String) :
    (t.retold k).sizeOn ref path = ((t.sizeOn ref path).1, (t.sizeOn ref path).2.retold k) := by
  rcases hn : t.node? ref with _ | n | n | n | ⟨e, removals⟩
  · simp only [sizeOn, node?_retold, hn]
  · rcases hc : n.location.check t.publisher path with fault | ⟨⟩ <;>
      simp only [sizeOn, node?_retold, publisher_retold, hn, hc, provide_retold]
  · rcases hc : n.location.check t.publisher path with fault | ⟨⟩ <;>
      simp only [sizeOn, node?_retold, publisher_retold, hn, hc, provide_retold]
  · simp only [sizeOn, node?_retold, publisher_retold, hn]
  · simp only [sizeOn, node?_retold, hn]

theorem resizeOn_retold (ref : NodeRef) (path : String) (size : Nat) :
    (t.retold k).resizeOn ref path size =
      ((t.resizeOn ref path size).1, (t.resizeOn ref path size).2.retold k) := by
  rcases hn : t.node? ref with _ | n | n | n | ⟨e, removals⟩
  · simp only [resizeOn, node?_retold, hn]
  · simp only [resizeOn, node?_retold, publisher_retold, hn]
  · rcases hr : n.resize t.publisher path size with fault | ⟨n', _ | content⟩
    · simp only [resizeOn, node?_retold, publisher_retold, hn, hr]
    · simp only [resizeOn, node?_retold, publisher_retold, hn, hr, setNode_retold]
    · simp only [resizeOn, node?_retold, publisher_retold, hn, hr]
      rcases n.sink content t.publisher with ⟨_ | _, s⟩ <;> rfl
  · rcases hr : n.resize t.publisher path size with fault | n' <;>
      simp only [resizeOn, node?_retold, publisher_retold, hn, hr, setNode_retold]
  · rcases hr : Foreign.resize e path size with fault | e' <;>
      simp only [resizeOn, node?_retold, hn, hr, setNode_retold]

theorem startSession_retold (ref : NodeRef) (path : String) (access : Access) (content : Bytes) :
    (t.retold k).startSession ref path access content =
      (t.startSession ref path access content).retold k := by
  rcases hn : t.node? ref with _ | n
  · simp only [startSession, node?_retold, hn]
  · simp only [startSession, node?_retold, publisher_retold, hn, setNode_retold]
    rcases he : openedEvent? path access (n.begin t.publisher path access content) with _ | e
    · rfl
    · exact report_retold (isOverlap_openedEvent? he)

theorem openNode_retold (ref : NodeRef) (path : String) (access : Access) :
    (t.retold k).openNode ref path access =
      ((t.openNode ref path access).1, (t.openNode ref path access).2.retold k) := by
  rcases hn : t.node? ref with _ | n
  · simp only [openNode, node?_retold, hn]
  · rcases hp : n.permit t.publisher path access with fault | source <;>
      simp only [openNode, node?_retold, publisher_retold, hn, hp, fetch_retold]
    rcases t.fetch source with ⟨_ | content, t'⟩
    · rfl
    · simp only [startSession_retold]

theorem writeNode_retold (ref : NodeRef) (offset : Nat) (data : Bytes) :
    (t.retold k).writeNode ref offset data =
      ((t.writeNode ref offset data).1, (t.writeNode ref offset data).2.retold k) := by
  rcases hn : t.node? ref with _ | n | n | n | ⟨e, removals⟩
  · simp only [writeNode, node?_retold, hn]
  · simp only [writeNode, node?_retold, publisher_retold, hn]
  · rcases hw : n.write offset data with fault | n' <;>
      simp only [writeNode, node?_retold, hn, hw, setNode_retold]
  · rcases hw : n.write offset data with fault | n' <;>
      simp only [writeNode, node?_retold, hn, hw, setNode_retold]
  · rcases hw : Foreign.write e offset data with fault | ⟨count, e'⟩ <;>
      simp only [writeNode, node?_retold, hn, hw, setNode_retold]

theorem write_retold (h : Handle) (offset : Nat) (data : Bytes) :
    (t.retold k).write h offset data =
      ((t.write h offset data).1, (t.write h offset data).2.retold k) := by
  rcases ho : t.handle? h with _ | o
  · simp only [write, handle?_retold, ho]
  · simp only [write, handle?_retold, ho, maxWriteBytes_retold, writeNode_retold]
    split <;> rfl

theorem close_retold (h : Handle) :
    (t.retold k).close h = ((t.close h).1, (t.close h).2.retold k) := by
  rcases ht : t.takeHandle h with _ | ⟨o, taken⟩
  · simp only [close, takeHandle_retold, ht, Option.map_none]
  · simp only [close, takeHandle_retold, ht, Option.map_some, closeNode_retold]

theorem undoOpen_retold (o : OpenHandle) : (t.retold k).undoOpen o = (t.undoOpen o).retold k := by
  rcases ht : t.takeHandle o.handle with _ | ⟨o', taken⟩
  · simp only [undoOpen, takeHandle_retold, ht, Option.map_none]
  · simp only [undoOpen, takeHandle_retold, ht, Option.map_some, closeNode_retold]
    rcases taken.closeNode o'.node with ⟨_ | _, closed⟩
    · exact report_retold rfl
    · rfl

theorem confirmOpen_retold (o : OpenHandle) :
    (t.retold k).confirmOpen o = ((t.confirmOpen o).1, (t.confirmOpen o).2.retold k) := by
  unfold confirmOpen
  rw [isRegistered_retold, undoOpen_retold, report_retold rfl]
  split <;> rfl

theorem poll_retold (ref : NodeRef) (goal : Poll.Goal) :
    (t.retold k).poll ref goal = ((t.poll ref goal).1, (t.poll ref goal).2.retold k) := by
  rcases hn : t.node? ref with _ | n | n | n | ⟨e, removals⟩
  · simp only [poll, node?_retold, hn]
  · simp only [poll, node?_retold, hn]
  · rcases ht : n.ticket with fault | ticket <;> simp only [poll, node?_retold, hn, ht]
  · simp only [poll, node?_retold, hn]
  · rcases hw : Foreign.wake e with fault | e' <;>
      simp only [poll, node?_retold, hn, hw, setNode_retold, harvest_retold]

theorem longPoll_retold (h : Handle) (offset size : Nat) :
    (t.retold k).longPoll h offset size =
      ((t.longPoll h offset size).1, (t.longPoll h offset size).2.retold k) := by
  rcases ho : t.handle? h with _ | o <;>
    simp only [longPoll, handle?_retold, ho, poll_retold]

theorem longPollAll_retold (h : Handle) :
    (t.retold k).longPollAll h = ((t.longPollAll h).1, (t.longPollAll h).2.retold k) := by
  rcases ho : t.handle? h with _ | o <;>
    simp only [longPollAll, handle?_retold, ho, poll_retold]

theorem finish?_retold (p : Poll) :
    (t.retold k).finish? p = (t.finish? p).map fun r => (r.1, r.2.retold k) := by
  have hwake : (t.retold k).wake? p = (t.wake? p).map fun r => (r.1, r.2.retold k) := by
    unfold wake?
    rw [node?_retold]
    split
    · split <;> rfl
    · rfl
  unfold finish?
  rw [hwake]
  rcases t.wake? p with _ | ⟨_ | _, woken⟩
  · rfl
  · rfl
  · simp only [Option.map_some, harvest_retold]

theorem look_retold (p : Poll) : (t.retold k).look p = (t.look p).retold k := by
  unfold look
  rw [finish?_retold]
  rcases t.finish? p with _ | ⟨answer, t'⟩ <;> rfl

theorem notify_retold (ref : NodeRef) :
    (t.retold k).notify ref = ((t.notify ref).1, (t.notify ref).2.retold k) := by
  rcases hn : t.node? ref with _ | n | n | n | ⟨e, removals⟩ <;>
    simp only [«notify», node?_retold, hn]
  rw [provide_retold]
  rcases t.provide n.provider with ⟨_ | value, supplied⟩
  · rfl
  · rcases hs : supplied.node? ref with _ | m | m | m | ⟨e, removals⟩ <;>
      simp only [node?_retold, hs]
    rcases m.announce? value with _ | m'
    · rfl
    · simp only [setNode_retold, publisher_retold]
      rw [report_retold rfl]

omit [Foreign ε] in
theorem insertKey_retold (ref : NodeRef) (key : String) (value : Bytes) :
    (t.retold k).insertKey ref key value = (t.insertKey ref key value).retold k := by
  rcases hn : t.node? ref with _ | n | n | n | ⟨e, removals⟩ <;>
    simp only [insertKey, node?_retold, hn]
  rcases n.insert key value with fault | n' <;> rfl

omit [Foreign ε] in
theorem removeKey_retold (ref : NodeRef) (key : String) :
    (t.retold k).removeKey ref key = (t.removeKey ref key).retold k := by
  rcases hn : t.node? ref with _ | n | n | n | ⟨e, removals⟩ <;>
    simp only [removeKey, node?_retold, hn, setNode_retold]

end Tree

end LiveTree
