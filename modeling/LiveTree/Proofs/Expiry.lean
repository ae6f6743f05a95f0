import LiveTree.Proofs.Numbering
import LiveTree.Proofs.Ticks
import LiveTree.Proofs.Visits

/-!
# Handles that have expired

A node has one session at a time, and what reads, writes and closes it asks for no name. So it is the
table of handles alone that keeps the holder of an old handle away from the session of a newer one.
It does, since no number is given twice: a handle that has left the table never comes back, and every
operation through it fails and changes nothing (`IsDead`).
-/

namespace LiveTree

/-- The handle that was answered to an open. -/
def Outcome.handle? : Outcome → Option Handle
  | .opened (.ok h) => some h
  | _ => none

/-- The id that was answered to a registration. -/
def Outcome.id? : Outcome → Option NodeId
  | .registered id => some id
  | _ => none

namespace Action

variable {σ : Type}

/-- Whether the action opens a file. -/
def opens : Action σ → Bool
  | .openFile _ _ | .readAll _ | .writeAll _ _ => true
  | _ => false

/-- Whether the action registers a node. -/
def registers : Action σ → Bool
  | .register _ => true
  | _ => false

end Action

namespace Tree

variable {σ ε : Type}

/-- Nothing has been registered and nothing opened yet. -/
structure IsFresh (t : Tree σ ε) : Prop where
  registrations : t.registrations = []
  handles : t.handles = []
  nextId : t.nextId = 1
  nextHandle : t.nextHandle = 1

variable [Foreign ε] {t t' : Tree σ ε}

/-! ## What is answered -/

theorem handleGiven?_of_openFile {path : String} {access : Access} {h : Handle}
    (hopen : (t.openFile path access).1 = .ok h) : t.handleGiven? path access = some h := by
  obtain ⟨canonical, r, opened, hpath, howner, hnode, rfl, -⟩ :=
    openFile_eq_ok (Prod.ext hopen rfl : _ = (Except.ok h, (t.openFile path access).2))
  simp only [handleGiven?, hpath, howner, hnode, addHandle_eq]

/-- The handles that a run answers are among those that it takes. -/
theorem handles_outcomes_sublist (t : Tree σ ε) (actions : List (Action σ)) :
    ((t.outcomes actions).filterMap Outcome.handle?).Sublist (t.allHandles actions) := by
  rw [filterMap_outcomes]
  apply along_sublist
  intro t a
  cases a with
  | openFile path access =>
      rcases hopen : (t.openFile path access).1 with fault | h
      · simp [outcome, hopen, Outcome.handle?]
      · simp [outcome, hopen, Outcome.handle?, handlesGiven, handleGiven?_of_openFile hopen]
  | _ => exact List.nil_sublist _

/-- The ids that a run answers are those that it takes. -/
theorem ids_outcomes (t : Tree σ ε) (actions : List (Action σ)) :
    (t.outcomes actions).filterMap Outcome.id? = t.allIds actions := by
  rw [filterMap_outcomes, allIds]
  congr 1
  funext t a
  cases a <;> rfl

/-! ## Words -/

/-- How many words of 64 bits there are. -/
def wordCount : Nat := 18446744073709551616

theorem length_along_le {α : Type} {note : Tree σ ε → Action σ → List α} {takes : Action σ → Bool}
    (h : ∀ t a, (note t a).length ≤ if takes a then 1 else 0) (t : Tree σ ε)
    (actions : List (Action σ)) : (t.along note actions).length ≤ actions.countP takes := by
  induction actions generalizing t with
  | nil => exact Nat.le_refl 0
  | cons a actions ih =>
      rw [along_cons, List.length_append, List.countP_cons]
      have hfirst := h t a
      have hrest := ih (t.perform a)
      omega

theorem length_allHandles_le (t : Tree σ ε) (actions : List (Action σ)) :
    (t.allHandles actions).length ≤ actions.countP Action.opens := by
  apply length_along_le
  intro t a
  have hone : ∀ given : Option Handle, given.toList.length ≤ 1 := by
    rintro (_ | h) <;> simp
  cases a with
  | openFile path access => exact hone _
  | readAll path => exact hone _
  | writeAll path data => exact hone _
  | _ => exact Nat.le_refl 0

theorem length_allIds_le (t : Tree σ ε) (actions : List (Action σ)) :
    (t.allIds actions).length ≤ actions.countP Action.registers := by
  apply length_along_le
  intro t a
  cases a <;> exact Nat.le_refl _

/-- So few numbers from 1 on are different as words, too. -/
theorem nodup_words {n : Nat} (hn : n < wordCount) :
    ((List.range' 1 n).map fun i => i % wordCount).Nodup := by
  have hsame : (List.range' 1 n).map (fun i => i % wordCount) = List.range' 1 n := by
    refine (List.map_congr_left fun i hi => ?_).trans (List.map_id _)
    have := List.mem_range'_1.mp hi
    exact Nat.mod_eq_of_lt (by omega)
  rw [hsame]
  exact List.nodup_range'

/-! ## Handles that go -/

/-- The entry of a handle that was just given, the only one with its number. -/
theorem handle?_of_openFile {path : String} {access : Access} {h : Handle} (ht : t.Numbered)
    (hopen : t.openFile path access = (.ok h, t')) :
    ∃ o, t'.handle? h = some o ∧ (∀ o' ∈ t'.handles, o'.handle = h → o' = o) ∧
      h.number < t'.nextHandle := by
  obtain ⟨canonical, r, opened, -, -, hnode, rfl, rfl⟩ := openFile_eq_ok hopen
  have hnumbered : opened.Numbered := ht.openNode hnode
  refine ⟨_, handle?_addHandle hnumbered r canonical, ?_, Nat.lt_succ_self _⟩
  intro o' ho' hhandle
  rcases List.mem_append.mp ho' with hold | hnew
  · have hlt := hnumbered o' hold
    rw [hhandle] at hlt
    exact absurd hlt (Nat.lt_irrefl _)
  · exact List.mem_singleton.mp hnew

omit [Foreign ε] in
/-- What a run can leave of the entry of a handle is that entry. -/
theorem handle?_eq_of_proceeds {h : Handle} {o o' : OpenHandle} (hp : Proceeds t t')
    (honly : ∀ o' ∈ t.handles, o'.handle = h → o' = o) (hgiven : h.number < t.nextHandle)
    (hentry : t'.handle? h = some o') : o' = o := by
  have hhandle : o'.handle = h := by simpa using List.find?_some hentry
  rcases hp.handle o' (List.mem_of_find?_eq_some hentry) with hold | ⟨hnew, -⟩
  · exact honly o' hold hhandle
  · rw [hhandle] at hnew
    omega

omit [Foreign ε] in
/-- From a fresh tree on, every handle is of a registration that is there. -/
theorem IsFresh.isRegistered_of_mem {start : Tree σ ε} (hfresh : start.IsFresh)
    (hp : Proceeds start t) : ∀ o ∈ t.handles, t.isRegistered o.id = true := by
  intro o ho
  rcases hp.settled o ho with hr | ⟨hold, -⟩
  · exact hr
  · rw [hfresh.handles] at hold
    cases hold

omit [Foreign ε] in
theorem IsFresh.numbered (hfresh : t.IsFresh) : t.Numbered := by
  intro o ho
  rw [hfresh.handles] at ho
  cases ho

/-- A handle that is gone in the middle of a run is gone at its end. -/
theorem handle?_performAll {h : Handle} {first last : List (Action σ)}
    (hgiven : h.number < t.nextHandle) (hgone : (t.performAll first).handle? h = none) :
    (t.performAll (first ++ last)).handle? h = none := by
  have hlater := Nat.lt_of_lt_of_le hgiven (proceeds_performAll t first).nextHandle
  rw [performAll_append]
  exact handle?_of_proceeds (proceeds_performAll _ last) hlater hgone

/-- A handle that has been closed, or whose registration has been removed, is gone. -/
theorem IsFresh.handle?_performAll {start : Tree σ ε} (hfresh : start.IsFresh)
    (hp : Proceeds start t) {h : Handle} {o : OpenHandle}
    (honly : ∀ o' ∈ t.handles, o'.handle = h → o' = o) (hgiven : h.number < t.nextHandle)
    {middle : List (Action σ)}
    (hends : .close h ∈ middle ∨ .unregister o.id ∈ middle ∨
      (t.performAll middle).isRegistered o.id = false) :
    (t.performAll middle).handle? h = none := by
  have hregistered : ∀ actions, ∀ o ∈ (t.performAll actions).handles,
      (t.performAll actions).isRegistered o.id = true :=
    fun actions => hfresh.isRegistered_of_mem (hp.trans (proceeds_performAll t actions))
  rcases hends with hclose | hunregister | hlost
  · obtain ⟨first, last, rfl⟩ := List.append_of_mem hclose
    rw [← List.singleton_append, ← List.append_assoc]
    apply Tree.handle?_performAll hgiven
    rw [performAll_append]
    exact handle?_close _ h
  · obtain ⟨first, last, rfl⟩ := List.append_of_mem hunregister
    rw [← List.singleton_append, ← List.append_assoc]
    apply Tree.handle?_performAll hgiven
    rw [performAll_append]
    show ((t.performAll first).unregister o.id).2.handle? h = none
    rcases hentry : (t.performAll first).handle? h with _ | o'
    · have hlater := Nat.lt_of_lt_of_le hgiven (proceeds_performAll t first).nextHandle
      exact handle?_of_proceeds (proceeds_unregister _ o.id) hlater hentry
    · -- it is still in the table, so its registration is there to be removed
      cases handle?_eq_of_proceeds (proceeds_performAll t first) honly hgiven hentry
      exact handle?_unregister hentry
        (hregistered first o (List.mem_of_find?_eq_some hentry))
  · rcases hentry : (t.performAll middle).handle? h with _ | o'
    · rfl
    · cases handle?_eq_of_proceeds (proceeds_performAll t middle) honly hgiven hentry
      rw [hregistered middle o (List.mem_of_find?_eq_some hentry)] at hlost
      cases hlost

/-- In a run with fewer opens and registrations than there are words no handle and no id is given
twice, also if the numbers are kept in words of 64 bits. And once a handle that was given has been
closed, or the registration that it was opened through has been removed, it is dead, whatever is
opened and registered afterwards. -/
theorem handles_expire {start : Tree σ ε} (hfresh : start.IsFresh) (actions : List (Action σ))
    (hopens : actions.countP Action.opens < wordCount)
    (hregisters : actions.countP Action.registers < wordCount) :
    ((start.allHandles actions).map fun h => h.number % wordCount).Nodup ∧
    ((start.outcomes actions).filterMap Outcome.handle?).Sublist (start.allHandles actions) ∧
    ((start.allIds actions).map fun id => id.number % wordCount).Nodup ∧
    (start.outcomes actions).filterMap Outcome.id? = start.allIds actions ∧
    ∀ before path access middle later h opened,
      actions = before ++ .openFile path access :: (middle ++ later) →
      (start.performAll before).openFile path access = (.ok h, opened) →
      ∃ o, opened.handle? h = some o ∧
        (.close h ∈ middle ∨ .unregister o.id ∈ middle ∨
            (opened.performAll middle).isRegistered o.id = false →
          (start.performAll actions).IsDead h) := by
  refine ⟨?_, handles_outcomes_sublist start actions, ?_, ids_outcomes start actions, ?_⟩
  · rw [allHandles_eq, hfresh.nextHandle, List.map_map]
    exact nodup_words (Nat.lt_of_le_of_lt (length_allHandles_le start actions) hopens)
  · rw [allIds_eq, hfresh.nextId, List.map_map]
    exact nodup_words (Nat.lt_of_le_of_lt (length_allIds_le start actions) hregisters)
  · rintro before path access middle later h opened rfl hopen
    have hbefore := proceeds_performAll start before
    have hopened := hbefore.trans (proceeds_openFile (start.performAll before) path access)
    rw [hopen] at hopened
    obtain ⟨o, hentry, honly, hgiven⟩ :=
      handle?_of_openFile (hbefore.numbered hfresh.numbered) hopen
    refine ⟨o, hentry, fun hends => .of_handle? ?_⟩
    have hlast : start.performAll (before ++ .openFile path access :: (middle ++ later)) =
        opened.performAll (middle ++ later) := by
      rw [performAll_append, performAll_cons]
      show ((start.performAll before).openFile path access).2.performAll _ = _
      rw [hopen]
    rw [hlast]
    exact handle?_performAll hgiven (hfresh.handle?_performAll hopened honly hgiven hends)

/-- A read-only node that nobody has registered yet. -/
def unpublished : Tree Unit Empty := (addNode { publisher := () } (.readOnly version)).2

/-- A file is opened, closed and opened again: the new handle reads, and the old one is dead. -/
theorem handles_expire_reopened :
    let actions : List (Action Unit) := [.register ⟨0⟩, .openFile "/app/version" .reading,
      .close ⟨1⟩, .register ⟨0⟩, .openFile "/app/version" .reading]
    unpublished.IsFresh ∧ actions.countP Action.opens < wordCount ∧
      actions.countP Action.registers < wordCount ∧
      unpublished.allHandles actions = [⟨1⟩, ⟨2⟩] ∧
      (unpublished.performAll actions).IsDead ⟨1⟩ ∧
      ((unpublished.performAll actions).reader ⟨2⟩).read 0 8 = .ok (Bytes.ofString "1") := by
  intro actions
  have hfresh : unpublished.IsFresh := ⟨rfl, rfl, rfl, rfl⟩
  have hopens : actions.countP Action.opens < wordCount := by decide
  have hregisters : actions.countP Action.registers < wordCount := by decide
  obtain ⟨-, -, -, -, hdead⟩ := handles_expire hfresh actions hopens hregisters
  obtain ⟨o, -, hends⟩ := hdead [.register ⟨0⟩] "/app/version" .reading [.close ⟨1⟩]
    [.register ⟨0⟩, .openFile "/app/version" .reading] ⟨1⟩ _ rfl rfl
  exact ⟨hfresh, hopens, hregisters, by decide, hends (.inl (by simp)), rfl⟩

end Tree

end LiveTree
