import LiveTree.Proofs.Interleaving
import LiveTree.Proofs.Occupancy

/-!
# No open survives its registration

While an open and a removal race, three things are kept, whoever has the next turn.

* No session is lost: a node has a session open exactly when an entry of the table refers to it, or
  the open or the removal has it in hand (`matched_turn`).
* No handle is forgotten: an entry without its registration is one that the open is still to look
  at, or the removal is still to take (`excused_turn`).
* No entry is in two places: the open's entry is in the table, in one of the two hands, or in the
  account of the closed ones, and nowhere else (`Accounted`).

When both are through, there are no hands left and nothing that an entry could wait for. So an entry
without a registration can only be in the account, where it is once.
-/

namespace LiveTree

variable {σ : Type}

/-! ## In hand -/

/-- The entries that the open has taken out of the table and not closed yet. -/
def Opening.inHand : Opening → List OpenHandle
  | .closing _ taken => [taken]
  | _ => []

/-- The nodes whose sessions depend on the open alone. -/
def Opening.loose : Opening → List NodeRef
  | .recording r _ => [r.node]
  | .closing _ taken => [taken.node]
  | _ => []

/-- The entries that the removal has taken out of the table and not closed yet. -/
def Removal.inHand : Removal → List OpenHandle
  | .closing taken _ => [taken]
  | _ => []

/-- Whether the open is still going to look at the entry, and not to leave it without its
registration. -/
def Opening.WillCheck (o : OpenHandle) : Opening → Prop
  | .checking own => own = o
  | .retracting own => own = o
  | _ => False

/-- Whether the removal is going to take the handle. -/
def Removal.WillTake (h : Handle) : Removal → Prop
  | .scanning => True
  | .taking stale => h ∈ stale
  | .closing _ stale => h ∈ stale
  | _ => False

/-- Whether the removal has taken the registration out of the namespace. -/
def Removal.HasDropped : Removal → Prop
  | .dropping => False
  | .finished found => found = true
  | _ => True

/-- Whether the removal has not begun, or is through. -/
def Removal.AtRest : Removal → Prop
  | .dropping => True
  | .finished _ => True
  | _ => False

namespace Race

/-- The nodes whose sessions are without a handle. -/
def loose (s : Race σ) : List NodeRef := s.opening.loose ++ s.removal.inHand.map (·.node)

/-! ## No session is lost -/

theorem matched_shut {t : Tree σ Empty} {o : OpenHandle} {loose : List NodeRef}
    (h : Tree.Matched (o.node :: loose) t) (warning : Fault → Event) :
    Tree.Matched loose (t.shut o warning) := by
  have hclosed := h.closeNode
  unfold Tree.shut
  split <;> next hc => rw [hc] at hclosed; exact hclosed.of_same rfl rfl fun _ => rfl

theorem matched_open1 {s : Race σ} (h : Tree.Matched s.loose s.tree) :
    Tree.Matched s.open1.loose s.open1.tree := by
  unfold open1
  unfold loose at h
  split
  · next hs =>
    -- the owner is looked up
    rw [hs] at h
    split
    · exact h
    · exact h.of_books (Tree.books_noteOverlap _ _) (Tree.busy_noteOverlap _ _)
  · next hs =>
    -- its node is opened, which makes it loose
    rw [hs] at h
    split
    · next ho => exact h.openNode_error ho
    · next ho => exact h.openNode_ok ho
  · next hs =>
    -- its handle ties it again
    rw [hs] at h
    exact h.addHandle _
  · next hs =>
    -- the registration is looked for
    rw [hs] at h
    split <;> exact h
  · next hs =>
    -- the handle is taken back, which makes the node loose
    rw [hs] at h
    split
    · exact h.of_same rfl rfl fun _ => rfl
    · next ht => exact h.takeHandle ht
  · next hs =>
    -- the loose node is closed
    rw [hs] at h
    exact (matched_shut h _).of_same rfl rfl fun _ => rfl
  · exact h

theorem matched_remove1 {s : Race σ} (h : Tree.Matched s.loose s.tree) :
    Tree.Matched s.remove1.loose s.remove1.tree := by
  unfold remove1
  unfold loose at h
  split
  · next hs =>
    -- the registration is dropped
    rw [hs] at h
    split
    · exact h.of_same rfl rfl fun _ => rfl
    · exact h
  · next hs =>
    -- its handles are looked for
    rw [hs] at h
    exact h
  · next hs =>
    -- none of them is left
    rw [hs] at h
    exact h.of_same rfl rfl fun _ => rfl
  · next hs =>
    -- one of them is taken, and its node is in hand
    rw [hs] at h
    split
    · exact h
    · next taken t ht =>
      refine (h.takeHandle ht).perm ?_
      exact List.perm_middle.symm
  · next taken stale hs =>
    -- the node in hand is closed
    rw [hs] at h
    exact matched_shut (h.perm List.perm_middle) _
  · exact h

/-- Whoever has the next turn, the sessions are those of the table and those in hand. -/
theorem matched_turn {s : Race σ} (h : Tree.Matched s.loose s.tree) (next : Turn σ) :
    Tree.Matched (s.turn next).loose (s.turn next).tree := by
  cases next with
  | opening => exact matched_open1 h
  | removal => exact matched_remove1 h
  | others a => exact h.perform a

/-! ## Registrations do not come back -/

/-- Ids only go up, and a registration that was not there has a new one. -/
structure Ages (t t' : Tree σ Empty) : Prop where
  nextId : t.nextId ≤ t'.nextId
  registration : ∀ r ∈ t'.registrations,
    r ∈ t.registrations ∨ (t.nextId ≤ r.id.number ∧ r.id.number < t'.nextId)

theorem Ages.of_proceeds {t t' : Tree σ Empty} (h : t.Proceeds t') : Ages t t' :=
  ⟨h.nextId, h.registration⟩

theorem Ages.of_books {t t' : Tree σ Empty} (h : t'.books = t.books) : Ages t t' :=
  .of_proceeds (.of_books h)

/-- An id that was given and is not registered will never be. -/
theorem Ages.not_isRegistered {t t' : Tree σ Empty} (h : Ages t t') {id : NodeId}
    (hid : id.number < t.nextId) (hgone : t.isRegistered id = false) :
    t'.isRegistered id = false := by
  rw [Tree.isRegistered, List.any_eq_false] at hgone ⊢
  intro r hr he
  rcases h.registration r hr with hr | hnew
  · exact hgone r hr he
  · have : r.id = id := of_decide_eq_true he
    subst this
    omega

theorem books_shut (t : Tree σ Empty) (o : OpenHandle) (warning : Fault → Event) :
    (t.shut o warning).books = t.books := by
  have hclose := Tree.books_closeNode t o.node
  unfold Tree.shut
  split <;> next hc => rw [hc] at hclose; exact hclose

theorem ages_open1 (s : Race σ) : Ages s.tree s.open1.tree := by
  unfold open1
  split
  · split
    · exact .of_books rfl
    · exact .of_books (Tree.books_noteOverlap _ _)
  · next r path access _ =>
    have hopen := Tree.proceeds_openNode s.tree r.node path access
    split <;> next ho => rw [ho] at hopen; exact .of_proceeds hopen
  · exact ⟨Nat.le_refl _, fun _ hr => .inl hr⟩
  · split <;> exact .of_books rfl
  · split
    · exact .of_books rfl
    · next ht => exact .of_proceeds (Tree.proceeds_takeHandle ht)
  · exact .of_books (books_shut _ _ _)
  · exact .of_books rfl

theorem ages_remove1 (s : Race σ) : Ages s.tree s.remove1.tree := by
  unfold remove1
  split
  · split
    · exact ⟨Nat.le_refl _, fun _ hr => .inl (List.mem_filter.mp hr).1⟩
    · exact .of_books rfl
  · exact .of_books rfl
  · exact .of_books rfl
  · split
    · exact .of_books rfl
    · next ht => exact .of_proceeds (Tree.proceeds_takeHandle ht)
  · exact .of_books (books_shut _ _ _)
  · exact .of_books rfl

theorem ages_turn (s : Race σ) (next : Turn σ) : Ages s.tree (s.turn next).tree := by
  cases next with
  | opening => exact ages_open1 s
  | removal => exact ages_remove1 s
  | others a => exact .of_proceeds (Tree.proceeds_perform s.tree a)

/-! ## What a turn leaves to the other -/

@[simp] theorem removal_open1 (s : Race σ) : s.open1.removal = s.removal := by
  unfold open1
  split <;> first | rfl | (split <;> rfl)

@[simp] theorem target_open1 (s : Race σ) : s.open1.target = s.target := by
  unfold open1
  split <;> first | rfl | (split <;> rfl)

@[simp] theorem opening_remove1 (s : Race σ) : s.remove1.opening = s.opening := by
  unfold remove1
  split <;> first | rfl | (split <;> rfl)

@[simp] theorem target_remove1 (s : Race σ) : s.remove1.target = s.target := by
  unfold remove1
  split <;> first | rfl | (split <;> rfl)

@[simp] theorem dispatched_remove1 (s : Race σ) : s.remove1.dispatched = s.dispatched := by
  unfold remove1
  split <;> first | rfl | (split <;> rfl)

@[simp] theorem begun_remove1 (s : Race σ) : s.remove1.begun = s.begun := by
  unfold remove1
  split <;> first | rfl | (split <;> rfl)

@[simp] theorem entry_remove1 (s : Race σ) : s.remove1.entry = s.entry := by
  unfold remove1
  split <;> first | rfl | (split <;> rfl)

@[simp] theorem target_turn (s : Race σ) (next : Turn σ) : (s.turn next).target = s.target := by
  cases next with
  | opening => exact target_open1 s
  | removal => exact target_remove1 s
  | others a => rfl

/-- An open is dispatched to a registration that is there. -/
theorem dispatched_turn (s : Race σ) (next : Turn σ) :
    (s.turn next).dispatched = s.dispatched ∨
      ∃ r ∈ s.tree.registrations, (s.turn next).dispatched = some r := by
  cases next with
  | opening =>
      show s.open1.dispatched = _ ∨ ∃ r ∈ _, s.open1.dispatched = _
      unfold open1
      split
      · split
        · exact .inl rfl
        · next r howner => exact .inr ⟨r, (Tree.claims_of_owner? howner).1, rfl⟩
      all_goals first | exact .inl rfl | (split <;> exact .inl rfl)
  | removal => exact .inl (dispatched_remove1 s)
  | others a => exact .inl rfl

/-! ## What was given, and what is gone -/

/-- Every id in use was given, and once the removal has dropped its registration that is gone. -/
structure Dated (s : Race σ) : Prop where
  registered : ∀ r ∈ s.tree.registrations, r.id.number < s.tree.nextId
  dispatched : ∀ r, s.dispatched = some r → r.id.number < s.tree.nextId
  gone : s.removal.HasDropped →
    s.target.number < s.tree.nextId ∧ s.tree.isRegistered s.target = false

/-- A removal has dropped its registration when it had before, or just now. -/
theorem hasDropped_turn {s : Race σ} {next : Turn σ} (h : (s.turn next).removal.HasDropped) :
    s.removal.HasDropped ∨ (s.tree.isRegistered s.target = true ∧
      (s.turn next).tree = s.tree.dropRegistration s.target) := by
  cases next with
  | opening =>
      left
      rwa [← removal_open1 s]
  | removal =>
      change s.remove1.removal.HasDropped at h
      show _ ∨ (_ ∧ s.remove1.tree = _)
      unfold remove1 at h ⊢
      split at h
      · next hs =>
        rw [hs]
        split at h
        · next hreg => exact .inr ⟨hreg, by rw [if_pos hreg]⟩
        · cases h
      · next hs => exact .inl (hs ▸ trivial)
      · next hs => exact .inl (hs ▸ trivial)
      · next hs => exact .inl (hs ▸ trivial)
      · next hs => exact .inl (hs ▸ trivial)
      · exact .inl h
  | others a => exact .inl h

theorem dated_turn {s : Race σ} (h : s.Dated) (next : Turn σ) : (s.turn next).Dated := by
  have hages := ages_turn s next
  have hnext := hages.nextId
  refine ⟨?_, ?_, ?_⟩
  · intro r hr
    rcases hages.registration r hr with hr | hnew
    · exact Nat.lt_of_lt_of_le (h.registered r hr) hnext
    · exact hnew.2
  · intro r hr
    rcases dispatched_turn s next with hsame | ⟨r', hmem, hnew⟩
    · rw [hsame] at hr
      exact Nat.lt_of_lt_of_le (h.dispatched r hr) hnext
    · rw [hnew] at hr
      cases hr
      exact Nat.lt_of_lt_of_le (h.registered r hmem) hnext
  · intro hd
    rw [target_turn]
    rcases hasDropped_turn hd with hold | ⟨hreg, htree⟩
    · obtain ⟨hgiven, hgone⟩ := h.gone hold
      exact ⟨Nat.lt_of_lt_of_le hgiven hnext, hages.not_isRegistered hgiven hgone⟩
    · obtain ⟨r, hr, hid⟩ := List.any_eq_true.mp hreg
      have hid : r.id = s.target := of_decide_eq_true hid
      refine ⟨Nat.lt_of_lt_of_le (hid ▸ h.registered r hr) hnext, ?_⟩
      rw [htree]
      simp [Tree.isRegistered, Tree.dropRegistration]

/-! ## No handle is forgotten -/

/-- Every entry of the table has its registration, or waits for the open or the removal. -/
def Watched (s : Race σ) : Prop :=
  ∀ o ∈ s.tree.handles, s.tree.isRegistered o.id = true ∨
    s.opening.WillCheck o ∨ (o.id = s.target ∧ s.removal.WillTake o.handle)

/-- What is watched stays so when the tree proceeds, and whoever was waited for still comes. -/
theorem Watched.of_proceeds {s s' : Race σ} (h : s.Watched) (hp : s.tree.Proceeds s'.tree)
    (htarget : s'.target = s.target)
    (hcheck : ∀ o ∈ s'.tree.handles, s.opening.WillCheck o →
      s'.tree.isRegistered o.id = true ∨ s'.opening.WillCheck o)
    (htake : ∀ o ∈ s'.tree.handles, s.removal.WillTake o.handle →
      s'.removal.WillTake o.handle) : s'.Watched := by
  intro o ho
  rcases hp.settled o ho with hreg | ⟨hold, hgone⟩
  · exact .inl hreg
  · rcases h o hold with hreg | hopen | ⟨hid, hremoval⟩
    · rw [hgone] at hreg
      cases hreg
    · exact (hcheck o ho hopen).imp id .inl
    · exact .inr (.inr ⟨hid.trans htarget.symm, htake o ho hremoval⟩)

theorem watched_open1 {s : Race σ} (h : s.Watched) : s.open1.Watched := by
  unfold open1
  split
  · next path access hs =>
    split
    · refine h.of_proceeds (.refl _) rfl ?_ fun _ _ hw => hw
      intro o _ hw
      rw [hs] at hw
      exact hw.elim
    · refine h.of_proceeds (.of_books (Tree.books_noteOverlap _ path)) rfl ?_ fun _ _ hw => hw
      intro o _ hw
      rw [hs] at hw
      exact hw.elim
  · next r path access hs =>
    have hopen := Tree.proceeds_openNode s.tree r.node path access
    split
    all_goals
      next ho =>
      rw [ho] at hopen
      refine h.of_proceeds hopen rfl ?_ fun _ _ hw => hw
      intro o _ hw
      rw [hs] at hw
      exact hw.elim
  · next r path hs =>
    intro o ho
    rcases List.mem_append.mp ho with ho | ho
    · rcases h o ho with hreg | hopen | hremoval
      · exact .inl hreg
      · rw [hs] at hopen
        exact hopen.elim
      · exact .inr (.inr hremoval)
    · -- the new entry may be without its registration, which the open is going to look for
      rw [List.mem_singleton.mp ho]
      exact .inr (.inl rfl)
  · next own hs =>
    split
    · next hreg =>
      refine h.of_proceeds (.refl _) rfl ?_ fun _ _ hw => hw
      intro o _ hw
      rw [hs] at hw
      cases hw
      exact .inl hreg
    · refine h.of_proceeds (.refl _) rfl ?_ fun _ _ hw => hw
      intro o _ hw
      rw [hs] at hw
      exact .inr hw
  · next own hs =>
    split
    · next ht =>
      refine h.of_proceeds (.of_books rfl) rfl ?_ fun _ _ hw => hw
      intro o ho hw
      rw [hs] at hw
      cases hw
      -- the table has no entry of that number
      have hne := List.filter_eq_self.mp (Tree.takeHandle_eq_none ht) _ ho
      simp at hne
    · next ht =>
      refine h.of_proceeds (Tree.proceeds_takeHandle ht) rfl ?_ fun _ _ hw => hw
      intro o ho hw
      rw [hs] at hw
      cases hw
      obtain ⟨-, -, rfl⟩ := Tree.takeHandle_eq_some ht
      have hne := (List.mem_filter.mp ho).2
      simp at hne
  · next own taken hs =>
    refine h.of_proceeds (.of_books (books_shut _ _ _)) rfl ?_ fun _ _ hw => hw
    intro o _ hw
    rw [hs] at hw
    exact hw.elim
  · exact h

theorem watched_remove1 {s : Race σ} (h : s.Watched) : s.remove1.Watched := by
  unfold remove1
  split
  · next hs =>
    split
    · -- the handles of the registration lose it, and the scan is still to come
      intro o ho
      rcases h o ho with hreg | hopen | ⟨-, hremoval⟩
      · by_cases hid : o.id = s.target
        · exact .inr (.inr ⟨hid, trivial⟩)
        · left
          obtain ⟨r, hr, he⟩ := List.any_eq_true.mp hreg
          have he : r.id = o.id := of_decide_eq_true he
          refine List.any_eq_true.mpr ⟨r, List.mem_filter.mpr ⟨hr, ?_⟩, decide_eq_true he⟩
          exact decide_eq_true (he ▸ hid)
      · exact .inr (.inl hopen)
      · rw [hs] at hremoval
        exact hremoval.elim
    · refine h.of_proceeds (.refl _) rfl (fun _ _ hw => .inr hw) ?_
      intro o _ hw
      rw [hs] at hw
      exact hw.elim
  · intro o ho
    rcases h o ho with hreg | hopen | ⟨hid, -⟩
    · exact .inl hreg
    · exact .inr (.inl hopen)
    · -- the scan finds the handles of the registration that are in the table now
      refine .inr (.inr ⟨hid, List.mem_map_of_mem (List.mem_filter.mpr ⟨ho, ?_⟩)⟩)
      exact decide_eq_true hid
  · next hs =>
    refine h.of_proceeds (.of_books rfl) rfl (fun _ _ hw => .inr hw) ?_
    intro o _ hw
    rw [hs] at hw
    cases hw
  · next number stale hs =>
    split
    · next ht =>
      refine h.of_proceeds (.refl _) rfl (fun _ _ hw => .inr hw) ?_
      intro o ho hw
      rw [hs] at hw
      have hne := List.filter_eq_self.mp (Tree.takeHandle_eq_none ht) _ ho
      exact List.mem_of_ne_of_mem (of_decide_eq_true hne) hw
    · next ht =>
      refine h.of_proceeds (Tree.proceeds_takeHandle ht) rfl (fun _ _ hw => .inr hw) ?_
      intro o ho hw
      rw [hs] at hw
      -- an entry that is left has another number than the one that was taken
      obtain ⟨-, -, rfl⟩ := Tree.takeHandle_eq_some ht
      have hne := (List.mem_filter.mp ho).2
      exact List.mem_of_ne_of_mem (of_decide_eq_true hne) hw
  · next taken stale hs =>
    refine h.of_proceeds (.of_books (books_shut _ _ _)) rfl (fun _ _ hw => .inr hw) ?_
    intro o _ hw
    rw [hs] at hw
    exact hw
  · exact h

/-- Whoever has the next turn, no handle is left behind without someone to look after it. -/
theorem watched_turn {s : Race σ} (h : s.Watched) (next : Turn σ) : (s.turn next).Watched := by
  cases next with
  | opening => exact watched_open1 h
  | removal => exact watched_remove1 h
  | others a =>
      exact h.of_proceeds (Tree.proceeds_perform s.tree a) rfl (fun _ _ hw => .inr hw)
        fun _ _ hw => hw

/-! ## What is on record -/

/-- What the open has put on record fits how far it has come. -/
structure Recorded (s : Race σ) : Prop where
  stage : match s.opening with
    | .looking _ _ => s.begun = false ∧ s.entry = none
    | .entering r _ _ => s.dispatched = some r ∧ s.begun = false ∧ s.entry = none
    | .recording r _ => s.dispatched = some r ∧ s.begun = true ∧ s.entry = none
    | .checking o => s.entry = some o
    | .retracting o => s.entry = some o
    | .closing o _ => s.entry = some o
    | .finished (.ok h) => ∃ o, s.entry = some o ∧ o.handle = h
    | .finished (.error _) => s.begun = true → s.entry.isSome = true
  entry : ∀ o, s.entry = some o →
    s.begun = true ∧ ∃ r, s.dispatched = some r ∧ o.id = r.id ∧ o.node = r.node

theorem recorded_open1 {s : Race σ} (h : s.Recorded) : s.open1.Recorded := by
  obtain ⟨hstage, hentry⟩ := h
  unfold open1
  split
  · next hs =>
    rw [hs] at hstage
    obtain ⟨hbegun, hnone⟩ := hstage
    split
    · refine ⟨?_, hentry⟩
      intro hb
      rw [hbegun] at hb
      cases hb
    · refine ⟨⟨rfl, hbegun, hnone⟩, ?_⟩
      intro o ho
      rw [hnone] at ho
      cases ho
  · next hs =>
    rw [hs] at hstage
    obtain ⟨hdispatched, hbegun, hnone⟩ := hstage
    split
    · refine ⟨?_, hentry⟩
      intro hb
      rw [hbegun] at hb
      cases hb
    · refine ⟨⟨hdispatched, rfl, hnone⟩, ?_⟩
      intro o ho
      rw [hnone] at ho
      cases ho
  · next r path hs =>
    rw [hs] at hstage
    obtain ⟨hdispatched, hbegun, -⟩ := hstage
    refine ⟨rfl, ?_⟩
    intro o ho
    cases ho
    exact ⟨hbegun, r, hdispatched, rfl, rfl⟩
  · next o hs =>
    rw [hs] at hstage
    split
    · exact ⟨⟨o, hstage, rfl⟩, hentry⟩
    · exact ⟨hstage, hentry⟩
  · next o hs =>
    rw [hs] at hstage
    split
    · exact ⟨fun _ => Option.isSome_of_mem hstage, hentry⟩
    · exact ⟨hstage, hentry⟩
  · next o taken hs =>
    rw [hs] at hstage
    exact ⟨fun _ => Option.isSome_of_mem hstage, hentry⟩
  · exact ⟨hstage, hentry⟩

theorem recorded_turn {s : Race σ} (h : s.Recorded) (next : Turn σ) : (s.turn next).Recorded := by
  cases next with
  | opening => exact recorded_open1 h
  | removal =>
      obtain ⟨hstage, hentry⟩ := h
      refine ⟨?_, ?_⟩
      · simpa only [turn, opening_remove1, dispatched_remove1, begun_remove1, entry_remove1]
          using hstage
      · simpa only [turn, dispatched_remove1, begun_remove1, entry_remove1] using hentry
  | others a => exact ⟨h.stage, h.entry⟩

/-! ## No entry is in two places -/

/-- The entries wherever they are: in the account, in hand, or in the table. -/
def entries (s : Race σ) : List OpenHandle :=
  s.closings.map (·.entry) ++ s.opening.inHand ++ s.removal.inHand ++ s.tree.handles

/-- No number is in two places, the open's entry is in one, and whatever was closed was open. -/
structure Accounted (s : Race σ) : Prop where
  numbered : ∀ o ∈ s.entries, o.handle.number < s.tree.nextHandle
  distinct : (s.entries.map (·.handle)).Nodup
  held : ∀ o, s.entry = some o → o ∈ s.entries
  ended : ∀ c ∈ s.closings, c.ended = true

namespace Accounted

/-- Entries may change places. -/
theorem of_perm {s s' : Race σ} (h : s.Accounted) (hp : s'.entries.Perm s.entries)
    (hnext : s'.tree.nextHandle = s.tree.nextHandle) (hentry : s'.entry = s.entry)
    (hended : ∀ c ∈ s'.closings, c.ended = true) : s'.Accounted := by
  refine ⟨?_, ?_, ?_, hended⟩
  · intro o ho
    rw [hnext]
    exact h.numbered o (hp.subset ho)
  · exact (hp.map _).nodup_iff.mpr h.distinct
  · intro o ho
    exact hp.symm.subset (h.held o (hentry ▸ ho))

/-- The table may change in any way that gives new entries new numbers and leaves the open's entry
where it is. -/
theorem of_proceeds {s s' : Race σ} (h : s.Accounted) (hp : s.tree.Proceeds s'.tree)
    (hdistinct : (s'.tree.handles.map (·.handle)).Nodup)
    (hrest : s'.closings.map (·.entry) ++ s'.opening.inHand ++ s'.removal.inHand =
      s.closings.map (·.entry) ++ s.opening.inHand ++ s.removal.inHand)
    (hentry : ∀ o, s'.entry = some o →
      s.entry = some o ∧ (o ∈ s.tree.handles → o ∈ s'.tree.handles))
    (hended : ∀ c ∈ s'.closings, c.ended = true) : s'.Accounted := by
  obtain ⟨hnumbered, hnodup, hheld, -⟩ := h
  unfold entries at hnumbered hnodup hheld
  have hnext := hp.nextHandle
  refine ⟨?_, ?_, ?_, hended⟩
  · intro o ho
    rw [entries, hrest] at ho
    rcases List.mem_append.mp ho with ho | ho
    · exact Nat.lt_of_lt_of_le (hnumbered o (List.mem_append_left _ ho)) hnext
    · rcases hp.handle o ho with hold | hnew
      · exact Nat.lt_of_lt_of_le (hnumbered o (List.mem_append_right _ hold)) hnext
      · exact hnew.2
  · rw [entries, hrest, List.map_append, List.nodup_append]
    rw [List.map_append, List.nodup_append] at hnodup
    refine ⟨hnodup.1, hdistinct, ?_⟩
    intro number hleft number' hright
    obtain ⟨o, ho, rfl⟩ := List.mem_map.mp hright
    rcases hp.handle o ho with hold | hnew
    · exact hnodup.2.2 number hleft _ (List.mem_map_of_mem hold)
    · rintro rfl
      obtain ⟨e, he, hsame⟩ := List.mem_map.mp hleft
      have hlt := hnumbered e (List.mem_append_left _ he)
      rw [hsame] at hlt
      omega
  · intro o ho
    obtain ⟨ho, hstay⟩ := hentry o ho
    rw [entries, hrest]
    rcases List.mem_append.mp (hheld o ho) with hleft | hright
    · exact List.mem_append_left _ hleft
    · exact List.mem_append_right _ (hstay hright)

/-- The open's entry may come to the others, with the next number. -/
theorem of_new {s s' : Race σ} (h : s.Accounted) {o : OpenHandle}
    (hp : s'.entries.Perm (o :: s.entries)) (hnumber : o.handle.number = s.tree.nextHandle)
    (hnext : s'.tree.nextHandle = s.tree.nextHandle + 1) (hentry : s'.entry = some o)
    (hended : ∀ c ∈ s'.closings, c.ended = true) : s'.Accounted := by
  refine ⟨?_, ?_, ?_, hended⟩
  · intro e he
    rw [hnext]
    rcases List.mem_cons.mp (hp.subset he) with rfl | he
    · exact hnumber ▸ Nat.lt_succ_self _
    · exact Nat.lt_succ_of_lt (h.numbered e he)
  · refine (hp.map _).nodup_iff.mpr (List.nodup_cons.mpr ⟨?_, h.distinct⟩)
    -- the new number is beyond all that are anywhere
    intro hmem
    obtain ⟨e, he, heq⟩ := List.mem_map.mp hmem
    have hlt := h.numbered e he
    rw [heq, hnumber] at hlt
    exact Nat.lt_irrefl _ hlt
  · intro e he
    rw [hentry] at he
    cases he
    exact hp.symm.subset List.mem_cons_self

end Accounted

/-- Whoever closes a node whose session is in hand finds it open. -/
theorem busy_of_loose {s : Race σ} (hm : Tree.Matched s.loose s.tree) {ref : NodeRef}
    (h : ref ∈ s.loose) : s.tree.busy ref = true :=
  (hm.busy_iff ref).mpr (List.mem_append_left _ h)

theorem handles_of_books {t t' : Tree σ Empty} (h : t'.books = t.books) :
    t'.handles = t.handles := by
  simp only [Tree.books, Books.mk.injEq] at h
  exact h.2.2.1

theorem nextHandle_of_books {t t' : Tree σ Empty} (h : t'.books = t.books) :
    t'.nextHandle = t.nextHandle := by
  simp only [Tree.books, Books.mk.injEq] at h
  exact h.2.2.2.2

/-- To take an entry moves it from the table into a hand. -/
theorem perm_take (s : Race σ) {h : Handle} {taken : OpenHandle} {t : Tree σ Empty}
    (hm : Tree.Matched s.loose s.tree) (ht : s.tree.takeHandle h = some (taken, t))
    (first last : List OpenHandle) :
    (first ++ taken :: (last ++ t.handles)).Perm (first ++ (last ++ s.tree.handles)) := by
  refine List.Perm.append_left first ?_
  exact List.perm_middle.symm.trans ((hm.perm_takeHandle ht).append_left last)

theorem accounted_open1 {s : Race σ} (h : s.Accounted) (hr : s.Recorded)
    (hm : Tree.Matched s.loose s.tree) : s.open1.Accounted := by
  have hstage := hr.stage
  have hnew := matched_open1 hm
  unfold open1 at hnew ⊢
  split at hnew
  · next path access hs =>
    split
    · exact h.of_perm (by simp [entries, hs, Opening.inHand]) rfl rfl h.ended
    · have hb := Tree.books_noteOverlap s.tree path
      refine h.of_perm ?_ (nextHandle_of_books hb) rfl h.ended
      simp [entries, hs, Opening.inHand, handles_of_books hb]
  · next r path access hs =>
    rw [hs] at hstage
    obtain ⟨-, -, hnone⟩ := hstage
    have hopen := Tree.proceeds_openNode s.tree r.node path access
    split at hnew
    all_goals
      next ho =>
      rw [ho] at hopen
      refine h.of_proceeds hopen hnew.distinct ?_ ?_ h.ended
      · simp [hs, Opening.inHand]
      · intro o he
        rw [hnone] at he
        cases he
  · next r path hs =>
    refine h.of_new ?_ rfl rfl rfl h.ended
    rw [entries, entries, hs, Tree.addHandle_eq, ← List.append_assoc]
    exact List.perm_append_singleton _ _
  · next own hs =>
    split <;> exact h.of_perm (by simp [entries, hs, Opening.inHand]) rfl rfl h.ended
  · next own hs =>
    split
    · exact h.of_perm (by simp [entries, hs, lose, Tree.report, Opening.inHand]) rfl rfl h.ended
    · next taken t ht =>
      have hperm := perm_take s hm ht (s.closings.map (·.entry)) s.removal.inHand
      refine h.of_perm ?_ ?_ rfl h.ended
      · simpa [entries, hs, Opening.inHand] using hperm
      · obtain ⟨-, -, rfl⟩ := Tree.takeHandle_eq_some ht
        rfl
  · next own taken hs =>
    have hb := books_shut s.tree taken (.closeAfterLostOpenFailed taken.path)
    refine h.of_perm ?_ (nextHandle_of_books hb) rfl ?_
    · have hperm : (taken :: (s.closings.map (·.entry) ++ (s.removal.inHand ++ s.tree.handles))).Perm
          (s.closings.map (·.entry) ++ taken :: (s.removal.inHand ++ s.tree.handles)) :=
        List.perm_middle.symm
      simpa [entries, hs, lose, shut, Tree.report, Opening.inHand, handles_of_books hb] using hperm
    · intro c hc
      rcases List.mem_cons.mp hc with rfl | hc
      · exact busy_of_loose hm (by simp [loose, hs, Opening.loose])
      · exact h.ended c hc
  · exact h

theorem accounted_remove1 {s : Race σ} (h : s.Accounted)
    (hm : Tree.Matched s.loose s.tree) : s.remove1.Accounted := by
  unfold remove1
  split
  · next hs =>
    split <;>
      exact h.of_perm (by simp [entries, hs, Removal.inHand, Tree.dropRegistration]) rfl rfl h.ended
  · next hs =>
    exact h.of_perm (by simp [entries, hs, Removal.inHand]) rfl rfl h.ended
  · next hs =>
    exact h.of_perm (by simp [entries, hs, Removal.inHand, Tree.report]) rfl rfl h.ended
  · next number stale hs =>
    split
    · exact h.of_perm (by simp [entries, hs, Removal.inHand]) rfl rfl h.ended
    · next taken t ht =>
      have hperm := perm_take s hm ht (s.closings.map (·.entry) ++ s.opening.inHand) []
      refine h.of_perm ?_ ?_ rfl h.ended
      · simpa [entries, hs, Removal.inHand] using hperm
      · obtain ⟨-, -, rfl⟩ := Tree.takeHandle_eq_some ht
        rfl
  · next taken stale hs =>
    have hb := books_shut s.tree taken (.closeOnUnregisterFailed taken.path)
    refine h.of_perm ?_ (nextHandle_of_books hb) rfl ?_
    · have hperm : (taken :: (s.closings.map (·.entry) ++ (s.opening.inHand ++ s.tree.handles))).Perm
          (s.closings.map (·.entry) ++ (s.opening.inHand ++ taken :: s.tree.handles)) := by
        rw [← List.append_assoc, ← List.append_assoc]
        exact List.perm_middle.symm
      simpa [entries, hs, shut, Removal.inHand, handles_of_books hb] using hperm
    · intro c hc
      rcases List.mem_cons.mp hc with rfl | hc
      · exact busy_of_loose hm (by simp [loose, hs, Removal.inHand])
      · exact h.ended c hc
  · exact h

theorem accounted_turn {s : Race σ} (h : s.Accounted) (hr : s.Recorded)
    (hm : Tree.Matched s.loose s.tree) {next : Turn σ} (hallows : s.Allows next) :
    (s.turn next).Accounted := by
  cases next with
  | opening => exact accounted_open1 h hr hm
  | removal => exact accounted_remove1 h hm
  | others a =>
      exact h.of_proceeds (Tree.proceeds_perform s.tree a) (hm.perform a).distinct rfl
        (fun o ho => ⟨ho, hallows o ho⟩) h.ended

/-! ## Whole runs -/

/-- Where a race begins: nothing of the open or the removal has been done. -/
def starting (t : Tree σ Empty) (target : NodeId) (path : String) (access : Access) : Race σ where
  tree := t
  target := target
  opening := .looking path access

/-- All that is kept while an open and a removal race. -/
structure Orderly (s : Race σ) : Prop where
  matched : Tree.Matched s.loose s.tree
  dated : s.Dated
  watched : s.Watched
  recorded : s.Recorded
  accounted : s.Accounted

theorem orderly_starting {t : Tree σ Empty} (ht : t.Reachable) (target : NodeId) (path : String)
    (access : Access) : (starting t target path access).Orderly := by
  have hmatched := ht.matched
  refine ⟨hmatched, ⟨ht.id_lt, nofun, fun h => h.elim⟩, ?_, ⟨⟨rfl, rfl⟩, nofun⟩, ?_⟩
  · intro o ho
    exact .inl (ht.isRegistered_of_mem o ho)
  · exact ⟨hmatched.numbered, hmatched.distinct, nofun, nofun⟩

theorem orderly_turn {s : Race σ} (h : s.Orderly) {next : Turn σ} (hallows : s.Allows next) :
    (s.turn next).Orderly :=
  ⟨matched_turn h.matched next, dated_turn h.dated next, watched_turn h.watched next,
    recorded_turn h.recorded next, accounted_turn h.accounted h.recorded h.matched hallows⟩

theorem Run.orderly {first s : Race σ} (hrun : Run first s) (h : first.Orderly) : s.Orderly := by
  induction hrun with
  | start => exact h
  | turn next _ hallows ih => exact orderly_turn ih hallows

theorem Run.target {first s : Race σ} (hrun : Run first s) : s.target = first.target := by
  induction hrun with
  | start => rfl
  | turn next _ _ ih => rw [target_turn, ih]

/-! ## A registration that is gone loses the open -/

/-- Whether the open of the entry has lost, or can only lose if the registration stays gone. -/
def IsLosing (o : OpenHandle) : Opening → Prop
  | .checking own => own = o
  | .retracting own => own = o
  | .closing own _ => own = o
  | .finished result => result = .error (.notFound o.path)
  | _ => False

/-- The registration of the entry is gone, and its open has lost or is going to. -/
structure Lost (o : OpenHandle) (s : Race σ) : Prop where
  given : o.id.number < s.tree.nextId
  gone : s.tree.isRegistered o.id = false
  losing : IsLosing o s.opening

theorem isLosing_open1 {o : OpenHandle} {s : Race σ} (h : Lost o s) :
    IsLosing o s.open1.opening := by
  obtain ⟨-, hgone, hlosing⟩ := h
  unfold open1
  rcases hs : s.opening with _ | _ | _ | own | own | ⟨own, taken⟩ | result <;> rw [hs] at hlosing
  · exact hlosing.elim
  · exact hlosing.elim
  · exact hlosing.elim
  · cases hlosing
    simp only [hgone, Bool.false_eq_true, if_false]
    rfl
  · cases hlosing
    dsimp only
    split <;> rfl
  · cases hlosing
    rfl
  · rw [← hs] at hlosing
    exact hlosing

theorem lost_turn {o : OpenHandle} {s : Race σ} (h : Lost o s) (next : Turn σ) :
    Lost o (s.turn next) := by
  have hages := ages_turn s next
  refine ⟨Nat.lt_of_lt_of_le h.given hages.nextId, hages.not_isRegistered h.given h.gone, ?_⟩
  cases next with
  | opening => exact isLosing_open1 h
  | removal =>
      show IsLosing o s.remove1.opening
      rw [opening_remove1]
      exact h.losing
  | others a => exact h.losing

theorem Run.lost {o : OpenHandle} {first s : Race σ} (hrun : Run first s) (h : Lost o first) :
    Lost o s := by
  induction hrun with
  | start => exact h
  | turn next _ _ ih => exact lost_turn ih next

/-! ## When both are through -/

/-- Without its entry a handle has no session. -/
theorem noSession_of_handle? {t : Tree σ Empty} {h : Handle} (hnone : t.handle? h = none) :
    (∀ offset size, t.read h offset size = .error .noSession) ∧
    (∀ offset data, (t.write h offset data).1 = .error .noSession) ∧
    (t.close h).1 = .error .noSession := by
  have hdead : t.IsDead h := .of_handle? hnone
  refine ⟨hdead.read, fun offset data => ?_, ?_⟩
  · rw [hdead.write]
  · rw [hdead.close]

/-- An entry that was closed, and only once. -/
theorem filter_closings {closings : List Closing} {o : OpenHandle}
    (hdistinct : (closings.map (·.entry)).Nodup) (ho : o ∈ closings.map (·.entry))
    (hended : ∀ c ∈ closings, c.ended = true) : closings.filter (·.entry = o) = [⟨o, true⟩] := by
  induction closings with
  | nil => cases ho
  | cons first rest ih =>
      rw [List.map_cons, List.nodup_cons] at hdistinct
      obtain ⟨hnot, hdistinct⟩ := hdistinct
      have hrest := fun c hc => hended c (List.mem_cons_of_mem _ hc)
      by_cases he : first.entry = o
      · have hnone : rest.filter (·.entry = o) = [] := by
          refine List.filter_eq_nil_iff.mpr fun c hc hsame => ?_
          apply hnot
          rw [he, ← of_decide_eq_true hsame]
          exact List.mem_map_of_mem hc
        have hfirst : first = ⟨o, true⟩ := by
          have := hended first List.mem_cons_self
          cases first
          simp_all
        rw [List.filter_cons_of_pos (by simpa using he), hnone, hfirst]
      · rw [List.filter_cons_of_neg (by simpa using he)]
        rw [List.map_cons, List.mem_cons] at ho
        exact ih hdistinct (ho.resolve_left fun h => he h.symm) hrest

namespace Orderly

variable {s : Race σ}

/-- When neither has anything left to do, no handle is of a registration that is gone. -/
theorem id_ne_of_mem (h : s.Orderly) {result : Except Fault Handle}
    (hopen : s.opening = .finished result) (hrest : s.removal.AtRest)
    (hgone : s.tree.isRegistered s.target = false) :
    ∀ o ∈ s.tree.handles, o.id ≠ s.target := by
  rintro o ho hid
  rcases h.watched o ho with hreg | hcheck | ⟨-, htake⟩
  · rw [hid, hgone] at hreg
    cases hreg
  · rw [hopen] at hcheck
    exact hcheck
  · rcases hs : s.removal with _ | _ | _ | _ | _ <;> rw [hs] at hrest htake
    · exact htake
    · exact hrest
    · exact hrest
    · exact hrest
    · exact htake

/-- By then the open's entry, if there is one, has gone to the account. -/
theorem mem_closings (h : s.Orderly) {result : Except Fault Handle}
    (hopen : s.opening = .finished result) (hrest : s.removal.AtRest)
    (hgone : s.tree.isRegistered s.target = false) {o : OpenHandle} (ho : s.entry = some o)
    (hid : o.id = s.target) : o ∈ s.closings.map (·.entry) := by
  have hmem := h.accounted.held o ho
  have hremoval : s.removal.inHand = [] := by
    rcases hs : s.removal with _ | _ | _ | _ | _ <;> rw [hs] at hrest
    · rfl
    · exact hrest.elim
    · exact hrest.elim
    · exact hrest.elim
    · rfl
  rw [entries, hopen, hremoval] at hmem
  simp only [Opening.inHand, List.append_nil, List.mem_append] at hmem
  rcases hmem with hmem | hmem
  · exact hmem
  · exact absurd hid (h.id_ne_of_mem hopen hrest hgone o hmem)

/-- The session that the open began was closed once, and was there to be closed. -/
theorem closed_once (h : s.Orderly) {result : Except Fault Handle}
    (hs : s.opening = .finished result) (hrest : s.removal.AtRest)
    (hgone : s.tree.isRegistered s.target = false) {r : Registration}
    (hr : s.dispatched = some r) (hid : r.id = s.target) (hbegun : s.begun = true) :
    ∃ o, s.entry = some o ∧ o.node = r.node ∧ s.closings.filter (·.entry = o) = [⟨o, true⟩] := by
  obtain ⟨o, ho⟩ : ∃ o, s.entry = some o := by
    have hstage := h.recorded.stage
    rw [hs] at hstage
    rcases result with fault | number
    · exact Option.isSome_iff_exists.mp (hstage hbegun)
    · exact hstage.imp fun _ ho => ho.1
  obtain ⟨-, r', hr', hid', hnode⟩ := h.recorded.entry o ho
  rw [hr] at hr'
  cases hr'
  -- the entry is in one place only, so it is in the account once
  have hdistinct : (s.closings.map (·.entry)).Nodup := by
    refine ((List.Sublist.map _ ?_).nodup h.accounted.distinct).of_map
    simp only [entries, List.append_assoc]
    exact List.sublist_append_left _ _
  have hclosed := h.mem_closings hs hrest hgone ho (hid'.trans hid)
  exact ⟨o, ho, hnode, filter_closings hdistinct hclosed h.accounted.ended⟩

/-- A handle that the open returned has no session any more. -/
theorem noSession (h : s.Orderly) {number : Handle} (hs : s.opening = .finished (.ok number))
    (hrest : s.removal.AtRest) (hgone : s.tree.isRegistered s.target = false) {r : Registration}
    (hr : s.dispatched = some r) (hid : r.id = s.target) :
    (∀ offset size, s.tree.read number offset size = .error .noSession) ∧
    (∀ offset data, (s.tree.write number offset data).1 = .error .noSession) ∧
    (s.tree.close number).1 = .error .noSession := by
  have hstage := h.recorded.stage
  rw [hs] at hstage
  obtain ⟨o, ho, rfl⟩ := hstage
  obtain ⟨-, r', hr', hid', -⟩ := h.recorded.entry o ho
  rw [hr] at hr'
  cases hr'
  have hclosed := h.mem_closings hs hrest hgone ho (hid'.trans hid)
  apply noSession_of_handle?
  refine List.find?_eq_none.mpr fun e he hsame => ?_
  -- the number of a closed entry would be in the table too
  have hnodup := h.accounted.distinct
  rw [entries, List.map_append, List.nodup_append] at hnodup
  refine hnodup.2.2 o.handle ?_ e.handle (List.mem_map_of_mem he) (of_decide_eq_true hsame).symm
  simp only [List.append_assoc, List.map_append]
  exact List.mem_append_left _ (List.mem_map_of_mem hclosed)

/-- While its session has not been closed, the open's node is busy. -/
theorem busy_of_begun (h : s.Orderly) {r : Registration} (hr : s.dispatched = some r)
    (hbegun : s.begun = true) (hopen : ∀ c ∈ s.closings, s.entry ≠ some c.entry) :
    s.tree.busy r.node = true := by
  rcases he : s.entry with _ | o
  · have hstage := h.recorded.stage
    rcases hs : s.opening with _ | _ | ⟨r', path⟩ | _ | _ | _ | result <;> rw [hs] at hstage
    · rw [hstage.1] at hbegun
      cases hbegun
    · rw [hstage.2.1] at hbegun
      cases hbegun
    · rw [hstage.1] at hr
      cases hr
      exact busy_of_loose h.matched (by simp [loose, hs, Opening.loose])
    · rw [hstage] at he
      cases he
    · rw [hstage] at he
      cases he
    · rw [hstage] at he
      cases he
    · rcases result with fault | number
      · have hsome := hstage hbegun
        rw [he] at hsome
        cases hsome
      · obtain ⟨o, ho, -⟩ := hstage
        rw [ho] at he
        cases he
  · obtain ⟨-, r', hr', -, hnode⟩ := h.recorded.entry o he
    rw [hr] at hr'
    cases hr'
    rw [← hnode]
    have hmem := h.accounted.held o he
    rw [entries] at hmem
    simp only [List.mem_append] at hmem
    rcases hmem with ((hclosed | hhand) | hhand) | htable
    · obtain ⟨c, hc, rfl⟩ := List.mem_map.mp hclosed
      exact absurd he (hopen c hc)
    · refine busy_of_loose h.matched (List.mem_append_left _ ?_)
      rcases hs : s.opening with _ | _ | _ | _ | _ | ⟨own, taken⟩ | _ <;> rw [hs] at hhand <;>
        simp_all [Opening.inHand, Opening.loose]
    · exact busy_of_loose h.matched (List.mem_append_right _ (List.mem_map_of_mem hhand))
    · exact (h.matched.busy_iff _).mpr (List.mem_append_right _ (List.mem_map_of_mem htable))

end Orderly

/-- An open is atomic with respect to the removal of the registration it was dispatched to. Whatever
the order of their steps, and whatever others do to the tree short of closing the handle:

* an open that finds the registration gone at its last look ends with `notFound`;
* once both are through, and the registration is gone, no handle is of that registration; the
  session that the open began was closed once, and was there to be closed; and a handle that the
  open returned has no session any more;
* until it is closed, the session is open. -/
theorem open_atomic {t : Tree σ Empty} (ht : t.Reachable) {target : NodeId} {path : String}
    {access : Access} {s : Race σ} (hrun : Run (starting t target path access) s) :
    (∀ o, s.opening = .checking o → s.tree.isRegistered o.id = false →
      ∀ s', Run s s' → ∀ result, s'.opening = .finished result →
        result = .error (.notFound o.path)) ∧
    (s.removal = .finished true → s.tree.isRegistered target = false) ∧
    (∀ result, s.opening = .finished result → s.removal.AtRest →
      s.tree.isRegistered target = false →
      (∀ o ∈ s.tree.handles, o.id ≠ target) ∧
      (∀ r, s.dispatched = some r → r.id = target → s.begun = true →
        ∃ o, s.entry = some o ∧ o.node = r.node ∧
          s.closings.filter (·.entry = o) = [⟨o, true⟩]) ∧
      (∀ r h, s.dispatched = some r → r.id = target → result = .ok h →
        (∀ offset size, s.tree.read h offset size = .error .noSession) ∧
        (∀ offset data, (s.tree.write h offset data).1 = .error .noSession) ∧
        (s.tree.close h).1 = .error .noSession)) ∧
    (∀ r, s.dispatched = some r → s.begun = true →
      (∀ c ∈ s.closings, s.entry ≠ some c.entry) → s.tree.busy r.node = true) := by
  have horderly := hrun.orderly (orderly_starting ht target path access)
  have htarget : s.target = target := hrun.target
  refine ⟨?_, ?_, ?_, ?_⟩
  · intro o hs hgone s' hrun' result hresult
    have hentry : s.entry = some o := by
      have hstage := horderly.recorded.stage
      rwa [hs] at hstage
    obtain ⟨-, r, hr, hid, -⟩ := horderly.recorded.entry o hentry
    have hlost : Lost o s := by
      refine ⟨?_, hgone, ?_⟩
      · rw [hid]
        exact horderly.dated.dispatched r hr
      · rw [hs]
        rfl
    have hlosing := (hrun'.lost hlost).losing
    rwa [hresult] at hlosing
  · intro hs
    rw [← htarget]
    refine (horderly.dated.gone ?_).2
    rw [hs]
    rfl
  · intro result hs hrest hgone
    rw [← htarget] at hgone ⊢
    refine ⟨horderly.id_ne_of_mem hs hrest hgone, ?_, ?_⟩
    · intro r hr hid hbegun
      exact horderly.closed_once hs hrest hgone hr hid hbegun
    · intro r number hr hid hresult
      exact horderly.noSession (hresult ▸ hs) hrest hgone hr hid
  · intro r hr hbegun hopen
    exact horderly.busy_of_begun hr hbegun hopen

/-- Whether the turn is one of the open or of the removal. -/
def IsOwn : Turn σ → Prop
  | .others _ => False
  | _ => True

theorem Run.foldl_turn {first s : Race σ} (hrun : Run first s) {turns : List (Turn σ)}
    (h : ∀ next ∈ turns, IsOwn next) : Run first (turns.foldl Race.turn s) := by
  induction turns generalizing s with
  | nil => exact hrun
  | cons next turns ih =>
      have hallows : s.Allows next := by
        have hown := h next List.mem_cons_self
        cases next with
        | opening => trivial
        | removal => trivial
        | others a => exact hown.elim
      exact ih (.turn next hrun hallows) fun next hmem => h next (List.mem_cons_of_mem _ hmem)

/-- A tree with one read-only node. -/
def published : Tree Unit Empty :=
  (Tree.addNode { publisher := () } (.readOnly Tree.version)).2.perform (.register ⟨0⟩)

/-- Its node is opened while its registration is removed. -/
def begin : Race Unit := starting published ⟨1⟩ "/app/version" .reading

/-- The registration is dropped, and the handle found, before the open's last look. -/
def looked : Race Unit :=
  [.opening, .opening, .opening, .removal, .removal].foldl turn begin

/-- Both want to take the handle, and the removal comes first. -/
def lost : Race Unit :=
  [.opening, .removal, .removal, .removal, .opening].foldl turn looked

/-- The open is through before the removal begins. -/
def late : Race Unit :=
  [.opening, .opening, .opening, .opening, .removal, .removal, .removal, .removal, .removal].foldl
    turn begin

theorem open_atomic_lost_late :
    (∀ result, lost.opening = .finished result →
      result = .error (.notFound "/app/version")) ∧
    (∃ o, lost.entry = some o ∧ lost.closings.filter (·.entry = o) = [⟨o, true⟩]) ∧
    late.opening = .finished (.ok ⟨1⟩) ∧ late.tree.read ⟨1⟩ 0 1 = .error .noSession := by
  have hreach : published.Reachable :=
    .perform (.register ⟨0⟩) (.addNode (.readOnly Tree.version) (.empty {} ()) rfl)
  have hlooked : Run begin looked := .foldl_turn .start (by simp [IsOwn])
  have hlost : Run looked lost := .foldl_turn .start (by simp [IsOwn])
  have hend : Run begin lost := hlooked.foldl_turn (by simp [IsOwn])
  have hlate : Run begin late := .foldl_turn .start (by simp [IsOwn])
  refine ⟨?_, ?_, rfl, ?_⟩
  · exact (open_atomic hreach hlooked).1 ⟨⟨1⟩, ⟨1⟩, ⟨0⟩, "/app/version"⟩ rfl rfl lost hlost
  · obtain ⟨-, -, hend, -⟩ := open_atomic hreach hend
    obtain ⟨-, honce, -⟩ := hend (.error (.notFound "/app/version")) rfl trivial rfl
    obtain ⟨o, ho, -, hclosed⟩ := honce ⟨⟨1⟩, ⟨0⟩⟩ rfl rfl rfl
    exact ⟨o, ho, hclosed⟩
  · obtain ⟨-, -, hend, -⟩ := open_atomic hreach hlate
    obtain ⟨-, -, hnone⟩ := hend (.ok ⟨1⟩) rfl trivial rfl
    exact (hnone ⟨⟨1⟩, ⟨0⟩⟩ ⟨1⟩ rfl rfl rfl).1 0 1

end Race

end LiveTree
