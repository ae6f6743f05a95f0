import LiveTree.Proofs.Numbering
import LiveTree.Proofs.Retelling
import LiveTree.Proofs.Visits

/-!
# Overlaps

A file may be claimed by several nodes. The one that was registered first serves it
(`ServesEarliest`), and the policy of the tree decides no more than whether that is worth a warning:
two runs that differ in their policy give the same answers and leave the same tree, policy and
warnings apart (`overlap_policy`).

The operations that look up the owner of a file are those that begin `throughOwner`. They note the
overlap, and go on as an operation that is indifferent to the policy.
-/

namespace LiveTree

/-- The file, in canonical form, whose owner an action looks up. -/
def Action.file? {σ : Type} : Action σ → Option String
  | .openFile path _ | .readAll path | .writeAll path _ | .truncate path _ | .stat path =>
    (Path.normalize path).toOption
  | _ => none

namespace Tree

variable {σ ε : Type}

/-! ## Without a word of overlaps -/

/-- The tree as it is when nobody cares for overlaps. -/
def muted (t : Tree σ ε) : Tree σ ε := t.retold (.withoutOverlaps .ignore)

/-- The tree with another policy. -/
def withPolicy (t : Tree σ ε) (policy : OverlapPolicy) : Tree σ ε :=
  { t with settings := { t.settings with overlap := policy } }

/-- What has been reported of overlaps. -/
def overlaps (t : Tree σ ε) : List Event := t.log.filter (·.isOverlap)

/-- Results that differ at most in the policy, and in what is reported of overlaps. -/
def Alike {α : Type} (x y : α × Tree σ ε) : Prop := x.1 = y.1 ∧ x.2.muted = y.2.muted

variable {α β : Type} {t : Tree σ ε}

theorem registrations_muted : t.muted.registrations = t.registrations := rfl

theorem muted_withPolicy (policy : OverlapPolicy) : (t.withPolicy policy).muted = t.muted := rfl

/-- An operation that is indifferent to the policy reports no overlap. -/
theorem Indifferent.overlaps {f : Tree σ ε → α × Tree σ ε} (hf : Indifferent f) (t : Tree σ ε) :
    (f t).2.overlaps = t.overlaps := by
  -- what the operation reports by itself is seen where nothing has been reported yet
  let bare : Tree σ ε := { t with log := [] }
  have hbare : t = bare.retold (.behind t.settings.overlap t.log) := by
    simp [bare, retold, Retelling.behind]
  have hfree : (f bare).2.log = (f bare).2.log.filter (!·.isOverlap) :=
    congrArg (fun r => r.2.log) (hf (.withoutOverlaps t.settings.overlap) bare)
  have hlog : (f t).2.log = t.log ++ (f bare).2.log := by
    rw [hbare, hf]
    simp [retold, Retelling.behind, bare]
  rw [Tree.overlaps, hlog, List.filter_append, hfree, List.filter_filter]
  simp [Tree.overlaps]

theorem Indifferent.bind {f : Tree σ ε → α × Tree σ ε} {g : α → Tree σ ε → β × Tree σ ε}
    (hf : Indifferent f) (hg : ∀ a, Indifferent (g a)) :
    Indifferent fun t => g (f t).1 (f t).2 := by
  intro k t
  dsimp only
  rw [hf, hg]

variable [Foreign ε]

/-! ## Owners -/

/-- The registration claims the file, and was made before all others that do. -/
structure IsEarliest (t : Tree σ ε) (path : String) (r : Registration) : Prop where
  registered : r ∈ t.registrations
  claims : t.claims path r = true
  first : ∀ other ∈ t.registrations, t.claims path other = true → r.id.number ≤ other.id.number

theorem owner?_eq_some_iff {path : String} {r : Registration}
    (h : t.registrations.Pairwise fun r r' => r.id.number < r'.id.number) :
    t.owner? path = some r ↔ t.IsEarliest path r := by
  have hclaimants := h.sublist (List.filter_sublist (p := t.claims path))
  constructor
  · intro howner
    obtain ⟨hmem, hclaims⟩ := claims_of_owner? howner
    refine ⟨hmem, hclaims, fun other hother hclaim => ?_⟩
    obtain ⟨rest, hrest⟩ := List.head?_eq_some_iff.mp howner
    have hin : other ∈ t.claimants path := List.mem_filter.mpr ⟨hother, hclaim⟩
    rw [hrest] at hin
    rw [claimants] at hrest
    rw [hrest, List.pairwise_cons] at hclaimants
    rcases List.mem_cons.mp hin with rfl | hin
    · exact Nat.le_refl _
    · exact Nat.le_of_lt (hclaimants.1 other hin)
  · intro hearliest
    have hin : r ∈ t.claimants path := List.mem_filter.mpr ⟨hearliest.registered, hearliest.claims⟩
    rcases hc : t.claimants path with _ | ⟨winner, rest⟩
    · rw [hc] at hin
      cases hin
    · have hwinner : winner ∈ t.registrations ∧ t.claims path winner = true :=
        List.mem_filter.mp (hc ▸ List.mem_cons_self : winner ∈ t.claimants path)
      rw [claimants] at hc
      rw [hc, List.pairwise_cons] at hclaimants
      rw [claimants, hc] at hin
      rw [owner?, claimants, hc]
      rcases List.mem_cons.mp hin with rfl | hin
      · rfl
      · have := hclaimants.1 r hin
        have := hearliest.first winner hwinner.1 hwinner.2
        omega

/-! ## The note of an overlap -/

/-- What is reported when the owner of the file is looked up. -/
def warnings (t : Tree σ ε) (path : String) : List Event :=
  if t.settings.overlap = .warn ∧ 2 ≤ (t.claimants path).length then
    (t.owner? path).toList.map fun winner =>
      .overlap path winner.id ((t.claimants path).length - 1)
  else []

theorem log_noteOverlap (t : Tree σ ε) (path : String) :
    t.noteOverlap path = { t with log := t.log ++ t.warnings path } := by
  unfold noteOverlap warnings owner?
  split
  · next first second more hc hpolicy =>
    rw [hc, if_pos ⟨hpolicy, by simp⟩]
    rfl
  · next hnone =>
    rw [if_neg, List.append_nil]
    rintro ⟨hpolicy, hlength⟩
    rcases hc : t.claimants path with _ | ⟨first, _ | ⟨second, more⟩⟩
    · simp [hc] at hlength
    · simp [hc] at hlength
    · exact hnone first second more hc hpolicy

theorem isOverlap_of_mem_warnings {path : String} {e : Event} (he : e ∈ t.warnings path) :
    e.isOverlap = true := by
  unfold warnings at he
  split at he
  · obtain ⟨winner, -, rfl⟩ := List.mem_map.mp he
    rfl
  · cases he

@[simp] theorem muted_noteOverlap (t : Tree σ ε) (path : String) :
    (t.noteOverlap path).muted = t.muted := by
  have hall : (t.warnings path).filter (!·.isOverlap) = [] := by
    refine List.filter_eq_nil_iff.mpr fun e he => ?_
    simp [isOverlap_of_mem_warnings he]
  rw [log_noteOverlap]
  simp [muted, retold, Retelling.withoutOverlaps, hall]

theorem noteOverlap_muted (t : Tree σ ε) (path : String) : t.muted.noteOverlap path = t.muted := by
  rw [log_noteOverlap, warnings, if_neg (fun h => nomatch h.1), List.append_nil]

theorem overlaps_noteOverlap (t : Tree σ ε) (path : String) :
    (t.noteOverlap path).overlaps = t.overlaps ++ t.warnings path := by
  rw [log_noteOverlap, overlaps, List.filter_append, overlaps,
    List.filter_eq_self.mpr fun e he => isOverlap_of_mem_warnings he]

/-! ## Operations on the owner of a file -/

/-- Does `serve` on the owner of the file once the overlap has been noted, and `otherwise` without
an owner. -/
def throughOwner (path : String) (serve : Registration → String → Tree σ ε → α × Tree σ ε)
    (otherwise : Except Fault String → Tree σ ε → α × Tree σ ε) (t : Tree σ ε) : α × Tree σ ε :=
  match Path.normalize path with
  | .error fault => otherwise (.error fault) t
  | .ok path =>
    match t.owner? path with
    | none => otherwise (.ok path) t
    | some r => serve r path (t.noteOverlap path)

/-- Opens the file on the node of the registration. -/
def openAs (r : Registration) (path : String) (access : Access) (t : Tree σ ε) :
    Except Fault Handle × Tree σ ε :=
  match t.openNode r.node path access with
  | (.error fault, t) => (.error fault, t)
  | (.ok (), t) => (t.addHandle r path).2.confirmOpen (t.addHandle r path).1

/-- The attributes of the file on the node of the registration. -/
def statAs (r : Registration) (path : String) (t : Tree σ ε) :
    Except Fault Attributes × Tree σ ε :=
  match t.sizeOn r.node path with
  | (.error fault, t) => (.error fault, t)
  | (.ok size, t) => (.ok (.file size (t.isWritableOn r.node path)), t)

/-- The attributes of what is no file. -/
def statOtherwise (path : Except Fault String) (t : Tree σ ε) :
    Except Fault Attributes × Tree σ ε :=
  match path with
  | .error fault => (.error fault, t)
  | .ok path => (if t.isDirectory path then .ok .directory else .error (.notFound path), t)

/-- The refusal of what is no file. -/
def refuse (path : Except Fault String) (t : Tree σ ε) : Except Fault α × Tree σ ε :=
  match path with
  | .error fault => (.error fault, t)
  | .ok path => (.error (.notFound path), t)

theorem openFile_eq (t : Tree σ ε) (path : String) (access : Access) :
    t.openFile path access = t.throughOwner path (fun r path => openAs r path access) refuse := by
  unfold openFile throughOwner
  rcases Path.normalize path with fault | q
  · rfl
  · dsimp only
    rcases t.owner? q with _ | r <;> rfl

theorem truncate_eq (t : Tree σ ε) (path : String) (size : Nat) :
    t.truncate path size =
      t.throughOwner path (fun r path t => t.resizeOn r.node path size) refuse := by
  unfold truncate throughOwner
  rcases Path.normalize path with fault | q
  · rfl
  · dsimp only
    rcases t.owner? q with _ | r <;> rfl

theorem stat_eq (t : Tree σ ε) (path : String) :
    t.stat path = t.throughOwner path statAs statOtherwise := by
  unfold stat throughOwner
  rcases Path.normalize path with fault | q
  · rfl
  · dsimp only
    rcases t.owner? q with _ | r
    · unfold statOtherwise
      dsimp only
      split <;> rfl
    · rfl

theorem indifferent_openAs (r : Registration) (path : String) (access : Access) :
    Indifferent (openAs r path access : Tree σ ε → _) := by
  intro k t
  unfold openAs
  rw [openNode_retold]
  rcases t.openNode r.node path access with ⟨fault | ⟨⟩, opened⟩
  · rfl
  · exact confirmOpen_retold (t := (opened.addHandle r path).2) _

theorem indifferent_statAs (r : Registration) (path : String) :
    Indifferent (statAs r path : Tree σ ε → _) := by
  intro k t
  unfold statAs
  rw [sizeOn_retold]
  rcases t.sizeOn r.node path with ⟨fault | size, sized⟩ <;> rfl

theorem indifferent_statOtherwise (path : Except Fault String) :
    Indifferent (statOtherwise path : Tree σ ε → _) := by
  intro k t
  cases path <;> rfl

omit [Foreign ε] in
theorem indifferent_refuse (path : Except Fault String) :
    Indifferent (refuse path : Tree σ ε → Except Fault α × Tree σ ε) := by
  intro k t
  cases path <;> rfl

/-- The operation notes the overlap of the file, and is indifferent to the policy otherwise. -/
structure Consults (file : Option String) (f : Tree σ ε → α × Tree σ ε) : Prop where
  muted : ∀ t : Tree σ ε, f t.muted = ((f t).1, (f t).2.muted)
  overlaps : ∀ t : Tree σ ε, (f t).2.overlaps = t.overlaps ++ file.elim [] t.warnings

theorem Indifferent.consults {f : Tree σ ε → α × Tree σ ε} (hf : Indifferent f) :
    Consults none f where
  muted := hf _
  overlaps t := by rw [hf.overlaps]; simp

/-- After the note of an overlap an indifferent operation does what it did before it. -/
theorem Indifferent.alike_noteOverlap {f : Tree σ ε → α × Tree σ ε} (hf : Indifferent f)
    (t : Tree σ ε) (path : String) : Alike (f (t.noteOverlap path)) (f t) := by
  have hmuted : f (t.noteOverlap path).muted = f t.muted := by rw [muted_noteOverlap]
  rw [Tree.muted, Tree.muted, hf, hf] at hmuted
  exact Prod.mk.inj hmuted

theorem consults_throughOwner {path : String}
    {serve : Registration → String → Tree σ ε → α × Tree σ ε}
    {otherwise : Except Fault String → Tree σ ε → α × Tree σ ε}
    (hserve : ∀ r q, Indifferent (serve r q)) (hotherwise : ∀ q, Indifferent (otherwise q)) :
    Consults (Path.normalize path).toOption (throughOwner path serve otherwise) := by
  rcases hpath : Path.normalize path with fault | q
  · have heq : throughOwner path serve otherwise = otherwise (.error fault) := by
      funext t
      simp only [throughOwner, hpath]
    rw [heq]
    exact (hotherwise _).consults
  · constructor
    · intro t
      have howner : t.muted.owner? q = t.owner? q := rfl
      simp only [throughOwner, hpath, howner]
      rcases t.owner? q with _ | r
      · exact hotherwise _ _ t
      · dsimp only
        rw [noteOverlap_muted]
        obtain ⟨hanswer, htree⟩ := (hserve r q).alike_noteOverlap t q
        rw [hanswer, htree]
        exact hserve r q _ t
    · intro t
      simp only [throughOwner, hpath]
      rcases howner : t.owner? q with _ | r
      · show ((otherwise (.ok q) t).2).overlaps = t.overlaps ++ t.warnings q
        rw [(hotherwise _).overlaps, warnings, howner]
        simp
      · show ((serve r q (t.noteOverlap q)).2).overlaps = t.overlaps ++ t.warnings q
        rw [(hserve r q).overlaps, overlaps_noteOverlap]

theorem Consults.bind {file : Option String} {f : Tree σ ε → α × Tree σ ε}
    {g : α → Tree σ ε → β × Tree σ ε} (hf : Consults file f) (hg : ∀ a, Indifferent (g a)) :
    Consults file fun t => g (f t).1 (f t).2 where
  muted t := by
    rw [hf.muted]
    exact hg _ _ _
  overlaps t := by rw [(hg _).overlaps, hf.overlaps]

theorem consults_openFile (path : String) (access : Access) :
    Consults (Path.normalize path).toOption fun t : Tree σ ε => t.openFile path access := by
  simp only [openFile_eq]
  exact consults_throughOwner (fun r q => indifferent_openAs r q access) indifferent_refuse

theorem consults_truncate (path : String) (size : Nat) :
    Consults (Path.normalize path).toOption fun t : Tree σ ε => t.truncate path size := by
  simp only [truncate_eq]
  exact consults_throughOwner (fun r q _ _ => resizeOn_retold r.node q size) indifferent_refuse

theorem consults_stat (path : String) :
    Consults (Path.normalize path).toOption fun t : Tree σ ε => t.stat path := by
  simp only [stat_eq]
  exact consults_throughOwner indifferent_statAs indifferent_statOtherwise

/-- Reads the file that was opened, and closes it. -/
def readOpened (opened : Except Fault Handle) (t : Tree σ ε) : Except Fault Bytes × Tree σ ε :=
  match opened with
  | .error fault => (.error fault, t)
  | .ok h => (firstFault (t.drain h 0) (t.close h).1, (t.close h).2)

/-- Writes the file that was opened, and closes it. -/
def writeOpened (data : Bytes) (opened : Except Fault Handle) (t : Tree σ ε) :
    Except Fault Nat × Tree σ ε :=
  match opened with
  | .error fault => (.error fault, t)
  | .ok h =>
    (firstFault (t.write h 0 data).1 ((t.write h 0 data).2.close h).1,
      ((t.write h 0 data).2.close h).2)

theorem consults_readAll (path : String) :
    Consults (Path.normalize path).toOption fun t : Tree σ ε => t.readAll path := by
  have heq : ∀ t : Tree σ ε,
      t.readAll path = readOpened (t.openFile path .reading).1 (t.openFile path .reading).2 := by
    intro t
    unfold readAll
    rcases t.openFile path .reading with ⟨fault | h, opened⟩ <;> rfl
  simp only [heq]
  apply (consults_openFile path .reading).bind
  rintro (fault | h) k t
  · rfl
  · simp only [readOpened, drain_retold, close_retold]

theorem consults_writeAll (path : String) (data : Bytes) :
    Consults (Path.normalize path).toOption fun t : Tree σ ε => t.writeAll path data := by
  have heq : ∀ t : Tree σ ε, t.writeAll path data =
      writeOpened data (t.openFile path .writing).1 (t.openFile path .writing).2 := by
    intro t
    unfold writeAll
    rcases t.openFile path .writing with ⟨fault | h, opened⟩ <;> rfl
  simp only [heq]
  apply (consults_openFile path .writing).bind
  rintro (fault | h) k t
  · rfl
  · simp only [writeOpened, write_retold, close_retold]

/-! ## Actions and runs -/

/-- An action and its answer. -/
def act (a : Action σ) (t : Tree σ ε) : Outcome × Tree σ ε := (t.outcome a, t.perform a)

theorem Indifferent.named {f : Tree σ ε → α × Tree σ ε} (hf : Indifferent f) (name : α → β) :
    Consults none fun t => (name (f t).1, (f t).2) :=
  (hf.bind (g := fun a t => (name a, t)) fun _ _ _ => rfl).consults

theorem Consults.named {file : Option String} {f : Tree σ ε → α × Tree σ ε} (hf : Consults file f)
    (name : α → β) : Consults file fun t => (name (f t).1, (f t).2) :=
  hf.bind (g := fun a t => (name a, t)) fun _ _ _ => rfl

/-- Every action notes the overlap of its file, if it has one, and is indifferent to the policy
otherwise. -/
theorem consults_act {a : Action σ} (ha : a ≠ .takeLog) :
    Consults a.file? (act a : Tree σ ε → Outcome × Tree σ ε) := by
  cases a with
  | openFile path access => exact (consults_openFile path access).named Outcome.opened
  | readAll path => exact (consults_readAll path).named Outcome.content
  | writeAll path data => exact (consults_writeAll path data).named Outcome.taken
  | truncate path size => exact (consults_truncate path size).named Outcome.ended
  | stat path => exact (consults_stat path).named Outcome.attributes
  | register ref =>
      exact Indifferent.named (f := (·.register ref)) (fun _ _ => register_retold ref)
        Outcome.registered
  | unregister id =>
      exact Indifferent.named (f := (·.unregister id)) (fun _ _ => unregister_retold id)
        Outcome.unregistered
  | write h offset data =>
      exact Indifferent.named (f := (·.write h offset data))
        (fun _ _ => write_retold h offset data) Outcome.taken
  | close h =>
      exact Indifferent.named (f := (·.close h)) (fun _ _ => close_retold h) Outcome.ended
  | longPoll h offset size =>
      exact Indifferent.named (f := (·.longPoll h offset size))
        (fun _ _ => longPoll_retold h offset size) Outcome.began
  | longPollAll h =>
      exact Indifferent.named (f := (·.longPollAll h)) (fun _ _ => longPollAll_retold h)
        Outcome.began
  | «notify» ref =>
      exact Indifferent.named (f := (·.notify ref)) (fun _ _ => notify_retold ref)
        Outcome.announced
  | look p =>
      refine Indifferent.consults fun k t => Prod.ext ?_ (look_retold p)
      show Outcome.looked _ = Outcome.looked _
      rw [finish?_retold, Option.map_map]
      rfl
  | insert ref key value =>
      exact Indifferent.consults fun _ _ => Prod.ext rfl (insertKey_retold ref key value)
  | remove ref key => exact Indifferent.consults fun _ _ => Prod.ext rfl (removeKey_retold ref key)
  | read h offset size => exact Indifferent.consults fun _ _ => rfl
  | list path => exact Indifferent.consults fun _ _ => rfl
  | publish f => exact Indifferent.consults fun _ _ => rfl
  | takeLog => exact absurd rfl ha

theorem act_muted (t : Tree σ ε) (a : Action σ) :
    act a t.muted = (t.outcome a, (t.perform a).muted) := by
  by_cases ha : a = .takeLog
  · subst ha
    rfl
  · exact (consults_act ha).muted t

theorem run_muted (t : Tree σ ε) (actions : List (Action σ)) :
    t.muted.outcomes actions = t.outcomes actions ∧
      t.muted.performAll actions = (t.performAll actions).muted := by
  induction actions generalizing t with
  | nil => exact ⟨rfl, rfl⟩
  | cons a actions ih =>
      obtain ⟨hanswer, htree⟩ := Prod.mk.inj (act_muted t a)
      obtain ⟨hanswers, htrees⟩ := ih (t.perform a)
      rw [outcomes_cons, outcomes_cons, performAll_cons, performAll_cons, hanswer, htree]
      exact ⟨congrArg _ hanswers, htrees⟩

theorem exists_eq_stat (t : Tree σ ε) (path : String) :
    t.exists path = ((t.stat path).1.isOk, (t.stat path).2) := by
  unfold «exists»
  split <;> next hs =>
    rw [hs]
    rfl

/-! ## Both policies -/

/-- An action on a file that several nodes claim reports so once, naming the earliest of them and
how many others there are; any other action reports nothing of that kind. -/
structure WarnsOnce (t : Tree σ ε) (a : Action σ) : Prop where
  several : ∀ q, a.file? = some q → 2 ≤ t.registrations.countP (t.claims q) →
    ∃ winner, t.IsEarliest q winner ∧ (t.perform a).overlaps =
      t.overlaps ++ [.overlap q winner.id (t.registrations.countP (t.claims q) - 1)]
  nothing : (∀ q, a.file? = some q → t.registrations.countP (t.claims q) < 2) →
    (t.perform a).overlaps = t.overlaps

/-- Attributes, resizes and opens of a file are those on the earliest node that claims it. -/
structure ServesEarliest (t : Tree σ ε) : Prop where
  claimed : ∀ q, 0 < t.registrations.countP (t.claims q) → ∃! r, t.IsEarliest q r
  stat : ∀ path q r, Path.normalize path = .ok q → t.IsEarliest q r →
    Alike (t.stat path) (t.statAs r q)
  truncate : ∀ path q r size, Path.normalize path = .ok q → t.IsEarliest q r →
    Alike (t.truncate path size) (t.resizeOn r.node q size)
  openFile : ∀ path q r access, Path.normalize path = .ok q → t.IsEarliest q r →
    Alike (t.openFile path access) (t.openAs r q access)
  handle : ∀ path q r access h t', Path.normalize path = .ok q → t.IsEarliest q r →
    t.openFile path access = (.ok h, t') → t'.handle? h = some ⟨h, r.id, r.node, q⟩
  /-- Nothing happens to a file that no node claims. -/
  unclaimed : ∀ path q access size, Path.normalize path = .ok q →
    t.registrations.countP (t.claims q) = 0 →
      t.stat path = (if t.isDirectory q then .ok .directory else .error (.notFound q), t) ∧
      t.truncate path size = (.error (.notFound q), t) ∧
      t.openFile path access = (.error (.notFound q), t)

theorem length_claimants (t : Tree σ ε) (q : String) :
    (t.claimants q).length = t.registrations.countP (t.claims q) :=
  List.countP_eq_length_filter.symm

section ascending

variable (hascending : t.registrations.Pairwise fun r r' => r.id.number < r'.id.number)
include hascending

theorem exists_owner?_of_claimed {q : String} (hq : 0 < t.registrations.countP (t.claims q)) :
    ∃ r, t.owner? q = some r ∧ t.IsEarliest q r := by
  rw [← length_claimants] at hq
  rcases howner : t.owner? q with _ | r
  · rw [List.head?_eq_none_iff.mp howner] at hq
    cases hq
  · exact ⟨r, rfl, (owner?_eq_some_iff hascending).mp howner⟩

theorem WarnsOnce.of_ascending {a : Action σ} (hpolicy : t.settings.overlap = .warn)
    (ha : a ≠ .takeLog) : t.WarnsOnce a := by
  have hoverlaps : (t.perform a).overlaps = t.overlaps ++ a.file?.elim [] t.warnings :=
    (consults_act ha).overlaps t
  constructor
  · intro q hfile hcount
    obtain ⟨winner, howner, hwinner⟩ := exists_owner?_of_claimed hascending (q := q) (by omega)
    refine ⟨winner, hwinner, ?_⟩
    rw [hoverlaps, hfile]
    show t.overlaps ++ t.warnings q = _
    rw [warnings, length_claimants, if_pos ⟨hpolicy, hcount⟩, howner]
    rfl
  · intro hfew
    have hnone : a.file?.elim [] t.warnings = [] := by
      rcases hfile : a.file? with _ | q
      · rfl
      · show t.warnings q = []
        rw [warnings, length_claimants, if_neg]
        rintro ⟨-, htwo⟩
        have := hfew q hfile
        omega
    rw [hoverlaps, hnone, List.append_nil]

theorem ServesEarliest.of_ascending (hnumbered : t.Numbered) : t.ServesEarliest where
  claimed q hq := by
    obtain ⟨r, howner, hr⟩ := exists_owner?_of_claimed hascending hq
    refine ⟨r, hr, fun r' hr' => ?_⟩
    exact Option.some.inj (((owner?_eq_some_iff hascending).mpr hr').symm.trans howner)
  stat path q r hpath hr := by
    have howner := (owner?_eq_some_iff hascending).mpr hr
    simp only [stat_eq, throughOwner, hpath, howner]
    exact (indifferent_statAs r q).alike_noteOverlap t q
  truncate path q r size hpath hr := by
    have howner := (owner?_eq_some_iff hascending).mpr hr
    simp only [truncate_eq, throughOwner, hpath, howner]
    have hresize : Indifferent fun t : Tree σ ε => t.resizeOn r.node q size :=
      fun _ _ => resizeOn_retold r.node q size
    exact hresize.alike_noteOverlap t q
  openFile path q r access hpath hr := by
    have howner := (owner?_eq_some_iff hascending).mpr hr
    simp only [openFile_eq, throughOwner, hpath, howner]
    exact (indifferent_openAs r q access).alike_noteOverlap t q
  handle path q r access h t' hpath hr hopen := by
    obtain ⟨canonical, owner, opened, hcanonical, howner, hnode, rfl, rfl⟩ := openFile_eq_ok hopen
    cases hpath.symm.trans hcanonical
    cases ((owner?_eq_some_iff hascending).mpr hr).symm.trans howner
    exact handle?_addHandle (hnumbered.openNode hnode) r q
  unclaimed path q access size hpath hnone := by
    have howner : t.owner? q = none := by
      rw [owner?, List.head?_eq_none_iff]
      exact List.eq_nil_of_length_eq_zero ((length_claimants t q).trans hnone)
    simp [stat_eq, truncate_eq, openFile_eq, throughOwner, hpath, howner, statOtherwise, refuse]

end ascending

/-- With the policy to ignore, no action reports an overlap. -/
theorem overlaps_perform_of_ignore {a : Action σ} (hpolicy : t.settings.overlap = .ignore)
    (ha : a ≠ .takeLog) : (t.perform a).overlaps = t.overlaps := by
  have hnone : ∀ q, t.warnings q = [] := fun q => if_neg fun h => by simp [hpolicy] at h
  rw [show (t.perform a).overlaps = t.overlaps ++ a.file?.elim [] t.warnings from
    (consults_act ha).overlaps t]
  cases a.file? <;> simp [hnone]

/-- Two runs of the same actions from the same tree, one with either policy, give the same answers,
and the trees they leave differ in their policies and in what was reported of overlaps only. In both
a file is served by the earliest of the nodes that claim it. With the policy to warn, every action
that looks up the owner of a file with several claimants reports so once, and no other does; with
the policy to ignore, none ever does. -/
theorem overlap_policy {start : Tree σ ε} (h : Reachable start) (actions : List (Action σ)) :
    let warned := (start.withPolicy .warn).performAll actions
    let silent := (start.withPolicy .ignore).performAll actions
    (start.withPolicy .warn).outcomes actions = (start.withPolicy .ignore).outcomes actions ∧
    warned.muted = silent.muted ∧
    (∀ path, warned.isDirectory path = silent.isDirectory path ∧
      (warned.exists path).1 = (silent.exists path).1 ∧
      (warned.exists path).2 = warned.perform (.stat path) ∧
      (silent.exists path).2 = silent.perform (.stat path)) ∧
    warned.ServesEarliest ∧ silent.ServesEarliest ∧
    (∀ a, a ≠ .takeLog →
      warned.WarnsOnce a ∧ (silent.perform a).overlaps = silent.overlaps) := by
  intro warned silent
  have hrun : ∀ policy, (start.withPolicy policy).outcomes actions = start.outcomes actions ∧
      ((start.withPolicy policy).performAll actions).muted = (start.performAll actions).muted := by
    intro policy
    obtain ⟨hanswers, htrees⟩ := run_muted (start.withPolicy policy) actions
    rw [muted_withPolicy] at hanswers htrees
    obtain ⟨hanswers', htrees'⟩ := run_muted start actions
    exact ⟨hanswers.symm.trans hanswers', htrees.symm.trans htrees'⟩
  have hmuted : warned.muted = silent.muted := (hrun .warn).2.trans (hrun .ignore).2.symm
  -- what holds of the registrations and handles of a reachable tree holds with any policy
  have hascending : ∀ policy,
      ((start.withPolicy policy).performAll actions).registrations.Pairwise
        fun r r' => r.id.number < r'.id.number := by
    intro policy
    rw [← registrations_muted, (hrun policy).2, registrations_muted]
    exact (h.performAll actions).ascending
  have hnumbered : ∀ policy, ((start.withPolicy policy).performAll actions).Numbered :=
    fun policy => (proceeds_performAll _ actions).numbered h.inUse.numbered
  have hpolicy : ∀ policy,
      ((start.withPolicy policy).performAll actions).settings.overlap = policy :=
    fun policy => congrArg TreeSettings.overlap (proceeds_performAll _ actions).settings
  have hstat : ∀ path, (warned.stat path).1 = (silent.stat path).1 := by
    intro path
    have hsame : ∀ t : Tree σ ε, (t.muted.stat path).1 = (t.stat path).1 :=
      fun t => (Prod.ext_iff.mp ((consults_stat path).muted t)).1
    rw [← hsame warned, hmuted, hsame silent]
  refine ⟨(hrun .warn).1.trans (hrun .ignore).1.symm, hmuted, ?_,
    .of_ascending (hascending .warn) (hnumbered .warn),
    .of_ascending (hascending .ignore) (hnumbered .ignore), ?_⟩
  · intro path
    rw [exists_eq_stat, exists_eq_stat]
    exact ⟨congrArg (·.isDirectory path) hmuted, congrArg Except.isOk (hstat path), rfl, rfl⟩
  · intro a ha
    exact ⟨.of_ascending (hascending .warn) (hpolicy .warn) ha,
      overlaps_perform_of_ignore (hpolicy .ignore) ha⟩

/-- Another node for the same file. -/
def revision : ReadOnly Unit := { version with provider := .ofText fun _ => "r42" }

/-- Two nodes that claim one file. -/
def contested : Tree Unit Empty :=
  [.register ⟨1⟩, .register ⟨0⟩].foldl perform
    (addNode (addNode { publisher := () } (.readOnly version)).2 (.readOnly revision)).2

/-- The node that was registered first serves the file, until it is removed. -/
theorem overlap_policy_contested :
    let warned := (contested.withPolicy .warn).performAll [.readAll "/app/version"]
    let silent := (contested.withPolicy .ignore).performAll [.readAll "/app/version"]
    Reachable contested ∧ warned.muted = silent.muted ∧
      warned.overlaps = [.overlap "/app/version" ⟨1⟩ 1] ∧ silent.overlaps = [] ∧
      (warned.stat "/app/version").1 = .ok (.file 3 false) ∧
      (warned.perform (.stat "/app/version")).overlaps =
        warned.overlaps ++ [.overlap "/app/version" ⟨1⟩ 1] ∧
      ((warned.perform (.unregister ⟨1⟩)).stat "/app/version").1 = .ok (.file 1 false) := by
  intro warned silent
  have hreach : Reachable contested :=
    .perform (.register ⟨0⟩) (.perform (.register ⟨1⟩)
      (.addNode (.readOnly revision) (.addNode (.readOnly version) (.empty {} ()) rfl) rfl))
  obtain ⟨-, hmuted, -, hserves, -, hwarns⟩ := overlap_policy hreach [.readAll "/app/version"]
  obtain ⟨winner, hwinner, hoverlaps⟩ :=
    (hwarns (.stat "/app/version") nofun).1.several "/app/version" rfl (by decide)
  refine ⟨hreach, hmuted, by decide, by decide, by decide, ?_, by decide⟩
  have hfirst : warned.IsEarliest "/app/version" ⟨⟨1⟩, ⟨1⟩⟩ :=
    ⟨by decide, by decide, by decide⟩
  rw [(hserves.claimed "/app/version" (by decide)).unique hwinner hfirst] at hoverlaps
  exact hoverlaps

end Tree

end LiveTree
