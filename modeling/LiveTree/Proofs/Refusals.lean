import LiveTree.Proofs.Keys
import LiveTree.Proofs.Visits

/-!
# Writes that fail

A whole write can fail before a session begins, when the data are too long, or when the sink fails at
the end. The first and the last change no content that the publisher does not change itself. But a
session that could have written leaves its key behind, and so does one that was refused the data: if
the key had no value it has the empty one since (`writeAll_error`).
-/

namespace LiveTree.Tree

section

variable {σ ε : Type} [Foreign ε] {t t' : Tree σ ε} {path q : String} {r : Registration}
  {data : Bytes} {fault : Fault}

/-- A write that the owner does not grant changes nothing. -/
theorem writeAll_of_refused (hq : Path.normalize path = .ok q) (ho : t.owner? q = some r)
    {n : Node σ ε} (hn : t.node? r.node = some n)
    (hp : n.permit t.publisher q .writing = .error fault) :
    t.writeAll path data = (.error fault, t.noteOverlap q) := by
  have hopen : (t.noteOverlap q).openNode r.node q .writing = (.error fault, t.noteOverlap q) := by
    unfold openNode
    rw [node?_noteOverlap, hn]
    dsimp only
    rw [publisher_noteOverlap, hp]
  unfold writeAll openFile
  rw [hq]
  dsimp only
  rw [ho]
  dsimp only
  rw [hopen]

/-- The file at the path is served by an idle key store, which `ref` leads to, as a key that has no
value. -/
def Awaits (t : Tree σ ε) (path : String) (ref : NodeRef) (key : String) : Prop :=
  ∃ q r n, Path.normalize path = .ok q ∧ t.owner? q = some r ∧ r.node = ref ∧
    t.node? ref = some (.keyStore n) ∧ n.session = none ∧ n.keyFor? t.publisher q = some key ∧
    n.get? key = none

/-- The key stores have the entries that they had. -/
def SameKeys (t t' : Tree σ ε) : Prop :=
  ∀ ref n, t.node? ref = some (.keyStore n) →
    ∃ m, t'.node? ref = some (.keyStore m) ∧ m.entries = n.entries

omit [Foreign ε] in
theorem SameKeys.of_nodes (h : t'.nodes = t.nodes) : SameKeys t t' := by
  intro ref n hn
  refine ⟨n, ?_, rfl⟩
  rw [node?, h]
  exact hn

omit [Foreign ε] in
/-- A visit to a node that is no key store leaves the keys alone. -/
theorem SameKeys.of_visited {n m : Node σ ε} (h : Visited t t' r.node m)
    (hn : t.node? r.node = some n) (hother : ∀ n', n ≠ .keyStore n') : SameKeys t t' := by
  intro ref n' hn'
  by_cases he : ref = r.node
  · subst he
    rw [hn] at hn'
    cases hn'
    exact absurd rfl (hother n')
  · refine ⟨n', ?_, rfl⟩
    rw [h.others ref he]
    exact hn'

end

/-! ## The outcomes of a write that fails -/

variable {σ : Type} {t : Tree σ Empty} {path q : String} {r : Registration} {data : Bytes}
  {fault : Fault}

/-- A session for writing is refused or begins on nothing, with a node that is idle. -/
theorem permit_writing (n : Node σ Empty) (s : σ) (q : String) :
    (∃ fault, n.permit s q .writing = .error fault) ∨
    (∃ m, n = .readWrite m ∧ m.session = none) ∨
    (∃ m key, n = .keyStore m ∧ m.session = none ∧ m.keyFor? s q = some key) := by
  rcases hp : n.permit s q .writing with fault | source
  · exact .inl ⟨fault, rfl⟩
  · cases n with
    | readOnly n =>
        obtain ⟨-, haccess, -⟩ := ReadOnly.permit_eq_ok hp
        cases haccess
    | readWrite n => exact .inr (.inl ⟨n, rfl, (ReadWrite.permit_eq_ok hp).2.2.1⟩)
    | keyStore n =>
        obtain ⟨content, hp, -⟩ := map_eq_ok.mp hp
        obtain ⟨⟨key, hkey⟩, -, hidle⟩ := KeyStore.permit_eq_ok hp
        exact .inr (.inr ⟨n, key, rfl, hidle, hkey⟩)
    | foreign e removals => exact e.elim

/-- Of a file with an owner, it is the owner's key that may have no value. -/
theorem awaits_iff (hq : Path.normalize path = .ok q) (ho : t.owner? q = some r) {ref : NodeRef}
    {key : String} : t.Awaits path ref key ↔ ref = r.node ∧ ∃ n,
      t.node? r.node = some (.keyStore n) ∧ n.session = none ∧
      n.keyFor? t.publisher q = some key ∧ n.get? key = none := by
  constructor
  · rintro ⟨q', r', n, hq', ho', rfl, hn, hidle, hkey, hnone⟩
    cases hq.symm.trans hq'
    cases ho.symm.trans ho'
    exact ⟨rfl, n, hn, hidle, hkey, hnone⟩
  · rintro ⟨rfl, n, hn, hidle, hkey, hnone⟩
    exact ⟨q, r, n, hq, ho, rfl, hn, hidle, hkey, hnone⟩

/-- A write that an idle read-write node fails is refused, or its sink fails. -/
theorem writeAll_eq_error_readWrite {n : ReadWrite σ} {t' : Tree σ Empty} (h : t.Numbered)
    (hq : Path.normalize path = .ok q) (ho : t.owner? q = some r)
    (hn : t.node? r.node = some (.readWrite n)) (hidle : n.session = none)
    (hfail : t.writeAll path data = (.error fault, t')) :
    SameKeys t t' ∧ (t'.publisher = t.publisher ∨
      ∃ failure, n.sink data t.publisher = (.error failure, t'.publisher)) := by
  by_cases hfits : t.Fits data
  · obtain ⟨t'', hall, hstate, hvisited⟩ := writeAll_readWrite h hq ho hn hidle hfits
    rcases hsink : n.sink data t.publisher with ⟨failure | ⟨⟩, s⟩
    · rw [hsink] at hall hstate
      cases hall.symm.trans hfail
      refine ⟨.of_visited hvisited hn nofun, .inr ⟨failure, ?_⟩⟩
      rw [hstate]
    · rw [hsink] at hall
      cases hall.symm.trans hfail
  · obtain ⟨limit, t'', hall, hsame, hvisited⟩ :=
      writeAll_readWrite_of_not_fits h hq ho hn hidle hfits
    cases hall.symm.trans hfail
    exact ⟨.of_visited hvisited hn nofun, .inl hsame⟩

/-- A write that an idle key store fails is refused, which leaves the key behind. -/
theorem writeAll_eq_error_keyStore {n : KeyStore σ} {key : String} {t' : Tree σ Empty}
    (h : t.Numbered) (hq : Path.normalize path = .ok q) (ho : t.owner? q = some r)
    (hn : t.node? r.node = some (.keyStore n)) (hidle : n.session = none)
    (hkey : n.keyFor? t.publisher q = some key)
    (hfail : t.writeAll path data = (.error fault, t')) :
    ∃ limit, fault = .tooLarge limit ∧ t'.publisher = t.publisher ∧
      Visited t t' r.node (.keyStore { n with entries := n.entries.alter key (·.getD #[]) }) := by
  by_cases hfits : t.Fits data
  · obtain ⟨t'', hall, -⟩ := writeAll_keyStore h hq ho hn hidle hkey hfits
    cases hall.symm.trans hfail
  · obtain ⟨limit, t'', hall, hsame, hvisited⟩ :=
      writeAll_keyStore_of_not_fits h hq ho hn hidle hkey hfits
    cases hall.symm.trans hfail
    exact ⟨limit, rfl, hsame, hvisited⟩

/-- All that a whole write that fails can do. Either no key was awaited and none changes, and at
most a failing sink has changed the publisher's state. Or the data were too long for a key store,
which has the key since. -/
theorem writeAll_eq_error {t' : Tree σ Empty} (h : t.Numbered)
    (hfail : t.writeAll path data = (.error fault, t')) :
    (SameKeys t t' ∧ (∀ ref key, ¬ t.Awaits path ref key) ∧
      (t'.publisher = t.publisher ∨ ∃ ref n failure, t.node? ref = some (.readWrite n) ∧
        n.sink data t.publisher = (.error failure, t'.publisher))) ∨
    (∃ ref n key limit, t.node? ref = some (.keyStore n) ∧ fault = .tooLarge limit ∧
      t'.publisher = t.publisher ∧
      Visited t t' ref (.keyStore { n with entries := n.entries.alter key (·.getD #[]) }) ∧
      ∀ ref' key', t.Awaits path ref' key' ↔ ref' = ref ∧ key' = key ∧ n.get? key = none) := by
  rcases hq : Path.normalize path with refused | q
  · have hall : t.writeAll path data = (.error refused, t) := by
      simp [writeAll, openFile, hq]
    cases hall.symm.trans hfail
    refine .inl ⟨.of_nodes rfl, ?_, .inl rfl⟩
    rintro ref key ⟨q, r, n, hq', -⟩
    cases hq.symm.trans hq'
  rcases ho : t.owner? q with _ | r
  · have hall : t.writeAll path data = (.error (.notFound q), t) := by
      simp [writeAll, openFile, hq, ho]
    cases hall.symm.trans hfail
    refine .inl ⟨.of_nodes rfl, ?_, .inl rfl⟩
    rintro ref key ⟨q', r, n, hq', ho', -⟩
    cases hq.symm.trans hq'
    cases ho.symm.trans ho'
  obtain ⟨n, hn, -⟩ := claims_iff.mp (claims_of_owner? ho).2
  rcases permit_writing n t.publisher q with ⟨refused, hp⟩ | ⟨n, rfl, hidle⟩ |
    ⟨n, key, rfl, hidle, hkey⟩
  · cases (writeAll_of_refused hq ho hn hp).symm.trans hfail
    refine .inl ⟨.of_nodes (nodes_noteOverlap t q), ?_, .inl (publisher_noteOverlap t q)⟩
    intro ref key hawaits
    -- a key store that awaits the key grants the session
    obtain ⟨-, m, hm, hidle, hkey, -⟩ := (awaits_iff hq ho).mp hawaits
    cases hn.symm.trans hm
    cases (KeyStore.permit_writing hkey hidle).symm.trans hp
  · obtain ⟨hkeys, hpublisher⟩ := writeAll_eq_error_readWrite h hq ho hn hidle hfail
    refine .inl ⟨hkeys, ?_, hpublisher.imp_right fun ⟨failure, hs⟩ => ⟨_, n, failure, hn, hs⟩⟩
    intro ref key hawaits
    obtain ⟨-, m, hm, -⟩ := (awaits_iff hq ho).mp hawaits
    cases hn.symm.trans hm
  · obtain ⟨limit, hfault, hsame, hvisited⟩ :=
      writeAll_eq_error_keyStore h hq ho hn hidle hkey hfail
    refine .inr ⟨r.node, n, key, limit, hn, hfault, hsame, hvisited, ?_⟩
    intro ref' key'
    rw [awaits_iff hq ho]
    refine and_congr_right fun _ => ⟨?_, ?_⟩
    · rintro ⟨m, hm, -, hkey', hnone⟩
      cases hn.symm.trans hm
      cases hkey.symm.trans hkey'
      exact ⟨rfl, hnone⟩
    · rintro ⟨rfl, hnone⟩
      exact ⟨n, hn, hidle, hkey, hnone⟩

/-- In a tree of built-in nodes whose sinks leave what is stored alone when they fail, a whole write
that fails leaves what is stored alone, and every value of every key. It makes no key either, with
one exception: data that are too long for a file which an idle key store serves, as a key that has no
value, leave the key behind with the empty value. -/
theorem writeAll_error (h : InUse t) {α : Type} (stored : σ → α)
    (hsink : ∀ ref n, t.node? ref = some (.readWrite n) → ∀ content s failure s',
      n.sink content s = (.error failure, s') → stored s' = stored s)
    (hfail : (t.writeAll path data).1 = .error fault) :
    stored (t.writeAll path data).2.publisher = stored t.publisher ∧
    ∀ ref n, t.node? ref = some (.keyStore n) → ∃ m,
      (t.writeAll path data).2.node? ref = some (.keyStore m) ∧
      ((∀ key, ¬ t.Awaits path ref key) → m.entries = n.entries) ∧
      (∀ key, t.Awaits path ref key →
        (∃ limit, fault = .tooLarge limit) ∧ m.entries = n.entries.insert key #[]) := by
  rcases hall : t.writeAll path data with ⟨answer, t'⟩
  rw [hall] at hfail
  cases hfail
  rcases writeAll_eq_error h.numbered hall with ⟨hkeys, hnone, hpublisher⟩ |
    ⟨ref, n, key, limit, hn, hfault, hsame, hvisited, hawaits⟩
  · constructor
    · rcases hpublisher with hsame | ⟨ref, n, failure, hn, hs⟩
      · exact congrArg stored hsame
      · exact hsink ref n hn data _ failure _ hs
    · intro ref n hn
      obtain ⟨m, hm, he⟩ := hkeys ref n hn
      exact ⟨m, hm, fun _ => he, fun key hkey => absurd hkey (hnone ref key)⟩
  · refine ⟨congrArg stored hsame, ?_⟩
    have hsorted : n.entries.Sorted := KeyStore.Orderly.sorted (h.orderly hn)
    intro ref' n' hn'
    by_cases he : ref' = ref
    · subst he
      cases hn.symm.trans hn'
      refine ⟨_, hvisited.node, ?_, ?_⟩
      · intro hnot
        -- the key has a value, which it keeps
        obtain ⟨value, hvalue⟩ := Option.ne_none_iff_exists'.mp fun hnone =>
          hnot key ((hawaits ref' key).mpr ⟨rfl, rfl, hnone⟩)
        exact NameMap.alter_eq_self hsorted hvalue rfl
      · intro key' hkey
        obtain ⟨-, rfl, hnone⟩ := (hawaits ref' key').mp hkey
        refine ⟨⟨limit, hfault⟩, NameMap.alter_congr hsorted ?_⟩
        show ((n.get? key').getD #[]) = #[]
        rw [hnone]
        rfl
    · refine ⟨n', (hvisited.others ref' he).trans hn', fun _ => rfl, ?_⟩
      intro key' hkey
      exact absurd ((hawaits ref' key').mp hkey).1 he

/-! ### What failing writes leave -/

/-- A disk that is full: what it holds, and how often it refused. -/
structure Full where
  content : Bytes
  refusals : Nat

/-- A file that lies on the disk. -/
def brimming : ReadWrite Full where
  location := ⟨.fixed "/disk", "file", rfl⟩
  provider := { supply := fun _ s => (.ok s.content, s) }
  sink _ s := (.error ⟨"disk full", []⟩, { s with refusals := s.refusals + 1 })

/-- Keys beside it. -/
def notes : KeyStore Full where
  directory := .fixed "/notes"

/-- The two, with a limit of four octets for each write. -/
def crammed : Tree Full Empty :=
  [.register ⟨0⟩, .register ⟨1⟩, .insert ⟨1⟩ "old" #[7]].foldl perform
    (addNode (addNode { settings := { maxWriteBytes := 4 }, publisher := ⟨#[1], 0⟩ }
      (.readWrite brimming)).2 (.keyStore notes)).2

theorem reachable_crammed : Reachable crammed :=
  .perform (.insert ⟨1⟩ "old" #[7]) (.perform (.register ⟨1⟩) (.perform (.register ⟨0⟩)
    (.addNode (.keyStore notes) (.addNode (.readWrite brimming) (.empty _ _) ⟨rfl, rfl, rfl⟩)
      ⟨rfl, rfl⟩)))

/-- The sink fails, and both what is on the disk and the keys are as before. -/
theorem writeAll_error_crammed :
    (crammed.writeAll "/disk/file" #[2]).1 = .error (.ofFailure ⟨"disk full", []⟩) ∧
    (crammed.writeAll "/disk/file" #[2]).2.publisher.content = #[1] ∧
    ∃ m, (crammed.writeAll "/disk/file" #[2]).2.node? ⟨1⟩ = some (.keyStore m) ∧
      m.entries = [("old", #[7])] := by
  have hfail : (crammed.writeAll "/disk/file" #[2]).1 = .error (.ofFailure ⟨"disk full", []⟩) := rfl
  have hsink : ∀ ref n, crammed.node? ref = some (.readWrite n) → ∀ content s failure s',
      n.sink content s = (.error failure, s') → s'.content = s.content := by
    intro ref n hn content s failure s' hs
    obtain ⟨index⟩ := ref
    match index, hn with
    | 0, hn =>
        cases hn
        cases hs
        rfl
    | 1, hn => cases hn
    | index + 2, hn => cases hn
  have howner : crammed.owner? "/disk/file" = some ⟨⟨1⟩, ⟨0⟩⟩ := by decide
  obtain ⟨hstored, hkeys⟩ := writeAll_error reachable_crammed.inUse Full.content hsink hfail
  obtain ⟨m, hm, hsame, -⟩ := hkeys ⟨1⟩ _ rfl
  refine ⟨hfail, hstored, m, hm, hsame ?_⟩
  intro key hawaits
  obtain ⟨href, -⟩ := (awaits_iff (q := "/disk/file") rfl howner).mp hawaits
  cases href

/-- Five octets are too many, and the key that they were meant for is there all the same. -/
theorem writeAll_leaves_key :
    Reachable crammed ∧
      (crammed.writeAll "/notes/new" #[1, 2, 3, 4, 5]).1 = .error (.tooLarge 4) ∧
      crammed.list "/notes" = .ok [⟨"old", .file⟩] ∧
      (crammed.writeAll "/notes/new" #[1, 2, 3, 4, 5]).2.list "/notes" =
        .ok [⟨"new", .file⟩, ⟨"old", .file⟩] :=
  ⟨reachable_crammed, rfl, rfl, rfl⟩

end LiveTree.Tree
