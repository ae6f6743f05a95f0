import LiveTree.Proofs.Keys
import LiveTree.Proofs.Visits

/-!
# What is written can be read

A whole content that was written to a file comes back from it, whatever its length, under every
spelling of the path (`writeAll_readAll`). A key store keeps what was written itself. A read-write
node hands it to the publisher, so there it takes a publisher that stores it and does nothing else
that the file depends on: `Stores` says so, and `writeAll_readAll_moved` shows what happens when the
file moves away with what is stored.
-/

namespace LiveTree

variable {σ ε : Type}

/-- In the states `K` of the publisher the provider supplies `content`; it does not leave them, and
asks for no removals. -/
structure Provider.Keeps (p : Provider σ) (K : σ → Prop) (content : Bytes) : Prop where
  removals : ∀ s, K s → p.removals s = []
  supply : ∀ infos s, K s → ∃ s', p.supply infos s = (.ok content, s') ∧ K s'

namespace Tree

variable [Foreign ε] {t t' : Tree σ ε} {K : σ → Prop} {path q : String} {r : Registration}
  {content data : Bytes}

theorem provide_of_keeps {p : Provider σ} (h : p.Keeps K content) (now : K t.publisher) :
    ∃ s, K s ∧ t.provide p = (.ok content, { t with publisher := s }) := by
  obtain ⟨s, hs, hK⟩ := h.supply t.listing t.publisher now
  refine ⟨s, hK, ?_⟩
  rw [provide_eq_supply, afterRemovals_eq_self (h.removals _ now), hs]
  rfl

/-- A visit that leaves the node claiming the same files leaves every file with its owner. -/
theorem Visited.owner?_eq {n m : Node σ ε} (h : Visited t t' r.node m)
    (hn : t.node? r.node = some n)
    (hmatch : ∀ s path, m.matchesFile s path = n.matchesFile s path) (s : σ) (q : String) :
    ({ t' with publisher := s } : Tree σ ε).owner? q =
      ({ t with publisher := s } : Tree σ ε).owner? q := by
  have hregistrations : t'.registrations = t.registrations := congrArg Books.registrations h.books
  have hclaims : ∀ other, ({ t' with publisher := s } : Tree σ ε).claims q other =
      ({ t with publisher := s } : Tree σ ε).claims q other := by
    intro other
    show (t'.node? other.node).any _ = (t.node? other.node).any _
    by_cases he : other.node = r.node
    · rw [he, h.node, hn]
      exact hmatch s q
    · rw [h.others _ he]
  unfold owner? claimants
  rw [funext hclaims]
  show (t'.registrations.filter _).head? = _
  rw [hregistrations]

/-! ## Files that stand for a content -/

/-- The file `q` stands for `content`, as long as the publisher is in the states `K`: the
registration `r` serves it, whose node has no session, and holds the content or has a provider that
keeps it. -/
structure Holds (t : Tree σ ε) (K : σ → Prop) (q : String) (r : Registration) (content : Bytes) :
    Prop where
  now : K t.publisher
  owner : ∀ s, K s → ({ t with publisher := s } : Tree σ ε).owner? q = some r
  node : (∃ n key, t.node? r.node = some (.keyStore n) ∧ n.session = none ∧
      (∀ s, K s → n.keyFor? s q = some key) ∧ n.get? key = some content) ∨
    (∃ n, t.node? r.node = some (.readWrite n) ∧ n.session = none ∧ n.provider.Keeps K content)

/-- Reading the file gives the content, and the file goes on to stand for it. -/
theorem Holds.readAll (h : t.Holds K q r content) (hnumbered : t.Numbered)
    (hq : Path.normalize path = .ok q) :
    ∃ t', t.readAll path = (.ok content, t') ∧ t'.Holds K q r content := by
  have ho : t.owner? q = some r := h.owner _ h.now
  rcases h.node with ⟨n, key, hn, hidle, hkey, hvalue⟩ | ⟨n, hn, hidle, hkeeps⟩
  · obtain ⟨t', hall, hsame, hvisited⟩ :=
      readAll_keyStore hnumbered hq ho hn hidle (hkey _ h.now) hvalue
    refine ⟨t', hall, ?_, ?_, .inl ⟨n, key, hvisited.node, hidle, hkey, hvalue⟩⟩
    · rw [hsame]
      exact h.now
    · intro s hs
      rw [hvisited.owner?_eq hn (fun _ _ => rfl)]
      exact h.owner s hs
  · obtain ⟨s, hs, hf⟩ := provide_of_keeps (t := t.noteOverlap q) hkeeps
      ((publisher_noteOverlap t q).symm ▸ h.now)
    obtain ⟨t', hall, hstate, hvisited⟩ := readAll_readWrite hnumbered hq ho hn hidle hf
    refine ⟨t', hall, ?_, ?_, .inr ⟨_, hvisited.node, hidle, hkeeps⟩⟩
    · rw [hstate]
      exact hs
    · intro s hs
      rw [hvisited.owner?_eq hn (fun _ _ => rfl)]
      exact h.owner s hs

/-- The attributes tell the size of the content. -/
theorem Holds.stat (h : t.Holds K q r content) (hq : Path.normalize path = .ok q) :
    (t.stat path).1 = .ok (.file content.size true) := by
  have ho : t.owner? q = some r := h.owner _ h.now
  rcases h.node with ⟨n, key, hn, -, hkey, hvalue⟩ | ⟨n, hn, -, hkeeps⟩
  · rw [stat_keyStore hq ho hn (hkey _ h.now) hvalue]
  · obtain ⟨s, hs, hf⟩ := provide_of_keeps (t := t.noteOverlap q) hkeeps
      ((publisher_noteOverlap t q).symm ▸ h.now)
    -- the provider may have left another state, but one in which the file has the same owner
    have hmatches : n.location.matchesFile s q = true := matchesFile_of_owner? (h.owner s hs) hn
    rw [stat_readWrite hq ho hn hf, hmatches]

/-! ## Writing -/

/-- The sink of the node that serves the file `q` takes the data, and leaves the publisher in states
in which the provider supplies them and the file is served as before. -/
def Stores (t : Tree σ ε) (q : String) (r : Registration) (n : ReadWrite σ) (data : Bytes) : Prop :=
  ∃ K : σ → Prop, (∃ s, n.sink data t.publisher = (.ok (), s) ∧ K s) ∧ n.provider.Keeps K data ∧
    ∀ s, K s → ({ t with publisher := s } : Tree σ ε).owner? q = some r

/-- After a write that its sink stores, a file of an idle read-write node stands for the data. -/
theorem holds_writeAll_readWrite (h : t.Numbered) (hq : Path.normalize path = .ok q)
    (ho : t.owner? q = some r) {n : ReadWrite σ} (hn : t.node? r.node = some (.readWrite n))
    (hidle : n.session = none) (hfits : t.Fits data) (hstores : t.Stores q r n data) :
    ∃ t', t.writeAll path data = (.ok data.size, t') ∧
      t'.publisher = (n.sink data t.publisher).2 ∧
      Visited t t' r.node (.readWrite (n.visited n.published.last)) ∧
      ∃ K, t'.Holds K q r data := by
  obtain ⟨K, ⟨s, hsink, hK⟩, hkeeps, howner⟩ := hstores
  obtain ⟨t', hall, hstate, hvisited⟩ := writeAll_readWrite h hq ho hn hidle hfits
  rw [hsink] at hall hstate
  refine ⟨t', hall, hstate.trans (by rw [hsink]), hvisited, K, ?_, ?_,
    .inr ⟨_, hvisited.node, hidle, hkeeps⟩⟩
  · rw [hstate]
    exact hK
  · intro s hs
    rw [hvisited.owner?_eq hn (fun _ _ => rfl)]
    exact howner s hs

/-- After a write, a file of an idle key store stands for the data. -/
theorem holds_writeAll_keyStore (h : t.Numbered) (hq : Path.normalize path = .ok q)
    (ho : t.owner? q = some r) {n : KeyStore σ} (hn : t.node? r.node = some (.keyStore n))
    (hidle : n.session = none) {key : String} (hkey : n.keyFor? t.publisher q = some key)
    (hsorted : n.entries.Sorted) (hfits : t.Fits data) :
    ∃ t', t.writeAll path data = (.ok data.size, t') ∧ t'.publisher = t.publisher ∧
      Visited t t' r.node (.keyStore { n with entries := n.entries.insert key data }) ∧
      ∃ K, t'.Holds K q r data := by
  obtain ⟨t', hall, hsame, hvisited⟩ := writeAll_keyStore h hq ho hn hidle hkey hfits
  have hvalue : (n.entries.insert key data).get? key = some data := by
    unfold NameMap.insert
    rw [NameMap.get?_alter hsorted, if_pos rfl]
  refine ⟨t', hall, hsame, hvisited, (· = t.publisher), hsame, ?_,
    .inl ⟨_, key, hvisited.node, hidle, ?_, hvalue⟩⟩
  · rintro s rfl
    rw [hvisited.owner?_eq hn (fun _ _ => rfl)]
    exact ho
  · rintro s rfl
    exact hkey

/-- Data within the limits that are written as a whole to an idle key store, or to an idle
read-write node whose publisher stores them, can be read under every spelling of the path, and the
attributes tell their size. In a key store no other key has another value since. Of a read-write
node only the count of sessions is another one, and the publisher's state is as the sink left it. No
other node, and nothing in the books but the next handle, has changed. -/
theorem writeAll_readAll (h : InUse t) (hq : Path.normalize path = .ok q)
    (ho : t.owner? q = some r)
    (hsize : data.size ≤ min t.settings.maxWriteBytes maxPendingBytes)
    (hnode : (∃ n, t.node? r.node = some (.keyStore n) ∧ n.session = none) ∨
      (∃ n, t.node? r.node = some (.readWrite n) ∧ n.session = none ∧ t.Stores q r n data)) :
    ∃ t', t.writeAll path data = (.ok data.size, t') ∧
      (∀ path₁ path₂, Path.normalize path₁ = .ok q → Path.normalize path₂ = .ok q →
        (t'.readAll path₁).1 = .ok data ∧ (t'.stat path₂).1 = .ok (.file data.size true) ∧
        ((t'.readAll path₁).2.stat path₂).1 = .ok (.file data.size true)) ∧
      t'.books = { t.books with nextHandle := t.nextHandle + 1 } ∧
      (∀ ref, ref ≠ r.node → t'.node? ref = t.node? ref) ∧
      (∀ n, t.node? r.node = some (.keyStore n) → t'.publisher = t.publisher ∧
        ∃ key, n.keyFor? t.publisher q = some key ∧ t'.node? r.node =
            some (.keyStore { n with entries := n.entries.insert key data }) ∧
          ∀ other, (n.entries.insert key data).get? other =
            if other = key then some data else n.get? other) ∧
      (∀ n, t.node? r.node = some (.readWrite n) →
        t'.publisher = (n.sink data t.publisher).2 ∧
        t'.node? r.node = some (.readWrite (n.visited n.published.last))) := by
  have hfits : t.Fits data :=
    ⟨Nat.le_trans hsize (Nat.min_le_left _ _), Nat.le_trans hsize (Nat.min_le_right _ _)⟩
  have hread : ∀ {K : σ → Prop} {t' : Tree σ ε}, t'.Numbered → t'.Holds K q r data →
      ∀ path₁ path₂, Path.normalize path₁ = .ok q → Path.normalize path₂ = .ok q →
        (t'.readAll path₁).1 = .ok data ∧ (t'.stat path₂).1 = .ok (.file data.size true) ∧
        ((t'.readAll path₁).2.stat path₂).1 = .ok (.file data.size true) := by
    intro K t' hnumbered hholds path₁ path₂ hq₁ hq₂
    obtain ⟨t'', hall, hstill⟩ := hholds.readAll hnumbered hq₁
    rw [hall]
    exact ⟨rfl, hholds.stat hq₂, hstill.stat hq₂⟩
  have hnumbered := (proceeds_writeAll t path data).numbered h.numbered
  rcases hnode with ⟨n, hn, hidle⟩ | ⟨n, hn, hidle, hstores⟩
  · obtain ⟨key, hkey⟩ : ∃ key, n.keyFor? t.publisher q = some key :=
      Option.isSome_iff_exists.mp (matchesFile_of_owner? ho hn)
    have hsorted : n.entries.Sorted := KeyStore.Orderly.sorted (h.orderly hn)
    obtain ⟨t', hall, hsame, hvisited, K, hholds⟩ :=
      holds_writeAll_keyStore h.numbered hq ho hn hidle hkey hsorted hfits
    rw [hall] at hnumbered
    refine ⟨t', hall, hread hnumbered hholds, hvisited.books, hvisited.others, ?_, ?_⟩
    · intro m hm
      rw [hn] at hm
      cases hm
      refine ⟨hsame, key, hkey, hvisited.node, ?_⟩
      intro other
      exact NameMap.get?_alter hsorted
    · intro m hm
      rw [hn] at hm
      cases hm
  · obtain ⟨t', hall, hstate, hvisited, K, hholds⟩ :=
      holds_writeAll_readWrite h.numbered hq ho hn hidle hfits hstores
    rw [hall] at hnumbered
    refine ⟨t', hall, hread hnumbered hholds, hvisited.books, hvisited.others, ?_, ?_⟩
    · intro m hm
      rw [hn] at hm
      cases hm
    · intro m hm
      rw [hn] at hm
      cases hm
      exact ⟨hstate, hvisited.node⟩

/-! ### A publisher that stores a content -/

/-- Supplies the stored content. -/
def stored : Provider Bytes where
  supply _ s := (.ok s, s)

/-- A file that stays where it is. -/
def vault : ReadWrite Bytes where
  location := ⟨.fixed "/vault", "value", rfl⟩
  provider := stored
  sink content _ := (.ok (), content)

def strongroom : Tree Bytes Empty :=
  perform (addNode { publisher := #[] } (.readWrite vault)).2 (.register ⟨0⟩)

theorem reachable_strongroom : Reachable strongroom :=
  .perform (.register ⟨0⟩) (.addNode (.readWrite vault) (.empty {} _) ⟨rfl, rfl, rfl⟩)

/-- Three octets come back under another spelling of the path. -/
theorem writeAll_readAll_vault :
    ∃ t', strongroom.writeAll "/vault//value" #[1, 2, 3] = (.ok 3, t') ∧
      (t'.readAll "vault/./value").1 = .ok #[1, 2, 3] ∧
      (t'.stat "/vault/value/").1 = .ok (.file 3 true) := by
  have hstores : strongroom.Stores "/vault/value" ⟨⟨1⟩, ⟨0⟩⟩ vault #[1, 2, 3] := by
    refine ⟨(· = #[1, 2, 3]), ⟨_, rfl, rfl⟩, ⟨fun _ _ => rfl, ?_⟩, ?_⟩
    · rintro infos s rfl
      exact ⟨_, rfl, rfl⟩
    · rintro s rfl
      decide
  have hsize : Array.size (#[1, 2, 3] : Bytes) ≤
      min strongroom.settings.maxWriteBytes maxPendingBytes := by decide
  have hq : Path.normalize "/vault//value" = .ok "/vault/value" := rfl
  obtain ⟨t', hall, hread, -⟩ := writeAll_readAll reachable_strongroom.inUse hq (by decide) hsize
    (.inr ⟨vault, rfl, rfl, hstores⟩)
  obtain ⟨hcontent, hstat, -⟩ := hread "vault/./value" "/vault/value/" rfl rfl
  exact ⟨t', hall, hcontent, hstat⟩

/-- A file in the directory that its content names: what is written to it is stored, and moves it. -/
def nomad : ReadWrite Bytes where
  location :=
    { directory := .moving fun s => String.ofList (s.toList.map fun b => Char.ofNat b.toNat)
      name := "place"
      valid := rfl }
  provider := stored
  sink content _ := (.ok (), content)

/-- Another file with the same content. -/
def echo : ReadOnly Bytes where
  location := ⟨.fixed "/copy", "echo", rfl⟩
  provider := stored

/-- The two, with a first content. -/
def camp : Tree Bytes Empty :=
  [.register ⟨0⟩, .register ⟨1⟩].foldl perform
    (addNode (addNode { publisher := Bytes.ofString "/old" } (.readWrite nomad)).2
      (.readOnly echo)).2

theorem reachable_camp : Reachable camp :=
  .perform (.register ⟨1⟩) (.perform (.register ⟨0⟩)
    (.addNode (.readOnly echo) (.addNode (.readWrite nomad) (.empty {} _) ⟨rfl, rfl, rfl⟩) rfl))

/-- What the idle node at `/old/place` is given it stores, and supplies. But then it is no longer
there, and the other file has another size. -/
theorem writeAll_readAll_moved :
    Reachable camp ∧ camp.owner? "/old/place" = some ⟨⟨1⟩, ⟨0⟩⟩ ∧
      camp.node? ⟨0⟩ = some (.readWrite nomad) ∧ nomad.session = none ∧
      (∀ content infos s, ∃ s', nomad.sink content s = (.ok (), s') ∧
        nomad.provider.supply infos s' = (.ok content, s')) ∧
      (camp.stat "/copy/echo").1 = .ok (.file 4 false) ∧
      ∃ t', camp.writeAll "/old/place" (Bytes.ofString "/newer") = (.ok 6, t') ∧
        (t'.readAll "/old/place").1 = .error (.notFound "/old/place") ∧
        (t'.stat "/copy/echo").1 = .ok (.file 6 false) := by
  refine ⟨reachable_camp, by decide, rfl, rfl, fun content _ _ => ⟨content, rfl, rfl⟩, rfl, ?_⟩
  exact ⟨_, rfl, rfl, rfl⟩

end Tree

end LiveTree
