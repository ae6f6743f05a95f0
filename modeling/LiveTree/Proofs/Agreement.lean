import LiveTree.Proofs.Failures
import LiveTree.Proofs.Listing
import LiveTree.Proofs.Ranges

/-!
# Attributes and whole reads

Attributes are asked for without a session, while a whole read opens the file, reads it part by part
and closes it again. Both come down to what the node of the file has for a reader (`offer`): the
attributes tell its size, and the read gives it as it is. So the two agree, on the files as well as
on the faults, as long as the file is idle and no provider asks for removals (`agree_self`).

Two questions are two runs of the provider. The answers still agree if it answers the same however
often it is run (`Steady`), since nothing else that they depend on is changed by looking at files
(`Resembles`).
-/

namespace LiveTree

open Relation (ReflTransGen)

variable {σ : Type}

/-- The nodes differ at most in what a read-write node has made known, and in how it numbers its
sessions. -/
inductive Node.Alike : Node σ Empty → Node σ Empty → Prop where
  | refl (n : Node σ Empty) : Alike n n
  | known (n : ReadWrite σ) (published : Published) (nextSession : Nat) :
      Alike (.readWrite n) (.readWrite { n with published, nextSession })

/-- Which key a path addresses is a matter of the directory, and so is the value found there. -/
theorem KeyStore.keyFor?_of_resolve {n : KeyStore σ} {s s' : σ}
    (h : n.directory.resolve s' = n.directory.resolve s) (path : String) :
    n.keyFor? s' path = n.keyFor? s path := by
  unfold keyFor?
  rw [h]

theorem KeyStore.content_of_resolve {n : KeyStore σ} {s s' : σ}
    (h : n.directory.resolve s' = n.directory.resolve s) (path : String) :
    n.content s' path = n.content s path := by
  unfold content requireKey
  rw [keyFor?_of_resolve h]

namespace Node

variable {n m l : Node σ Empty}

theorem Alike.trans (h : n.Alike m) (h' : m.Alike l) : n.Alike l := by
  cases h with
  | refl => exact h'
  | known n published nextSession =>
      cases h' with
      | refl => exact .known n published nextSession
      | known _ published' nextSession' => exact .known n published' nextSession'

theorem Alike.session? (h : n.Alike m) : m.session? = n.session? := by
  cases h <;> rfl

theorem Alike.provider? (h : n.Alike m) : m.provider? = n.provider? := by
  cases h <;> rfl

theorem Alike.kind (h : n.Alike m) : m.kind = n.kind := by
  cases h <;> rfl

theorem Alike.directory (h : n.Alike m) (s : σ) : m.directory s = n.directory s := by
  cases h <;> rfl

theorem Alike.matchesFile (h : n.Alike m) (s : σ) (path : String) :
    m.matchesFile s path = n.matchesFile s path := by
  cases h <;> rfl

theorem Alike.coversDirectory (h : n.Alike m) (s : σ) (path : String) :
    m.coversDirectory s path = n.coversDirectory s path := by
  cases h <;> rfl

theorem Alike.isWritable (h : n.Alike m) (s : σ) (path : String) :
    m.isWritable s path = n.isWritable s path := by
  cases h <;> rfl

/-- Which files a node has is a matter of its directory. -/
theorem matchesFile_of_directory {s s' : σ} (h : n.directory s' = n.directory s) (path : String) :
    n.matchesFile s' path = n.matchesFile s path := by
  cases n with
  | readOnly n => exact congrArg (fun dir => Path.clean path == Path.join dir n.location.name) h
  | readWrite n => exact congrArg (fun dir => Path.clean path == Path.join dir n.location.name) h
  | keyStore n => exact congrArg Option.isSome (KeyStore.keyFor?_of_resolve h path)
  | foreign e removals => rfl

theorem coversDirectory_of_directory {s s' : σ} (h : n.directory s' = n.directory s)
    (path : String) : n.coversDirectory s' path = n.coversDirectory s path := by
  cases n with
  | foreign e removals => rfl
  | _ => exact congrArg (Path.isAncestorOrSelf (Path.clean path)) h

theorem isWritable_of_directory {s s' : σ} (h : n.directory s' = n.directory s) (path : String) :
    n.isWritable s' path = n.isWritable s path := by
  cases n with
  | readOnly n => rfl
  | readWrite n => exact matchesFile_of_directory h path
  | keyStore n => exact matchesFile_of_directory h path
  | foreign e removals => rfl

end Node

namespace Tree

variable {t u : Tree σ Empty} {ref : NodeRef} {n : Node σ Empty} {path q : String}
  {r : Registration}

/-! ## What a node offers -/

/-- What the node has for a reader of the path: what its provider supplies, or the value of the
key. -/
def offer (t : Tree σ Empty) (ref : NodeRef) (path : String) : Except Fault Bytes × Tree σ Empty :=
  match t.node? ref with
  | some (.readOnly n) => t.provide n.provider
  | some (.readWrite n) => t.provide n.provider
  | some (.keyStore n) => (n.content t.publisher path, t)
  | _ => (.error (.notFound path), t)

/-- The size of a file is the one of what is offered. -/
theorem sizeOn_eq_offer (hn : t.node? ref = some n)
    (hm : n.matchesFile t.publisher path = true) :
    t.sizeOn ref path = ((t.offer ref path).1.map (·.size), (t.offer ref path).2) := by
  unfold sizeOn offer
  rw [hn]
  cases n with
  | readOnly n =>
      have hcheck : n.location.check t.publisher path = .ok () := Location.check_eq_ok.mpr hm
      dsimp only
      rw [hcheck]
  | readWrite n =>
      have hcheck : n.location.check t.publisher path = .ok () := Location.check_eq_ok.mpr hm
      dsimp only
      rw [hcheck]
  | keyStore n => rfl
  | foreign e removals => exact e.elim

/-- An idle node grants a reader what it offers, or refuses with the fault of the offer. -/
theorem permit_reading (hn : t.node? ref = some n) (hm : n.matchesFile t.publisher path = true)
    (hidle : n.session? = none) :
    (∃ source, n.permit t.publisher path .reading = .ok source ∧
      t.fetch source = t.offer ref path) ∨
    ∃ fault, n.permit t.publisher path .reading = .error fault ∧
      t.offer ref path = (.error fault, t) := by
  unfold offer
  rw [hn]
  cases n with
  | readOnly n =>
      have hcheck : n.location.check t.publisher path = .ok () := Location.check_eq_ok.mpr hm
      replace hidle : n.session = none := hidle
      refine .inl ⟨.provided n.provider, ?_, rfl⟩
      simp [Node.permit, ReadOnly.permit, hcheck, hidle, Access.reading]
  | readWrite n =>
      have hsession : n.session = none := Option.map_eq_none_iff.mp hidle
      exact .inl ⟨_, ReadWrite.permit_of_idle hm hsession (.inl rfl), rfl⟩
  | keyStore n =>
      have hsession : n.session = none := Option.map_eq_none_iff.mp hidle
      obtain ⟨key, hkey⟩ := Option.isSome_iff_exists.mp hm
      have hrequire := KeyStore.requireKey_eq_ok.mpr hkey
      rcases hvalue : n.get? key with _ | value
      · refine .inr ⟨.notFound path, ?_, ?_⟩ <;>
          simp [Node.permit, KeyStore.permit, KeyStore.content, hrequire, hsession, hvalue,
            Access.reading]
      · refine .inl ⟨.held value, KeyStore.permit_reading hkey hsession hvalue, ?_⟩
        simp [fetch, KeyStore.content, hrequire, hvalue]
  | foreign e removals => exact e.elim

/-! ## Reading -/

/-- A session that has begun on a content has it for its snapshot. -/
theorem session?_begin {access : Access} {source : Source σ} {content : Bytes}
    (hp : n.permit t.publisher path access = .ok source)
    (hf : t.fetch source = (.ok content, u)) :
    ∃ session, (n.begin u.publisher path access content).session? = some session ∧
      session.access = access ∧ session.snapshot = content := by
  cases n with
  | readOnly n => exact ⟨_, rfl, rfl, rfl⟩
  | readWrite n => exact ⟨_, rfl, rfl, rfl⟩
  | keyStore n =>
      obtain ⟨held, hheld, rfl⟩ := map_eq_ok.mp hp
      cases hf
      obtain ⟨⟨key, hkey⟩, -⟩ := KeyStore.permit_eq_ok hheld
      simp only [Node.begin, KeyStore.begin, hkey]
      exact ⟨_, rfl, rfl, rfl⟩
  | foreign e removals => exact e.elim

/-- The end of a session with nothing to commit does not reach the publisher. -/
theorem publisher_closeNode_of_clean {session : Session} (hn : t.node? ref = some n)
    (hs : n.session? = some session) (hclean : session.commit? = none) :
    (t.closeNode ref).2.publisher = t.publisher := by
  cases n with
  | readOnly n =>
      replace hs : n.session = some session := hs
      simp [closeNode, hn, ReadOnly.close, hs]
  | readWrite n =>
      obtain ⟨live, hlive, rfl⟩ := Option.map_eq_some_iff.mp hs
      exact (closeNode_readWrite_of_clean hn hlive hclean).2
  | keyStore n =>
      obtain ⟨keyed, hkeyed, rfl⟩ := Option.map_eq_some_iff.mp hs
      exact (closeNode_keyStore hn hkeyed).2
  | foreign e removals => exact e.elim

/-- A session of a reader that comes and goes leaves an idle node like it was. -/
theorem alike_closed_begin (hidle : n.session? = none) (s : σ) (path : String) (content : Bytes) :
    n.Alike (n.begin s path .reading content).closed := by
  cases n with
  | readOnly n =>
      obtain ⟨location, provider, session⟩ := n
      cases hidle
      exact .refl _
  | readWrite n =>
      obtain ⟨location, provider, sink, session, published, nextSession⟩ := n
      cases Option.map_eq_none_iff.mp hidle
      exact .known _ _ _
  | keyStore n =>
      obtain ⟨directory, entries, session⟩ := n
      cases Option.map_eq_none_iff.mp hidle
      simp only [Node.begin, KeyStore.begin]
      split
      · exact .refl _
      · exact .refl _
  | foreign e removals => exact e.elim

/-- The same registrations lead to nodes that are alike. -/
structure NodesAlike (t u : Tree σ Empty) : Prop where
  registrations : u.registrations = t.registrations
  nodes : ∀ ref, Option.Rel Node.Alike (t.node? ref) (u.node? ref)

theorem NodesAlike.of_same (h : Same t u) : NodesAlike t u where
  registrations := congrArg Books.registrations h.2
  nodes ref := by
    rw [node?, node?, h.1]
    rcases t.nodes[ref.index]? with _ | n
    · exact .none
    · exact .some (.refl n)

theorem NodesAlike.of_visited {m : Node σ Empty} (h : Visited t u ref m) (hn : t.node? ref = some n)
    (hm : n.Alike m) : NodesAlike t u where
  registrations := congrArg Books.registrations h.books
  nodes other := by
    by_cases he : other = ref
    · rw [he, hn, h.node]
      exact .some hm
    · rw [h.others other he]
      exact (NodesAlike.of_same (.refl t)).nodes other

theorem readAll_of_refused {fault : Fault} (hq : Path.normalize path = .ok q)
    (ho : t.owner? q = some r)
    (hopen : (t.noteOverlap q).openNode r.node q .reading = (.error fault, u)) :
    t.readAll path = (.error fault, u) := by
  simp only [readAll, openFile, hq, ho, hopen]

/-- A whole read of an idle file gives what the file's node offers, and leaves the nodes like they
were. -/
theorem readAll_eq_offer (ht : t.Numbered) (hq : Path.normalize path = .ok q)
    (ho : t.owner? q = some r) (hn : t.node? r.node = some n) (hidle : n.session? = none)
    (hcalm : n.Calm t.publisher) :
    (t.readAll path).1 = ((t.noteOverlap q).offer r.node q).1 ∧
      (t.readAll path).2.publisher = ((t.noteOverlap q).offer r.node q).2.publisher ∧
      NodesAlike t (t.readAll path).2 := by
  have hnoted : (t.noteOverlap q).node? r.node = some n := (node?_noteOverlap t q r.node).trans hn
  have hm : n.matchesFile (t.noteOverlap q).publisher q = true := by
    rw [publisher_noteOverlap]
    exact matchesFile_of_owner? ho hn
  have hcalm' : n.Calm (t.noteOverlap q).publisher := by
    rw [publisher_noteOverlap]
    exact hcalm
  rcases permit_reading hnoted hm hidle with ⟨source, hp, hf⟩ | ⟨fault, hp, hoffer⟩
  · have hsame := (same_noteOverlap t q).trans (same_fetch hcalm' hp)
    rw [hf] at hsame
    rcases hoffer : (t.noteOverlap q).offer r.node q with ⟨fault | content, u⟩
    · rw [hoffer] at hf hsame
      have hopen : (t.noteOverlap q).openNode r.node q .reading = (.error fault, u) := by
        simp only [openNode, hnoted, hp, hf]
      rw [readAll_of_refused hq ho hopen]
      exact ⟨rfl, rfl, .of_same hsame⟩
    · rw [hoffer] at hf hsame
      have hkept : u.node? r.node = some n := by rw [node?, hsame.1, ← node?, hn]
      obtain ⟨session, hs, haccess, rfl⟩ := session?_begin hp hf
      rw [publisher_noteOverlap] at hp
      obtain ⟨v, hv, hpublisher, hall, hvisited⟩ := visited_readAll ht hq ho hn hp hf hsame.1
        hsame.2 (node?_startSession_self hkept q .reading session.snapshot) hs
        (by rw [haccess]; rfl)
      have hclean : session.commit? = none := by rw [Session.commit?, haccess]; rfl
      rw [← publisher_noteOverlap t q] at hp
      rw [closeNode_begin_reading (n.isBuiltIn) hp hf hv] at hall
      rw [hall]
      refine ⟨rfl, ?_, .of_visited hvisited hn (alike_closed_begin hidle _ q _)⟩
      exact (publisher_closeNode_of_clean hv hs hclean).trans hpublisher
  · have hopen : (t.noteOverlap q).openNode r.node q .reading =
        (.error fault, t.noteOverlap q) := by
      simp only [openNode, hnoted, hp]
    rw [readAll_of_refused hq ho hopen, hoffer]
    exact ⟨rfl, rfl, .of_same (same_noteOverlap t q)⟩

/-! ## Attributes -/

/-- The attributes of a file tell the size of what its node offers. -/
theorem stat_eq_offer (hq : Path.normalize path = .ok q) (ho : t.owner? q = some r)
    (hn : t.node? r.node = some n) :
    t.stat path = match (t.noteOverlap q).offer r.node q with
      | (.error fault, u) => (.error fault, u)
      | (.ok content, u) => (.ok (.file content.size (u.isWritableOn r.node q)), u) := by
  have hm : n.matchesFile (t.noteOverlap q).publisher q = true := by
    rw [publisher_noteOverlap]
    exact matchesFile_of_owner? ho hn
  have hsize := sizeOn_eq_offer ((node?_noteOverlap t q r.node).trans hn) hm
  simp only [stat, hq, ho, hsize]
  rcases (t.noteOverlap q).offer r.node q with ⟨fault | content, u⟩ <;> rfl

/-- What is asked of a calm node changes neither nodes nor books. -/
theorem same_offer (hcalm : t.Calm) (ref : NodeRef) (path : String) :
    Same t (t.offer ref path).2 := by
  unfold offer
  split
  · next n hn => exact same_provide (hcalm ref _ hn)
  · next n hn => exact same_provide (hcalm ref _ hn)
  · exact .refl t
  · exact .refl t

/-- A provider that fails is told as such. -/
theorem provide_eq_error {p : Provider σ} {fault : Fault} (h : (t.provide p).1 = .error fault) :
    ∃ reason, fault = .backing reason := by
  rw [provide_eq_supply] at h
  rcases hs : (p.supply (t.afterRemovals p).listing (t.afterRemovals p).publisher).1 with
    failure | content
  · rw [hs] at h
    cases h
    exact ⟨failure.message, rfl⟩
  · rw [hs] at h
    cases h

/-- What is offered fails because there is nothing, or because the provider fails. -/
theorem offer_eq_error {fault : Fault} (h : (t.offer ref path).1 = .error fault) :
    fault = .notFound path ∨ ∃ reason, fault = .backing reason := by
  unfold offer at h
  split at h
  · exact .inr (provide_eq_error h)
  · exact .inr (provide_eq_error h)
  · next n hn =>
    unfold KeyStore.content KeyStore.requireKey at h
    split at h
    · next key _ =>
      rcases hvalue : n.get? key with _ | value
      · simp only [hvalue, ok_bind, throw_eq_error] at h
        cases h
        exact .inl rfl
      · simp only [hvalue, ok_bind, pure_eq_ok] at h
        cases h
    · cases h
      exact .inl rfl
  · cases h
    exact .inl rfl

/-- What the fault of a query by path can be. -/
def IsQueryFault (path : String) (f : Fault) : Prop :=
  f = .invalidPath path ∨ (∃ q, Path.normalize path = .ok q ∧ f = .notFound q) ∨
    ∃ reason, f = .backing reason

/-- The attributes of the path in the one tree and the whole read of it in the other agree. -/
structure Agree (t u : Tree σ Empty) (path : String) : Prop where
  file : ∀ size, (∃ writable, (t.stat path).1 = .ok (.file size writable)) ↔
    ∃ content, (u.readAll path).1 = .ok content ∧ content.size = size
  fault : ∀ f, (t.stat path).1 = .error f → (u.readAll path).1 = .error f ∧ IsQueryFault path f
  directory : (t.stat path).1 = .ok .directory →
    ∃ q, Path.normalize path = .ok q ∧ (u.readAll path).1 = .error (.notFound q)
  /-- There are no other failures of the read. -/
  only : ∀ f, (u.readAll path).1 = .error f → (t.stat path).1 = .error f ∨
    (t.stat path).1 = .ok .directory ∧ ∃ q, Path.normalize path = .ok q ∧ f = .notFound q

theorem Agree.of_file {content : Bytes} {writable : Bool}
    (hstat : (t.stat path).1 = .ok (.file content.size writable))
    (hread : (u.readAll path).1 = .ok content) : Agree t u path := by
  constructor <;> simp [hstat, hread, Attributes.file, Attributes.directory]

theorem Agree.of_fault {f : Fault} (hf : IsQueryFault path f)
    (hstat : (t.stat path).1 = .error f) (hread : (u.readAll path).1 = .error f) :
    Agree t u path := by
  constructor <;> simp [hstat, hread, hf]

theorem Agree.of_directory (hq : Path.normalize path = .ok q)
    (hstat : (t.stat path).1 = .ok .directory)
    (hread : (u.readAll path).1 = .error (.notFound q)) : Agree t u path := by
  constructor <;> simp [hstat, hread, hq, Attributes.file, Attributes.directory]

/-- It is the answers that agree, not the trees. -/
theorem Agree.congr {t' u' : Tree σ Empty} (h : Agree t u path)
    (hstat : (t'.stat path).1 = (t.stat path).1)
    (hread : (u'.readAll path).1 = (u.readAll path).1) : Agree t' u' path where
  file := by simpa only [hstat, hread] using h.file
  fault := by simpa only [hstat, hread] using h.fault
  directory := by simpa only [hstat, hread] using h.directory
  only := by simpa only [hstat, hread] using h.only

/-- The node of the file has no session, if the path is a file. -/
def IdleAt (t : Tree σ Empty) (path : String) : Prop :=
  ∀ q r n, Path.normalize path = .ok q → t.owner? q = some r → t.node? r.node = some n →
    n.session? = none

/-- Every file has a node. -/
theorem node?_of_owner? (ho : t.owner? q = some r) : ∃ n, t.node? r.node = some n := by
  obtain ⟨n, hn, -⟩ := claims_iff.mp (claims_of_owner? ho).2
  exact ⟨n, hn⟩

theorem readAll_of_invalid {f : Fault} (hq : Path.normalize path = .error f) :
    t.readAll path = (.error f, t) := by
  simp only [readAll, openFile, hq]

theorem readAll_of_no_owner (hq : Path.normalize path = .ok q) (ho : t.owner? q = none) :
    t.readAll path = (.error (.notFound q), t) := by
  simp only [readAll, openFile, hq, ho]

/-- Of one tree, where providers ask for no removals, attributes and whole reads agree. -/
theorem agree_self (ht : t.Numbered) (hcalm : t.Calm) (hidle : t.IdleAt path) :
    Agree t t path := by
  rcases hq : Path.normalize path with f | q
  · have hf : f = .invalidPath path := by
      unfold Path.normalize at hq
      split at hq
      · exact (Except.error.inj hq).symm
      · cases hq
    apply Agree.of_fault (.inl hf)
    · simp only [stat, hq]
    · rw [readAll_of_invalid hq]
  · rcases ho : t.owner? q with _ | r
    · have hstat := stat_of_no_owner hq ho
      have hread : (t.readAll path).1 = .error (.notFound q) := by rw [readAll_of_no_owner hq ho]
      split at hstat
      · exact .of_directory hq hstat hread
      · exact .of_fault (.inr (.inl ⟨q, hq, rfl⟩)) hstat hread
    · obtain ⟨n, hn⟩ := node?_of_owner? ho
      have hstat := congrArg Prod.fst (stat_eq_offer hq ho hn)
      have hread := (readAll_eq_offer ht hq ho hn (hidle q r n hq ho hn) (hcalm r.node n hn)).1
      rcases hoffer : (t.noteOverlap q).offer r.node q with ⟨f | content, u⟩
      · rw [hoffer] at hstat hread
        apply Agree.of_fault _ hstat hread
        rcases offer_eq_error (congrArg Prod.fst hoffer) with hnothing | hfails
        · exact .inr (.inl ⟨q, hq, hnothing⟩)
        · exact .inr (.inr hfails)
      · rw [hoffer] at hstat hread
        exact .of_file hstat hread

/-! ## One after the other -/

/-- In the states `K` of the publisher no provider asks for removals, each answers what it answers
now, and no directory has moved; and running a provider does not leave these states. -/
structure Steady (t : Tree σ Empty) (K : σ → Prop) : Prop where
  now : K t.publisher
  removals : ∀ ref n p, t.node? ref = some n → n.provider? = some p →
    ∀ s, K s → p.removals s = []
  answers : ∀ ref n p, t.node? ref = some n → n.provider? = some p →
    ∀ infos s, K s → (p.supply infos s).1 = (p.supply infos t.publisher).1 ∧ K (p.supply infos s).2
  places : ∀ ref n, t.node? ref = some n → ∀ s, K s → n.directory s = n.directory t.publisher

/-- A tree that looks like `t`, in a state of the publisher in which all answers are the same. -/
structure Resembles (t u : Tree σ Empty) (K : σ → Prop) : Prop where
  steady : t.Steady K
  alike : NodesAlike t u
  state : K u.publisher

theorem NodesAlike.trans {v : Tree σ Empty} (h : NodesAlike t u) (h' : NodesAlike u v) :
    NodesAlike t v where
  registrations := h'.registrations.trans h.registrations
  nodes ref := by
    have hn := h.nodes ref
    have hn' := h'.nodes ref
    revert hn hn'
    rcases t.node? ref with _ | n <;> rcases u.node? ref with _ | m <;>
      rcases v.node? ref with _ | l <;> rintro (hm | _) (hl | _)
    · exact .none
    · exact .some (hm.trans hl)

/-- Running a provider that asks for no removals. -/
theorem provide_of_calm {p : Provider σ} (h : p.removals t.publisher = []) :
    (t.provide p).1 = (p.supply t.listing t.publisher).1.mapError .ofFailure ∧
      (t.provide p).2.publisher = (p.supply t.listing t.publisher).2 := by
  rw [provide_eq_supply, afterRemovals_eq_self h]
  exact ⟨rfl, rfl⟩

namespace Resembles

variable {K : σ → Prop}

theorem refl (h : t.Steady K) : Resembles t t K := ⟨h, .of_same (.refl t), h.now⟩

/-- What leaves the nodes alike and the publisher in its states changes nothing. -/
theorem next {v : Tree σ Empty} (h : Resembles t u K) (halike : NodesAlike u v)
    (hK : K v.publisher) : Resembles t v K :=
  ⟨h.steady, h.alike.trans halike, hK⟩

theorem noteOverlap (h : Resembles t u K) (q : String) : Resembles t (u.noteOverlap q) K := by
  refine h.next (.of_same (same_noteOverlap u q)) ?_
  rw [publisher_noteOverlap]
  exact h.state

/-- A node stands in both trees, or in none of them; it is alike, and where it was. -/
theorem node?_cases (h : Resembles t u K) (ref : NodeRef) :
    (t.node? ref = none ∧ u.node? ref = none) ∨
    ∃ n m, t.node? ref = some n ∧ u.node? ref = some m ∧ n.Alike m ∧
      n.directory u.publisher = n.directory t.publisher := by
  have hrel := h.alike.nodes ref
  rcases ht : t.node? ref with _ | n <;> rcases hu : u.node? ref with _ | m <;>
    rw [ht, hu] at hrel <;> cases hrel
  · exact .inl ⟨rfl, rfl⟩
  · next hm => exact .inr ⟨n, m, rfl, rfl, hm, h.steady.places ref n ht _ h.state⟩

theorem listing_eq (h : Resembles t u K) : u.listing = t.listing := by
  unfold listing
  rw [h.alike.registrations]
  congr 1
  funext r
  rcases h.node?_cases r.node with ⟨ht, hu⟩ | ⟨n, m, ht, hu, hm, hplace⟩
  · rw [ht, hu]
    rfl
  · rw [ht, hu, Option.map_some, Option.map_some, hm.kind, hm.directory, hplace]

theorem owner?_eq (h : Resembles t u K) (q : String) : u.owner? q = t.owner? q := by
  apply owner?_congr h.alike.registrations
  intro r
  unfold claims
  rcases h.node?_cases r.node with ⟨ht, hu⟩ | ⟨n, m, ht, hu, hm, hplace⟩
  · rw [ht, hu]
    rfl
  · rw [ht, hu, Option.any_some, Option.any_some, hm.matchesFile,
      Node.matchesFile_of_directory hplace]

theorem isDirectory_eq (h : Resembles t u K) (path : String) :
    u.isDirectory path = t.isDirectory path := by
  have hcovers : ∀ q, u.covers q = t.covers q := by
    intro q
    funext r
    unfold covers
    rcases h.node?_cases r.node with ⟨ht, hu⟩ | ⟨n, m, ht, hu, hm, hplace⟩
    · rw [ht, hu]
      rfl
    · rw [ht, hu, Option.any_some, Option.any_some, hm.coversDirectory,
        Node.coversDirectory_of_directory hplace]
  unfold isDirectory
  rw [h.alike.registrations]
  simp only [hcovers]

theorem isWritableOn_eq (h : Resembles t u K) (ref : NodeRef) (q : String) :
    u.isWritableOn ref q = t.isWritableOn ref q := by
  unfold isWritableOn
  rcases h.node?_cases ref with ⟨ht, hu⟩ | ⟨n, m, ht, hu, hm, hplace⟩
  · rw [ht, hu]
    rfl
  · rw [ht, hu, Option.any_some, Option.any_some, hm.isWritable,
      Node.isWritable_of_directory hplace]

/-- No provider asks for removals. -/
theorem calm (h : Resembles t u K) : u.Calm := by
  intro ref m hu
  rcases h.node?_cases ref with ⟨-, hnone⟩ | ⟨n, m', ht, hu', hm, -⟩
  · rw [hnone] at hu
    cases hu
  · rw [hu'] at hu
    cases hu
    have hremovals := fun p => h.steady.removals ref n p ht
    cases hm with
    | refl =>
        cases m with
        | readOnly n => exact hremovals n.provider rfl _ h.state
        | readWrite n => exact hremovals n.provider rfl _ h.state
        | keyStore n => trivial
        | foreign e removals => exact e.elim
    | known n published nextSession => exact hremovals n.provider rfl _ h.state

/-- What a provider supplies is the same, and it leaves the publisher in its states. -/
theorem provide_eq (h : Resembles t u K) {ref : NodeRef} {n : Node σ Empty} {p : Provider σ}
    (hn : t.node? ref = some n) (hp : n.provider? = some p) :
    (u.provide p).1 = (t.provide p).1 ∧ K (u.provide p).2.publisher := by
  have hthere := provide_of_calm (h.steady.removals ref n p hn hp _ h.state)
  have hhere := provide_of_calm (h.steady.removals ref n p hn hp _ h.steady.now)
  obtain ⟨hsame, hK⟩ := h.steady.answers ref n p hn hp u.listing u.publisher h.state
  rw [hthere.1, hthere.2, hhere.1, hsame, h.listing_eq]
  refine ⟨rfl, ?_⟩
  rw [← h.listing_eq]
  exact hK

theorem offer_eq (h : Resembles t u K) (ref : NodeRef) (q : String) :
    (u.offer ref q).1 = (t.offer ref q).1 ∧ K (u.offer ref q).2.publisher := by
  unfold offer
  rcases h.node?_cases ref with ⟨ht, hu⟩ | ⟨n, m, ht, hu, hm, hplace⟩
  · rw [ht, hu]
    exact ⟨rfl, h.state⟩
  · rw [ht, hu]
    cases hm with
    | refl =>
        cases n with
        | readOnly n => exact h.provide_eq ht rfl
        | readWrite n => exact h.provide_eq ht rfl
        | keyStore n =>
            exact ⟨KeyStore.content_of_resolve hplace q, h.state⟩
        | foreign e removals => exact e.elim
    | known n published nextSession => exact h.provide_eq ht rfl

/-- Asking a node for what it offers changes nothing. -/
theorem offered (h : Resembles t u K) (ref : NodeRef) (q : String) :
    Resembles t (u.offer ref q).2 K :=
  h.next (.of_same (same_offer h.calm ref q)) (h.offer_eq ref q).2

/-- Nor does asking for attributes. -/
theorem stat (h : Resembles t u K) (path : String) : Resembles t (u.stat path).2 K := by
  rcases hq : Path.normalize path with f | q
  · have hstat : u.stat path = (.error f, u) := by simp only [Tree.stat, hq]
    rw [hstat]
    exact h
  · rcases ho : u.owner? q with _ | r
    · have hstat : (u.stat path).2 = u := by
        simp only [Tree.stat, hq, ho]
        split <;> rfl
      rw [hstat]
      exact h
    · obtain ⟨n, hn⟩ := node?_of_owner? ho
      have hstat : (u.stat path).2 = ((u.noteOverlap q).offer r.node q).2 := by
        rw [stat_eq_offer hq ho hn]
        rcases (u.noteOverlap q).offer r.node q with ⟨f | content, v⟩ <;> rfl
      rw [hstat]
      exact (h.noteOverlap q).offered r.node q

/-- Nor does reading a file as a whole. -/
theorem readAll (h : Resembles t u K) (hu : u.Numbered) (path : String) :
    Resembles t (u.readAll path).2 K := by
  rcases hq : Path.normalize path with f | q
  · rw [readAll_of_invalid hq]
    exact h
  · rcases ho : u.owner? q with _ | r
    · rw [readAll_of_no_owner hq ho]
      exact h
    · obtain ⟨n, hn⟩ := node?_of_owner? ho
      rcases hs : n.session? with _ | session
      · obtain ⟨-, hpublisher, halike⟩ := readAll_eq_offer hu hq ho hn hs (h.calm r.node n hn)
        refine h.next halike ?_
        rw [hpublisher]
        exact ((h.noteOverlap q).offer_eq r.node q).2
      · -- somebody else has a session there, so the read is refused
        obtain ⟨reason, hp⟩ := Node.permit_of_busy n.isBuiltIn (matchesFile_of_owner? ho hn)
          (Option.isSome_of_eq_some hs) .reading
        rw [← publisher_noteOverlap u q] at hp
        have hopen : (u.noteOverlap q).openNode r.node q .reading =
            (.error (.accessConflict reason), u.noteOverlap q) := by
          simp only [openNode, node?_noteOverlap, hn, hp]
        rw [readAll_of_refused hq ho hopen]
        exact h.noteOverlap q

/-- The attributes of a file are the same as in the first tree. -/
theorem stat_of_owner (h : Resembles t u K) (hq : Path.normalize path = .ok q)
    (ho : t.owner? q = some r) :
    (u.stat path).1 = (t.offer r.node q).1.map fun content =>
      .file content.size (t.isWritableOn r.node q) := by
  have ho' : u.owner? q = some r := (h.owner?_eq q).trans ho
  obtain ⟨m, hm⟩ := node?_of_owner? ho'
  have hoffer := ((h.noteOverlap q).offer_eq r.node q).1
  have hwritable := ((h.noteOverlap q).offered r.node q).isWritableOn_eq r.node q
  rw [stat_eq_offer hq ho' hm, ← hoffer, ← hwritable]
  rcases (u.noteOverlap q).offer r.node q with ⟨f | content, v⟩ <;> rfl

theorem stat_eq (h : Resembles t u K) (path : String) : (u.stat path).1 = (t.stat path).1 := by
  rcases hq : Path.normalize path with f | q
  · simp only [Tree.stat, hq]
  · rcases ho : t.owner? q with _ | r
    · rw [stat_of_no_owner hq ho, stat_of_no_owner hq ((h.owner?_eq q).trans ho), h.isDirectory_eq]
    · rw [h.stat_of_owner hq ho, (Resembles.refl h.steady).stat_of_owner hq ho]

/-- The node of a file has no session in either tree. -/
theorem idleAt (h : Resembles t u K) (hidle : t.IdleAt path) : u.IdleAt path := by
  intro q r m hq ho hm
  rw [h.owner?_eq] at ho
  rcases h.node?_cases r.node with ⟨-, hnone⟩ | ⟨n, m', ht, hu, halike, -⟩
  · rw [hnone] at hm
    cases hm
  · rw [hu] at hm
    cases hm
    rw [halike.session?]
    exact hidle q r n hq ho ht

theorem readAll_of_owner (h : Resembles t u K) (hu : u.Numbered) (hidle : t.IdleAt path)
    (hq : Path.normalize path = .ok q) (ho : t.owner? q = some r) :
    (u.readAll path).1 = (t.offer r.node q).1 := by
  have ho' : u.owner? q = some r := (h.owner?_eq q).trans ho
  obtain ⟨m, hm⟩ := node?_of_owner? ho'
  have hread := (readAll_eq_offer hu hq ho' hm (h.idleAt hidle q r m hq ho' hm)
    (h.calm r.node m hm)).1
  exact hread.trans ((h.noteOverlap q).offer_eq r.node q).1

/-- A whole read of an idle file gives the same as in the first tree. -/
theorem readAll_eq (h : Resembles t u K) (ht : t.Numbered) (hu : u.Numbered)
    (hidle : t.IdleAt path) : (u.readAll path).1 = (t.readAll path).1 := by
  rcases hq : Path.normalize path with f | q
  · rw [readAll_of_invalid hq, readAll_of_invalid hq]
  · rcases ho : t.owner? q with _ | r
    · rw [readAll_of_no_owner hq ho, readAll_of_no_owner hq ((h.owner?_eq q).trans ho)]
    · rw [h.readAll_of_owner hu hidle hq ho,
        (Resembles.refl h.steady).readAll_of_owner ht hidle hq ho]

end Resembles

/-- Attributes have been asked for, and files read as a whole, any number of times. -/
def Looked : Tree σ Empty → Tree σ Empty → Prop :=
  ReflTransGen fun t u => ∃ path, u = (t.stat path).2 ∨ u = (t.readAll path).2

theorem Looked.resembles {K : σ → Prop} (h : Looked t u) (ht : t.Numbered) (hsteady : t.Steady K) :
    Resembles t u K ∧ u.Numbered := by
  induction h with
  | refl => exact ⟨.refl hsteady, ht⟩
  | tail _ hlook ih =>
      obtain ⟨path, rfl | rfl⟩ := hlook
      · exact ⟨ih.1.stat path, (proceeds_stat _ path).numbered ih.2⟩
      · exact ⟨ih.1.readAll ih.2 path, (proceeds_readAll _ path).numbered ih.2⟩

/-- An idle file can be opened to write if its node says so. -/
theorem exists_openFile_writing_iff (hq : Path.normalize path = .ok q) (ho : t.owner? q = some r)
    (hn : t.node? r.node = some n) (hidle : n.session? = none) :
    (∃ h, (t.openFile path .writing).1 = .ok h) ↔ n.isWritable t.publisher q = true := by
  have hm := matchesFile_of_owner? ho hn
  have hr : (t.noteOverlap q).isRegistered r.id = true := by
    have hbooks := congrArg Books.registrations (books_noteOverlap t q)
    exact (isRegistered_congr hbooks r.id).trans (isRegistered_of_owner? ho)
  have hgranted : ∀ content, n.permit t.publisher q .writing = .ok (.held content) →
      ∃ h, (t.openFile path .writing).1 = .ok h :=
    fun content hp => ⟨_, by rw [openFile_of_fetch hq ho hn hp rfl hr]⟩
  cases n with
  | readOnly n =>
      have hcheck : n.location.check t.publisher q = .ok () := Location.check_eq_ok.mpr hm
      have hp : (Node.readOnly n : Node σ Empty).permit t.publisher q .writing =
          .error (.accessConflict (q ++ " is read-only")) := by
        simp [Node.permit, ReadOnly.permit, hcheck, Access.writing]
      constructor
      · rintro ⟨h, hopen⟩
        simp [openFile, openNode, hq, ho, hn, hp] at hopen
      · intro hw
        cases hw
  | readWrite n =>
      have hsession : n.session = none := Option.map_eq_none_iff.mp hidle
      exact ⟨fun _ => hm, fun _ => hgranted _ (ReadWrite.permit_of_idle hm hsession (.inr rfl))⟩
  | keyStore n =>
      have hsession : n.session = none := Option.map_eq_none_iff.mp hidle
      obtain ⟨key, hkey⟩ := Option.isSome_iff_exists.mp hm
      exact ⟨fun _ => hm, fun _ => hgranted _ (KeyStore.permit_writing hkey hsession)⟩
  | foreign e removals => exact e.elim

/-- In a tree whose providers ask for no removals, attributes and whole reads of an idle file agree.
Where the providers answer the same however often they are run, they also agree one after the other,
in either order and with any number of others between them; and the file can be opened to write if
and only if the attributes say so. -/
theorem stat_agrees_readAll (ht : t.Numbered) (hcalm : t.Calm) (hidle : t.IdleAt path) :
    Agree t t path ∧
    ∀ K, t.Steady K → ∀ before after, Looked t before → Looked t after →
      Agree before after path ∧
      ∀ size writable, (before.stat path).1 = .ok (.file size writable) →
        (writable = true ↔ ∃ h, (after.openFile path .writing).1 = .ok h) := by
  have hself := agree_self ht hcalm hidle
  refine ⟨hself, ?_⟩
  intro K hsteady before after hbefore hafter
  obtain ⟨hb, -⟩ := hbefore.resembles ht hsteady
  obtain ⟨ha, hnumbered⟩ := hafter.resembles ht hsteady
  refine ⟨hself.congr (hb.stat_eq path) (ha.readAll_eq ht hnumbered hidle), ?_⟩
  intro size writable hstat
  rcases hq : Path.normalize path with f | q
  · simp [Tree.stat, hq] at hstat
  · rcases ho : t.owner? q with _ | r
    · -- without an owner there is a directory, or nothing
      rw [hb.stat_eq, stat_of_no_owner hq ho] at hstat
      split at hstat <;> cases hstat
    · have ho' : after.owner? q = some r := (ha.owner?_eq q).trans ho
      obtain ⟨n, hn⟩ := node?_of_owner? ho'
      have hwritable : t.isWritableOn r.node q = writable := by
        rw [hb.stat_of_owner hq ho] at hstat
        obtain ⟨content, -, hfile⟩ := map_eq_ok.mp hstat
        exact congrArg Attributes.writable hfile
      rw [exists_openFile_writing_iff hq ho' hn (ha.idleAt hidle q r n hq ho' hn), ← hwritable,
        ← ha.isWritableOn_eq, isWritableOn, hn, Option.any_some]

/-- A clock that counts how often it is looked at, but stands still. -/
def clock : ReadOnly Nat where
  location := ⟨.fixed "/lobby", "clock", rfl⟩
  provider := { supply := fun _ looks => (.ok #[48, 55], looks + 1) }

/-- A lift that takes calls, but never tells where it is. -/
def lift : ReadWrite Nat where
  location := ⟨.fixed "/lobby", "lift", rfl⟩
  provider := { supply := fun _ looks => (.error ⟨"out of order", []⟩, looks + 1) }
  sink _ looks := (.ok (), looks)

/-- The lobby with the two. -/
def lobby : Tree Nat Empty :=
  [.register ⟨0⟩, .register ⟨1⟩].foldl perform
    (addNode (addNode { publisher := 0 } (.readOnly clock)).2 (.readWrite lift)).2

theorem reachable_lobby : Reachable lobby :=
  .perform (.register ⟨1⟩) (.perform (.register ⟨0⟩)
    (.addNode (.readWrite lift) (.addNode (.readOnly clock) (.empty {} 0) rfl) ⟨rfl, rfl, rfl⟩))

theorem nodes_lobby {ref : NodeRef} {n : Node Nat Empty} (hn : lobby.node? ref = some n) :
    n = .readOnly clock ∨ n = .readWrite lift := by
  obtain ⟨index⟩ := ref
  match index, hn with
  | 0, hn => exact .inl (Option.some.inj hn).symm
  | 1, hn => exact .inr (Option.some.inj hn).symm
  | index + 2, hn => cases hn

/-- Both are idle, and ask for no removals. -/
theorem calm_lobby (path : String) : lobby.Calm ∧ lobby.IdleAt path := by
  constructor
  · intro ref n hn
    rcases nodes_lobby hn with rfl | rfl <;> rfl
  · intro q r n hq ho hn
    rcases nodes_lobby hn with rfl | rfl <;> rfl

/-- However often they are looked at, the clock shows the same and the lift fails. -/
theorem steady_lobby : lobby.Steady (fun _ => True) where
  now := trivial
  removals ref n p hn hp s _ := by
    rcases nodes_lobby hn with rfl | rfl <;> cases hp <;> rfl
  answers ref n p hn hp infos s _ := by
    rcases nodes_lobby hn with rfl | rfl <;> cases hp <;> exact ⟨rfl, trivial⟩
  places ref n hn s _ := by
    rcases nodes_lobby hn with rfl | rfl <;> rfl

/-- The attributes of the clock tell two octets, so two octets are read from it after somebody has
tried the lift. It cannot be written to, and the lift cannot be read. -/
theorem stat_agrees_readAll_lobby :
    (lobby.stat "/lobby/clock").1 = .ok (.file 2 false) ∧
    (∃ content, ((lobby.readAll "/lobby/lift").2.readAll "/lobby/clock").1 = .ok content ∧
      content.size = 2) ∧
    (¬ ∃ h, ((lobby.readAll "/lobby/lift").2.openFile "/lobby/clock" .writing).1 = .ok h) ∧
    (lobby.readAll "/lobby/lift").1 = .error (.ofFailure ⟨"out of order", []⟩) := by
  have hclock : (lobby.stat "/lobby/clock").1 = .ok (.file 2 false) := rfl
  have hlift : (lobby.stat "/lobby/lift").1 = .error (.ofFailure ⟨"out of order", []⟩) := rfl
  have htried : Looked lobby (lobby.readAll "/lobby/lift").2 := .single ⟨_, .inr rfl⟩
  have hnumbered := reachable_lobby.inUse.numbered
  obtain ⟨-, hlater⟩ := stat_agrees_readAll hnumbered (calm_lobby "/lobby/clock").1
    (calm_lobby "/lobby/clock").2
  obtain ⟨hagree, hwritable⟩ := hlater _ steady_lobby lobby _ .refl htried
  obtain ⟨hsame, -⟩ := stat_agrees_readAll hnumbered (calm_lobby "/lobby/lift").1
    (calm_lobby "/lobby/lift").2
  refine ⟨hclock, (hagree.file 2).mp ⟨false, hclock⟩, ?_, (hsame.fault _ hlift).1⟩
  intro hopen
  exact absurd ((hwritable 2 false hclock).mpr hopen) Bool.false_ne_true

end Tree

end LiveTree
