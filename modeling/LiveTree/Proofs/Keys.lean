import LiveTree.Proofs.Moves
import LiveTree.Proofs.Names
import LiveTree.Proofs.Paths

/-!
# The keys of key stores

A publisher may only set keys that can stand as names, and a session is only begun for a path that
addresses such a key. So in every tree the keys of every key store are names, and they stand in
order.
-/

namespace LiveTree

variable {σ ε : Type}

namespace KeyStore

variable {n m : KeyStore σ}

/-- The store's keys, and the key of an open session, can stand as names, and the keys stand in
order. -/
structure Orderly (n : KeyStore σ) : Prop where
  valid : ∀ key ∈ n.keys, Path.isValidName key = true
  sorted : n.entries.Sorted
  session : ∀ session, n.session = some session → Path.isValidName session.key = true

/-- A key is one that has a value. -/
theorem mem_keys {key : String} : key ∈ n.keys ↔ ∃ value, n.get? key = some value := by
  rw [← Option.isSome_iff_exists]
  exact NameMap.isSome_get?.symm

theorem isValidName_of_keyFor? {s : σ} {path key : String} (h : n.keyFor? s path = some key) :
    Path.isValidName key = true := by
  unfold keyFor? at h
  split at h
  · exact (Option.filter_eq_some_iff.mp h).2
  · cases h

/-- Another value for a name keeps the keys in order. -/
theorem Orderly.alter (h : n.Orderly) {key : String} (hkey : Path.isValidName key = true)
    (f : Option Bytes → Bytes) : Orderly { n with entries := n.entries.alter key f } where
  valid other hmem := by
    rcases NameMap.mem_names_alter.mp hmem with rfl | hmem
    · exact hkey
    · exact h.valid other hmem
  sorted := NameMap.sorted_alter h.sorted
  session := h.session

/-- A store differs in its session only, and the session is of the same key. -/
theorem Orderly.setSession (h : n.Orderly) {session : KeySession} (hs : n.session = some session)
    (inner : Session) : Orderly { n with session := some { session with inner } } where
  valid := h.valid
  sorted := h.sorted
  session := by
    rintro other ⟨⟩
    exact h.session session hs

theorem Orderly.begin (h : n.Orderly) (s : σ) (path : String) (access : Access)
    (content : Bytes) : (n.begin s path access content).Orderly := by
  unfold KeyStore.begin
  split
  · exact h
  · next key hkey =>
    refine ⟨h.valid, h.sorted, ?_⟩
    rintro session ⟨⟩
    exact isValidName_of_keyFor? hkey

/-- What a session leaves of the keys is in order, since its key is a name. -/
theorem Orderly.settled (h : n.Orderly) {session : KeySession} (hs : n.session = some session) :
    Orderly { n with session := none, entries := settled n.entries session } := by
  have hkey := h.session session hs
  have hentries : Orderly { n with entries := KeyStore.settled n.entries session } := by
    unfold KeyStore.settled
    split
    · split
      · exact h.alter hkey _
      · exact h.alter hkey _
    · exact h
  exact ⟨hentries.valid, hentries.sorted, nofun⟩

theorem Orderly.step (h : n.Orderly) (hs : n.Step m) : m.Orderly := by
  cases hs with
  | @insert _ key value hi =>
      unfold KeyStore.insert at hi
      split at hi
      · next hkey =>
        cases hi
        exact h.alter hkey _
      · cases hi
  | remove key =>
      refine ⟨?_, ?_, h.session⟩
      · exact fun other hmem => h.valid other (NameMap.mem_names_erase.mp hmem).2
      · exact NameMap.sorted_erase h.sorted
  | begin s path access content idle => exact h.begin s path access content
  | write hw =>
      obtain ⟨session, inner, hsession, -, rfl⟩ := write_eq_ok hw
      exact h.setSession hsession inner
  | resize hr =>
      rcases resize_eq_ok hr with ⟨session, inner, hsession, -, rfl⟩ | ⟨key, value, hkey, -, rfl⟩
      · exact h.setSession hsession inner
      · exact h.alter (isValidName_of_keyFor? hkey) _
  | close hc =>
      obtain ⟨hsession, rfl⟩ := close_eq_ok hc
      exact h.settled hsession

end KeyStore

/-! ## In trees -/

/-- A key store is in order. -/
def Node.Orderly : Node σ ε → Prop
  | .keyStore n => n.Orderly
  | _ => True

theorem Node.Orderly.step {n m : Node σ ε} (h : n.Orderly) (hs : Node.Step n m) : m.Orderly := by
  cases hs with
  | keyStore hs => exact KeyStore.Orderly.step h hs
  | _ => trivial

theorem Node.orderly_of_isNew {n : Node σ ε} (h : n.IsNew) : n.Orderly := by
  cases n with
  | keyStore n =>
      obtain ⟨hsession, hentries⟩ := h
      refine ⟨?_, ?_, ?_⟩
      · simp [KeyStore.keys, NameMap.names, hentries]
      · rw [hentries]
        exact NameMap.sorted_nil
      · intro session hs
        rw [hsession] at hs
        cases hs
  | _ => trivial

/-- The key stores of every tree are in order, also if they are used past the tree. -/
theorem Tree.InUse.orderly [Foreign ε] {t : Tree σ ε} (h : InUse t) {ref : NodeRef}
    {n : Node σ ε} (hn : t.node? ref = some n) : n.Orderly :=
  h.forall_node (fun _ => Node.orderly_of_isNew) (fun _ _ => Node.Orderly.step) ref n hn

theorem Tree.Reachable.orderly [Foreign ε] {t : Tree σ ε} (h : Reachable t) {ref : NodeRef}
    {n : Node σ ε} (hn : t.node? ref = some n) : n.Orderly :=
  h.inUse.orderly hn

end LiveTree
