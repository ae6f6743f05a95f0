import LiveTree.Node

/-!
# What the operations on one node do

For each operation on a node one inversion lemma: what was there when it succeeded, and what the
node is afterwards. Callers of an operation go by its lemma and never look into it.

`Node.Step` gathers them: a step is one successful operation on a node, whoever asked for it. What
every step keeps is kept by every operation of a tree.
-/

namespace LiveTree

variable {σ ε : Type}

/-! ## What may fail -/

section

variable {φ α β : Type}

@[simp] theorem pure_eq_ok (a : α) : (pure a : Except φ α) = .ok a := rfl

@[simp] theorem throw_eq_error (fault : φ) : (throw fault : Except φ α) = .error fault := rfl

@[simp] theorem ok_bind (a : α) (f : α → Except φ β) : (Except.ok a >>= f) = f a := rfl

@[simp] theorem error_bind (fault : φ) (f : α → Except φ β) :
    (Except.error fault >>= f) = .error fault := rfl

@[simp] theorem map_ok (a : α) (f : α → β) : (Except.ok a : Except φ α).map f = .ok (f a) := rfl

@[simp] theorem map_error (fault : φ) (f : α → β) :
    (Except.error fault : Except φ α).map f = .error fault := rfl

/-- A sequence succeeds when its parts do. -/
theorem bind_eq_ok {x : Except φ α} {f : α → Except φ β} {b : β} :
    (x >>= f) = .ok b ↔ ∃ a, x = .ok a ∧ f a = .ok b := by
  cases x <;> simp

theorem map_eq_ok {x : Except φ α} {f : α → β} {b : β} :
    x.map f = .ok b ↔ ∃ a, x = .ok a ∧ f a = b := by
  cases x <;> simp

end

/-! ## Kinds -/

/-- Whether the node is of one of the three built-in kinds. -/
def Node.IsBuiltIn : Node σ ε → Prop
  | .foreign _ _ => False
  | _ => True

/-- Where there is no foreign kind, every node is built in. -/
theorem Node.isBuiltIn (n : Node σ Empty) : n.IsBuiltIn := by
  cases n with
  | foreign e removals => exact e.elim
  | _ => trivial

/-! ## Places -/

theorem Location.check_eq_ok {l : Location σ} {s : σ} {path : String} :
    l.check s path = .ok () ↔ l.matchesFile s path = true := by
  unfold check
  split <;> simp_all

theorem KeyStore.requireKey_eq_ok {n : KeyStore σ} {s : σ} {path key : String} :
    n.requireKey s path = .ok key ↔ n.keyFor? s path = some key := by
  unfold requireKey
  split <;> simp_all

/-! ## Permission to open -/

theorem ReadOnly.permit_eq_ok {n : ReadOnly σ} {s : σ} {path : String} {access : Access}
    {source : Source σ} (h : n.permit s path access = .ok source) :
    n.location.matchesFile s path = true ∧ access = .reading ∧ n.session = none ∧
      source = .provided n.provider := by
  obtain ⟨read, write⟩ := access
  obtain ⟨⟨⟩, hcheck, h⟩ := bind_eq_ok.mp h
  refine ⟨Location.check_eq_ok.mp hcheck, ?_⟩
  rcases hs : n.session with _ | session <;> cases read <;> cases write <;>
    simp_all [Access.reading]

theorem ReadWrite.permit_eq_ok {n : ReadWrite σ} {s : σ} {path : String} {access : Access}
    {source : Source σ} (h : n.permit s path access = .ok source) :
    n.location.matchesFile s path = true ∧ (access.read = true ∨ access.write = true) ∧
      n.session = none ∧ source = if access.read then .provided n.provider else .held #[] := by
  obtain ⟨read, write⟩ := access
  obtain ⟨⟨⟩, hcheck, h⟩ := bind_eq_ok.mp h
  refine ⟨Location.check_eq_ok.mp hcheck, ?_⟩
  rcases hs : n.session with _ | session <;> cases read <;> cases write <;>
    simp_all

theorem KeyStore.permit_eq_ok {n : KeyStore σ} {s : σ} {path : String} {access : Access}
    {content : Bytes} (h : n.permit s path access = .ok content) :
    (∃ key, n.keyFor? s path = some key) ∧ (access.read = true ∨ access.write = true) ∧
      n.session = none := by
  obtain ⟨read, write⟩ := access
  obtain ⟨key, hkey, h⟩ := bind_eq_ok.mp h
  refine ⟨⟨key, requireKey_eq_ok.mp hkey⟩, ?_⟩
  rcases hs : n.session with _ | session <;> cases read <;> cases write <;>
    simp_all

/-- An idle read-write node is opened: for reading on what its provider supplies. -/
theorem ReadWrite.permit_of_idle [Foreign ε] {n : ReadWrite σ} {s : σ} {path : String}
    (hm : n.location.matchesFile s path = true) (hidle : n.session = none) {access : Access}
    (haccess : access.read = true ∨ access.write = true) :
    (Node.readWrite n : Node σ ε).permit s path access =
      .ok (if access.read then .provided n.provider else .held #[]) := by
  obtain ⟨read, write⟩ := access
  cases read <;> cases write <;>
    simp_all [Node.permit, permit, Location.check_eq_ok.mpr hm]

/-- An idle key store is opened for writing, whether the key has a value or not. -/
theorem KeyStore.permit_writing [Foreign ε] {n : KeyStore σ} {s : σ} {path key : String}
    (hkey : n.keyFor? s path = some key) (hidle : n.session = none) :
    (Node.keyStore n : Node σ ε).permit s path .writing = .ok (.held #[]) := by
  simp [Node.permit, permit, requireKey_eq_ok.mpr hkey, hidle, Access.writing]

/-- An idle key store is opened for reading on the value of the key. -/
theorem KeyStore.permit_reading [Foreign ε] {n : KeyStore σ} {s : σ} {path key : String}
    {value : Bytes} (hkey : n.keyFor? s path = some key) (hidle : n.session = none)
    (hvalue : n.get? key = some value) :
    (Node.keyStore n : Node σ ε).permit s path .reading = .ok (.held value) := by
  simp [Node.permit, permit, requireKey_eq_ok.mpr hkey, hidle, hvalue, Access.reading]

/-- Only a node without a session may be opened. -/
theorem Node.session?_of_permit [Foreign ε] {n : Node σ ε} {s : σ} {path : String}
    {access : Access} {source : Source σ} (h : n.permit s path access = .ok source) :
    n.session? = none := by
  cases n with
  | readOnly n => exact (ReadOnly.permit_eq_ok h).2.2.1
  | readWrite n => simp [session?, (ReadWrite.permit_eq_ok h).2.2.1]
  | keyStore n =>
      obtain ⟨content, hp, -⟩ := map_eq_ok.mp h
      simp [session?, (KeyStore.permit_eq_ok hp).2.2]
  | foreign e removals => rfl

/-- A node with a session refuses every open of its files, whatever the access. -/
theorem Node.permit_of_busy [Foreign ε] {n : Node σ ε} (hb : n.IsBuiltIn) {s : σ} {path : String}
    (hm : n.matchesFile s path = true) (hs : n.session?.isSome = true) (access : Access) :
    ∃ reason, n.permit s path access = .error (.accessConflict reason) := by
  obtain ⟨read, write⟩ := access
  cases n with
  | readOnly n =>
      obtain ⟨session, hsession⟩ := Option.isSome_iff_exists.mp hs
      have hcheck : n.location.check s path = .ok () := Location.check_eq_ok.mpr hm
      replace hsession : n.session = some session := hsession
      cases read <;> cases write <;>
        simp [permit, ReadOnly.permit, hcheck, hsession]
  | readWrite n =>
      obtain ⟨session, hsession⟩ : ∃ session, n.session = some session := by
        simpa [session?, Option.isSome_iff_exists] using hs
      have hcheck : n.location.check s path = .ok () := Location.check_eq_ok.mpr hm
      cases read <;> cases write <;>
        simp [permit, ReadWrite.permit, hcheck, hsession]
  | keyStore n =>
      obtain ⟨session, hsession⟩ : ∃ session, n.session = some session := by
        simpa [session?, Option.isSome_iff_exists] using hs
      obtain ⟨key, hkey⟩ : ∃ key, n.keyFor? s path = some key := Option.isSome_iff_exists.mp hm
      have hrequire : n.requireKey s path = .ok key := KeyStore.requireKey_eq_ok.mpr hkey
      cases read <;> cases write <;>
        simp [permit, KeyStore.permit, hrequire, hsession]
  | foreign e removals => exact hb.elim

/-! ## Sessions that go on -/

/-- A session keeps what it reads when it is written. -/
theorem Session.write_eq_ok {s s' : Session} {offset : Nat} {data : Bytes}
    (h : s.write offset data = .ok s') : s'.snapshot = s.snapshot ∧ s'.access = s.access := by
  unfold write at h
  split at h
  · cases h
  · split at h
    · cases h
    · cases h
      exact ⟨rfl, rfl⟩

/-- So it does when its pending buffer is cut. -/
theorem Session.truncate_eq_ok {s s' : Session} {size : Nat} (h : s.truncate size = .ok s') :
    s'.snapshot = s.snapshot ∧ s'.access = s.access := by
  unfold truncate at h
  split at h
  · cases h
  · cases h
    exact ⟨rfl, rfl⟩

theorem ReadWrite.write_eq_ok {n m : ReadWrite σ} {offset : Nat} {data : Bytes}
    (h : n.write offset data = .ok m) :
    ∃ session inner, n.session = some session ∧ session.inner.write offset data = .ok inner ∧
      m = { n with session := some { session with inner } } := by
  unfold write at h
  split at h
  · cases h
  · next session hs =>
    obtain ⟨inner, hw, hm⟩ := bind_eq_ok.mp h
    exact ⟨session, inner, hs, hw, (Except.ok.inj hm).symm⟩

theorem KeyStore.write_eq_ok {n m : KeyStore σ} {offset : Nat} {data : Bytes}
    (h : n.write offset data = .ok m) :
    ∃ session inner, n.session = some session ∧ session.inner.write offset data = .ok inner ∧
      m = { n with session := some { session with inner } } := by
  unfold write at h
  split at h
  · cases h
  · next session hs =>
    obtain ⟨inner, hw, hm⟩ := bind_eq_ok.mp h
    exact ⟨session, inner, hs, hw, (Except.ok.inj hm).symm⟩

/-- A resize cuts the pending buffer of a session that writes, or leaves the node alone and hands
the empty content to the sink. -/
theorem ReadWrite.resize_eq_ok {n m : ReadWrite σ} {s : σ} {path : String} {size : Nat}
    {content : Option Bytes} (h : n.resize s path size = .ok (m, content)) :
    (∃ session inner, n.session = some session ∧ session.inner.truncate size = .ok inner ∧
      m = { n with session := some { session with inner } } ∧ content = none) ∨
    (m = n ∧ content = some #[]) := by
  obtain ⟨-, -, h⟩ := bind_eq_ok.mp h
  split at h
  · next session hs =>
    obtain ⟨inner, ht, hm⟩ := bind_eq_ok.mp h
    cases hm
    exact .inl ⟨session, inner, (Option.filter_eq_some_iff.mp hs).1, ht, rfl, rfl⟩
  · dsimp only at h
    split at h
    · cases h
    · cases h
      exact .inr ⟨rfl, rfl⟩

/-- Which of the two it is depends on whether a session writes; and only a truncation to nothing of
the node's own file reaches the sink. -/
theorem ReadWrite.resize_cases {n m : ReadWrite σ} {s : σ} {path : String} {size : Nat}
    {content : Option Bytes} (h : n.resize s path size = .ok (m, content)) :
    n.writer?.isSome = true ∧ content = none ∨
    n.writer? = none ∧ size = 0 ∧ n.location.matchesFile s path = true ∧ m = n ∧
      content = some #[] := by
  obtain ⟨⟨⟩, hcheck, h⟩ := bind_eq_ok.mp h
  split at h
  · next session hs =>
    obtain ⟨inner, -, hm⟩ := bind_eq_ok.mp h
    cases hm
    exact .inl ⟨by rw [hs]; rfl, rfl⟩
  · next hs =>
    dsimp only at h
    split at h
    · cases h
    · next hsize =>
      cases h
      exact .inr ⟨hs, by simpa using hsize, Location.check_eq_ok.mp hcheck, rfl, rfl⟩

/-- A resize cuts the pending buffer of a session that writes the key, or the value of the key. -/
theorem KeyStore.resize_eq_ok {n m : KeyStore σ} {s : σ} {path : String} {size : Nat}
    (h : n.resize s path size = .ok m) :
    (∃ session inner, n.session = some session ∧ session.inner.truncate size = .ok inner ∧
      m = { n with session := some { session with inner } }) ∨
    (∃ key value, n.keyFor? s path = some key ∧ n.get? key = some value ∧
      m = { n with entries := n.entries.insert key (value.take size) }) := by
  obtain ⟨key, hkey, h⟩ := bind_eq_ok.mp h
  split at h
  · next session hs =>
    obtain ⟨inner, ht, hm⟩ := bind_eq_ok.mp h
    cases hm
    exact .inl ⟨session, inner, (Option.filter_eq_some_iff.mp hs).1, ht, rfl⟩
  · split at h
    · cases h
    · next value hv =>
      dsimp only at h
      split at h
      · cases h
      · cases h
        exact .inr ⟨key, value, requireKey_eq_ok.mp hkey, hv, rfl⟩

/-! ## Ends of sessions -/

theorem ReadWrite.close_eq_ok {n m : ReadWrite σ} {session : LiveSession}
    (h : n.close = .ok (session, m)) :
    n.session = some session ∧ m = { n with
      session := none
      published := { n.published with
        live := if n.published.live = some session.number then none else n.published.live } } := by
  unfold close at h
  split at h
  · cases h
  · next hs =>
    cases h
    exact ⟨hs, rfl⟩

theorem KeyStore.close_eq_ok {n m : KeyStore σ} {session : KeySession}
    (h : n.close = .ok (session, m)) :
    n.session = some session ∧
      m = { n with session := none, entries := settled n.entries session } := by
  unfold close at h
  split at h
  · cases h
  · next hs =>
    cases h
    exact ⟨hs, rfl⟩

/-! ## Changes -/

theorem ReadWrite.announce?_eq_some {n m : ReadWrite σ} {value : Bytes}
    (h : n.announce? value = some m) :
    n.published.last ≠ some value ∧ m = { n with published := { n.published with
      last := some value, generation := n.published.generation + 1 } } := by
  unfold announce? at h
  split at h
  · cases h
  · next hne => exact ⟨hne, (Option.some.inj h).symm⟩

theorem ReadWrite.announce?_eq_none {n : ReadWrite σ} {value : Bytes} :
    n.announce? value = none ↔ n.published.last = some value := by
  unfold announce?
  split <;> simp_all

/-- A reader that is let through finds its session, and the session sees the last value. -/
theorem ReadWrite.wake?_eq_ok {n m : ReadWrite σ} {ticket : Ticket}
    (h : n.wake? ticket = some (.ok m)) :
    ∃ session, n.session = some session ∧ m = { n with session := some { session with
      inner := { session.inner with snapshot := n.published.last.getD #[] }
      observed := n.published.generation } } := by
  unfold wake? at h
  split at h
  · cases h
  · split at h
    · cases h
    · split at h
      · cases h
      · next session hs =>
        cases h
        exact ⟨session, (Option.filter_eq_some_iff.mp hs).1, rfl⟩

/-! ## Steps -/

/-- One successful operation on a read-only node. -/
inductive ReadOnly.Step : ReadOnly σ → ReadOnly σ → Prop where
  | begin {n : ReadOnly σ} (s : σ) (access : Access) (content : Bytes) (idle : n.session = none) :
      Step n (n.begin s access content)
  | close {n m : ReadOnly σ} {session : Session} (h : n.close = .ok (session, m)) : Step n m

/-- What an operation on a read-write node tells a reader that waits there. -/
inductive Sign where
  | nothing
  /-- A session has begun. -/
  | opened
  /-- A new value is there. -/
  | announced (value : Bytes)
  /-- The reader has been let through. -/
  | caughtUp

/-- One successful operation on a read-write node. -/
inductive ReadWrite.Step : Sign → ReadWrite σ → ReadWrite σ → Prop where
  | begin {n : ReadWrite σ} (s : σ) (access : Access) (content : Bytes)
      (idle : n.session = none) : Step .opened n (n.begin s access content)
  | write {n m : ReadWrite σ} {offset : Nat} {data : Bytes} (h : n.write offset data = .ok m) :
      Step .nothing n m
  | resize {n m : ReadWrite σ} {s : σ} {path : String} {size : Nat} {content : Option Bytes}
      (h : n.resize s path size = .ok (m, content)) : Step .nothing n m
  | close {n m : ReadWrite σ} {session : LiveSession} (h : n.close = .ok (session, m)) :
      Step .nothing n m
  | announce {n m : ReadWrite σ} {value : Bytes} (h : n.announce? value = some m) :
      Step (.announced value) n m
  | wake {n m : ReadWrite σ} {ticket : Ticket} (h : n.wake? ticket = some (.ok m)) :
      Step .caughtUp n m
  /-- The node is looked at, or refuses. -/
  | rest (n : ReadWrite σ) : Step .nothing n n

/-- One successful operation on a key store. -/
inductive KeyStore.Step : KeyStore σ → KeyStore σ → Prop where
  | insert {n m : KeyStore σ} {key : String} {value : Bytes} (h : n.insert key value = .ok m) :
      Step n m
  | remove {n : KeyStore σ} (key : String) : Step n (n.remove key)
  | begin {n : KeyStore σ} (s : σ) (path : String) (access : Access) (content : Bytes)
      (idle : n.session = none) : Step n (n.begin s path access content)
  | write {n m : KeyStore σ} {offset : Nat} {data : Bytes} (h : n.write offset data = .ok m) :
      Step n m
  | resize {n m : KeyStore σ} {s : σ} {path : String} {size : Nat}
      (h : n.resize s path size = .ok m) : Step n m
  | close {n m : KeyStore σ} {session : KeySession} (h : n.close = .ok (session, m)) : Step n m

/-- One successful operation on a node. Nothing is known about a foreign one. -/
inductive Node.Step : Node σ ε → Node σ ε → Prop where
  | readOnly {n m : ReadOnly σ} (h : n.Step m) : Step (.readOnly n) (.readOnly m)
  | readWrite {n m : ReadWrite σ} {sign : Sign} (h : ReadWrite.Step sign n m) :
      Step (.readWrite n) (.readWrite m)
  | keyStore {n m : KeyStore σ} (h : n.Step m) : Step (.keyStore n) (.keyStore m)
  | foreign (e e' : ε) (removals : σ → List NodeId) :
      Step (.foreign e removals) (.foreign e' removals)

/-- Beginning a session is a step of an idle node. -/
theorem Node.step_begin [Foreign ε] {n : Node σ ε} (h : n.session? = none) (s : σ) (path : String)
    (access : Access) (content : Bytes) : Node.Step n (n.begin s path access content) := by
  cases n with
  | readOnly n => exact .readOnly (.begin s access content h)
  | readWrite n => exact .readWrite (.begin s access content (by simpa [session?] using h))
  | keyStore n => exact .keyStore (.begin s path access content (by simpa [session?] using h))
  | foreign e removals => exact .foreign e _ removals

/-! ### What a step keeps open -/

theorem ReadWrite.isSome_session_write {n m : ReadWrite σ} {offset : Nat} {data : Bytes}
    (h : n.write offset data = .ok m) : m.session.isSome = n.session.isSome := by
  obtain ⟨session, inner, hs, -, rfl⟩ := write_eq_ok h
  simp [hs]

theorem KeyStore.isSome_session_write {n m : KeyStore σ} {offset : Nat} {data : Bytes}
    (h : n.write offset data = .ok m) : m.session.isSome = n.session.isSome := by
  obtain ⟨session, inner, hs, -, rfl⟩ := write_eq_ok h
  simp [hs]

theorem ReadWrite.isSome_session_resize {n m : ReadWrite σ} {s : σ} {path : String} {size : Nat}
    {content : Option Bytes} (h : n.resize s path size = .ok (m, content)) :
    m.session.isSome = n.session.isSome := by
  obtain ⟨session, inner, hs, -, rfl, -⟩ | ⟨rfl, -⟩ := resize_eq_ok h
  · simp [hs]
  · rfl

theorem KeyStore.isSome_session_resize {n m : KeyStore σ} {s : σ} {path : String} {size : Nat}
    (h : n.resize s path size = .ok m) : m.session.isSome = n.session.isSome := by
  obtain ⟨session, inner, hs, -, rfl⟩ | ⟨key, value, -, -, rfl⟩ := resize_eq_ok h
  · simp [hs]
  · rfl

theorem ReadWrite.isSome_session_wake {n m : ReadWrite σ} {ticket : Ticket}
    (h : n.wake? ticket = some (.ok m)) : m.session.isSome = n.session.isSome := by
  obtain ⟨session, hs, rfl⟩ := wake?_eq_ok h
  simp [hs]

end LiveTree
