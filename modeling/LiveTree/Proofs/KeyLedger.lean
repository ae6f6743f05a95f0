import LiveTree.Proofs.Keys
import LiveTree.Proofs.Places
import LiveTree.Proofs.Sessions
import Mathlib.Logic.Function.Basic

/-!
# The account of a key store

Three things write the values of a key store: a session when it closes, its publisher at any time,
and a resize of a key that no session writes. One session at a time is open on the whole store, and
whatever it has written stays in its buffer until it closes.

`Ledger` is the account one would keep of that on paper: a function from keys to values, and the
draft of the open session. It knows nothing of how the store keeps its bindings. The main result,
`run_keeps_ledger`, is that any sequence of deeds leaves a store with the values of its account, that
a deed is refused by both or by none, and which key's value a deed can change.
-/

namespace LiveTree

variable {σ ε : Type}

namespace KeyStore

/-! ## Deeds -/

/-- What can be done to a key store, in sessions and by its publisher. -/
inductive Deed where
  | opens (path : String) (access : Access)
  | writes (offset : Nat) (data : Bytes)
  | resizes (path : String) (size : Nat)
  | closes
  | inserts (key : String) (value : Bytes)
  | removes (key : String)

/-- The store after a deed, or why the deed is refused. -/
def apply (n : KeyStore σ) (s : σ) : Deed → Except Fault (KeyStore σ)
  | .opens path access => (n.permit s path access).map (n.begin s path access)
  | .writes offset data => n.write offset data
  | .resizes path size => n.resize s path size
  | .closes => n.close.map (·.2)
  | .inserts key value => n.insert key value
  | .removes key => .ok (n.remove key)

/-- The store after a deed that may be refused. -/
def after (n : KeyStore σ) (s : σ) (deed : Deed) : KeyStore σ :=
  match n.apply s deed with
  | .ok m => m
  | .error _ => n

/-- The store after deeds, each with the publisher's state at its time. -/
def run (n : KeyStore σ) (deeds : List (σ × Deed)) : KeyStore σ :=
  deeds.foldl (fun n (s, deed) => n.after s deed) n

/-! ## The account -/

/-- An open session as the account has it. -/
structure Draft where
  key : String
  writes : Bool
  buffer : Bytes := #[]
  /-- Whether a write or a truncation has succeeded. -/
  touched : Bool := false

namespace Draft

/-- The draft after a write, if it takes it. -/
def write? (d : Draft) (offset : Nat) (data : Bytes) : Option Draft :=
  if d.writes ∧ offset + data.size ≤ maxPendingBytes then
    some { d with buffer := d.buffer.overlay offset data, touched := true }
  else none

/-- The draft cut to a size, if it is that long. -/
def cut? (d : Draft) (size : Nat) : Option Draft :=
  if size ≤ d.buffer.size then some { d with buffer := d.buffer.take size, touched := true }
  else none

end Draft

/-- The values by key, and the draft of the open session. -/
structure Ledger where
  values : String → Option Bytes := fun _ => none
  draft : Option Draft := none

namespace Ledger

/-- Another value for one key, or none. -/
def put (l : Ledger) (key : String) (value : Option Bytes) : Ledger :=
  { l with values := Function.update l.values key value }

/-- The draft that writes `key`. -/
def writer? (l : Ledger) (key : String) : Option Draft :=
  l.draft.filter fun d => d.key = key && d.writes

/-- The value of the draft's key when it closes. -/
def outcome (l : Ledger) (d : Draft) : Option Bytes :=
  if d.writes then
    if d.touched then some d.buffer else some ((l.values d.key).getD #[])
  else l.values d.key

/-- The account after a deed, where `key?` tells the key that a path addresses; `none` if the deed is
refused. -/
def enter (l : Ledger) (key? : String → Option String) : Deed → Option Ledger
  | .opens path access =>
    match key? path, l.draft with
    | some key, none =>
      if access.write ∨ access.read ∧ (l.values key).isSome then
        some { l with draft := some { key, writes := access.write } }
      else none
    | _, _ => none
  | .writes offset data =>
    (l.draft.bind (·.write? offset data)).map fun d => { l with draft := some d }
  | .resizes path size =>
    match key? path with
    | none => none
    | some key =>
      match l.writer? key with
      | some d => (d.cut? size).map fun d => { l with draft := some d }
      | none =>
        match l.values key with
        | none => none
        | some value => if size ≤ value.size then some (l.put key (value.take size)) else none
  | .closes => l.draft.map fun d => { l.put d.key (l.outcome d) with draft := none }
  | .inserts key value => if Path.isValidName key then some (l.put key value) else none
  | .removes key => some (l.put key none)

/-- The account of deeds. -/
def run (l : Ledger) (key? : σ → String → Option String) (deeds : List (σ × Deed)) : Ledger :=
  deeds.foldl (fun l (s, deed) => (l.enter (key? s) deed).getD l) l

/-- The key whose value a deed may change. -/
def concerned? (l : Ledger) (key? : String → Option String) : Deed → Option String
  | .opens _ _ | .writes _ _ => none
  | .resizes path _ => (key? path).filter fun key => (l.writer? key).isNone
  | .closes => (l.draft.filter (·.writes)).map (·.key)
  | .inserts key _ | .removes key => some key

end Ledger

end KeyStore

/-- What the account has of a session. -/
def KeySession.draft (s : KeySession) : KeyStore.Draft :=
  ⟨s.key, s.inner.access.write, s.inner.pending, s.inner.dirty⟩

/-! ## Values -/

namespace NameMap

theorem get?_erase {α : Type} (m : NameMap α) (name key : String) :
    (m.erase name).get? key = if key = name then none else m.get? key := by
  induction m with
  | nil => simp [erase, get?]
  | cons binding rest ih =>
      obtain ⟨first, value⟩ := binding
      by_cases he : first = name
      · subst he
        have hskip : erase ((first, value) :: rest) first = erase rest first := by simp [erase]
        rw [hskip, ih]
        by_cases hk : key = first
        · simp [hk]
        · simp [hk, get?, Ne.symm hk]
      · have hkeep : erase ((first, value) :: rest) name = (first, value) :: erase rest name := by
          simp [erase, he]
        rw [hkeep]
        unfold get?
        split
        · next hk => simp [← hk, he]
        · exact ih

end NameMap

namespace KeyStore

variable {n m : KeyStore σ} {l : Ledger}

/-- The store is as its account says. -/
structure Keeps (l : Ledger) (n : KeyStore σ) : Prop where
  orderly : n.Orderly
  values : ∀ key, n.get? key = l.values key
  draft : n.session.map KeySession.draft = l.draft

/-- A deed was done and the store is as the account says, or it was refused by both. -/
def Answers : Except Fault (KeyStore σ) → Option Ledger → Prop
  | .ok m, some l => m.Keeps l
  | .error _, none => True
  | _, _ => False

theorem step_of_apply {s : σ} {deed : Deed} (h : n.apply s deed = .ok m) : n.Step m := by
  cases deed with
  | opens path access =>
      obtain ⟨content, hp, rfl⟩ := map_eq_ok.mp h
      exact .begin s path access content (permit_eq_ok hp).2.2
  | writes offset data => exact .write h
  | resizes path size => exact .resize h
  | closes =>
      obtain ⟨⟨session, closed⟩, hc, rfl⟩ := map_eq_ok.mp h
      exact .close hc
  | inserts key value => exact .insert h
  | removes key =>
      cases h
      exact .remove key

theorem Keeps.session_none (h : n.Keeps l) : n.session = none ↔ l.draft = none := by
  rw [← h.draft, Option.map_eq_none_iff]

theorem Keeps.draft_of_session (h : n.Keeps l) {session : KeySession}
    (hs : n.session = some session) : l.draft = some session.draft := by
  rw [← h.draft, hs]
  rfl

/-! ## Sessions and drafts -/

/-- A session takes a write exactly if its draft does. -/
theorem write?_draft (session : KeySession) (offset : Nat) (data : Bytes) :
    session.draft.write? offset data =
      (session.inner.write offset data).toOption.map fun inner => { session with inner }.draft := by
  unfold Session.write Draft.write? KeySession.draft
  rcases hw : session.inner.access.write with _ | _
  · simp [Except.toOption]
  · by_cases hfits : offset + data.size ≤ maxPendingBytes
    · simp [hfits, hw, Nat.not_lt.mpr hfits, Except.toOption]
    · simp [hfits, Nat.lt_of_not_le hfits, Except.toOption]

/-- A session is cut exactly if its draft is. -/
theorem cut?_draft (session : KeySession) (size : Nat) :
    session.draft.cut? size =
      (session.inner.truncate size).toOption.map fun inner => { session with inner }.draft := by
  unfold Session.truncate Draft.cut? KeySession.draft
  by_cases hfits : size ≤ session.inner.pending.size
  · simp [hfits, Nat.not_lt.mpr hfits, Except.toOption]
  · simp [hfits, Nat.lt_of_not_le hfits, Except.toOption]

theorem Keeps.setSession (h : n.Keeps l) {session : KeySession} (hs : n.session = some session)
    (inner : Session) : Keeps { l with draft := some { session with inner }.draft }
      { n with session := some { session with inner } } where
  orderly := h.orderly.setSession hs inner
  values := h.values
  draft := rfl

/-- The account and the store have the same session that writes a key. -/
theorem Keeps.writer? (h : n.Keeps l) (key : String) :
    l.writer? key = (n.writer? key).map KeySession.draft := by
  unfold Ledger.writer? KeyStore.writer?
  rw [← h.draft, Option.filter_map]
  rfl

/-! ## One deed -/

/-- Another value for a key is another value in the account. -/
theorem Keeps.alter (h : n.Keeps l) {key : String} (hkey : Path.isValidName key = true)
    (f : Option Bytes → Bytes) :
    Keeps (l.put key (some (f (l.values key)))) { n with entries := n.entries.alter key f } where
  orderly := h.orderly.alter hkey f
  values other := by
    show NameMap.get? (n.entries.alter key f) other = Function.update l.values key _ other
    have hvalue : n.entries.get? key = l.values key := h.values key
    rw [NameMap.get?_alter h.orderly.sorted, Function.update_apply, hvalue]
    split
    · rfl
    · exact h.values other
  draft := h.draft

/-- A path may be opened if it addresses a key, the store is idle, and there is something to read or
leave to write. -/
theorem exists_permit_iff {s : σ} {path : String} {access : Access} :
    (∃ content, n.permit s path access = .ok content) ↔
      ∃ key, n.keyFor? s path = some key ∧ n.session = none ∧
        (access.write = true ∨ access.read = true ∧ (n.get? key).isSome = true) := by
  obtain ⟨read, write⟩ := access
  rcases hkey : n.keyFor? s path with _ | key
  · simp [permit, requireKey, hkey]
  · rcases hs : n.session with _ | session <;> rcases hvalue : n.get? key with _ | value <;>
      cases read <;> cases write <;>
      simp [permit, requireKey, hkey, hs, hvalue]

theorem Keeps.opens (h : n.Keeps l) (s : σ) (path : String) (access : Access) :
    Answers (n.apply s (.opens path access)) (l.enter (n.keyFor? s) (.opens path access)) := by
  rcases hp : n.permit s path access with fault | content
  · -- the store refuses, so one of the conditions fails, and with it the same one of the account
    have hnot : ¬ ∃ content, n.permit s path access = .ok content := by simp [hp]
    rw [exists_permit_iff] at hnot
    have hrefused : l.enter (n.keyFor? s) (.opens path access) = none := by
      simp only [Ledger.enter]
      split
      · next key hkey hdraft =>
        rw [if_neg]
        intro hright
        exact hnot ⟨key, hkey, h.session_none.mpr hdraft, by simpa only [h.values] using hright⟩
      · rfl
    simp [apply, hp, hrefused, Answers]
  · obtain ⟨key, hkey, hidle, hright⟩ := exists_permit_iff.mp ⟨content, hp⟩
    rw [h.values] at hright
    simp only [apply, hp, Ledger.enter, hkey, h.session_none.mp hidle, if_pos hright, map_ok]
    refine ⟨h.orderly.begin s path access content, ?_, ?_⟩
    · simp only [begin, hkey]
      exact h.values
    · simp only [begin, hkey]
      rfl

theorem Keeps.writes (h : n.Keeps l) (offset : Nat) (data : Bytes) :
    Answers (n.write offset data) ((l.draft.bind (·.write? offset data)).map
      fun d => { l with draft := some d }) := by
  rcases hs : n.session with _ | session
  · simp [write, hs, h.session_none.mp hs, Answers]
  · rw [h.draft_of_session hs, Option.bind_some, write?_draft]
    rcases hw : session.inner.write offset data with fault | inner
    · simp [write, hs, hw, Except.toOption, Answers]
    · simpa [write, hs, hw, Except.toOption, Answers] using
        h.setSession hs inner

theorem Keeps.resizes (h : n.Keeps l) (s : σ) (path : String) (size : Nat) :
    Answers (n.resize s path size) (l.enter (n.keyFor? s) (.resizes path size)) := by
  simp only [resize, Ledger.enter]
  rcases hkey : n.keyFor? s path with _ | key
  · simp [requireKey, hkey, Answers]
  · simp only [requireKey, hkey, h.writer? key, ok_bind]
    rcases hwriter : n.writer? key with _ | session
    · rw [Option.map_none, ← h.values key]
      rcases hvalue : n.get? key with _ | value
      · simp [Answers]
      · by_cases hfits : size ≤ value.size
        · simpa [Nat.not_lt.mpr hfits, hfits, NameMap.insert, Answers] using
            h.alter (isValidName_of_keyFor? hkey) fun _ => value.take size
        · simp [Nat.lt_of_not_le hfits, hfits, Answers]
    · have hs : n.session = some session := (Option.filter_eq_some_iff.mp hwriter).1
      simp only [Option.map_some, cut?_draft]
      rcases ht : session.inner.truncate size with fault | inner
      · simp [Except.toOption, Answers]
      · simpa [Except.toOption, Answers] using h.setSession hs inner

/-- What a session leaves of its key is the outcome of its draft. -/
theorem Keeps.settled (h : n.Keeps l) {session : KeySession} (hs : n.session = some session) :
    Keeps { l.put session.draft.key (l.outcome session.draft) with draft := none }
      { n with session := none, entries := settled n.entries session } := by
  refine ⟨h.orderly.settled hs, ?_, rfl⟩
  intro key
  show NameMap.get? (KeyStore.settled n.entries session) key =
    Function.update l.values session.key (l.outcome session.draft) key
  have hvalue : ∀ key, n.entries.get? key = l.values key := h.values
  have hsorted := h.orderly.sorted
  rw [Function.update_apply, KeyStore.settled, Session.commit?, Ledger.outcome]
  rcases hwrite : session.inner.access.write with _ | _
  · by_cases hk : key = session.key
    · simp [KeySession.draft, hwrite, hk, hvalue]
    · simp [hk, hvalue]
  · rcases hdirty : session.inner.dirty with _ | _
    · simp [KeySession.draft, hwrite, hdirty, NameMap.get?_alter hsorted, hvalue]
    · simp [KeySession.draft, hwrite, hdirty, NameMap.insert, NameMap.get?_alter hsorted, hvalue]

/-- Every deed is done by a store and its account, or refused by both. -/
theorem Keeps.answers (h : n.Keeps l) (s : σ) (deed : Deed) :
    Answers (n.apply s deed) (l.enter (n.keyFor? s) deed) := by
  cases deed with
  | opens path access => exact h.opens s path access
  | writes offset data => exact h.writes offset data
  | resizes path size => exact h.resizes s path size
  | closes =>
      rcases hs : n.session with _ | session
      · simp [apply, close, hs, Ledger.enter, h.session_none.mp hs, Answers]
      · simpa [apply, close, hs, Ledger.enter, h.draft_of_session hs, Answers] using
          h.settled hs
  | inserts key value =>
      simp only [apply, insert, Ledger.enter]
      split
      · next hkey => exact h.alter hkey fun _ => value
      · trivial
  | removes key =>
      refine ⟨h.orderly.step (.remove key), ?_, h.draft⟩
      intro other
      show NameMap.get? (n.entries.erase key) other = Function.update l.values key none other
      rw [NameMap.get?_erase, Function.update_apply]
      split
      · rfl
      · exact h.values other

/-! ## Runs -/

theorem Keeps.after (h : n.Keeps l) (s : σ) (deed : Deed) :
    (n.after s deed).Keeps ((l.enter (n.keyFor? s) deed).getD l) := by
  have hanswers := h.answers s deed
  unfold KeyStore.after
  revert hanswers
  rcases n.apply s deed with fault | m <;> rcases l.enter (n.keyFor? s) deed with _ | l'
  · exact fun _ => h
  · exact False.elim
  · exact False.elim
  · exact id

/-- A store stays in its directory. -/
theorem directory_after (n : KeyStore σ) (s : σ) (deed : Deed) :
    (n.after s deed).directory = n.directory := by
  unfold KeyStore.after
  split
  · next m ha =>
    cases step_of_apply ha with
    | insert hi =>
        unfold insert at hi
        split at hi
        · cases hi
          rfl
        · cases hi
    | remove key => rfl
    | begin s path access content idle =>
        unfold begin
        split <;> rfl
    | write hw =>
        obtain ⟨session, inner, -, -, rfl⟩ := write_eq_ok hw
        rfl
    | resize hr =>
        obtain ⟨session, inner, -, -, rfl⟩ | ⟨key, value, -, -, rfl⟩ := resize_eq_ok hr <;> rfl
    | close hc =>
        obtain ⟨-, rfl⟩ := close_eq_ok hc
        rfl
  · rfl

theorem keyFor?_of_directory (h : m.directory = n.directory) : m.keyFor? = n.keyFor? := by
  funext s path
  simp only [keyFor?, h]

theorem Keeps.run (h : n.Keeps l) (deeds : List (σ × Deed)) :
    (n.run deeds).directory = n.directory ∧ (n.run deeds).Keeps (l.run n.keyFor? deeds) := by
  induction deeds generalizing n l with
  | nil => exact ⟨rfl, h⟩
  | cons deed deeds ih =>
      obtain ⟨s, deed⟩ := deed
      have hdirectory := directory_after n s deed
      obtain ⟨hsame, hkeeps⟩ := ih (h.after s deed)
      rw [keyFor?_of_directory hdirectory] at hkeeps
      exact ⟨hsame.trans hdirectory, hkeeps⟩

/-- No deed changes a value that it does not concern. -/
theorem Ledger.values_enter (l : Ledger) (key? : String → Option String) (deed : Deed)
    {key : String} (h : l.concerned? key? deed ≠ some key) :
    ((l.enter key? deed).getD l).values key = l.values key := by
  have hput : ∀ (other : String) (value : Option Bytes), other ≠ key →
      (l.put other value).values key = l.values key := by
    intro other value hne
    simp [put, hne.symm]
  cases deed with
  | opens path access =>
      simp only [enter]
      split
      · split <;> rfl
      · rfl
  | writes offset data =>
      simp only [enter]
      cases l.draft.bind (·.write? offset data) <;> rfl
  | resizes path size =>
      simp only [enter]
      rcases hkey : key? path with _ | other
      · rfl
      · dsimp only
        rcases hwriter : l.writer? other with _ | d
        · have hne : other ≠ key := by
            rintro rfl
            exact h (by simp [concerned?, hkey, hwriter])
          dsimp only
          rcases l.values other with _ | value
          · rfl
          · dsimp only
            split
            · exact hput other _ hne
            · rfl
        · dsimp only
          cases d.cut? size <;> rfl
  | closes =>
      rcases hdraft : l.draft with _ | d
      · simp [enter, hdraft]
      · by_cases he : d.key = key
        · -- a session that only reads leaves the value that the key has
          have hreads : d.writes = false := by simpa [concerned?, hdraft, he] using h
          simp [enter, hdraft, put, outcome, hreads, he]
        · simpa [enter, hdraft] using hput d.key (l.outcome d) he
  | inserts other value =>
      have hne : other ≠ key := by simpa [concerned?] using h
      simp only [enter]
      split
      · exact hput other _ hne
      · rfl
  | removes other =>
      have hne : other ≠ key := by simpa [concerned?] using h
      exact hput other _ hne

/-! ## In trees -/

/-- The path of a key is addressed to it, wherever the store is now. -/
theorem keyFor?_join (n : KeyStore σ) (s : σ) {key : String}
    (hkey : Path.isValidName key = true) :
    n.keyFor? s (Path.join (n.directory.resolve s) key) = some key := by
  have hplace := n.directory.areSegments_place s
  have hsegment : Path.IsSegment key := (Path.isValidName_iff.mp hkey).1
  rw [n.directory.resolve_eq, Path.join_ofSegments hplace]
  exact (keyFor?_ofSegments (hplace.append (.singleton hsegment))).mpr ⟨rfl, hkey⟩

end KeyStore

namespace Tree

variable [Foreign ε]

/-- The tree after a deed on the key store `ref` leads to. -/
def carryOut (t : Tree σ ε) (ref : NodeRef) : KeyStore.Deed → Tree σ ε
  | .opens path access => (t.openNode ref path access).2
  | .writes offset data => (t.writeNode ref offset data).2
  | .resizes path size => (t.resizeOn ref path size).2
  | .closes => (t.closeNode ref).2
  | .inserts key value => t.insertKey ref key value
  | .removes key => t.removeKey ref key

/-- A deed in a tree does to the store what it does to the store alone. -/
theorem node?_carryOut {t : Tree σ ε} {ref : NodeRef} {n : KeyStore σ}
    (hn : t.node? ref = some (.keyStore n)) (deed : KeyStore.Deed) :
    (t.carryOut ref deed).node? ref = some (.keyStore (n.after t.publisher deed)) := by
  cases deed with
  | opens path access =>
      rcases hp : n.permit t.publisher path access with fault | content
      · simp [carryOut, openNode, hn, Node.permit, hp, KeyStore.after, KeyStore.apply]
      · have hbegun := node?_startSession_self hn path access content
        rw [Node.begin] at hbegun
        simpa [carryOut, openNode, hn, Node.permit, hp, KeyStore.after, KeyStore.apply, fetch] using
          hbegun
  | writes offset data =>
      rcases hw : n.write offset data with fault | m
      · simp [carryOut, writeNode, hn, hw, KeyStore.after, KeyStore.apply]
      · simpa [carryOut, writeNode, hn, hw, KeyStore.after, KeyStore.apply] using
          node?_setNode_self _ hn
  | resizes path size =>
      rcases hr : n.resize t.publisher path size with fault | m
      · simp [carryOut, resizeOn, hn, hr, KeyStore.after, KeyStore.apply]
      · simpa [carryOut, resizeOn, hn, hr, KeyStore.after, KeyStore.apply] using
          node?_setNode_self _ hn
  | closes =>
      have hclosed := node?_closeNode_self hn
      rcases hc : n.close with fault | ⟨session, m⟩ <;>
        simpa [carryOut, Node.closed, hc, KeyStore.after, KeyStore.apply] using hclosed
  | inserts key value =>
      rcases hi : n.insert key value with fault | m
      · simp [carryOut, insertKey, hn, hi, KeyStore.after, KeyStore.apply]
      · simpa [carryOut, insertKey, hn, hi, KeyStore.after, KeyStore.apply] using
          node?_setNode_self _ hn
  | removes key =>
      simpa [carryOut, removeKey, hn, KeyStore.after, KeyStore.apply] using
        node?_setNode_self _ hn

end Tree

/-- Whatever is done to a key store that began empty, in whatever order, with its directory moving as
it may: every key has the value that its account says, and the keys are listed in order. So a session
that writes leaves its buffer when it closes if a write or a truncation of it succeeded, and else the
value that the key then has, or an empty one; and a resize of a key that no session writes keeps the
first octets of its value, or is refused.

A deed is refused by the store exactly if it is by its account. It changes the value of the key that
it concerns only, so none before a session that writes is closed, and none at all if the session only
reads. Every key is a name, and its path in the directory is addressed to it. And in a tree, a deed
does to the store what it does to the store alone. -/
theorem KeyStore.run_keeps_ledger (ε : Type) [Foreign ε] (d : Directory σ)
    (deeds : List (σ × Deed)) :
    ∃ n l, run { directory := d } deeds = n ∧
      Ledger.run {} (keyFor? { directory := d }) deeds = l ∧
      (∀ key, n.get? key = l.values key) ∧
      n.keys.Pairwise (NameMap.before · · = true) ∧
      (∀ key, key ∈ n.keys ↔ (l.values key).isSome = true) ∧
      (∀ key ∈ n.keys, Path.isValidName key = true ∧
        ∀ s, n.keyFor? s (Path.join (d.resolve s) key) = some key) ∧
      ∀ s deed,
        ((∃ m, n.apply s deed = .ok m) ↔ (l.enter (n.keyFor? s) deed).isSome = true) ∧
        (∀ key, l.concerned? (n.keyFor? s) deed ≠ some key →
          (n.after s deed).get? key = n.get? key) ∧
        ∀ (t : Tree σ ε) ref, t.node? ref = some (.keyStore n) → t.publisher = s →
          (t.carryOut ref deed).node? ref = some (.keyStore (n.after s deed)) := by
  have hempty : Keeps {} ({ directory := d } : KeyStore σ) :=
    ⟨⟨nofun, NameMap.sorted_nil, nofun⟩, fun _ => rfl, rfl⟩
  obtain ⟨hdirectory, hkeeps⟩ := hempty.run deeds
  refine ⟨_, _, rfl, rfl, hkeeps.values, hkeeps.orderly.sorted, ?_, ?_, ?_⟩
  · intro key
    rw [mem_keys, ← Option.isSome_iff_exists, hkeeps.values]
  · intro key hkey
    have hvalid := hkeeps.orderly.valid key hkey
    refine ⟨hvalid, fun s => ?_⟩
    have hjoin := keyFor?_join (run { directory := d } deeds) s hvalid
    rwa [hdirectory] at hjoin
  · intro s deed
    refine ⟨?_, ?_, ?_⟩
    · have hanswers := hkeeps.answers s deed
      revert hanswers
      rcases (run { directory := d } deeds).apply s deed with fault | m <;>
        rcases Ledger.enter _ _ deed with _ | l
      · simp
      · exact False.elim
      · exact False.elim
      · simp
    · intro key hne
      rw [(hkeeps.after s deed).values, hkeeps.values]
      exact Ledger.values_enter _ _ deed hne
    · rintro t ref hn rfl
      exact Tree.node?_carryOut hn deed

/-- While a session writes one key, another is cut, and the first is taken away: the close brings it
back. -/
example : (KeyStore.run { directory := .fixed "/notes" } [
    ((), .inserts "todo" #[1, 2, 3]), ((), .inserts "draft" #[4]),
    ((), .opens "/notes/draft" .both), ((), .writes 0 #[7]), ((), .resizes "/notes/todo" 2),
    ((), .removes "draft"), ((), .closes)]).entries = [("draft", #[7]), ("todo", #[1, 2])] := by
  decide

end LiveTree
