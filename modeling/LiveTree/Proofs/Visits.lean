import LiveTree.Proofs.Moves
import LiveTree.Proofs.Reading

/-!
# Sessions that come and go

Writing or reading a whole content opens a file, uses the session and closes it again, with nothing
in between. The handle is the one that has just been given, so it leads to the session that has just
begun (`handle?_addHandle`), and striking it off leaves the table as it was (`close_addHandle`). What
remains is what happens to the one node: a session begins on it, is used and ends. `Visited` says
what that leaves of the tree, and there is a lemma for each kind of node and each outcome.
-/

namespace LiveTree

/-! ## What a session takes -/

theorem Bytes.overlay_empty (data : Bytes) : Bytes.overlay #[] 0 data = data := by
  simp [overlay]

/-- A content that is not too long is taken as the whole of an empty buffer. -/
theorem Session.write_of_le {s : Session} {data : Bytes} (haccess : s.access.write = true)
    (hempty : s.pending = #[]) (hsize : data.size ≤ maxPendingBytes) :
    s.write 0 data = .ok { s with pending := data, dirty := true } := by
  simp [write, haccess, Nat.not_lt.mpr hsize, hempty, Bytes.overlay_empty]

theorem Session.write_of_lt {s : Session} {data : Bytes} (haccess : s.access.write = true)
    (hsize : maxPendingBytes < data.size) : s.write 0 data = .error (.tooLarge maxPendingBytes) := by
  simp [write, haccess, hsize]

/-- The node after a session that made `last` its last known value, and announced nothing. -/
def ReadWrite.visited {σ : Type} (n : ReadWrite σ) (last : Option Bytes) : ReadWrite σ :=
  { n with
    published := { n.published with last, live := none }
    nextSession := n.nextSession + 1 }

namespace Tree

variable {σ ε : Type} [Foreign ε] {t u : Tree σ ε}

/-! ## The handle just given -/

omit [Foreign ε] in
theorem handle?_addHandle (h : t.Numbered) (r : Registration) (path : String) :
    (t.addHandle r path).2.handle? ⟨t.nextHandle⟩ = some ⟨⟨t.nextHandle⟩, r.id, r.node, path⟩ := by
  have hnone : t.handles.find? (·.handle = ⟨t.nextHandle⟩) = none := by
    apply List.find?_eq_none.mpr
    intro o ho he
    have hlt := h o ho
    rw [of_decide_eq_true he] at hlt
    exact Nat.lt_irrefl _ hlt
  show (t.handles ++ [_]).find? _ = _
  rw [List.find?_append, hnone]
  simp

/-- Closing the handle just given ends the session, and leaves the table as it was before. -/
theorem close_addHandle (h : t.Numbered) (r : Registration) (path : String) :
    (t.addHandle r path).2.close ⟨t.nextHandle⟩ =
      ({ t with nextHandle := t.nextHandle + 1 } : Tree σ ε).closeNode r.node := by
  have hothers : (t.addHandle r path).2.handles.filter (·.handle ≠ ⟨t.nextHandle⟩) =
      t.handles := by
    rw [addHandle_eq, List.filter_append, List.filter_eq_self.mpr, List.filter_cons_of_neg]
    · simp
    · simp
    · intro o ho
      have hlt := h o ho
      have hne : o.handle ≠ ⟨t.nextHandle⟩ := by
        intro he
        rw [he] at hlt
        exact Nat.lt_irrefl _ hlt
      simpa using hne
  unfold close takeHandle
  rw [handle?_addHandle h]
  dsimp only
  rw [hothers]
  rfl

/-- What the session of the handle just given reads. -/
theorem drain_addHandle (h : t.Numbered) (r : Registration) (path : String) :
    (t.addHandle r path).2.drain ⟨t.nextHandle⟩ 0 = (t.nodeReader r.node).drain 0 := by
  unfold drain reader
  rw [handle?_addHandle h]
  rfl

/-- A write at the start of the node's session, within the limit of the tree. -/
def writeStart (t : Tree σ ε) (ref : NodeRef) (data : Bytes) : Except Fault Nat × Tree σ ε :=
  if t.settings.maxWriteBytes < writeEnd 0 data.size then
    (.error (.tooLarge t.settings.maxWriteBytes), t)
  else t.writeNode ref 0 data

@[simp] theorem books_writeStart (t : Tree σ ε) (ref : NodeRef) (data : Bytes) :
    (t.writeStart ref data).2.books = t.books := by
  unfold writeStart
  split
  · rfl
  · exact books_writeNode t ref 0 data

/-- A write to a node changes no other. -/
theorem node?_writeNode_of_ne (t : Tree σ ε) {ref other : NodeRef} (h : other ≠ ref)
    (offset : Nat) (data : Bytes) :
    (t.writeNode ref offset data).2.node? other = t.node? other := by
  have hput : ∀ m : Node σ ε, (t.setNode ref m).node? other = t.node? other :=
    fun m => node?_setNode_of_ne m h
  unfold writeNode
  split
  · rfl
  · rfl
  · split
    · rfl
    · exact hput _
  · split
    · rfl
    · exact hput _
  · split
    · rfl
    · exact hput _

theorem node?_writeStart_of_ne (t : Tree σ ε) {ref other : NodeRef} (h : other ≠ ref)
    (data : Bytes) : (t.writeStart ref data).2.node? other = t.node? other := by
  unfold writeStart
  split
  · rfl
  · exact node?_writeNode_of_ne t h 0 data

/-- Writing to a node and giving a handle can be done in either order. -/
theorem writeNode_addHandle (t : Tree σ ε) (r : Registration) (path : String) (ref : NodeRef)
    (offset : Nat) (data : Bytes) :
    (t.addHandle r path).2.writeNode ref offset data = ((t.writeNode ref offset data).1,
      ((t.writeNode ref offset data).2.addHandle r path).2) := by
  have hnode : (t.addHandle r path).2.node? ref = t.node? ref := rfl
  unfold writeNode
  rw [hnode]
  rcases t.node? ref with _ | ⟨n⟩ | ⟨n⟩ | ⟨n⟩ | ⟨e, removals⟩
  · rfl
  · rfl
  · dsimp only
    split <;> rfl
  · dsimp only
    split <;> rfl
  · dsimp only
    split <;> rfl

theorem write_addHandle (h : t.Numbered) (r : Registration) (path : String) (data : Bytes) :
    (t.addHandle r path).2.write ⟨t.nextHandle⟩ 0 data = ((t.writeStart r.node data).1,
      ((t.writeStart r.node data).2.addHandle r path).2) := by
  have hsettings : (t.addHandle r path).2.settings = t.settings := rfl
  unfold write writeStart
  rw [handle?_addHandle h, hsettings]
  dsimp only
  split
  · rfl
  · exact writeNode_addHandle t r path r.node 0 data

/-! ## Whole operations -/

section

variable {path q : String} {r : Registration} {n : Node σ ε} {access : Access} {source : Source σ}
  {content : Bytes}

/-- An open that the owner grants, whose content comes without the owner's registration going away,
begins a session and gives it a handle. -/
theorem openFile_of_fetch (hq : Path.normalize path = .ok q) (ho : t.owner? q = some r)
    (hn : t.node? r.node = some n) (hp : n.permit t.publisher q access = .ok source)
    (hf : (t.noteOverlap q).fetch source = (.ok content, u))
    (hr : u.isRegistered r.id = true) :
    t.openFile path access = (.ok ⟨(u.startSession r.node q access content).nextHandle⟩,
      ((u.startSession r.node q access content).addHandle r q).2) := by
  have hopen : (t.noteOverlap q).openNode r.node q access =
      (.ok (), u.startSession r.node q access content) := by
    unfold openNode
    rw [node?_noteOverlap, hn]
    dsimp only
    rw [publisher_noteOverlap, hp]
    dsimp only
    rw [hf]
  have hstarted : (u.startSession r.node q access content).isRegistered r.id = true := by
    have hbooks := congrArg Books.registrations (books_startSession u r.node q access content)
    exact (isRegistered_congr hbooks r.id).trans hr
  unfold openFile
  rw [hq]
  dsimp only
  rw [ho]
  dsimp only
  rw [hopen]
  dsimp only
  exact if_pos hstarted

/-- A file with an owner is registered. -/
theorem isRegistered_of_owner? (ho : t.owner? q = some r) : t.isRegistered r.id = true :=
  List.any_eq_true.mpr ⟨r, (claims_of_owner? ho).1, by simp⟩

/-- A whole write to an idle node: its session begins, takes the data or refuses them, and ends. -/
theorem writeAll_of_permit (h : t.Numbered) (hq : Path.normalize path = .ok q)
    (ho : t.owner? q = some r) (hn : t.node? r.node = some n)
    (hp : n.permit t.publisher q .writing = .ok (.held content)) {data : Bytes}
    {written : Except Fault Nat} {closed : Except Fault Unit} {w v : Tree σ ε}
    (hw : ((t.noteOverlap q).startSession r.node q .writing content).writeStart r.node data =
      (written, w))
    (hc : ({ w with nextHandle := w.nextHandle + 1 } : Tree σ ε).closeNode r.node = (closed, v)) :
    t.writeAll path data = (firstFault written closed, v) := by
  have hstarted : ((t.noteOverlap q).startSession r.node q .writing content).Numbered :=
    (Proceeds.of_books (by simp)).numbered h
  have hbooks := books_writeStart ((t.noteOverlap q).startSession r.node q .writing content)
    r.node data
  rw [hw] at hbooks
  have hwritten : w.Numbered := (Proceeds.of_books hbooks).numbered hstarted
  have hnext : ((t.noteOverlap q).startSession r.node q .writing content).nextHandle =
      w.nextHandle := congrArg Books.nextHandle hbooks.symm
  have hr : (t.noteOverlap q).isRegistered r.id = true := by
    have hbooks := congrArg Books.registrations (books_noteOverlap t q)
    exact (isRegistered_congr hbooks r.id).trans (isRegistered_of_owner? ho)
  unfold writeAll
  rw [openFile_of_fetch hq ho hn hp rfl hr]
  dsimp only
  rw [write_addHandle hstarted, hw]
  dsimp only
  rw [hnext, close_addHandle hwritten, hc]

/-- A whole read of an idle node: its session begins, is read to the end, and ends. -/
theorem readAll_of_permit (h : u.Numbered) (hq : Path.normalize path = .ok q)
    (ho : t.owner? q = some r) (hn : t.node? r.node = some n)
    (hp : n.permit t.publisher q .reading = .ok source)
    (hf : (t.noteOverlap q).fetch source = (.ok content, u)) (hr : u.isRegistered r.id = true)
    {closed : Except Fault Unit} {v : Tree σ ε}
    (hc : ({ u.startSession r.node q .reading content with
      nextHandle := (u.startSession r.node q .reading content).nextHandle + 1 } :
        Tree σ ε).closeNode r.node = (closed, v)) :
    t.readAll path = (firstFault
      (((u.startSession r.node q .reading content).nodeReader r.node).drain 0) closed, v) := by
  have hbooks := books_startSession u r.node q .reading content
  have hstarted : (u.startSession r.node q .reading content).Numbered :=
    (Proceeds.of_books hbooks).numbered h
  unfold readAll
  rw [openFile_of_fetch hq ho hn hp hf hr]
  dsimp only
  rw [drain_addHandle hstarted, close_addHandle hstarted, hc]

end

/-! ## What is left -/

/-- A session has come and gone on the node that `ref` leads to, which is `m` since. One more handle
has been given. The publisher's state and the log aside, nothing else has changed. -/
structure Visited (t t' : Tree σ ε) (ref : NodeRef) (m : Node σ ε) : Prop where
  books : t'.books = { t.books with nextHandle := t.nextHandle + 1 }
  node : t'.node? ref = some m
  others : ∀ other, other ≠ ref → t'.node? other = t.node? other

/-- Closing a node is the end of a visit. -/
theorem Visited.of_close {ref : NodeRef} {m : Node σ ε} (hb : u.books = t.books)
    (hm : u.node? ref = some m) (hothers : ∀ other, other ≠ ref → u.node? other = t.node? other) :
    Visited t (({ u with nextHandle := u.nextHandle + 1 } : Tree σ ε).closeNode ref).2 ref
      m.closed where
  books := by
    simp only [Tree.books, Books.mk.injEq] at hb
    obtain ⟨hs, hr, hh, hi, hn⟩ := hb
    rw [books_closeNode]
    simp only [Tree.books, hs, hr, hh, hi, hn]
  node := by
    apply node?_closeNode_self
    exact hm
  others other hne := by
    rw [node?_closeNode_of_ne _ hne]
    exact hothers other hne

/-! ## One node -/

variable {ref : NodeRef} {data : Bytes}

/-- The data are within the limit of the tree and the one of every buffer. -/
def Fits (t : Tree σ ε) (data : Bytes) : Prop :=
  data.size ≤ t.settings.maxWriteBytes ∧ data.size ≤ maxPendingBytes

theorem writeStart_of_fits (h : t.Fits data) : t.writeStart ref data = t.writeNode ref 0 data := by
  have hend : writeEnd 0 data.size ≤ data.size := by
    unfold writeEnd
    omega
  exact if_neg (Nat.not_lt.mpr (Nat.le_trans hend h.1))

/-- Data that do not fit are refused, by the tree or by the session. -/
theorem writeStart_of_not_fits (h : ¬ t.Fits data)
    (hnode : maxPendingBytes < data.size →
      t.writeNode ref 0 data = (.error (.tooLarge maxPendingBytes), t)) :
    ∃ limit, t.writeStart ref data = (.error (.tooLarge limit), t) := by
  unfold writeStart
  split
  · exact ⟨_, rfl⟩
  · next hend =>
    refine ⟨_, hnode (Nat.lt_of_not_le fun hle => h ⟨?_, hle⟩)⟩
    have hbound : maxPendingBytes ≤ 18446744073709551615 := by decide
    unfold writeEnd at hend
    omega

section KeyStore

variable {n : KeyStore σ} {session : KeySession}

theorem closeNode_keyStore (hn : t.node? ref = some (.keyStore n))
    (hs : n.session = some session) :
    (t.closeNode ref).1 = .ok () ∧ (t.closeNode ref).2.publisher = t.publisher := by
  unfold closeNode
  rw [hn]
  simp [KeyStore.close, hs]

theorem writeNode_keyStore (hn : t.node? ref = some (.keyStore n))
    (hs : n.session = some session) (haccess : session.inner.access.write = true)
    (hempty : session.inner.pending = #[]) (hsize : data.size ≤ maxPendingBytes) :
    t.writeNode ref 0 data = (.ok data.size, t.setNode ref (.keyStore { n with
      session := some { session with
        inner := { session.inner with pending := data, dirty := true } } })) := by
  unfold writeNode
  rw [hn]
  simp only [KeyStore.write, hs, Session.write_of_le haccess hempty hsize]
  rfl

theorem writeNode_keyStore_of_lt (hn : t.node? ref = some (.keyStore n))
    (hs : n.session = some session) (haccess : session.inner.access.write = true)
    (hsize : maxPendingBytes < data.size) :
    t.writeNode ref 0 data = (.error (.tooLarge maxPendingBytes), t) := by
  unfold writeNode
  rw [hn]
  simp only [KeyStore.write, hs, Session.write_of_lt haccess hsize]
  rfl

end KeyStore

section ReadWrite

variable {n : ReadWrite σ} {session : LiveSession}

/-- A session that wrote nothing ends without the sink. -/
theorem closeNode_readWrite_of_clean (hn : t.node? ref = some (.readWrite n))
    (hs : n.session = some session) (hclean : session.inner.commit? = none) :
    (t.closeNode ref).1 = .ok () ∧ (t.closeNode ref).2.publisher = t.publisher := by
  unfold closeNode
  rw [hn]
  simp [ReadWrite.close, hs, hclean]

/-- What a session wrote is handed to the sink, and what the sink answers is the answer. -/
theorem closeNode_readWrite_of_dirty {content : Bytes} (hn : t.node? ref = some (.readWrite n))
    (hs : n.session = some session) (hdirty : session.inner.commit? = some content) :
    (t.closeNode ref).1 = (n.sink content t.publisher).1.mapError .ofFailure ∧
      (t.closeNode ref).2.publisher = (n.sink content t.publisher).2 := by
  unfold closeNode
  rw [hn]
  simp only [ReadWrite.close, hs, hdirty, publisher_setNode]
  rcases n.sink content t.publisher with ⟨failure | ⟨⟩, s⟩
  · exact ⟨rfl, rfl⟩
  · exact ⟨rfl, rfl⟩

theorem writeNode_readWrite (hn : t.node? ref = some (.readWrite n))
    (hs : n.session = some session) (haccess : session.inner.access.write = true)
    (hempty : session.inner.pending = #[]) (hsize : data.size ≤ maxPendingBytes) :
    t.writeNode ref 0 data = (.ok data.size, t.setNode ref (.readWrite { n with
      session := some { session with
        inner := { session.inner with pending := data, dirty := true } } })) := by
  unfold writeNode
  rw [hn]
  simp only [ReadWrite.write, hs, Session.write_of_le haccess hempty hsize]
  rfl

theorem writeNode_readWrite_of_lt (hn : t.node? ref = some (.readWrite n))
    (hs : n.session = some session) (haccess : session.inner.access.write = true)
    (hsize : maxPendingBytes < data.size) :
    t.writeNode ref 0 data = (.error (.tooLarge maxPendingBytes), t) := by
  unfold writeNode
  rw [hn]
  simp only [ReadWrite.write, hs, Session.write_of_lt haccess hsize]
  rfl

end ReadWrite

/-! ## Whole writes -/

section

variable {path q : String} {r : Registration}

/-- A whole write to a node is a visit, on which the session ends as the write has left it. -/
theorem visited_writeAll (h : t.Numbered) (hq : Path.normalize path = .ok q)
    (ho : t.owner? q = some r) {n m : Node σ ε} (hn : t.node? r.node = some n) {content : Bytes}
    (hp : n.permit t.publisher q .writing = .ok (.held content)) {written : Except Fault Nat}
    {w : Tree σ ε}
    (hw : ((t.noteOverlap q).startSession r.node q .writing content).writeStart r.node data =
      (written, w))
    (hm : w.node? r.node = some m) :
    ∃ v : Tree σ ε, v.node? r.node = some m ∧ v.publisher = w.publisher ∧
      t.writeAll path data = (firstFault written (v.closeNode r.node).1, (v.closeNode r.node).2) ∧
      Visited t (v.closeNode r.node).2 r.node m.closed := by
  refine ⟨{ w with nextHandle := w.nextHandle + 1 }, hm, rfl,
    writeAll_of_permit h hq ho hn hp hw rfl, ?_⟩
  have hbooks := books_writeStart ((t.noteOverlap q).startSession r.node q .writing content)
    r.node data
  rw [hw] at hbooks
  apply Visited.of_close
  · simpa using hbooks
  · exact hm
  · intro other hne
    have hothers := node?_writeStart_of_ne
      ((t.noteOverlap q).startSession r.node q .writing content) hne data
    rw [hw] at hothers
    rw [hothers, node?_startSession_of_ne _ hne, node?_noteOverlap]

theorem fits_startSession {access : Access} {content : Bytes} :
    ((t.noteOverlap q).startSession r.node q access content).Fits data ↔ t.Fits data := by
  have hbooks : ((t.noteOverlap q).startSession r.node q access content).books = t.books := by
    simp
  have hsettings : ((t.noteOverlap q).startSession r.node q access content).settings =
      t.settings := congrArg Books.settings hbooks
  unfold Fits
  rw [hsettings]

section KeyStore

variable {n : KeyStore σ} {key : String}

/-- What a key store is once a session has begun on it. -/
theorem node?_startSession_keyStore (hn : t.node? ref = some (.keyStore n))
    (hkey : n.keyFor? t.publisher q = some key) (access : Access) (content : Bytes) :
    (t.startSession ref q access content).node? ref = some (.keyStore { n with
      session := some ⟨key,
        ⟨Path.join (n.directory.resolve t.publisher) key, access, content, #[], false⟩⟩ }) := by
  rw [node?_startSession_self hn]
  simp only [Node.begin, KeyStore.begin, hkey]

/-- A whole write to an idle key store sets the key. -/
theorem writeAll_keyStore (h : t.Numbered) (hq : Path.normalize path = .ok q)
    (ho : t.owner? q = some r) (hn : t.node? r.node = some (.keyStore n))
    (hidle : n.session = none) (hkey : n.keyFor? t.publisher q = some key) (hfits : t.Fits data) :
    ∃ t', t.writeAll path data = (.ok data.size, t') ∧ t'.publisher = t.publisher ∧
      Visited t t' r.node (.keyStore { n with entries := n.entries.insert key data }) := by
  have hp : (Node.keyStore n : Node σ ε).permit t.publisher q .writing = .ok (.held #[]) :=
    KeyStore.permit_writing hkey hidle
  have hstarted := node?_startSession_keyStore ((node?_noteOverlap t q r.node).trans hn)
    ((publisher_noteOverlap t q).symm ▸ hkey) .writing #[]
  have hw := writeStart_of_fits (fits_startSession.mpr hfits)
    |>.trans (writeNode_keyStore hstarted rfl rfl rfl hfits.2)
  obtain ⟨v, hv, hpublisher, hall, hvisited⟩ :=
    visited_writeAll h hq ho hn hp hw (node?_setNode_self _ hstarted)
  obtain ⟨hclosed, hsame⟩ := closeNode_keyStore hv rfl
  rw [hclosed] at hall
  refine ⟨_, hall, hsame.trans (hpublisher.trans (by simp)), ?_⟩
  simpa [Node.closed, KeyStore.close, KeyStore.settled, Session.commit?, Access.writing, hidle]
    using hvisited

/-- A write that is refused makes sure that the key is there all the same. -/
theorem writeAll_keyStore_of_not_fits (h : t.Numbered) (hq : Path.normalize path = .ok q)
    (ho : t.owner? q = some r) (hn : t.node? r.node = some (.keyStore n))
    (hidle : n.session = none) (hkey : n.keyFor? t.publisher q = some key)
    (hfits : ¬ t.Fits data) :
    ∃ limit t', t.writeAll path data = (.error (.tooLarge limit), t') ∧
      t'.publisher = t.publisher ∧
      Visited t t' r.node (.keyStore { n with entries := n.entries.alter key (·.getD #[]) }) := by
  have hp : (Node.keyStore n : Node σ ε).permit t.publisher q .writing = .ok (.held #[]) :=
    KeyStore.permit_writing hkey hidle
  have hstarted := node?_startSession_keyStore ((node?_noteOverlap t q r.node).trans hn)
    ((publisher_noteOverlap t q).symm ▸ hkey) .writing #[]
  obtain ⟨limit, hw⟩ := writeStart_of_not_fits (mt fits_startSession.mp hfits)
    (writeNode_keyStore_of_lt hstarted rfl rfl)
  obtain ⟨v, hv, hpublisher, hall, hvisited⟩ := visited_writeAll h hq ho hn hp hw hstarted
  obtain ⟨hclosed, hsame⟩ := closeNode_keyStore hv rfl
  refine ⟨limit, _, hall, hsame.trans (hpublisher.trans (by simp)), ?_⟩
  simpa [Node.closed, KeyStore.close, KeyStore.settled, Session.commit?, Access.writing, hidle]
    using hvisited

end KeyStore

section ReadWrite

variable {n : ReadWrite σ}

/-- An owner claims the file. -/
theorem matchesFile_of_owner? (ho : t.owner? q = some r) {n : Node σ ε}
    (hn : t.node? r.node = some n) : n.matchesFile t.publisher q = true := by
  obtain ⟨m, hm, hmatches⟩ := claims_iff.mp (claims_of_owner? ho).2
  rw [hn] at hm
  cases hm
  exact hmatches

/-- What a read-write node is once a session has begun on it. -/
theorem node?_startSession_readWrite (hn : t.node? ref = some (.readWrite n)) (access : Access)
    (content : Bytes) : (t.startSession ref q access content).node? ref =
      some (.readWrite (n.begin t.publisher access content)) :=
  node?_startSession_self hn q access content

/-- A whole write to an idle read-write node hands the data to the sink. -/
theorem writeAll_readWrite (h : t.Numbered) (hq : Path.normalize path = .ok q)
    (ho : t.owner? q = some r) (hn : t.node? r.node = some (.readWrite n))
    (hidle : n.session = none) (hfits : t.Fits data) :
    ∃ t', t.writeAll path data =
        (firstFault (.ok data.size) ((n.sink data t.publisher).1.mapError .ofFailure), t') ∧
      t'.publisher = (n.sink data t.publisher).2 ∧
      Visited t t' r.node (.readWrite (n.visited n.published.last)) := by
  have hp : (Node.readWrite n : Node σ ε).permit t.publisher q .writing = .ok (.held #[]) :=
    ReadWrite.permit_of_idle (matchesFile_of_owner? ho hn) hidle (.inr rfl)
  have hstarted := node?_startSession_readWrite (q := q)
    ((node?_noteOverlap t q r.node).trans hn) .writing #[]
  have hw := writeStart_of_fits (fits_startSession.mpr hfits)
    |>.trans (writeNode_readWrite hstarted rfl rfl rfl hfits.2)
  obtain ⟨v, hv, hpublisher, hall, hvisited⟩ :=
    visited_writeAll h hq ho hn hp hw (node?_setNode_self _ hstarted)
  obtain ⟨hclosed, hsame⟩ := closeNode_readWrite_of_dirty hv rfl rfl
  rw [publisher_setNode, publisher_startSession, publisher_noteOverlap] at hpublisher
  rw [hpublisher] at hclosed hsame
  rw [hclosed] at hall
  refine ⟨_, hall, hsame, ?_⟩
  simpa [Node.closed, ReadWrite.close, ReadWrite.begin, ReadWrite.visited, Access.writing, hidle]
    using hvisited

/-- A write that is refused hands nothing to the sink. -/
theorem writeAll_readWrite_of_not_fits (h : t.Numbered) (hq : Path.normalize path = .ok q)
    (ho : t.owner? q = some r) (hn : t.node? r.node = some (.readWrite n))
    (hidle : n.session = none) (hfits : ¬ t.Fits data) :
    ∃ limit t', t.writeAll path data = (.error (.tooLarge limit), t') ∧
      t'.publisher = t.publisher ∧
      Visited t t' r.node (.readWrite (n.visited n.published.last)) := by
  have hp : (Node.readWrite n : Node σ ε).permit t.publisher q .writing = .ok (.held #[]) :=
    ReadWrite.permit_of_idle (matchesFile_of_owner? ho hn) hidle (.inr rfl)
  have hstarted := node?_startSession_readWrite (q := q)
    ((node?_noteOverlap t q r.node).trans hn) .writing #[]
  obtain ⟨limit, hw⟩ := writeStart_of_not_fits (mt fits_startSession.mp hfits)
    (writeNode_readWrite_of_lt hstarted rfl rfl)
  obtain ⟨v, hv, hpublisher, hall, hvisited⟩ := visited_writeAll h hq ho hn hp hw hstarted
  obtain ⟨hclosed, hsame⟩ := closeNode_readWrite_of_clean hv rfl rfl
  refine ⟨limit, _, hall, hsame.trans (hpublisher.trans (by simp)), ?_⟩
  simpa [Node.closed, ReadWrite.close, ReadWrite.begin, ReadWrite.visited, Access.writing, hidle]
    using hvisited

end ReadWrite

/-! ## Whole reads -/

/-- A whole read of a node is a visit, and gives what its session shows. -/
theorem visited_readAll (h : t.Numbered) (hq : Path.normalize path = .ok q)
    (ho : t.owner? q = some r) {n m : Node σ ε} (hn : t.node? r.node = some n)
    {source : Source σ} {content : Bytes} {session : Session}
    (hp : n.permit t.publisher q .reading = .ok source)
    (hf : (t.noteOverlap q).fetch source = (.ok content, u)) (hnodes : u.nodes = t.nodes)
    (hbooks : u.books = t.books)
    (hm : (u.startSession r.node q .reading content).node? r.node = some m)
    (hs : m.session? = some session) (hread : session.access.read = true) :
    ∃ v : Tree σ ε, v.node? r.node = some m ∧ v.publisher = u.publisher ∧
      t.readAll path = (firstFault (.ok session.snapshot) (v.closeNode r.node).1,
        (v.closeNode r.node).2) ∧
      Visited t (v.closeNode r.node).2 r.node m.closed := by
  have hnumbered : u.Numbered := (Proceeds.of_books hbooks).numbered h
  have hr : u.isRegistered r.id = true := by
    have hregistrations := congrArg Books.registrations hbooks
    exact (isRegistered_congr hregistrations r.id).trans (isRegistered_of_owner? ho)
  have hdrain : ((u.startSession r.node q .reading content).nodeReader r.node).drain 0 =
      .ok session.snapshot := by
    unfold nodeReader
    rw [hm]
    dsimp only
    rw [(Node.shows_snapshot hs hread).drain 0, Bytes.slice_zero_of_size_le (Nat.le_refl _)]
  refine ⟨{ u.startSession r.node q .reading content with
    nextHandle := (u.startSession r.node q .reading content).nextHandle + 1 }, hm,
    publisher_startSession u r.node q .reading content, ?_, ?_⟩
  · rw [← hdrain]
    exact readAll_of_permit hnumbered hq ho hn hp hf hr rfl
  · apply Visited.of_close
    · rw [books_startSession, hbooks]
    · exact hm
    · intro other hne
      rw [node?_startSession_of_ne _ hne, node?, hnodes, node?]

/-- A whole read of an idle key store gives the value of the key. -/
theorem readAll_keyStore {n : KeyStore σ} {key : String} {value : Bytes} (h : t.Numbered)
    (hq : Path.normalize path = .ok q) (ho : t.owner? q = some r)
    (hn : t.node? r.node = some (.keyStore n)) (hidle : n.session = none)
    (hkey : n.keyFor? t.publisher q = some key) (hvalue : n.get? key = some value) :
    ∃ t', t.readAll path = (.ok value, t') ∧ t'.publisher = t.publisher ∧
      Visited t t' r.node (.keyStore n) := by
  have hp : (Node.keyStore n : Node σ ε).permit t.publisher q .reading = .ok (.held value) :=
    KeyStore.permit_reading hkey hidle hvalue
  have hstarted := node?_startSession_keyStore ((node?_noteOverlap t q r.node).trans hn)
    ((publisher_noteOverlap t q).symm ▸ hkey) .reading value
  obtain ⟨v, hv, hpublisher, hall, hvisited⟩ := visited_readAll h hq ho hn hp rfl
    (nodes_noteOverlap t q) (books_noteOverlap t q) hstarted rfl rfl
  obtain ⟨hclosed, hsame⟩ := closeNode_keyStore hv rfl
  rw [hclosed] at hall
  refine ⟨_, hall, hsame.trans (hpublisher.trans (publisher_noteOverlap t q)), ?_⟩
  obtain ⟨directory, entries, session⟩ := n
  cases hidle
  simpa [Node.closed, KeyStore.close, KeyStore.settled, Access.reading] using hvisited

/-- A whole read of an idle read-write node gives what its provider supplies. -/
theorem readAll_readWrite {n : ReadWrite σ} {content : Bytes} {s : σ} (h : t.Numbered)
    (hq : Path.normalize path = .ok q) (ho : t.owner? q = some r)
    (hn : t.node? r.node = some (.readWrite n)) (hidle : n.session = none)
    (hf : (t.noteOverlap q).provide n.provider =
      (.ok content, { t.noteOverlap q with publisher := s })) :
    ∃ t', t.readAll path = (.ok content, t') ∧ t'.publisher = s ∧
      Visited t t' r.node (.readWrite (n.visited (some content))) := by
  have hp : (Node.readWrite n : Node σ ε).permit t.publisher q .reading =
      .ok (.provided n.provider) :=
    ReadWrite.permit_of_idle (matchesFile_of_owner? ho hn) hidle (.inl rfl)
  have hstarted := node?_startSession_readWrite (q := q)
    (t := { t.noteOverlap q with publisher := s })
    ((node?_noteOverlap t q r.node).trans hn) .reading content
  obtain ⟨v, hv, hpublisher, hall, hvisited⟩ := visited_readAll h hq ho hn hp hf
    (nodes_noteOverlap t q) (books_noteOverlap t q) hstarted rfl rfl
  obtain ⟨hclosed, hsame⟩ := closeNode_readWrite_of_clean hv rfl rfl
  rw [hclosed] at hall
  refine ⟨_, hall, hsame.trans hpublisher, ?_⟩
  simpa [Node.closed, ReadWrite.close, ReadWrite.begin, ReadWrite.visited, Access.reading, hidle]
    using hvisited

/-! ## Attributes -/

/-- The attributes of a key tell the size of its value. -/
theorem stat_keyStore {n : KeyStore σ} {key : String} {value : Bytes}
    (hq : Path.normalize path = .ok q) (ho : t.owner? q = some r)
    (hn : t.node? r.node = some (.keyStore n)) (hkey : n.keyFor? t.publisher q = some key)
    (hvalue : n.get? key = some value) :
    t.stat path = (.ok (.file value.size true), t.noteOverlap q) := by
  have hnoted := (node?_noteOverlap t q r.node).trans hn
  have hcontent : n.content t.publisher q = .ok value := by
    simp [KeyStore.content, KeyStore.requireKey_eq_ok.mpr hkey, hvalue]
  have hsize : (t.noteOverlap q).sizeOn r.node q = (.ok value.size, t.noteOverlap q) := by
    unfold sizeOn
    rw [hnoted]
    dsimp only
    rw [publisher_noteOverlap, hcontent]
    rfl
  have hwritable : (t.noteOverlap q).isWritableOn r.node q = true := by
    unfold isWritableOn
    rw [hnoted, publisher_noteOverlap]
    exact matchesFile_of_owner? ho hn
  simp only [stat, hq, ho, hsize, hwritable]

/-- The attributes of a read-write node tell the size of what its provider supplies. -/
theorem stat_readWrite {n : ReadWrite σ} {content : Bytes} {s : σ}
    (hq : Path.normalize path = .ok q) (ho : t.owner? q = some r)
    (hn : t.node? r.node = some (.readWrite n))
    (hf : (t.noteOverlap q).provide n.provider =
      (.ok content, { t.noteOverlap q with publisher := s })) :
    t.stat path = (.ok (.file content.size (n.location.matchesFile s q)),
      { t.noteOverlap q with publisher := s }) := by
  have hnoted := (node?_noteOverlap t q r.node).trans hn
  have hcheck : n.location.check (t.noteOverlap q).publisher q = .ok () := by
    rw [publisher_noteOverlap]
    exact Location.check_eq_ok.mpr (matchesFile_of_owner? ho hn)
  have hsize : (t.noteOverlap q).sizeOn r.node q =
      (.ok content.size, { t.noteOverlap q with publisher := s }) := by
    unfold sizeOn
    rw [hnoted]
    dsimp only
    rw [hcheck]
    dsimp only
    rw [hf]
    rfl
  have hwritable : ({ t.noteOverlap q with publisher := s } : Tree σ ε).isWritableOn r.node q =
      n.location.matchesFile s q := by
    unfold isWritableOn
    rw [show ({ t.noteOverlap q with publisher := s } : Tree σ ε).node? r.node = _ from hnoted]
    rfl
  simp only [stat, hq, ho, hsize, hwritable]

end

end Tree

end LiveTree
