import LiveTree.Proofs.Failures
import LiveTree.Proofs.Outcomes
import LiveTree.Proofs.Ranges

/-!
# What a session has put together

Which octets stand in the buffer of a session depends on all that was done to it: writes lie over
each other and leave gaps, and what is cut off may be grown over again. Told from the end it is
short. At each place stands what the latest write has put there, unless it was cut off since
(`Edit.octetAfter`), and how long the buffer is takes only the lengths (`Edit.lengthAfter`). Every
edit that a session takes keeps to this account (`Drafting.step`), and those that are refused change
nothing, so it holds after any number of them (`pending_follows_edits`).

What can be said of buffers in general, that writes apart from each other commute and that a write
can be made in parts, is seen octet by octet (`Bytes.eq_of_octet`).
-/

namespace LiveTree

/-! ## Octets -/

namespace Bytes

/-- The octet at `i`; zero where there is none. -/
def octet (b : Bytes) (i : Nat) : UInt8 := b[i]?.getD 0

theorem octet_of_size_le {b : Bytes} {i : Nat} (h : b.size ≤ i) : b.octet i = 0 := by
  rw [octet, Array.getElem?_eq_none h]
  rfl

/-- Contents of one length with the same octets are the same. -/
theorem eq_of_octet {a b : Bytes} (hsize : a.size = b.size) (h : ∀ i, a.octet i = b.octet i) :
    a = b := by
  apply Array.ext hsize
  intro i ha hb
  have hi := h i
  rwa [octet, octet, Array.getElem?_eq_getElem ha, Array.getElem?_eq_getElem hb] at hi

/-- What is written lies over what was there. -/
theorem octet_overlay (buffer : Bytes) (offset : Nat) (data : Bytes) (i : Nat) :
    (buffer.overlay offset data).octet i =
      if offset ≤ i ∧ i < offset + data.size then data.octet (i - offset)
      else buffer.octet i := by
  have hfront : (buffer.take offset ++
      Array.replicate (offset - buffer.size) (0 : UInt8)).size = offset := by
    simp only [Array.size_append, Array.take_eq_extract, Array.size_extract, Array.size_replicate]
    omega
  have htaken : (buffer.take offset).size = min offset buffer.size := by
    simp only [Array.take_eq_extract, Array.size_extract]
    omega
  unfold octet overlay
  rw [Array.append_assoc, Array.getElem?_append, hfront]
  split
  · next hbefore =>
    rw [if_neg (by omega), Array.getElem?_append, htaken]
    split
    · next hold =>
      simp only [Array.take_eq_extract, Array.getElem?_extract]
      rw [if_pos (by omega), Nat.zero_add]
    · next hgap =>
      rw [Array.getElem?_replicate, if_pos (by omega), Array.getElem?_eq_none (by omega)]
      rfl
  · next hbehind =>
    rw [Array.getElem?_append]
    split
    · next hover => rw [if_pos (by omega)]
    · next hpast =>
      rw [if_neg (by omega)]
      simp only [Array.drop_eq_extract, Array.getElem?_extract]
      split
      · congr 2
        omega
      · rw [Array.getElem?_eq_none (by omega)]

theorem octet_take (b : Bytes) (size i : Nat) :
    octet (b.take size) i = if size ≤ i then 0 else b.octet i := by
  unfold octet
  simp only [Array.take_eq_extract, Array.getElem?_extract]
  split
  · next hin =>
    rw [if_neg (by omega), Nat.zero_add]
  · next hout =>
    split
    · rfl
    · rw [Array.getElem?_eq_none (by omega)]

/-- Writes that have no octet in common can be made in either order. -/
theorem overlay_comm (buffer : Bytes) {offset offset' : Nat} {data data' : Bytes}
    (h : ∀ i, offset ≤ i ∧ i < offset + data.size → ¬ (offset' ≤ i ∧ i < offset' + data'.size)) :
    (buffer.overlay offset data).overlay offset' data' =
      (buffer.overlay offset' data').overlay offset data := by
  apply eq_of_octet
  · simp only [size_overlay]
    omega
  · intro i
    simp only [octet_overlay]
    by_cases hi : offset ≤ i ∧ i < offset + data.size
    · rw [if_neg (h i hi), if_pos hi, if_pos hi]
    · rw [if_neg hi, if_neg hi]

/-- A write can be made in two parts. -/
theorem overlay_append (buffer : Bytes) (offset : Nat) (data data' : Bytes) :
    (buffer.overlay offset data).overlay (offset + data.size) data' =
      buffer.overlay offset (data ++ data') := by
  apply eq_of_octet
  · simp only [size_overlay, Array.size_append]
    omega
  · intro i
    simp only [octet_overlay, Array.size_append]
    unfold octet
    rw [Array.getElem?_append]
    grind

end Bytes

/-! ## Histories -/

/-- Something done to the buffer of a session. -/
inductive Edit where
  | write (offset : Nat) (data : Bytes)
  | truncate (path : String) (size : Nat)
deriving DecidableEq

namespace Edit

/-- It is done through the handle of the session, or through a path. -/
def action {σ : Type} (h : Handle) : Edit → Action σ
  | write offset data => .write h offset data
  | truncate path size => .truncate path size

/-- Whether octet `i` is written. -/
def Covers (i : Nat) : Edit → Prop
  | write offset data => offset ≤ i ∧ i < offset + data.size
  | truncate _ _ => False

/-- Whether it is accepted where so many octets are there. -/
def Fits (limit length : Nat) : Edit → Prop
  | write offset data => offset + data.size ≤ limit
  | truncate _ size => size ≤ length

instance (i : Nat) : (e : Edit) → Decidable (e.Covers i)
  | write _ _ => inferInstanceAs (Decidable (_ ∧ _))
  | truncate _ _ => inferInstanceAs (Decidable False)

instance (limit length : Nat) : (e : Edit) → Decidable (e.Fits limit length)
  | write _ _ => inferInstanceAs (Decidable (_ ≤ _))
  | truncate _ _ => inferInstanceAs (Decidable (_ ≤ _))

/-- How many octets there are after edits that were accepted, the latest first. -/
def lengthAfter : List Edit → Nat
  | [] => 0
  | write offset data :: earlier => max (lengthAfter earlier) (offset + data.size)
  | truncate _ size :: _ => size

/-- Which octet stands at `i` after edits that were accepted, the latest first: the one that the
latest write has put there, and zero if it was cut off since or none was put there. -/
def octetAfter (i : Nat) : List Edit → UInt8
  | [] => 0
  | write offset data :: earlier =>
    if offset ≤ i ∧ i < offset + data.size then data.octet (i - offset) else octetAfter i earlier
  | truncate _ size :: earlier => if size ≤ i then 0 else octetAfter i earlier

/-- The edit is put before those that were accepted, if it is accepted too. -/
def accept (limit : Nat) (accepted : List Edit) (e : Edit) : List Edit :=
  if e.Fits limit (lengthAfter accepted) then e :: accepted else accepted

/-- The edits that are accepted, the latest first. -/
def accepted (limit : Nat) (edits : List Edit) : List Edit := edits.foldl (accept limit) []

/-- What is cut off does not come back. -/
theorem octetAfter_of_cut {limit i size : Nat} {path : String} {before after : List Edit}
    (hfits : size ≤ lengthAfter (accepted limit before)) (hi : size ≤ i)
    (hafter : ∀ e ∈ after, ¬ e.Covers i) :
    octetAfter i (accepted limit (before ++ truncate path size :: after)) = 0 := by
  have hcut : octetAfter i (accept limit (accepted limit before) (truncate path size)) = 0 := by
    have haccept : accept limit (accepted limit before) (truncate path size) = _ := if_pos hfits
    rw [haccept, octetAfter, if_pos hi]
  rw [accepted, List.foldl_append, List.foldl_cons]
  show octetAfter i (after.foldl _ (accept limit (accepted limit before) _)) = 0
  generalize accept limit (accepted limit before) (truncate path size) = done at hcut ⊢
  -- on what is done after the cut: what does not write there leaves the zero
  induction after generalizing done with
  | nil => exact hcut
  | cons e after ih =>
      apply ih (fun e' he' => hafter e' (List.mem_cons_of_mem e he'))
      have hcovers := hafter e (List.mem_cons_self ..)
      unfold accept
      split
      · cases e with
        | write offset data =>
            rw [octetAfter]
            exact (if_neg hcovers).trans hcut
        | truncate path size =>
            rw [octetAfter, hcut]
            split <;> rfl
      · exact hcut

/-- The buffer is as the accepted edits, the latest first, have left it, and within the limit. -/
structure Leaves (limit : Nat) (done : List Edit) (buffer : Bytes) : Prop where
  length : buffer.size = lengthAfter done
  octets : ∀ i, buffer.octet i = octetAfter i done
  bounded : buffer.size ≤ limit

theorem leaves_nil (limit : Nat) : Leaves limit [] #[] where
  length := rfl
  octets _ := rfl
  bounded := Nat.zero_le limit

namespace Leaves

variable {limit : Nat} {done : List Edit} {buffer : Bytes}

theorem write (h : Leaves limit done buffer) {offset : Nat} {data : Bytes}
    (hfits : offset + data.size ≤ limit) :
    Leaves limit (.write offset data :: done) (buffer.overlay offset data) where
  length := by rw [Bytes.size_overlay, lengthAfter, h.length]
  octets i := by rw [Bytes.octet_overlay, octetAfter, h.octets]
  bounded := by
    have hbuffer := h.bounded
    rw [Bytes.size_overlay]
    omega

theorem truncate (h : Leaves limit done buffer) {size : Nat} (path : String)
    (hfits : size ≤ buffer.size) :
    Leaves limit (.truncate path size :: done) (buffer.take size) where
  length := by
    simp only [Array.take_eq_extract, Array.size_extract, lengthAfter]
    omega
  octets i := by rw [Bytes.octet_take, octetAfter, h.octets]
  bounded := by
    have hbuffer := h.bounded
    simp only [Array.take_eq_extract, Array.size_extract]
    omega

end Leaves

end Edit

/-! ## Sessions -/

/-- The session with data put into its buffer. -/
def Session.overlaid (s : Session) (offset : Nat) (data : Bytes) : Session :=
  { s with pending := s.pending.overlay offset data, dirty := true }

/-- The session with its buffer cut. -/
def Session.cut (s : Session) (size : Nat) : Session :=
  { s with pending := s.pending.take size, dirty := true }

theorem Session.overlaid_comm (s : Session) {offset offset' : Nat} {data data' : Bytes}
    (hapart : ∀ i, (Edit.write offset data).Covers i → ¬ (Edit.write offset' data').Covers i) :
    (s.overlaid offset data).overlaid offset' data' =
      (s.overlaid offset' data').overlaid offset data := by
  simp only [overlaid, Bytes.overlay_comm _ hapart]

theorem Session.overlaid_append (s : Session) (offset : Nat) (data data' : Bytes) :
    (s.overlaid offset data).overlaid (offset + data.size) data' =
      s.overlaid offset (data ++ data') := by
  simp only [overlaid, Bytes.overlay_append]

theorem Session.write_of_access {s : Session} (h : s.access.write = true) (offset : Nat)
    (data : Bytes) : s.write offset data = if maxPendingBytes < offset + data.size then
        .error (.tooLarge maxPendingBytes)
      else .ok (s.overlaid offset data) := by
  simp only [write, h]
  rfl

variable {σ ε : Type}

/-- The node with another session in the place of the one that is open. -/
def Node.withSession (s : Session) : Node σ ε → Node σ ε
  | .readWrite n => .readWrite { n with session := n.session.map ({ · with inner := s }) }
  | .keyStore n => .keyStore { n with session := n.session.map ({ · with inner := s }) }
  | n => n

/-- A session that writes is open on the node. -/
structure Node.Writes (n : Node σ ε) (s : Session) : Prop where
  session : n.session? = some s
  access : s.access.write = true
  /-- Nothing is written to a read-only node. -/
  kind : ∀ m, n ≠ .readOnly m

/-- The path is the file that the session of the node is open on. -/
def Node.IsOpenAt (publisher : σ) (path : String) : Node σ ε → Prop
  | .readWrite n => n.location.matchesFile publisher path = true
  | .keyStore n => ∃ session, n.session = some session ∧ n.keyFor? publisher path = some session.key
  | _ => False

theorem Node.withSession_withSession (n : Node σ ε) (s s' : Session) :
    (n.withSession s).withSession s' = n.withSession s' := by
  cases n with
  | readWrite n => simp [withSession, Function.comp_def]
  | keyStore n => simp [withSession, Function.comp_def]
  | readOnly n => rfl
  | foreign e removals => rfl

theorem Node.matchesFile_withSession [Foreign ε] (n : Node σ ε) (s : Session) (publisher : σ)
    (path : String) : (n.withSession s).matchesFile publisher path = n.matchesFile publisher path := by
  cases n <;> rfl

theorem Node.isOpenAt_withSession {n : Node σ ε} {publisher : σ} {path : String}
    (h : n.IsOpenAt publisher path) (s : Session) : (n.withSession s).IsOpenAt publisher path := by
  cases n with
  | readWrite n => exact h
  | keyStore n =>
      obtain ⟨session, hs, hkey⟩ := h
      exact ⟨{ session with inner := s }, by simp [hs], hkey⟩
  | readOnly n => exact h
  | foreign e removals => exact h

namespace Node.Writes

variable {n : Node σ ε} {s : Session}

theorem withSession (h : n.Writes s) {s' : Session} (haccess : s'.access = s.access) :
    (n.withSession s').Writes s' := by
  have hwrite : s'.access.write = true := haccess ▸ h.access
  cases n with
  | readWrite n =>
      obtain ⟨live, hs, -⟩ := Option.map_eq_some_iff.mp h.session
      exact ⟨by simp [Node.withSession, session?, hs], hwrite, fun _ he => by cases he⟩
  | keyStore n =>
      obtain ⟨live, hs, -⟩ := Option.map_eq_some_iff.mp h.session
      exact ⟨by simp [Node.withSession, session?, hs], hwrite, fun _ he => by cases he⟩
  | readOnly n => exact absurd rfl (h.kind n)
  | foreign e removals => cases h.session

end Node.Writes

namespace Tree

variable [Foreign ε] {t : Tree σ ε} {ref : NodeRef} {n : Node σ ε} {s : Session}

/-- A write within the limit of all buffers goes into the buffer of the session. -/
theorem writeNode_eq (hn : t.node? ref = some n) (h : n.Writes s) (offset : Nat) (data : Bytes) :
    t.writeNode ref offset data = if maxPendingBytes < offset + data.size then
        (.error (.tooLarge maxPendingBytes), t)
      else (.ok data.size, t.setNode ref (n.withSession (s.overlaid offset data))) := by
  have hwrite := Session.write_of_access h.access offset data
  unfold writeNode
  rw [hn]
  cases n with
  | readWrite n =>
      obtain ⟨live, hs, rfl⟩ := Option.map_eq_some_iff.mp h.session
      by_cases hsize : maxPendingBytes < offset + data.size <;>
        simp [ReadWrite.write, hs, hwrite, hsize, Node.withSession]
  | keyStore n =>
      obtain ⟨live, hs, rfl⟩ := Option.map_eq_some_iff.mp h.session
      by_cases hsize : maxPendingBytes < offset + data.size <;>
        simp [KeyStore.write, hs, hwrite, hsize, Node.withSession]
  | readOnly n => exact absurd rfl (h.kind n)
  | foreign e removals => cases h.session

/-- A resize of the file that the session is open on cuts the buffer, if it does not make it grow. -/
theorem resizeOn_eq (hn : t.node? ref = some n) (h : n.Writes s) {path : String}
    (hopen : n.IsOpenAt t.publisher path) (size : Nat) :
    t.resizeOn ref path size = if s.pending.size < size then
        (.error (.unsupported ("growing " ++ s.path ++ " to " ++ toString size ++ " bytes")), t)
      else (.ok (), t.setNode ref (n.withSession (s.cut size))) := by
  unfold resizeOn
  rw [hn]
  cases n with
  | readWrite n =>
      obtain ⟨live, hs, rfl⟩ := Option.map_eq_some_iff.mp h.session
      have hcheck : n.location.check t.publisher path = .ok () := Location.check_eq_ok.mpr hopen
      have hwriter : n.writer? = some live := by simp [ReadWrite.writer?, hs, h.access]
      by_cases hsize : live.inner.pending.size < size <;>
        simp [ReadWrite.resize, hcheck, hwriter, Session.truncate, hsize, Node.withSession, hs,
          Session.cut]
  | keyStore n =>
      obtain ⟨session, hs, hkey⟩ := hopen
      have hinner : session.inner = s := by simpa [Node.session?, hs] using h.session
      subst hinner
      have hrequire := KeyStore.requireKey_eq_ok.mpr hkey
      have hwriter : n.writer? session.key = some session := by
        simp [KeyStore.writer?, hs, h.access]
      by_cases hsize : session.inner.pending.size < size <;>
        simp [KeyStore.resize, hrequire, hwriter, Session.truncate, hsize, Node.withSession, hs,
          Session.cut]
  | readOnly n => exact absurd rfl (h.kind n)
  | foreign e removals => cases h.session

/-! ## Through the tree -/

omit [Foreign ε] in
theorem setNode_setNode (t : Tree σ ε) (ref : NodeRef) (m m' : Node σ ε) :
    (t.setNode ref m).setNode ref m' = t.setNode ref m' := by
  simp [setNode]

/-- No session's buffer grows beyond this. -/
def bufferLimit (t : Tree σ ε) : Nat := min t.settings.maxWriteBytes maxPendingBytes

/-- The path leads to the file that the session of the node is open on. -/
def Leads (t : Tree σ ε) (ref : NodeRef) (path : String) : Prop :=
  ∃ q r n, Path.normalize path = .ok q ∧ t.owner? q = some r ∧ r.node = ref ∧
    t.node? ref = some n ∧ n.IsOpenAt t.publisher q

theorem Leads.noteOverlap {path : String} (h : t.Leads ref path) (q : String) :
    (t.noteOverlap q).Leads ref path := by
  obtain ⟨q', r, n, hpath, howner, hr, hn, hopen⟩ := h
  refine ⟨q', r, n, hpath, ?_, hr, (node?_noteOverlap t q ref).trans hn, ?_⟩
  · rw [owner?_congr (congrArg Books.registrations (books_noteOverlap t q)), howner]
    intro other
    exact claims_congr (node?_noteOverlap t q other.node) (publisher_noteOverlap t q)
  · rw [publisher_noteOverlap]
    exact hopen

theorem Leads.withSession {path : String} (h : t.Leads ref path) (hn : t.node? ref = some n)
    (s : Session) : (t.setNode ref (n.withSession s)).Leads ref path := by
  obtain ⟨q, r, m, hpath, howner, hr, hm, hopen⟩ := h
  rw [hn] at hm
  cases hm
  refine ⟨q, r, n.withSession s, hpath, ?_, hr, node?_setNode_self _ hn,
    Node.isOpenAt_withSession hopen s⟩
  rw [← howner]
  apply owner?_congr
  · rfl
  · intro other
    by_cases he : other.node = ref
    · unfold claims
      rw [he, node?_setNode_self _ hn, hn]
      exact n.matchesFile_withSession s _ q
    · exact claims_congr (node?_setNode_of_ne _ he) rfl

/-- The handle leads to a session that writes. -/
structure Drafting (t : Tree σ ε) (h : Handle) (o : OpenHandle) (n : Node σ ε) (s : Session) :
    Prop where
  handle : t.handle? h = some o
  node : t.node? o.node = some n
  writes : n.Writes s

namespace Drafting

variable {h : Handle} {o : OpenHandle}

omit [Foreign ε] in
theorem withSession (d : t.Drafting h o n s) (s' : Session) (haccess : s'.access = s.access) :
    (t.setNode o.node (n.withSession s')).Drafting h o (n.withSession s') s' where
  handle := d.handle
  node := node?_setNode_self _ d.node
  writes := d.writes.withSession haccess

theorem noteOverlap (d : t.Drafting h o n s) (q : String) :
    (t.noteOverlap q).Drafting h o n s where
  handle := by
    rw [handle?, show (t.noteOverlap q).handles = t.handles from
      congrArg Books.handles (books_noteOverlap t q)]
    exact d.handle
  node := (node?_noteOverlap t q o.node).trans d.node
  writes := d.writes

/-- A write that ends within both limits is taken whole. -/
theorem write_of_le (d : t.Drafting h o n s) {offset : Nat} {data : Bytes}
    (hfits : offset + data.size ≤ t.bufferLimit) :
    t.write h offset data =
      (.ok data.size, t.setNode o.node (n.withSession (s.overlaid offset data))) := by
  unfold bufferLimit at hfits
  unfold write
  rw [d.handle]
  dsimp only
  rw [if_neg, writeNode_eq d.node d.writes, if_neg]
  · omega
  · unfold writeEnd
    omega

/-- Any other is refused, and nothing of it is taken. -/
theorem write_of_lt (d : t.Drafting h o n s) {offset : Nat} {data : Bytes}
    (hlarge : t.bufferLimit < offset + data.size) :
    ∃ limit, t.write h offset data = (.error (.tooLarge limit), t) := by
  have hword : maxPendingBytes ≤ 18446744073709551615 := by decide
  unfold bufferLimit at hlarge
  unfold write
  rw [d.handle]
  dsimp only
  split
  · exact ⟨_, rfl⟩
  · next hend =>
    -- the end is no larger than the tree allows, so it is the end, or the last word
    unfold writeEnd at hend
    exact ⟨_, by rw [writeNode_eq d.node d.writes, if_pos (by omega)]⟩

/-- A write that is too large is refused behind any other too. -/
theorem write_write_of_lt (d : t.Drafting h o n s) {offset offset' : Nat} {data data' : Bytes}
    (hlarge : t.bufferLimit < offset' + data'.size) :
    ((t.write h offset data).2.write h offset' data').2 = (t.write h offset data).2 := by
  rcases Nat.lt_or_ge t.bufferLimit (offset + data.size) with hlarge' | hfits
  · obtain ⟨limit, hrefused⟩ := d.write_of_lt hlarge'
    obtain ⟨limit', hrefused'⟩ := d.write_of_lt hlarge
    rw [hrefused, hrefused']
  · have d' := d.withSession (s.overlaid offset data) rfl
    obtain ⟨limit, hrefused⟩ := d'.write_of_lt hlarge
    rw [d.write_of_le hfits, hrefused]

/-- What two writes leave that are accepted. -/
theorem write_write_of_le (d : t.Drafting h o n s) {offset offset' : Nat} {data data' : Bytes}
    (hfits : offset + data.size ≤ t.bufferLimit) (hfits' : offset' + data'.size ≤ t.bufferLimit) :
    ((t.write h offset data).2.write h offset' data').2 = t.setNode o.node
      (n.withSession ((s.overlaid offset data).overlaid offset' data')) := by
  have d' := d.withSession (s.overlaid offset data) rfl
  rw [d.write_of_le hfits, d'.write_of_le hfits', setNode_setNode, Node.withSession_withSession]

/-- Two writes without an octet in common can be made in either order. -/
theorem write_comm (d : t.Drafting h o n s) {offset offset' : Nat} {data data' : Bytes}
    (hapart : ∀ i, (Edit.write offset data).Covers i → ¬ (Edit.write offset' data').Covers i) :
    ((t.write h offset data).2.write h offset' data').2 =
      ((t.write h offset' data').2.write h offset data).2 := by
  rcases Nat.lt_or_ge t.bufferLimit (offset' + data'.size) with hlarge | hfits'
  · obtain ⟨limit, hrefused⟩ := d.write_of_lt hlarge
    rw [d.write_write_of_lt hlarge, hrefused]
  · rcases Nat.lt_or_ge t.bufferLimit (offset + data.size) with hlarge | hfits
    · obtain ⟨limit, hrefused⟩ := d.write_of_lt hlarge
      rw [d.write_write_of_lt hlarge, hrefused]
    · rw [d.write_write_of_le hfits hfits', d.write_write_of_le hfits' hfits,
        s.overlaid_comm hapart]

/-- A write can be made in two parts, one behind the other. -/
theorem write_append (d : t.Drafting h o n s) {offset : Nat} {data data' : Bytes}
    (hfits : offset + (data ++ data').size ≤ t.bufferLimit) :
    ((t.write h offset data).2.write h (offset + data.size) data').2 =
      (t.write h offset (data ++ data')).2 := by
  have hsize : (data ++ data').size = data.size + data'.size := Array.size_append
  rw [d.write_write_of_le (by omega) (by omega), d.write_of_le hfits, s.overlaid_append]

/-- A truncation of the session's file cuts the buffer, and is refused if it would make it grow. -/
theorem truncate_eq (d : t.Drafting h o n s) {path : String} (hleads : t.Leads o.node path)
    (size : Nat) :
    ∃ q, t.truncate path size = if size ≤ s.pending.size then
        (.ok (), (t.noteOverlap q).setNode o.node (n.withSession (s.cut size)))
      else (.error (.unsupported ("growing " ++ s.path ++ " to " ++ toString size ++ " bytes")),
        t.noteOverlap q) := by
  obtain ⟨q, r, m, hpath, howner, hr, hm, hopen⟩ := hleads
  rw [d.node] at hm
  cases hm
  refine ⟨q, ?_⟩
  have hnote := d.noteOverlap q
  have hopen' : n.IsOpenAt (t.noteOverlap q).publisher q := by
    rw [publisher_noteOverlap]
    exact hopen
  unfold truncate
  rw [hpath]
  dsimp only
  rw [howner]
  dsimp only
  rw [hr, resizeOn_eq hnote.node hnote.writes hopen' size]
  by_cases hsize : s.pending.size < size
  · rw [if_pos hsize, if_neg (by omega)]
  · rw [if_neg hsize, if_pos (by omega)]

end Drafting

/-- Where the edit is a truncation, its path leads to the file of the session. -/
def LeadsOf (t : Tree σ ε) (ref : NodeRef) : Edit → Prop
  | .write _ _ => True
  | .truncate path _ => t.Leads ref path

/-- What an edit leaves: the session goes on, and its buffer is as the accepted edits have left it. -/
theorem Drafting.step {h : Handle} {o : OpenHandle} {limit : Nat} {done : List Edit}
    (d : t.Drafting h o n s) (hleaves : Edit.Leaves limit done s.pending)
    (hlimit : t.bufferLimit = limit) (e : Edit) (he : t.LeadsOf o.node e) :
    ∃ n' s', (t.perform (e.action h)).Drafting h o n' s' ∧
      Edit.Leaves limit (Edit.accept limit done e) s'.pending ∧
      (t.perform (e.action h)).bufferLimit = limit ∧
      ∀ path, t.Leads o.node path → (t.perform (e.action h)).Leads o.node path := by
  cases e with
  | write offset data =>
      by_cases hfits : offset + data.size ≤ limit
      · have haccept : Edit.accept limit done (.write offset data) = _ := if_pos hfits
        have hperform : t.perform (Edit.action h (.write offset data)) = _ :=
          congrArg Prod.snd (d.write_of_le (hlimit.symm ▸ hfits))
        rw [haccept, hperform]
        exact ⟨_, _, d.withSession _ rfl, hleaves.write hfits, hlimit,
          fun path hleads => hleads.withSession d.node _⟩
      · have haccept : Edit.accept limit done (.write offset data) = _ := if_neg hfits
        obtain ⟨bound, hwrite⟩ := d.write_of_lt (hlimit.symm ▸ Nat.lt_of_not_le hfits)
        have hperform : t.perform (Edit.action h (.write offset data)) = _ :=
          congrArg Prod.snd hwrite
        rw [haccept, hperform]
        exact ⟨n, s, d, hleaves, hlimit, fun _ hleads => hleads⟩
  | truncate path size =>
      obtain ⟨q, htruncate⟩ := d.truncate_eq he size
      have hnote : (t.noteOverlap q).bufferLimit = limit := by
        unfold bufferLimit
        rw [show (t.noteOverlap q).settings = t.settings from
          congrArg Books.settings (books_noteOverlap t q)]
        exact hlimit
      by_cases hfits : size ≤ s.pending.size
      · have haccept : Edit.accept limit done (.truncate path size) = _ :=
          if_pos (hleaves.length ▸ hfits)
        rw [if_pos hfits] at htruncate
        have hperform : t.perform (Edit.action h (.truncate path size)) = _ :=
          congrArg Prod.snd htruncate
        rw [haccept, hperform]
        exact ⟨_, _, (d.noteOverlap q).withSession _ rfl, hleaves.truncate path hfits, hnote,
          fun path hleads => (hleads.noteOverlap q).withSession (d.noteOverlap q).node _⟩
      · have haccept : Edit.accept limit done (.truncate path size) = _ :=
          if_neg (hleaves.length ▸ hfits)
        rw [if_neg hfits] at htruncate
        have hperform : t.perform (Edit.action h (.truncate path size)) = _ :=
          congrArg Prod.snd htruncate
        rw [haccept, hperform]
        exact ⟨n, s, d.noteOverlap q, hleaves, hnote, fun path hleads => hleads.noteOverlap q⟩

/-- The tree after edits of the session of the handle. -/
def edited (t : Tree σ ε) (h : Handle) (edits : List Edit) : Tree σ ε :=
  t.performAll (edits.map (·.action h))

/-- So it is after any number of edits. -/
theorem Drafting.edited {h : Handle} {o : OpenHandle} {limit : Nat} {done edits : List Edit}
    (d : t.Drafting h o n s) (hleaves : Edit.Leaves limit done s.pending)
    (hlimit : t.bufferLimit = limit) (hleads : ∀ e ∈ edits, t.LeadsOf o.node e) :
    ∃ n' s', (t.edited h edits).Drafting h o n' s' ∧
      Edit.Leaves limit (edits.foldl (Edit.accept limit) done) s'.pending ∧
      (t.edited h edits).bufferLimit = limit ∧
      ∀ path, t.Leads o.node path → (t.edited h edits).Leads o.node path := by
  induction edits generalizing t n s done with
  | nil => exact ⟨n, s, d, hleaves, hlimit, fun _ hpath => hpath⟩
  | cons e edits ih =>
      obtain ⟨n', s', d', hleaves', hlimit', hkept⟩ :=
        d.step hleaves hlimit e (hleads e (List.mem_cons_self ..))
      have hleads' : ∀ e' ∈ edits, (t.perform (e.action h)).LeadsOf o.node e' := by
        intro e' he'
        have hbefore := hleads e' (List.mem_cons_of_mem e he')
        cases e' with
        | write offset data => trivial
        | truncate path size => exact hkept path hbefore
      obtain ⟨n'', s'', d'', hleaves'', hlimit'', hkept'⟩ := ih d' hleaves' hlimit' hleads'
      exact ⟨n'', s'', d'', hleaves'', hlimit'', fun path hpath => hkept' path (hkept path hpath)⟩

/-! ## Opening -/

/-- What an open that succeeds has done to the node of the file, if that is a built-in one. -/
theorem openFile_eq_started {t₀ : Tree σ ε} {path : String} {access : Access} {h : Handle}
    {o : OpenHandle} (ht : t.Numbered) (hopen : t.openFile path access = (.ok h, t₀))
    (ho : t₀.handle? h = some o) (hb : ∀ n, t.node? o.node = some n → n.IsBuiltIn) :
    ∃ q r n source content fetched, Path.normalize path = .ok q ∧ t.owner? q = some r ∧
      o.node = r.node ∧ t.node? r.node = some n ∧ n.permit t.publisher q access = .ok source ∧
      (t.noteOverlap q).fetch source = (.ok content, fetched) ∧ fetched.node? r.node = some n ∧
      t₀ = ((fetched.startSession r.node q access content).addHandle r q).2 := by
  obtain ⟨q, r, opened, hpath, howner, hnode, rfl, rfl⟩ := openFile_eq_ok hopen
  rw [handle?_addHandle (ht.openNode hnode)] at ho
  cases ho
  obtain ⟨n, source, fetched, content, hn, hp, hf, rfl⟩ := openNode_eq_ok hnode
  have hn' : t.node? r.node = some n := (node?_noteOverlap t q r.node).symm.trans hn
  have hkept : fetched.node? r.node = some n := node?_fetch_of_permit (hb n hn') hn hp hf
  rw [publisher_noteOverlap] at hp
  exact ⟨q, r, n, source, content, fetched, hpath, howner, rfl, hn', hp, hf, hkept, rfl⟩

/-- A session that has begun to write has an empty buffer. -/
theorem writes_begin {u : Tree σ ε} {path : String} {access : Access} {source : Source σ}
    {content : Bytes} (hb : n.IsBuiltIn) (hp : n.permit t.publisher path access = .ok source)
    (hf : (t.noteOverlap path).fetch source = (.ok content, u)) (hwrite : access.write = true) :
    ∃ s, (n.begin u.publisher path access content).Writes s ∧ s.pending = #[] := by
  cases n with
  | readOnly n =>
      obtain ⟨-, rfl, -⟩ := ReadOnly.permit_eq_ok hp
      cases hwrite
  | readWrite n => exact ⟨_, ⟨rfl, hwrite, fun _ he => by cases he⟩, rfl⟩
  | keyStore n =>
      obtain ⟨held, hheld, rfl⟩ := map_eq_ok.mp hp
      cases hf
      obtain ⟨⟨key, hkey⟩, -⟩ := KeyStore.permit_eq_ok hheld
      rw [publisher_noteOverlap]
      simp only [Node.begin, KeyStore.begin, hkey]
      exact ⟨_, ⟨rfl, hwrite, fun _ he => by cases he⟩, rfl⟩
  | foreign e removals => exact hb.elim

theorem drafting_openFile {t₀ : Tree σ ε} {path : String} {access : Access} {h : Handle}
    {o : OpenHandle} (ht : t.Numbered) (hopen : t.openFile path access = (.ok h, t₀))
    (hwrite : access.write = true) (ho : t₀.handle? h = some o)
    (hb : ∀ n, t.node? o.node = some n → n.IsBuiltIn) :
    ∃ n s, t₀.Drafting h o n s ∧ s.pending = #[] := by
  obtain ⟨q, r, n, source, content, fetched, -, -, hnode, hn, hp, hf, hkept, rfl⟩ :=
    openFile_eq_started ht hopen ho hb
  rw [hnode] at hb
  obtain ⟨s, hwrites, hempty⟩ := writes_begin (hb n hn) hp hf hwrite
  refine ⟨_, s, ⟨ho, ?_, hwrites⟩, hempty⟩
  rw [hnode]
  exact node?_startSession_self hkept q access content

/-- Beginning a session does not change which files the node has. -/
theorem matchesFile_begin (hb : n.IsBuiltIn) (publisher s : σ) (path q : String) (access : Access)
    (content : Bytes) :
    (n.begin publisher path access content).matchesFile s q = n.matchesFile s q := by
  cases n with
  | readOnly n => rfl
  | readWrite n => rfl
  | keyStore n =>
      simp only [Node.begin, KeyStore.begin]
      split <;> rfl
  | foreign e removals => exact hb.elim

/-- To write alone, a node runs nothing; and its session is open on the file that was asked for. -/
theorem isOpenAt_begin {path : String} {access : Access} {source : Source σ} (hb : n.IsBuiltIn)
    (hp : n.permit t.publisher path access = .ok source) (hread : access.read = false) :
    ∃ held, source = .held held ∧
      (n.begin t.publisher path access held).IsOpenAt t.publisher path := by
  cases n with
  | readOnly n =>
      obtain ⟨-, rfl, -⟩ := ReadOnly.permit_eq_ok hp
      cases hread
  | readWrite n =>
      obtain ⟨hmatches, -, -, rfl⟩ := ReadWrite.permit_eq_ok hp
      rw [hread]
      exact ⟨#[], rfl, hmatches⟩
  | keyStore n =>
      obtain ⟨held, hheld, rfl⟩ := map_eq_ok.mp hp
      obtain ⟨⟨key, hkey⟩, -⟩ := KeyStore.permit_eq_ok hheld
      refine ⟨held, rfl, ?_⟩
      simp only [Node.begin, KeyStore.begin, hkey]
      exact ⟨_, rfl, hkey⟩
  | foreign e removals => exact hb.elim

/-- A file that was opened to write alone is the same under every spelling of its path: nothing has
been run that could have moved it. -/
theorem leads_openFile {t₀ : Tree σ ε} {path spelling : String} {access : Access} {h : Handle}
    {o : OpenHandle} (ht : t.Numbered) (hopen : t.openFile path access = (.ok h, t₀))
    (hread : access.read = false) (ho : t₀.handle? h = some o)
    (hb : ∀ n, t.node? o.node = some n → n.IsBuiltIn)
    (hspelling : Path.normalize spelling = Path.normalize path) : t₀.Leads o.node spelling := by
  obtain ⟨q, r, n, source, content, fetched, hpath, howner, hnode, hn, hp, hf, hkept, rfl⟩ :=
    openFile_eq_started ht hopen ho hb
  rw [hnode] at hb ⊢
  obtain ⟨held, rfl, hfile⟩ := isOpenAt_begin (hb n hn) hp hread
  cases hf
  have hstarted := node?_startSession_self hkept q access content
  have hpublisher : ((t.noteOverlap q).startSession r.node q access content).publisher =
      t.publisher := by simp
  rw [publisher_noteOverlap] at hstarted
  refine ⟨q, r, _, hspelling.trans hpath, ?_, rfl, hstarted, ?_⟩
  · rw [← howner]
    apply owner?_congr
    · have hbooks := books_startSession (t.noteOverlap q) r.node q access content
      exact congrArg Books.registrations (hbooks.trans (books_noteOverlap t q))
    · intro other
      show ((t.noteOverlap q).startSession r.node q access content).claims q other = _
      by_cases he : other.node = r.node
      · unfold claims
        rw [he, hstarted, hn, hpublisher]
        exact matchesFile_begin (hb n hn) _ _ q q access content
      · have hother := node?_startSession_of_ne (t.noteOverlap q) he q access content
        exact claims_congr (hother.trans (node?_noteOverlap t q other.node)) hpublisher
  · show Node.IsOpenAt ((t.noteOverlap q).startSession r.node q access content).publisher q _
    rw [hpublisher]
    exact hfile

/-! ## The account of the buffer -/

/-- Whatever has been written into the buffer of a session, and cut off it, since the session was
opened through the tree: the buffer is as the edits that were accepted have left it, octet by octet,
and no longer than the limit. A write is accepted if it ends within the limit, and then taken whole;
a truncation is accepted unless it would make the buffer grow. What is refused changes nothing. So
octets that have been cut off do not come back, writes that have no octet in common can be made in
either order, and a write can be made in two parts. A session that was opened to write alone is
reached for truncations under every spelling of its path. -/
theorem pending_follows_edits {t t₀ : Tree σ ε} {path : String} {access : Access} {h : Handle}
    {o : OpenHandle} (ht : t.Numbered) (hopen : t.openFile path access = (.ok h, t₀))
    (hwrite : access.write = true) (ho : t₀.handle? h = some o)
    (hb : ∀ n, t.node? o.node = some n → n.IsBuiltIn) :
    (access.read = false → ∀ spelling, Path.normalize spelling = Path.normalize path →
      t₀.Leads o.node spelling) ∧
    ∀ edits now, (∀ e ∈ edits, t₀.LeadsOf o.node e) → now = t₀.edited h edits →
      ∃ n s, now.node? o.node = some n ∧ n.session? = some s ∧
        s.pending.size = Edit.lengthAfter (Edit.accepted t.bufferLimit edits) ∧
        s.pending.size ≤ t.bufferLimit ∧
        (∀ i, s.pending.octet i = Edit.octetAfter i (Edit.accepted t.bufferLimit edits)) ∧
        (∀ offset data, offset + data.size ≤ t.bufferLimit →
          (now.write h offset data).1 = .ok data.size ∧ data.size < UInt32.size) ∧
        (∀ offset data, t.bufferLimit < offset + data.size →
          ∃ limit, now.write h offset data = (.error (.tooLarge limit), now)) ∧
        (∀ file size, t₀.Leads o.node file → size ≤ s.pending.size →
          (now.truncate file size).1 = .ok ()) ∧
        (∀ file size, t₀.Leads o.node file → s.pending.size < size →
          ∃ what u, now.truncate file size = (.error (.unsupported what), u) ∧ Same now u ∧
            u.publisher = now.publisher) ∧
        (∀ before after file size i, edits = before ++ .truncate file size :: after →
          ((t₀.edited h before).truncate file size).1 = .ok () → size ≤ i →
          (∀ e ∈ after, ¬ e.Covers i) → s.pending.octet i = 0) ∧
        (∀ offset offset' data data',
          (∀ i, (Edit.write offset data).Covers i → ¬ (Edit.write offset' data').Covers i) →
          ((now.write h offset data).2.write h offset' data').2 =
            ((now.write h offset' data').2.write h offset data).2) ∧
        (∀ offset data data', offset + (data ++ data').size ≤ t.bufferLimit →
          ((now.write h offset data).2.write h (offset + data.size) data').2 =
            (now.write h offset (data ++ data')).2) := by
  refine ⟨fun hread spelling => leads_openFile ht hopen hread ho hb, ?_⟩
  obtain ⟨n₀, s₀, d₀, hempty⟩ := drafting_openFile ht hopen hwrite ho hb
  have hlimit : t₀.bufferLimit = t.bufferLimit := by
    have hsettings := (proceeds_openFile t path access).settings
    rw [hopen] at hsettings
    unfold bufferLimit
    rw [hsettings]
  have hleaves₀ : Edit.Leaves t.bufferLimit [] s₀.pending := by
    rw [hempty]
    exact Edit.leaves_nil t.bufferLimit
  rintro edits now hleads rfl
  obtain ⟨n, s, d, hleaves, hlimit', hkept⟩ := d₀.edited hleaves₀ hlimit hleads
  refine ⟨n, s, d.node, d.writes.session, hleaves.length, hleaves.bounded, hleaves.octets,
    ?_, ?_, ?_, ?_, ?_, fun _ _ _ _ => d.write_comm, ?_⟩
  · intro offset data hfits
    have hword : t.bufferLimit < UInt32.size :=
      Nat.lt_of_le_of_lt (Nat.min_le_right _ _) (by decide)
    rw [d.write_of_le (hlimit'.symm ▸ hfits)]
    exact ⟨rfl, by omega⟩
  · intro offset data hlarge
    exact d.write_of_lt (hlimit'.symm ▸ hlarge)
  · intro file size hfile hfits
    obtain ⟨q, htruncate⟩ := d.truncate_eq (hkept file hfile) size
    rw [htruncate, if_pos hfits]
  · intro file size hfile hgrows
    obtain ⟨q, htruncate⟩ := d.truncate_eq (hkept file hfile) size
    rw [htruncate, if_neg (Nat.not_le.mpr hgrows)]
    exact ⟨_, _, rfl, same_noteOverlap _ q, publisher_noteOverlap _ q⟩
  · rintro before after file size i rfl hcut hi hafter
    -- the truncation was accepted, so it was not beyond the octets that were there
    have hbefore : ∀ e ∈ before, t₀.LeadsOf o.node e :=
      fun e he => hleads e (List.mem_append_left _ he)
    have hfile : t₀.Leads o.node file :=
      hleads (.truncate file size) (List.mem_append_right _ (List.mem_cons_self ..))
    obtain ⟨n', s', d', hleaves', -, hkept'⟩ := d₀.edited hleaves₀ hlimit hbefore
    obtain ⟨q, htruncate⟩ := d'.truncate_eq (hkept' file hfile) size
    have hfits : size ≤ s'.pending.size := by
      by_contra hgrows
      rw [htruncate, if_neg hgrows] at hcut
      cases hcut
    rw [hleaves'.length] at hfits
    rw [hleaves.octets]
    exact Edit.octetAfter_of_cut hfits hi hafter
  · intro offset data data' hfits
    exact d.write_append (hlimit'.symm ▸ hfits)

/-- A bureau where letters are written, of at most eight octets. -/
def bureau : Tree Unit Empty :=
  perform (addNode { settings := { maxWriteBytes := 8 }, publisher := () }
    (.keyStore { directory := .fixed "/desk" })).2 (.register ⟨0⟩)

theorem reachable_bureau : Reachable bureau :=
  .perform (.register ⟨0⟩) (.addNode (.keyStore { directory := .fixed "/desk" })
    (.empty { maxWriteBytes := 8 } ()) ⟨rfl, rfl⟩)

/-- The bureau with a letter that has been begun. -/
def bureauBusy : Tree Unit Empty := (bureau.openFile "/desk/letter" .writing).2

/-- Two octets behind a gap, of which the second is cut off again; one more behind another gap, and
two that there is no room for. -/
def letter : List Edit :=
  [.write 5 #[1, 2], .truncate "/desk//letter" 6, .write 7 #[9], .write 7 #[3, 4],
    .write maxOffset #[1], .truncate "desk/letter" 9]

/-- The octet that was cut off is zero when the letter has grown over it. -/
theorem pending_follows_edits_letter :
    ∃ n s, (bureauBusy.edited ⟨1⟩ letter).node? ⟨0⟩ = some n ∧ n.session? = some s ∧
      s.pending = #[0, 0, 0, 0, 0, 1, 0, 9] ∧
      ((bureauBusy.edited ⟨1⟩ letter).write ⟨1⟩ 0 #[7]).1 = .ok 1 ∧
      ∃ limit, (bureauBusy.edited ⟨1⟩ letter).write ⟨1⟩ maxOffset #[7] =
        (.error (.tooLarge limit), bureauBusy.edited ⟨1⟩ letter) := by
  have hopen : bureau.openFile "/desk/letter" .writing = (.ok ⟨1⟩, bureauBusy) := rfl
  have ho : bureauBusy.handle? ⟨1⟩ = some ⟨⟨1⟩, ⟨1⟩, ⟨0⟩, "/desk/letter"⟩ := by decide
  obtain ⟨hspellings, hedits⟩ := pending_follows_edits reachable_bureau.inUse.numbered hopen rfl ho
    (fun n _ => n.isBuiltIn)
  have hleads : ∀ e ∈ letter, bureauBusy.LeadsOf ⟨0⟩ e := by
    intro e he
    cases e with
    | write offset data => trivial
    | truncate file size =>
        apply hspellings rfl
        obtain ⟨rfl, -⟩ | ⟨rfl, -⟩ :
            file = "/desk//letter" ∧ size = 6 ∨ file = "desk/letter" ∧ size = 9 := by
          simpa [letter] using he
        · rfl
        · rfl
  obtain ⟨n, s, hn, hs, hlength, -, hoctets, hfits, hlarge, -⟩ := hedits letter _ hleads rfl
  refine ⟨n, s, hn, hs, ?_, (hfits 0 #[7] (by decide)).1, hlarge maxOffset #[7] (by decide)⟩
  apply Bytes.eq_of_octet
  · rw [hlength]
    decide
  · have hfew : ∀ i < 8, Edit.octetAfter i (Edit.accepted bureau.bufferLimit letter) =
        Bytes.octet #[0, 0, 0, 0, 0, 1, 0, 9] i := by decide
    intro i
    rcases Nat.lt_or_ge i 8 with hi | hi
    · rw [hoctets, hfew i hi]
    · rw [Bytes.octet_of_size_le, Bytes.octet_of_size_le]
      · exact hi
      · rw [hlength]
        exact hi

end Tree

end LiveTree
