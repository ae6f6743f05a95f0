import LiveTree.Proofs.Sight
import LiveTree.Proofs.Visits

/-!
# Ranges

What a client reads is a range of the content: from an offset on, up to a number of octets, cut off
where the content ends. A node is asked for it in parts, and may give less of each part than it is
asked for, as long as it honours the contract of reads (`Honours`); the range is the same
(`read_eq_range`). Nothing is lost where offsets are words of 64 bits, and stop at the largest one.
-/

namespace LiveTree

/-- The largest offset, a word of 64 bits. -/
def maxOffset : Nat := 18446744073709551615

/-- The contract of reads. At an offset in the content, some octets from there on are given, no more
than asked for, and at least one if any is asked for; at any other offset, none. -/
def Honours (read : (offset size : Nat) → Except Fault Bytes) (content : Bytes) : Prop :=
  ∀ offset size, offset ≤ maxOffset → ∃ part, read offset size = .ok part ∧
    part = content.slice offset part.size ∧
    if offset < content.size ∧ 0 < size then
      1 ≤ part.size ∧ part.size ≤ min size (content.size - offset)
    else part.size = 0

/-- What there is of a range. -/
def Bytes.range (content : Bytes) (offset size : Nat) : Bytes :=
  content.extract (min offset content.size) (min (offset + size) content.size)

theorem Bytes.slice_eq_range (content : Bytes) (offset size : Nat) :
    content.slice offset size = content.range offset size := by
  apply Array.ext
  · rw [size_slice, range, Array.size_extract]
    omega
  · intro i h _
    rw [size_slice] at h
    simp only [slice, range, Array.getElem_extract]
    congr 1
    omega

theorem Honours.showsTo {read : (offset size : Nat) → Except Fault Bytes} {content : Bytes}
    (h : Honours read content) : ShowsTo read content maxOffset := by
  intro offset size hoffset
  obtain ⟨part, hread, hpart, hcount⟩ := h offset size hoffset
  refine ⟨part.size, hread.trans (congrArg _ hpart), ?_⟩
  split at hcount
  · exact ⟨by omega, fun _ _ => by omega⟩
  · next hout =>
    exact ⟨by omega, fun hin hsome => absurd ⟨hin, hsome⟩ hout⟩

/-- The loop of a range read on words: offsets stop at the largest one, and one buffer is made for
all reads. -/
def readWords (answers : Nat → (offset size : Nat) → Except Fault Bytes) (offset size : Nat) :
    Except Fault Bytes :=
  readLoop answers (min · maxOffset) (min size readChunk) offset size 0 #[]

/-- Whatever number of octets each read gives, the loop reads the range. -/
theorem readWords_eq {answers : Nat → (offset size : Nat) → Except Fault Bytes} {content : Bytes}
    (h : ∀ number, Honours (answers number) content) (hcontent : content.size ≤ maxOffset)
    {offset : Nat} (hoffset : offset ≤ maxOffset) (size : Nat) :
    readWords answers offset size = .ok (content.range offset size) := by
  have hnothing : content.slice offset 0 = #[] :=
    Array.eq_empty_of_size_eq_zero (by rw [Bytes.size_slice]; omega)
  have hchunk : 0 < readChunk := by decide
  rw [readWords, ← hnothing, ← Bytes.slice_eq_range]
  apply readLoop_eq (fun number => (h number).showsTo) _ hcontent hoffset
  · rw [Bytes.size_slice]
    omega
  · omega
  · intro o ho
    exact Nat.min_eq_left ho

/-- The built-in nodes honour the contract: their sessions give the snapshot, as much of it as was
asked for. -/
theorem Node.honours_snapshot {σ ε : Type} [Foreign ε] {n : Node σ ε} {session : Session}
    (h : n.session? = some session) (hread : session.access.read = true) :
    Honours n.read session.snapshot := by
  intro offset size _
  have hsize := Bytes.size_slice session.snapshot offset size
  refine ⟨session.snapshot.slice offset size, ?_, ?_, ?_⟩
  · rw [Node.read_of_session? h, Session.read, if_pos hread]
  · apply Bytes.slice_congr
    omega
  · split <;> omega

namespace Tree

variable {σ ε : Type} [Foreign ε]

/-- The session of a built-in node that was opened to read ends without a failure. -/
theorem closeNode_begin_reading {t u : Tree σ ε} {ref : NodeRef} {n : Node σ ε} {path : String}
    {source : Source σ} {content : Bytes} (hb : n.IsBuiltIn)
    (hp : n.permit t.publisher path .reading = .ok source)
    (hf : t.fetch source = (.ok content, u)) {v : Tree σ ε}
    (hn : v.node? ref = some (n.begin u.publisher path .reading content)) :
    (v.closeNode ref).1 = .ok () := by
  cases n with
  | readOnly n => simp [closeNode, hn, Node.begin, ReadOnly.begin, ReadOnly.close]
  | readWrite n => exact (closeNode_readWrite_of_clean hn rfl rfl).1
  | keyStore n =>
      obtain ⟨held, hheld, rfl⟩ := map_eq_ok.mp hp
      cases hf
      obtain ⟨⟨key, hkey⟩, -⟩ := KeyStore.permit_eq_ok hheld
      simp only [Node.begin, KeyStore.begin, hkey] at hn
      exact (closeNode_keyStore hn rfl).1
  | foreign e removals => exact hb.elim

theorem close_openFile_reading {t t' : Tree σ ε} {path : String} {h : Handle} {o : OpenHandle}
    (ht : t.Numbered) (hopen : t.openFile path .reading = (.ok h, t'))
    (ho : t'.handle? h = some o) (hb : ∀ n, t.node? o.node = some n → n.IsBuiltIn) :
    (t'.close h).1 = .ok () := by
  obtain ⟨q, r, opened, -, -, hnode, rfl, rfl⟩ := openFile_eq_ok hopen
  have hnumbered : opened.Numbered := ht.openNode hnode
  rw [handle?_addHandle hnumbered] at ho
  cases ho
  obtain ⟨n, source, fetched, content, hn, hp, hf, rfl⟩ := openNode_eq_ok hnode
  have hbuilt : n.IsBuiltIn := hb n ((node?_noteOverlap t q r.node).symm.trans hn)
  have hkept : fetched.node? r.node = some n := node?_fetch_of_permit hbuilt hn hp hf
  rw [close_addHandle hnumbered]
  exact closeNode_begin_reading hbuilt hp hf (node?_startSession_self hkept q .reading content)

theorem readAll_eq {t t' : Tree σ ε} {path : String} {h : Handle}
    (hopen : t.openFile path .reading = (.ok h, t')) :
    (t.readAll path).1 = firstFault (t'.drain h 0) (t'.close h).1 := by
  unfold readAll
  rw [hopen]

/-- Through a handle of a node that honours the contract of reads, every range is read as it stands
in the content, and the whole content is read as it is. A whole read fails only if the close of the
session does, and that of a built-in node does not. And the built-in nodes honour the contract. -/
theorem read_eq_range {t : Tree σ ε} {h : Handle} {o : OpenHandle} {n : Node σ ε} {content : Bytes}
    (ho : t.handle? h = some o) (hn : t.node? o.node = some n) (hcontract : Honours n.read content)
    (hcontent : content.size ≤ maxOffset) :
    (∀ offset size, offset ≤ maxOffset →
      t.read h offset size = .ok (content.range offset size)) ∧
    (∀ answers offset size, offset ≤ maxOffset → (∀ number, Honours (answers number) content) →
      readWords answers offset size = .ok (content.range offset size)) ∧
    t.drain h 0 = .ok content ∧
    (∀ (before : Tree σ ε) path, before.openFile path .reading = (.ok h, t) →
      (before.readAll path).1 = firstFault (.ok content) (t.close h).1 ∧
      (before.Numbered → (∀ m, before.node? o.node = some m → m.IsBuiltIn) →
        (before.readAll path).1 = .ok content)) ∧
    (∀ (m : Node σ ε) session, m.session? = some session → session.access.read = true →
      Honours m.read session.snapshot) := by
  have hreader : t.reader h = n.reader := by
    unfold reader
    rw [ho]
    dsimp only
    unfold nodeReader
    rw [hn]
  have hshows : ShowsTo (t.reader h).read content maxOffset := by
    rw [hreader]
    exact hcontract.showsTo
  have hdrain : t.drain h 0 = .ok content := by
    rw [drain, hshows.drain hcontent (Nat.zero_le _), Bytes.slice_zero_of_size_le (Nat.le_refl _)]
  refine ⟨?_, ?_, hdrain, ?_, fun m session => Node.honours_snapshot⟩
  · intro offset size hoffset
    rw [read, hshows.upTo hcontent hoffset, Bytes.slice_eq_range]
  · intro answers offset size hoffset hanswers
    exact readWords_eq hanswers hcontent hoffset size
  · intro before path hopen
    have hall := readAll_eq hopen
    rw [hdrain] at hall
    refine ⟨hall, fun hnumbered hb => ?_⟩
    rw [hall, close_openFile_reading hnumbered hopen ho hb]
    rfl

end Tree

/-! ## A node that gives one octet at a time -/

/-- A file whose content comes drop by drop. -/
structure Drip where
  content : Bytes

/-- What a drip gives of a range. -/
def Drip.read (d : Drip) (offset size : Nat) : Bytes := d.content.slice offset (min size 1)

instance : Foreign Drip where
  kind _ := .readOnly
  directory _ := "/dew"
  coversDirectory _ path := path == "/" || path == "/dew"
  matchesFile _ path := path == "/dew/drop"
  children _ path := if path == "/" then ["dew"] else ["drop"]
  isWritable _ _ := false
  size d _ := .ok d.content.size
  resize _ path _ := .error (.unsupported (path ++ " is read-only"))
  permit _ _ _ := .ok ()
  begin d _ _ := d
  read d offset size := .ok (d.read offset size)
  extent d := d.content.size
  read_past := by
    rintro d offset size part ⟨⟩ he
    exact Bytes.slice_eq_empty_of_size_le he _
  write _ _ _ := .error (.unsupported "writing")
  close d := (.ok (), d)
  wake _ := .error (.unsupported "long-poll read")

theorem Drip.honours (d : Drip) :
    Honours (Node.foreign (σ := Unit) d fun _ => []).read d.content := by
  intro offset size _
  have hsize := Bytes.size_slice d.content offset (min size 1)
  refine ⟨d.read offset size, rfl, ?_, ?_⟩
  · apply Bytes.slice_congr
    rw [Drip.read]
    omega
  · rw [Drip.read]
    split <;> omega

namespace Tree

/-- A drip that has been opened. -/
def dawn : Tree Unit Drip :=
  [.register ⟨0⟩, .openFile "/dew/drop" .reading].foldl perform
    (addNode { publisher := () } (.foreign ⟨#[10, 20, 30]⟩ fun _ => [])).2

/-- Three octets come in three reads, but they all come. -/
theorem read_eq_range_dawn :
    dawn.handle? ⟨1⟩ = some ⟨⟨1⟩, ⟨1⟩, ⟨0⟩, "/dew/drop"⟩ ∧
      dawn.node? ⟨0⟩ = some (.foreign ⟨#[10, 20, 30]⟩ fun _ => []) ∧
      dawn.read ⟨1⟩ 1 70000 = .ok #[20, 30] ∧
      dawn.read ⟨1⟩ maxOffset 1 = .ok #[] ∧
      dawn.drain ⟨1⟩ 0 = .ok #[10, 20, 30] := by
  have hhandle : dawn.handle? ⟨1⟩ = some ⟨⟨1⟩, ⟨1⟩, ⟨0⟩, "/dew/drop"⟩ := by decide
  have hnode : dawn.node? ⟨0⟩ = some (.foreign ⟨#[10, 20, 30]⟩ fun _ => []) := rfl
  obtain ⟨hread, -, hdrain, -⟩ :=
    read_eq_range hhandle hnode (Drip.honours ⟨#[10, 20, 30]⟩) (by decide)
  exact ⟨hhandle, hnode, hread 1 70000 (by decide), hread maxOffset 1 (by decide), hdrain⟩

end Tree

end LiveTree
