import LiveTree.Proofs.Ranges

/-!
# What a waiting reader gets

A reader that has waited reads one part of the new content, and goes on behind it only if that part
came back full. A node may give less of a part than it was asked for, though, and then the part falls
short of what is there (`Bytes.IsShort`). So a poll for a range does not always give what a read of
the range gives: it does if the first part does not fall short, and gives that part alone if it does.
It is the same with a poll for the whole content. Only the first part matters: whatever the reads
behind it give, they are read on to the end.

The first part never falls short where the node is a built-in one, since that gives all it is asked
for.
-/

namespace LiveTree

/-- The first part of a range falls short: there was more in the content, and room for it. -/
def Bytes.IsShort (content first : Bytes) (offset size : Nat) : Prop :=
  first.size < min (min size readChunk) (content.size - offset)

instance (content first : Bytes) (offset size : Nat) :
    Decidable (content.IsShort first offset size) :=
  inferInstanceAs (Decidable (_ < _))

/-- A part that falls short is not the range. -/
theorem Bytes.IsShort.ne_range {content first : Bytes} {offset size : Nat}
    (h : content.IsShort first offset size) : first ≠ content.range offset size := by
  rintro rfl
  have hlength := Bytes.size_slice content offset size
  rw [Bytes.slice_eq_range] at hlength
  unfold Bytes.IsShort at h
  omega

/-- Reads a range as a waiting reader does: one part, and what stands behind it if that came back
full. Every read has its number, and is answered as `answers` says; the first has a buffer for one
part, and `buffer` tells how large the one is for what is missing still. -/
def pollLoop (answers : Nat → (offset size : Nat) → Except Fault Bytes) (clip buffer : Nat → Nat)
    (offset size : Nat) : Except Fault Bytes :=
  match answers 0 offset (min size readChunk) with
  | .error fault => .error fault
  | .ok first =>
    if first.size = min size readChunk ∧ first.size < size then
      readLoop answers clip (buffer (size - first.size)) offset size 1 first
    else .ok first

/-- The loop reads the range, unless its first part falls short. -/
theorem pollLoop_eq {answers : Nat → (offset size : Nat) → Except Fault Bytes}
    {clip buffer : Nat → Nat} {content : Bytes} {limit offset : Nat}
    (h : ∀ number, ShowsTo (answers number) content limit) (hclip : ∀ o, o ≤ limit → clip o = o)
    (hbuffer : ∀ missing, 0 < missing → 0 < buffer missing) (hcontent : content.size ≤ limit)
    (hoffset : offset ≤ limit) (size : Nat) :
    ∃ first, answers 0 offset (min size readChunk) = .ok first ∧
      pollLoop answers clip buffer offset size =
        .ok (if content.IsShort first offset size then first else content.range offset size) := by
  obtain ⟨count, hread, hcount, -⟩ := h 0 offset (min size readChunk) hoffset
  have hfirst := Bytes.size_slice content offset count
  refine ⟨_, hread, ?_⟩
  rw [pollLoop, hread, ← Bytes.slice_eq_range]
  dsimp only
  split
  · next hfull =>
    have hlong : ¬ content.IsShort (content.slice offset count) offset size := by
      show ¬ _ < _
      omega
    rw [if_neg hlong]
    apply readLoop_eq h hclip hcontent hoffset
    · omega
    · intro _
      apply hbuffer
      omega
  · next hpart =>
    split
    · rfl
    · next hlong =>
      -- a part that is neither full nor short ends where the content ends, or the range
      replace hlong : ¬ _ < _ := hlong
      congr 1
      apply Bytes.slice_congr
      omega

/-- The loop of a waiting reader on words. -/
def pollWords (answers : Nat → (offset size : Nat) → Except Fault Bytes) (offset size : Nat) :
    Except Fault Bytes :=
  pollLoop answers (min · maxOffset) (min · readChunk) offset size

/-- A session that reads gives its snapshot and nothing else. -/
theorem Honours.eq_snapshot {σ ε : Type} [Foreign ε] {n : Node σ ε} {content : Bytes}
    {session : Session} (h : Honours n.read content) (hcontent : content.size ≤ maxOffset)
    (hs : n.session? = some session) : session.access.read = true ∧ content = session.snapshot := by
  have hread : session.access.read = true := by
    obtain ⟨part, hpart, -⟩ := h 0 0 (Nat.zero_le _)
    rw [Node.read_of_session? hs, Session.read] at hpart
    split at hpart
    · assumption
    · cases hpart
  refine ⟨hread, ?_⟩
  have hthis : n.reader.drain 0 = .ok (content.slice 0 content.size) :=
    ShowsTo.drain (r := n.reader) h.showsTo hcontent (Nat.zero_le _)
  rw [(Node.shows_snapshot hs hread).drain 0, Bytes.slice_zero_of_size_le (Nat.le_refl _),
    Bytes.slice_zero_of_size_le (Nat.le_refl _)] at hthis
  exact (Except.ok.inj hthis).symm

/-- A session gives all that it is asked for. -/
theorem Honours.not_isShort {σ ε : Type} [Foreign ε] {n : Node σ ε} {content first : Bytes}
    {offset size : Nat} (h : Honours n.read content) (hcontent : content.size ≤ maxOffset)
    (hs : n.session?.isSome = true) (hfirst : n.read offset (min size readChunk) = .ok first) :
    ¬ content.IsShort first offset size := by
  obtain ⟨session, hs⟩ := Option.isSome_iff_exists.mp hs
  obtain ⟨hread, rfl⟩ := h.eq_snapshot hcontent hs
  rw [Node.read_of_session? hs, Session.read, if_pos hread] at hfirst
  cases hfirst
  have hlength := Bytes.size_slice session.snapshot offset (min size readChunk)
  show ¬ _ < _
  omega

namespace Tree

variable {σ ε : Type} [Foreign ε] {t t' : Tree σ ε}

/-! ## Through the tree -/

/-- A poll on the node that has begun like this lets its reader through: at once if the node is of a
foreign kind, and if not when it has waited, whatever has been done to the tree meanwhile. The
reader gets `result`, and `t'` is left. -/
inductive LetThrough (t : Tree σ ε) (ref : NodeRef) (start : Poll.Start × Tree σ ε)
    (result : Except Fault Bytes) (t' : Tree σ ε) : Prop where
  | atOnce {e woken : ε} {removals : σ → List NodeId} :
      t.node? ref = some (.foreign e removals) → Foreign.wake e = .ok woken →
      start = (.answered result, t') → LetThrough t ref start result t'
  | waited {p : Poll} {begun later : Tree σ ε} :
      start = (.waiting p, begun) → later.wake? p = some (.ok (), t') →
      later.finish? p = some (result, t') → LetThrough t ref start result t'

/-- A reader that is let through gets what it wants of the content that is there then. -/
theorem LetThrough.result_eq {ref : NodeRef} {goal : Poll.Goal} {result : Except Fault Bytes}
    (h : LetThrough t ref (t.poll ref goal) result t') : result = t'.harvest ref goal := by
  cases h with
  | atOnce hn hwake hstart =>
      simp only [poll, hn, hwake, Prod.mk.injEq, Poll.Start.answered.injEq] at hstart
      obtain ⟨rfl, rfl⟩ := hstart
      rfl
  | @waited p begun later hstart hwake hfinish =>
      have hp : p.node = ref ∧ p.goal = goal := by
        unfold poll at hstart
        split at hstart
        · cases hstart
        · cases hstart
        · cases hstart
        · split at hstart
          · cases hstart
          · cases hstart
            exact ⟨rfl, rfl⟩
        · split at hstart <;> cases hstart
      obtain ⟨rfl, rfl⟩ := hp
      simp only [finish?, hwake, Option.some.injEq, Prod.mk.injEq] at hfinish
      exact hfinish.1.symm

/-- What a range poll gives. -/
theorem readRange_eq {r : Reader} {content : Bytes} (h : ShowsTo r.read content maxOffset)
    (hcontent : content.size ≤ maxOffset) {offset : Nat} (hoffset : offset ≤ maxOffset)
    (size : Nat) :
    ∃ first, r.read offset (min size readChunk) = .ok first ∧
      readRange r offset size =
        .ok (if content.IsShort first offset size then first else content.range offset size) := by
  have hloop : readRange r offset size =
      pollLoop (fun _ => r.read) id (fun _ => readChunk) offset size := by
    unfold readRange pollLoop
    rcases hfirst : r.read offset (min size readChunk) with fault | first
    · simp only [hfirst]
    · simp only [hfirst, Reader.upTo_eq_readLoop r offset size 1]
  rw [hloop]
  exact pollLoop_eq (fun _ => h) (fun _ _ => rfl) (fun _ _ => by decide) hcontent hoffset size

/-- What a poll for the whole content gives. -/
theorem readWhole_eq {r : Reader} {h : Handle} {content : Bytes}
    (hshows : ShowsTo r.read content maxOffset) (hcontent : content.size ≤ maxOffset)
    (hr : t.reader h = r) :
    ∃ first, r.read 0 readChunk = .ok first ∧
      readWhole r t h = .ok (if content.IsShort first 0 readChunk then first else content) := by
  obtain ⟨first, hfirst, hrange⟩ := readRange_eq hshows hcontent (Nat.zero_le _) readChunk
  rw [Nat.min_self] at hfirst
  refine ⟨first, hfirst, ?_⟩
  unfold readWhole
  rw [hrange]
  dsimp only
  by_cases hshort : content.IsShort first 0 readChunk
  · have hless : first.size < readChunk := by
      unfold Bytes.IsShort at hshort
      omega
    rw [if_pos hshort, if_pos hless, if_pos hshort]
  · rw [if_neg hshort, if_neg hshort, ← Bytes.slice_eq_range]
    have hlength := Bytes.size_slice content 0 readChunk
    split
    · congr 1
      apply Bytes.slice_zero_of_size_le
      omega
    · next hfull =>
      have hposition : (content.slice 0 readChunk).size ≤ maxOffset := by omega
      have hfront := Bytes.slice_zero_append (Bytes.slice_zero_size content readChunk) content.size
      rw [drain, hr, hshows.drain hcontent hposition]
      show Except.ok (content.slice 0 readChunk ++ _) = _
      rw [hfront, Bytes.slice_zero_of_size_le (Nat.le_add_left _ _)]

/-- A poll for a range, of a node that honours the contract of reads, gives what a read of the range
gives if the first part does not fall short, and that part alone if it does. A poll for the whole
content gives all of it if the first part does not fall short, and that part alone if it does. So it
is whatever each single read gives, and on words. The first part never falls short where the node
has a session, as a built-in one has. -/
theorem longPoll_eq_first_or_range {h : Handle} {o : OpenHandle} {n : Node σ ε} {content : Bytes}
    (ho : t.handle? h = some o) (ho' : t'.handle? h = some o) (hn : t'.node? o.node = some n)
    (hcontract : Honours n.read content) (hcontent : content.size ≤ maxOffset) :
    (∀ offset size result, offset ≤ maxOffset →
      LetThrough t o.node (t.longPoll h offset size) result t' →
      ∃ first, n.read offset (min size readChunk) = .ok first ∧
        result = .ok (if content.IsShort first offset size then first
          else content.range offset size) ∧
        t'.read h offset size = .ok (content.range offset size) ∧
        (result = t'.read h offset size ↔ ¬ content.IsShort first offset size)) ∧
    (∀ result, LetThrough t o.node (t.longPollAll h) result t' →
      ∃ first, n.read 0 readChunk = .ok first ∧
        result = .ok (if content.IsShort first 0 readChunk then first else content) ∧
        t'.drain h 0 = .ok content ∧
        (result = .ok content ↔ ¬ content.IsShort first 0 readChunk)) ∧
    (∀ answers offset size, offset ≤ maxOffset → (∀ number, Honours (answers number) content) →
      ∃ first, answers 0 offset (min size readChunk) = .ok first ∧
        pollWords answers offset size = .ok (if content.IsShort first offset size then first
          else content.range offset size)) ∧
    (n.session?.isSome = true → ∀ offset size first,
      n.read offset (min size readChunk) = .ok first → ¬ content.IsShort first offset size) := by
  have hreader : t'.reader h = n.reader := by simp only [reader, ho', nodeReader, hn]
  have hshows : ShowsTo (t'.reader h).read content maxOffset := by
    rw [hreader]
    exact hcontract.showsTo
  have hnode : t'.nodeReader o.node = t'.reader h := by simp only [reader, ho']
  refine ⟨?_, ?_, ?_, fun hs offset size first => hcontract.not_isShort hcontent hs⟩
  · intro offset size result hoffset hlet
    have hread : t'.read h offset size = .ok (content.range offset size) := by
      rw [read, hshows.upTo hcontent hoffset, Bytes.slice_eq_range]
    have hpoll : t.longPoll h offset size = t.poll o.node (.range offset size) := by
      simp only [longPoll, ho]
    rw [hpoll] at hlet
    obtain ⟨first, hfirst, hrange⟩ := readRange_eq hshows hcontent hoffset size
    have hresult := hlet.result_eq
    rw [harvest, hnode, hrange] at hresult
    rw [hreader] at hfirst
    refine ⟨first, hfirst, hresult, hread, ?_⟩
    rw [hresult, hread]
    split
    · next hshort => simp [hshort, hshort.ne_range]
    · next hlong => simp [hlong]
  · intro result hlet
    have hpoll : t.longPollAll h = t.poll o.node (.whole h) := by simp only [longPollAll, ho]
    rw [hpoll] at hlet
    obtain ⟨first, hfirst, hwhole⟩ := readWhole_eq hshows hcontent rfl
    have hresult := hlet.result_eq
    rw [harvest, hnode, hwhole] at hresult
    have hdrain : t'.drain h 0 = .ok content := by
      rw [drain, hshows.drain hcontent (Nat.zero_le _), Bytes.slice_zero_of_size_le (Nat.le_refl _)]
    rw [hreader] at hfirst
    refine ⟨first, hfirst, hresult, hdrain, ?_⟩
    rw [hresult]
    split
    · next hshort =>
      have hne : first ≠ content := by
        rintro rfl
        unfold Bytes.IsShort at hshort
        omega
      simp [hshort, hne]
    · next hlong => simp [hlong]
  · intro answers offset size hoffset hanswers
    apply pollLoop_eq (fun number => (hanswers number).showsTo)
    · exact fun o => Nat.min_eq_left
    · intro missing hmissing
      have hchunk : 0 < readChunk := by decide
      show 0 < min missing readChunk
      omega
    · exact hcontent
    · exact hoffset

end Tree

/-! ## A node that gives three octets at a time -/

/-- A file that drips, and whose content changes when somebody waits for it. -/
structure Tap where
  content : Bytes
  next : Bytes

/-- What a tap gives of a range. -/
def Tap.read (tap : Tap) (offset size : Nat) : Bytes := tap.content.slice offset (min size 3)

instance : Foreign Tap where
  kind _ := .readOnly
  directory _ := "/sink"
  coversDirectory _ path := path == "/" || path == "/sink"
  matchesFile _ path := path == "/sink/tap"
  children _ path := if path == "/" then ["sink"] else ["tap"]
  isWritable _ _ := false
  size tap _ := .ok tap.content.size
  resize _ path _ := .error (.unsupported (path ++ " is read-only"))
  permit _ _ _ := .ok ()
  begin tap _ _ := tap
  read tap offset size := .ok (tap.read offset size)
  extent tap := tap.content.size
  read_past := by
    rintro tap offset size part ⟨⟩ he
    exact Bytes.slice_eq_empty_of_size_le he _
  write _ _ _ := .error (.unsupported "writing")
  close tap := (.ok (), tap)
  wake tap := .ok { tap with content := tap.next }

theorem Tap.honours (tap : Tap) :
    Honours (Node.foreign (σ := Unit) tap fun _ => []).read tap.content := by
  intro offset size _
  have hsize := Bytes.size_slice tap.content offset (min size 3)
  refine ⟨tap.read offset size, rfl, ?_, ?_⟩
  · apply Bytes.slice_congr
    rw [Tap.read]
    omega
  · rw [Tap.read]
    split <;> omega

namespace Tree

/-- A tap that has been opened. -/
def kitchen : Tree Unit Tap :=
  [.register ⟨0⟩, .openFile "/sink/tap" .reading].foldl perform
    (addNode { publisher := () } (.foreign ⟨#[1, 2], #[10, 20, 30, 40, 50]⟩ fun _ => [])).2

/-- The same with the content that was waited for. -/
def kitchenAfter : Tree Unit Tap :=
  kitchen.setNode ⟨0⟩
    (.foreign ⟨#[10, 20, 30, 40, 50], #[10, 20, 30, 40, 50]⟩ fun _ => [])

/-- Of five new octets a poll gives three, where a read gives all of them. -/
theorem longPoll_eq_first_or_range_kitchen :
    LetThrough kitchen ⟨0⟩ (kitchen.longPoll ⟨1⟩ 0 5) (.ok #[10, 20, 30]) kitchenAfter ∧
      kitchenAfter.read ⟨1⟩ 0 5 = .ok #[10, 20, 30, 40, 50] ∧
      LetThrough kitchen ⟨0⟩ (kitchen.longPollAll ⟨1⟩) (.ok #[10, 20, 30]) kitchenAfter := by
  have ho : kitchen.handle? ⟨1⟩ = some ⟨⟨1⟩, ⟨1⟩, ⟨0⟩, "/sink/tap"⟩ := by decide
  have ho' : kitchenAfter.handle? ⟨1⟩ = some ⟨⟨1⟩, ⟨1⟩, ⟨0⟩, "/sink/tap"⟩ := by decide
  have hn : kitchenAfter.node? ⟨0⟩ =
      some (.foreign ⟨#[10, 20, 30, 40, 50], #[10, 20, 30, 40, 50]⟩ fun _ => []) := rfl
  obtain ⟨hrange, hwhole, -, -⟩ :=
    longPoll_eq_first_or_range ho ho' hn (Tap.honours _) (by decide)
  obtain ⟨ranged, hranged⟩ :
      ∃ result, kitchen.longPoll ⟨1⟩ 0 5 = (.answered result, kitchenAfter) := ⟨_, rfl⟩
  obtain ⟨whole, hall⟩ :
      ∃ result, kitchen.longPollAll ⟨1⟩ = (.answered result, kitchenAfter) := ⟨_, rfl⟩
  have hletRange : LetThrough kitchen ⟨0⟩ (kitchen.longPoll ⟨1⟩ 0 5) ranged kitchenAfter :=
    .atOnce rfl rfl hranged
  have hletWhole : LetThrough kitchen ⟨0⟩ (kitchen.longPollAll ⟨1⟩) whole kitchenAfter :=
    .atOnce rfl rfl hall
  obtain ⟨first, hfirst, rfl, hread, -⟩ := hrange 0 5 ranged (by decide) hletRange
  obtain ⟨first', hfirst', rfl, -⟩ := hwhole whole hletWhole
  have hthree : (#[10, 20, 30] : Bytes) = first := Except.ok.inj hfirst
  have hthree' : (#[10, 20, 30] : Bytes) = first' := Except.ok.inj hfirst'
  subst hthree
  subst hthree'
  rw [if_pos (by decide)] at hletRange hletWhole
  exact ⟨hletRange, hread, hletWhole⟩

end Tree

end LiveTree
