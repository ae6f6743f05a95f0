import LiveTree.Proofs.Books

/-!
# Reading on

Whole contents are put together out of reads that may each come back short. It is enough that a
reader *shows* a content: what a read gives stands there in the content, and is not nothing where
there is something (`Reader.Shows`), at least at all offsets up to a limit that the content does not
reach beyond (`ShowsTo`). Then a range read by `upTo` is that range (`ShowsTo.upTo`), and `drain`
reads all that is left (`ShowsTo.drain`), also where the content ends just where a read does. A
session that reads shows its snapshot (`Node.shows_snapshot`).

The range is the same whatever each single read gives, and however large the buffer is that a read
fills: this is shown for `readLoop`, of which `upTo` is one instance.
-/

namespace LiveTree

namespace Bytes

variable {content : Bytes} {offset : Nat}

/-- Parts that stand one behind the other are one part. -/
theorem slice_append (content : Bytes) (offset size more : Nat) :
    content.slice offset size ++ content.slice (offset + (content.slice offset size).size) more =
      content.slice offset ((content.slice offset size).size + more) := by
  apply Array.ext
  · simp only [Array.size_append, size_slice]
    omega
  · intro i h h'
    simp only [Array.size_append, size_slice] at h h'
    simp only [slice, Array.getElem_append, Array.size_extract, Array.getElem_extract]
    split
    · rfl
    · congr 1
      omega

/-- Of a part only what is there matters. -/
theorem slice_congr {size size' : Nat}
    (h : min size (content.size - offset) = min size' (content.size - offset)) :
    content.slice offset size = content.slice offset size' := by
  apply Array.ext
  · rw [size_slice, size_slice, h]
  · intro i _ _
    simp only [slice, Array.getElem_extract]

theorem slice_zero_of_size_le {size : Nat} (h : content.size ≤ size) :
    content.slice 0 size = content := by
  apply Array.ext
  · rw [size_slice]
    omega
  · intro i _ _
    simp only [slice, Array.getElem_extract]
    congr 1
    omega

/-- What stands at the front of a content is as long as it is. -/
theorem slice_zero_size (content : Bytes) (size : Nat) :
    content.slice 0 size = content.slice 0 (content.slice 0 size).size := by
  apply slice_congr
  rw [size_slice]
  omega

/-- A part behind what stands at the front stands at the front with it. -/
theorem slice_zero_append {content got : Bytes} (h : got = content.slice 0 got.size)
    (size : Nat) : got ++ content.slice got.size size = content.slice 0 (got.size + size) := by
  have hjoined := slice_append content 0 got.size size
  rwa [← h, Nat.zero_add] at hjoined

end Bytes

namespace Reader

/-- One range is read, and if it is not empty it is drained on behind it. -/
theorem drainOnto_eq (r : Reader) (got : Bytes) (position : Nat) :
    r.drainOnto got position = match r.upTo position readChunk #[] with
      | .error fault => .error fault
      | .ok part =>
        if part.size = 0 then .ok got else r.drainOnto (got ++ part) (position + part.size) := by
  rw [drainOnto]
  split
  · next hread => rw [hread]
  · next hread =>
    rw [hread]
    dsimp only
    split <;> rfl

/-- What is drained stands behind what there was before. -/
theorem drainOnto_append (r : Reader) (front got : Bytes) (position : Nat) :
    r.drainOnto (front ++ got) position = (r.drainOnto got position).map (front ++ ·) := by
  induction got, position using Reader.drainOnto.induct r with
  | case1 got position fault hread =>
      rw [drainOnto_eq, drainOnto_eq, hread]
      rfl
  | case2 got position part hread hend =>
      rw [drainOnto_eq, drainOnto_eq, hread]
      simp only [hend, if_true]
      rfl
  | case3 got position part hread hmore ih =>
      rw [drainOnto_eq, drainOnto_eq, hread]
      simp only [hmore, if_false]
      rw [Array.append_assoc, ih]

/-- A read gives octets of the content from the offset on, no more than asked for, and at least one
if one was asked for and there is one. -/
def Shows (r : Reader) (content : Bytes) : Prop :=
  ∀ offset size, ∃ count, r.read offset size = .ok (content.slice offset count) ∧
    count ≤ size ∧ (offset < content.size → 0 < size → 0 < count)

end Reader

/-! ## The loop of a range read -/

/-- Reads on at `offset` behind `got`, until there are `want` octets or nothing more comes. Every
read has its number, and is answered as `answers` says; its offset is what `clip` makes of it, and
it fills a buffer of at most `buffer` octets. -/
def readLoop (answers : Nat → (offset size : Nat) → Except Fault Bytes) (clip : Nat → Nat)
    (buffer offset want number : Nat) (got : Bytes) : Except Fault Bytes :=
  match answers number (clip (offset + got.size)) (min (want - got.size) buffer) with
  | .error fault => .error fault
  | .ok part =>
    if _h : part.size = 0 ∨ want ≤ got.size + part.size then .ok (got ++ part)
    else readLoop answers clip buffer offset want (number + 1) (got ++ part)
termination_by want - got.size
decreasing_by
  simp only [not_or, Nat.not_le, Array.size_append] at _h ⊢
  omega

/-- Reads at offsets up to `limit` show the content. -/
def ShowsTo (read : (offset size : Nat) → Except Fault Bytes) (content : Bytes) (limit : Nat) :
    Prop :=
  ∀ offset size, offset ≤ limit → ∃ count, read offset size = .ok (content.slice offset count) ∧
    count ≤ size ∧ (offset < content.size → 0 < size → 0 < count)

/-- Behind a part of a range, the rest of the range is read. -/
theorem readLoop_eq {answers : Nat → (offset size : Nat) → Except Fault Bytes} {clip : Nat → Nat}
    {content : Bytes} {limit buffer offset want : Nat}
    (h : ∀ number, ShowsTo (answers number) content limit) (hclip : ∀ o, o ≤ limit → clip o = o)
    (hcontent : content.size ≤ limit) (hoffset : offset ≤ limit) (number size : Nat)
    (hsize : (content.slice offset size).size ≤ want)
    (hbuffer : (content.slice offset size).size < want → 0 < buffer) :
    readLoop answers clip buffer offset want number (content.slice offset size) =
      .ok (content.slice offset want) := by
  -- on how much is wanted still: a read that gives nothing or enough ends, any other gives some
  induction hleft : want - (content.slice offset size).size using Nat.strongRecOn
    generalizing size number with
  | ind left ih =>
    have hgot := Bytes.size_slice content offset size
    -- behind what has been read the content goes on, so no offset reaches the limit
    have hplace : offset + (content.slice offset size).size ≤ limit := by omega
    obtain ⟨count, hread, hcount, hsome⟩ := h number
      (offset + (content.slice offset size).size)
      (min (want - (content.slice offset size).size) buffer) hplace
    have hpart := Bytes.size_slice content (offset + (content.slice offset size).size) count
    rw [readLoop, hclip _ hplace, hread]
    dsimp only
    rw [Bytes.slice_append]
    split
    · next hend =>
      congr 1
      apply Bytes.slice_congr
      omega
    · next hmore =>
      have hnext := Bytes.size_slice content offset
        ((content.slice offset size).size + count)
      apply ih _ _ _ _ _ _ rfl
      all_goals omega

namespace Reader

variable {r : Reader} {content : Bytes} {limit : Nat}

theorem upTo_eq_readLoop (r : Reader) (offset want number : Nat) (got : Bytes) :
    r.upTo offset want got = readLoop (fun _ => r.read) id readChunk offset want number got := by
  induction got using Reader.upTo.induct r offset want generalizing number with
  | case1 got fault hread =>
      rw [upTo, readLoop]
      simp only [id, hread]
  | case2 got part hread hend =>
      rw [upTo, readLoop]
      simp only [id, hread, hend, dif_pos]
  | case3 got part hread hmore ih =>
      rw [upTo, readLoop]
      simp only [id, hread, hmore, dif_neg, not_false_eq_true]
      exact ih (number + 1)

theorem Shows.showsTo (h : r.Shows content) (limit : Nat) : ShowsTo r.read content limit :=
  fun offset size _ => h offset size

end Reader

namespace ShowsTo

variable {r : Reader} {content : Bytes} {limit offset : Nat}

/-- A range of the content is read, as far as the content goes. -/
theorem upTo (h : ShowsTo r.read content limit) (hcontent : content.size ≤ limit)
    (hoffset : offset ≤ limit) (want : Nat) :
    r.upTo offset want #[] = .ok (content.slice offset want) := by
  have hnothing : content.slice offset 0 = #[] :=
    Array.eq_empty_of_size_eq_zero (by rw [Bytes.size_slice]; omega)
  rw [Reader.upTo_eq_readLoop r offset want 0, ← hnothing]
  apply readLoop_eq (fun _ => h) (fun _ _ => rfl) hcontent hoffset
  · rw [Bytes.size_slice]
    omega
  · exact fun _ => by decide

/-- Behind the first part of a rest, the whole rest is read. -/
theorem drainOnto (h : ShowsTo r.read content limit) (hcontent : content.size ≤ limit)
    (hoffset : offset ≤ limit) (size : Nat) :
    r.drainOnto (content.slice offset size) (offset + (content.slice offset size).size) =
      .ok (content.slice offset content.size) := by
  -- on what is left of the content: a range that is not empty leaves less
  induction hleft : content.size - (offset + (content.slice offset size).size)
    using Nat.strongRecOn generalizing size with
  | ind left ih =>
    have hgot := Bytes.size_slice content offset size
    have hplace : offset + (content.slice offset size).size ≤ limit := by omega
    have hchunk : 0 < readChunk := by decide
    have hpart := Bytes.size_slice content (offset + (content.slice offset size).size) readChunk
    have hall := Bytes.size_slice content offset ((content.slice offset size).size + readChunk)
    rw [Reader.drainOnto_eq, h.upTo hcontent hplace]
    dsimp only
    generalize readChunk = chunk at hchunk hpart hall ⊢
    split
    · next hend =>
      congr 1
      apply Bytes.slice_congr
      omega
    · next hmore =>
      have hjoined := Bytes.slice_append content offset size chunk
      have hsize := congrArg Array.size hjoined
      rw [Array.size_append] at hsize
      rw [hjoined, Nat.add_assoc, hsize]
      apply ih _ _ _ rfl
      omega

/-- All that stands at and behind a position is read. -/
theorem drain (h : ShowsTo r.read content limit) (hcontent : content.size ≤ limit)
    (hoffset : offset ≤ limit) : r.drain offset = .ok (content.slice offset content.size) := by
  have hnothing : content.slice offset 0 = #[] :=
    Array.eq_empty_of_size_eq_zero (by rw [Bytes.size_slice]; omega)
  have hdrain : r.drainOnto (content.slice offset 0)
      (offset + (content.slice offset 0).size) = _ := h.drainOnto hcontent hoffset 0
  rwa [hnothing] at hdrain

end ShowsTo

namespace Reader

variable {r : Reader} {content : Bytes}

theorem Shows.upTo (h : r.Shows content) (offset want : Nat) :
    r.upTo offset want #[] = .ok (content.slice offset want) :=
  (h.showsTo (max offset content.size)).upTo (Nat.le_max_right _ _) (Nat.le_max_left _ _) want

theorem Shows.upTo_onto (h : r.Shows content) {offset want : Nat} (size : Nat)
    (hsize : (content.slice offset size).size ≤ want) :
    r.upTo offset want (content.slice offset size) = .ok (content.slice offset want) := by
  rw [upTo_eq_readLoop r offset want 0]
  exact readLoop_eq (fun _ => h.showsTo (max offset content.size)) (fun _ _ => rfl)
    (Nat.le_max_right _ _) (Nat.le_max_left _ _) 0 size hsize fun _ => by decide

theorem Shows.drainOnto (h : r.Shows content) {offset : Nat} (size : Nat) :
    r.drainOnto (content.slice offset size) (offset + (content.slice offset size).size) =
      .ok (content.slice offset content.size) :=
  (h.showsTo (max offset content.size)).drainOnto (Nat.le_max_right _ _) (Nat.le_max_left _ _) size

theorem Shows.drain (h : r.Shows content) (position : Nat) :
    r.drain position = .ok (content.slice position content.size) :=
  (h.showsTo (max position content.size)).drain (Nat.le_max_right _ _) (Nat.le_max_left _ _)

end Reader

/-! ## Sessions -/

/-- Reads go to the session. -/
theorem Node.read_of_session? {σ ε : Type} [Foreign ε] {n : Node σ ε} {session : Session}
    (h : n.session? = some session) (offset size : Nat) :
    n.read offset size = session.read offset size := by
  cases n with
  | readOnly n =>
      have hs : n.session = some session := h
      simp [Node.read, ReadOnly.read, hs]
  | readWrite n =>
      obtain ⟨live, hs, rfl⟩ := Option.map_eq_some_iff.mp h
      simp [Node.read, ReadWrite.read, hs]
  | keyStore n =>
      obtain ⟨live, hs, rfl⟩ := Option.map_eq_some_iff.mp h
      simp [Node.read, KeyStore.read, hs]
  | foreign e removals => cases h

/-- A session that may read shows its snapshot, whatever else it has done. -/
theorem Node.shows_snapshot {σ ε : Type} [Foreign ε] {n : Node σ ε} {session : Session}
    (h : n.session? = some session) (hread : session.access.read = true) :
    n.reader.Shows session.snapshot := by
  intro offset size
  refine ⟨size, ?_, Nat.le_refl _, fun _ hsize => hsize⟩
  show n.read offset size = _
  rw [read_of_session? h, Session.read, if_pos hread]

end LiveTree
