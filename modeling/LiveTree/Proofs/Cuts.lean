import LiveTree.Proofs.Octets
import LiveTree.Proofs.Paths

/-!
# Where paths are cut

The parts of a path can be cut out of its octets: look for a slash, or pass over an ancestor, and
cut there. A text can only be cut between two characters. In the middle of one, or beyond the end,
there is nothing to be had (`cut?_eq_some_iff`).

This module has the operations on paths in this form. The outer `none` of their results tells that a
cut failed, and it never occurs where paths are canonical: `parent`, `fileName` and
`isAncestorOrSelf` can be had by cuts from every text (`cutParent_eq`, `cutFileName_eq`,
`cutIsAncestorOrSelf_eq`), and `nextComponent` from every text that begins with a slash
(`cutNextComponent_eq`).
-/

namespace LiveTree.Path

/-! ## Cuts -/

/-- The two parts of `text` before its octet `i` and from there on. There are none if `i` lies
beyond the end or within a character. -/
def cut? (text : String) (i : Nat) : Option (String × String) :=
  if h : String.Pos.Raw.isValid text ⟨i⟩ = true then
    let p : text.Pos := ⟨⟨i⟩, String.Pos.Raw.isValid_eq_true_iff.mp h⟩
    some ((text.sliceTo p).copy, (text.sliceFrom p).copy)
  else none

theorem cut?_eq_some_iff {text front back : String} {i : Nat} :
    cut? text i = some (front, back) ↔
      text = front ++ back ∧ i = (Bytes.octetsOf front).length := by
  rw [Bytes.length_octetsOf]
  unfold cut?
  split
  · next h =>
    have hsplits := String.Pos.splits ⟨⟨i⟩, String.Pos.Raw.isValid_eq_true_iff.mp h⟩
    constructor
    · intro he
      cases he
      exact ⟨hsplits.eq_append, congrArg String.Pos.Raw.byteIdx hsplits.offset_eq_rawEndPos⟩
    · rintro ⟨htext, hi⟩
      obtain ⟨rfl, rfl⟩ := hsplits.eq ⟨htext, congrArg String.Pos.Raw.mk hi⟩
      rfl
  · next h =>
    constructor
    · intro he
      cases he
    · rintro ⟨htext, rfl⟩
      refine absurd (String.Pos.Raw.isValid_eq_true_iff.mpr ?_) h
      exact String.Pos.Raw.isValid_iff_exists_append.mpr ⟨front, back, htext, rfl⟩

theorem cut?_append (front back : String) :
    cut? (front ++ back) (Bytes.octetsOf front).length = some (front, back) :=
  cut?_eq_some_iff.mpr ⟨rfl, rfl⟩

example : cut? "né" 1 = some ("n", "é") ∧ cut? "né" 2 = none ∧ cut? "né" 4 = none := by decide

/-! ## Octets of paths -/

/-- The octet of a slash. -/
def slash : UInt8 := 0x2F

theorem octetsOf_slash : Bytes.octetsOf "/" = [slash] := by decide

/-- The octet of a slash stands for nothing else. -/
theorem ne_slash_of_mem_octetsOf {s : String} (h : '/' ∉ s.toList) :
    ∀ b ∈ Bytes.octetsOf s, (b != slash) = true := by
  intro b hb
  refine bne_iff_ne.mpr ?_
  rintro rfl
  exact h (Bytes.mem_toList_of_mem_octetsOf (by decide) hb)

/-- Whether the octets of `text` begin with those of `front`. -/
def begins (front text : String) : Bool :=
  (Bytes.octetsOf front).isPrefixOf (Bytes.octetsOf text)

theorem begins_iff {front text : String} :
    begins front text = true ↔ ∃ rest, text = front ++ rest := by
  rw [begins, List.isPrefixOf_iff_prefix, Bytes.octetsOf_prefix_iff]

/-- The octet at which the last piece of `path` begins. -/
def nameStart (path : String) : Nat :=
  ((Bytes.octetsOf path).reverse.dropWhile (· != slash)).length

/-- The octet at which the first piece of `text` ends. -/
def pieceEnd (text : String) : Nat := ((Bytes.octetsOf text).takeWhile (· != slash)).length

/-- The last piece begins behind the octets before it. -/
theorem nameStart_append {front name : String} (h : '/' ∉ name.toList)
    (hfront : front = "" ∨ ∃ dir, front = dir ++ "/") :
    nameStart (front ++ name) = (Bytes.octetsOf front).length := by
  have hname : ∀ b ∈ (Bytes.octetsOf name).reverse, (b != slash) = true := fun b hb =>
    ne_slash_of_mem_octetsOf h b (List.mem_reverse.mp hb)
  rw [nameStart, Bytes.octetsOf_append, List.reverse_append, List.dropWhile_append_of_pos hname]
  rcases hfront with rfl | ⟨dir, rfl⟩
  · rfl
  · rw [Bytes.octetsOf_append, octetsOf_slash, List.reverse_append]
    show (slash :: (Bytes.octetsOf dir).reverse).length = _
    simp

/-- The first piece ends with its octets. -/
theorem pieceEnd_append {piece back : String} (h : '/' ∉ piece.toList)
    (hback : back = "" ∨ ∃ rest, back = "/" ++ rest) :
    pieceEnd (piece ++ back) = (Bytes.octetsOf piece).length := by
  rw [pieceEnd, Bytes.octetsOf_append, List.takeWhile_append_of_pos (ne_slash_of_mem_octetsOf h)]
  rcases hback with rfl | ⟨rest, rfl⟩
  · simp [Bytes.octetsOf]
  · rw [Bytes.octetsOf_append, octetsOf_slash]
    show (Bytes.octetsOf piece ++ []).length = _
    rw [List.append_nil]

/-! ## Texts in pieces -/

/-- Every text is a last piece and what stands before it: nothing, or a part with its slash. -/
theorem exists_last_piece (path : String) :
    ∃ front name, path = front ++ name ∧ '/' ∉ name.toList ∧
      (front = "" ∨ ∃ dir, front = dir ++ "/") := by
  by_cases h : '/' ∈ path.toList
  · -- the last slash is the first one from behind
    obtain ⟨name, dir, hsplit, hname⟩ := List.eq_append_cons_of_mem (List.mem_reverse.mpr h)
    refine ⟨String.ofList dir.reverse ++ "/", String.ofList name.reverse, ?_, by simpa using hname,
      .inr ⟨_, rfl⟩⟩
    apply String.toList_injective
    rw [← List.reverse_reverse path.toList, hsplit]
    simp
  · exact ⟨"", path, String.empty_append.symm, h, .inl rfl⟩

/-- Every text is a first piece and what follows it: nothing, or a part behind a slash. -/
theorem exists_first_piece (text : String) :
    ∃ piece back, text = piece ++ back ∧ '/' ∉ piece.toList ∧
      (back = "" ∨ ∃ rest, back = "/" ++ rest) := by
  by_cases h : '/' ∈ text.toList
  · obtain ⟨piece, rest, hsplit, hpiece⟩ := List.eq_append_cons_of_mem h
    refine ⟨String.ofList piece, "/" ++ String.ofList rest, ?_, by simpa using hpiece,
      .inr ⟨_, rfl⟩⟩
    apply String.toList_injective
    rw [hsplit]
    simp
  · exact ⟨text, "", String.append_empty.symm, h, .inl rfl⟩

/-! ## Parts -/

/-- The parent of `path`, cut off before the last slash. -/
def cutParent (path : String) : Option (Option String) :=
  if path == "/" then some none
  else match nameStart path with
    | 0 => some none
    | 1 => some (some "/")
    | i + 1 => (cut? path i).map fun parts => some parts.1

/-- The last segment of `path`, cut off behind the last slash. -/
def cutFileName (path : String) : Option (Option String) :=
  if path == "/" then some none
  else (cut? path (nameStart path)).map fun parts => (some parts.2).filter (· != "")

/-- The parent of any text can be cut off. -/
theorem cutParent_eq (path : String) : cutParent path = some (parent path) := by
  by_cases hroot : path = "/"
  · rw [hroot]
    rfl
  · obtain ⟨front, name, rfl, hname, hfront⟩ := exists_last_piece path
    rw [cutParent, if_neg (by simpa using hroot), nameStart_append hname hfront]
    rcases hfront with rfl | ⟨dir, rfl⟩
    · rw [String.empty_append, parent_of_not_mem hname]
      rfl
    · rw [parent_append hname hroot, Bytes.octetsOf_append, octetsOf_slash, List.length_append]
      by_cases hdir : dir = ""
      · rw [if_pos hdir, hdir]
        rfl
      · -- the slash is not the first octet, and the text is cut before it
        have hne : Bytes.octetsOf dir ≠ [] := fun hnil => hdir (Bytes.octetsOf_injective hnil)
        obtain ⟨b, octets, hoctets⟩ := List.exists_cons_of_ne_nil hne
        have hcut : cut? (dir ++ "/" ++ name) (octets.length + 1) = some (dir, "/" ++ name) :=
          cut?_eq_some_iff.mpr ⟨String.append_assoc, by rw [hoctets]; rfl⟩
        rw [if_neg hdir, hoctets]
        show (cut? (dir ++ "/" ++ name) (octets.length + 1)).map _ = _
        rw [hcut]
        rfl

/-- The last segment of any text can be cut off. -/
theorem cutFileName_eq (path : String) : cutFileName path = some (fileName path) := by
  by_cases hroot : path = "/"
  · rw [hroot]
    rfl
  · obtain ⟨front, name, rfl, hname, hfront⟩ := exists_last_piece path
    rw [cutFileName, if_neg (by simpa using hroot), nameStart_append hname hfront, cut?_append,
      fileName_append hname hfront hroot]
    rfl

/-! ## Order -/

/-- Whether `ancestor` is `path` or lies above it: what begins with its octets is cut behind
them. -/
def cutIsAncestorOrSelf (ancestor path : String) : Option Bool :=
  if ancestor == "/" || ancestor == path then some true
  else if begins ancestor path then
    (cut? path (Bytes.octetsOf ancestor).length).map fun parts => begins "/" parts.2
  else some false

/-- The piece of `text` that begins at its octet `i`, cut off before the next slash. -/
def cutPiece (text : String) (i : Nat) : Option (Option String) := do
  let (_, rest) ← cut? text i
  let (piece, _) ← cut? rest (pieceEnd rest)
  return (some piece).filter (· != "")

/-- The segment below `ancestor`, cut out behind the slash that follows it. -/
def cutNextComponent (ancestor descendant : String) : Option (Option String) := do
  let above ← cutIsAncestorOrSelf ancestor descendant
  if ancestor == descendant || !above then return none
  cutPiece descendant (if ancestor == "/" then 1 else (Bytes.octetsOf ancestor).length + 1)

/-- Whether a text lies above another one can be told by one cut. -/
theorem cutIsAncestorOrSelf_eq (ancestor path : String) :
    cutIsAncestorOrSelf ancestor path = some (isAncestorOrSelf ancestor path) := by
  by_cases hsame : ancestor = "/" ∨ ancestor = path
  · rw [cutIsAncestorOrSelf, if_pos (by simpa using hsame),
      isAncestorOrSelf_iff.mpr (hsame.imp_right .inl)]
  · obtain ⟨hroot, hself⟩ := not_or.mp hsame
    rw [cutIsAncestorOrSelf, if_neg (by simp [hroot, hself])]
    by_cases hbegins : ∃ rest, path = ancestor ++ rest
    · rw [if_pos (begins_iff.mpr hbegins)]
      obtain ⟨rest, rfl⟩ := hbegins
      have hrest : begins "/" rest = true ↔
          isAncestorOrSelf ancestor (ancestor ++ rest) = true := by
        rw [begins_iff, isAncestorOrSelf_iff]
        simp [hroot, hself, String.append_assoc]
      rw [cut?_append, ← Bool.eq_iff_iff.mpr hrest]
      rfl
    · have hnot : ¬ isAncestorOrSelf ancestor path = true := by
        rw [isAncestorOrSelf_iff]
        rintro (h | h | ⟨rest, hrest⟩)
        · exact hroot h
        · exact hself h
        · exact hbegins ⟨"/" ++ rest, by rw [hrest, String.append_assoc]⟩
      rw [if_neg (mt begins_iff.mp hbegins), Bool.eq_false_iff.mpr hnot]

theorem cutPiece_append (front : String) {piece back : String} (h : '/' ∉ piece.toList)
    (hback : back = "" ∨ ∃ rest, back = "/" ++ rest) :
    cutPiece (front ++ (piece ++ back)) (Bytes.octetsOf front).length =
      some ((some piece).filter (· != "")) := by
  rw [cutPiece, cut?_append]
  show (cut? (piece ++ back) (pieceEnd (piece ++ back))).bind _ = _
  rw [pieceEnd_append h hback, cut?_append]
  rfl

/-- Where the segment below an ancestor begins, in characters and in octets. -/
theorem exists_below {ancestor descendant : String} (hne : ancestor ≠ descendant)
    (habove : isAncestorOrSelf ancestor descendant = true)
    (hroot : ancestor = "/" → ∃ rest, descendant = "/" ++ rest) :
    ∃ front rest, descendant = front ++ rest ∧
      front.toList.length = (if ancestor == "/" then 1 else ancestor.toList.length + 1) ∧
      (Bytes.octetsOf front).length =
        (if ancestor == "/" then 1 else (Bytes.octetsOf ancestor).length + 1) := by
  by_cases hsame : ancestor = "/"
  · obtain ⟨rest, rfl⟩ := hroot hsame
    refine ⟨"/", rest, rfl, ?_, ?_⟩
    · rw [hsame]
      rfl
    · rw [hsame]
      rfl
  · obtain ⟨rest, rfl⟩ : ∃ rest, descendant = ancestor ++ "/" ++ rest := by
      rcases isAncestorOrSelf_iff.mp habove with h | h | h
      · exact absurd h hsame
      · exact absurd h hne
      · exact h
    refine ⟨ancestor ++ "/", rest, rfl, ?_, ?_⟩
    · simp [hsame]
    · simp [hsame, octetsOf_slash]

/-- The segment below an ancestor can be cut out of every text that begins with a slash. -/
theorem cutNextComponent_eq {ancestor descendant : String}
    (hroot : ancestor = "/" → ∃ rest, descendant = "/" ++ rest) :
    cutNextComponent ancestor descendant = some (nextComponent ancestor descendant) := by
  rw [cutNextComponent, cutIsAncestorOrSelf_eq]
  by_cases hstop : (ancestor == descendant || !isAncestorOrSelf ancestor descendant) = true
  · rw [nextComponent, if_pos hstop]
    show (if _ then _ else _) = _
    rw [if_pos hstop]
    rfl
  · obtain ⟨hne, habove⟩ : ancestor ≠ descendant ∧
        isAncestorOrSelf ancestor descendant = true := by simpa using hstop
    obtain ⟨front, rest, rfl, hchars, hoctets⟩ := exists_below hne habove hroot
    obtain ⟨piece, back, rfl, hpiece, hback⟩ := exists_first_piece rest
    show (if _ then _ else _) = _
    rw [if_neg hstop, ← hoctets, cutPiece_append front hpiece hback,
      nextComponent_eq_of_append hpiece hback hne habove hchars]

example : cutNextComponent "/né" "/né/él/a" = some (some "él") := by decide

/-- Below the root a cut fails if the other text begins with another character than a slash. -/
example : cutNextComponent "/" "él" = none := by decide

end LiveTree.Path
