import LiveTree.Path

/-!
# Paths as lists of segments

A canonical path is determined by its segments, and what the operations on paths do to the text they
do to the list. The text of several segments is their `spelling`; splitting it at the slashes gives
an empty piece, for what stands before the first slash, and then the segments. Everything else is
read off lists.
-/

namespace LiveTree.Path

/-! ## Spelling -/

/-- The characters of several segments, each behind its slash. -/
def spelling (segs : List String) : List Char := segs.flatMap fun s => '/' :: s.toList

@[simp] theorem spelling_nil : spelling [] = [] := rfl

@[simp] theorem spelling_cons (s : String) (segs : List String) :
    spelling (s :: segs) = '/' :: (s.toList ++ spelling segs) := rfl

@[simp] theorem spelling_append (segs segs' : List String) :
    spelling (segs ++ segs') = spelling segs ++ spelling segs' := by
  simp [spelling]

/-- The segments that a canonical path may have. -/
def AreSegments (segs : List String) : Prop := ∀ s ∈ segs, IsSegment s

theorem AreSegments.append {segs segs' : List String} (h : AreSegments segs)
    (h' : AreSegments segs') : AreSegments (segs ++ segs') := by
  intro s hs
  rcases List.mem_append.mp hs with hs | hs
  · exact h s hs
  · exact h' s hs

theorem AreSegments.tail {s : String} {segs : List String} (h : AreSegments (s :: segs)) :
    AreSegments segs :=
  fun s' hs => h s' (List.mem_cons_of_mem _ hs)

theorem AreSegments.singleton {s : String} (h : IsSegment s) : AreSegments [s] := by
  intro s' hs
  rwa [List.mem_singleton.mp hs]

theorem AreSegments.front {segs : List String} {name : String} (h : AreSegments (segs ++ [name])) :
    AreSegments segs := by
  intro s hs
  exact h s (List.mem_append_left _ hs)

theorem AreSegments.last {segs : List String} {name : String} (h : AreSegments (segs ++ [name])) :
    IsSegment name := by
  apply h
  simp

theorem ofSegments_cons (s : String) (segs : List String) :
    ofSegments (s :: segs) = String.join ((s :: segs).map ("/" ++ ·)) := rfl

theorem toList_ofSegments {segs : List String} (h : segs ≠ []) :
    (ofSegments segs).toList = spelling segs := by
  cases segs with
  | nil => exact absurd rfl h
  | cons s rest =>
      rw [ofSegments_cons, String.toList_join, spelling, List.flatMap_map]
      congr 1
      funext s
      rw [String.toList_append]
      rfl

/-- A name is a segment without a NUL. -/
theorem isValidName_iff {name : String} :
    isValidName name = true ↔ IsSegment name ∧ '\x00' ∉ name.toList := by
  have hany : name.toList.any (fun c => c == '/' || c == '\x00') = false ↔
      '/' ∉ name.toList ∧ '\x00' ∉ name.toList := by
    rw [List.any_eq_false]
    constructor
    · intro h
      exact ⟨fun hc => h _ hc rfl, fun hc => h _ hc rfl⟩
    · rintro ⟨hslash, hnul⟩ c hc hbad
      rcases Bool.or_eq_true_iff.mp hbad with he | he
      · exact hslash (eq_of_beq he ▸ hc)
      · exact hnul (eq_of_beq he ▸ hc)
  unfold isValidName IsSegment
  simp only [Bool.and_eq_true, Bool.not_eq_true', bne_iff_ne, hany, and_assoc]

/-- Splitting a text whose last part is spelled out gives that part's segments last. -/
theorem splitOn_append_spelling (front : List Char) {segs : List String} (h : AreSegments segs) :
    (front ++ spelling segs).splitOn '/' = front.splitOn '/' ++ segs.map String.toList := by
  induction segs generalizing front with
  | nil => simp
  | cons s rest ih =>
      have hslash : '/' ∉ s.toList := (h s List.mem_cons_self).2.2.2
      -- the slash before the first segment ends what stands in front
      rw [spelling_cons, List.splitOn_append_cons_self, ih s.toList h.tail,
        List.splitOn_eq_singleton hslash]
      rfl

theorem pieces_append_spelling (front : String) {segs : List String} (h : AreSegments segs)
    {path : String} (hpath : path.toList = front.toList ++ spelling segs) :
    pieces path = pieces front ++ segs := by
  rw [pieces, hpath, splitOn_append_spelling _ h, List.map_append, List.map_map]
  congr 1
  refine (List.map_congr_left fun s _ => ?_).trans (List.map_id segs)
  exact String.ofList_toList

theorem not_isIdle {s : String} (h : IsSegment s) : isIdle s = false := by
  simp [isIdle, h.1, h.2.1]

theorem filter_not_isIdle {segs : List String} (h : AreSegments segs) :
    segs.filter (!isIdle ·) = segs := by
  refine List.filter_eq_self.mpr fun s hs => ?_
  rw [not_isIdle (h s hs)]
  rfl

/-- The segments of a text whose last part is spelled out. -/
theorem segments_append_spelling (front : String) {segs : List String} (h : AreSegments segs)
    {path : String} (hpath : path.toList = front.toList ++ spelling segs) :
    segments path = segments front ++ segs := by
  rw [segments, pieces_append_spelling front h hpath, List.filter_append, filter_not_isIdle h]
  rfl

theorem segments_of_isSegment {s : String} (h : IsSegment s) : segments s = [s] := by
  rw [segments, pieces, List.splitOn_eq_singleton h.2.2.2, List.map_singleton,
    String.ofList_toList]
  exact filter_not_isIdle (.singleton h)

/-- A canonical path has the segments it was made of. -/
theorem segments_ofSegments {segs : List String} (h : AreSegments segs) :
    segments (ofSegments segs) = segs := by
  cases segs with
  | nil => decide
  | cons s rest =>
      have hspell : (ofSegments (s :: rest)).toList = "".toList ++ spelling (s :: rest) :=
        toList_ofSegments (List.cons_ne_nil _ _)
      rw [segments_append_spelling "" h hspell]
      rfl

theorem ofSegments_injective {segs segs' : List String} (h : AreSegments segs)
    (h' : AreSegments segs') (he : ofSegments segs = ofSegments segs') : segs = segs' := by
  rw [← segments_ofSegments h, he, segments_ofSegments h']

theorem ofSegments_eq_root_iff {segs : List String} (h : AreSegments segs) :
    ofSegments segs = "/" ↔ segs = [] := by
  constructor
  · exact fun he => ofSegments_injective h (fun _ hs => nomatch hs) he
  · rintro rfl
    rfl

/-- The characters of a segment are among those of the path. -/
theorem mem_toList_ofSegments {segs : List String} {s : String} {c : Char} (h : s ∈ segs)
    (hc : c ∈ s.toList) : c ∈ (ofSegments segs).toList := by
  rw [toList_ofSegments (List.ne_nil_of_mem h)]
  exact List.mem_flatMap.mpr ⟨s, h, List.mem_cons_of_mem _ hc⟩

/-! ## What the segments of a text are -/

/-- A piece of a text holds no slash. -/
theorem not_mem_of_mem_pieces {path s : String} (h : s ∈ pieces path) : '/' ∉ s.toList := by
  have hpieces : ∀ (cs : List Char), ∀ piece ∈ cs.splitOn '/', '/' ∉ piece := by
    intro cs
    induction cs with
    | nil => simp
    | cons c cs ih =>
        intro piece hmem
        rw [List.splitOn_cons_eq_if_modifyHead] at hmem
        split at hmem
        · rcases List.mem_cons.mp hmem with rfl | hmem
          · exact List.not_mem_nil
          · exact ih piece hmem
        · next hne =>
          rcases hs : cs.splitOn '/' with _ | ⟨first, rest⟩
          · exact absurd hs (List.splitOn_ne_nil _ _)
          · rw [hs] at hmem ih
            rcases List.mem_cons.mp hmem with rfl | hmem
            · intro hslash
              rcases List.mem_cons.mp hslash with rfl | hslash
              · exact hne (by decide)
              · exact ih first List.mem_cons_self hslash
            · exact ih piece (List.mem_cons_of_mem _ hmem)
  obtain ⟨piece, hmem, rfl⟩ := List.mem_map.mp h
  rw [String.toList_ofList]
  exact hpieces _ piece hmem

/-- A segment of a text is a segment of canonical paths, unless it is `..`. -/
theorem isSegment_of_mem_segments {path s : String} (h : s ∈ segments path) (hup : s ≠ "..") :
    IsSegment s := by
  obtain ⟨hpiece, hidle⟩ := List.mem_filter.mp h
  have hnot : s ≠ "" ∧ s ≠ "." := by simpa [isIdle] using hidle
  exact ⟨hnot.1, hnot.2, hup, not_mem_of_mem_pieces hpiece⟩

/-! ## Canonical form -/

/-- Segments on a stack stay segments: `..` is never put there. -/
theorem areSegments_foldl_push {segs stack : List String}
    (h : ∀ s ∈ segs, s ≠ ".." → IsSegment s) (hstack : AreSegments stack) :
    AreSegments (segs.foldl push stack) := by
  induction segs generalizing stack with
  | nil => exact hstack
  | cons s rest ih =>
      apply ih
      · exact fun s' hs => h s' (List.mem_cons_of_mem _ hs)
      · unfold push
        split
        · exact fun s' hs => hstack s' (List.mem_of_mem_tail hs)
        · next hne =>
          intro s' hs
          rcases List.mem_cons.mp hs with rfl | hs
          · exact h s' List.mem_cons_self (by simpa using hne)
          · exact hstack s' hs

theorem foldl_push_of_areSegments {segs stack : List String} (h : AreSegments segs) :
    segs.foldl push stack = segs.reverse ++ stack := by
  induction segs generalizing stack with
  | nil => rfl
  | cons s rest ih =>
      have hup : (s == "..") = false := by simpa using (h s List.mem_cons_self).2.2.1
      rw [List.foldl_cons, ih h.tail, push, hup]
      simp

/-- The segments that `clean` leaves of a path. -/
def cleanSegments (path : String) : List String := ((segments path).foldl push []).reverse

theorem areSegments_cleanSegments (path : String) : AreSegments (cleanSegments path) := by
  intro s hs
  refine areSegments_foldl_push ?_ ?_ s (List.mem_reverse.mp hs)
  · exact fun s' hs' => isSegment_of_mem_segments hs'
  · exact fun s' hs' => absurd hs' List.not_mem_nil

theorem canonical_clean (path : String) : Canonical (clean path) :=
  ⟨cleanSegments path, areSegments_cleanSegments path, rfl⟩

theorem Canonical.areSegments {path : String} (h : Canonical path) :
    AreSegments (segments path) := by
  obtain ⟨segs, hsegs, rfl⟩ := h
  rw [segments_ofSegments hsegs]
  exact hsegs

theorem Canonical.ofSegments_segments {path : String} (h : Canonical path) :
    ofSegments (segments path) = path := by
  obtain ⟨segs, hsegs, rfl⟩ := h
  rw [segments_ofSegments hsegs]

/-- A canonical path other than the root is a last segment behind others. -/
theorem Canonical.eq_append {path : String} (h : Canonical path) (hroot : path ≠ "/") :
    ∃ segs name, AreSegments (segs ++ [name]) ∧ path = ofSegments (segs ++ [name]) := by
  obtain ⟨segs, hsegs, rfl⟩ := h
  rcases List.eq_nil_or_concat segs with rfl | ⟨front, last, rfl⟩
  · exact absurd rfl hroot
  · rw [List.concat_eq_append] at hsegs ⊢
    exact ⟨front, last, hsegs, rfl⟩

theorem clean_ofSegments {segs : List String} (h : AreSegments segs) :
    clean (ofSegments segs) = ofSegments segs := by
  rw [clean, segments_ofSegments h, foldl_push_of_areSegments h]
  simp

/-- What `normalize` lets through has segments of canonical paths only, without a NUL. -/
theorem normalize_eq_ok {path q : String} (h : normalize path = .ok q) :
    q = ofSegments (segments path) ∧ AreSegments (segments path) ∧
      ∀ s ∈ segments path, '\x00' ∉ s.toList := by
  unfold normalize at h
  split at h
  · cases h
  · next hall =>
    cases h
    have hfree : ∀ s ∈ segments path, s ≠ ".." ∧ '\x00' ∉ s.toList := by
      intro s hs
      simpa [isForbidden] using fun hbad => hall (List.any_eq_true.mpr ⟨s, hs, hbad⟩)
    exact ⟨rfl, fun s hs => isSegment_of_mem_segments hs (hfree s hs).1, fun s hs => (hfree s hs).2⟩

/-- What callers may use is cleaned as it is normalized. -/
theorem clean_of_normalize {path q : String} (h : normalize path = .ok q) : clean path = q := by
  obtain ⟨rfl, hsegs, -⟩ := normalize_eq_ok h
  rw [clean, foldl_push_of_areSegments hsegs, List.append_nil, List.reverse_reverse]

theorem normalize_of_segments {path : String} (h : AreSegments (segments path))
    (hnul : ∀ s ∈ segments path, '\x00' ∉ s.toList) :
    normalize path = .ok (ofSegments (segments path)) := by
  have hnone : ¬ (segments path).any isForbidden = true := by
    intro hany
    obtain ⟨s, hs, hbad⟩ := List.any_eq_true.mp hany
    simp [isForbidden, (h s hs).2.2.1, hnul s hs] at hbad
  rw [normalize, if_neg hnone]

theorem normalize_ofSegments {segs : List String} (h : AreSegments segs)
    (hnul : ∀ s ∈ segs, '\x00' ∉ s.toList) :
    normalize (ofSegments segs) = .ok (ofSegments segs) := by
  have hsegs := segments_ofSegments h
  have hnorm := normalize_of_segments (hsegs.symm ▸ h) (hsegs.symm ▸ hnul)
  rwa [hsegs] at hnorm

/-! ## Parts -/

/-- What a slash divides. -/
theorem segments_append_slash (front back : String) :
    segments (front ++ "/" ++ back) = segments front ++ segments back := by
  have hpath : (front ++ "/" ++ back).toList = front.toList ++ '/' :: back.toList := by simp
  rw [segments, pieces, hpath, List.splitOn_append_cons_self, List.map_append, List.filter_append]
  rfl

/-- Every path of a name has its slash: the root brings it along. -/
theorem join_eq_append (dir name : String) :
    join dir name = (if dir = "/" then "" else dir) ++ "/" ++ name := by
  unfold join
  by_cases hroot : dir = "/"
  · rw [if_pos (beq_iff_eq.mpr hroot), if_pos hroot, String.empty_append]
  · rw [if_neg (by simpa using hroot), if_neg hroot]

/-- Any text can stand as the name. -/
theorem segments_join_text (dir name : String) :
    segments (join dir name) = segments dir ++ segments name := by
  rw [join_eq_append, segments_append_slash]
  by_cases hroot : dir = "/"
  · rw [if_pos hroot, hroot]
    rfl
  · rw [if_neg hroot]

theorem segments_join (dir : String) {name : String} (h : IsSegment name) :
    segments (join dir name) = segments dir ++ [name] := by
  rw [segments_join_text, segments_of_isSegment h]

/-- What a caller makes of a directory and a name is what `normalize` makes of the directory, and
the name. -/
theorem normalize_join {path q name : String} (hq : normalize path = .ok q) (h : IsSegment name)
    (hnul : '\x00' ∉ name.toList) :
    normalize (join path name) = .ok (ofSegments (segments path ++ [name])) := by
  obtain ⟨-, hsegs, hfree⟩ := normalize_eq_ok hq
  have hjoin := segments_join path h
  rw [← hjoin]
  apply normalize_of_segments
  · rw [hjoin]
    exact hsegs.append (.singleton h)
  · rw [hjoin]
    intro s hs
    rcases List.mem_append.mp hs with hs | hs
    · exact hfree s hs
    · rwa [List.mem_singleton.mp hs]

theorem join_ofSegments {segs : List String} (h : AreSegments segs) (name : String) :
    join (ofSegments segs) name = ofSegments (segs ++ [name]) := by
  apply String.toList_injective
  rw [toList_ofSegments (by simp)]
  unfold join
  cases segs with
  | nil => simp [ofSegments]
  | cons s rest =>
      have hroot : ¬ (ofSegments (s :: rest) == "/") = true := by
        simpa using mt (ofSegments_eq_root_iff h).mp (List.cons_ne_nil _ _)
      rw [if_neg hroot, String.toList_append, String.toList_append,
        toList_ofSegments (List.cons_ne_nil _ _)]
      simp

/-- No character of a text without slash ends a piece. -/
theorem ne_slash_of_not_mem {s : String} (h : '/' ∉ s.toList) :
    ∀ c ∈ s.toList, (c != '/') = true := by
  intro c hc
  refine bne_iff_ne.mpr ?_
  rintro rfl
  exact h hc

section LastPiece

variable {front dir name : String}

theorem ne_slash_of_mem_reverse (h : '/' ∉ name.toList) :
    ∀ c ∈ name.toList.reverse, (c != '/') = true :=
  fun c hc => ne_slash_of_not_mem h c (List.mem_reverse.mp hc)

theorem parent_of_not_mem (h : '/' ∉ name.toList) : parent name = none := by
  have hdrop : name.toList.reverse.dropWhile (· != '/') = [] := by
    rw [← List.append_nil name.toList.reverse,
      List.dropWhile_append_of_pos (ne_slash_of_mem_reverse h)]
    rfl
  unfold parent
  split
  · rfl
  · rw [hdrop]

/-- The parent is what stands before the last slash. -/
theorem parent_append (h : '/' ∉ name.toList) (hroot : dir ++ "/" ++ name ≠ "/") :
    parent (dir ++ "/" ++ name) = some (if dir = "" then "/" else dir) := by
  -- read from behind, the name ends at the last slash
  have hdrop : (dir ++ "/" ++ name).toList.reverse.dropWhile (· != '/') =
      '/' :: dir.toList.reverse := by
    rw [String.toList_append, String.toList_append, List.reverse_append, List.reverse_append,
      List.dropWhile_append_of_pos (ne_slash_of_mem_reverse h)]
    rfl
  rw [parent, if_neg (by simpa using hroot), hdrop]
  by_cases hdir : dir = ""
  · rw [if_pos hdir, hdir]
    rfl
  · have hne : dir.toList.reverse ≠ [] := by simpa using hdir
    obtain ⟨c, cs, hcs⟩ := List.exists_cons_of_ne_nil hne
    rw [if_neg hdir, hcs]
    dsimp only
    rw [← hcs, List.reverse_reverse, String.ofList_toList]

/-- The file name is what stands behind the last slash, if that is a name. -/
theorem fileName_append (h : '/' ∉ name.toList) (hfront : front = "" ∨ ∃ dir, front = dir ++ "/")
    (hroot : front ++ name ≠ "/") : fileName (front ++ name) = (some name).filter (· != "") := by
  have htake : (front ++ name).toList.reverse.takeWhile (· != '/') = name.toList.reverse := by
    rw [String.toList_append, List.reverse_append,
      List.takeWhile_append_of_pos (ne_slash_of_mem_reverse h)]
    rcases hfront with rfl | ⟨dir, rfl⟩
    · simp
    · simp
  rw [fileName, if_neg (by simpa using hroot), htake]
  by_cases hname : name = ""
  · rw [hname]
    rfl
  · have hne : name.toList.reverse ≠ [] := by simpa using hname
    obtain ⟨c, cs, hcs⟩ := List.exists_cons_of_ne_nil hne
    rw [hcs]
    dsimp only
    rw [← hcs, List.reverse_reverse, String.ofList_toList, Option.filter_some,
      if_pos (bne_iff_ne.mpr hname)]

/-- The path of a segment is not the root. -/
theorem append_slash_ne_root (h : name ≠ "") : dir ++ "/" ++ name ≠ "/" := by
  intro he
  have hname : name.length ≠ 0 := mt String.length_eq_zero_iff.mp h
  have hlength := congrArg String.length he
  rw [String.length_append, String.length_append] at hlength
  have hslash : "/".length = 1 := rfl
  omega

theorem parent_join (hdir : dir ≠ "") (h : IsSegment name) :
    parent (join dir name) = some dir := by
  rw [join_eq_append, parent_append h.2.2.2 (append_slash_ne_root h.1)]
  by_cases hroot : dir = "/"
  · rw [if_pos hroot, if_pos rfl, hroot]
  · rw [if_neg hroot, if_neg hdir]

theorem fileName_join (dir : String) (h : IsSegment name) :
    fileName (join dir name) = some name := by
  rw [join_eq_append, fileName_append h.2.2.2 (.inr ⟨_, rfl⟩) (append_slash_ne_root h.1),
    Option.filter_some, if_pos (bne_iff_ne.mpr h.1)]

end LastPiece

theorem ofSegments_ne_empty (segs : List String) : ofSegments segs ≠ "" := by
  cases segs with
  | nil => decide
  | cons s rest =>
      intro he
      have hspell := toList_ofSegments (List.cons_ne_nil s rest)
      rw [he] at hspell
      cases hspell

theorem parent_ofSegments {segs : List String} {name : String} (h : AreSegments segs)
    (hname : IsSegment name) :
    parent (ofSegments (segs ++ [name])) = some (ofSegments segs) := by
  rw [← join_ofSegments h, parent_join (ofSegments_ne_empty segs) hname]

theorem fileName_ofSegments {segs : List String} {name : String} (h : AreSegments segs)
    (hname : IsSegment name) : fileName (ofSegments (segs ++ [name])) = some name := by
  rw [← join_ofSegments h, fileName_join _ hname]

theorem parent_root : parent "/" = none := rfl

/-! ## Order -/

/-- A text lies above those that are it and go on with a slash; `/` lies above all. -/
theorem isAncestorOrSelf_iff {ancestor path : String} :
    isAncestorOrSelf ancestor path = true ↔
      ancestor = "/" ∨ ancestor = path ∨ ∃ rest, path = ancestor ++ "/" ++ rest := by
  have hbehind : (behind ancestor path).any (·.head? == some '/') = true ↔
      ∃ rest, path = ancestor ++ "/" ++ rest := by
    unfold behind
    constructor
    · intro h
      split at h
      · next hbegins =>
        obtain ⟨tail, htail⟩ := List.isPrefixOf_iff_prefix.mp hbegins
        rw [← htail, List.drop_left] at h
        obtain ⟨cs, rfl⟩ : ∃ cs, tail = '/' :: cs := by
          simpa [List.head?_eq_some_iff] using h
        refine ⟨String.ofList cs, String.toList_injective ?_⟩
        rw [← htail]
        simp
      · cases h
    · rintro ⟨rest, rfl⟩
      simp
  rw [isAncestorOrSelf, Bool.or_eq_true, Bool.or_eq_true, beq_iff_eq, beq_iff_eq, hbehind,
    or_assoc]

/-- The text of a segment, of what stands before it and of what stands behind. -/
theorem ofSegments_append_cons (segs : List String) (s : String) (rest : List String) :
    ofSegments (segs ++ s :: rest) =
      String.ofList (spelling segs) ++ "/" ++ (s ++ String.ofList (spelling rest)) := by
  apply String.toList_injective
  rw [toList_ofSegments (by simp)]
  simp

/-- Among canonical paths, what lies above a path has its first segments. -/
theorem isAncestorOrSelf_ofSegments {segs segs' : List String} (h : AreSegments segs)
    (h' : AreSegments segs') :
    isAncestorOrSelf (ofSegments segs) (ofSegments segs') = true ↔ segs <+: segs' := by
  rw [isAncestorOrSelf_iff]
  constructor
  · rintro (hroot | hself | ⟨rest, hrest⟩)
    · rw [(ofSegments_eq_root_iff h).mp hroot]
      exact List.nil_prefix
    · exact ofSegments_injective h h' hself ▸ List.prefix_refl _
    · -- the slash behind the ancestor ends its last segment, so none is cut in two
      have hsegs := congrArg segments hrest
      rw [segments_append_slash, segments_ofSegments h, segments_ofSegments h'] at hsegs
      exact ⟨segments rest, hsegs.symm⟩
  · rintro ⟨rest, rfl⟩
    rcases rest with _ | ⟨s, rest⟩
    · rw [List.append_nil]
      exact .inr (.inl rfl)
    · by_cases hroot : segs = []
      · exact .inl ((ofSegments_eq_root_iff h).mpr hroot)
      · refine .inr (.inr ⟨s ++ String.ofList (spelling rest), ?_⟩)
        rw [ofSegments_append_cons, ← toList_ofSegments hroot, String.ofList_toList]

/-- Where the segment below a path begins. -/
theorem length_before {segs : List String} (h : AreSegments segs) :
    (String.ofList (spelling segs) ++ "/").toList.length =
      if ofSegments segs == "/" then 1 else (ofSegments segs).toList.length + 1 := by
  by_cases hroot : segs = []
  · rw [hroot]
    rfl
  · have hne : ¬ (ofSegments segs == "/") = true := by
      simpa using mt (ofSegments_eq_root_iff h).mp hroot
    rw [if_neg hne, toList_ofSegments hroot]
    simp

/-- The component below an ancestor is the piece that begins behind its slash, if that is a name. -/
theorem nextComponent_eq_of_append {ancestor front piece back : String} (h : '/' ∉ piece.toList)
    (hback : back = "" ∨ ∃ rest, back = "/" ++ rest)
    (hne : ancestor ≠ front ++ (piece ++ back))
    (habove : isAncestorOrSelf ancestor (front ++ (piece ++ back)) = true)
    (hlength : front.toList.length =
      if ancestor == "/" then 1 else ancestor.toList.length + 1) :
    nextComponent ancestor (front ++ (piece ++ back)) = (some piece).filter (· != "") := by
  have htake : ((front ++ (piece ++ back)).toList.drop front.toList.length).takeWhile
      (· != '/') = piece.toList := by
    rw [String.toList_append, List.drop_left, String.toList_append,
      List.takeWhile_append_of_pos (ne_slash_of_not_mem h)]
    rcases hback with rfl | ⟨rest, rfl⟩
    · simp
    · simp
  rw [nextComponent, if_neg (by simp [hne, habove])]
  dsimp only
  rw [← hlength, htake]
  by_cases hpiece : piece = ""
  · rw [hpiece]
    rfl
  · have hcons : piece.toList ≠ [] := by simpa using hpiece
    obtain ⟨c, cs, hcs⟩ := List.exists_cons_of_ne_nil hcons
    rw [hcs]
    dsimp only
    rw [← hcs, String.ofList_toList, Option.filter_some, if_pos (bne_iff_ne.mpr hpiece)]

theorem nextComponent_append {segs rest : List String} {s : String}
    (h : AreSegments (segs ++ s :: rest)) :
    nextComponent (ofSegments segs) (ofSegments (segs ++ s :: rest)) = some s := by
  have hsegs : AreSegments segs := fun s' hs => h s' (List.mem_append_left _ hs)
  have hs : IsSegment s := h s (by simp)
  have hne : ofSegments segs ≠ ofSegments (segs ++ s :: rest) := by
    intro he
    have hlength := congrArg List.length (ofSegments_injective hsegs h he)
    simp at hlength
  have habove := (isAncestorOrSelf_ofSegments hsegs h).mpr ⟨s :: rest, rfl⟩
  have hback : String.ofList (spelling rest) = "" ∨
      ∃ back, String.ofList (spelling rest) = "/" ++ back := by
    rcases rest with _ | ⟨s', rest⟩
    · exact .inl rfl
    · exact .inr ⟨s' ++ String.ofList (spelling rest), String.toList_injective (by simp)⟩
  rw [ofSegments_append_cons] at hne habove ⊢
  rw [nextComponent_eq_of_append hs.2.2.2 hback hne habove (length_before hsegs),
    Option.filter_some, if_pos (bne_iff_ne.mpr hs.1)]

/-- The next component towards a path below is its next segment. -/
theorem nextComponent_eq_some {segs segs' : List String} (h : AreSegments segs)
    (h' : AreSegments segs') {name : String} :
    nextComponent (ofSegments segs) (ofSegments segs') = some name ↔
      ∃ rest, segs' = segs ++ name :: rest := by
  constructor
  · intro hnext
    by_cases hprefix : segs <+: segs'
    · obtain ⟨rest, rfl⟩ := hprefix
      cases rest with
      | nil => simp [nextComponent] at hnext
      | cons s rest =>
          rw [nextComponent_append h'] at hnext
          cases hnext
          exact ⟨rest, rfl⟩
    · have hnot : isAncestorOrSelf (ofSegments segs) (ofSegments segs') = false := by
        simpa using mt (isAncestorOrSelf_ofSegments h h').mp hprefix
      unfold nextComponent at hnext
      rw [if_pos (by simp [hnot])] at hnext
      cases hnext
  · rintro ⟨rest, rfl⟩
    exact nextComponent_append h'

end LiveTree.Path
