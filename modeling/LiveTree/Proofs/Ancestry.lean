import LiveTree.Proofs.Cuts
import LiveTree.Proofs.Spellings

/-!
# Canonical paths as a tree

A canonical path and its list of segments determine each other (`Canonical.ofSegments_segments`,
`Canonical.eq_iff`), so canonical paths form a tree with `/` at its root:

* `join` goes one step down, every path but the root is reached by one such step, and `parent` and
  `fileName` take it back (`Canonical.join_parent_fileName`);
* `isAncestorOrSelf` is the order of the tree, in which a list lies above those that begin with it
  (`Canonical.isAncestorOrSelf_iff`);
* `nextComponent` is the first step on the way down from one path to another
  (`Canonical.nextComponent_eq_some_iff`).

`path_algebra` says all of it, and that it can be had by cuts among octets.
-/

namespace LiveTree.Path

variable {a d e p : String} {name other : String}

/-! ## Lists of segments -/

/-- Canonical paths with the same segments are the same. -/
theorem Canonical.eq_iff (ha : Canonical a) (hd : Canonical d) :
    a = d ↔ segments a = segments d := by
  constructor
  · rintro rfl
    rfl
  · intro he
    rw [← ha.ofSegments_segments, he, hd.ofSegments_segments]

theorem Canonical.ne_empty (h : Canonical p) : p ≠ "" := by
  obtain ⟨segs, -, rfl⟩ := h
  exact ofSegments_ne_empty segs

theorem Canonical.exists_slash (h : Canonical p) : ∃ rest, p = "/" ++ rest := by
  obtain ⟨segs, -, rfl⟩ := h
  cases segs with
  | nil => exact ⟨"", rfl⟩
  | cons s rest => exact ⟨_, ofSegments_append_cons [] s rest⟩

/-! ## One step -/

theorem Canonical.join (h : Canonical d) (hname : IsSegment name) : Canonical (join d name) := by
  obtain ⟨segs, hsegs, rfl⟩ := h
  exact ⟨segs ++ [name], AreSegments.append hsegs (.singleton hname), join_ofSegments hsegs name⟩

/-- Every canonical path but the root is one step below another one. -/
theorem Canonical.exists_join (h : Canonical p) (hroot : p ≠ "/") :
    ∃ dir name, Canonical dir ∧ IsSegment name ∧ p = Path.join dir name := by
  obtain ⟨segs, name, hsegs, rfl⟩ := h.eq_append hroot
  exact ⟨ofSegments segs, name, ⟨segs, hsegs.front, rfl⟩, hsegs.last,
    (join_ofSegments hsegs.front name).symm⟩

/-- The step that leads to a path is taken back, and taken again. -/
theorem Canonical.join_parent_fileName (h : Canonical p) (hroot : p ≠ "/") :
    ∃ dir name, parent p = some dir ∧ fileName p = some name ∧ Path.join dir name = p := by
  obtain ⟨dir, name, hdir, hname, rfl⟩ := h.exists_join hroot
  exact ⟨dir, name, parent_join hdir.ne_empty hname, fileName_join dir hname, rfl⟩

/-! ## Order -/

/-- A path lies above those whose segments begin with its own. -/
theorem Canonical.isAncestorOrSelf_iff (ha : Canonical a) (hd : Canonical d) :
    isAncestorOrSelf a d = true ↔ segments a <+: segments d := by
  rw [← isAncestorOrSelf_ofSegments ha.areSegments hd.areSegments, ha.ofSegments_segments,
    hd.ofSegments_segments]

theorem Canonical.isAncestorOrSelf_antisymm (ha : Canonical a) (hd : Canonical d)
    (h : isAncestorOrSelf a d = true) (h' : isAncestorOrSelf d a = true) : a = d := by
  have hbegin := (ha.isAncestorOrSelf_iff hd).mp h
  have hback := (hd.isAncestorOrSelf_iff ha).mp h'
  exact (ha.eq_iff hd).mpr (hbegin.eq_of_length_le hback.length_le)

theorem Canonical.isAncestorOrSelf_trans (ha : Canonical a) (hd : Canonical d) (he : Canonical e)
    (h : isAncestorOrSelf a d = true) (h' : isAncestorOrSelf d e = true) :
    isAncestorOrSelf a e = true := by
  have hfirst := (ha.isAncestorOrSelf_iff hd).mp h
  have hsecond := (hd.isAncestorOrSelf_iff he).mp h'
  exact (ha.isAncestorOrSelf_iff he).mpr (hfirst.trans hsecond)

/-- What stands side by side in a directory does not lie one above the other, also if one name
begins with the other. -/
theorem Canonical.not_isAncestorOrSelf_join (hd : Canonical d) (hname : IsSegment name)
    (hother : IsSegment other) (hne : name ≠ other) :
    ¬ isAncestorOrSelf (Path.join d name) (Path.join d other) = true := by
  rw [(hd.join hname).isAncestorOrSelf_iff (hd.join hother), segments_join d hname,
    segments_join d hother, List.prefix_append_right_inj]
  intro hbegin
  have hsame : [name] = [other] := hbegin.eq_of_length rfl
  exact hne (List.head_eq_of_cons_eq hsame)

/-! ## The first step -/

/-- The next component is the segment behind those of the ancestor. -/
theorem Canonical.nextComponent_eq_some_iff (ha : Canonical a) (hd : Canonical d) :
    nextComponent a d = some name ↔ segments a ++ [name] <+: segments d := by
  have hsegs : nextComponent (ofSegments (segments a)) (ofSegments (segments d)) = some name ↔
      ∃ rest, segments d = segments a ++ name :: rest :=
    nextComponent_eq_some ha.areSegments hd.areSegments
  rw [ha.ofSegments_segments, hd.ofSegments_segments] at hsegs
  rw [hsegs]
  constructor
  · rintro ⟨rest, hrest⟩
    exact ⟨rest, by rw [hrest, List.append_assoc]; rfl⟩
  · rintro ⟨rest, hrest⟩
    exact ⟨rest, by rw [← hrest, List.append_assoc]; rfl⟩

/-- There is no next component if no segment follows those of the ancestor. -/
theorem Canonical.nextComponent_eq_none_iff (ha : Canonical a) (hd : Canonical d) :
    nextComponent a d = none ↔ ∀ name, ¬ segments a ++ [name] <+: segments d := by
  rw [Option.eq_none_iff_forall_ne_some]
  exact forall_congr' fun name => not_congr (ha.nextComponent_eq_some_iff hd)

/-- The operations on canonical paths, read as operations on their lists of segments. A valid name
is put behind the list and taken off again, and every path but the root is the path of its file name
in its parent. Lying above is beginning, which is a partial order, and no name in a directory lies
above another one. The next component is the segment behind those of the ancestor, if there is one.
Had by cuts among the octets, all of it is the same, so every cut lies between two characters. -/
theorem path_algebra (ha : Canonical a) (hd : Canonical d) :
    AreSegments (segments d) ∧ ofSegments (segments d) = d ∧
    (∀ name, isValidName name = true →
      Canonical (join d name) ∧ segments (join d name) = segments d ++ [name] ∧
      parent (join d name) = some d ∧ fileName (join d name) = some name) ∧
    (d ≠ "/" → ∃ dir name, parent d = some dir ∧ fileName d = some name ∧ join dir name = d) ∧
    (isAncestorOrSelf a d = true ↔ segments a <+: segments d) ∧
    isAncestorOrSelf d d = true ∧
    (isAncestorOrSelf a d = true → isAncestorOrSelf d a = true → a = d) ∧
    (∀ e, Canonical e → isAncestorOrSelf a d = true → isAncestorOrSelf d e = true →
      isAncestorOrSelf a e = true) ∧
    (∀ name other, isValidName name = true → isValidName other = true → name ≠ other →
      ¬ isAncestorOrSelf (join d name) (join d other) = true) ∧
    (∀ name, nextComponent a d = some name ↔ segments a ++ [name] <+: segments d) ∧
    (nextComponent a d = none ↔ ∀ name, ¬ segments a ++ [name] <+: segments d) ∧
    cutParent d = some (parent d) ∧ cutFileName d = some (fileName d) ∧
    cutIsAncestorOrSelf a d = some (isAncestorOrSelf a d) ∧
    cutNextComponent a d = some (nextComponent a d) := by
  refine ⟨hd.areSegments, hd.ofSegments_segments, ?_, hd.join_parent_fileName,
    ha.isAncestorOrSelf_iff hd, isAncestorOrSelf_iff.mpr (.inr (.inl rfl)),
    ha.isAncestorOrSelf_antisymm hd, fun e => ha.isAncestorOrSelf_trans hd, ?_,
    fun name => ha.nextComponent_eq_some_iff hd, ha.nextComponent_eq_none_iff hd,
    cutParent_eq d, cutFileName_eq d, cutIsAncestorOrSelf_eq a d,
    cutNextComponent_eq fun _ => hd.exists_slash⟩
  · intro name hname
    have hsegment := (isValidName_iff.mp hname).1
    exact ⟨hd.join hsegment, segments_join d hsegment, parent_join hd.ne_empty hsegment,
      fileName_join d hsegment⟩
  · intro name other hname hother hne
    exact hd.not_isAncestorOrSelf_join (isValidName_iff.mp hname).1 (isValidName_iff.mp hother).1
      hne

/-- Names of more octets than characters, a path three segments deep, and two names of which one is
the beginning of the other. -/
theorem path_algebra_creme :
    Canonical "/crème" ∧ Canonical "/crème/brûlée" ∧ isValidName "pâte" = true ∧
    Canonical "/crème/brûlée/pâte" ∧ parent "/crème/brûlée/pâte" = some "/crème/brûlée" ∧
    fileName "/crème/brûlée/pâte" = some "pâte" ∧
    (∃ dir name, parent "/crème/brûlée" = some dir ∧ fileName "/crème/brûlée" = some name ∧
      join dir name = "/crème/brûlée") ∧
    isAncestorOrSelf "/crème" "/crème/brûlée/pâte" = true ∧
    nextComponent "/crème" "/crème/brûlée" = some "brûlée" ∧
    cutNextComponent "/crème" "/crème/brûlée" = some (nextComponent "/crème" "/crème/brûlée") ∧
    cutParent "/crème/brûlée" = some (parent "/crème/brûlée") ∧
    ¬ isAncestorOrSelf "/app" "/apple" = true := by
  have hroot : Canonical "/" := canonical_clean "/"
  have habove : Canonical "/crème" := canonical_clean "/crème"
  have hbelow : Canonical "/crème/brûlée" := canonical_clean "/crème/brûlée"
  have hname : isValidName "pâte" = true := by decide
  obtain ⟨-, -, hjoin, hback, habove_iff, -, -, htrans, -, hnext, -, hparent, -, -, hcut⟩ :=
    path_algebra habove hbelow
  obtain ⟨hcanonical, -, hdir, hlast⟩ := hjoin "pâte" hname
  have hdeeper : isAncestorOrSelf "/crème/brûlée" "/crème/brûlée/pâte" = true := by decide
  obtain ⟨-, -, -, -, -, -, -, -, happ, -⟩ := path_algebra hroot hroot
  exact ⟨habove, hbelow, hname, hcanonical, hdir, hlast, hback (by decide),
    htrans _ hcanonical (habove_iff.mpr (by decide)) hdeeper, (hnext "brûlée").mpr (by decide),
    hcut, hparent, happ "app" "apple" (by decide) (by decide) (by decide)⟩

end LiveTree.Path
