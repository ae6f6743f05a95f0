import LiveTree.Proofs.Paths

/-!
# Ways to write a path

Many texts stand for the same path. `clean` picks one among them: it keeps the texts that are
canonical (`Canonical.clean_eq`), and makes the same of a text whatever detours are put into it
(`Respelled.clean_eq`). `normalize` refuses some texts, and agrees with `clean` on all others
(`normalization_laws`).
-/

namespace LiveTree.Path

/-! ## Texts that are refused -/

/-- A piece that is not idle is a segment. -/
theorem mem_segments {path piece : String} (h : piece ∈ pieces path)
    (hidle : isIdle piece = false) : piece ∈ segments path := by
  apply List.mem_filter.mpr
  exact ⟨h, by rw [hidle]; rfl⟩

theorem isForbidden_iff {piece : String} :
    isForbidden piece = true ↔ piece = ".." ∨ '\x00' ∈ piece.toList := by
  unfold isForbidden
  simp

/-- What callers may not use is not idle. -/
theorem isIdle_of_isForbidden {piece : String} (h : isForbidden piece = true) :
    isIdle piece = false := by
  rcases hidle : isIdle piece with _ | _
  · rfl
  · have hcases : piece = "" ∨ piece = "." := by simpa [isIdle] using hidle
    rcases hcases with rfl | rfl
    · exact absurd h (by decide)
    · exact absurd h (by decide)

/-- A text is refused when a piece of it is `..` or holds a NUL, and the fault tells the text. -/
theorem normalize_eq_error_iff {path : String} {fault : Fault} :
    normalize path = .error fault ↔
      fault = .invalidPath path ∧ ∃ piece ∈ pieces path, piece = ".." ∨ '\x00' ∈ piece.toList := by
  have hforbidden : (segments path).any isForbidden = true ↔
      ∃ piece ∈ pieces path, piece = ".." ∨ '\x00' ∈ piece.toList := by
    rw [List.any_eq_true]
    constructor
    · rintro ⟨piece, hmem, hbad⟩
      exact ⟨piece, (List.mem_filter.mp hmem).1, isForbidden_iff.mp hbad⟩
    · rintro ⟨piece, hmem, hbad⟩
      have hbad := isForbidden_iff.mpr hbad
      exact ⟨piece, mem_segments hmem (isIdle_of_isForbidden hbad), hbad⟩
  rw [← hforbidden, normalize]
  split
  · next hany => simp [hany, eq_comm]
  · next hnone => simp [hnone]

/-! ## What is left of a text -/

/-- The characters of a piece are among those of the text. -/
theorem mem_toList_of_mem_pieces {path piece : String} {c : Char} (h : piece ∈ pieces path)
    (hc : c ∈ piece.toList) : c ∈ path.toList := by
  have hpieces : ∀ cs : List Char, ∀ part ∈ cs.splitOn '/', c ∈ part → c ∈ cs := by
    intro cs
    induction cs with
    | nil => simp
    | cons first cs ih =>
        intro part hpart hmem
        rw [List.splitOn_cons_eq_if_modifyHead] at hpart
        split at hpart
        · rcases List.mem_cons.mp hpart with rfl | hpart
          · cases hmem
          · exact List.mem_cons_of_mem _ (ih part hpart hmem)
        · rcases hs : cs.splitOn '/' with _ | ⟨head, rest⟩
          · exact absurd hs (List.splitOn_ne_nil _ _)
          · rw [hs] at hpart ih
            rcases List.mem_cons.mp hpart with rfl | hpart
            · rcases List.mem_cons.mp hmem with rfl | hmem
              · exact List.mem_cons_self
              · exact List.mem_cons_of_mem _ (ih head List.mem_cons_self hmem)
            · exact List.mem_cons_of_mem _ (ih part (List.mem_cons_of_mem _ hpart) hmem)
  obtain ⟨part, hpart, rfl⟩ := List.mem_map.mp h
  rw [String.toList_ofList] at hc
  exact hpieces _ part hpart hc

/-- Cleaning leaves some of the segments. -/
theorem mem_segments_of_mem_cleanSegments {path s : String} (h : s ∈ cleanSegments path) :
    s ∈ segments path := by
  have hpush : ∀ (segs stack : List String), s ∈ segs.foldl push stack → s ∈ stack ∨ s ∈ segs := by
    intro segs
    induction segs with
    | nil => exact fun stack hs => .inl hs
    | cons first segs ih =>
        intro stack hs
        rcases ih _ hs with hs | hs
        · unfold push at hs
          split at hs
          · exact .inl (List.mem_of_mem_tail hs)
          · rcases List.mem_cons.mp hs with rfl | hs
            · exact .inr List.mem_cons_self
            · exact .inl hs
        · exact .inr (List.mem_cons_of_mem _ hs)
  rcases hpush _ _ (List.mem_reverse.mp h) with hnil | hs
  · cases hnil
  · exact hs

/-- A text without NUL has none in its segments. -/
theorem nul_not_mem_cleanSegments {path : String} (h : '\x00' ∉ path.toList) :
    ∀ s ∈ cleanSegments path, '\x00' ∉ s.toList := by
  intro s hs hc
  have hpiece := (List.mem_filter.mp (mem_segments_of_mem_cleanSegments hs)).1
  exact h (mem_toList_of_mem_pieces hpiece hc)

/-! ## One text for each path -/

theorem Canonical.clean_eq {path : String} (h : Canonical path) : clean path = path := by
  obtain ⟨segs, hsegs, rfl⟩ := h
  exact clean_ofSegments hsegs

theorem segments_clean (path : String) : segments (clean path) = cleanSegments path :=
  segments_ofSegments (areSegments_cleanSegments path)

/-- What is cleaned is determined by where the segments lead. -/
theorem clean_congr {path path' : String}
    (h : (segments path).foldl push [] = (segments path').foldl push []) :
    clean path = clean path' := by
  show ofSegments ((segments path).foldl push []).reverse = _
  rw [h]
  rfl

/-- The segments of a cleaned text lead where those of the text lead. -/
theorem foldl_push_segments_clean (path : String) :
    (segments (clean path)).foldl push [] = (segments path).foldl push [] := by
  rw [segments_clean, foldl_push_of_areSegments (areSegments_cleanSegments path),
    List.append_nil]
  exact List.reverse_reverse _

/-- A text can be cleaned up to any of its slashes before. -/
theorem clean_append_slash (front back : String) :
    clean (front ++ "/" ++ back) = clean (clean front ++ "/" ++ back) := by
  apply clean_congr
  rw [segments_append_slash, segments_append_slash, List.foldl_append, List.foldl_append,
    foldl_push_segments_clean]

/-- The segments of two texts that callers may use tell their paths apart. -/
theorem normalize_inj {path path' q q' : String} (h : normalize path = .ok q)
    (h' : normalize path' = .ok q') : q = q' ↔ segments path = segments path' := by
  obtain ⟨rfl, hsegs, -⟩ := normalize_eq_ok h
  obtain ⟨rfl, hsegs', -⟩ := normalize_eq_ok h'
  constructor
  · exact ofSegments_injective hsegs hsegs'
  · intro he
    rw [he]

theorem not_mem_toList_ofSegments {segs : List String} {c : Char} (hc : c ≠ '/')
    (h : ∀ s ∈ segs, c ∉ s.toList) : c ∉ (ofSegments segs).toList := by
  rcases List.eq_nil_or_concat segs with rfl | ⟨front, last, rfl⟩
  · show c ∉ ['/']
    simpa using hc
  · rw [toList_ofSegments (by simp)]
    intro hmem
    obtain ⟨s, hs, hmem⟩ := List.mem_flatMap.mp hmem
    rcases List.mem_cons.mp hmem with he | hmem
    · exact hc he
    · exact h s hs hmem

/-- A path comes out of `normalize` as it is. -/
theorem normalize_normalize {path q : String} (h : normalize path = .ok q) :
    normalize q = .ok q := by
  obtain ⟨rfl, hsegs, hnul⟩ := normalize_eq_ok h
  exact normalize_ofSegments hsegs hnul

/-- A text is refused just when a piece of it is `..` or holds a NUL. Otherwise it has a canonical
form without NUL, which is its own, and which `clean` finds as well. What `clean` makes of any text
is canonical, and canonical texts are left as they are, so a second time changes nothing; and a text
may be cleaned up to any of its slashes before. Two texts that are not refused have the same
canonical form just when they have the same segments. -/
theorem normalization_laws (p a b : String) :
    (∀ fault, normalize p = .error fault ↔
      fault = .invalidPath p ∧ ∃ piece ∈ pieces p, piece = ".." ∨ '\x00' ∈ piece.toList) ∧
    (∀ q, normalize p = .ok q →
      Canonical q ∧ '\x00' ∉ q.toList ∧ normalize q = .ok q ∧ clean p = q) ∧
    Canonical (clean p) ∧ clean (clean p) = clean p ∧ (Canonical p → clean p = p) ∧
    clean (a ++ "/" ++ b) = clean (clean a ++ "/" ++ b) ∧
    (∀ q r, normalize a = .ok q → normalize b = .ok r → (q = r ↔ segments a = segments b)) := by
  refine ⟨fun fault => normalize_eq_error_iff, ?_, canonical_clean p,
    (canonical_clean p).clean_eq, Canonical.clean_eq, clean_append_slash a b,
    fun q r => normalize_inj⟩
  intro q hq
  obtain ⟨hform, hsegs, hnul⟩ := normalize_eq_ok hq
  refine ⟨⟨segments p, hsegs, hform⟩, ?_, normalize_normalize hq, clean_of_normalize hq⟩
  rw [hform]
  exact not_mem_toList_ofSegments (by decide) hnul

/-- A text that leads back is refused and still cleaned; two others have one canonical form, since
they have the same segments. -/
theorem normalization_laws_settings :
    normalize "//app/./x/../settings/" = .error (.invalidPath "//app/./x/../settings/") ∧
    clean ("//app/./x" ++ "/" ++ "../settings/") =
      clean (clean "//app/./x" ++ "/" ++ "../settings/") ∧
    normalize "app//settings/." = .ok "/app/settings" ∧
    normalize "/app/settings" = .ok "/app/settings" ∧
    segments "app//settings/." = segments "/app/./settings" := by
  have hfirst : normalize "app//settings/." = .ok "/app/settings" := rfl
  have hsecond : normalize "/app/./settings" = .ok "/app/settings" := rfl
  obtain ⟨hrefused, -, -, -, -, hcomposed, -⟩ :=
    normalization_laws "//app/./x/../settings/" "//app/./x" "../settings/"
  obtain ⟨-, hallowed, -, -, -, -, hsame⟩ :=
    normalization_laws "app//settings/." "app//settings/." "/app/./settings"
  refine ⟨(hrefused _).mpr ⟨rfl, "..", by decide, .inl rfl⟩, hcomposed, hfirst, ?_,
    (hsame _ _ hfirst hsecond).mp rfl⟩
  exact (hallowed _ hfirst).2.2.1

/-! ## Detours -/

/-- A part of a text that leads nowhere: nothing, `.`, or a segment and back again. -/
inductive Detour : String → Prop where
  | nothing : Detour ""
  | here : Detour "."
  | back {s : String} (h : IsSegment s) : Detour (s ++ "/" ++ "..")

/-- The text `path'` is `path` with detours put in: at a slash, before the text, or behind it. -/
inductive Respelled (path : String) : String → Prop where
  | self : Respelled path path
  | within {front back detour : String} (h : Respelled path (front ++ "/" ++ back))
      (hd : Detour detour) : Respelled path (front ++ "/" ++ (detour ++ "/" ++ back))
  | before {path' detour : String} (h : Respelled path path') (hd : Detour detour) :
      Respelled path (detour ++ "/" ++ path')
  | behind {path' detour : String} (h : Respelled path path') (hd : Detour detour) :
      Respelled path (path' ++ "/" ++ detour)

/-- A detour leads back to where it began. -/
theorem Detour.foldl_push {detour : String} (h : Detour detour) (stack : List String) :
    (segments detour).foldl push stack = stack := by
  cases h with
  | nothing => rfl
  | here => rfl
  | @back s h =>
      have hup : (s == "..") = false := by simpa using h.2.2.1
      have hsegs : segments (s ++ "/" ++ "..") = [s, ".."] := by
        rw [segments_append_slash, segments_of_isSegment h]
        rfl
      rw [hsegs]
      show push (push stack s) ".." = stack
      rw [push, push, hup]
      rfl

/-- Detours change nothing about the path. -/
theorem Respelled.clean_eq {path path' : String} (h : Respelled path path') :
    clean path' = clean path := by
  apply clean_congr
  induction h with
  | self => rfl
  | within _ hd ih =>
      rw [← ih, segments_append_slash, segments_append_slash, segments_append_slash,
        List.foldl_append, List.foldl_append, List.foldl_append, hd.foldl_push]
  | before _ hd ih =>
      rw [← ih, segments_append_slash, List.foldl_append, hd.foldl_push]
  | behind _ hd ih =>
      rw [← ih, segments_append_slash, List.foldl_append, hd.foldl_push]

end LiveTree.Path
