import LiveTree.Proofs.Framing
import LiveTree.Proofs.Listing

/-!
# The lines of a listing

The reply to a listing announces how many names there are, and has a piece for each: the name, a
slash if it is a directory, and a line feed. A client that takes as many lines as were announced has
the listing, as long as no listed name holds a line feed (`Reply.framed_listing_iff`), and then it
knows the entries (`Reply.listing_append_inj`).

Whether there is such a name, the nodes decide. A name may hold any character but a slash and NUL, so
a publisher may serve a file or a key with a line feed, or a directory on the way to it. Such a reply
has more lines than it announces, one for each line feed in a name (`Reply.lineFeeds_listing`), and
may be the reply to another listing too (`listing_lines_noted`).
-/

namespace LiveTree

namespace Reply

/-! ## Line feeds -/

/-- How many line feeds there are. -/
def lineFeeds (r : Bytes) : Nat := r.toList.count 0x0A

@[simp] theorem lineFeeds_append (r s : Bytes) : lineFeeds (r ++ s) = lineFeeds r + lineFeeds s := by
  simp [lineFeeds]

theorem count_utf8EncodeChar (c : Char) :
    (String.utf8EncodeChar c).count 0x0A = if c = '\n' then 1 else 0 := by
  split
  · next hc =>
    subst hc
    decide
  · next hc =>
    refine List.count_eq_zero.mpr fun hmem => hc ?_
    have hnumber : c.toNat = '\n'.toNat := Bytes.toNat_of_mem_utf8EncodeChar (by decide) hmem
    rw [← Char.ofNat_toNat c, hnumber]
    rfl

/-- A text has a line feed where it has the character. -/
theorem lineFeeds_ofString (s : String) : lineFeeds (Bytes.ofString s) = s.toList.count '\n' := by
  show (s.toList.flatMap String.utf8EncodeChar).count 0x0A = _
  induction s.toList with
  | nil => rfl
  | cons c rest ih =>
      rw [List.flatMap_cons, List.count_append, ih, count_utf8EncodeChar, List.count_cons,
        Nat.add_comm]
      simp

theorem Terminated.lineFeeds {r : Bytes} (h : Terminated r) : lineFeeds r = 1 := by
  obtain ⟨front, hfront, hfree⟩ := h
  rw [Reply.lineFeeds, hfront, List.count_append, List.count_eq_zero.mpr hfree]
  rfl

theorem lineFeeds_joined {lines : List Bytes} (h : ∀ line ∈ lines, Terminated line) :
    lineFeeds (Bytes.joined lines) = lines.length := by
  induction lines with
  | nil => rfl
  | cons line lines ih =>
      rw [Bytes.joined_cons, lineFeeds_append, (h line List.mem_cons_self).lineFeeds,
        ih fun other hother => h other (List.mem_cons_of_mem line hother), List.length_cons,
        Nat.add_comm]

/-- Terminated parts are read off a stream one by one. -/
theorem joined_terminated_inj {lines others : List Bytes} {x y : Bytes}
    (hlength : lines.length = others.length) (h : ∀ line ∈ lines, Terminated line)
    (h' : ∀ line ∈ others, Terminated line)
    (heq : Bytes.joined lines ++ x = Bytes.joined others ++ y) : lines = others ∧ x = y := by
  induction lines generalizing others with
  | nil =>
      rw [List.eq_nil_of_length_eq_zero hlength.symm] at heq ⊢
      exact ⟨rfl, by simpa using heq⟩
  | cons line lines ih =>
      rcases others with _ | ⟨other, others⟩
      · cases hlength
      · simp only [Bytes.joined_cons, Array.append_assoc] at heq
        obtain ⟨rfl, hrest⟩ :=
          (h line List.mem_cons_self).append_inj (h' other List.mem_cons_self) heq
        obtain ⟨rfl, rfl⟩ := ih (Nat.succ.inj hlength)
          (fun l hl => h l (List.mem_cons_of_mem _ hl))
          (fun l hl => h' l (List.mem_cons_of_mem _ hl)) hrest
        exact ⟨rfl, rfl⟩

/-! ## Pieces -/

/-- The piece of an entry. -/
def piece (e : Entry) : Bytes := Bytes.ofString (entryLine e)

/-- A listing is the line of its length and the pieces. -/
theorem listing_eq (entries : List Entry) :
    listing entries = header entries.length ++ Bytes.joined (entries.map piece) := by
  have hpieces : Bytes.ofString (String.join (entries.map entryLine)) =
      Bytes.joined (entries.map piece) := by
    induction entries with
    | nil => rfl
    | cons e entries ih =>
        rw [List.map_cons, List.map_cons, Bytes.joined_cons, ← ih, piece, ← Bytes.ofString_append]
        simp [String.join_cons]
  rw [listing, Bytes.ofString_append, hpieces]
  rfl

theorem lineFeeds_piece (e : Entry) : lineFeeds (piece e) = e.name.toList.count '\n' + 1 := by
  rw [piece, lineFeeds_ofString, entryLine, String.toList_append, String.toList_append,
    List.count_append, List.count_append]
  split <;> rfl

/-- The piece of a name without a line feed is a line. -/
theorem terminated_piece {e : Entry} (h : '\n' ∉ e.name.toList) : Terminated (piece e) := by
  refine ⟨Bytes.octetsOf (e.name ++ if e.kind = .directory then "/" else ""), ?_, ?_⟩
  · show Bytes.octetsOf (entryLine e) = _
    rw [entryLine, Bytes.octetsOf_append]
    rfl
  · intro hmem
    have hfeed := Bytes.mem_toList_of_mem_octetsOf (by decide) hmem
    rw [String.toList_append, List.mem_append] at hfeed
    rcases hfeed with hfeed | hfeed
    · exact h hfeed
    · revert hfeed
      split <;> decide

/-- The piece tells the entry, since no name ends in a slash. -/
theorem piece_injective {e e' : Entry} (h : '/' ∉ e.name.toList) (h' : '/' ∉ e'.name.toList)
    (heq : piece e = piece e') : e = e' := by
  obtain ⟨name, kind⟩ := e
  obtain ⟨name', kind'⟩ := e'
  have htext : entryLine ⟨name, kind⟩ = entryLine ⟨name', kind'⟩ :=
    Bytes.octetsOf_injective (congrArg Array.toList heq)
  have hchars := congrArg String.toList htext
  simp only [entryLine, String.toList_append, List.append_cancel_right_eq] at hchars
  cases kind <;> cases kind'
  · have hname : name.toList = name'.toList := by simpa using hchars
    rw [String.toList_injective hname]
  · have hname : name.toList = name'.toList ++ ['/'] := by simpa using hchars
    exact absurd (hname ▸ List.mem_append_right _ List.mem_cons_self) h
  · have hname : name.toList ++ ['/'] = name'.toList := by simpa using hchars
    exact absurd (hname ▸ List.mem_append_right _ List.mem_cons_self) h'
  · have hname : name.toList = name'.toList := by simpa using hchars
    rw [String.toList_injective hname]

/-! ## Listings -/

variable {entries others : List Entry}

/-- No name holds a line feed. -/
def OnLines (entries : List Entry) : Prop := ∀ e ∈ entries, '\n' ∉ e.name.toList

/-- The reply announces this many lines, and they follow. -/
def Framed (count : Nat) (r : Bytes) : Prop :=
  ∃ lines : List Bytes, r = header count ++ Bytes.joined lines ∧ lines.length = count ∧
    ∀ line ∈ lines, Terminated line

/-- Besides the announced lines there is one for each line feed in a name. -/
theorem lineFeeds_listing (entries : List Entry) :
    lineFeeds (listing entries) =
      1 + entries.length + (entries.flatMap (·.name.toList)).count '\n' := by
  have hpieces : lineFeeds (Bytes.joined (entries.map piece)) =
      entries.length + (entries.flatMap (·.name.toList)).count '\n' := by
    induction entries with
    | nil => rfl
    | cons e entries ih =>
        rw [List.map_cons, Bytes.joined_cons, lineFeeds_append, lineFeeds_piece, ih,
          List.flatMap_cons, List.count_append, List.length_cons]
        omega
  rw [listing_eq, lineFeeds_append, (isLine_header _).terminated.lineFeeds, hpieces, Nat.add_assoc]

theorem OnLines.terminated (h : OnLines entries) :
    ∀ line ∈ entries.map piece, Terminated line := by
  intro line hline
  obtain ⟨e, he, rfl⟩ := List.mem_map.mp hline
  exact terminated_piece (h e he)

/-- A listing has the lines that it announces when no name holds a line feed. -/
theorem framed_listing_iff : Framed entries.length (listing entries) ↔ OnLines entries := by
  constructor
  · rintro ⟨lines, heq, hlength, hlines⟩
    have hcount := congrArg lineFeeds heq
    rw [lineFeeds_listing, lineFeeds_append, (isLine_header _).terminated.lineFeeds,
      lineFeeds_joined hlines, hlength, Nat.add_eq_left] at hcount
    intro e he
    exact fun hfeed => List.count_eq_zero.mp hcount (List.mem_flatMap.mpr ⟨e, he, hfeed⟩)
  · intro h
    exact ⟨_, listing_eq entries, List.length_map .., h.terminated⟩

/-- A stream that begins with a listing tells the entries. -/
theorem listing_append_inj {x y : Bytes} (h : OnLines entries) (h' : OnLines others)
    (hslash : ∀ e ∈ entries, '/' ∉ e.name.toList) (hslash' : ∀ e ∈ others, '/' ∉ e.name.toList)
    (heq : listing entries ++ x = listing others ++ y) : entries = others ∧ x = y := by
  simp only [listing_eq, Array.append_assoc] at heq
  obtain ⟨hheader, hrest⟩ := (isLine_header _).append_inj (isLine_header _) heq
  have hlength : entries.length = others.length := header_injective hheader
  obtain ⟨hpieces, rfl⟩ := joined_terminated_inj (by simpa using hlength) h.terminated
    h'.terminated hrest
  refine ⟨?_, rfl⟩
  clear heq hheader hrest h h'
  induction entries generalizing others with
  | nil => exact (List.eq_nil_of_length_eq_zero hlength.symm).symm
  | cons e entries ih =>
      rcases others with _ | ⟨e', others⟩
      · cases hlength
      · obtain ⟨hfirst, hmore⟩ := List.cons.inj hpieces
        rw [piece_injective (hslash e List.mem_cons_self) (hslash' e' List.mem_cons_self) hfirst,
          ih (fun o ho => hslash o (List.mem_cons_of_mem _ ho))
            (fun o ho => hslash' o (List.mem_cons_of_mem _ ho)) (Nat.succ.inj hlength) hmore]

/-- No other listing has the reply of a listing without line feeds in its names, whatever is in the
names of the other. -/
theorem OnLines.listing_injective (h : OnLines entries)
    (hslash : ∀ e ∈ entries, '/' ∉ e.name.toList) (hslash' : ∀ e ∈ others, '/' ∉ e.name.toList)
    (heq : listing entries = listing others) : entries = others := by
  have hheader := heq
  simp only [listing_eq] at hheader
  have hlength : entries.length = others.length :=
    header_injective ((isLine_header _).append_inj (isLine_header _) hheader).1
  -- the other reply has the announced lines, because this one has them
  have h' : OnLines others := by
    rw [← framed_listing_iff, ← hlength, ← heq]
    exact framed_listing_iff.mpr h
  exact (listing_append_inj h h' hslash hslash' (congrArg (· ++ #[]) heq)).1

end Reply

namespace Tree

open LiveTree.Path (IsSegment)

variable {σ : Type} {t u : Tree σ Empty} {path : String} {entries : List Entry}

/-! ## What is listed -/

/-- A name under a directory can stand as a segment. -/
theorem Under.isSegment {s : σ} {segs : List String} {name : String} {n : Node σ Empty}
    (h : Under s segs name n) (ho : n.Orderly) : IsSegment name := by
  rcases h with ⟨-, hholds⟩ | ⟨rest, hplace⟩
  · exact (Path.isValidName_iff.mp (hholds.claims ho).isValidName).1
  · exact (Node.directory_eq n.isBuiltIn s).1 name (by simp [hplace])

theorem slash_not_mem_of_mem_list (h : Reachable t) (hlist : t.list path = .ok entries) :
    ∀ e ∈ entries, '/' ∉ e.name.toList := by
  intro e he
  obtain ⟨⟨n, hn, hunder⟩, -⟩ := (mem_list_iff h hlist).mp he
  exact (hunder.isSegment (hn.orderly h)).2.2.2

/-- Every name under the directory is listed, as a file or as a directory. -/
theorem exists_mem_list (h : Reachable t) (hlist : t.list path = .ok entries) {name : String}
    {n : Node σ Empty} (hn : t.Registered n)
    (hunder : Under t.publisher (Path.segments path) name n) : ∃ e ∈ entries, e.name = name := by
  by_cases hfile : ∃ n, t.Registered n ∧ n.place t.publisher = Path.segments path ∧ n.Holds name
  · exact ⟨⟨name, .file⟩, (mem_list_iff h hlist).mpr ⟨⟨n, hn, hunder⟩, by simpa using hfile⟩, rfl⟩
  · refine ⟨⟨name, .directory⟩, (mem_list_iff h hlist).mpr ⟨⟨n, hn, hunder⟩, ?_⟩, rfl⟩
    simpa using hfile

/-- The reply to a listing consists of the line of its length and a piece for each entry, and has one
line more than it announces for each line feed in a name. So it has the lines that it announces when
no registered node has a line feed in a name that it has under the directory. Then no other listing
has this reply, and neither the entries nor where the reply ends can be mistaken in a stream. -/
theorem listing_lines (h : Reachable t) (hlist : t.list path = .ok entries) :
    (Connection.execute t (.list path)).1 =
      Reply.header entries.length ++ Bytes.joined (entries.map Reply.piece) ∧
    Reply.lineFeeds (Connection.execute t (.list path)).1 =
      1 + entries.length + (entries.flatMap (·.name.toList)).count '\n' ∧
    (Reply.Framed entries.length (Connection.execute t (.list path)).1 ↔
      ∀ n, t.Registered n → ∀ name, Under t.publisher (Path.segments path) name n →
        '\n' ∉ name.toList) ∧
    (Reply.Framed entries.length (Connection.execute t (.list path)).1 →
      (∀ line ∈ entries.map Reply.piece, Reply.Terminated line) ∧
      ∀ (u : Tree σ Empty) path' entries', Reachable u → u.list path' = .ok entries' →
        ((Connection.execute t (.list path)).1 = (Connection.execute u (.list path')).1 →
          entries = entries') ∧
        (Reply.Framed entries'.length (Connection.execute u (.list path')).1 → ∀ x y,
          (Connection.execute t (.list path)).1 ++ x = (Connection.execute u (.list path')).1 ++ y →
            entries = entries' ∧ x = y)) := by
  have hreply : ∀ {u : Tree σ Empty} {path : String} {entries : List Entry},
      u.list path = .ok entries → (Connection.execute u (.list path)).1 = Reply.listing entries := by
    intro u path entries hlist
    simp only [Connection.execute, hlist, Reply.ofResult]
  have hslash := slash_not_mem_of_mem_list h hlist
  rw [hreply hlist, Reply.framed_listing_iff]
  refine ⟨Reply.listing_eq entries, Reply.lineFeeds_listing entries, ?_, ?_⟩
  · constructor
    · intro hlines n hn name hunder
      obtain ⟨e, he, rfl⟩ := exists_mem_list h hlist hn hunder
      exact hlines e he
    · intro hfree e he
      obtain ⟨⟨n, hn, hunder⟩, -⟩ := (mem_list_iff h hlist).mp he
      exact hfree n hn e.name hunder
  · intro hlines
    refine ⟨hlines.terminated, fun u path' entries' hu hlist' => ?_⟩
    have hslash' := slash_not_mem_of_mem_list hu hlist'
    rw [hreply hlist', Reply.framed_listing_iff]
    refine ⟨fun heq => hlines.listing_injective hslash hslash' heq, ?_⟩
    intro hlines' x y heq
    exact Reply.listing_append_inj hlines hlines' hslash hslash' heq

/-- A directory of keys. -/
def jottings : KeyStore Unit where
  directory := .fixed "/notes"

/-- The directory with these keys. -/
def noted (keys : List String) : Tree Unit Empty :=
  keys.foldl (fun t key => t.perform (.insert ⟨0⟩ key #[]))
    ((addNode { publisher := () } (.keyStore jottings)).2.perform (.register ⟨0⟩))

theorem reachable_noted (keys : List String) : Reachable (noted keys) := by
  have hinsert : ∀ (keys : List String) (t : Tree Unit Empty), Reachable t →
      Reachable (keys.foldl (fun t key => t.perform (.insert ⟨0⟩ key #[])) t) := by
    intro keys
    induction keys with
    | nil => exact fun _ h => h
    | cons key keys ih => exact fun t h => ih _ (.perform (.insert ⟨0⟩ key #[]) h)
  exact hinsert keys _ (.perform (.register ⟨0⟩) (.addNode _ (.empty {} ()) ⟨rfl, rfl⟩))

/-- Two keys, one of them with a line feed: the reply has three lines, and announces two. Another
directory has the same reply. -/
theorem listing_lines_noted :
    Reachable (noted ["a\nb", "c"]) ∧ Reachable (noted ["a", "b\nc"]) ∧
      (noted ["a\nb", "c"]).list "/notes" = .ok [⟨"a\nb", .file⟩, ⟨"c", .file⟩] ∧
      (noted ["a", "b\nc"]).list "/notes" = .ok [⟨"a", .file⟩, ⟨"b\nc", .file⟩] ∧
      (Connection.execute (noted ["a\nb", "c"]) (.list "/notes")).1 =
        (Connection.execute (noted ["a", "b\nc"]) (.list "/notes")).1 ∧
      ¬ Reply.Framed 2 (Connection.execute (noted ["a\nb", "c"]) (.list "/notes")).1 ∧
      Reply.Framed 2 (Connection.execute (noted ["ab", "c"]) (.list "/notes")).1 := by
  have hlist : (noted ["a\nb", "c"]).list "/notes" = .ok [⟨"a\nb", .file⟩, ⟨"c", .file⟩] := rfl
  have hlist' : (noted ["a", "b\nc"]).list "/notes" = .ok [⟨"a", .file⟩, ⟨"b\nc", .file⟩] := rfl
  have hsame : (Connection.execute (noted ["a\nb", "c"]) (.list "/notes")).1 =
      (Connection.execute (noted ["a", "b\nc"]) (.list "/notes")).1 := by decide
  have hbroken := listing_lines (reachable_noted ["a\nb", "c"]) hlist
  have hwhole := listing_lines (reachable_noted ["ab", "c"])
    (rfl : (noted ["ab", "c"]).list "/notes" = .ok [⟨"ab", .file⟩, ⟨"c", .file⟩])
  refine ⟨reachable_noted _, reachable_noted _, hlist, hlist', hsame, ?_, ?_⟩
  · intro hframed
    have heq := ((hbroken.2.2.2 hframed).2 _ _ _ (reachable_noted ["a", "b\nc"]) hlist').1 hsame
    exact absurd heq (by decide)
  · refine hwhole.2.2.1.mpr ?_
    rintro n ⟨r, hr, hn⟩ name hunder
    obtain rfl := List.mem_singleton.mp hr
    obtain rfl := Option.some.inj hn
    rcases hunder with ⟨-, hholds⟩ | ⟨rest, hplace⟩
    · have hkeys : name ∈ ["ab", "c"] := hholds
      rcases List.mem_cons.mp hkeys with rfl | hkeys
      · decide
      · rw [List.mem_singleton.mp hkeys]
        decide
    · have hplace' : ["notes"] = ["notes"] ++ name :: rest := hplace
      simp at hplace'

end Tree

end LiveTree
