import LiveTree.Proofs.Numerals
import LiveTree.Protocol.Request

/-!
# The grammar of requests

Two relations say what a line means without saying how that is found out. `Parted` cuts a line into
its parts: what stands at the end for the line break is left off, and the first two spaces divide
the rest. `Means` has one rule for each sentence that the parts can make, the refusals among them.
The parser follows both (`parse_grammar`), and so reads back every request that is `Written` as the
table of requests has it.
-/

namespace LiveTree.Request

/-! ## Parts -/

/-- The text holds nothing but the characters of line breaks. -/
def IsBreak (text : String) : Prop := ∀ c ∈ text.toList, c = '\r' ∨ c = '\n'

/-- The text does not end in a line break. -/
def Unended (text : String) : Prop := ∀ c, text.toList.getLast? = some c → c ≠ '\r' ∧ c ≠ '\n'

/-- The first two spaces of a text divide it into its parts. -/
inductive Splits : String → Parts → Prop
  | command {c : String} (hc : ' ' ∉ c.toList) : Splits c ⟨c, none, none⟩
  | argument {c a : String} (hc : ' ' ∉ c.toList) (ha : ' ' ∉ a.toList) :
      Splits (c ++ " " ++ a) ⟨c, some a, none⟩
  | rest {c a : String} (hc : ' ' ∉ c.toList) (ha : ' ' ∉ a.toList) (r : String) :
      Splits (c ++ " " ++ a ++ " " ++ r) ⟨c, some a, some r⟩

/-- The line has these parts, when the line break at its end is left off. -/
def Parted (line : String) (p : Parts) : Prop :=
  ∃ text tail : String, line = text ++ tail ∧ IsBreak tail ∧ Unended text ∧ Splits text p

theorem cut_of_not_mem {text : List Char} (h : ' ' ∉ text) : cut text = (text, none) := by
  have hdrop : text.dropWhile (· != ' ') = [] := by
    refine List.dropWhile_eq_nil_iff.mpr fun c hc => ?_
    have hne : c ≠ ' ' := fun he => h (he ▸ hc)
    simpa using hne
  rw [cut, hdrop]

theorem cut_append {front : List Char} (h : ' ' ∉ front) (back : List Char) :
    cut (front ++ ' ' :: back) = (front, some back) := by
  have hfront : ∀ c ∈ front, (c != ' ') = true := by
    intro c hc
    have hne : c ≠ ' ' := fun he => h (he ▸ hc)
    simpa using hne
  have hdrop : (front ++ ' ' :: back).dropWhile (· != ' ') = ' ' :: back := by
    rw [List.dropWhile_append_of_pos hfront]
    rfl
  have htake : (front ++ ' ' :: back).takeWhile (· != ' ') = front := by
    rw [List.takeWhile_append_of_pos hfront]
    simp
  rw [cut, hdrop, htake]

theorem trimEnd_eq_iff {line text : List Char} : trimEnd line = text ↔
    ∃ tail, line = text ++ tail ∧ (∀ c ∈ tail, c = '\r' ∨ c = '\n') ∧
      ∀ c, text.getLast? = some c → c ≠ '\r' ∧ c ≠ '\n' := by
  have htrim : trimEnd line = line.rdropWhile (fun c => c == '\r' || c == '\n') := rfl
  rw [htrim, Text.rdropWhile_eq_iff]
  simp

/-- The text before the line break is what trimming leaves. -/
theorem trimEnd_append {text tail : String} (htail : IsBreak tail) (htext : Unended text) :
    trimEnd (text ++ tail).toList = text.toList :=
  trimEnd_eq_iff.mpr ⟨tail.toList, String.toList_append, htail, htext⟩

theorem split_of_parted {line : String} {p : Parts} (h : Parted line p) : split line = p := by
  obtain ⟨text, tail, rfl, htail, htext, hsplits⟩ := h
  rw [split, trimEnd_append htail htext]
  cases hsplits with
  | command hc =>
      rw [cut_of_not_mem hc]
      simp
  | @argument c a hc ha =>
      have htoList : (c ++ " " ++ a).toList = c.toList ++ ' ' :: a.toList := by simp
      rw [htoList, cut_append hc]
      simp [cut_of_not_mem ha]
  | @rest c a hc ha r =>
      have htoList : (c ++ " " ++ a ++ " " ++ r).toList =
          c.toList ++ ' ' :: (a.toList ++ ' ' :: r.toList) := by simp
      rw [htoList, cut_append hc]
      simp [cut_append ha]

/-- A text has no space, or a first one. -/
theorem exists_first_space (text : String) : ' ' ∉ text.toList ∨
    ∃ front back : String, text = front ++ " " ++ back ∧ ' ' ∉ front.toList := by
  by_cases hspace : ' ' ∈ text.toList
  · obtain ⟨front, back, htext, hfront⟩ := List.eq_append_cons_of_mem hspace
    refine .inr ⟨String.ofList front, String.ofList back, ?_, by simpa using hfront⟩
    apply String.toList_injective
    simpa using htext
  · exact .inl hspace

theorem exists_splits (text : String) : ∃ p, Splits text p := by
  rcases exists_first_space text with hc | ⟨c, more, rfl, hc⟩
  · exact ⟨_, .command hc⟩
  · rcases exists_first_space more with ha | ⟨a, r, rfl, ha⟩
    · exact ⟨_, .argument hc ha⟩
    · have hparts := Splits.rest hc ha r
      have htext : c ++ " " ++ a ++ " " ++ r = c ++ " " ++ (a ++ " " ++ r) := by
        simp only [String.append_assoc]
      exact ⟨_, htext ▸ hparts⟩

/-- A line has its parts in one way. -/
theorem parted_iff {line : String} {p : Parts} : Parted line p ↔ split line = p := by
  constructor
  · exact split_of_parted
  · rintro rfl
    obtain ⟨tail, hline, htail, htext⟩ := trimEnd_eq_iff.mp (rfl : trimEnd line.toList = _)
    obtain ⟨p, hp⟩ := exists_splits (String.ofList (trimEnd line.toList))
    have hparted : Parted line p := by
      refine ⟨_, String.ofList tail, ?_, ?_, ?_, hp⟩
      · apply String.toList_injective
        simpa using hline
      · simpa [IsBreak] using htail
      · simpa [Unended] using htext
    rwa [split_of_parted hparted]

/-! ## Sentences -/

/-- The commands that take a path. -/
def pathCommands : List String := ["ls", "stat", "cat", "watch", "put", "truncate"]

/-- What the parts of a line mean: a request, or a reason why they are none. -/
inductive Means : Parts → Except RequestError Request → Prop
  | empty (argument rest : Option String) : Means ⟨"", argument, rest⟩ (.error .empty)
  | list {path : String} (h : path ≠ "") (rest : Option String) :
      Means ⟨"ls", some path, rest⟩ (.ok (.list path))
  | stat {path : String} (h : path ≠ "") (rest : Option String) :
      Means ⟨"stat", some path, rest⟩ (.ok (.stat path))
  | cat {path : String} (h : path ≠ "") (rest : Option String) :
      Means ⟨"cat", some path, rest⟩ (.ok (.cat path))
  | watch {path : String} (h : path ≠ "") (rest : Option String) :
      Means ⟨"watch", some path, rest⟩ (.ok (.watch path))
  | put {path : String} (h : path ≠ "") (data : String) :
      Means ⟨"put", some path, some data⟩ (.ok (.put path (Bytes.ofString data)))
  | putNothing {path : String} (h : path ≠ "") :
      Means ⟨"put", some path, none⟩ (.ok (.put path #[]))
  | truncate {path text : String} {size : Nat} (h : path ≠ "") (hs : Text.Spells text.toList size) :
      Means ⟨"truncate", some path, some text⟩ (.ok (.truncate path size))
  | quit (argument rest : Option String) : Means ⟨"quit", argument, rest⟩ (.ok .quit)
  | noPath {command : String} {argument : Option String} (hc : command ∈ pathCommands)
      (ha : argument = none ∨ argument = some "") (rest : Option String) :
      Means ⟨command, argument, rest⟩ (.error (.missingArgument command "path"))
  | noSize {path : String} (h : path ≠ "") :
      Means ⟨"truncate", some path, none⟩ (.error (.missingArgument "truncate" "size"))
  | noNumber {path text : String} (h : path ≠ "") (hs : ∀ size, ¬ Text.Spells text.toList size) :
      Means ⟨"truncate", some path, some text⟩ (.error (.badNumber text))
  | unknown {command : String} (hne : command ≠ "") (hc : command ∉ pathCommands)
      (hquit : command ≠ "quit") (argument rest : Option String) :
      Means ⟨command, argument, rest⟩ (.error (.unknownCommand command))

theorem Parts.path_of_ne {command path : String} {rest : Option String} (h : path ≠ "") :
    Parts.path ⟨command, some path, rest⟩ = .ok path := by
  simp [Parts.path, h]

theorem Parts.path_of_missing {command : String} {argument rest : Option String}
    (h : argument = none ∨ argument = some "") :
    Parts.path ⟨command, argument, rest⟩ = .error (.missingArgument command "path") := by
  rcases h with rfl | rfl <;> rfl

/-- A command that takes a path means what it means with each path, or misses one. -/
theorem Means.ofPath {command : String} (hc : command ∈ pathCommands)
    {argument rest : Option String} {make : String → Except RequestError Request}
    (hmake : ∀ path, path ≠ "" → Means ⟨command, some path, rest⟩ (make path)) :
    Means ⟨command, argument, rest⟩ (Parts.path ⟨command, argument, rest⟩ >>= make) := by
  have hmissing : argument = none ∨ argument = some "" →
      Means ⟨command, argument, rest⟩ (Parts.path ⟨command, argument, rest⟩ >>= make) := by
    intro ha
    rw [Parts.path_of_missing ha]
    exact .noPath hc ha rest
  rcases argument with _ | path
  · exact hmissing (.inl rfl)
  · by_cases h : path = ""
    · exact hmissing (.inr (congrArg some h))
    · rw [Parts.path_of_ne h]
      exact hmake path h

/-- Every sentence is one of the grammar. -/
theorem means_ofParts (p : Parts) : Means p (ofParts p) := by
  have hmap : ∀ (x : Except RequestError String) (f : String → Request),
      x.map f = x >>= fun path => .ok (f path) := by
    intro x f
    cases x <;> rfl
  obtain ⟨command, argument, rest⟩ := p
  unfold ofParts
  split <;> dsimp only at *
  · next h =>
    subst h
    exact .empty argument rest
  · next h =>
    subst h
    exact hmap _ _ ▸ .ofPath (by decide) fun path hne => .list hne rest
  · next h =>
    subst h
    exact hmap _ _ ▸ .ofPath (by decide) fun path hne => .stat hne rest
  · next h =>
    subst h
    exact hmap _ _ ▸ .ofPath (by decide) fun path hne => .cat hne rest
  · next h =>
    subst h
    exact hmap _ _ ▸ .ofPath (by decide) fun path hne => .watch hne rest
  · next h =>
    subst h
    refine hmap _ _ ▸ .ofPath (by decide) fun path hne => ?_
    rcases rest with _ | data
    · exact .putNothing hne
    · exact .put hne data
  · next h =>
    subst h
    refine .ofPath (by decide) fun path hne => ?_
    rcases rest with _ | text
    · exact .noSize hne
    · dsimp only [Parts.size]
      rcases hread : Text.readNumeral (Text.trim text.toList) with defect | size
      · refine .noNumber hne fun size hspells => ?_
        rw [Text.readNumeral_trim_eq_ok.mpr hspells] at hread
        cases hread
      · exact .truncate hne (Text.readNumeral_trim_eq_ok.mp hread)
  · next h =>
    subst h
    exact .quit argument rest
  · next hempty hls hstat hcat hwatch hput htruncate hquit =>
    refine .unknown hempty ?_ hquit argument rest
    simp only [pathCommands, List.mem_cons, List.not_mem_nil, or_false, not_or]
    exact ⟨hls, hstat, hcat, hwatch, hput, htruncate⟩

/-- The parts of a line have one meaning. -/
theorem Means.eq_ofParts {p : Parts} {result : Except RequestError Request} (h : Means p result) :
    ofParts p = result := by
  cases h with
  | empty argument rest => rfl
  | list h rest => simp [ofParts, Parts.path_of_ne h, Except.map]
  | stat h rest => simp [ofParts, Parts.path_of_ne h, Except.map]
  | cat h rest => simp [ofParts, Parts.path_of_ne h, Except.map]
  | watch h rest => simp [ofParts, Parts.path_of_ne h, Except.map]
  | put h data => simp [ofParts, Parts.path_of_ne h, Except.map]
  | putNothing h =>
      simp only [ofParts, Parts.path_of_ne h]
      rfl
  | truncate h hs =>
      simp only [ofParts, Parts.path_of_ne h, Parts.size, Text.readNumeral_trim_eq_ok.mpr hs]
      rfl
  | quit argument rest => rfl
  | @noPath command argument hc ha rest =>
      simp only [pathCommands, List.mem_cons, List.not_mem_nil, or_false] at hc
      rcases hc with rfl | rfl | rfl | rfl | rfl | rfl <;>
        simp only [ofParts, Parts.path_of_missing ha] <;> rfl
  | noSize h =>
      simp only [ofParts, Parts.path_of_ne h]
      rfl
  | @noNumber path text h hs =>
      simp only [ofParts, Parts.path_of_ne h, Parts.size]
      rcases hread : Text.readNumeral (Text.trim text.toList) with defect | size
      · rfl
      · exact absurd (Text.readNumeral_trim_eq_ok.mp hread) (hs size)
  | unknown hne hc hquit argument rest =>
      simp only [pathCommands, List.mem_cons, List.not_mem_nil, or_false, not_or] at hc
      obtain ⟨hls, hstat, hcat, hwatch, hput, htruncate⟩ := hc
      simp [ofParts]

theorem ofParts_eq_iff {p : Parts} {result : Except RequestError Request} :
    ofParts p = result ↔ Means p result := by
  constructor
  · rintro rfl
    exact means_ofParts p
  · exact Means.eq_ofParts

/-! ## Written requests -/

/-- The text can be an argument. -/
def IsWord (text : String) : Prop := text ≠ "" ∧ ' ' ∉ text.toList

/-- How requests are written. -/
inductive Written : Request → String → Prop
  | list {path : String} (h : IsWord path) : Written (.list path) ("ls " ++ path)
  | stat {path : String} (h : IsWord path) : Written (.stat path) ("stat " ++ path)
  | cat {path : String} (h : IsWord path) : Written (.cat path) ("cat " ++ path)
  | put {path : String} (h : IsWord path) (text : String) :
      Written (.put path (Bytes.ofString text)) ("put " ++ path ++ " " ++ text)
  | truncate {path : String} {size : Nat} (h : IsWord path) (hs : size < Text.wordLimit) :
      Written (.truncate path size) ("truncate " ++ path ++ " " ++ toString size)
  | watch {path : String} (h : IsWord path) : Written (.watch path) ("watch " ++ path)
  | quit : Written .quit "quit"

/-- A number is spelled by its decimal digits. -/
theorem spells_toString {size : Nat} (h : size < Text.wordLimit) :
    Text.Spells (toString size).toList size :=
  ⟨[], (toString size).toList, [], by simp, List.forall_mem_nil _, List.forall_mem_nil _,
    Text.isNumeral_toString h⟩

/-- What is written has parts that mean it. -/
theorem Written.means {request : Request} {line : String} (h : Written request line) :
    ∃ p, Splits line p ∧ Means p (.ok request) := by
  cases h with
  | list h => exact ⟨_, .argument (c := "ls") (by decide) h.2, .list h.1 none⟩
  | stat h => exact ⟨_, .argument (c := "stat") (by decide) h.2, .stat h.1 none⟩
  | cat h => exact ⟨_, .argument (c := "cat") (by decide) h.2, .cat h.1 none⟩
  | put h text => exact ⟨_, .rest (c := "put") (by decide) h.2 text, .put h.1 text⟩
  | @truncate path size h hs =>
      exact ⟨_, .rest (c := "truncate") (by decide) h.2 (toString size),
        .truncate h.1 (spells_toString hs)⟩
  | watch h => exact ⟨_, .argument (c := "watch") (by decide) h.2, .watch h.1 none⟩
  | quit => exact ⟨_, .command (by decide), .quit none none⟩

/-- The grammar of requests. Every line has its parts in one way, and stands for what they mean. So
a request that is written as the table has it is read back, with any line break behind it, unless
it ends in one itself. -/
theorem parse_grammar :
    (∀ line, ∃ parts, (∀ p, Parted line p ↔ p = parts) ∧
      ∀ result, parse line = result ↔ Means parts result) ∧
    (∀ request line, Written request line → Unended line → ∀ tail, IsBreak tail →
      parse (line ++ tail) = .ok request) := by
  constructor
  · intro line
    exact ⟨split line, fun p => parted_iff.trans eq_comm, fun result => ofParts_eq_iff⟩
  · intro request line hwritten hline tail htail
    obtain ⟨p, hsplits, hmeans⟩ := hwritten.means
    have hsplit : split (line ++ tail) = p :=
      split_of_parted ⟨line, tail, rfl, htail, hline, hsplits⟩
    rw [parse, hsplit]
    exact hmeans.eq_ofParts

/-- Spaces and line breaks within a text are read back, and a number of octets too. The first number
beyond 64 bits is refused. -/
theorem parse_grammar_motd :
    parse ("put " ++ "/motd" ++ " " ++ " back\r  soon" ++ "\r\n") =
      .ok (.put "/motd" (Bytes.ofString " back\r  soon")) ∧
    parse ("truncate " ++ "/motd" ++ " " ++ toString 12 ++ "\n") = .ok (.truncate "/motd" 12) ∧
    ∃ parts, Parted "truncate /motd 18446744073709551616" parts ∧
      Means parts (.error (.badNumber "18446744073709551616")) := by
  have hmotd : IsWord "/motd" := ⟨by decide, by decide⟩
  obtain ⟨hlines, hwritten⟩ := parse_grammar
  refine ⟨?_, ?_, ?_⟩
  · apply hwritten _ _ (.put hmotd " back\r  soon")
    · simp [Unended]
    · simp [IsBreak]
  · apply hwritten _ _ (.truncate hmotd (by decide))
    · have hlast : ("truncate " ++ "/motd" ++ " " ++ toString 12).toList.getLast? = some '2' := rfl
      rw [Unended, hlast]
      simp
    · simp [IsBreak]
  · obtain ⟨parts, hparts, hmeans⟩ := hlines "truncate /motd 18446744073709551616"
    have hrefused : parse "truncate /motd 18446744073709551616" =
        .error (.badNumber "18446744073709551616") := by decide +kernel
    exact ⟨parts, (hparts parts).mpr rfl, (hmeans _).mp hrefused⟩

end LiveTree.Request
