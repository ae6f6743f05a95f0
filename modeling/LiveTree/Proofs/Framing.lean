import LiveTree.Connection
import LiveTree.Proofs.Octets
import Mathlib.Data.List.Forall2

/-!
# Where a reply ends

A client reads its replies off one stream. Except for the entries of a listing, a reply is either
one line or a content behind a line that tells its length, so it ends where the client can see it:
two streams that begin with replies to the same request, and are equal, begin with the same reply.

* **Lines** (`Reply.IsLine`): no text in a reply, whatever its wording, has a line break of its own.
* **Lengths**: the numeral of a length is a line of digits, and tells the length.
* **Streams** (`Reply.Possible.append_inj`, `Reply.streams_split`): one reply, then a sequence.
-/

namespace LiveTree

/-! ## Streams cut at a line feed -/

namespace Bytes

/-- Where the first line feed stands is read off a stream in one way. -/
theorem cut_unique {a b x y : List UInt8} (ha : 0x0A ∉ a) (hb : 0x0A ∉ b)
    (h : a ++ 0x0A :: x = b ++ 0x0A :: y) : a = b ∧ x = y := by
  induction a generalizing b with
  | nil =>
      cases b with
      | nil => exact ⟨rfl, (List.cons.inj h).2⟩
      | cons c b =>
        have hc : 0x0A = c := (List.cons.inj h).1
        exact absurd (hc ▸ List.mem_cons_self) hb
  | cons c a ih =>
      cases b with
      | nil =>
        have hc : c = 0x0A := (List.cons.inj h).1
        exact absurd (hc ▸ List.mem_cons_self) ha
      | cons d b =>
        obtain ⟨rfl, htail⟩ := List.cons.inj h
        obtain ⟨rfl, rfl⟩ := ih (List.not_mem_of_not_mem_cons ha) (List.not_mem_of_not_mem_cons hb)
          htail
        exact ⟨rfl, rfl⟩

/-- Parts of a stream, put together. -/
def joined (parts : List Bytes) : Bytes := parts.foldr (· ++ ·) #[]

@[simp] theorem joined_nil : joined [] = #[] := rfl

@[simp] theorem joined_cons (part : Bytes) (parts : List Bytes) :
    joined (part :: parts) = part ++ joined parts := rfl

@[simp] theorem joined_append (parts others : List Bytes) :
    joined (parts ++ others) = joined parts ++ joined others := by
  induction parts with
  | nil => simp
  | cons part parts ih => simp [ih]

/-- The numeral of a number tells the number. -/
theorem toString_injective {m n : Nat} (h : octetsOf (toString m) = octetsOf (toString n)) :
    m = n := by
  have htext : String.ofList (Nat.toDigits 10 m) = String.ofList (Nat.toDigits 10 n) :=
    octetsOf_injective h
  have hdigits : Nat.toDigits 10 m = Nat.toDigits 10 n := String.ofList_injective htext
  rw [← Nat.ofDigitChars_toDigits (b := 10) (n := m) (by omega) (by omega), hdigits,
    Nat.ofDigitChars_toDigits (by omega) (by omega)]

end Bytes

namespace Reply

/-! ## Texts without a line break -/

/-- The text has no line break. -/
def Unbroken (s : String) : Prop := ∀ c ∈ s.toList, c ≠ '\n' ∧ c ≠ '\r'

instance (s : String) : Decidable (Unbroken s) :=
  decidable_of_iff (s.toList.all fun c => c != '\n' && c != '\r') (by simp [Unbroken])

theorem Unbroken.append {s t : String} (hs : Unbroken s) (ht : Unbroken t) : Unbroken (s ++ t) := by
  intro c hc
  rw [String.toList_append, List.mem_append] at hc
  exact hc.elim (hs c) (ht c)

/-- A message loses its line breaks when it is put on one line. -/
theorem unbroken_oneLine (text : String) : Unbroken (oneLine text) := by
  intro c hc
  rw [oneLine, String.toList_ofList, List.mem_map] at hc
  obtain ⟨d, -, rfl⟩ := hc
  split
  · decide
  · next hd => simp_all

theorem unbroken_toString (n : Nat) : Unbroken (toString n) := by
  intro c hc
  have hmem : c ∈ Nat.toDigits 10 n := by simpa using hc
  have hdigit : c.isDigit = true := Nat.isDigit_of_mem_toDigits (by omega) (by omega) hmem
  constructor
  · rintro rfl
    exact absurd hdigit (by decide)
  · rintro rfl
    exact absurd hdigit (by decide)

theorem unbroken_kind (f : Fault) : Unbroken f.kind := by
  cases f <;> simp [Fault.kind, Unbroken]

/-! ## Replies of one line -/

/-- The octets end in a line feed, and there is no other among them. -/
def Terminated (r : Bytes) : Prop := ∃ front : List UInt8, r.toList = front ++ [0x0A] ∧ 0x0A ∉ front

/-- A stream that begins with a terminated part tells the part. -/
theorem Terminated.append_inj {r s x y : Bytes} (hr : Terminated r) (hs : Terminated s)
    (h : r ++ x = s ++ y) : r = s ∧ x = y := by
  obtain ⟨front, hfront, hfree⟩ := hr
  obtain ⟨front', hfront', hfree'⟩ := hs
  have hlists : front ++ 0x0A :: x.toList = front' ++ 0x0A :: y.toList := by
    have := congrArg Array.toList h
    simpa [hfront, hfront'] using this
  obtain ⟨rfl, hrest⟩ := Bytes.cut_unique hfree hfree' hlists
  exact ⟨Array.toList_inj.mp (hfront.trans hfront'.symm), Array.toList_inj.mp hrest⟩

/-- The reply is one line: its last octet is a line feed, and it has no other line break. -/
def IsLine (r : Bytes) : Prop :=
  ∃ front : List UInt8, r.toList = front ++ [0x0A] ∧ 0x0A ∉ front ∧ 0x0D ∉ front

theorem IsLine.terminated {r : Bytes} (h : IsLine r) : Terminated r := by
  obtain ⟨front, hfront, hfree, -⟩ := h
  exact ⟨front, hfront, hfree⟩

/-- The reply begins with the text. -/
def Begins (tag : String) (r : Bytes) : Prop := ∃ rest : Bytes, r = Bytes.ofString tag ++ rest

theorem isLine_ofString {s : String} (h : Unbroken s) : IsLine (Bytes.ofString (s ++ "\n")) := by
  refine ⟨Bytes.octetsOf s, ?_, ?_, ?_⟩
  · show Bytes.octetsOf (s ++ "\n") = _
    rw [Bytes.octetsOf_append]
    rfl
  · intro hmem
    exact (h _ (Bytes.mem_toList_of_mem_octetsOf (by decide) hmem)).1 rfl
  · intro hmem
    exact (h _ (Bytes.mem_toList_of_mem_octetsOf (by decide) hmem)).2 rfl

theorem begins_ofString (tag s : String) : Begins tag (Bytes.ofString (tag ++ s)) :=
  ⟨_, Bytes.ofString_append tag s⟩

theorem Begins.append {tag : String} {r : Bytes} (h : Begins tag r) (x : Bytes) :
    Begins tag (r ++ x) := by
  obtain ⟨rest, rfl⟩ := h
  exact ⟨rest ++ x, Array.append_assoc⟩

/-- A stream that begins with a line tells the line. -/
theorem IsLine.append_inj {r s x y : Bytes} (hr : IsLine r) (hs : IsLine s) (h : r ++ x = s ++ y) :
    r = s ∧ x = y :=
  hr.terminated.append_inj hs.terminated h

/-- No stream begins both ways. -/
theorem Begins.ok_ne_err {r s : Bytes} (hr : Begins "ok" r) (hs : Begins "err " s) : r ≠ s := by
  rintro rfl
  obtain ⟨rest, rfl⟩ := hr
  obtain ⟨rest', h⟩ := hs
  have hlists := congrArg Array.toList h
  rw [Array.toList_append, Array.toList_append] at hlists
  have hfirst : (111 : UInt8) = 101 := (List.cons.inj hlists).1
  exact absurd hfirst (by decide)

/-! ### Faults, requests that are none, acknowledgements -/

theorem isLine_fault (f : Fault) : IsLine (fault f) :=
  isLine_ofString ((((by decide : Unbroken "err ").append (unbroken_kind f)).append
    (by decide)).append (unbroken_oneLine f.message))

theorem begins_fault (f : Fault) : Begins "err " (fault f) := by
  simp only [fault, String.append_assoc]
  exact begins_ofString _ _

theorem isLine_badRequest (e : RequestError) : IsLine (badRequest e) :=
  isLine_ofString ((by decide : Unbroken "err bad-request ").append (unbroken_oneLine e.message))

theorem begins_badRequest (e : RequestError) : Begins "err " (badRequest e) := by
  have hsplit : "err bad-request " = "err " ++ "bad-request " := rfl
  simp only [badRequest, hsplit, String.append_assoc]
  exact begins_ofString _ _

theorem isLine_ok {tail : String} (h : Unbroken tail) : IsLine (ok tail) := by
  unfold ok
  split
  · exact isLine_ofString (by decide : Unbroken "ok")
  · exact isLine_ofString ((by decide : Unbroken "ok ").append h)

theorem begins_ok (tail : String) : Begins "ok" (ok tail) := by
  unfold ok
  split
  · exact begins_ofString "ok" "\n"
  · have hsplit : "ok " = "ok" ++ " " := rfl
    simp only [hsplit, String.append_assoc]
    exact begins_ofString _ _

theorem isLine_attributes (a : Attributes) : IsLine (attributes a) := by
  unfold attributes
  split
  · exact isLine_ok (by decide)
  · exact isLine_ok ((by decide : Unbroken "file ").append (unbroken_toString _))

theorem begins_attributes (a : Attributes) : Begins "ok" (attributes a) := by
  unfold attributes
  split <;> exact begins_ok _

/-! ## Contents -/

/-- The line that tells the length of a content. -/
def header (length : Nat) : Bytes := Bytes.ofString ("ok " ++ toString length ++ "\n")

theorem isLine_header (length : Nat) : IsLine (header length) :=
  isLine_ofString ((by decide : Unbroken "ok ").append (unbroken_toString length))

/-- The line tells the length. -/
theorem header_injective {m n : Nat} (h : header m = header n) : m = n := by
  have hoctets : Bytes.octetsOf ("ok " ++ toString m ++ "\n") =
      Bytes.octetsOf ("ok " ++ toString n ++ "\n") := congrArg Array.toList h
  simp only [Bytes.octetsOf_append, List.append_assoc, List.append_cancel_left_eq,
    List.append_cancel_right_eq] at hoctets
  exact Bytes.toString_injective hoctets

theorem data_eq (content : Bytes) :
    data content = header content.size ++ (content ++ Bytes.ofString "\n") := rfl

theorem begins_data (content : Bytes) : Begins "ok" (data content) := by
  have hsplit : "ok " = "ok" ++ " " := rfl
  refine Begins.append ?_ _
  simp only [hsplit, String.append_assoc]
  exact begins_ofString _ _

/-- A stream that begins with a content tells the content, whatever is in it. -/
theorem data_append_inj {a b x y : Bytes} (h : data a ++ x = data b ++ y) : a = b ∧ x = y := by
  simp only [data_eq, Array.append_assoc] at h
  obtain ⟨hheader, hrest⟩ := (isLine_header a.size).append_inj (isLine_header b.size) h
  have hsize : a.size = b.size := header_injective hheader
  obtain ⟨rfl, htail⟩ := Array.append_inj hrest hsize
  exact ⟨rfl, (Array.append_inj htail rfl).2⟩

/-! ## Replies to the requests of a kind -/

/-- The kinds of request whose replies end by themselves. -/
inductive Kind where
  | stat | cat | put | truncate | watch
deriving DecidableEq, Repr

/-- What is written when a request of the kind is served. -/
inductive Answer : Kind → Bytes → Prop
  | attributes (a : Attributes) : Answer .stat (attributes a)
  | content (c : Bytes) : Answer .cat (data c)
  | count (n : Nat) : Answer .put (ok (toString n))
  | resized : Answer .truncate (ok "")
  | news (c : Bytes) : Answer .watch (data c)

/-- What is written when it is not: the fault, or that the line is no request. -/
inductive Refusal : Bytes → Prop
  | fault (f : Fault) : Refusal (fault f)
  | badRequest (e : RequestError) : Refusal (badRequest e)

/-- The replies that a request of the kind may have. -/
def Possible (kind : Kind) (r : Bytes) : Prop := Answer kind r ∨ Refusal r

variable {kind : Kind} {r s x y : Bytes}

theorem Refusal.isLine (h : Refusal r) : IsLine r := by
  cases h with
  | fault f => exact isLine_fault f
  | badRequest e => exact isLine_badRequest e

theorem Refusal.begins (h : Refusal r) : Begins "err " r := by
  cases h with
  | fault f => exact begins_fault f
  | badRequest e => exact begins_badRequest e

theorem Answer.begins (h : Answer kind r) : Begins "ok" r := by
  cases h with
  | attributes a => exact begins_attributes a
  | content c => exact begins_data c
  | count n => exact begins_ok _
  | resized => exact begins_ok _
  | news c => exact begins_data c

/-- Answers to requests of one kind are told apart. -/
theorem Answer.append_inj (hr : Answer kind r) (hs : Answer kind s) (h : r ++ x = s ++ y) :
    r = s ∧ x = y := by
  cases hr with
  | attributes a =>
      cases hs with
      | attributes b => exact (isLine_attributes a).append_inj (isLine_attributes b) h
  | content a =>
      cases hs with
      | content b =>
        obtain ⟨rfl, rfl⟩ := data_append_inj h
        exact ⟨rfl, rfl⟩
  | count m =>
      cases hs with
      | count n =>
        exact (isLine_ok (unbroken_toString m)).append_inj (isLine_ok (unbroken_toString n)) h
  | resized =>
      cases hs
      exact (isLine_ok (by decide)).append_inj (isLine_ok (by decide)) h
  | news a =>
      cases hs with
      | news b =>
        obtain ⟨rfl, rfl⟩ := data_append_inj h
        exact ⟨rfl, rfl⟩

/-- Replies to requests of one kind are told apart: answers among each other, faults among each
other, and one from the other by the first octet. -/
theorem Possible.append_inj (hr : Possible kind r) (hs : Possible kind s) (h : r ++ x = s ++ y) :
    r = s ∧ x = y := by
  rcases hr with hr | hr
  · rcases hs with hs | hs
    · exact hr.append_inj hs h
    · exact absurd h ((hr.begins.append x).ok_ne_err (hs.begins.append y))
  · rcases hs with hs | hs
    · exact absurd h.symm ((hs.begins.append y).ok_ne_err (hr.begins.append x))
    · exact hr.isLine.append_inj hs.isLine h

/-- A stream of replies to known requests is told apart reply by reply. -/
theorem joined_append_inj {kinds : List Kind} {rs ss : List Bytes}
    (hr : List.Forall₂ Possible kinds rs) (hs : List.Forall₂ Possible kinds ss)
    (h : Bytes.joined rs ++ x = Bytes.joined ss ++ y) : rs = ss ∧ x = y := by
  induction hr generalizing ss with
  | nil =>
      cases hs
      exact ⟨rfl, by simpa using h⟩
  | cons hfirst hrest ih =>
      cases hs with
      | cons hfirst' hrest' =>
        simp only [Bytes.joined_cons, Array.append_assoc] at h
        obtain ⟨rfl, htail⟩ := hfirst.append_inj hfirst' h
        obtain ⟨rfl, rfl⟩ := ih hrest' htail
        exact ⟨rfl, rfl⟩

/-- The encoding of a result is a possible reply when the encoding of a value is an answer. -/
theorem possible_ofResult {α : Type} {encode : α → Bytes} (h : ∀ value, Answer kind (encode value))
    (result : Except Fault α) : Possible kind (ofResult encode result) := by
  cases result with
  | ok value => exact .inl (h value)
  | error f => exact .inr (.fault f)

end Reply

/-! ## The replies of a connection -/

/-- The kind of a request, unless it is a listing or has no reply. -/
def Request.kind? : Request → Option Reply.Kind
  | .stat _ => some .stat
  | .cat _ => some .cat
  | .put _ _ => some .put
  | .truncate _ _ => some .truncate
  | .watch _ => some .watch
  | .list _ | .quit => none

namespace Connection

open Reply

variable {σ ε : Type} [Foreign ε] {t : Tree σ ε} {kind : Kind}

theorem possible_execute {request : Request} (h : request.kind? = some kind) :
    Possible kind (execute t request).1 := by
  cases request with
  | stat path =>
      obtain rfl := Option.some.inj h
      exact possible_ofResult .attributes _
  | cat path =>
      obtain rfl := Option.some.inj h
      exact possible_ofResult .content _
  | put path data =>
      obtain rfl := Option.some.inj h
      exact possible_ofResult .count _
  | truncate path size =>
      obtain rfl := Option.some.inj h
      exact possible_ofResult (fun _ => .resized) _
  | watch path => exact .inr (.fault _)
  | list path => cases h
  | quit => cases h

/-- What serving a watch writes: a reply it may have, or nothing while the connection waits and when
it is over. -/
def WatchReply (reply : Bytes) (phase : Phase) : Prop :=
  Possible .watch reply ∨ reply = #[] ∧ phase ≠ .idle

theorem watchReply_beginWatch (t : Tree σ ε) (path : String) :
    WatchReply (beginWatch t path).1 (beginWatch t path).2.1 := by
  unfold beginWatch
  split
  · exact .inl (.inr (.fault _))
  · split
    · exact .inl (possible_ofResult .news _)
    · exact .inr ⟨rfl, by rintro ⟨⟩⟩

theorem watchReply_settle (t : Tree σ ε) (h : Handle) (poll : Poll) (received : Bytes) :
    WatchReply (settle t ⟨.watching h poll, received⟩).1
      (settle t ⟨.watching h poll, received⟩).2.1.phase := by
  unfold settle
  dsimp only
  split
  · exact .inr ⟨rfl, by rintro ⟨⟩⟩
  · exact .inl (possible_ofResult .news _)

/-- The line that cancels a watch brings the reply of the watch, unless the connection ends. -/
theorem watchReply_serveLine (t : Tree σ ε) (h : Handle) (poll : Poll) (line : Bytes) :
    WatchReply (serveLine t (.watching h poll) line).1
      (serveLine t (.watching h poll) line).2.1 := by
  unfold serveLine
  dsimp only
  split
  · exact .inr ⟨rfl, by rintro ⟨⟩⟩
  · exact .inl (.inr (.fault _))

/-- Replies delimit themselves. A content is read off a stream in one way, whatever is in it; faults
and requests that are none take one line, which begins with `err `, and attributes and
acknowledgements take one line, which begins with `ok`. So of two equal streams that begin with
replies to requests of the same kinds the replies are the same, and what follows them; and the
replies of a connection to such requests are of this form. -/
theorem replies_delimit_themselves {σ ε : Type} [Foreign ε] :
    (∀ a b x y : Bytes, data a ++ x = data b ++ y → a = b ∧ x = y) ∧
    (∀ f : Fault, IsLine (fault f) ∧ Begins "err " (fault f)) ∧
    (∀ e : RequestError, IsLine (badRequest e) ∧ Begins "err " (badRequest e)) ∧
    (∀ a : Attributes, IsLine (attributes a) ∧ Begins "ok" (attributes a)) ∧
    (∀ n : Nat, IsLine (ok (toString n)) ∧ Begins "ok" (ok (toString n))) ∧
    (IsLine (ok "") ∧ Begins "ok" (ok "")) ∧
    (∀ (kind : Kind) (r s x y : Bytes),
      Possible kind r → Possible kind s → r ++ x = s ++ y → r = s ∧ x = y) ∧
    (∀ (kinds : List Kind) (rs ss : List Bytes) (x y : Bytes),
      List.Forall₂ Possible kinds rs → List.Forall₂ Possible kinds ss →
        Bytes.joined rs ++ x = Bytes.joined ss ++ y → rs = ss ∧ x = y) ∧
    (∀ (t : Tree σ ε) (request : Request) (kind : Kind),
      request.kind? = some kind → Possible kind (execute t request).1) ∧
    (∀ (t : Tree σ ε) (path : String), WatchReply (beginWatch t path).1 (beginWatch t path).2.1) ∧
    (∀ (t : Tree σ ε) (h : Handle) (poll : Poll) (received : Bytes),
      WatchReply (settle t ⟨.watching h poll, received⟩).1
        (settle t ⟨.watching h poll, received⟩).2.1.phase) ∧
    (∀ (t : Tree σ ε) (h : Handle) (poll : Poll) (line : Bytes),
      WatchReply (serveLine t (.watching h poll) line).1
        (serveLine t (.watching h poll) line).2.1) := by
  refine ⟨fun a b x y => data_append_inj, fun f => ⟨isLine_fault f, begins_fault f⟩,
    fun e => ⟨isLine_badRequest e, begins_badRequest e⟩,
    fun a => ⟨isLine_attributes a, begins_attributes a⟩,
    fun n => ⟨isLine_ok (unbroken_toString n), begins_ok _⟩,
    ⟨isLine_ok (by decide), begins_ok _⟩, ?_, ?_, ?_,
    watchReply_beginWatch, watchReply_settle, watchReply_serveLine⟩
  · intro kind r s x y hr hs h
    exact hr.append_inj hs h
  · intro kinds rs ss x y hr hs h
    exact joined_append_inj hr hs h
  · intro t request kind h
    exact possible_execute h

/-- A content that looks like a reply, and the acknowledgement behind it: whoever reads the stream
as two such replies reads these. -/
theorem replies_delimit_themselves_lookalike :
    List.Forall₂ Possible [.cat, .put] [data (Bytes.ofString "ok 1\nok 2\n"), ok "5"] ∧
    Bytes.joined [data (Bytes.ofString "ok 1\nok 2\n"), ok "5"] ++ #[] =
      Bytes.ofString "ok 10\nok 1\nok 2\n\nok 5\n" ∧
    [data (Bytes.ofString "ok 1\nok 2\n"), ok "5"] =
      [data (Bytes.ofString "ok 1\nok 2\n"), ok (toString 5)] ∧
    Possible .put (execute ({ publisher := () } : Tree Unit Empty) (.put "/a" #[])).1 := by
  have hpossible : List.Forall₂ Possible [.cat, .put]
      [data (Bytes.ofString "ok 1\nok 2\n"), ok (toString 5)] :=
    .cons (.inl (.content _)) (.cons (.inl (.count 5)) .nil)
  have hsplit := (replies_delimit_themselves (σ := Unit) (ε := Empty)).2.2.2.2.2.2.2.1
  have hreply := (replies_delimit_themselves (σ := Unit) (ε := Empty)).2.2.2.2.2.2.2.2.1
  exact ⟨hpossible, by decide, (hsplit _ _ _ #[] #[] hpossible hpossible rfl).1, hreply _ _ _ rfl⟩

end Connection

end LiveTree
