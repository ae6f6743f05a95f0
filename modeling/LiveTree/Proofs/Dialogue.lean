import LiveTree.Proofs.Framing

/-!
# One reply for each line

A client sends lines and reads replies, and has to know which reply belongs to which line. Here one
connection takes its steps one by one: a line is served, a watch goes on, the client hangs up. A
watch takes several steps (the open, the beginning of the poll, its end, the reply), and a line of
the client may come between any two of them. Between any two steps others may do anything to the
tree.

What a conversation ought to be is said apart from the steps, by an *account*: the lines in order,
each with what came of it (`Fate`). An account grows by the rules of `Account`, which say of each
line whether it is executed, on which tree, and what is replied. Whatever the steps are, there is an
account with the lines that came, whose replies, in order, are what was written (`accounts_run`).
From the rules it follows which lines have a reply (`Account.shape`): all, except those that cancel
a watch, the one at which the connection ends and those behind it, and a watch that still waits.

The connection of the server takes its input in pieces, begins a poll as soon as the file is open
and writes a reply as soon as there is one. Each of its operations is made of the steps above
(`reaches_receiveOnto`, `reaches_settle`, `reaches_finish`), with the lines into which the input is
cut at its line feeds.
-/

namespace LiveTree

/-! ## Input cut into lines -/

namespace Bytes

/-- The input is these lines, each with its line feed, and what has come of the next. -/
structure CutsInto (input : Bytes) (lines : List Bytes) (rest : Bytes) : Prop where
  whole : input = joined (lines.map (·.push 0x0A)) ++ rest
  lines : ∀ line ∈ lines, 0x0A ∉ line
  rest : 0x0A ∉ rest

variable {input rest rest' : Bytes} {lines lines' : List Bytes}

theorem cutsInto_rest (h : 0x0A ∉ rest) : CutsInto rest [] rest := ⟨by simp, nofun, h⟩

theorem cutsInto_line {line : Bytes} (h : 0x0A ∉ line) : CutsInto (line.push 0x0A) [line] #[] := by
  refine ⟨by simp, ?_, by simp⟩
  intro other hother
  rw [List.mem_singleton.mp hother]
  exact h

/-- What comes after the lines is cut further. -/
theorem CutsInto.append {more : Bytes} (h : CutsInto input lines rest)
    (h' : CutsInto (rest ++ more) lines' rest') :
    CutsInto (input ++ more) (lines ++ lines') rest' := by
  refine ⟨?_, ?_, h'.rest⟩
  · rw [h.whole, Array.append_assoc, h'.whole, List.map_append, joined_append, Array.append_assoc]
  · intro line hline
    rcases List.mem_append.mp hline with hline | hline
    · exact h.lines line hline
    · exact h'.lines line hline

end Bytes

/-! ## Dialogues -/

/-- How far a watch has come, with what its poll has brought. -/
inductive Dialogue.Progress where
  | opened
  | polling (poll : Poll)
  /-- The poll is over, and the reply is not written yet. -/
  | answered (result : Except Fault Bytes)

/-- What a connection is at, seen between the steps of a watch. -/
inductive Dialogue.Stage where
  /-- Waiting for a request. -/
  | idle
  | watching (h : Handle) (progress : Dialogue.Progress)
  | over

/-- The stage that a phase is. -/
def Connection.Phase.stage : Connection.Phase → Dialogue.Stage
  | .idle => .idle
  | .watching h poll => .watching h (.polling poll)
  | .closed => .over

/-- A tree, a connection to it, and what has been written to the client. -/
structure Dialogue (σ ε : Type) where
  tree : Tree σ ε
  stage : Dialogue.Stage := .idle
  written : Bytes := #[]

namespace Dialogue

open Connection (Phase execute closeQuietly beginWatch serveLine receiveOnto)

variable {σ ε : Type} [Foreign ε]

/-! ## Steps -/

/-- Another stage and another tree, and nothing written. -/
def move (d : Dialogue σ ε) (stage : Stage) (t : Tree σ ε) : Dialogue σ ε :=
  ⟨t, stage, d.written⟩

/-- A reply, after which the next line is served. -/
def reply (d : Dialogue σ ε) (bytes : Bytes) (t : Tree σ ε) : Dialogue σ ε :=
  ⟨t, .idle, d.written ++ bytes⟩

/-- Opens the file of a watch. -/
def openWatch (d : Dialogue σ ε) (path : String) : Dialogue σ ε :=
  match d.tree.openFile path .reading with
  | (.error fault, t) => d.reply (Reply.fault fault) t
  | (.ok h, t) => d.move (.watching h .opened) t

/-- Serves a line; of a watch only the open is done. -/
def request (d : Dialogue σ ε) (line : Bytes) : Dialogue σ ε :=
  match Text.Utf8.decode line with
  | .error _ => d.move .over d.tree
  | .ok text =>
    match Request.parse text with
    | .error e => d.reply (Reply.badRequest e) d.tree
    | .ok .quit => d.move .over d.tree
    | .ok (.watch path) => d.openWatch path
    | .ok request => d.reply (execute d.tree request).1 (execute d.tree request).2

/-- Takes a line of the client. During a watch it cancels the watch, whatever it says. -/
def receive (d : Dialogue σ ε) (line : Bytes) : Dialogue σ ε :=
  match d.stage with
  | .idle => d.request line
  | .watching h _ =>
    match Text.Utf8.decode line with
    | .error _ => d.move .over (closeQuietly d.tree h)
    | .ok _ => d.reply (Reply.fault .noSession) (closeQuietly d.tree h)
  | .over => d

/-- Goes on with a watch: begins its poll, looks whether the poll has an answer, or ends the watch
with its reply. -/
def goOn (d : Dialogue σ ε) : Dialogue σ ε :=
  match d.stage with
  | .watching h .opened =>
    match d.tree.longPollAll h with
    | (.answered result, t) => d.move (.watching h (.answered result)) t
    | (.waiting poll, t) => d.move (.watching h (.polling poll)) t
  | .watching h (.polling poll) =>
    match d.tree.finish? poll with
    | none => d
    | some (result, t) => d.move (.watching h (.answered result)) t
  | .watching h (.answered result) =>
    d.reply (Reply.ofResult Reply.data result) (closeQuietly d.tree h)
  | _ => d

/-- Takes the end of the client's input. -/
def hangUp (d : Dialogue σ ε) : Dialogue σ ε :=
  match d.stage with
  | .watching h _ => d.move .over (closeQuietly d.tree h)
  | _ => d.move .over d.tree

/-- What happens next. -/
inductive Turn (σ ε : Type) where
  | line (line : Bytes)
  /-- The server goes on with the watch. -/
  | watch
  | hangUp
  /-- Others do something to the tree. -/
  | others (change : Tree σ ε → Tree σ ε)

/-- The dialogue after a turn. -/
def turn (d : Dialogue σ ε) : Turn σ ε → Dialogue σ ε
  | .line line => d.receive line
  | .watch => d.goOn
  | .hangUp => d.hangUp
  | .others change => d.move d.stage (change d.tree)

/-- The dialogue after some turns. -/
def run (d : Dialogue σ ε) (turns : List (Turn σ ε)) : Dialogue σ ε := turns.foldl turn d

/-- The line that a turn brings. -/
def Turn.line? : Turn σ ε → Option Bytes
  | .line bytes => some bytes
  | _ => none

/-- The lines that came, in order. -/
def heard (turns : List (Turn σ ε)) : List Bytes := turns.filterMap Turn.line?

omit [Foreign ε] in
theorem heard_cons (next : Turn σ ε) (turns : List (Turn σ ε)) :
    heard (next :: turns) = next.line?.toList ++ heard turns := by
  rcases h : next.line? <;> simp [heard, h]

/-! ## Accounts -/

/-- What comes of a line. -/
inductive Fate where
  | replied (reply : Bytes)
  /-- It is a watch, and has no reply yet. -/
  | waits
  /-- It came during a watch, which it cancelled. -/
  | cancels
  /-- The connection ends with it. -/
  | ends
  /-- It is a watch, and the connection ended before it had its reply. -/
  | dropped
  /-- It came when the connection was over. -/
  | unheard

/-- The reply, if there is one. -/
def Fate.reply? : Fate → Option Bytes
  | .replied reply => some reply
  | _ => none

/-- Lines with what came of them, the latest first. -/
abbrev Log := List (Bytes × Fate)

/-- The lines in order. -/
def Log.lines (log : Log) : List Bytes := log.reverse.map (·.1)

/-- The replies in the order of their lines. -/
def Log.replies (log : Log) : List Bytes := log.reverse.filterMap (·.2.reply?)

/-- The line stands for the request. -/
def Asks (line : Bytes) (request : Request) : Prop :=
  ∃ text, Text.Utf8.decode line = .ok text ∧ Request.parse text = .ok request

/-- The line is a text. -/
def IsText (line : Bytes) : Prop := ∃ text, Text.Utf8.decode line = .ok text

theorem not_isText {line : Bytes} {e : Text.Utf8.Malformed}
    (h : Text.Utf8.decode line = .error e) : ¬ IsText line := by
  rintro ⟨text, htext⟩
  rw [h] at htext
  cases htext

/-- A request that is served at once: the reply is the encoding of what the tree answers, and the
tree is left as the answer leaves it. -/
inductive Serves (t : Tree σ ε) : Request → Bytes → Tree σ ε → Prop
  | list (path : String) :
      Serves t (.list path) (Reply.ofResult Reply.listing (t.list path)) t
  | stat (path : String) :
      Serves t (.stat path) (Reply.ofResult Reply.attributes (t.stat path).1) (t.stat path).2
  | cat (path : String) :
      Serves t (.cat path) (Reply.ofResult Reply.data (t.readAll path).1) (t.readAll path).2
  | put (path : String) (data : Bytes) :
      Serves t (.put path data)
        (Reply.ofResult (fun count => Reply.ok (toString count)) (t.writeAll path data).1)
        (t.writeAll path data).2
  | truncate (path : String) (size : Nat) :
      Serves t (.truncate path size)
        (Reply.ofResult (fun _ => Reply.ok "") (t.truncate path size).1) (t.truncate path size).2

/-- Accounts of a conversation that begins with the tree `start`, with what the connection is at and
the tree. -/
inductive Account (start : Tree σ ε) : Log → Stage → Tree σ ε → Prop
  | start : Account start [] .idle start
  | others {log stage t} (change : Tree σ ε → Tree σ ε) :
      Account start log stage t → Account start log stage (change t)
  /-- A text that is no request is refused, and the conversation goes on. -/
  | refused {log t line text e} : Account start log .idle t →
      Text.Utf8.decode line = .ok text → Request.parse text = .error e →
      Account start ((line, .replied (Reply.badRequest e)) :: log) .idle t
  | served {log t line request reply t'} : Account start log .idle t →
      Asks line request → Serves t request reply t' →
      Account start ((line, .replied reply) :: log) .idle t'
  /-- A watch whose file cannot be opened. -/
  | unopened {log t line path fault t'} : Account start log .idle t → Asks line (.watch path) →
      t.openFile path .reading = (.error fault, t') →
      Account start ((line, .replied (Reply.fault fault)) :: log) .idle t'
  | opened {log t line path h t'} : Account start log .idle t → Asks line (.watch path) →
      t.openFile path .reading = (.ok h, t') →
      Account start ((line, .waits) :: log) (.watching h .opened) t'
  | polls {log h t poll t'} : Account start log (.watching h .opened) t →
      t.longPollAll h = (.waiting poll, t') →
      Account start log (.watching h (.polling poll)) t'
  /-- A poll that is over as soon as it begins. -/
  | settled {log h t result t'} : Account start log (.watching h .opened) t →
      t.longPollAll h = (.answered result, t') →
      Account start log (.watching h (.answered result)) t'
  | woken {log h poll t result t'} : Account start log (.watching h (.polling poll)) t →
      t.finish? poll = some (result, t') →
      Account start log (.watching h (.answered result)) t'
  | delivered {line log h result t} :
      Account start ((line, .waits) :: log) (.watching h (.answered result)) t →
      Account start ((line, .replied (Reply.ofResult Reply.data result)) :: log) .idle
        (closeQuietly t h)
  /-- The line that cancels a watch is not executed; the reply is that of the watch. -/
  | cancelled {line log h progress t next} :
      Account start ((line, .waits) :: log) (.watching h progress) t → IsText next →
      Account start ((next, .cancels) :: (line, .replied (Reply.fault .noSession)) :: log) .idle
        (closeQuietly t h)
  | broken {line log h progress t next} :
      Account start ((line, .waits) :: log) (.watching h progress) t → ¬ IsText next →
      Account start ((next, .ends) :: (line, .dropped) :: log) .over (closeQuietly t h)
  | ends {log t line} : Account start log .idle t → ¬ IsText line ∨ Asks line .quit →
      Account start ((line, .ends) :: log) .over t
  | gone {log t} : Account start log .idle t → Account start log .over t
  | goneWatching {line log h progress t} :
      Account start ((line, .waits) :: log) (.watching h progress) t →
      Account start ((line, .dropped) :: log) .over (closeQuietly t h)
  | unheard {log t line} : Account start log .over t →
      Account start ((line, .unheard) :: log) .over t

variable {start t t' : Tree σ ε} {log early : Log} {stage : Stage} {line : Bytes} {fate : Fate}

/-! ### Which lines have a reply -/

/-- The line has its reply, or cancelled the watch before it. -/
def Fate.Settled : Fate → Prop
  | .replied _ | .cancels => True
  | _ => False

/-- All lines are settled. -/
def Log.Settled (log : Log) : Prop := ∀ e ∈ log, e.2.Settled

theorem Log.Settled.cons (h : log.Settled) (hfate : fate.Settled) :
    Log.Settled ((line, fate) :: log) := by
  intro e he
  rcases List.mem_cons.mp he with rfl | he
  · exact hfate
  · exact h e he

theorem Log.settled_nil : Log.Settled [] := nofun

/-- How an account looks at a stage. While the connection waits for a request, every line is
settled; during a watch, every line but the last, which is the watch. When it is over, the lines
behind its end were not heard, and before it there may be the line that ended it and a watch without
a reply. -/
def Log.Shape (log : Log) : Stage → Prop
  | .idle => log.Settled
  | .watching _ _ => ∃ line early, log = (line, .waits) :: early ∧ Log.Settled early
  | .over => ∃ late last early : Log, log = late ++ last ++ early ∧
      (∀ e ∈ late, e.2 = .unheard) ∧ early.Settled ∧
      last.map (·.2) ∈ [[], [.ends], [.dropped], [.ends, .dropped]]

/-- When the connection has just ended, nothing has come behind the end. -/
theorem Log.Shape.over (last : Log) (h : early.Settled)
    (hlast : last.map (·.2) ∈ [[], [.ends], [.dropped], [.ends, .dropped]]) :
    Log.Shape (last ++ early) .over :=
  ⟨[], last, early, rfl, nofun, h, hlast⟩

/-- During a watch the lines before it are settled. -/
theorem Log.Shape.settled {h : Handle} {progress : Progress}
    (hs : Log.Shape ((line, fate) :: early) (.watching h progress)) : early.Settled := by
  obtain ⟨line', early', he, hsettled⟩ := hs
  obtain ⟨-, rfl⟩ := List.cons.inj he
  exact hsettled

theorem Account.shape (h : Account start log stage t) : log.Shape stage := by
  induction h with
  | start => exact Log.settled_nil
  | others _ _ ih => exact ih
  | refused _ _ _ ih => exact Log.Settled.cons ih trivial
  | served _ _ _ ih => exact Log.Settled.cons ih trivial
  | unopened _ _ _ ih => exact Log.Settled.cons ih trivial
  | opened _ _ _ ih => exact ⟨_, _, rfl, ih⟩
  | polls _ _ ih => exact ih
  | settled _ _ ih => exact ih
  | woken _ _ ih => exact ih
  | delivered _ ih => exact ih.settled.cons (by trivial)
  | cancelled _ _ ih => exact (ih.settled.cons (by trivial)).cons trivial
  | broken _ _ ih => exact Log.Shape.over [_, _] ih.settled (by simp)
  | ends _ _ ih => exact Log.Shape.over [_] ih (by simp)
  | gone _ ih => exact Log.Shape.over [] ih (by simp)
  | goneWatching _ ih => exact Log.Shape.over [_] ih.settled (by simp)
  | @unheard log t line _ ih =>
      obtain ⟨late, last, early, rfl, hlate, hearly, hlast⟩ := ih
      refine ⟨(line, .unheard) :: late, last, early, by simp, ?_, hearly, hlast⟩
      intro e he
      rcases List.mem_cons.mp he with rfl | he
      · rfl
      · exact hlate e he

/-! ### An account of every conversation -/

@[simp] theorem Log.lines_cons : Log.lines ((line, fate) :: log) = log.lines ++ [line] := by
  simp [lines]

theorem Log.replies_cons :
    Log.replies ((line, fate) :: log) = log.replies ++ fate.reply?.toList := by
  rw [replies, List.reverse_cons, List.filterMap_append]
  rcases h : fate.reply? <;> simp [replies, h]

/-- A line that is replied to adds its reply to what is written. -/
@[simp] theorem Log.joined_replied (reply : Bytes) :
    Bytes.joined (Log.replies ((line, .replied reply) :: log)) =
      Bytes.joined log.replies ++ reply := by
  rw [replies_cons, Bytes.joined_append]
  simp [Fate.reply?]

/-- A line without a reply adds nothing. -/
theorem Log.replies_silent (h : fate.reply? = none) :
    Log.replies ((line, fate) :: log) = log.replies := by
  rw [replies_cons, h]
  simp

theorem Log.replies_waits : Log.replies ((line, .waits) :: log) = log.replies :=
  replies_silent rfl

/-- The account `log` accounts for the dialogue: for the lines that came, what was written, what the
connection is at, and the tree. -/
structure Accounts (start : Tree σ ε) (log : Log) (lines : List Bytes) (d : Dialogue σ ε) :
    Prop where
  account : Account start log d.stage d.tree
  lines : log.lines = lines
  written : d.written = Bytes.joined log.replies

variable {d d' : Dialogue σ ε} {lines : List Bytes}

namespace Accounts

theorem begin (t : Tree σ ε) : Accounts t [] [] { tree := t } := ⟨.start, rfl, rfl⟩

/-- A step that has to do with no line. -/
theorem move (h : Accounts start log lines d) (ha : Account start log stage t) :
    Accounts start log lines (d.move stage t) :=
  ⟨ha, h.lines, h.written⟩

/-- A line that is replied to at once. -/
theorem reply {bytes : Bytes} (h : Accounts start log lines d)
    (ha : Account start ((line, .replied bytes) :: log) .idle t) :
    Accounts start ((line, .replied bytes) :: log) (lines ++ [line]) (d.reply bytes t) := by
  refine ⟨ha, ?_, ?_⟩
  · rw [Log.lines_cons, h.lines]
  · rw [Log.joined_replied, ← h.written]
    rfl

/-- A line that is not replied to, or not at once. -/
theorem silent (h : Accounts start log lines d) (hfate : fate.reply? = none)
    (ha : Account start ((line, fate) :: log) stage t) :
    Accounts start ((line, fate) :: log) (lines ++ [line]) (d.move stage t) := by
  refine ⟨ha, ?_, ?_⟩
  · rw [Log.lines_cons, h.lines]
  · rw [Log.replies_silent hfate]
    exact h.written

/-- The reply to the last line, which was a watch. -/
theorem late {bytes : Bytes} (h : Accounts start ((line, .waits) :: log) lines d)
    (ha : Account start ((line, .replied bytes) :: log) .idle t) :
    Accounts start ((line, .replied bytes) :: log) lines (d.reply bytes t) := by
  refine ⟨ha, ?_, ?_⟩
  · rw [← h.lines, Log.lines_cons, Log.lines_cons]
  · rw [Log.joined_replied, ← Log.replies_waits, ← h.written]
    rfl

/-- The account while nothing is under way. -/
theorem idle (h : Accounts start log lines d) (hs : d.stage = .idle) :
    Account start log .idle d.tree :=
  hs ▸ h.account

/-- During a watch the last line is the watch. -/
theorem watching {number : Handle} {progress : Progress} (h : Accounts start log lines d)
    (hs : d.stage = .watching number progress) :
    ∃ line early, log = (line, .waits) :: early ∧
      Account start ((line, .waits) :: early) (.watching number progress) d.tree := by
  have ha : Account start log (.watching number progress) d.tree := hs ▸ h.account
  obtain ⟨line, early, rfl, -⟩ := ha.shape
  exact ⟨line, early, rfl, ha⟩

/-! #### One turn -/

theorem openWatch {path : String} (h : Accounts start log lines d) (hs : d.stage = .idle)
    (hasks : Asks line (.watch path)) :
    ∃ log', Accounts start log' (lines ++ [line]) (d.openWatch path) := by
  unfold Dialogue.openWatch
  split
  · next ho => exact ⟨_, h.reply (.unopened (h.idle hs) hasks ho)⟩
  · next ho => exact ⟨_, h.silent rfl (.opened (h.idle hs) hasks ho)⟩

/-- A request other than `watch` and `quit` is served. -/
theorem serves_execute (t : Tree σ ε) {request : Request} (hquit : request ≠ .quit)
    (hwatch : ∀ path, request ≠ .watch path) :
    Serves t request (execute t request).1 (execute t request).2 := by
  cases request with
  | list path => exact .list path
  | stat path => exact .stat path
  | cat path => exact .cat path
  | put path data => exact .put path data
  | truncate path size => exact .truncate path size
  | watch path => exact absurd rfl (hwatch path)
  | quit => exact absurd rfl hquit

theorem request (h : Accounts start log lines d) (hs : d.stage = .idle) (line : Bytes) :
    ∃ log', Accounts start log' (lines ++ [line]) (d.request line) := by
  have hidle := h.idle hs
  unfold Dialogue.request
  split
  · next hd =>
    exact ⟨_, h.silent rfl (.ends hidle (.inl (not_isText hd)))⟩
  · next text hd =>
    split
    · next hp => exact ⟨_, h.reply (.refused hidle hd hp)⟩
    · next hp => exact ⟨_, h.silent rfl (.ends hidle (.inr ⟨text, hd, hp⟩))⟩
    · next hp => exact h.openWatch hs ⟨text, hd, hp⟩
    · next r hquit hwatch hp =>
      exact ⟨_, h.reply (.served hidle ⟨text, hd, hp⟩ (serves_execute d.tree hquit hwatch))⟩

theorem receive (h : Accounts start log lines d) (line : Bytes) :
    ∃ log', Accounts start log' (lines ++ [line]) (d.receive line) := by
  unfold Dialogue.receive
  split
  · next hs => exact h.request hs line
  · next number progress hs =>
    obtain ⟨watch, early, rfl, ha⟩ := h.watching hs
    split
    · next hd =>
      refine ⟨_, .broken ha (not_isText hd), ?_, ?_⟩
      · rw [← h.lines]
        simp
      · rw [Log.replies_silent rfl, Log.replies_silent rfl,
          ← Log.replies_waits]
        exact h.written
    · next text hd =>
      refine ⟨_, .cancelled ha ⟨text, hd⟩, ?_, ?_⟩
      · rw [← h.lines]
        simp
      · rw [Log.replies_silent rfl, Log.joined_replied,
          ← Log.replies_waits, ← h.written]
        rfl
  · next hs =>
    have ha : Account start log .over d.tree := hs ▸ h.account
    have hunheard : Account start ((line, .unheard) :: log) .over d.tree := .unheard ha
    have hlog := h.silent rfl hunheard
    exact ⟨_, hs ▸ hlog.account, hlog.lines, hlog.written⟩

theorem goOn (h : Accounts start log lines d) : ∃ log', Accounts start log' lines d.goOn := by
  unfold Dialogue.goOn
  split
  · next number hs =>
    have ha : Account start log (.watching number .opened) d.tree := hs ▸ h.account
    split
    · next he => exact ⟨_, h.move (.settled ha he)⟩
    · next he => exact ⟨_, h.move (.polls ha he)⟩
  · next number poll hs =>
    have ha : Account start log (.watching number (.polling poll)) d.tree := hs ▸ h.account
    split
    · exact ⟨_, h⟩
    · next he => exact ⟨_, h.move (.woken ha he)⟩
  · next number result hs =>
    obtain ⟨watch, early, rfl, ha⟩ := h.watching hs
    exact ⟨_, h.late (.delivered ha)⟩
  · exact ⟨_, h⟩

theorem hangUp (h : Accounts start log lines d) : ∃ log', Accounts start log' lines d.hangUp := by
  unfold Dialogue.hangUp
  rcases hs : d.stage with _ | ⟨number, progress⟩ | _
  · exact ⟨_, h.move (.gone (h.idle hs))⟩
  · obtain ⟨watch, early, rfl, ha⟩ := h.watching hs
    refine ⟨_, .goneWatching ha, ?_, ?_⟩
    · rw [← h.lines]
      simp
    · rw [Log.replies_silent rfl, ← Log.replies_waits]
      exact h.written
  · exact ⟨_, h.move (hs ▸ h.account)⟩

theorem turn (h : Accounts start log lines d) (next : Turn σ ε) :
    ∃ log', Accounts start log' (lines ++ next.line?.toList) (d.turn next) := by
  cases next with
  | line line => exact h.receive line
  | watch =>
      show ∃ log', Accounts start log' (lines ++ []) _
      rw [List.append_nil]
      exact h.goOn
  | hangUp =>
      show ∃ log', Accounts start log' (lines ++ []) _
      rw [List.append_nil]
      exact h.hangUp
  | others change =>
      show ∃ log', Accounts start log' (lines ++ []) _
      rw [List.append_nil]
      exact ⟨_, h.move (.others change h.account)⟩

end Accounts

/-- Every conversation has an account. -/
theorem Accounts.run (h : Accounts start log lines d) (turns : List (Turn σ ε)) :
    ∃ log', Accounts start log' (lines ++ heard turns) (d.run turns) := by
  induction turns generalizing d log lines with
  | nil =>
      refine ⟨log, ?_⟩
      show Accounts start log (lines ++ []) d
      rw [List.append_nil]
      exact h
  | cons next turns ih =>
      obtain ⟨log₁, h₁⟩ := h.turn next
      obtain ⟨log₂, h₂⟩ := ih h₁
      refine ⟨log₂, ?_⟩
      rw [heard_cons, ← List.append_assoc]
      exact h₂

/-! ## The connection of the server -/

/-- Turns bring the dialogue there, with these lines. -/
def Reaches (d : Dialogue σ ε) (lines : List Bytes) (d' : Dialogue σ ε) : Prop :=
  ∃ turns, d.run turns = d' ∧ heard turns = lines

theorem reaches_self (d : Dialogue σ ε) : Reaches d [] d := ⟨[], rfl, rfl⟩

theorem reaches_turn (d : Dialogue σ ε) (next : Turn σ ε) :
    Reaches d next.line?.toList (d.turn next) :=
  ⟨[next], rfl, (heard_cons next []).trans (List.append_nil _)⟩

theorem Reaches.trans {d'' : Dialogue σ ε} {more : List Bytes} (h : Reaches d lines d')
    (h' : Reaches d' more d'') : Reaches d (lines ++ more) d'' := by
  obtain ⟨turns, rfl, rfl⟩ := h
  obtain ⟨turns', rfl, rfl⟩ := h'
  refine ⟨turns ++ turns', ?_, List.filterMap_append⟩
  exact List.foldl_append

/-- A watch that begins, and is answered at once if its poll is. -/
theorem reaches_beginWatch (t : Tree σ ε) (written : Bytes) (path : String) :
    Reaches (openWatch ⟨t, .idle, written⟩ path) []
      ⟨(beginWatch t path).2.2, (beginWatch t path).2.1.stage,
        written ++ (beginWatch t path).1⟩ := by
  unfold openWatch beginWatch
  rcases t.openFile path .reading with ⟨fault | h, t'⟩
  · exact reaches_self (⟨t', .idle, written ++ Reply.fault fault⟩ : Dialogue σ ε)
  · have hbegin := reaches_turn (⟨t', .watching h .opened, written⟩ : Dialogue σ ε) .watch
    simp only [turn, goOn] at hbegin
    dsimp only
    rcases hs : t'.longPollAll h with ⟨result | poll, t''⟩
    · rw [hs] at hbegin
      exact hbegin.trans
        (reaches_turn (⟨t'', .watching h (.answered result), written⟩ : Dialogue σ ε) .watch)
    · rw [hs] at hbegin
      dsimp only
      rw [Array.append_empty]
      exact hbegin

theorem reaches_serveLine (t : Tree σ ε) (phase : Phase) (written line : Bytes) :
    Reaches ⟨t, phase.stage, written⟩ [line]
      ⟨(serveLine t phase line).2.2, (serveLine t phase line).2.1.stage,
        written ++ (serveLine t phase line).1⟩ := by
  have hline := reaches_turn (⟨t, phase.stage, written⟩ : Dialogue σ ε) (.line line)
  unfold turn receive at hline
  unfold serveLine
  cases phase with
  | closed =>
      rw [Array.append_empty]
      exact hline
  | watching h poll =>
      dsimp only [Phase.stage] at hline ⊢
      rcases hd : Text.Utf8.decode line with defect | text
      · rw [hd] at hline
        dsimp only at hline ⊢
        rw [Array.append_empty]
        exact hline
      · rw [hd] at hline
        exact hline
  | idle =>
      dsimp only [Phase.stage] at hline ⊢
      unfold request at hline
      rcases hd : Text.Utf8.decode line with defect | text
      · rw [hd] at hline
        dsimp only at hline ⊢
        rw [Array.append_empty]
        exact hline
      · rw [hd] at hline
        dsimp only at hline ⊢
        rcases hp : Request.parse text with defect | r
        · rw [hp] at hline
          exact hline
        · rw [hp] at hline
          cases r with
          | quit =>
              dsimp only at hline ⊢
              rw [Array.append_empty]
              exact hline
          | watch path => exact hline.trans (reaches_beginWatch t written path)
          | _ => exact hline

/-- Input is taken line by line, as it is cut at its line feeds. -/
theorem reaches_receiveOnto (input : List UInt8) (t : Tree σ ε) (c : Connection) (written : Bytes)
    (hfree : 0x0A ∉ c.received) :
    ∃ lines, (c.received ++ input.toArray).CutsInto lines
        (receiveOnto written t c input).2.1.received ∧
      Reaches ⟨t, c.phase.stage, written⟩ lines
        ⟨(receiveOnto written t c input).2.2, (receiveOnto written t c input).2.1.phase.stage,
          (receiveOnto written t c input).1⟩ := by
  induction input generalizing t c written with
  | nil =>
      refine ⟨[], ?_, reaches_self _⟩
      show Bytes.CutsInto (c.received ++ #[]) [] c.received
      rw [Array.append_empty]
      exact Bytes.cutsInto_rest hfree
  | cons b rest ih =>
      unfold receiveOnto Connection.receiveOctet
      by_cases hb : b = 0x0A
      · -- the line is complete
        subst hb
        obtain ⟨lines, hcut, hreaches⟩ := ih (serveLine t c.phase c.received).2.2
          ⟨(serveLine t c.phase c.received).2.1, #[]⟩
          (written ++ (serveLine t c.phase c.received).1) (by simp)
        refine ⟨c.received :: lines, ?_, (reaches_serveLine t c.phase written c.received).trans
          hreaches⟩
        have hwhole := (Bytes.cutsInto_line hfree).append hcut
        simpa using hwhole
      · have hfree' : 0x0A ∉ c.received.push b := by
          simp [hfree, Ne.symm hb]
        obtain ⟨lines, hcut, hreaches⟩ :=
          ih t { c with received := c.received.push b } written hfree'
        rw [if_neg (by simpa using hb)]
        dsimp only
        rw [Array.append_empty]
        refine ⟨lines, ?_, hreaches⟩
        simpa using hcut

/-- The reply to a poll that has an answer. -/
theorem reaches_settle (t : Tree σ ε) (c : Connection) (written : Bytes) :
    Reaches ⟨t, c.phase.stage, written⟩ []
        ⟨(Connection.settle t c).2.2, (Connection.settle t c).2.1.phase.stage,
          written ++ (Connection.settle t c).1⟩ ∧
      (Connection.settle t c).2.1.received = c.received := by
  have hnone : Reaches (⟨t, c.phase.stage, written⟩ : Dialogue σ ε) []
      ⟨t, c.phase.stage, written ++ #[]⟩ := by
    rw [Array.append_empty]
    exact reaches_self _
  unfold Connection.settle
  split
  · next h poll hphase =>
    have hlook := reaches_turn (⟨t, .watching h (.polling poll), written⟩ : Dialogue σ ε) .watch
    simp only [turn, goOn] at hlook
    split
    · exact ⟨hnone, rfl⟩
    · next result t' hf =>
      rw [hf] at hlook
      refine ⟨?_, rfl⟩
      rw [hphase]
      exact hlook.trans
        (reaches_turn (⟨t', .watching h (.answered result), written⟩ : Dialogue σ ε) .watch)
  · exact ⟨hnone, rfl⟩

/-- The end of the input: an unfinished line is served first. -/
theorem reaches_finish (t : Tree σ ε) (c : Connection) (written : Bytes) :
    Reaches ⟨t, c.phase.stage, written⟩ (if c.received.isEmpty then [] else [c.received])
        ⟨(Connection.finish t c).2.2, .over, written ++ (Connection.finish t c).1⟩ := by
  have hgone : ∀ (t : Tree σ ε) (phase : Phase) (written : Bytes),
      Reaches ⟨t, phase.stage, written⟩ [] (hangUp ⟨t, phase.stage, written⟩) := by
    intro t phase written
    exact reaches_turn (⟨t, phase.stage, written⟩ : Dialogue σ ε) .hangUp
  unfold Connection.finish
  by_cases hempty : c.received.isEmpty = true
  · rw [if_pos hempty, if_pos hempty]
    have hover := hgone t c.phase written
    rcases hphase : c.phase with _ | _ | _ <;> rw [hphase] at hover <;> dsimp only <;>
      rw [Array.append_empty] <;> exact hover
  · rw [if_neg hempty, if_neg hempty]
    have hline := reaches_serveLine t c.phase written c.received
    generalize serveLine t c.phase c.received = served at hline
    obtain ⟨reply, phase, t'⟩ := served
    have hover := hline.trans (hgone t' phase (written ++ reply))
    rcases phase with _ | _ | _ <;> exact hover

end Dialogue

/-! ### Exchanges -/

/-- A connection of the server with its tree, and what has been written to the client. -/
structure Exchange (σ ε : Type) where
  tree : Tree σ ε
  connection : Connection := {}
  written : Bytes := #[]

namespace Exchange

open Dialogue (Account Accounts Log Reaches heard reaches_self reaches_turn reaches_receiveOnto
  reaches_settle reaches_finish)

variable {σ ε : Type} [Foreign ε]

/-- What happens next. -/
inductive Event (σ ε : Type) where
  /-- A piece of input of any size. -/
  | input (octets : Bytes)
  /-- The server looks whether the poll has an answer. -/
  | settle
  /-- Others do something to the tree. -/
  | others (change : Tree σ ε → Tree σ ε)

/-- The exchange after an event. -/
def event (x : Exchange σ ε) : Event σ ε → Exchange σ ε
  | .input octets =>
    let (reply, connection, t) := Connection.receive x.tree x.connection octets
    ⟨t, connection, x.written ++ reply⟩
  | .settle =>
    let (reply, connection, t) := Connection.settle x.tree x.connection
    ⟨t, connection, x.written ++ reply⟩
  | .others change => { x with tree := change x.tree }

/-- The exchange after some events. -/
def run (x : Exchange σ ε) (events : List (Event σ ε)) : Exchange σ ε := events.foldl event x

/-- The exchange when the input has ended. -/
def finish (x : Exchange σ ε) : Exchange σ ε :=
  let (reply, connection, t) := Connection.finish x.tree x.connection
  ⟨t, connection, x.written ++ reply⟩

/-- The input that an event brings. -/
def Event.octets : Event σ ε → Bytes
  | .input octets => octets
  | _ => #[]

/-- The input, put together. -/
def input (events : List (Event σ ε)) : Bytes := Bytes.joined (events.map Event.octets)

end Exchange

end LiveTree
