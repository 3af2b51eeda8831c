import Coroserver.Bytes
import Mathlib.Data.List.Infix

/-! The clients leave on `~.` at the start of a line. -/

namespace Coroserver.Console

open List

def lineFeed : UInt8 := 0x0A

def tilde : UInt8 := 0x7E

def dot : UInt8 := 0x2E

def isLineEnd (c : UInt8) : Bool := c == 0x0D || c == lineFeed

inductive LineState where
  | normal
  | lineStart
  | tilde
deriving DecidableEq

namespace EscapeDetector

def next (c : UInt8) : LineState := if isLineEnd c then .lineStart else .normal

def feed : LineState → UInt8 → Option LineState
  | .lineStart, c => some (if c = tilde then .tilde else next c)
  | .tilde, c => if c = dot then none else some (next c)
  | .normal, c => some (next c)

end EscapeDetector

inductive EscState where
  | normal
  | afterNewline
  | afterTilde
deriving DecidableEq

/-- The detector of `sendLoop` of the IBM i client. -/
def EscState.feed : EscState → UInt8 → Option EscState
  | .normal, c => some (if isLineEnd c then .afterNewline else .normal)
  | .afterNewline, c => some (if c = tilde then .afterTilde else .normal)
  | .afterTilde, c => if c = dot then none else some .normal

inductive InputResult where
  | accumulate
  | sendBuffer
  | escape

structure InputProcessor where
  state : EscState := .normal
  buffer : Bytes := []

def InputProcessor.process (processor : InputProcessor) (c : UInt8) :
    InputProcessor × InputResult :=
  let { state, buffer } := processor
  match state with
  | .normal =>
    if isLineEnd c then (⟨.afterNewline, buffer ++ [c]⟩, .sendBuffer)
    else (⟨.normal, buffer ++ [c]⟩, .accumulate)
  | .afterNewline =>
    if c = tilde then (⟨.afterTilde, buffer⟩, .accumulate)
    else (⟨.normal, buffer ++ [c]⟩, .accumulate)
  | .afterTilde =>
    if c = dot then (processor, .escape)
    else (⟨.normal, buffer ++ [tilde, c]⟩, .accumulate)

structure Sending where
  inputProcessor : InputProcessor := {}
  sent : Bytes := []

def Sending.process (sending : Sending) (c : UInt8) : Option Sending :=
  match sending.inputProcessor.process c with
  | (_, .escape) => none
  | (processor, .sendBuffer) =>
    some ⟨{ processor with buffer := [] }, sending.sent ++ processor.buffer⟩
  | (processor, .accumulate) => some { sending with inputProcessor := processor }

section Reads

variable {State : Type} {feed : State → UInt8 → Option State} {follows : Bytes → State → Prop}
  {ends : Bytes → Prop}

def processReads (feed : State → UInt8 → Option State) (init : State) (reads : List Bytes) :
    Option State :=
  reads.foldlM (fun state read => read.foldlM feed state) init

theorem processReads_eq (init : State) (reads : List Bytes) :
    processReads feed init reads = reads.flatten.foldlM feed init := by
  unfold processReads
  induction reads generalizing init with
  | nil => rfl
  | cons _ _ ih =>
    rw [foldlM_cons, flatten_cons, foldlM_append]
    exact bind_congr ih

/-- The detector follows what was typed, latest first, and leaves when that ends
in what it looks for. -/
def Detects (feed : State → UInt8 → Option State) (follows : Bytes → State → Prop)
    (ends : Bytes → Prop) : Prop :=
  ∀ typed state c, follows typed state →
    ends (c :: typed) ∧ feed state c = none ∨
      ¬ends (c :: typed) ∧ ∃ next, feed state c = some next ∧ follows (c :: typed) next

theorem Detects.processReads (detects : Detects feed follows ends) {before : Bytes}
    {init : State} (start : follows before init) (unended : ¬ends before) (reads : List Bytes) :
    (processReads feed init reads = none ↔
        ∃ first, first <+: reads.flatten ∧ ends (first.reverse ++ before)) ∧
      ∀ last, processReads feed init reads = some last →
        follows (reads.flatten.reverse ++ before) last := by
  rw [processReads_eq]
  generalize reads.flatten = input
  induction input generalizing before init with
  | nil =>
    refine ⟨iff_of_false nofun ?_, ?_⟩
    · simpa [prefix_nil] using unended
    · rintro _ ⟨⟩
      exact start
  | cons c rest ih =>
    rw [foldlM_cons]
    obtain ⟨ended, fed⟩ | ⟨unendedNow, next, fed, following⟩ := detects _ _ c start
    · rw [fed]
      exact ⟨iff_of_true rfl ⟨[c], by simp, ended⟩, nofun⟩
    · rw [fed]
      simpa [prefix_cons_iff, or_and_right, exists_or, unended] using ih following unendedNow

theorem detects_of_after {after : Bytes → State} {waiting : State} [DecidableEq State]
    (fed : ∀ typed c, feed (after typed) c =
      if c = dot ∧ after typed = waiting then none else some (after (c :: typed)))
    (ends_iff : ∀ typed c, ends (c :: typed) ↔ c = dot ∧ after typed = waiting) :
    Detects feed (fun typed state => state = after typed) ends := by
  rintro typed _ c rfl
  by_cases ended : c = dot ∧ after typed = waiting
  · exact .inl ⟨(ends_iff typed c).mpr ended, by rw [fed, if_pos ended]⟩
  · exact .inr ⟨mt (ends_iff typed c).mp ended, _, by rw [fed, if_neg ended], rfl⟩

end Reads

def EndsInEscape (input : Bytes) : Prop :=
  ∃ lineEnd, isLineEnd lineEnd ∧ [lineEnd, tilde, dot] <:+ input

/-- The line ends directly before a point, going back in what was typed, and
passing one `~` after a line end. -/
def lineEnds : Bytes → Nat
  | [] => 0
  | [c] => (isLineEnd c).toNat
  | c :: d :: typed =>
    if isLineEnd c then (if d = tilde then lineEnds typed else lineEnds (d :: typed)) + 1 else 0

theorem endsInEscape_reverse_iff {typed : Bytes} : EndsInEscape typed.reverse ↔
    ∃ lineEnd before, isLineEnd lineEnd ∧ typed = dot :: tilde :: lineEnd :: before := by
  simp only [EndsInEscape, ← reverse_prefix, reverse_reverse]
  constructor
  · rintro ⟨lineEnd, ends, before, rfl⟩
    exact ⟨lineEnd, before, ends, rfl⟩
  · rintro ⟨lineEnd, _, ends, rfl⟩
    exact ⟨lineEnd, ends, by simp⟩

theorem isLineEnd_tilde : isLineEnd tilde = false := by decide

theorem isLineEnd_dot : isLineEnd dot = false := by decide

def EscapeDetector.after (typed : Bytes) : LineState :=
  if typed.head?.any isLineEnd then .lineStart
  else if typed.head? = some tilde ∧ typed.tail.head?.any isLineEnd then .tilde
  else .normal

theorem EscapeDetector.feed_after (typed : Bytes) (c : UInt8) : feed (after typed) c =
    if c = dot ∧ after typed = .tilde then none else some (after (c :: typed)) := by
  grind [feed, next, after, isLineEnd_tilde, isLineEnd_dot]

theorem EscapeDetector.ends_iff (typed : Bytes) (c : UInt8) :
    EndsInEscape (c :: typed).reverse ↔ c = dot ∧ after typed = .tilde := by
  rw [endsInEscape_reverse_iff]
  rcases typed with _ | ⟨d, _ | ⟨e, typed⟩⟩ <;> grind [after, isLineEnd_tilde]

namespace EscState

def after (typed : Bytes) : EscState :=
  if lineEnds typed % 2 = 1 then .afterNewline
  else if typed.head? = some tilde ∧ lineEnds typed.tail % 2 = 1 then .afterTilde
  else .normal

theorem lineEnds_of_not {c : UInt8} (other : isLineEnd c = false) (typed : Bytes) :
    lineEnds (c :: typed) = 0 := by
  cases typed <;> simp [lineEnds, other]

theorem feed_after (typed : Bytes) (c : UInt8) : (after typed).feed c =
    if c = dot ∧ after typed = .afterTilde then none else some (after (c :: typed)) := by
  rcases typed with _ | ⟨d, typed⟩ <;>
    grind [feed, after, lineEnds, lineEnds_of_not, isLineEnd_tilde, isLineEnd_dot]

/-- An escape that is reported: the line ends before it are odd in number. -/
def Heard (input : Bytes) : Prop :=
  EndsInEscape input ∧ lineEnds (input.reverse.drop 2) % 2 = 1

theorem not_heard_nil : ¬Heard [] := fun heard => by cases heard.2

theorem heard_iff (typed : Bytes) (c : UInt8) :
    Heard (c :: typed).reverse ↔ c = dot ∧ after typed = .afterTilde := by
  rw [Heard, endsInEscape_reverse_iff, reverse_reverse]
  constructor
  · rintro ⟨⟨_, _, -, typed⟩, _⟩
    obtain ⟨rfl, rfl⟩ := List.cons.inj typed
    exact ⟨rfl, by simp_all [after, lineEnds_of_not isLineEnd_tilde]⟩
  · rintro ⟨rfl, waiting⟩
    rcases typed with _ | ⟨d, _ | ⟨e, typed⟩⟩
    · cases waiting
    · grind [after, lineEnds]
    · grind [after, lineEnds, lineEnds_of_not]

end EscState

def InputProcessor.withheld (processor : InputProcessor) : Bytes :=
  if processor.state = .afterTilde then [tilde] else []

namespace Sending

structure Follows (typed : Bytes) (sending : Sending) : Prop where
  state : sending.inputProcessor.state = EscState.after typed
  kept : sending.sent ++ sending.inputProcessor.buffer ++ sending.inputProcessor.withheld =
    typed.reverse
  unsent : sending.inputProcessor.buffer = [] ↔
    sending.inputProcessor.state ≠ .normal ∨ typed = []

theorem follows_nil : Follows [] {} := ⟨rfl, rfl, by simp⟩

attribute [local simp] process InputProcessor.process InputProcessor.withheld EscState.feed

theorem detects : Detects process Follows fun typed => EscState.Heard typed.reverse := by
  rintro typed ⟨⟨state, _⟩, _⟩ c ⟨following, kept, unsent⟩
  have fed := EscState.feed_after typed c
  have heard := EscState.heard_iff typed c
  dsimp only at following kept unsent ⊢
  rw [← following] at fed heard
  rw [heard]
  cases state with
  | normal =>
    refine .inr ⟨nofun, ?_⟩
    by_cases lineEnd : isLineEnd c
    · refine ⟨_, by simp [lineEnd]; rfl, ?_, by simp [← kept], by simp⟩
      simpa [lineEnd] using fed
    · refine ⟨_, by simp [lineEnd]; rfl, ?_, by simp [← kept], by simp⟩
      simpa [lineEnd] using fed
  | afterNewline =>
    refine .inr ⟨nofun, ?_⟩
    by_cases held : c = tilde
    · refine ⟨_, by simp [held]; rfl, ?_, by simp [← kept, held], by simpa using unsent⟩
      simpa [held] using fed
    · refine ⟨_, by simp [held]; rfl, ?_, by simp [← kept], by simp⟩
      simpa [held] using fed
  | afterTilde =>
    by_cases ended : c = dot
    · exact .inl ⟨⟨ended, rfl⟩, by simp [ended]⟩
    · refine .inr ⟨fun escape => ended escape.1, ?_⟩
      refine ⟨_, by simp [ended]; rfl, ?_, by simp [← kept], by simp⟩
      simpa [ended] using fed

/-- Without an escape the bytes sent, the buffer and a `~` that is withheld are
the input, and a line end has been sent exactly when the line ends up to it are
odd in number. -/
theorem completed_line_sent_iff (reads : List Bytes)
    (free : ∀ typed, typed <+: reads.flatten → ¬EndsInEscape typed) :
    ∃ sending, processReads process {} reads = some sending ∧
      sending.sent ++ sending.inputProcessor.buffer ++ sending.inputProcessor.withheld =
        reads.flatten ∧
      ∀ c, reads.flatten.getLast? = some c → isLineEnd c →
        (sending.sent = reads.flatten ↔ lineEnds reads.flatten.reverse % 2 = 1) := by
  obtain ⟨left, follows⟩ := detects.processReads follows_nil EscState.not_heard_nil reads
  simp only [append_nil, reverse_reverse] at left follows
  cases passed : processReads process {} reads with
  | none =>
    obtain ⟨typed, initial, heard⟩ := left.mp passed
    exact absurd heard.1 (free typed initial)
  | some sending =>
    obtain ⟨state, kept, unsent⟩ := follows sending passed
    rw [reverse_reverse] at kept
    refine ⟨sending, rfl, kept, ?_⟩
    intro c last lineEnd
    obtain ⟨before, typed⟩ := head?_eq_some_iff.mp (head?_reverse.trans last)
    have all : sending.sent = reads.flatten ↔
        sending.inputProcessor.buffer = [] ∧ sending.inputProcessor.withheld = [] := by
      rw [← kept, append_assoc, self_eq_append_right, append_eq_nil_iff]
    have notTilde : c ≠ tilde := by
      rintro rfl
      cases lineEnd
    rw [all, unsent, InputProcessor.withheld, state, typed, EscState.after]
    by_cases odd : lineEnds (c :: before) % 2 = 1 <;> simp [odd, notTilde]

theorem completed_line_sent_iff_return :
    ∃ sending, processReads process {} [[0x6C], [0x73, 0x0D]] = some sending ∧
      sending.sent = [0x6C, 0x73, 0x0D] := by
  have free : ∀ typed, typed <+: [0x6C, 0x73, 0x0D] → ¬EndsInEscape typed := by
    rintro typed initial ⟨lineEnd, -, ends⟩
    have member := initial.mem (ends.mem (show dot ∈ [lineEnd, tilde, dot] by simp))
    revert member
    decide
  obtain ⟨sending, passed, -, sent⟩ := completed_line_sent_iff [[0x6C], [0x73, 0x0D]] free
  exact ⟨sending, passed, (sent 0x0D rfl rfl).mpr rfl⟩

theorem line_feed_not_sent :
    processReads process {} [[0x6C, 0x73, 0x0D, 0x0A]] =
      some ⟨⟨.normal, [0x0A]⟩, [0x6C, 0x73, 0x0D]⟩ := rfl

end Sending

/-- The telnet client knows every start of a line. The two console clients take the character
after a line end, or after a line end and `~`, for an ordinary one even when it is a line end
itself. -/
theorem left_at_first_escape (reads : List Bytes) :
    (processReads EscapeDetector.feed .lineStart reads = none ↔
      ∃ typed, typed <+: reads.flatten ∧ EndsInEscape (lineFeed :: typed)) ∧
    (processReads Sending.process {} reads = none ↔
      ∃ typed, typed <+: reads.flatten ∧ EscState.Heard typed) ∧
    (processReads EscState.feed .normal reads = none ↔
      ∃ typed, typed <+: reads.flatten ∧ EscState.Heard typed) := by
  have telnet : Detects EscapeDetector.feed _ fun typed => EndsInEscape typed.reverse :=
    detects_of_after EscapeDetector.feed_after EscapeDetector.ends_iff
  have ibmi : Detects EscState.feed _ fun typed => EscState.Heard typed.reverse :=
    detects_of_after EscState.feed_after EscState.heard_iff
  have unended : ¬EndsInEscape [lineFeed] := by
    rintro ⟨_, -, suffix⟩
    cases suffix.length_le with | step short => cases short
  have atStart : EscapeDetector.after [lineFeed] = .lineStart := rfl
  refine ⟨?_, ?_, ?_⟩
  · simpa using (telnet.processReads atStart.symm unended reads).1
  · simpa using (Sending.detects.processReads Sending.follows_nil EscState.not_heard_nil reads).1
  · have initial : EscState.normal = .after [] := rfl
    simpa using (ibmi.processReads initial EscState.not_heard_nil reads).1

theorem escape_after_two_line_ends_missed :
    EndsInEscape [0x0D, 0x0A, tilde, dot] ∧
      (processReads Sending.process {} [[0x0D, 0x0A, tilde, dot]]).isSome ∧
      (processReads EscState.feed .normal [[0x0D, 0x0A, tilde, dot]]).isSome :=
  ⟨⟨0x0A, rfl, [0x0D], rfl⟩, rfl, rfl⟩

end Coroserver.Console
