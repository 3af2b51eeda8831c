import Coroserver.Telnet.ApplicationBytes
import Coroserver.Telnet.SessionProperties

/-! A relay is observed from its start with the chunks that are read, the bytes that the console
takes and the bytes that `readLine` takes later. -/

namespace Coroserver.Telnet

open ClientInput List Machine

structure RelayLog where
  chunks : List Bytes := []
  written : Bytes := []
  seen : Bytes := []

def RelayLog.after (log : RelayLog) (s : Session) : SessionEvent → RelayLog
  | .read (some chunk) => { log with chunks := log.chunks ++ [chunk] }
  | .consoleWritten false =>
    match s.control with
    | .relay _ (.writing out _) _ => { log with written := log.written ++ out }
    | _ => log
  | .advance =>
    match s.control, s.input.pending with
    | .readLine _ _, c :: _ => { log with seen := log.seen ++ [c] }
    | _, _ => log
  | _ => log

structure ObservedRelay where
  session : Session
  log : RelayLog := {}

namespace ObservedRelay

def start (s : Session) (user : Bytes) : ObservedRelay := { session := s.startRelay user }

def step (opts : Options) (o : ObservedRelay) (event : SessionEvent) : Option ObservedRelay :=
  (o.session.step opts event).map fun next => ⟨next, o.log.after o.session event⟩

def SameRelay (o : ObservedRelay) (event : SessionEvent) : Prop :=
  match o.session.control, event with
  | .connected _, .advance => False
  | _, _ => True

def unwritten (o : ObservedRelay) : Bytes :=
  match o.session.control with
  | .relay _ .replying _ => beforeEscape o.session.input.pending
  | .relay _ (.writing out _) _ => out
  | _ => []

end ObservedRelay

structure Forwarding (input : ClientInput) (log : RelayLog) (held : Bytes) : Prop where
  unseen : log.seen = []
  all : input.applicationBytes log.chunks.flatten = log.written ++ held
  free : escapeChar ∉ log.written
  dropped : droppedBehindEscape (input.batches log.chunks) = behindEscape held

structure Escaped (input : ClientInput) (log : RelayLog) (pending : Bytes) : Prop where
  all : input.applicationBytes log.chunks.flatten =
    log.written ++ escapeChar ::
      (droppedBehindEscape (input.batches log.chunks) ++ (log.seen ++ pending))
  free : escapeChar ∉ log.written

structure RelayOver (input : ClientInput) (log : RelayLog) (relayEnd : RelayEnd)
    (pending : Bytes) : Prop where
  ended : relayEnd ≠ .none
  written : log.written <+: beforeEscape (input.applicationBytes log.chunks.flatten)
  escaped : relayEnd = .escape → Escaped input log pending

def Progress (input : ClientInput) (log : RelayLog) (relayEnd : RelayEnd)
    (pending : Bytes) : ToConsole → Prop
  | .reading => relayEnd ≠ .escape ∧ pending = [] ∧ Forwarding input log []
  | .replying => relayEnd ≠ .escape ∧ Forwarding input log pending
  | .writing out escape =>
    relayEnd ≠ .escape ∧ pending = [] ∧
      ∃ held, Forwarding input log held ∧ out = beforeEscape held ∧
        escape = held.contains escapeChar
  | .returned => RelayOver input log relayEnd pending

def Control.toConsole : Control → ToConsole
  | .relay _ toConsole _ => toConsole
  | _ => .returned

section

variable {input : ClientInput} {log : RelayLog} {relayEnd : RelayEnd}
  {pending held : Bytes}

section

variable (forwarding : Forwarding input log held)

include forwarding

theorem Forwarding.written_isPrefix :
    log.written <+: beforeEscape (input.applicationBytes log.chunks.flatten) := by
  rw [forwarding.all, beforeEscape_append forwarding.free]
  exact prefix_append _ _

theorem Forwarding.over (ended : relayEnd ≠ .none) (other : relayEnd ≠ .escape) :
    RelayOver input log relayEnd pending :=
  ⟨ended, forwarding.written_isPrefix, fun escape => absurd escape other⟩

theorem Forwarding.escaped (found : escapeChar ∈ held) :
    Escaped input { log with written := log.written ++ beforeEscape held } [] := by
  obtain ⟨unseen, all, free, dropped⟩ := forwarding
  refine ⟨?_, ?_⟩
  · dsimp only
    rw [all, dropped, unseen, append_assoc, append_nil, append_nil,
      ← eq_of_escape_mem found]
  · rw [mem_append, not_or]
    exact ⟨free, not_mem_beforeEscape⟩

end

theorem Forwarding.read {reader : AppReader} {chunk : Bytes} (forwarding : Forwarding input log [])
    (synced : reader = (input.appReader.read log.chunks.flatten).1) :
    Forwarding input { log with chunks := log.chunks ++ [chunk] } (reader.read chunk).2 := by
  obtain ⟨unseen, all, free, _⟩ := forwarding
  rw [append_nil] at all
  refine ⟨unseen, ?_, free, ?_⟩
  · rw [flatten_concat, applicationBytes, AppReader.read_append, ← synced]
    dsimp only
    rw [← append_assoc, ← all]
    rfl
  · rw [batches_concat, ← synced]
    refine droppedBehindEscape_concat_of_not_mem ?_
    rw [flatten_batches, all]
    exact free

theorem Escaped.over (escaped : Escaped input log pending) (ended : relayEnd ≠ .none) :
    RelayOver input log relayEnd pending := by
  refine ⟨ended, ?_, fun _ => escaped⟩
  rw [escaped.all, beforeEscape_append escaped.free]
  exact prefix_append _ _

theorem Progress.of_relayEnd {toConsole : ToConsole} {after : RelayEnd}
    (progress : Progress input log relayEnd pending toConsole)
    (ends : after = relayEnd ∨ (after ≠ .none ∧ after ≠ .escape)) :
    Progress input log after pending toConsole := by
  rcases ends with rfl | ⟨ended, other⟩
  · exact progress
  · cases toConsole with
    | reading | replying | writing => exact ⟨other, progress.2⟩
    | returned => exact ⟨ended, progress.written, fun escape => absurd escape other⟩

end

/-! ## Steps of the session -/

namespace Session

variable {input : ClientInput} {log : RelayLog} {s : Session}

def Relaying (input : ClientInput) (log : RelayLog) (s : Session) (toConsole : ToConsole) :
    Prop :=
  s.input.appReader = (input.appReader.read log.chunks.flatten).1 ∧
    Progress input log s.relayEnd s.input.pending toConsole

theorem endRelay_input (reason : RelayEnd) : (s.endRelay reason).input = s.input := by
  unfold endRelay
  split <;> rfl

theorem endRelay_relayEnd (reason : RelayEnd) :
    (s.endRelay reason).relayEnd = if s.relayEnd = .none then reason else s.relayEnd := by
  unfold endRelay
  split <;> rfl

theorem endRelay_ended {reason : RelayEnd} (proper : reason ≠ .none) :
    (s.endRelay reason).relayEnd ≠ .none := by
  rw [endRelay_relayEnd]
  split
  · exact proper
  · assumption

variable {toConsole : ToConsole} {next : Session} {event : SessionEvent}

theorem Relaying.endRelay {reason : RelayEnd} (relaying : Relaying input log s toConsole)
    (proper : reason ≠ .none) (other : reason ≠ .escape) :
    Relaying input log (s.endRelay reason) toConsole := by
  refine ⟨?_, ?_⟩
  · rw [endRelay_input]
    exact relaying.1
  · rw [endRelay_input, endRelay_relayEnd]
    split
    · exact relaying.2.of_relayEnd (.inr ⟨proper, other⟩)
    · exact relaying.2

section

variable (relaying : Relaying input log s .replying)

include relaying

theorem Relaying.forward : Relaying input log s.forward.1 s.forward.2 := by
  obtain ⟨reader, other, forwarding⟩ := relaying
  unfold Session.forward
  dsimp only
  split
  · exact ⟨reader, other, rfl, s.input.pending, forwarding, rfl, rfl⟩
  · rename_i nothing
    have nothing := not_not.mp nothing
    split
    · rename_i escape
      have escaped := forwarding.escaped (by simpa using escape)
      rw [show beforeEscape s.input.pending = [] from nothing, append_nil] at escaped
      refine ⟨?_, ?_⟩
      · rw [endRelay_input]
        exact reader
      · rw [endRelay_input]
        exact escaped.over (endRelay_ended nofun)
    · rename_i free
      have free : escapeChar ∉ s.input.pending := by simpa using free
      have empty : s.input.pending = [] := (beforeEscape_of_not_mem free).symm.trans nothing
      rw [empty] at forwarding
      exact ⟨reader, other, rfl, forwarding⟩

theorem Relaying.over (ended : s.relayEnd ≠ .none) : Relaying input log s .returned :=
  ⟨relaying.1, relaying.2.2.over ended relaying.2.1⟩

theorem Relaying.wait (empty : s.input.pending = []) : Relaying input log s .reading := by
  obtain ⟨reader, other, forwarding⟩ := relaying
  rw [empty] at forwarding
  exact ⟨reader, other, empty, forwarding⟩

theorem Relaying.toConsoleHead : Relaying input log s.toConsoleHead.1 s.toConsoleHead.2 := by
  unfold Session.toConsoleHead
  split
  · rename_i ended
    exact relaying.over ended
  · split
    · rename_i empty
      exact relaying.wait empty
    · exact relaying.forward

theorem Relaying.toConsoleReceived :
    Relaying input log s.toConsoleReceived.1 s.toConsoleReceived.2 := by
  unfold Session.toConsoleReceived
  split
  · rename_i empty
    exact relaying.wait empty
  · split
    · rename_i ended
      exact relaying.over ended
    · exact relaying.forward

end

theorem Relaying.toConsoleRead (relaying : Relaying input log s .reading) (result : Option Bytes) :
    Relaying input (log.after s (.read result)) (s.toConsoleRead result).1
      (s.toConsoleRead result).2 := by
  obtain ⟨reader, other, empty, forwarding⟩ := relaying
  cases result with
  | none =>
    have waiting : Relaying input log s .replying := ⟨reader, other, by rwa [empty]⟩
    have closed : RelayEnd.clientClosed ≠ .none := nofun
    exact (waiting.endRelay closed nofun).over (endRelay_ended closed)
  | some chunk =>
    obtain ⟨read, arrived⟩ := s.input.receive_eq chunk
    have received : Relaying input { log with chunks := log.chunks ++ [chunk] }
        ({ s with input := (s.input.receive chunk).1 }.sends .toConsole
          (s.input.receive chunk).2) .replying := by
      refine ⟨?_, other, ?_⟩
      · change (s.input.receive chunk).1.appReader = _
        rw [read, reader, flatten_concat, AppReader.read_append]
      · change Forwarding _ _ (s.input.receive chunk).1.pending
        rw [arrived, empty, nil_append]
        exact forwarding.read reader
    unfold Session.toConsoleRead
    dsimp only
    split
    · exact received
    · exact received.toConsoleReceived

theorem Relaying.toConsoleWritten {out : Bytes} {escape : Bool}
    (relaying : Relaying input log s (.writing out escape)) (failed : Bool) {user : Bytes}
    {toClient : ToClient} (control : s.control = .relay user (.writing out escape) toClient) :
    Relaying input (log.after s (.consoleWritten failed)) (s.toConsoleWritten escape failed).1
      (s.toConsoleWritten escape failed).2 := by
  obtain ⟨reader, other, empty, held, forwarding, rfl, rfl⟩ := relaying
  cases failed with
  | true =>
    refine ⟨?_, ?_⟩
    · change (s.endRelay .consoleClosed).input.appReader = _
      rw [endRelay_input]
      exact reader
    · change RelayOver input log (s.endRelay .consoleClosed).relayEnd _
      refine forwarding.over (endRelay_ended nofun) ?_
      rw [endRelay_relayEnd]
      split
      · exact nofun
      · exact other
  | false =>
    have logged : log.after s (.consoleWritten false) =
        { log with written := log.written ++ beforeEscape held } := by
      rw [RelayLog.after, control]
    rw [logged]
    unfold Session.toConsoleWritten
    rw [if_neg nofun]
    split
    · rename_i escape
      have escaped := forwarding.escaped (by simpa using escape)
      refine ⟨?_, ?_⟩
      · rw [endRelay_input]
        exact reader
      · rw [endRelay_input, empty]
        exact escaped.over (endRelay_ended nofun)
    · rename_i escape
      have free : escapeChar ∉ held := by simpa using escape
      obtain ⟨unseen, all, clean, dropped⟩ := forwarding
      refine Relaying.toConsoleHead ⟨reader, other, ?_⟩
      rw [empty, beforeEscape_of_not_mem free]
      refine ⟨unseen, by rw [append_nil]; exact all, ?_, ?_⟩
      · rw [mem_append, not_or]
        exact ⟨clean, free⟩
      · exact dropped.trans (behindEscape_of_not_mem free)

structure Beside (s next : Session) : Prop where
  input : next.input = s.input
  relayEnd : next.relayEnd = s.relayEnd ∨ (next.relayEnd ≠ .none ∧ next.relayEnd ≠ .escape)

theorem Relaying.beside (relaying : Relaying input log s toConsole) (beside : Beside s next) :
    Relaying input log next toConsole := by
  refine ⟨?_, ?_⟩
  · rw [beside.input]
    exact relaying.1
  · rw [beside.input]
    exact relaying.2.of_relayEnd beside.relayEnd

theorem beside_toClientHead : Beside s s.toClientHead.1 := by
  unfold toClientHead
  split <;> exact ⟨rfl, .inl rfl⟩

theorem beside_toClientSent (ok : Bool) : Beside s (s.toClientSent ok).1 := by
  unfold toClientSent
  split
  · exact ⟨rfl, .inr ⟨nofun, nofun⟩⟩
  · exact beside_toClientHead

theorem beside_toClientRead (result : Option Bytes) :
    Beside s (s.toClientRead result).1 := by
  unfold toClientRead
  cases result with
  | none =>
    refine ⟨endRelay_input _, ?_⟩
    rw [endRelay_relayEnd]
    split
    · exact .inr ⟨nofun, nofun⟩
    · exact .inl rfl
  | some chunk =>
    dsimp only
    split
    · exact ⟨rfl, .inl rfl⟩
    · split
      · rename_i sent ok _
        obtain ⟨same, ends⟩ := @beside_toClientSent { s with out := sent } ok
        exact ⟨same, ends⟩
      · exact ⟨rfl, .inl rfl⟩

def InRelay (input : ClientInput) (log : RelayLog) (s : Session) : Prop :=
  Relaying input log s s.control.toConsole

theorem InRelay.of_control {control : Control} (inRelay : InRelay input log s)
    (same : s.control = control) : Relaying input log s control.toConsole := same ▸ inRelay

theorem Relaying.inRelay (relaying : Relaying input log s toConsole) (user : Bytes)
    (toClient : ToClient) : InRelay input log (s.relay user toConsole toClient) := by
  unfold relay
  split
  · rename_i both
    rw [both.1] at relaying
    unfold bridgeReturned
    split <;> exact relaying
  · exact relaying

theorem inRelay_startRelay (user : Bytes) : InRelay s.input {} (s.startRelay user) := by
  have ready : Relaying s.input {} { s with relayEnd := .none } .replying := by
    refine ⟨rfl, nofun, rfl, ?_, nofun, ?_⟩
    · rw [flatten_nil, applicationBytes, AppReader.read_nil, append_nil, nil_append]
    · exact @droppedBehindEscape_concat_of_not_mem [] s.input.pending not_mem_nil
  exact (ready.toConsoleHead.beside beside_toClientHead).inRelay _ _

structure Aside (s next : Session) : Prop where
  toConsole : next.control.toConsole = .returned
  relayEnd : next.relayEnd = s.relayEnd
  input : next.input = s.input

theorem aside_login (attempt : Nat) (texts : List Bytes) :
    Aside s (s.login attempt texts) := by
  unfold login
  split <;> exact ⟨rfl, rfl, rfl⟩

theorem aside_lineAborted (reader : LineReader) : Aside s (s.lineAborted reader) := by
  cases reader with
  | user | password | selection => exact ⟨rfl, rfl, rfl⟩

private theorem aside_lineEntered (line : Bytes) (reader : LineReader) :
    Aside s (s.lineEntered line reader) := by
  cases reader with
  | user => exact ⟨rfl, rfl, rfl⟩
  | password =>
    rw [lineEntered]
    split <;> exact ⟨rfl, rfl, rfl⟩
  | selection =>
    rw [lineEntered]
    split
    · exact ⟨rfl, rfl, rfl⟩
    · split <;> exact ⟨rfl, rfl, rfl⟩

theorem aside_lineByte {reader : LineReader} {line : Bytes} (c : UInt8)
    (outside : s.control.toConsole = .returned) : Aside s (s.lineByte reader line c) := by
  unfold lineByte
  split
  · exact aside_lineEntered line reader
  · exact aside_lineAborted reader
  · exact ⟨rfl, rfl, rfl⟩
  · exact ⟨rfl, rfl, rfl⟩
  · exact ⟨outside, rfl, rfl⟩

theorem aside_authenticated (opts : Options) (attempt : Nat) (user : Bytes)
    (result : Bool) : Aside s (authenticated opts s attempt user result) := by
  refine ⟨?_, rfl, rfl⟩
  change Control.toConsole (if _ then _ else _) = _
  split
  · rfl
  · split <;> rfl

theorem aside_groupChecked (opts : Options) (attempt : Nat) (user : Bytes)
    (result : Bool) : Aside s (groupChecked opts s attempt user result) := by
  refine ⟨?_, rfl, rfl⟩
  change Control.toConsole (if _ then _ else _) = _
  split <;> rfl

theorem aside_menu (user : Bytes) (consoles : List ConsoleEntry) :
    Aside s (s.menu user consoles) := by
  unfold menu
  split <;> exact ⟨rfl, rfl, rfl⟩

theorem aside_connected (user : Bytes) (entry : ConsoleEntry) (failed : Bool) :
    Aside s (s.connected user entry failed) := by
  unfold connected
  split <;> exact ⟨rfl, rfl, rfl⟩

section

variable (relaying : Relaying input log s .returned)

include relaying

theorem Relaying.aside (aside : Aside s next) : InRelay input log next := by
  obtain ⟨toConsole, relayEnd, same⟩ := aside
  rw [InRelay, toConsole]
  refine ⟨?_, ?_⟩
  · rw [same]
    exact relaying.1
  · rw [same, relayEnd]
    exact relaying.2

theorem Relaying.read {chunk : Bytes} :
    Relaying input { log with chunks := log.chunks ++ [chunk] }
      { s with input := (s.input.receive chunk).1 } .returned := by
  obtain ⟨reader, ended, written, escaped⟩ := relaying
  obtain ⟨read, arrived⟩ := s.input.receive_eq chunk
  have more : input.applicationBytes (log.chunks ++ [chunk]).flatten =
      input.applicationBytes log.chunks.flatten ++ (s.input.appReader.read chunk).2 := by
    rw [flatten_concat, applicationBytes, AppReader.read_append, ← reader, ← append_assoc]
    rfl
  refine ⟨?_, ended, ?_, fun escape => ?_⟩
  · change (s.input.receive chunk).1.appReader = _
    rw [read, reader, flatten_concat, AppReader.read_append]
  · dsimp only
    rw [more]
    exact written.trans beforeEscape_prefix_append
  · obtain ⟨all, free⟩ := escaped escape
    refine ⟨?_, free⟩
    have found : escapeChar ∈ (input.batches log.chunks).flatten := by
      rw [flatten_batches, all]
      simp
    dsimp only
    rw [more, all, batches_concat, droppedBehindEscape_concat_of_mem found, arrived]
    simp

theorem Relaying.take {c : UInt8} {rest : Bytes} (pending : s.input.pending = c :: rest) :
    Relaying input { log with seen := log.seen ++ [c] } { s with input.pending := rest }
      .returned := by
  obtain ⟨reader, ended, written, escaped⟩ := relaying
  refine ⟨reader, ended, written, fun escape => ?_⟩
  obtain ⟨all, free⟩ := escaped escape
  refine ⟨?_, free⟩
  dsimp only
  rw [all, pending, append_assoc log.seen, singleton_append]

end

theorem InRelay.step {opts : Options} (inRelay : InRelay input log s)
    (same : ObservedRelay.SameRelay ⟨s, log⟩ event) (stepped : step opts s event = some next) :
    InRelay input (log.after s event) next := by
  cases move_of_step stepped with
  | written | flushed | returned => exact inRelay
  | @replied _ out _ _ _ _ _ control goesOn =>
    have relaying : Relaying input log
        ({ s with out }.sends .toConsole (s.toSend .toConsole)) .replying :=
      inRelay.of_control control
    rw [goesOn]
    exact relaying.toConsoleReceived.inRelay _ _
  | @sentToClient _ out ok _ toConsole _ control =>
    have relaying : Relaying input log { s with out } toConsole := inRelay.of_control control
    exact (relaying.beside (beside_toClientSent ok)).inRelay _ _
  | relayRead control result =>
    exact ((inRelay.of_control control).toConsoleRead result).inRelay _ _
  | consoleWritten control failed =>
    exact ((inRelay.of_control control).toConsoleWritten failed control).inRelay _ _
  | consoleRead control result =>
    exact ((inRelay.of_control control).beside (beside_toClientRead result)).inRelay _ _
  | aborted control => exact (inRelay.of_control control).aside (aside_lineAborted _)
  | received control chunk =>
    have taken : Relaying input _ { s with input := (s.input.receive chunk).1 } .returned :=
      (inRelay.of_control control).read
    refine taken.aside ⟨?_, rfl, rfl⟩
    change s.control.toConsole = _
    rw [control]
    rfl
  | @typed _ _ _ c control pending =>
    have outside : s.control.toConsole = .returned := by
      rw [control]
      rfl
    have logged : log.after s .advance = { log with seen := log.seen ++ [c] } := by
      rw [RelayLog.after, control, pending]
    rw [logged]
    exact ((inRelay.of_control control).take pending).aside (aside_lineByte _ outside)
  | startRelay control => exact absurd same (by simp [ObservedRelay.SameRelay, control])
  | authenticated control result =>
    exact (inRelay.of_control control).aside (aside_authenticated opts _ _ result)
  | groupChecked control result =>
    exact (inRelay.of_control control).aside (aside_groupChecked opts _ _ result)
  | delayed control => exact (inRelay.of_control control).aside (aside_login _ _)
  | menu control => exact (inRelay.of_control control).aside (aside_menu _ _)
  | connected control failed =>
    exact (inRelay.of_control control).aside (aside_connected _ _ failed)

end Session

namespace ObservedRelay

theorem inRelay_of_run {opts : Options} {s : Session} {user : Bytes}
    {events : List SessionEvent} {final : ObservedRelay}
    (run : Run (step opts) SameRelay (start s user) events final) :
    final.session.InRelay s.input final.log := by
  have started : (start s user).session.InRelay s.input (start s user).log :=
    Session.inRelay_startRelay user
  refine @Run.preserves _ _ _ _ (fun o => o.session.InRelay s.input o.log) _ _ _ run
    started fun o event next inRelay same stepped => ?_
  obtain ⟨_, moved, rfl⟩ := Option.map_eq_some_iff.mp stepped
  exact Session.InRelay.step inRelay same moved

theorem written_of_inRelay {input : ClientInput} {o : ObservedRelay} {user : Bytes}
    {toConsole : ToConsole} {toClient : ToClient} (inRelay : o.session.InRelay input o.log)
    (control : o.session.control = .relay user toConsole toClient)
    (active : o.session.relayEnd = .none) :
    o.log.written ++ o.unwritten =
      beforeEscape (input.applicationBytes o.log.chunks.flatten) := by
  obtain ⟨-, progress⟩ := inRelay.of_control control
  rw [unwritten, control]
  cases toConsole with
  | reading =>
    obtain ⟨-, -, forwarding⟩ := progress
    rw [forwarding.all, beforeEscape_append forwarding.free]
    rfl
  | replying =>
    obtain ⟨-, forwarding⟩ := progress
    rw [forwarding.all, beforeEscape_append forwarding.free]
  | writing =>
    obtain ⟨-, -, held, forwarding, rfl, -⟩ := progress
    rw [forwarding.all, beforeEscape_append forwarding.free]
  | returned => exact absurd active progress.ended

end ObservedRelay

/-! ## Whole runs -/

theorem RelayOver.of_inRelay {input : ClientInput} {log : RelayLog} {s : Session}
    (inRelay : s.InRelay input log) (escape : s.relayEnd = .escape) :
    RelayOver input log s.relayEnd s.input.pending := by
  obtain ⟨-, progress⟩ := inRelay
  cases place : s.control.toConsole with
  | reading | replying | writing =>
    rw [place] at progress
    exact absurd escape progress.1
  | returned =>
    rw [place] at progress
    exact progress

theorem Escaped.split {input : ClientInput} {log : RelayLog} {pending : Bytes}
    (escaped : Escaped input log pending) :
    log.written = beforeEscape (input.applicationBytes log.chunks.flatten) ∧
      droppedBehindEscape (input.batches log.chunks) ++ (log.seen ++ pending) =
        behindEscape (input.applicationBytes log.chunks.flatten) := by
  rw [escaped.all, beforeEscape_append escaped.free, behindEscape_append escaped.free]
  constructor
  · simp [beforeEscape]
  · simp [behindEscape]

namespace ObservedRelay

theorem written_isPrefix {input : ClientInput} {o : ObservedRelay}
    (inRelay : o.session.InRelay input o.log) :
    o.log.written <+: beforeEscape (input.applicationBytes o.log.chunks.flatten) := by
  obtain ⟨-, progress⟩ := inRelay
  cases place : o.session.control.toConsole with
  | reading =>
    rw [place] at progress
    exact progress.2.2.written_isPrefix
  | replying =>
    rw [place] at progress
    exact progress.2.written_isPrefix
  | writing =>
    rw [place] at progress
    obtain ⟨-, -, held, forwarding, -⟩ := progress
    exact forwarding.written_isPrefix
  | returned =>
    rw [place] at progress
    exact progress.written

/-- The bytes before the first escape character go to the console; what was read together with it
is dropped, since `toConsole` has emptied `pending_`. -/
theorem relay_splits_input_iff (opts : Options) (s : Session) (user : Bytes)
    (events : List SessionEvent) (final : ObservedRelay)
    (run : Run (step opts) SameRelay (start s user) events final) :
    final.log.written <+: beforeEscape (s.input.applicationBytes final.log.chunks.flatten) ∧
    (∀ name toConsole toClient, final.session.control = .relay name toConsole toClient →
      final.session.relayEnd = .none → final.log.written ++ final.unwritten =
          beforeEscape (s.input.applicationBytes final.log.chunks.flatten)) ∧
    (final.session.relayEnd = .escape →
      final.log.written = beforeEscape (s.input.applicationBytes final.log.chunks.flatten) ∧
      (final.log.seen ++ final.session.input.pending =
          behindEscape (s.input.applicationBytes final.log.chunks.flatten) ↔
        droppedBehindEscape (s.input.batches final.log.chunks) = [])) := by
  have inRelay := inRelay_of_run run
  refine ⟨written_isPrefix inRelay, fun _ _ _ control active =>
    written_of_inRelay inRelay control active, fun escape => ?_⟩
  obtain ⟨written, behind⟩ := ((RelayOver.of_inRelay inRelay escape).escaped escape).split
  refine ⟨written, ?_⟩
  rw [← behind, eq_comm, append_left_eq_self]

def loginEvents : List SessionEvent :=
  [.written .main false, .written .main false, .read (some [97, 13]), .advance,
    .written .main false, .advance, .written .main false, .written .main false,
    .read (some [13]), .advance, .written .main false, .authenticated true,
    .configuration (some [⟨[104], [47], .uart⟩]), .written .main false,
    .read (some [49, 13]), .advance, .written .main false, .advance, .written .main false,
    .connected false, .written .main false]

def connectedSession : Session :=
  (exec (Session.step {}) Session.start loginEvents).getD Session.start

def escapeAlone : List SessionEvent :=
  [.read (some [97, 29]), .consoleWritten false, .consoleRead none, .written .main false,
    .configuration (some [⟨[104], [47], .uart⟩]), .written .main false, .read (some [98]),
    .advance]

theorem relay_splits_input_escape_alone :
    ∃ final, exec (step {}) (start connectedSession [97]) escapeAlone = some final ∧
      final.log.written = [97] ∧ final.log.seen = [98] ∧
      final.log.seen ++ final.session.input.pending =
        behindEscape (connectedSession.input.applicationBytes final.log.chunks.flatten) :=
  ⟨_, rfl, rfl, rfl,
    ((relay_splits_input_iff {} connectedSession [97] escapeAlone _
      (.next trivial rfl (.next trivial rfl (.next trivial rfl (.next trivial rfl
        (.next trivial rfl (.next trivial rfl (.next trivial rfl (.next trivial rfl
          .done))))))))).2.2 rfl).2.mpr rfl⟩

theorem relay_drops_input :
    ∃ final, exec (Session.step {}) Session.start loginEvents = some connectedSession ∧
      connectedSession.control = .connected [97] ∧ exec (step {}) (start connectedSession [97])
        [.read (some [97, 29, 98]), .consoleWritten false] = some final ∧
      final.log.written = [97] ∧ final.session.relayEnd = .escape ∧
      final.log.seen ++ final.session.input.pending = [] ∧
      behindEscape (connectedSession.input.applicationBytes final.log.chunks.flatten) = [98] :=
  ⟨_, rfl, rfl, rfl, rfl, rfl, rfl, rfl⟩

end ObservedRelay

end Coroserver.Telnet
