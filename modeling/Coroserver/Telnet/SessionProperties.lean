import Coroserver.Telnet.SessionMoves

/-! The records of a session follow a grammar: failed attempts, at most one granted
attempt, and then the consoles the user opens. The control of the session says
which part of the grammar has been read, and every step keeps that. -/

namespace Coroserver.Telnet

open List Machine

inductive FailedAttempt (group : Bytes) (attempt : Nat) : List Record → Prop where
  | anonymous : FailedAttempt group attempt [.entered attempt []]
  | refused {user} : user ≠ [] → FailedAttempt group attempt
      [.entered attempt user, .authenticate attempt user, .authenticated attempt user false]
  | excluded {user} : user ≠ [] → FailedAttempt group attempt
      [.entered attempt user, .authenticate attempt user, .authenticated attempt user true,
        .userInGroup user group false]

inductive Attempts (group : Bytes) : Nat → List Record → Prop where
  | none : Attempts group 0 []
  | next {attempt history records} :
      Attempts group attempt history → FailedAttempt group attempt records →
      Attempts group (attempt + 1) (history ++ records)

def granted (group : Bytes) (attempt : Nat) (user : Bytes) : List Record :=
  [.entered attempt user, .authenticate attempt user, .authenticated attempt user true] ++
    if group = [] then [] else [.userInGroup user group true]

def Record.isBridge : Record → Bool
  | .bridge _ _ => true
  | .entered _ _ | .authenticate _ _ | .authenticated _ _ _ | .userInGroup _ _ _ => false

def Record.isAuthenticate : Record → Bool
  | .authenticate _ _ => true
  | .entered _ _ | .authenticated _ _ _ | .userInGroup _ _ _ | .bridge _ _ => false

structure LoggedIn (group user : Bytes) (history : List Record) : Prop where
  named : user ≠ []
  opened : ∃ attempt earlier, ∃ consoles : List ConsoleEntry, attempt < maxLoginAttempts ∧
    Attempts group attempt earlier ∧
    history = earlier ++ granted group attempt user ++ consoles.map (.bridge user)

/-- A console is opened only after `authenticate` and, with a group, `userInGroup`
have returned true for the user of the attempt; `authenticate` is called at most
`maxLoginAttempts` times, with a name. -/
structure Guarded (group : Bytes) (history : List Record) : Prop where
  opened : ∀ before user entry after, history = before ++ .bridge user entry :: after →
    ∃ earlier attempt, ∃ consoles : List ConsoleEntry,
      before = earlier ++ granted group attempt user ++ consoles.map (.bridge user)
  calls : history.countP Record.isAuthenticate ≤ maxLoginAttempts
  named : ∀ attempt user, .authenticate attempt user ∈ history → user ≠ []

theorem exists_append_of_any_eq_false {α : Type} {property : α → Bool}
    {left right before after : List α} {entry : α} (free : left.any property = false)
    (holds : property entry = true) (same : left ++ right = before ++ entry :: after) :
    ∃ between, before = left ++ between ∧ right = between ++ entry :: after := by
  induction left generalizing before with
  | nil => exact ⟨before, rfl, same⟩
  | cons _ _ ih =>
    simp only [any_cons, Bool.or_eq_false_iff] at free
    cases before with
    | nil =>
      obtain ⟨rfl, -⟩ := List.cons.inj same
      simp [holds] at free
    | cons =>
      obtain ⟨rfl, rest⟩ := List.cons.inj same
      obtain ⟨between, rfl, split⟩ := ih free.2 rest
      exact ⟨between, rfl, split⟩

section

variable {group user : Bytes} {attempt : Nat} {history records : List Record}

open Record

theorem FailedAttempt.calls (failed : FailedAttempt group attempt records) :
    records.countP isAuthenticate ≤ 1 := by
  cases failed <;> simp [countP_cons, isAuthenticate]

theorem FailedAttempt.not_isBridge (failed : FailedAttempt group attempt records) :
    records.any isBridge = false := by
  cases failed <;> rfl

variable {number : Nat}

theorem FailedAttempt.named (failed : FailedAttempt group attempt records)
    (called : .authenticate number user ∈ records) : user ≠ [] := by
  cases failed with
  | anonymous => simp at called
  | refused named | excluded named =>
    obtain ⟨-, rfl⟩ : number = attempt ∧ user = _ := by simpa using called
    exact named

section

variable (attempts : Attempts group attempt history)

include attempts

theorem Attempts.calls : history.countP isAuthenticate ≤ attempt := by
  induction attempts with
  | none => simp
  | next _ failed ih =>
    have added := failed.calls
    rw [countP_append]
    omega

theorem Attempts.not_isBridge : history.any isBridge = false := by
  induction attempts with
  | none => rfl
  | next _ failed ih => simp only [any_append, ih, failed.not_isBridge, Bool.or_self]

theorem Attempts.named (called : .authenticate number user ∈ history) : user ≠ [] := by
  induction attempts with
  | none => simp at called
  | next _ failed ih =>
    rcases mem_append.mp called with earlier | added
    · exact ih earlier
    · exact failed.named added

end

theorem granted_not_isBridge : (granted group attempt user).any isBridge = false := by
  unfold granted
  split <;> rfl

theorem granted_calls : (granted group attempt user).countP isAuthenticate = 1 := by
  unfold granted
  split <;> simp [countP_cons, isAuthenticate]

theorem authenticate_mem_granted {name : Bytes}
    (called : .authenticate number name ∈ granted group attempt user) : name = user := by
  have same : number = attempt ∧ name = user := by
    unfold granted at called
    split at called <;> simpa using called
  exact same.2

theorem Attempts.guarded (attempts : Attempts group attempt history)
    (bounded : attempt ≤ maxLoginAttempts) : Guarded group history := by
  refine ⟨?_, attempts.calls.trans bounded, fun _ _ called => attempts.named called⟩
  intro _ _ _ _ same
  have closed := attempts.not_isBridge
  simp [same, isBridge] at closed

theorem Guarded.of_append {later : List Record} (guarded : Guarded group (history ++ later)) :
    Guarded group history := by
  refine ⟨?_, ?_, ?_⟩
  · intro before user entry after same
    exact guarded.opened before user entry (after ++ later) (by simp [same])
  · have calls := guarded.calls
    rw [countP_append] at calls
    omega
  · intro attempt user called
    exact guarded.named attempt user (mem_append_left later called)

theorem Attempts.guarded_of_started (attempts : Attempts group attempt history)
    (bounded : attempt < maxLoginAttempts) {started later : List Record}
    (failed : FailedAttempt group attempt (started ++ later)) :
    Guarded group (history ++ started) := by
  have complete := (attempts.next failed).guarded bounded
  rw [← append_assoc] at complete
  exact complete.of_append

theorem LoggedIn.guarded (loggedIn : LoggedIn group user history) : Guarded group history := by
  obtain ⟨named, attempt, earlier, consoles, _, attempts, rfl⟩ := loggedIn
  have closed : (earlier ++ granted group attempt user).any isBridge = false := by
    simp [attempts.not_isBridge, granted_not_isBridge]
  refine ⟨?_, ?_, ?_⟩
  · intro _ _ _ _ same
    obtain ⟨_, rfl, rest⟩ := exists_append_of_any_eq_false closed rfl same
    obtain ⟨opened, _, -, rfl, later⟩ := map_eq_append_iff.mp rest
    obtain ⟨_, _, -, first, -⟩ := map_eq_cons_iff.mp later
    cases first
    exact ⟨earlier, attempt, opened, rfl⟩
  · have before := attempts.calls
    have none : (consoles.map (bridge user)).countP isAuthenticate = 0 := by
      simp [countP_eq_zero, isAuthenticate]
    rw [countP_append, countP_append, granted_calls, none]
    omega
  · intro _ _ called
    rcases mem_append.mp called with login | opened
    · rcases mem_append.mp login with before | last
      · exact attempts.named before
      · exact authenticate_mem_granted last ▸ named
    · simp at opened

theorem LoggedIn.bridge (loggedIn : LoggedIn group user history) (entry : ConsoleEntry) :
    LoggedIn group user (history ++ [.bridge user entry]) := by
  obtain ⟨named, attempt, earlier, consoles, bounded, attempts, rfl⟩ := loggedIn
  exact ⟨named, attempt, earlier, consoles ++ [entry], bounded, attempts, by simp⟩

end

def Phase (group : Bytes) (history : List Record) : Control → Prop
  | .readLine (.user attempt) _ => attempt < maxLoginAttempts ∧ Attempts group attempt history
  | .readLine (.password attempt user) _ =>
    attempt < maxLoginAttempts ∧
      ∃ earlier, Attempts group attempt earlier ∧ history = earlier ++ [.entered attempt user]
  | .authenticate attempt user =>
    attempt < maxLoginAttempts ∧ user ≠ [] ∧
      ∃ earlier, Attempts group attempt earlier ∧
        history = earlier ++ [.entered attempt user, .authenticate attempt user]
  | .userInGroup attempt user =>
    attempt < maxLoginAttempts ∧ user ≠ [] ∧ group ≠ [] ∧
      ∃ earlier, Attempts group attempt earlier ∧
        history = earlier ++ [.entered attempt user, .authenticate attempt user,
          .authenticated attempt user true]
  | .delay attempt => attempt < maxLoginAttempts ∧ Attempts group (attempt + 1) history
  | .readLine (.selection user _) _ | .loadConsoles user | .connect user _ | .connected user
  | .relay user _ _ => LoggedIn group user history
  | .finished => Guarded group history

theorem Phase.guarded {group : Bytes} {history : List Record} {control : Control}
    (phase : Phase group history control) : Guarded group history := by
  cases control with
  | readLine reader =>
    cases reader with
    | user => exact phase.2.guarded phase.1.le
    | password attempt user =>
      obtain ⟨bounded, _, attempts, rfl⟩ := phase
      by_cases anonymous : user = []
      · subst anonymous
        have only : FailedAttempt group attempt ([.entered attempt []] ++ []) := .anonymous
        exact attempts.guarded_of_started bounded only
      · exact attempts.guarded_of_started bounded (.refused anonymous)
    | selection => exact LoggedIn.guarded phase
  | authenticate =>
    obtain ⟨bounded, named, _, attempts, rfl⟩ := phase
    exact attempts.guarded_of_started bounded (.refused named)
  | userInGroup =>
    obtain ⟨bounded, named, -, _, attempts, rfl⟩ := phase
    exact attempts.guarded_of_started bounded (.excluded named)
  | delay => exact phase.2.guarded phase.1
  | loadConsoles | connect | connected | relay =>
    exact LoggedIn.guarded phase
  | finished => exact phase

namespace Session

variable {group user : Bytes} {s next : Session}

def InPhase (group : Bytes) (s : Session) : Prop := Phase group s.history s.control

theorem InPhase.of_control {control : Control} (phase : InPhase group s)
    (same : s.control = control) : Phase group s.history control := same ▸ phase

@[simp] theorem sends_history (caller : Coroutine) (texts : List Bytes) :
    (s.sends caller texts).history = s.history := rfl

@[simp] theorem endRelay_history (reason : RelayEnd) :
    (s.endRelay reason).history = s.history := by
  unfold endRelay
  split <;> rfl

@[simp] theorem forward_history : s.forward.1.history = s.history := by
  unfold forward
  dsimp only
  split
  · rfl
  · split <;> simp

@[simp] theorem toConsoleHead_history : s.toConsoleHead.1.history = s.history := by
  unfold toConsoleHead
  split
  · rfl
  · split <;> simp

@[simp] theorem toConsoleReceived_history : s.toConsoleReceived.1.history = s.history := by
  unfold toConsoleReceived
  split
  · rfl
  · split <;> simp

@[simp] theorem toConsoleRead_history (result : Option Bytes) :
    (s.toConsoleRead result).1.history = s.history := by
  unfold toConsoleRead
  cases result with
  | none => simp
  | some =>
    dsimp only
    split <;> simp

@[simp] theorem toConsoleWritten_history (escape failed : Bool) :
    (s.toConsoleWritten escape failed).1.history = s.history := by
  unfold toConsoleWritten
  split
  · simp
  · split <;> simp

@[simp] theorem toClientHead_history : s.toClientHead.1.history = s.history := by
  unfold toClientHead
  split <;> rfl

@[simp] theorem toClientSent_history (ok : Bool) :
    (s.toClientSent ok).1.history = s.history := by
  unfold toClientSent
  split <;> simp

@[simp] theorem toClientRead_history (result : Option Bytes) :
    (s.toClientRead result).1.history = s.history := by
  unfold toClientRead
  cases result with
  | none => simp
  | some =>
    dsimp only
    split
    · rfl
    · split <;> simp

theorem inPhase_relay (loggedIn : LoggedIn group user s.history) (toConsole : ToConsole)
    (toClient : ToClient) : InPhase group (s.relay user toConsole toClient) := by
  unfold relay bridgeReturned
  split
  · cases s.relayEnd with
    | none | escape | consoleClosed => exact loggedIn
    | clientClosed => exact loggedIn.guarded
  · exact loggedIn

theorem inPhase_login {attempt : Nat} (attempts : Attempts group attempt s.history)
    (bounded : attempt ≤ maxLoginAttempts) (texts : List Bytes) :
    InPhase group (s.login attempt texts) := by
  unfold login
  split
  · rename_i another
    exact ⟨another, attempts⟩
  · exact attempts.guarded bounded

theorem inPhase_start : InPhase group start := inPhase_login .none (Nat.zero_le _) _

variable {reader : LineReader} {event : SessionEvent}

theorem inPhase_lineAborted {line : Bytes} (phase : Phase group s.history (.readLine reader line)) :
    InPhase group (s.lineAborted reader) := by
  cases reader with
  | user | password | selection => exact phase.guarded

private theorem inPhase_lineEntered {before : Bytes} (line : Bytes)
    (phase : Phase group s.history (.readLine reader before)) :
    InPhase group (s.lineEntered line reader) := by
  cases reader with
  | user => exact ⟨phase.1, s.history, phase.2, rfl⟩
  | password attempt user =>
    obtain ⟨bounded, earlier, attempts, same⟩ := phase
    rw [lineEntered]
    split
    · rename_i anonymous
      subst anonymous
      exact ⟨bounded, same ▸ attempts.next .anonymous⟩
    · rename_i named
      exact ⟨bounded, named, earlier, attempts, by simp [record, goto, same]⟩
  | selection user =>
    have loggedIn : LoggedIn group user s.history := phase
    rw [lineEntered]
    split
    · exact loggedIn.guarded
    · split
      · exact loggedIn
      · exact loggedIn.bridge _

theorem inPhase_lineByte {line : Bytes} (c : UInt8)
    (control : s.control = .readLine reader line) (phase : InPhase group s) :
    InPhase group (s.lineByte reader line c) := by
  have reading : ∀ other, Phase group s.history (.readLine reader other) := by
    intro other
    have read := phase.of_control control
    cases reader with
    | user | password | selection => exact read
  unfold lineByte
  split
  · exact inPhase_lineEntered line (reading line)
  · exact inPhase_lineAborted (reading line)
  · exact reading _
  · exact reading _
  · exact phase

theorem inPhase_authenticated (opts : Options) {attempt : Nat} (result : Bool)
    (phase : Phase opts.group s.history (.authenticate attempt user)) :
    InPhase opts.group (authenticated opts s attempt user result) := by
  obtain ⟨bounded, named, earlier, attempts, same⟩ := phase
  cases result with
  | false =>
    refine ⟨bounded, ?_⟩
    simpa [authenticated, goto, record, same] using attempts.next (.refused named)
  | true =>
    by_cases open_ : opts.group = []
    · simp only [InPhase, authenticated, goto, record, open_]
      refine ⟨named, attempt, earlier, [], bounded, ?_, ?_⟩
      · simpa [open_] using attempts
      · simp [same, granted]
    · simp only [InPhase, authenticated, goto, record, open_, if_false]
      exact ⟨bounded, named, open_, earlier, attempts, by simp [same]⟩

theorem inPhase_groupChecked (opts : Options) {attempt : Nat} (result : Bool)
    (phase : Phase opts.group s.history (.userInGroup attempt user)) :
    InPhase opts.group (groupChecked opts s attempt user result) := by
  obtain ⟨bounded, named, restricted, earlier, attempts, same⟩ := phase
  cases result with
  | false =>
    refine ⟨bounded, ?_⟩
    simpa [groupChecked, goto, record, same] using attempts.next (.excluded named)
  | true =>
    refine ⟨named, attempt, earlier, [], bounded, attempts, ?_⟩
    simp [groupChecked, goto, record, same, granted, restricted]

section

variable (loggedIn : LoggedIn group user s.history)

include loggedIn

theorem inPhase_menu (consoles : List ConsoleEntry) : InPhase group (s.menu user consoles) := by
  unfold menu
  split
  · exact loggedIn.guarded
  · exact loggedIn

theorem inPhase_connected (entry : ConsoleEntry) (failed : Bool) :
    InPhase group (s.connected user entry failed) := by
  unfold connected
  split <;> exact loggedIn

theorem inPhase_startRelay : InPhase group (s.startRelay user) :=
  inPhase_relay (by simpa using loggedIn) _ _

end

theorem InPhase.step {opts : Options} (phase : InPhase opts.group s)
    (stepped : step opts s event = some next) : InPhase opts.group next := by
  have loggedIn : ∀ {user toConsole toClient}, s.control = .relay user toConsole toClient →
      LoggedIn opts.group user s.history := fun control => phase.of_control control
  cases move_of_step stepped with
  | written | flushed | returned | received => exact phase
  | replied _ control goesOn =>
    exact inPhase_relay (by simpa [goesOn] using loggedIn control) _ _
  | sentToClient _ control | relayRead control | consoleWritten control | consoleRead control =>
    exact inPhase_relay (by simpa using loggedIn control) _ _
  | aborted control => exact inPhase_lineAborted (phase.of_control control)
  | typed control => exact inPhase_lineByte _ control phase
  | startRelay control => exact inPhase_startRelay (phase.of_control control)
  | authenticated control result =>
    exact inPhase_authenticated opts result (phase.of_control control)
  | groupChecked control result =>
    exact inPhase_groupChecked opts result (phase.of_control control)
  | delayed control =>
    obtain ⟨bounded, attempts⟩ := phase.of_control control
    exact inPhase_login attempts bounded _
  | menu control => exact inPhase_menu (phase.of_control control) _
  | connected control failed => exact inPhase_connected (phase.of_control control) _ failed

/-- In every run of a session consoles are opened only behind a login. -/
theorem guarded_of_run {opts : Options} {events : List SessionEvent} {final : Session}
    (executed : exec (step opts) start events = some final) :
    Guarded opts.group final.history := by
  have phase : InPhase opts.group final := (run_of_exec executed).preserves inPhase_start
    fun _ _ _ before _ stepped => before.step stepped
  exact phase.guarded

theorem guarded_of_run_operator :
    ∃ final, exec (step { group := [103] }) start
        [.written .main false, .written .main false, .read (some [97, 13]), .advance,
          .written .main false, .advance, .written .main false, .written .main false,
          .read (some [13]), .advance, .written .main false, .authenticated true,
          .userInGroup true, .configuration (some [⟨[104], [47], .uart⟩]), .written .main false,
          .read (some [49, 13]), .advance, .written .main false, .advance] = some final ∧
      final.history = granted [103] 0 [97] ++ [.bridge [97] ⟨[104], [47]⟩] ∧
      Guarded [103] final.history := by
  refine exists_exec_and ⟨_, rfl, rfl⟩ fun final executed _ => ?_
  exact guarded_of_run executed

end Session

end Coroserver.Telnet
