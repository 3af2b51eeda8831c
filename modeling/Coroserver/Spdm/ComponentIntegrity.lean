import Coroserver.Machine

/-! `addComponentIntegrity` spawns a coroutine that runs one connection attempt on
the worker pool. A failed attempt waits and tries again; besides, every failed
send or receive calls the client's close callback, which adds the component
anew. The model is of one device. -/

namespace Coroserver.Spdm

open Machine

def maxTry : Nat := 3

/-- Where a coroutine of `addComponentIntegrity` is: not started yet, with its
task on the worker pool, or waiting to try again. -/
inductive Phase where
  | spawned
  | running
  | waiting
  deriving DecidableEq

structure Attempt where
  retry : Nat
  phase : Phase
  deriving DecidableEq

/-- The attempts that run or are scheduled, and whether `spdmDevices` has the
device; the attempts that were started and whether one succeeded are only
recorded. -/
structure ComponentIntegrity where
  attempts : List Attempt := []
  inSpdmDevices : Bool := false
  started : Nat := 0
  succeeded : Bool := false
  deriving DecidableEq

/-- What happens to the attempt at a position: it hands its task to the worker
pool, a send or a receive of the task fails, the task returns with or without an
object, or the five seconds of the wait are over. -/
inductive AttemptEvent where
  | start (position : Nat)
  | socketFailure (position : Nat)
  | finish (position : Nat) (integrity : Bool)
  | expire (position : Nat)

namespace ComponentIntegrity

variable (device : ComponentIntegrity)

def addComponentIntegrity (retry : Nat) : ComponentIntegrity :=
  { device with attempts := device.attempts ++ [⟨retry, .spawned⟩] }

def removeComponentIntegrity : ComponentIntegrity :=
  { device with inSpdmDevices := false }

/-- The callback that every requester is given; the reason is only logged. -/
def handleConnectionError : ComponentIntegrity :=
  device.removeComponentIntegrity.addComponentIntegrity 0

def finishAttempt (position retry : Nat) (integrity : Bool) : ComponentIntegrity :=
  if integrity then
    { device with
      attempts := device.attempts.eraseIdx position, inSpdmDevices := true, succeeded := true }
  else if retry < maxTry then
    { device with attempts := device.attempts.set position ⟨retry, .waiting⟩ }
  else { device with attempts := device.attempts.eraseIdx position }

def step : AttemptEvent → Option ComponentIntegrity
  | .start position =>
    match device.attempts[position]? with
    | some ⟨retry, .spawned⟩ =>
      some { device with
        attempts := device.attempts.set position ⟨retry, .running⟩
        started := device.started + 1 }
    | _ => none
  | .socketFailure position =>
    match device.attempts[position]? with
    | some ⟨_, .running⟩ => some device.handleConnectionError
    | _ => none
  | .finish position integrity =>
    match device.attempts[position]? with
    | some ⟨retry, .running⟩ => some (device.finishAttempt position retry integrity)
    | _ => none
  | .expire position =>
    match device.attempts[position]? with
    | some ⟨retry, .waiting⟩ =>
      some ({ device with attempts := device.attempts.eraseIdx position }.addComponentIntegrity
        (retry + 1))
    | _ => none

def start : ComponentIntegrity := addComponentIntegrity {} 0

/-- At most four attempts are made before a success, and there are never two. -/
def Bounded : Prop :=
  (device.succeeded = false → device.started ≤ maxTry + 1) ∧ device.attempts.length ≤ 1

/-- Sends and receives do not fail: an attempt fails only to connect or by what
the responder answers. -/
def NoSocketFailure (_ : ComponentIntegrity) : AttemptEvent → Prop
  | .socketFailure _ => False
  | _ => True

def Counted : Attempt → Nat → Prop
  | ⟨retry, .spawned⟩, started => started = retry ∧ retry ≤ maxTry
  | ⟨retry, .running⟩, started => started = retry + 1 ∧ retry ≤ maxTry
  | ⟨retry, .waiting⟩, started => started = retry + 1 ∧ retry < maxTry

inductive InSequence (device : ComponentIntegrity) : Prop where
  | ended : device.attempts = [] → device.started ≤ maxTry + 1 → InSequence device
  | one {attempt} : device.attempts = [attempt] → Counted attempt device.started →
      InSequence device

variable {attempt : Attempt} {position : Nat} {next : ComponentIntegrity}

theorem Counted.started_le {started : Nat} (counted : Counted attempt started) :
    started ≤ maxTry + 1 := by
  obtain ⟨retry, phase⟩ := attempt
  cases phase with
  | spawned | running | waiting =>
    obtain ⟨rfl, tries⟩ := counted
    omega

variable {device : ComponentIntegrity}

theorem InSequence.bounded (sequence : InSequence device) : device.Bounded := by
  cases sequence with
  | ended none count => exact ⟨fun _ => count, by simp [none]⟩
  | one single counted => exact ⟨fun _ => counted.started_le, by simp [single]⟩

theorem inSequence_start : InSequence start :=
  .one rfl ⟨rfl, Nat.zero_le _⟩

theorem InSequence.found (sequence : InSequence device)
    (found : device.attempts[position]? = some attempt) :
    position = 0 ∧ device.attempts = [attempt] ∧ Counted attempt device.started := by
  cases sequence with
  | ended none => simp [none] at found
  | one single counted =>
    cases position with
    | zero =>
      simp only [single, List.getElem?_cons_zero, Option.some.injEq] at found
      subst found
      exact ⟨rfl, single, counted⟩
    | succ => simp [single] at found

open ComponentIntegrity

theorem InSequence.step {event : AttemptEvent} (sequence : InSequence device)
    (admitted : NoSocketFailure device event) (stepped : device.step event = some next) :
    InSequence next := by
  revert stepped
  fun_cases step
  all_goals rintro ⟨⟩
  case case1 retry found =>
    obtain ⟨rfl, single, count, tries⟩ := sequence.found found
    have after : device.attempts.set 0 ⟨retry, .running⟩ = [⟨retry, .running⟩] := by
      rw [single]
      rfl
    exact .one after ⟨congrArg (· + 1) count, tries⟩
  case case3 => exact admitted.elim
  case case5 retry found =>
    obtain ⟨rfl, single, count, tries⟩ := sequence.found found
    have none : device.attempts.eraseIdx 0 = [] := by
      rw [single]
      rfl
    have after : device.attempts.set 0 ⟨retry, .waiting⟩ = [⟨retry, .waiting⟩] := by
      rw [single]
      rfl
    have enough : device.started ≤ maxTry + 1 := by omega
    fun_cases finishAttempt
    · exact .ended none enough
    · next again => exact .one after ⟨count, again⟩
    · exact .ended none enough
  case case7 retry found =>
    obtain ⟨rfl, single, count, tries⟩ := sequence.found found
    have after : device.attempts.eraseIdx 0 ++ [⟨retry + 1, .spawned⟩] =
        [⟨retry + 1, .spawned⟩] := by
      rw [single]
      rfl
    exact .one after ⟨count, tries⟩

theorem not_bounded_of_socketFailure (stepped : device.step (.socketFailure position) = some next) :
    ¬ next.Bounded := by
  simp only [step] at stepped
  split at stepped
  · next retry found =>
      cases stepped
      have present : 0 < device.attempts.length := by
        have inside := (List.getElem?_eq_some_iff.mp found).1
        omega
      rintro ⟨_, alone⟩
      simp only [handleConnectionError, addComponentIntegrity, removeComponentIntegrity,
        List.length_append, List.length_singleton] at alone
      omega
  · cases stepped

/-- The attempts stay bounded exactly as long as no send and no receive fails. -/
theorem attempts_bounded_iff (events : List AttemptEvent) (final : ComponentIntegrity)
    (executed : exec ComponentIntegrity.step start events = some final) :
    Along ComponentIntegrity.step (fun _ _ next => next.Bounded) start events ↔
      Run ComponentIntegrity.step NoSocketFailure start events final := by
  apply along_iff_run InSequence inSequence_start executed
  · intro _ _ _ sequence admitted stepped
    exact sequence.step admitted stepped
  · intro _ event _ sequence stepped
    constructor
    · intro bounded
      cases event with
      | socketFailure => exact not_bounded_of_socketFailure stepped bounded
      | _ => trivial
    · intro admitted
      exact (sequence.step admitted stepped).bounded

def fourAttempts : List AttemptEvent :=
  [.start 0, .finish 0 false, .expire 0, .start 0, .finish 0 false, .expire 0,
    .start 0, .finish 0 false, .expire 0, .start 0, .finish 0 false]

theorem attempts_bounded_fourAttempts :
    exec step start fourAttempts = some { started := 4 } ∧
      Along step (fun _ _ next => next.Bounded) start fourAttempts := by
  have executed : exec step start fourAttempts = some { started := 4 } := by
    decide
  have quiet : ∀ event ∈ fourAttempts, NoSocketFailure {} event := by
    simp [fourAttempts, NoSocketFailure]
  exact ⟨executed, (attempts_bounded_iff _ _ executed).mpr (run_of_exec_of_forall quiet executed)⟩

def failingAttempt (position : Nat) : List AttemptEvent :=
  [.start position, .socketFailure position, .finish position false]

theorem attempts_multiply :
    ∃ device, exec ComponentIntegrity.step start ((List.range 5).flatMap failingAttempt) =
        some device ∧ device.succeeded = false ∧ device.started = 5 ∧ device.attempts.length = 6 :=
  ⟨_, rfl, rfl, rfl, rfl⟩

end ComponentIntegrity

end Coroserver.Spdm
