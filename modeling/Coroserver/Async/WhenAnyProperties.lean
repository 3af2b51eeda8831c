import Coroserver.Async.WhenAllProperties
import Coroserver.Async.WhenAny

/-! The index of the winner is that of the first task that ended without an exception. -/

namespace Coroserver.Async

open ForkJoin
open Machine

variable {n : Nat} {Value : Fin n → Type} {Error State Result : Type}

open RaceBarrier

theorem RaceBarrier.countdown : Countdown completionHandler remaining where
  decrements barrier positive := by
    cases completed : barrier.completed <;>
      simp [completionHandler, completed, decrement_of_pos positive]
  cancels barrier positive := by
    have last : barrier.remaining - 1 = 0 ↔ barrier.remaining = 1 := by omega
    cases completed : barrier.completed <;>
      simp [completionHandler, completed, decrement_of_pos positive, last]

def firstSuccess (ended : List ((task : Fin n) × Except Error (Value task))) :
    Option ((task : Fin n) × Value task) :=
  ended.findSome? fun entry => entry.2.toOption.map (Sigma.mk entry.1)

section FirstSuccess

variable {ended : List ((task : Fin n) × Except Error (Value task))} {task : Fin n}

theorem firstSuccess_append_ok (value : Value task) :
    firstSuccess (ended ++ [⟨task, .ok value⟩]) = (firstSuccess ended).or (some ⟨task, value⟩) := by
  rw [firstSuccess, List.findSome?_append]
  rfl

theorem firstSuccess_append_error (error : Error) :
    firstSuccess (ended ++ [⟨task, .error error⟩]) = firstSuccess ended := by
  rw [firstSuccess, List.findSome?_append]
  exact Option.or_none

theorem mem_of_firstSuccess {value : Value task} (first : firstSuccess ended = some ⟨task, value⟩) :
    ⟨task, .ok value⟩ ∈ ended := by
  obtain ⟨⟨other, outcome⟩, member, selected⟩ := List.exists_of_findSome?_eq_some first
  cases outcome with
  | error => cases selected
  | ok =>
    cases selected
    exact member

theorem firstSuccess_ne_none {value : Value task} (member : ⟨task, .ok value⟩ ∈ ended) :
    firstSuccess ended ≠ none := by
  intro nobody
  cases List.findSome?_eq_none_iff.mp nobody _ member

end FirstSuccess

def keptFailure? {Element : Type} (aborted : Error → Bool) (outcome : Except Error Element) :
    Option Error :=
  (failure? outcome).filter fun error => !aborted error

structure Race.Track (aborted : Error → Bool)
    (ended : List ((task : Fin n) × Except Error (Value task))) (race : Race n Error) : Prop where
  errors : Tracks (fun _ outcome => keptFailure? aborted outcome) ended race.errors
  winner : race.completedIndex = match firstSuccess ended with
    | some success => success.1.val
    | none => n

structure ValueRace.Track (aborted : Error → Bool)
    (ended : List ((task : Fin n) × Except Error (Value task))) (race : ValueRace Value Error) :
    Prop extends Race.Track aborted ended race.toRace where
  values : Tracks (fun _ outcome => outcome.toOption) ended race.values

section Track

variable {aborted : Error → Bool} {ended : List ((task : Fin n) × Except Error (Value task))}
  {task : Fin n}

theorem Race.track_nil (aborted : Error → Bool) (Value : Fin n → Type) :
    ({} : Race n Error).Track aborted ([] : List ((task : Fin n) × Except Error (Value task))) :=
  ⟨tracks_nil, rfl⟩

variable {race : Race n Error}

theorem ValueRace.track_nil (aborted : Error → Bool) :
    ({} : ValueRace Value Error).Track aborted [] :=
  ⟨Race.track_nil aborted Value, tracks_nil⟩

theorem Race.Track.win (track : race.Track aborted ended) (fresh : ∀ other, ⟨task, other⟩ ∉ ended)
    (value : Value task) : (race.win task).Track aborted (ended ++ [⟨task, .ok value⟩]) := by
  refine ⟨track.errors.skipped fresh rfl, ?_⟩
  rw [firstSuccess_append_ok, Race.win, track.winner]
  cases firstSuccess ended with
  | none => simp
  | some success => simp [success.1.isLt.ne]

variable {error : Error}

theorem Race.Track.fail (track : race.Track aborted ended) (fresh : ∀ other, ⟨task, other⟩ ∉ ended)
    (kept : aborted error = false) :
    (race.fail task error).Track aborted (ended ++ [⟨task, .error error⟩]) := by
  refine ⟨track.errors.stored fresh (by simp [keptFailure?, failure?, kept]), ?_⟩
  rw [firstSuccess_append_error]
  exact track.winner

theorem Race.Track.ignore (track : race.Track aborted ended)
    (fresh : ∀ other, ⟨task, other⟩ ∉ ended) (ignored : aborted error = true) :
    race.Track aborted (ended ++ [⟨task, .error error⟩]) := by
  refine ⟨track.errors.skipped fresh (by simp [keptFailure?, failure?, ignored]), ?_⟩
  rw [firstSuccess_append_error]
  exact track.winner

theorem launchValueAwaitable_track {race : ValueRace Value Error} (track : race.Track aborted ended)
    (fresh : ∀ other, ⟨task, other⟩ ∉ ended) (outcome : Except Error (Value task)) :
    (launchValueAwaitable aborted race task outcome).Track aborted
      (ended ++ [⟨task, outcome⟩]) := by
  cases outcome with
  | ok value => exact ⟨track.toTrack.win fresh value, track.values.stored fresh rfl⟩
  | error error =>
    cases ignored : aborted error with
    | true =>
      simp only [launchValueAwaitable, ignored, if_true]
      exact ⟨track.toTrack.ignore fresh ignored, track.values.skipped fresh rfl⟩
    | false =>
      simp only [launchValueAwaitable, ignored, Bool.false_eq_true, if_false]
      exact ⟨track.toTrack.fail fresh ignored, track.values.skipped fresh rfl⟩

end Track

theorem Race.winnerError_of_winner {race : Race n Error} {task : Fin n}
    (winner : race.completedIndex = task.val) : race.winnerError = race.errors task := by
  have bound : race.completedIndex < n := winner ▸ task.isLt
  rw [winnerError, dif_pos bound]
  exact congrArg race.errors (Fin.ext winner)

theorem Race.winnerError_of_none {race : Race n Error} (nobody : race.completedIndex = n) :
    race.winnerError = none :=
  dif_neg (Nat.not_lt.mpr (Nat.le_of_eq nobody.symm))

section Winner

variable {aborted : Error → Bool}
  {program : Program (fun task => Except Error (Value task)) State RaceBarrier Result}
  {group : Group (fun task => Except Error (Value task)) State RaceBarrier Result}
  {task : Fin n} {value : Value task}

variable (joins : Joins program RaceBarrier.remaining group)

include joins

theorem handled_of_firstSuccess (handled : ∀ task, ∃ outcome, group.tasks task = .handled outcome)
    (first : firstSuccess group.ended = some ⟨task, value⟩) :
    group.tasks task = .handled (.ok value) := by
  have recorded := (joins.recorded task (.ok value)).mp (mem_of_firstSuccess first)
  obtain ⟨_, isHandled⟩ := handled task
  rw [isHandled] at recorded ⊢
  rw [Option.some.inj recorded]

theorem firstSuccess_eq_none_iff
    (handled : ∀ task, ∃ outcome, group.tasks task = .handled outcome) :
    firstSuccess group.ended = none ↔ ¬∃ task value, group.tasks task = .handled (.ok value) := by
  constructor
  · rintro nobody ⟨task, value, succeeded⟩
    have recorded := (joins.recorded task (.ok value)).mpr (congrArg Task.outcome? succeeded)
    exact firstSuccess_ne_none recorded nobody
  · intro nobody
    cases first : firstSuccess group.ended with
    | none => rfl
    | some => exact absurd ⟨_, _, handled_of_firstSuccess joins handled first⟩ nobody

variable (succeeded : group.tasks task = .handled (.ok value))
  (first : firstSuccess group.ended = some ⟨task, value⟩)

include succeeded first

theorem Race.Track.winner_of_first {race : Race n Error} (track : race.Track aborted group.ended) :
    race.completedIndex = task.val ∧ race.winnerError = none := by
  have winner := track.winner
  rw [first] at winner
  refine ⟨winner, ?_⟩
  rw [winnerError_of_winner winner]
  exact joins.slot_eq track.errors succeeded

theorem Race.Track.finish_of_first {race : Race n Error} (track : race.Track aborted group.ended) :
    race.finish = .returned task.val := by
  obtain ⟨winner, noError⟩ := track.winner_of_first joins succeeded first
  rw [Race.finish, noError, winner]

theorem ValueRace.Track.finish_of_first {race : ValueRace Value Error}
    {missing : Raced ((task : Fin n) × Value task) Error} (track : race.Track aborted group.ended) :
    race.finish missing = .returned ⟨task, value⟩ := by
  obtain ⟨winner, noError⟩ := track.toTrack.winner_of_first joins succeeded first
  have stored : race.values task = some value := joins.slot_eq track.values succeeded
  have bound : race.completedIndex < n := winner ▸ task.isLt
  obtain rfl : ⟨race.completedIndex, bound⟩ = task := Fin.ext winner
  rw [ValueRace.finish, noError, winnerValue, dif_pos bound, stored, Option.map_some]

end Winner

section NoWinner

variable {aborted : Error → Bool} {ended : List ((task : Fin n) × Except Error (Value task))}

theorem Race.Track.finish_of_none {race : Race n Error} (track : race.Track aborted ended)
    (nobody : firstSuccess ended = none) : race.finish = .returned n := by
  have winner := track.winner
  rw [nobody] at winner
  rw [Race.finish, winnerError_of_none winner, winner]

theorem ValueRace.Track.finish_of_none {race : ValueRace Value Error}
    {missing : Raced ((task : Fin n) × Value task) Error} (track : race.Track aborted ended)
    (nobody : firstSuccess ended = none) : race.finish missing = missing := by
  have winner := track.toTrack.winner
  rw [nobody] at winner
  rw [ValueRace.finish, Race.winnerError_of_none winner, winnerValue,
    dif_neg (Nat.not_lt.mpr (Nat.le_of_eq winner.symm))]

end NoWinner

def Raced.throws : Raced Result Error → Bool
  | .rethrown _ | .runtimeError _ | .invalidArgument _ => true
  | .returned _ | .undefined => false

/-- The first success is returned, and without one an exception is thrown. -/
def ReportsFirstSuccess (report : (task : Fin n) × Value task → Result)
    (ended : List ((task : Fin n) × Except Error (Value task))) (raced : Raced Result Error) :
    Prop :=
  match firstSuccess ended with
  | some success => raced = .returned (report success)
  | none => raced.throws = true

/-- When the coroutine goes on all tasks have ended, and it reports the first
success exactly if there is one or the lack of one is noticed. It does not wait
any longer when all tasks have ended. -/
structure Races (report : (task : Fin n) × Value task → Result) (noticed : Bool)
    (group : Group (fun task => Except Error (Value task)) State RaceBarrier
      (Raced Result Error)) : Prop where
  resumes : ∀ raced, group.waiter = .resumed raced →
    (∀ task, ∃ outcome, group.tasks task = .handled outcome) ∧
      (ReportsFirstSuccess report group.ended raced ↔
        noticed = true ∨ ∃ task value, group.tasks task = .handled (.ok value))
  woken : (∀ task, ∃ outcome, group.tasks task = .handled outcome) → group.waiter ≠ .waiting

variable {events : List (Event fun task => Except Error (Value task))}

theorem races_of_run (positive : 0 < n) {report : (task : Fin n) × Value task → Result}
    {noticed : Bool} {program : Program (fun task => Except Error (Value task)) State RaceBarrier
      (Raced Result Error)} (handler : program.completionHandler = completionHandler)
    {left : List ((task : Fin n) × Except Error (Value task)) → State → Prop} {initial : State}
    (nothing : left [] initial) (leaves : ∀ ended state task (outcome : Except Error (Value task)),
      (∀ other, ⟨task, other⟩ ∉ ended) → left ended state →
        left (ended ++ [⟨task, outcome⟩]) (program.leave state task outcome))
    (first : ∀ group, Joins program remaining group → left group.ended group.state →
      ∀ task value, group.tasks task = .handled (.ok value) →
        firstSuccess group.ended = some ⟨task, value⟩ →
          program.finish group.state = .returned (report ⟨task, value⟩))
    (nobody : ∀ ended state, left ended state → firstSuccess ended = none →
      (program.finish state).throws = noticed)
    {group : Group (fun task => Except Error (Value task)) State RaceBarrier
      (Raced Result Error)} (run : Run program.step anyStep (startRace initial) events group) :
    Races report noticed group := by
  have : Nonempty (Fin n) := ⟨⟨0, positive⟩⟩
  obtain ⟨joins, hasLeft⟩ := joins_of_run (handler ▸ countdown)
    (Fintype.card_fin n).symm nothing leaves run
  refine ⟨?_, joins.not_waiting_iff.mpr⟩
  intro raced resumed
  obtain ⟨handled, rfl⟩ := joins.resumed resumed
  refine ⟨handled, ?_⟩
  unfold ReportsFirstSuccess
  cases success : firstSuccess group.ended with
  | none =>
    have unsuccessful := (firstSuccess_eq_none_iff joins handled).mp success
    simp [nobody _ _ hasLeft success, unsuccessful]
  | some success =>
    have succeeded := handled_of_firstSuccess joins handled success
    exact iff_of_true (first group joins hasLeft _ _ succeeded success) (.inr ⟨_, _, succeeded⟩)

theorem whenAnyAwaitableVoidImpl_races (positive : 0 < n) {aborted : Error → Bool}
    {events : List (Event fun _ : Fin n => Except Error Unit)}
    {group : Group (fun _ : Fin n => Except Error Unit) (Race n Error) RaceBarrier
      (Raced Nat Error)} (run : Run (whenAnyAwaitableVoidImpl n aborted).step anyStep (startRace {})
      events group) : Races (fun success => success.1.val) false group := by
  refine races_of_run positive rfl (Race.track_nil aborted fun _ => Unit) ?_ ?_ ?_ run
  · intro _ _ _ outcome fresh track
    cases outcome with
    | ok value => exact track.win fresh value
    | error error =>
      cases ignored : aborted error with
      | true =>
        simpa [whenAnyAwaitableVoidImpl, launchAwaitable, ignored] using track.ignore fresh ignored
      | false =>
        simpa [whenAnyAwaitableVoidImpl, launchAwaitable, ignored] using track.fail fresh ignored
  · intro _ joins track _ _ succeeded first
    exact track.finish_of_first joins succeeded first
  · intro _ _ track nobody
    exact congrArg Raced.throws (track.finish_of_none nobody)

theorem launchAnyValueFactory_eq :
    @launchAnyValueFactory n Value Error = launchValueAwaitable fun _ => false := rfl

theorem whenAnyVoidImpl_eq (n : Nat) (Error : Type) :
    whenAnyVoidImpl n Error = whenAnyAwaitableVoidImpl n fun _ => false := rfl

private theorem valueRace_races (positive : 0 < n) {aborted : Error → Bool}
    {program : Program (fun task => Except Error (Value task)) (ValueRace Value Error)
      RaceBarrier (Raced ((task : Fin n) × Value task) Error)}
    {missing : Raced ((task : Fin n) × Value task) Error}
    (leave : program.leave = launchValueAwaitable aborted)
    (handler : program.completionHandler = completionHandler)
    (finish : program.finish = ValueRace.finish missing)
    {group : Group (fun task => Except Error (Value task)) (ValueRace Value Error) RaceBarrier
      (Raced ((task : Fin n) × Value task) Error)}
    (run : Run program.step anyStep (startRace {}) events group) :
    Races id missing.throws group := by
  refine races_of_run positive handler (ValueRace.track_nil aborted) ?_ ?_ ?_ run
  · intro _ _ _ outcome fresh track
    rw [leave]
    exact launchValueAwaitable_track track fresh outcome
  · intro _ joins track _ _ succeeded first
    rw [finish]
    exact track.finish_of_first joins succeeded first
  · intro _ _ track nobody
    rw [finish, track.finish_of_none nobody]

/-- If no task succeeds the index stays at the number of tasks, and only the overloads for
factories with values look whether the winner has one. -/
theorem when_any_reports_first_success_iff {n : Nat} (positive : 0 < n) (Value : Fin n → Type)
    (Element : Type) {Error : Type} (aborted : Error → Bool) :
    (∀ events group, Run (whenAnyVoidImpl n Error).step anyStep
      (whenAnyTupleVoid n Error) events group → Races (fun success => success.1.val) false group) ∧
    (∀ events group, Run (whenAnyValueImpl Value Error).step anyStep
      (whenAnyTuple Value Error) events group → Races id true group) ∧
    (∀ events group, Run (whenAnyVoidImpl n Error).step anyStep
      (whenAnyVectorVoid n Error) events group → Races (fun success => success.1.val) false group) ∧
    (∀ events group, Run (whenAnyValueImpl (fun _ : Fin n => Element) Error).step
      anyStep (whenAnyVector n Element Error) events group → Races id true group) ∧
    (∀ events group, Run (whenAnyAwaitableVoidImpl n aborted).step anyStep
      (whenAnyAwaitableVoid n Error) events group →
        Races (fun success => success.1.val) false group) ∧
    (∀ events group, Run (whenAnyAwaitableImpl n Element aborted).step anyStep
      (whenAnyAwaitable n Element Error) events group → Races id false group) := by
  have notEmpty : n ≠ 0 := Nat.pos_iff_ne_zero.mp positive
  refine ⟨?_, ?_, ?_, ?_, ?_, ?_⟩
  · intro _ _ run
    rw [whenAnyVoidImpl_eq] at run
    exact whenAnyAwaitableVoidImpl_races positive run
  · intro _ _ run
    exact valueRace_races positive launchAnyValueFactory_eq rfl rfl run
  · intro _ _ run
    rw [whenAnyVoidImpl_eq, whenAnyVectorVoid, startVector, if_neg notEmpty] at run
    exact whenAnyAwaitableVoidImpl_races positive run
  · intro _ _ run
    rw [whenAnyVector, startVector, if_neg notEmpty] at run
    exact valueRace_races positive launchAnyValueFactory_eq rfl rfl run
  · intro _ _ run
    rw [whenAnyAwaitableVoid, startVector, if_neg notEmpty] at run
    exact whenAnyAwaitableVoidImpl_races positive run
  · intro _ _ run
    rw [whenAnyAwaitable, startVector, if_neg notEmpty] at run
    exact valueRace_races positive rfl rfl rfl run

theorem when_any_reports_first_success_iff_second :
    ∃ group, exec (whenAnyAwaitableImpl 2 Nat (fun _ : String => false)).step
        (whenAnyAwaitable 2 Nat String)
        [.ended 0 (.error "e"), .handled 0, .ended 1 (.ok 7), .handled 1, .resume] = some group ∧
      group.waiter = .resumed (.returned ⟨1, 7⟩) ∧ Races id false group := by
  obtain ⟨-, -, -, -, -, awaitables⟩ :=
    when_any_reports_first_success_iff (by decide) (fun _ : Fin 2 => Nat) Nat
      (fun _ : String => false)
  refine exists_exec_and ⟨_, rfl, rfl⟩ fun group executed _ => ?_
  exact awaitables _ _ (run_of_exec executed)

/-- The only task throws. -/
theorem when_any_returns_without_success :
    (∃ group, exec (whenAnyVoidImpl 1 String).step (whenAnyTupleVoid 1 String)
        [.ended 0 (.error "e"), .handled 0, .resume] = some group ∧
      group.waiter = .resumed (.returned 1)) ∧
    ∃ group, exec (whenAnyAwaitableImpl 1 Nat (fun _ : String => false)).step
        (whenAnyAwaitable 1 Nat String) [.ended 0 (.error "e"), .handled 0, .resume] = some group ∧
      group.waiter = .resumed .undefined :=
  ⟨⟨_, rfl, rfl⟩, ⟨_, rfl, rfl⟩⟩

end Coroserver.Async
