import Coroserver.Async.WhenAll

/-! The slots hold the outcomes of the tasks that have ended. -/

namespace Coroserver.Async

open ForkJoin
open Machine

variable {n : Nat} {Value : Fin n → Type} {Error State Result : Type}

def failure? {Element : Type} : Except Error Element → Option Error
  | .ok _ => none
  | .error error => some error

theorem decrement_of_pos {count : Nat} (positive : 0 < count) : decrement count = count - 1 :=
  if_neg (Nat.pos_iff_ne_zero.mp positive)

theorem TaskBarrier.countdown : Countdown completionHandler TaskBarrier.remaining where
  decrements _ positive := decrement_of_pos positive
  cancels barrier positive := by
    simp only [completionHandler, decrement_of_pos positive, beq_iff_eq]
    omega

structure Collects (outcomes : (task : Fin n) → Except Error (Value task))
    (collect : ((task : Fin n) → Value task) → Result) (completion : Completion Result Error) :
    Prop where
  values : ∀ values, (∀ task, outcomes task = .ok (values task)) →
    completion = .returned (collect values)
  error : ∀ task error, outcomes task = .error error →
    (∀ earlier < task, ∃ value, outcomes earlier = .ok value) → completion = .rethrown error

variable {collect : ((task : Fin n) → Value task) → Result} {Element : Type}
  {events : List (Event fun task => Except Error (Value task))}

theorem collects_of_errors {outcomes : (task : Fin n) → Except Error (Value task)}
    {errors : Fin n → Option Error} (stored : ∀ task, errors task = failure? (outcomes task))
    {rest : Completion Result Error}
    (complete : ∀ values, (∀ task, outcomes task = .ok (values task)) →
      rest = .returned (collect values)) :
    Collects outcomes collect (match checkAndRethrowErrors errors with
      | some error => .rethrown error
      | none => rest) := by
  refine ⟨?_, ?_⟩
  · intro values succeeded
    have noError : checkAndRethrowErrors errors = none :=
      Fin.findSome?_eq_none_iff.mpr fun task => by rw [stored, succeeded, failure?]
    rw [noError]
    exact complete values succeeded
  · intro task error failed first
    have lowest : checkAndRethrowErrors errors = some error := by
      refine Fin.findSome?_eq_some_iff.mpr ⟨task, by rw [stored, failed, failure?], ?_⟩
      intro earlier isEarlier
      obtain ⟨value, succeeded⟩ := first earlier isEarlier
      rw [stored, succeeded, failure?]
    rw [lowest]

theorem dereference_map_some (values : List Element) :
    dereference (values.map some) = some values := by
  induction values with
  | nil => rfl
  | cons _ _ ih => rw [List.map_cons, dereference, ih, Option.map_some]

structure Slots.Track (ended : List ((task : Fin n) × Except Error (Value task)))
    (slots : Slots Value Error) : Prop where
  values : Tracks (fun _ outcome => outcome.toOption) ended slots.values
  errors : Tracks (fun _ outcome => failure? outcome) ended slots.errors

theorem Slots.track_nil : ({} : Slots Value Error).Track [] := ⟨tracks_nil, tracks_nil⟩

theorem launchValueTask_tracks {ended : List ((task : Fin n) × Except Error (Value task))}
    {slots : Slots Value Error} {task : Fin n} {outcome : Except Error (Value task)}
    (fresh : ∀ other, ⟨task, other⟩ ∉ ended) (track : slots.Track ended) :
    (launchValueTask slots task outcome).Track (ended ++ [⟨task, outcome⟩]) := by
  cases outcome with
  | ok => exact ⟨track.values.stored fresh rfl, track.errors.skipped fresh rfl⟩
  | error => exact ⟨track.values.skipped fresh rfl, track.errors.stored fresh rfl⟩

/-- The coroutine goes on only after all tasks have ended, with the result of
their outcomes. It does not wait any longer then, and the counter has reached
zero once. -/
structure WaitsForAll (collect : ((task : Fin n) → Value task) → Result)
    (group : Group (fun task => Except Error (Value task)) State TaskBarrier
      (Completion Result Error)) : Prop where
  resumes : ∀ completion, group.waiter = .resumed completion →
    ∃ outcomes, (∀ task, group.tasks task = .handled (outcomes task)) ∧
      Collects outcomes collect completion
  woken : (∀ task, ∃ outcome, group.tasks task = .handled outcome) → group.waiter ≠ .waiting
  zero : group.barrier.remaining = 0 ↔ ∀ task, ∃ outcome, group.tasks task = .handled outcome
  once : group.cancelled = if group.barrier.remaining = 0 then 1 else 0

theorem waitsForAll_of_run (positive : 0 < n)
    {program : Program (fun task => Except Error (Value task)) State TaskBarrier
      (Completion Result Error)}
    (handler : program.completionHandler = TaskBarrier.completionHandler)
    {left : List ((task : Fin n) × Except Error (Value task)) → State → Prop} {initial : State}
    (nothing : left [] initial) (leaves : ∀ ended state task (outcome : Except Error (Value task)),
      (∀ other, ⟨task, other⟩ ∉ ended) → left ended state →
        left (ended ++ [⟨task, outcome⟩]) (program.leave state task outcome))
    (finishes : ∀ group, Joins program TaskBarrier.remaining group →
      left group.ended group.state → ∀ outcomes,
        (∀ task, group.tasks task = .handled (outcomes task)) →
          Collects outcomes collect (program.finish group.state))
    {group : Group (fun task => Except Error (Value task)) State TaskBarrier
      (Completion Result Error)} (run : Run program.step anyStep (launch initial { remaining := n })
      events group) : WaitsForAll collect group := by
  have : Nonempty (Fin n) := ⟨⟨0, positive⟩⟩
  obtain ⟨joins, hasLeft⟩ := joins_of_run (handler ▸ TaskBarrier.countdown)
    (Fintype.card_fin n).symm nothing leaves run
  have zero : group.barrier.remaining = 0 ↔ group.pending = ∅ := by
    rw [joins.counter, Finset.card_eq_zero]
  refine ⟨?_, joins.not_waiting_iff.mpr, ?_, ?_⟩
  · intro _ resumed
    obtain ⟨ended, rfl⟩ := joins.resumed resumed
    choose outcomes handled using ended
    exact ⟨outcomes, handled, finishes group joins hasLeft outcomes handled⟩
  · exact zero.trans Group.pending_eq_empty_iff
  · simp [zero, joins.once]

theorem whenAllVoidImpl_waits (positive : 0 < n)
    {events : List (Event fun _ : Fin n => Except Error Unit)}
    {group : Group (fun _ : Fin n => Except Error Unit) (Fin n → Option Error) TaskBarrier
      (Completion Unit Error)} (run : Run (whenAllVoidImpl n Error).step anyStep
      (whenAllTupleVoid n Error) events group) : WaitsForAll (fun _ => ()) group := by
  refine waitsForAll_of_run positive rfl
    (tracks_nil : Tracks (fun _ outcome => failure? outcome) [] _) ?_ ?_ run
  · intro _ _ _ outcome fresh tracks
    cases outcome with
    | ok => exact tracks.skipped fresh rfl
    | error => exact tracks.stored fresh rfl
  · intro _ joins tracks _ handled
    exact collects_of_errors (fun task => joins.slot_eq tracks (handled task)) fun _ _ => rfl

theorem whenAllValueImpl_waits (positive : 0 < n)
    {group : Group (fun task => Except Error (Value task)) (Slots Value Error) TaskBarrier
      (Completion ((task : Fin n) → Value task) Error)}
    (run : Run (whenAllValueImpl Value Error).step anyStep
      (whenAllTuple Value Error) events group) : WaitsForAll id group := by
  refine waitsForAll_of_run positive rfl Slots.track_nil
    (fun _ _ _ _ fresh track => launchValueTask_tracks fresh track) ?_ run
  intro group joins track _ handled
  refine collects_of_errors (fun task => joins.slot_eq track.errors (handled task)) ?_
  intro values succeeded
  have stored : group.state.values = fun task => some (values task) := by
    funext task
    rw [joins.slot_eq track.values (handled task), succeeded, Except.toOption]
  simp [stored]

theorem whenAllVectorImpl_waits (positive : 0 < n)
    {events : List (Event fun _ : Fin n => Except Error Element)}
    {group : Group (fun _ : Fin n => Except Error Element) (Slots (fun _ : Fin n => Element) Error)
      TaskBarrier (Completion (List Element) Error)}
    (run : Run (whenAllVectorImpl n Element Error).step anyStep
      (launch {} { remaining := n }) events group) : WaitsForAll List.ofFn group := by
  refine waitsForAll_of_run positive rfl Slots.track_nil
    (fun _ _ _ _ fresh track => launchValueTask_tracks fresh track) ?_ run
  intro group joins track _ handled
  refine collects_of_errors (fun task => joins.slot_eq track.errors (handled task)) ?_
  intro values succeeded
  have stored : group.state.values = some ∘ values := by
    funext task
    rw [joins.slot_eq track.values (handled task), succeeded, Except.toOption, Function.comp_apply]
  rw [stored, ← List.map_ofFn, dereference_map_some]

/-- After the wait the slots hold all outcomes, in whatever order the tasks ended. -/
theorem when_all_waits_and_keeps_order {n : Nat} (positive : 0 < n) (Value : Fin n → Type)
    (Element Error : Type) :
    (∀ events group, Run (whenAllVoidImpl n Error).step anyStep
      (whenAllTupleVoid n Error) events group → WaitsForAll (fun _ => ()) group) ∧
    (∀ events group, Run (whenAllValueImpl Value Error).step anyStep
      (whenAllTuple Value Error) events group → WaitsForAll id group) ∧
    (∀ events group, Run (whenAllVoidImpl n Error).step anyStep
      (whenAllVectorVoid n Error) events group → WaitsForAll (fun _ => ()) group) ∧
    (∀ events group, Run (whenAllVectorImpl n Element Error).step anyStep
      (whenAllVector n Element Error) events group → WaitsForAll List.ofFn group) := by
  have notEmpty : n ≠ 0 := Nat.pos_iff_ne_zero.mp positive
  refine ⟨?_, ?_, ?_, ?_⟩
  · intro _ _ run
    exact whenAllVoidImpl_waits positive run
  · intro _ _ run
    exact whenAllValueImpl_waits positive run
  · intro _ _ run
    rw [whenAllVectorVoid, if_neg notEmpty] at run
    exact whenAllVoidImpl_waits positive run
  · intro _ _ run
    rw [whenAllVector, if_neg notEmpty] at run
    exact whenAllVectorImpl_waits positive run

theorem when_all_waits_and_keeps_order_reversed :
    ∃ group, exec (whenAllVectorImpl 2 Nat String).step (whenAllVector 2 Nat String)
        [.ended 1 (.ok 20), .handled 1, .ended 0 (.ok 10), .handled 0, .resume] = some group ∧
      group.waiter = .resumed (.returned [10, 20]) ∧ WaitsForAll List.ofFn group := by
  obtain ⟨-, -, -, vector⟩ :=
    when_all_waits_and_keeps_order (by decide) (fun _ : Fin 2 => Nat) Nat String
  refine exists_exec_and ⟨_, rfl, rfl⟩ fun group executed _ => ?_
  exact vector _ _ (run_of_exec executed)

end Coroserver.Async
