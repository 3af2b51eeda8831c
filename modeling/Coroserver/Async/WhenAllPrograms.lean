import Coroserver.Async.WhenAllProperties
import Coroserver.Interaction
import Mathlib.Algebra.Order.BigOperators.Group.Finset

/-! The tasks that `when_all` waits for are programs whose requests are answered in
any order. If every request has one answer, the coroutine is resumed after finitely
many steps, and what it is resumed with does not depend on the order. -/

namespace Coroserver.Async

open ForkJoin Machine Function

variable {n : Nat} {Request Answer Exception Value : Type}

structure Batch (n : Nat) (Request Answer Exception Value : Type) where
  programs : Fin n → Interaction Request Answer Exception Value
  group : Group (fun _ : Fin n => Except Exception Value) (Slots (fun _ : Fin n => Value) Exception)
    TaskBarrier (Completion (List Value) Exception)

inductive BatchEvent (n : Nat) where
  | answered (task : Fin n)
  | ended (task : Fin n)
  | handled (task : Fin n)
  | resume

def outcome? : Interaction Request Answer Exception Value → Option (Except Exception Value)
  | .done value => some (.ok value)
  | .raise exception => some (.error exception)
  | .ask _ _ => none

namespace Batch

def launch (programs : Fin n → Interaction Request Answer Exception Value) :
    Batch n Request Answer Exception Value :=
  ⟨programs, whenAllVector n Value Exception⟩

def join (batch : Batch n Request Answer Exception Value)
    (event : Event fun _ : Fin n => Except Exception Value) :
    Option (Batch n Request Answer Exception Value) :=
  ((whenAllVectorImpl n Value Exception).step batch.group event).map fun group =>
    { batch with group }

def step (data : Request → Answer) (batch : Batch n Request Answer Exception Value) :
    BatchEvent n → Option (Batch n Request Answer Exception Value)
  | .answered task =>
    match batch.programs task with
    | .ask request next =>
      some { batch with
        programs := update batch.programs task (next (data request)) }
    | _ => none
  | .ended task =>
    match outcome? (batch.programs task) with
    | some outcome => batch.join (.ended task outcome)
    | none => none
  | .handled task => batch.join (.handled task)
  | .resume => batch.join .resume

end Batch

variable {data : Request → Answer}
  {programs : Fin n → Interaction Request Answer Exception Value}
  {batch next : Batch n Request Answer Exception Value}

theorem evaluate_of_outcome? {program : Interaction Request Answer Exception Value}
    {outcome : Except Exception Value} (ended : outcome? program = some outcome) :
    program.evaluate data = outcome := by
  cases program with
  | done | raise => exact Option.some.inj ended
  | ask => cases ended

namespace Batch

inductive Transition (data : Request → Answer) (batch : Batch n Request Answer Exception Value) :
    Batch n Request Answer Exception Value → Prop where
  | answered {task request later} (asks : batch.programs task = .ask request later) :
      Transition data batch
        { batch with programs := update batch.programs task (later (data request)) }
  | joined {event group}
      (stepped : (whenAllVectorImpl n Value Exception).step batch.group event = some group)
      (ends : ∀ task outcome, event = .ended task outcome →
        (batch.programs task).evaluate data = outcome) :
      Transition data batch { batch with group }

theorem transition_of_step {event : BatchEvent n} (stepped : batch.step data event = some next) :
    Transition data batch next := by
  have joined : ∀ event, batch.join event = some next →
      (∀ task outcome, event = .ended task outcome →
        (batch.programs task).evaluate data = outcome) → Transition data batch next := by
    intro event joined ends
    obtain ⟨group, moved, rfl⟩ := Option.map_eq_some_iff.mp joined
    exact .joined moved ends
  cases event with
  | answered task =>
    cases asks : batch.programs task with
    | ask =>
      rw [step, asks] at stepped
      cases stepped
      exact .answered asks
    | done | raise => simp [step, asks] at stepped
  | ended task =>
    cases ended : outcome? (batch.programs task) with
    | none => simp [step, ended] at stepped
    | some =>
      rw [step, ended] at stepped
      refine joined _ stepped ?_
      intro _ _ same
      cases same
      exact evaluate_of_outcome? ended
  | handled | resume => exact joined _ stepped nofun

structure Serves (data : Request → Answer)
    (programs : Fin n → Interaction Request Answer Exception Value)
    (batch : Batch n Request Answer Exception Value) : Prop where
  evaluates : ∀ task, (batch.programs task).evaluate data = (programs task).evaluate data
  reached : ∃ events, Run (whenAllVectorImpl n Value Exception).step anyStep
    (whenAllVector n Value Exception) events batch.group
  outcomes : ∀ task outcome, (batch.group.tasks task).outcome? = some outcome →
    outcome = (programs task).evaluate data

theorem serves_launch : Serves data programs (launch programs) := by
  refine ⟨fun _ => rfl, ⟨[], .done⟩, ?_⟩
  intro task outcome ended
  have notEmpty : n ≠ 0 := Nat.ne_zero_of_lt task.isLt
  simp [launch, whenAllVector, notEmpty, ForkJoin.launch, Task.outcome?] at ended

theorem Serves.step (serves : Serves data programs batch)
    (transition : Transition data batch next) : Serves data programs next := by
  obtain ⟨evaluates, ⟨events, run⟩, outcomes⟩ := serves
  cases transition with
  | @answered task request later asks =>
    refine ⟨?_, ⟨events, run⟩, outcomes⟩
    intro other
    change (update batch.programs task (later (data request)) other).evaluate data = _
    by_cases same : other = task
    · subst same
      rw [update_self, ← evaluates, asks]
      rfl
    · rw [update_of_ne same]
      exact evaluates other
  | @joined event group stepped ends =>
    refine ⟨evaluates, ⟨events ++ [event], run.append (.next trivial stepped .done)⟩, ?_⟩
    intro task outcome ended
    rcases Program.outcome?_of_step stepped ended with earlier | same
    · exact outcomes task outcome earlier
    · rw [← evaluates]
      exact (ends task outcome same).symm

theorem serves_of_run {events : List (BatchEvent n)}
    (run : Run (step data) anyStep (launch programs) events batch) :
    Serves data programs batch :=
  run.preserves serves_launch fun _ _ _ serves _ stepped =>
    serves.step (transition_of_step stepped)

theorem waits_of_run (positive : 0 < n) {events : List (BatchEvent n)}
    (run : Run (step data) anyStep (launch programs) events batch) :
    WaitsForAll List.ofFn batch.group := by
  obtain ⟨_, run⟩ := (serves_of_run run).reached
  rw [whenAllVector, if_neg (Nat.pos_iff_ne_zero.mp positive)] at run
  exact whenAllVectorImpl_waits positive run

end Batch

def Completion.ofExcept {Result Error : Type} : Except Error Result → Completion Result Error
  | .ok value => .returned value
  | .error error => .rethrown error

theorem Collects.eq_ofExcept {completion : Completion (List Value) Exception}
    (collects : Collects (fun task => (programs task).evaluate data) List.ofFn completion) :
    completion = .ofExcept ((List.ofFn programs).mapM (Interaction.evaluate data)) := by
  by_cases succeed : ∀ task, ∃ value, (programs task).evaluate data = .ok value
  · choose values succeeded using succeed
    have gathered : (List.ofFn programs).mapM (Interaction.evaluate data) =
        .ok (List.ofFn values) := by
      refine Fallible.mapM_eq_ok ?_
      rw [List.map_ofFn, List.map_ofFn]
      exact congrArg List.ofFn (funext succeeded)
    rw [collects.values values succeeded, gathered]
    rfl
  · -- the first task that fails
    have fails : ∃ position, ∃ task : Fin n, task.val = position ∧
        ∃ error, (programs task).evaluate data = .error error := by
      rw [not_forall] at succeed
      obtain ⟨task, notOk⟩ := succeed
      refine ⟨task, task, rfl, ?_⟩
      cases ended : (programs task).evaluate data with
      | ok value => exact absurd ⟨value, ended⟩ notOk
      | error error => exact ⟨error, rfl⟩
    classical
    obtain ⟨task, at_first, error, failed⟩ := Nat.find_spec fails
    have earlier : ∀ other < task, ∃ value, (programs other).evaluate data = .ok value := by
      intro other before
      cases ended : (programs other).evaluate data with
      | ok value => exact ⟨value, rfl⟩
      | error error =>
        refine absurd ⟨other, rfl, error, ended⟩ (Nat.find_min fails ?_)
        rw [← at_first]
        exact before
    have gathered : (List.ofFn programs).mapM (Interaction.evaluate data) = .error error := by
      have found : (List.ofFn programs)[task.val]? = some (programs task) := by simp
      refine Fallible.mapM_eq_error found failed ?_
      intro position before other member
      have within : position < n := before.trans task.isLt
      rw [List.getElem?_ofFn, dif_pos within] at member
      obtain rfl := Option.some.inj member
      exact earlier ⟨position, within⟩ before
    rw [collects.error task error failed earlier, gathered]
    rfl

theorem Batch.progress (waits : WaitsForAll List.ofFn batch.group) :
    (∃ completion, batch.group.waiter = .resumed completion) ∨
      ∃ event, (batch.step data event).isSome := by
  by_cases handled : ∀ task, ∃ outcome, batch.group.tasks task = .handled outcome
  · cases waiter : batch.group.waiter with
    | waiting => exact absurd waiter (waits.woken handled)
    | woken => exact .inr ⟨.resume, by simp [step, join, Program.step, waiter]⟩
    | resumed completion => exact .inl ⟨completion, rfl⟩
  · rw [not_forall] at handled
    obtain ⟨task, unhandled⟩ := handled
    refine .inr ?_
    cases status : batch.group.tasks task with
    | handled outcome => exact absurd ⟨outcome, status⟩ unhandled
    | ended => exact ⟨.handled task, by simp [step, join, Program.step, status]⟩
    | running =>
      cases program : batch.programs task with
      | ask => exact ⟨.answered task, by simp [step, program]⟩
      | done | raise =>
        exact ⟨.ended task, by simp [step, join, Program.step, program, outcome?, status]⟩

def asks (data : Request → Answer) : Interaction Request Answer Exception Value → Nat
  | .done _ | .raise _ => 0
  | .ask request next => asks data (next (data request)) + 1

def stepsLeft {Outcome : Type} : ForkJoin.Task Outcome → Nat
  | .running => 2
  | .ended _ => 1
  | .handled _ => 0

def wakeLeft {Result : Type} : Waiter Result → Nat
  | .waiting | .woken => 1
  | .resumed _ => 0

def Batch.measure (data : Request → Answer) (batch : Batch n Request Answer Exception Value) :
    Nat :=
  (∑ task, (asks data (batch.programs task) + stepsLeft (batch.group.tasks task))) +
    wakeLeft batch.group.waiter

theorem wakeLeft_wake {Result : Type} (waiter : Waiter Result) :
    wakeLeft waiter.wake = wakeLeft waiter := by
  cases waiter <;> rfl

theorem sum_lt_of_task {before after : Fin n → Nat} (task : Fin n) (less : after task < before task)
    (others : ∀ other, other ≠ task → after other = before other) :
    ∑ other, after other < ∑ other, before other := by
  refine Finset.sum_lt_sum (fun other _ => ?_) ⟨task, Finset.mem_univ task, less⟩
  by_cases same : other = task
  · exact Nat.le_of_lt (same ▸ less)
  · exact Nat.le_of_eq (others other same)

theorem Batch.measure_lt (transition : Batch.Transition data batch next) :
    next.measure data < batch.measure data := by
  cases transition with
  | @answered task _ _ asked =>
    refine Nat.add_lt_add_right (sum_lt_of_task task ?_ ?_) _
    · simp [asked, asks]
    · intro other different
      simp [different]
  | @joined _ group stepped =>
    have moved : ∀ (task : Fin n) (status : ForkJoin.Task (Except Exception Value)),
        stepsLeft status < stepsLeft (batch.group.tasks task) →
        ∑ other, (asks data (batch.programs other) +
            stepsLeft (update batch.group.tasks task status other)) <
          ∑ other, (asks data (batch.programs other) + stepsLeft (batch.group.tasks other)) := by
      intro task status less
      refine sum_lt_of_task task ?_ ?_
      · simpa using less
      · intro other different
        simp [different]
    cases Program.transition_of_step stepped with
    | @ended task _ runs =>
      exact Nat.add_lt_add_right (moved task _ (by rw [runs]; exact Nat.lt_succ_self 1)) _
    | @counted task _ hasEnded =>
      exact Nat.add_lt_add_right (moved task _ (by rw [hasEnded]; exact Nat.one_pos)) _
    | @cancelled task _ hasEnded =>
      unfold Batch.measure
      rw [wakeLeft_wake]
      exact Nat.add_lt_add_right (moved task _ (by rw [hasEnded]; exact Nat.one_pos)) _
    | resumed woken =>
      refine Nat.add_lt_add_left ?_ _
      rw [woken]
      exact Nat.one_pos

/-- In whatever order the requests are answered, the tasks end and their handlers
are called, the coroutine is resumed after finitely many steps, with this
completion. -/
structure EndsWith (data : Request → Answer)
    (programs : Fin n → Interaction Request Answer Exception Value)
    (completion : Completion (List Value) Exception) : Prop where
  bounded : ∃ limit, ∀ events batch,
    Run (Batch.step data) anyStep (Batch.launch programs) events batch → events.length ≤ limit
  progress : ∀ events batch,
    Run (Batch.step data) anyStep (Batch.launch programs) events batch →
      (∃ result, batch.group.waiter = .resumed result) ∨ ∃ event, (batch.step data event).isSome
  result : ∀ events batch result,
    Run (Batch.step data) anyStep (Batch.launch programs) events batch →
      batch.group.waiter = .resumed result → result = completion

theorem Batch.eq_launch_of_run_zero
    {programs : Fin 0 → Interaction Request Answer Exception Value}
    {batch : Batch 0 Request Answer Exception Value} {events : List (BatchEvent 0)}
    (run : Run (step data) anyStep (launch programs) events batch) : batch = launch programs := by
  cases run with
  | done => rfl
  | @next _ _ _ event _ _ stepped _ =>
    cases event with
    | answered task | ended task | handled task => exact task.elim0
    | resume => cases stepped

theorem Batch.run_length_le {events : List (BatchEvent n)}
    (run : Run (step data) anyStep (launch programs) events batch) :
    events.length ≤ (launch programs).measure data := by
  have bounded : events.length + batch.measure data ≤ (launch programs).measure data := by
    refine @Run.length_le _ _ _ _ (fun _ => True) (measure data) _ _ _ run trivial ?_
    intro _ _ _ _ _ stepped
    exact ⟨trivial, measure_lt (transition_of_step stepped)⟩
  omega

theorem endsWith_of_data (data : Request → Answer)
    (programs : Fin n → Interaction Request Answer Exception Value) :
    EndsWith data programs
      (.ofExcept ((List.ofFn programs).mapM (Interaction.evaluate data))) := by
  refine ⟨⟨_, fun _ _ run => Batch.run_length_le run⟩, ?_, ?_⟩
  · intro _ _ run
    rcases Nat.eq_zero_or_pos n with rfl | positive
    · rw [Batch.eq_launch_of_run_zero run]
      exact .inl ⟨_, rfl⟩
    · exact Batch.progress (Batch.waits_of_run positive run)
  · intro _ _ result run resumed
    rcases Nat.eq_zero_or_pos n with rfl | positive
    · rw [Batch.eq_launch_of_run_zero run] at resumed
      cases resumed
      rfl
    · obtain ⟨outcomes, handled, collects⟩ :=
        (Batch.waits_of_run positive run).resumes result resumed
      have same : outcomes = fun task => (programs task).evaluate data := by
        funext task
        exact (Batch.serves_of_run run).outcomes task _ (by rw [handled]; rfl)
      rw [same] at collects
      exact collects.eq_ofExcept

end Coroserver.Async
