import Coroserver.Machine
import Mathlib.Data.Finset.Card
import Mathlib.Data.Fintype.Basic
import Mathlib.Data.Fintype.Card

/-! A coroutine spawns one task for every index and waits. The tasks end in any
order, and the completion handler of a task is called at any time after its end. A
handler may cancel the wait, and then the coroutine can be resumed. -/

namespace Coroserver.ForkJoin

open Function

/-- A task runs, has ended, or has ended and its completion handler has been
called. -/
inductive Task (Outcome : Type) where
  | running
  | ended (outcome : Outcome)
  | handled (outcome : Outcome)

namespace Task

variable {Outcome : Type}

def outcome? : Task Outcome → Option Outcome
  | .running => none
  | .ended outcome | .handled outcome => some outcome

def isHandled : Task Outcome → Bool
  | .handled _ => true
  | _ => false

theorem isHandled_iff {task : Task Outcome} :
    task.isHandled = true ↔ ∃ outcome, task = .handled outcome := by
  cases task <;> simp [isHandled]

end Task

inductive Waiter (Result : Type) where
  | waiting
  | woken
  | resumed (result : Result)

def Waiter.wake {Result : Type} : Waiter Result → Waiter Result
  | .waiting => .woken
  | waiter => waiter

variable {Index : Type} {Outcome : Index → Type} {State Barrier Result : Type}

/-- What a task leaves behind when it ends, what its completion handler does and
whether it cancels the wait, and what the coroutine does after the wait. -/
structure Program (Outcome : Index → Type) (State Barrier Result : Type) where
  leave : State → (task : Index) → Outcome task → State
  completionHandler : Barrier → Barrier × Bool
  finish : State → Result

structure Group (Outcome : Index → Type) (State Barrier Result : Type) where
  tasks : (task : Index) → Task (Outcome task)
  state : State
  barrier : Barrier
  waiter : Waiter Result
  /-- From here on a history that no operation reads. -/
  ended : List ((task : Index) × Outcome task)
  cancelled : Nat

inductive Event (Outcome : Index → Type) where
  | ended (task : Index) (outcome : Outcome task)
  | handled (task : Index)
  | resume

def launch (state : State) (barrier : Barrier) : Group Outcome State Barrier Result where
  tasks _ := .running
  state := state
  barrier := barrier
  waiter := .waiting
  ended := []
  cancelled := 0

def Tracks {Slot : Index → Type} (select : (task : Index) → Outcome task → Option (Slot task))
    (ended : List ((task : Index) × Outcome task)) (slots : (task : Index) → Option (Slot task)) :
    Prop :=
  ∀ task slot, slots task = some slot ↔
    ∃ outcome, ⟨task, outcome⟩ ∈ ended ∧ select task outcome = some slot

section Tracks

variable {Slot : Index → Type} {select : (task : Index) → Outcome task → Option (Slot task)}
  {ended : List ((task : Index) × Outcome task)} {slots : (task : Index) → Option (Slot task)}
  {task : Index} {outcome : Outcome task}

theorem tracks_nil : Tracks select [] fun _ => none := by
  intro task slot
  simp

theorem Tracks.stored [DecidableEq Index] (tracks : Tracks select ended slots)
    (fresh : ∀ other, ⟨task, other⟩ ∉ ended) {slot : Slot task}
    (selected : select task outcome = some slot) :
    Tracks select (ended ++ [⟨task, outcome⟩]) (update slots task (some slot)) := by
  intro other otherSlot
  by_cases same : other = task
  · subst same
    simp [fresh, selected]
  · simp [same, tracks other otherSlot]

theorem Tracks.skipped (tracks : Tracks select ended slots)
    (fresh : ∀ other, ⟨task, other⟩ ∉ ended) (ignored : select task outcome = none) :
    Tracks select (ended ++ [⟨task, outcome⟩]) slots := by
  intro other otherSlot
  rw [tracks other otherSlot]
  by_cases same : other = task
  · subst same
    simp [fresh, ignored]
  · simp [same]

end Tracks

def Group.pending [Fintype Index] (group : Group Outcome State Barrier Result) : Finset Index :=
  Finset.univ.filter fun task => (group.tasks task).isHandled = false

section Pending

variable [Fintype Index] {group : Group Outcome State Barrier Result} {task : Index}

theorem Group.mem_pending : task ∈ group.pending ↔ (group.tasks task).isHandled = false := by
  simp [pending]

theorem Group.pending_eq_empty_iff :
    group.pending = ∅ ↔ ∀ task, ∃ outcome, group.tasks task = .handled outcome := by
  simp [pending, Finset.filter_eq_empty_iff, ← Task.isHandled_iff]

end Pending

section Step

variable [DecidableEq Index]

namespace Program

def step (program : Program Outcome State Barrier Result)
    (group : Group Outcome State Barrier Result) :
    Event Outcome → Option (Group Outcome State Barrier Result)
  | .ended task outcome =>
    match group.tasks task with
    | .running =>
      some { group with
        tasks := update group.tasks task (.ended outcome)
        state := program.leave group.state task outcome
        ended := group.ended ++ [⟨task, outcome⟩] }
    | _ => none
  | .handled task =>
    match group.tasks task with
    | .ended outcome =>
      let (barrier, cancels) := program.completionHandler group.barrier
      some { group with
        tasks := update group.tasks task (.handled outcome)
        barrier
        waiter := if cancels then group.waiter.wake else group.waiter
        cancelled := if cancels then group.cancelled + 1 else group.cancelled }
    | _ => none
  | .resume =>
    match group.waiter with
    | .woken => some { group with waiter := .resumed (program.finish group.state) }
    | _ => none

inductive Transition (program : Program Outcome State Barrier Result)
    (group : Group Outcome State Barrier Result) : Group Outcome State Barrier Result → Prop where
  | ended {task} (outcome : Outcome task) : group.tasks task = .running →
      Transition program group
        { group with
          tasks := update group.tasks task (.ended outcome)
          state := program.leave group.state task outcome
          ended := group.ended ++ [⟨task, outcome⟩] }
  | counted {task outcome} : group.tasks task = .ended outcome →
      (program.completionHandler group.barrier).2 = false →
      Transition program group
        { group with
          tasks := update group.tasks task (.handled outcome)
          barrier := (program.completionHandler group.barrier).1 }
  | cancelled {task outcome} : group.tasks task = .ended outcome →
      (program.completionHandler group.barrier).2 = true →
      Transition program group
        { group with
          tasks := update group.tasks task (.handled outcome)
          barrier := (program.completionHandler group.barrier).1
          waiter := group.waiter.wake
          cancelled := group.cancelled + 1 }
  | resumed : group.waiter = .woken →
      Transition program group { group with waiter := .resumed (program.finish group.state) }

theorem transition_of_step {program : Program Outcome State Barrier Result}
    {group next : Group Outcome State Barrier Result} {event : Event Outcome}
    (stepped : program.step group event = some next) : program.Transition group next := by
  revert stepped
  fun_cases Program.step program group event
  all_goals rintro ⟨⟩
  case case1 task outcome runs => exact .ended outcome runs
  case case3 task outcome hasEnded barrier cancels counted =>
    obtain rfl := congrArg Prod.fst counted
    cases cancels with
    | false => exact .counted hasEnded (congrArg Prod.snd counted)
    | true => exact .cancelled hasEnded (congrArg Prod.snd counted)
  case case5 woken => exact .resumed woken

end Program

theorem Group.outcome?_handled {group : Group Outcome State Barrier Result} {task : Index}
    {outcome : Outcome task} (hasEnded : group.tasks task = .ended outcome) (other : Index) :
    (update group.tasks task (.handled outcome) other).outcome? =
      (group.tasks other).outcome? := by
  by_cases same : other = task
  · subst same
    rw [update_self, hasEnded]
    rfl
  · rw [update_of_ne same]

theorem Program.outcome?_of_step {program : Program Outcome State Barrier Result}
    {group next : Group Outcome State Barrier Result} {event : Event Outcome}
    (stepped : program.step group event = some next) {task : Index} {outcome : Outcome task}
    (ended : (next.tasks task).outcome? = some outcome) :
    (group.tasks task).outcome? = some outcome ∨ event = .ended task outcome := by
  revert stepped ended
  fun_cases Program.step program group event
  all_goals rintro ⟨⟩ ended
  case case1 other result runs =>
    by_cases same : task = other
    · subst same
      simp only [update_self, Task.outcome?, Option.some.injEq] at ended
      exact .inr (ended ▸ rfl)
    · simp only [update_of_ne same] at ended
      exact .inl ended
  case case3 other result hasEnded barrier cancels counted =>
    simp only [Group.outcome?_handled hasEnded] at ended
    exact .inl ended
  case case5 => exact .inl ended

structure Countdown (completionHandler : Barrier → Barrier × Bool) (remaining : Barrier → Nat) :
    Prop where
  decrements : ∀ barrier, 0 < remaining barrier →
    remaining (completionHandler barrier).1 = remaining barrier - 1
  cancels : ∀ barrier, 0 < remaining barrier →
    ((completionHandler barrier).2 = true ↔ remaining barrier = 1)

variable [Fintype Index]

structure Joins (program : Program Outcome State Barrier Result) (remaining : Barrier → Nat)
    (group : Group Outcome State Barrier Result) : Prop where
  counter : remaining group.barrier = group.pending.card
  recorded : ∀ task outcome,
    ⟨task, outcome⟩ ∈ group.ended ↔ (group.tasks task).outcome? = some outcome
  waits : group.waiter = .waiting ↔ group.pending.Nonempty
  once : group.cancelled = if group.pending = ∅ then 1 else 0
  result : ∀ result, group.waiter = .resumed result → result = program.finish group.state

section Joins

variable {program : Program Outcome State Barrier Result} {remaining : Barrier → Nat}
  {group next : Group Outcome State Barrier Result}

theorem joins_launch [Nonempty Index] {state : State} {barrier : Barrier}
    (counts : remaining barrier = Fintype.card Index) :
    Joins program remaining (launch state barrier) := by
  have all : (launch state barrier : Group Outcome State Barrier Result).pending = Finset.univ :=
    Finset.filter_true_of_mem fun _ _ => rfl
  refine ⟨?_, ?_, ?_, ?_, ?_⟩
  · rw [all, Finset.card_univ]
    exact counts
  · intro task outcome
    simp [launch, Task.outcome?]
  · rw [all]
    exact iff_of_true rfl Finset.univ_nonempty
  · rw [all, if_neg Finset.univ_nonempty.ne_empty]
    rfl
  · rintro _ ⟨⟩

theorem pending_handled {task : Index} {outcome : Outcome task}
    (tasks : next.tasks = update group.tasks task (.handled outcome)) :
    next.pending = group.pending.erase task := by
  ext other
  rw [Finset.mem_erase, Group.mem_pending, Group.mem_pending, tasks]
  by_cases same : other = task
  · subst same
    simp [Task.isHandled]
  · simp [same]

theorem pending_ended {task : Index} {outcome : Outcome task} (runs : group.tasks task = .running)
    (tasks : next.tasks = update group.tasks task (.ended outcome)) :
    next.pending = group.pending := by
  ext other
  rw [Group.mem_pending, Group.mem_pending, tasks]
  by_cases same : other = task
  · subst same
    simp [Task.isHandled, runs]
  · simp [same]

section

variable (joins : Joins program remaining group)

include joins

variable {task : Index}

theorem Joins.waiting_of_not_handled (unhandled : (group.tasks task).isHandled = false) :
    group.waiter = .waiting ∧ 0 < remaining group.barrier := by
  have pending : group.pending.Nonempty := ⟨task, Group.mem_pending.mpr unhandled⟩
  exact ⟨joins.waits.mpr pending, joins.counter ▸ pending.card_pos⟩

variable {outcome : Outcome task}

theorem Joins.of_ended (runs : group.tasks task = .running)
    (tasks : next.tasks = update group.tasks task (.ended outcome))
    (barrier : next.barrier = group.barrier) (ended : next.ended = group.ended ++ [⟨task, outcome⟩])
    (waiter : next.waiter = group.waiter) (cancelled : next.cancelled = group.cancelled)
    (unfinished : ∀ result, next.waiter ≠ .resumed result) : Joins program remaining next := by
  have same := pending_ended runs tasks
  refine ⟨?_, ?_, ?_, ?_, ?_⟩
  · rw [barrier, same, joins.counter]
  · intro other _
    rw [ended, tasks, List.mem_append, joins.recorded, List.mem_singleton]
    by_cases isTask : other = task
    · subst isTask
      simp [runs, Task.outcome?, eq_comm]
    · simp [isTask]
  · rw [waiter, same, joins.waits]
  · rw [cancelled, same, joins.once]
  · intro result resumed
    exact absurd resumed (unfinished result)

theorem Joins.of_handled (countdown : Countdown program.completionHandler remaining)
    (hasEnded : group.tasks task = .ended outcome)
    (tasks : next.tasks = update group.tasks task (.handled outcome))
    (barrier : next.barrier = (program.completionHandler group.barrier).1)
    (ended : next.ended = group.ended)
    (waits : next.waiter = .waiting ↔ (program.completionHandler group.barrier).2 = false)
    (cancelled : next.cancelled = if (program.completionHandler group.barrier).2 = true
      then group.cancelled + 1 else group.cancelled)
    (unfinished : ∀ result, next.waiter ≠ .resumed result) : Joins program remaining next := by
  have unhandled : (group.tasks task).isHandled = false := congrArg Task.isHandled hasEnded
  have member : task ∈ group.pending := Group.mem_pending.mpr unhandled
  have positive := (joins.waiting_of_not_handled unhandled).2
  have counter : remaining next.barrier = next.pending.card := by
    rw [barrier, countdown.decrements _ positive, joins.counter, pending_handled tasks,
      Finset.card_erase_of_mem member]
  have last : (program.completionHandler group.barrier).2 = true ↔ next.pending = ∅ := by
    have decremented := countdown.decrements _ positive
    rw [countdown.cancels _ positive, ← Finset.card_eq_zero, ← counter, barrier, decremented]
    omega
  refine ⟨counter, ?_, ?_, ?_, ?_⟩
  · intro other otherOutcome
    rw [ended, tasks, Group.outcome?_handled hasEnded]
    exact joins.recorded other otherOutcome
  · rw [waits, Finset.nonempty_iff_ne_empty, ne_eq, ← last, Bool.not_eq_true]
  · have before : group.cancelled = 0 := by
      rw [joins.once, if_neg (Finset.ne_empty_of_mem member)]
    simp [cancelled, before, last]
  · intro result resumed
    exact absurd resumed (unfinished result)

theorem Joins.step {event : Event Outcome}
    (countdown : Countdown program.completionHandler remaining)
    (stepped : program.step group event = some next) : Joins program remaining next := by
  cases Program.transition_of_step stepped with
  | ended _ runs =>
    obtain ⟨waiting, -⟩ := joins.waiting_of_not_handled (congrArg Task.isHandled runs)
    exact joins.of_ended runs rfl rfl rfl rfl rfl (by simp [waiting])
  | counted hasEnded counts =>
    obtain ⟨waiting, -⟩ := joins.waiting_of_not_handled (congrArg Task.isHandled hasEnded)
    exact joins.of_handled countdown hasEnded rfl rfl rfl (iff_of_true waiting counts)
      (by simp [counts]) (by simp [waiting])
  | cancelled hasEnded cancels =>
    obtain ⟨waiting, -⟩ := joins.waiting_of_not_handled (congrArg Task.isHandled hasEnded)
    exact joins.of_handled countdown hasEnded rfl rfl rfl
      (by simp [waiting, cancels, Waiter.wake]) (by simp [cancels])
      (by simp [waiting, Waiter.wake])
  | resumed woken =>
    have nobody : ¬group.pending.Nonempty := fun pending => by
      cases woken.symm.trans (joins.waits.mpr pending)
    refine ⟨joins.counter, joins.recorded, ?_, joins.once, ?_⟩
    · exact iff_of_false (fun waiting => by cases waiting) nobody
    · rintro _ ⟨⟩
      rfl

theorem Joins.not_waiting_iff :
    group.waiter ≠ .waiting ↔ ∀ task, ∃ outcome, group.tasks task = .handled outcome := by
  rw [ne_eq, joins.waits, Finset.not_nonempty_iff_eq_empty, Group.pending_eq_empty_iff]

theorem Joins.resumed {result : Result} (resumed : group.waiter = .resumed result) :
    (∀ task, ∃ outcome, group.tasks task = .handled outcome) ∧
      result = program.finish group.state :=
  ⟨joins.not_waiting_iff.mp (by simp [resumed]), joins.result result resumed⟩

theorem Joins.slot_eq {Slot : Index → Type}
    {select : (task : Index) → Outcome task → Option (Slot task)}
    {slots : (task : Index) → Option (Slot task)} (tracks : Tracks select group.ended slots)
    (handled : group.tasks task = .handled outcome) :
    slots task = select task outcome := by
  refine Option.ext fun slot => ?_
  simp [tracks task slot, joins.recorded, handled, Task.outcome?]

end

/-- A fact about what the tasks have left behind holds in every group if the end of a
task keeps it. -/
theorem joins_of_run [Nonempty Index] {state : State} {barrier : Barrier}
    {events : List (Event Outcome)} (countdown : Countdown program.completionHandler remaining)
    (counts : remaining barrier = Fintype.card Index)
    {left : List ((task : Index) × Outcome task) → State → Prop} (nothing : left [] state)
    (leaves : ∀ ended state task (outcome : Outcome task), (∀ other, ⟨task, other⟩ ∉ ended) →
      left ended state → left (ended ++ [⟨task, outcome⟩]) (program.leave state task outcome))
    (run : Machine.Run program.step Machine.anyStep (launch state barrier) events group) :
    Joins program remaining group ∧ left group.ended group.state := by
  refine @Machine.Run.preserves _ _ _ _
    (fun group => Joins program remaining group ∧ left group.ended group.state) _ _ _ run
    ⟨joins_launch counts, nothing⟩ ?_
  rintro _ _ _ ⟨joins, hasLeft⟩ - stepped
  refine ⟨joins.step countdown stepped, ?_⟩
  cases Program.transition_of_step stepped with
  | ended _ runs =>
    refine leaves _ _ _ _ ?_ hasLeft
    intro other member
    rw [joins.recorded, runs] at member
    cases member
  | counted | cancelled | resumed => exact hasLeft

end Joins

end Step

end Coroserver.ForkJoin
