import Coroserver.Event.TaskQueue
import Coroserver.Tally

/-! What each step does, with the coroutine that took it replaced first, and how
the steps move the tasks that were added. -/

namespace Coroserver.Event

open List

variable {Task : Type}

def Coroutine.holds (test : Task → Bool) : Coroutine Task → Bool
  | .handleTask task _ _ => test task
  | _ => false

def TaskQueueEvent.brings : TaskQueueEvent Task → Option Task
  | .addTask task _ => some task
  | .suspended _ rest => some rest
  | _ => none

namespace TaskQueue

variable (queue : TaskQueue Task)

def count (test : Coroutine Task → Bool) : Nat :=
  queue.coroutines.countP test

theorem count_spawn (queue : TaskQueue Task) (coroutine : Coroutine Task)
    (test : Coroutine Task → Bool) :
    (queue.spawn coroutine).count test = queue.count test + (test coroutine).toNat :=
  Tally.countP_add test coroutine

variable {queue next : TaskQueue Task} {index client : Nat} {old : Coroutine Task} {task : Task}

theorem spawn_setCoroutine (queue : TaskQueue Task) (spawned new : Coroutine Task)
    (inRange : index < queue.coroutines.length) :
    (queue.spawn spawned).setCoroutine index new =
      (queue.setCoroutine index new).spawn spawned := by
  simp [spawn, setCoroutine, set_append_left _ _ inRange]

theorem getTask_nil (noTasks : queue.taskHandlers = []) (client : Nat) :
    queue.getTask client = (queue.release client, .processTasks .retrying) := by
  simp [getTask, takeTask, noTasks]

theorem getTask_cons (tasks : queue.taskHandlers = task :: others) (client : Nat) :
    queue.getTask client = (({ queue with taskHandlers := others } : TaskQueue Task).spawn
      (.handleTask task client false), .returned) := by
  simp [getTask, takeTask, tasks]

inductive Transition (queue : TaskQueue Task) : TaskQueueEvent Task → TaskQueue Task → Prop where
  | setEndPoint (endPoint : EndPoint) :
      Transition queue (.setEndPoint endPoint)
        (({ queue with endPoint } : TaskQueue Task).spawn (.processTasks .spawned))
  | queued {task front tasks} :
      tasks.Perm (task :: queue.taskHandlers) →
      queue.maxClients ≤ queue.taskHandlers.length →
      Transition queue (.addTask task front) { queue with taskHandlers := tasks }
  | announced {task front tasks} :
      tasks.Perm (task :: queue.taskHandlers) →
      queue.taskHandlers.length < queue.maxClients →
      Transition queue (.addTask task front)
        (({ queue with taskHandlers := tasks } : TaskQueue Task).spawn (.processTasks .spawned))
  | skipped {index : Nat} :
      queue.coroutines[index]? = some (.processTasks .spawned) →
      queue.endPoint.isSet = false ∨ queue.taskHandlers = [] →
      Transition queue (.resume index) (queue.setCoroutine index .returned)
  | assigned {index : Nat} {client : Client} {task : Task} {others : List Task} :
      queue.coroutines[index]? = some (.processTasks .spawned) →
      queue.endPoint.isSet = true → queue.taskHandlers = task :: others →
      queue.clients.find? Client.available = some client →
      Transition queue (.resume index)
        (({ (queue.setCoroutine index .returned).acquire client.id with
          taskHandlers := others } : TaskQueue Task).spawn (.handleTask task client.id false))
  | connect {index : Nat} :
      queue.coroutines[index]? = some (.processTasks .spawned) →
      queue.endPoint.isSet = true → queue.taskHandlers ≠ [] →
      queue.clients.find? Client.available = none →
      queue.clients.length < queue.maxClients →
      Transition queue (.resume index)
        { queue.setCoroutine index (.processTasks (.connecting queue.nextClient 0)) with
          nextClient := queue.nextClient + 1 }
  | full {index : Nat} :
      queue.coroutines[index]? = some (.processTasks .spawned) →
      queue.maxClients ≤ queue.clients.length →
      Transition queue (.resume index) (queue.setCoroutine index (.processTasks .retrying))
  | refused {index client i} :
      queue.coroutines[index]? = some (.processTasks (.connecting client i)) →
      Transition queue (.connected index true)
        (queue.setCoroutine index (.processTasks (.reconnecting client i)))
  | reconnected {index client i} :
      queue.coroutines[index]? = some (.processTasks (.reconnecting client i)) →
      i + 1 < maxRetryCount →
      Transition queue (.resume index)
        (queue.setCoroutine index (.processTasks (.connecting client (i + 1))))
  | abandoned {index client i} :
      queue.coroutines[index]? = some (.processTasks (.reconnecting client i)) →
      Transition queue (.resume index) (queue.setCoroutine index (.processTasks .retrying))
  | unneeded {index client i} :
      queue.coroutines[index]? = some (.processTasks (.connecting client i)) →
      queue.taskHandlers = [] →
      Transition queue (.connected index false)
        (((queue.setCoroutine index (.processTasks .retrying)).insertClient client).release client)
  | established {index client i task others} :
      queue.coroutines[index]? = some (.processTasks (.connecting client i)) →
      queue.taskHandlers = task :: others →
      Transition queue (.connected index false)
        (({ (queue.setCoroutine index .returned).insertClient client with
          taskHandlers := others } : TaskQueue Task).spawn (.handleTask task client false))
  | retried {index : Nat} :
      queue.coroutines[index]? = some (.processTasks .retrying) →
      Transition queue (.resume index)
        ((queue.setCoroutine index .returned).spawn (.processTasks .spawned))
  | started {index client : Nat} {task : Task} :
      queue.coroutines[index]? = some (.handleTask task client false) →
      Transition queue (.resume index)
        ((queue.setCoroutine index (.handleTask task client true)).acquire client)
  | suspended {index client task rest} :
      queue.coroutines[index]? = some (.handleTask task client true) →
      Transition queue (.suspended index rest)
        (queue.setCoroutine index (.handleTask rest client true))
  | succeeded {index client : Nat} {task : Task} :
      queue.coroutines[index]? = some (.handleTask task client true) →
      queue.taskHandlers = [] →
      Transition queue (.finished index false)
        ((queue.setCoroutine index .returned).release client)
  | continued {index client : Nat} {task next : Task} {others : List Task} :
      queue.coroutines[index]? = some (.handleTask task client true) →
      queue.taskHandlers = next :: others →
      Transition queue (.finished index false)
        (({ (queue.setCoroutine index .returned).release client with
          taskHandlers := others } : TaskQueue Task).spawn (.handleTask next client false))
  | failed {index client : Nat} {task : Task} :
      queue.coroutines[index]? = some (.handleTask task client true) →
      Transition queue (.finished index true)
        (((queue.setCoroutine index .returned).removeClient client).spawn
          (.processTasks .spawned))
  | closed (client : Nat) :
      Transition queue (.closed client)
        (queue.setClient client fun entry => { entry with isOpen := false })

private theorem addTask_transition (queue : TaskQueue Task) (task : Task) (front : Bool) :
    Transition queue (.addTask task front) (queue.addTask task front) := by
  have added : (if front then task :: queue.taskHandlers else queue.taskHandlers ++ [task]).Perm
      (task :: queue.taskHandlers) := by
    cases front with
    | true => exact .refl _
    | false => exact perm_append_singleton task queue.taskHandlers
  unfold addTask
  by_cases processNow : queue.taskHandlers.length < queue.maxClients
  · simp only [if_pos processNow]
    exact .announced added processNow
  · simp only [if_neg processNow]
    exact .queued added (Nat.le_of_not_lt processNow)

private theorem processTasks_transition
    (present : queue.coroutines[index]? = some (.processTasks .spawned)) :
    Transition queue (.resume index)
      (queue.processTasks.1.setCoroutine index queue.processTasks.2) := by
  obtain ⟨inRange, _⟩ := List.getElem?_eq_some_iff.mp present
  unfold processTasks
  cases isSet : queue.endPoint.isSet with
  | false => exact .skipped present (.inl isSet)
  | true =>
    simp only [Bool.not_true, Bool.false_eq_true, if_false]
    cases noTasks : queue.taskHandlers.isEmpty with
    | true => exact .skipped present (.inr (isEmpty_iff.mp noTasks))
    | false =>
      obtain ⟨task, others, tasks⟩ : ∃ task others, queue.taskHandlers = task :: others :=
        exists_cons_of_ne_nil (by simpa using noTasks)
      simp only [Bool.false_eq_true, if_false]
      cases found : queue.clients.find? Client.available with
      | some client =>
        have taken : queue.getFreeClient = some (client.id, queue.acquire client.id) := by
          simp [getFreeClient, found]
        have acquiredTasks : (queue.acquire client.id).taskHandlers = task :: others := tasks
        simp only [taken, getTask_cons acquiredTasks]
        rw [spawn_setCoroutine]
        · exact .assigned present isSet tasks found
        · exact inRange
      | none =>
        have taken : queue.getFreeClient = none := by
          simp [getFreeClient, found]
        simp only [taken]
        by_cases room : queue.clients.length < queue.maxClients
        · simp only [if_pos room]
          exact .connect present isSet (by simp [tasks]) found room
        · simp only [if_neg room]
          exact .full present (Nat.le_of_not_lt room)

private theorem connected_transition {i : Nat}
    (present : queue.coroutines[index]? = some (.processTasks (.connecting client i)))
    (failed : Bool) :
    Transition queue (.connected index failed)
      ((queue.connected client i failed).1.setCoroutine index
        (queue.connected client i failed).2) := by
  obtain ⟨inRange, _⟩ := List.getElem?_eq_some_iff.mp present
  cases failed with
  | true => exact .refused present
  | false =>
    cases tasks : queue.taskHandlers with
    | nil =>
      have noTasks : (queue.insertClient client).taskHandlers = [] := tasks
      simp only [connected, getTask_nil noTasks]
      exact .unneeded present tasks
    | cons task others =>
      have insertedTasks : (queue.insertClient client).taskHandlers = task :: others := tasks
      simp only [connected, getTask_cons insertedTasks]
      rw [spawn_setCoroutine]
      · exact .established present tasks
      · exact inRange

private theorem finished_transition
    (present : queue.coroutines[index]? = some (.handleTask task client true)) (failed : Bool) :
    Transition queue (.finished index failed)
      ((queue.handled client failed).setCoroutine index .returned) := by
  obtain ⟨inRange, _⟩ := List.getElem?_eq_some_iff.mp present
  cases failed with
  | true =>
    rw [handled, spawn_setCoroutine]
    · exact .failed present
    · exact inRange
  | false =>
    cases tasks : queue.taskHandlers with
    | nil =>
      have noTasks : (queue.release client).taskHandlers = [] := tasks
      simp only [handled, takeTask, noTasks]
      exact .succeeded present tasks
    | cons next others =>
      have releasedTasks : (queue.release client).taskHandlers = next :: others := tasks
      simp only [handled, takeTask, releasedTasks]
      rw [spawn_setCoroutine]
      · exact .continued present tasks
      · exact inRange

theorem transition_of_step (stepped : queue.step event = some next) :
    Transition queue event next := by
  revert stepped
  fun_cases TaskQueue.step queue event
  all_goals rintro ⟨⟩
  case case1 endPoint => exact .setEndPoint endPoint
  case case2 task front => exact addTask_transition queue task front
  case case3 index present next rest processed =>
    have moved := processTasks_transition present
    rwa [processed] at moved
  case case4 index client i present =>
    rw [reconnect]
    split
    · rename_i again
      exact .reconnected present again
    · exact .abandoned present
  case case5 index present => exact .retried present
  case case6 index task client present => exact .started present
  case case8 index failed client i present next rest connected =>
    have moved := connected_transition present failed
    rwa [connected] at moved
  case case10 index rest task client present => exact .suspended present
  case case12 index failed task client present => exact finished_transition present failed
  case case14 client => exact .closed client

def live (test : Task → Bool) : Nat :=
  queue.taskHandlers.countP test + queue.count (Coroutine.holds test)

def removes : TaskQueueEvent Task → Option Task
  | .suspended index _ | .finished index _ =>
    match queue.coroutines[index]? with
    | some (.handleTask task _ _) => some task
    | _ => none
  | _ => none

theorem live_spawn (queue : TaskQueue Task) (coroutine : Coroutine Task) (test : Task → Bool) :
    (queue.spawn coroutine).live test =
      queue.live test + (Coroutine.holds test coroutine).toNat := by
  have sameTasks : (queue.spawn coroutine).taskHandlers = queue.taskHandlers := rfl
  rw [live, live, count_spawn, sameTasks, Nat.add_assoc]

section

variable (present : queue.coroutines[index]? = some old)

include present

theorem count_setCoroutine (new : Coroutine Task) (test : Coroutine Task → Bool) :
    (queue.setCoroutine index new).count test + (test old).toNat =
      queue.count test + (test new).toNat :=
  Tally.countP_set test present new

variable {test : Coroutine Task → Bool} {others : List Task} {event : TaskQueueEvent Task}

theorem count_pos (selected : test old = true) : 0 < queue.count test :=
  Tally.countP_pos test present selected

theorem count_setCoroutine_le {new : Coroutine Task} (kept : test new = true → test old = true) :
    (queue.setCoroutine index new).count test ≤ queue.count test := by
  have moved := count_setCoroutine present new test
  cases selected : test new with
  | false =>
    simp only [selected, Bool.toNat_false] at moved
    omega
  | true =>
    simp only [selected, kept selected] at moved
    omega

theorem live_setCoroutine (new : Coroutine Task) (test : Task → Bool) :
    (queue.setCoroutine index new).live test + (Coroutine.holds test old).toNat =
      queue.live test + (Coroutine.holds test new).toNat := by
  have moved := count_setCoroutine present new (Coroutine.holds test)
  have sameTasks : (queue.setCoroutine index new).taskHandlers = queue.taskHandlers := rfl
  simp only [live, sameTasks]
  omega

end

theorem live_added {tasks : List Task} (added : tasks.Perm (task :: queue.taskHandlers))
    (test : Task → Bool) :
    ({ queue with taskHandlers := tasks } : TaskQueue Task).live test =
      queue.live test + (test task).toNat := by
  have sameCount : ({ queue with taskHandlers := tasks } : TaskQueue Task).count
      (Coroutine.holds test) = queue.count (Coroutine.holds test) := rfl
  rw [live, live, sameCount, added.countP_eq test, countP_cons]
  cases test task with
  | false => rfl
  | true =>
    simp only [if_true, Bool.toNat_true]
    omega

private theorem live_taken (tasks : queue.taskHandlers = task :: others) (client : Nat)
    (test : Task → Bool) :
    (({ queue with taskHandlers := others } : TaskQueue Task).spawn
      (.handleTask task client false)).live test = queue.live test := by
  rw [live_spawn, Coroutine.holds]
  exact (live_added (tasks ▸ .refl _) test).symm

theorem live_step (stepped : queue.step event = some next) (test : Task → Bool) :
    next.live test + ((queue.removes event).any test).toNat =
      queue.live test + (event.brings.any test).toNat := by
  cases transition_of_step stepped with
  | setEndPoint => exact live_spawn _ _ test
  | queued added => exact live_added added test
  | announced added => exact (live_spawn _ _ test).trans (live_added added test)
  | skipped present => exact live_setCoroutine present .returned test
  | @assigned index client task others present _ tasks =>
    have acquired : ((queue.setCoroutine index .returned).acquire client.id).taskHandlers =
        task :: others := tasks
    exact (live_taken acquired client.id test).trans (live_setCoroutine present .returned test)
  | connect present | full present | refused present | reconnected present =>
    exact live_setCoroutine present _ test
  | abandoned present | unneeded present => exact live_setCoroutine present _ test
  | @established index client i task others present tasks =>
    have inserted : ((queue.setCoroutine index .returned).insertClient client).taskHandlers =
        task :: others := tasks
    exact (live_taken inserted client test).trans (live_setCoroutine present .returned test)
  | retried present =>
    exact (live_spawn _ _ test).trans (live_setCoroutine present .returned test)
  | started present =>
    exact Nat.add_right_cancel (live_setCoroutine present (.handleTask _ _ true) test)
  | suspended present =>
    simp only [removes, present, TaskQueueEvent.brings, Option.any_some]
    exact live_setCoroutine present (.handleTask _ _ true) test
  | succeeded present =>
    simp only [removes, present, TaskQueueEvent.brings, Option.any_some]
    exact live_setCoroutine present .returned test
  | @continued index client task next others present tasks =>
    have released : ((queue.setCoroutine index .returned).release client).taskHandlers =
        next :: others := tasks
    simp only [removes, present, TaskQueueEvent.brings, Option.any_some]
    rw [live_taken released client test]
    exact live_setCoroutine present .returned test
  | failed present =>
    simp only [removes, present, TaskQueueEvent.brings, Option.any_some]
    rw [live_spawn]
    exact live_setCoroutine present .returned test
  | closed => rfl

theorem live_addTask (queue : TaskQueue Task) (task : Task) (front : Bool) (test : Task → Bool) :
    (queue.addTask task front).live test = queue.live test + (test task).toNat := by
  have stepped : queue.step (.addTask task front) = some (queue.addTask task front) := rfl
  exact live_step stepped test

theorem live_mono (queue : TaskQueue Task) {weak strong : Task → Bool}
    (implies : ∀ task, strong task = true → weak task = true) :
    queue.live strong ≤ queue.live weak := by
  refine Nat.add_le_add (countP_mono_left fun task _ => implies task) ?_
  refine countP_mono_left fun coroutine _ holding => ?_
  cases coroutine with
  | handleTask task => exact implies task holding
  | processTasks | returned => cases holding

theorem live_pos {executing : Bool}
    (present : queue.coroutines[index]? = some (.handleTask task client executing))
    {test : Task → Bool} (selected : test task = true) : 0 < queue.live test :=
  Nat.lt_of_lt_of_le (count_pos present selected) (Nat.le_add_left _ _)

end TaskQueue

end Coroserver.Event
