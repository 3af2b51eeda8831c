import Coroserver.Event.TaskQueueClients

/-! `addTask` spawns a `processTasks` only while the queue is short, so the queued
tasks have to be attended to by a coroutine that is still there. A ledger records
which tasks were added, taken from the queue, handed to a `handleTask` and called. -/

namespace Coroserver.Event

open List Machine Tally

variable {Task : Type}

def Coroutine.alive : Coroutine Task → Bool
  | .processTasks _ | .handleTask _ _ _ => true
  | .returned => false

def Coroutine.unstarted : Coroutine Task → Option Task
  | .handleTask task _ false => some task
  | _ => none

def TaskQueueEvent.adds : TaskQueueEvent Task → Option Task
  | .addTask task _ => some task
  | _ => none

namespace TaskQueue

def Attended (queue : TaskQueue Task) : Prop :=
  queue.endPoint.isSet = true → queue.taskHandlers ≠ [] → 0 < queue.count Coroutine.alive

def unstarted (queue : TaskQueue Task) : List Task :=
  queue.coroutines.filterMap Coroutine.unstarted

def taken (queue next : TaskQueue Task) : List Task :=
  queue.taskHandlers.take (queue.taskHandlers.length - next.taskHandlers.length)

def spawned (queue next : TaskQueue Task) : List Task :=
  (next.coroutines.drop queue.coroutines.length).filterMap Coroutine.unstarted

def called (queue : TaskQueue Task) : TaskQueueEvent Task → Option Task
  | .resume index => queue.coroutines[index]? >>= Coroutine.unstarted
  | _ => none

theorem alive_spawn (queue : TaskQueue Task) {coroutine : Coroutine Task}
    (isAlive : coroutine.alive = true) : 0 < (queue.spawn coroutine).count Coroutine.alive := by
  rw [count_spawn, isAlive]
  exact Nat.succ_pos _

private theorem alive_setCoroutine {queue : TaskQueue Task} {index : Nat} {old new : Coroutine Task}
    (present : queue.coroutines[index]? = some old) (isAlive : new.alive = true) :
    0 < (queue.setCoroutine index new).count Coroutine.alive := by
  obtain ⟨inRange, _⟩ := List.getElem?_eq_some_iff.mp present
  exact countP_pos _ (List.getElem?_set_self inRange) isAlive

theorem Attended.step {queue next : TaskQueue Task} {event : TaskQueueEvent Task}
    (attended : queue.Attended) (positive : 0 < queue.maxClients)
    (stepped : queue.step event = some next) : next.Attended := by
  intro isSet pending
  cases transition_of_step stepped with
  | setEndPoint | announced | assigned | established | retried | continued | failed =>
    exact alive_spawn _ rfl
  | queued _ long =>
    refine attended isSet ?_
    rintro noTasks
    simp only [noTasks, length_nil] at long
    omega
  | skipped _ unneeded =>
    obtain unset | noTasks := unneeded
    · exact absurd isSet (by simp [setCoroutine, unset])
    · exact absurd noTasks pending
  | connect present | full present | refused present | reconnected present | abandoned present
  | unneeded present | started present | suspended present =>
    exact alive_setCoroutine present rfl
  | succeeded _ noTasks => exact absurd noTasks pending
  | closed => exact attended isSet pending

theorem taken_of_eq {queue next : TaskQueue Task}
    (kept : next.taskHandlers = queue.taskHandlers) : queue.taken next = [] := by
  simp [taken, kept]

theorem taken_of_perm_cons {queue next : TaskQueue Task} {task : Task}
    (added : next.taskHandlers.Perm (task :: queue.taskHandlers)) : queue.taken next = [] := by
  have longer := added.length_eq
  simp only [length_cons] at longer
  simp [taken, longer]

structure Moves (queue : TaskQueue Task) (event : TaskQueueEvent Task) (next : TaskQueue Task) :
    Prop where
  queued : (queue.taskHandlers ++ event.adds.toList).Perm (next.taskHandlers ++ queue.taken next)
  handed : queue.spawned next = queue.taken next
  started : (queue.unstarted ++ queue.spawned next).Perm
    (next.unstarted ++ (queue.called event).toList)

section Moves

variable {queue next : TaskQueue Task} {event : TaskQueueEvent Task} {index : Nat}
  {old new : Coroutine Task} {replaced fresh : List (Coroutine Task)}

section

variable (queued : (queue.taskHandlers ++ event.adds.toList).Perm
  (next.taskHandlers ++ queue.taken next))

include queued

theorem moves_of_append (coroutines : next.coroutines = replaced ++ fresh)
    (sameLength : replaced.length = queue.coroutines.length)
    (handed : fresh.filterMap Coroutine.unstarted = queue.taken next)
    (started : queue.unstarted.Perm
      (replaced.filterMap Coroutine.unstarted ++ (queue.called event).toList)) :
    queue.Moves event next := by
  have spawnedFresh : queue.spawned next = fresh.filterMap Coroutine.unstarted := by
    rw [spawned, coroutines, ← sameLength, drop_left]
  have nextUnstarted : next.unstarted =
      replaced.filterMap Coroutine.unstarted ++ fresh.filterMap Coroutine.unstarted := by
    rw [unstarted, coroutines, filterMap_append]
  refine ⟨queued, spawnedFresh.trans handed, ?_⟩
  rw [spawnedFresh, nextUnstarted, append_assoc]
  exact (started.append_right _).trans
    ((append_assoc _ _ _).symm ▸ perm_append_comm.append_left _)

theorem moves_of_spawn (coroutines : next.coroutines = queue.coroutines ++ fresh)
    (handed : fresh.filterMap Coroutine.unstarted = queue.taken next)
    (noCall : queue.called event = none) : queue.Moves event next := by
  refine moves_of_append queued coroutines rfl handed ?_
  rw [noCall, Option.toList_none, append_nil]
  exact .refl _

theorem moves_of_set (present : queue.coroutines[index]? = some old)
    (coroutines : next.coroutines = queue.coroutines.set index new ++ fresh)
    (handed : fresh.filterMap Coroutine.unstarted = queue.taken next)
    (oldStarted : old.unstarted = none) (newStarted : new.unstarted = none)
    (noCall : queue.called event = none) : queue.Moves event next := by
  refine moves_of_append queued coroutines length_set handed ?_
  have moved := filterMap_set_perm Coroutine.unstarted present new
  rw [oldStarted, newStarted] at moved
  simpa [noCall, unstarted] using moved.symm

end

theorem moves_of_set_of_eq (present : queue.coroutines[index]? = some old)
    (coroutines : next.coroutines = queue.coroutines.set index new ++ fresh)
    (kept : next.taskHandlers = queue.taskHandlers) (noTask : event.adds = none)
    (noHandler : fresh.filterMap Coroutine.unstarted = [])
    (oldStarted : old.unstarted = none) (newStarted : new.unstarted = none)
    (noCall : queue.called event = none) : queue.Moves event next := by
  have noneTaken := taken_of_eq kept
  refine moves_of_set ?_ present coroutines (noHandler.trans noneTaken.symm) oldStarted newStarted
    noCall
  rw [noneTaken, noTask, kept]
  exact .refl _

private theorem moves_of_set_of_cons {task : Task} {client : Nat}
    (present : queue.coroutines[index]? = some old)
    (coroutines : next.coroutines = queue.coroutines.set index .returned ++
      [.handleTask task client false])
    (tasks : queue.taskHandlers = task :: next.taskHandlers) (noTask : event.adds = none)
    (oldStarted : old.unstarted = none) (noCall : queue.called event = none) :
    queue.Moves event next := by
  have oneTaken : queue.taken next = [task] := by simp [taken, tasks]
  refine moves_of_set ?_ present coroutines oneTaken.symm oldStarted rfl noCall
  rw [oneTaken, noTask, tasks, Option.toList_none, append_nil]
  exact (perm_append_singleton task next.taskHandlers).symm

theorem moves_of_step (stepped : queue.step event = some next) : queue.Moves event next := by
  cases transition_of_step stepped with
  | setEndPoint endPoint =>
    have noneTaken : queue.taken (({ queue with endPoint } : TaskQueue Task).spawn
        (.processTasks .spawned)) = [] := taken_of_eq rfl
    refine moves_of_spawn ?_ rfl noneTaken.symm rfl
    rw [noneTaken]
    exact .refl _
  | @queued task front tasks added =>
    have noneTaken : queue.taken { queue with taskHandlers := tasks } = [] :=
      taken_of_perm_cons added
    refine moves_of_spawn ?_ (append_nil _).symm noneTaken.symm rfl
    rw [noneTaken, append_nil]
    exact (perm_append_singleton task queue.taskHandlers).trans added.symm
  | @announced task front tasks added =>
    have noneTaken : queue.taken (({ queue with taskHandlers := tasks } : TaskQueue Task).spawn
        (.processTasks .spawned)) = [] := taken_of_perm_cons added
    refine moves_of_spawn ?_ rfl noneTaken.symm rfl
    rw [noneTaken, append_nil]
    exact (perm_append_singleton task queue.taskHandlers).trans added.symm
  | skipped present | connect present | full present | reconnected present | abandoned present =>
    exact moves_of_set_of_eq present (append_nil _).symm rfl rfl rfl rfl rfl
      (by simp [called, present, Coroutine.unstarted])
  | refused present | unneeded present | suspended present | succeeded present =>
    exact moves_of_set_of_eq present (append_nil _).symm rfl rfl rfl rfl rfl rfl
  | retried present =>
    exact moves_of_set_of_eq present rfl rfl rfl rfl rfl rfl
      (by simp [called, present, Coroutine.unstarted])
  | failed present => exact moves_of_set_of_eq present rfl rfl rfl rfl rfl rfl rfl
  | assigned present _ tasks =>
    exact moves_of_set_of_cons present rfl tasks rfl rfl
      (by simp [called, present, Coroutine.unstarted])
  | established present tasks | continued present tasks =>
    exact moves_of_set_of_cons present rfl tasks rfl rfl rfl
  | @started index client task present =>
    have noneTaken : queue.taken ((queue.setCoroutine index
        (.handleTask task client true)).acquire client) = [] := taken_of_eq rfl
    refine moves_of_append ?_ (append_nil _).symm length_set noneTaken.symm ?_
    · rw [noneTaken]
      exact .refl _
    · have moved := filterMap_set_perm Coroutine.unstarted present
        (.handleTask task client true)
      have call : queue.called (.resume index) = some task := by
        simp [called, present, Coroutine.unstarted]
      rw [call]
      exact (append_nil _ ▸ moved).symm
  | closed client =>
    have noneTaken : queue.taken (queue.setClient client
        fun entry => { entry with isOpen := false }) = [] := taken_of_eq rfl
    refine moves_of_spawn ?_ (append_nil _).symm noneTaken.symm rfl
    rw [noneTaken]
    exact .refl _

end Moves

end TaskQueue

structure TaskLedger (Task : Type) where
  queue : TaskQueue Task
  added : List Task := []
  taken : List Task := []
  spawned : List Task := []
  started : List Task := []

namespace TaskLedger

def create (endPoint : EndPoint) (maxConnections : Nat) : TaskLedger Task :=
  { queue := TaskQueue.create endPoint maxConnections }

def step (ledger : TaskLedger Task) (event : TaskQueueEvent Task) : Option (TaskLedger Task) :=
  (ledger.queue.step event).map fun next =>
    { queue := next
      added := ledger.added ++ event.adds.toList
      taken := ledger.taken ++ ledger.queue.taken next
      spawned := ledger.spawned ++ ledger.queue.spawned next
      started := ledger.started ++ (ledger.queue.called event).toList }

/-- Every task that was added is queued or has been taken, and every task taken is
that of one `handleTask`, which has either not run yet or called it. -/
structure Balanced (ledger : TaskLedger Task) : Prop where
  queued : ledger.added.Perm (ledger.queue.taskHandlers ++ ledger.taken)
  handed : ledger.spawned = ledger.taken
  started : ledger.spawned.Perm (ledger.queue.unstarted ++ ledger.started)

theorem Balanced.step {ledger next : TaskLedger Task} {event : TaskQueueEvent Task}
    (balanced : ledger.Balanced) (stepped : ledger.step event = some next) : next.Balanced := by
  obtain ⟨queue, moved, rfl⟩ := Option.map_eq_some_iff.mp stepped
  have moves := TaskQueue.moves_of_step moved
  refine ⟨perm_append_move balanced.queued moves.queued, ?_,
    perm_append_move balanced.started moves.started⟩
  rw [balanced.handed, moves.handed]

/-- A queued task never lacks a coroutine that will attend to it, and every
task that was added is either queued or has been handed to one `handleTask`. -/
theorem pending_attended_and_started_once (endPoint : EndPoint) {maxConnections : Nat}
    (positive : 0 < maxConnections) {events : List (TaskQueueEvent Task)} {ledger : TaskLedger Task}
    (run : Run step anyStep (create endPoint maxConnections) events ledger) :
    (ledger.queue.endPoint.isSet = true → ledger.queue.taskHandlers ≠ [] →
      ∃ coroutine ∈ ledger.queue.coroutines, coroutine.alive = true) ∧
    ledger.added.Perm (ledger.queue.taskHandlers ++ ledger.taken) ∧ ledger.spawned = ledger.taken ∧
    ledger.spawned.Perm (ledger.queue.unstarted ++ ledger.started) := by
  have balanced : ledger.Balanced := run.preserves ⟨.refl _, rfl, .refl _⟩
      fun _ _ _ before _ stepped => before.step stepped
  have keeps : ∀ (before : TaskLedger Task) event next,
      0 < before.queue.maxClients ∧ before.queue.Attended → anyStep before event →
        step before event = some next → 0 < next.queue.maxClients ∧ next.queue.Attended := by
    rintro _ _ _ ⟨positive, attended⟩ _ stepped
    obtain ⟨queue, moved, rfl⟩ := Option.map_eq_some_iff.mp stepped
    exact ⟨TaskQueue.maxClients_step moved ▸ positive, attended.step positive moved⟩
  have attended := run.preserves ⟨positive, fun _ noTasks => absurd rfl noTasks⟩ keeps
  refine ⟨?_, balanced.queued, balanced.handed, balanced.started⟩
  intro isSet pending
  exact countP_pos_iff.mp (attended.2 isSet pending)

theorem pending_attended_and_started_once_follow_up :
    ∃ ledger : TaskLedger Nat, exec step (create ⟨"host", "80"⟩ 1)
        [.addTask 0 false, .addTask 1 false, .resume 0, .connected 0 false, .resume 1,
          .finished 1 false] = some ledger ∧ ledger.taken = [0, 1] ∧ ledger.started = [0] ∧
      ledger.added.Perm (ledger.queue.taskHandlers ++ ledger.taken) ∧
      ledger.spawned.Perm (ledger.queue.unstarted ++ ledger.started) := by
  refine exists_exec_and ⟨_, rfl, rfl⟩ fun ledger executed _ => ?_
  obtain ⟨_, queued, _, started⟩ :=
    pending_attended_and_started_once _ (by decide) (run_of_exec executed)
  refine ⟨?_, queued, started⟩
  obtain rfl := Option.some.inj executed
  rfl

end TaskLedger

end Coroserver.Event
