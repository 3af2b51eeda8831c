import Coroserver.Machine
import Mathlib.Data.List.Perm.Basic

/-! `WorkerPool` and `asyncCall` of `worker.hpp`. The threads are alike, so the pool
counts how many are at each point of `run`; they interleave between their accesses to
the mutex, the condition variable and the stop token. `addTask` holds the mutex
throughout; the destructor does not take it. A task is ended by the environment,
without a value if it throws. -/

namespace Coroserver.Async

variable {Call Value : Type} [DecidableEq Call]

/-- How many threads are before the test of the loop, before the mutex, in `wait` with
the mutex, asleep, past `wait` with the mutex, in a task, and gone. The calls that
were added and started are recorded. -/
structure WorkerPool (Call Value : Type) where
  looping : Nat
  locking : Nat := 0
  blocking : Nat := 0
  waiting : Nat := 0
  taking : Nat := 0
  running : List Call := []
  returned : Nat := 0
  taskQueue : List Call := []
  stopRequested : Bool := false
  posted : List (Call × Option Value) := []
  completed : List (Call × Option Value) := []
  added : List Call := []
  started : List Call := []

/-- The destructor makes the last two. -/
inductive WorkerEvent (Call Value : Type) where
  | asyncCall (call : Call)
  | loop
  | lock
  | block
  | wakeSpuriously
  | take
  | ended (call : Call) (value : Option Value)
  | complete
  | requestStop
  | notifyAll

namespace WorkerPool

def create (threads : Nat) : WorkerPool Call Value := { looping := threads }

variable (pool : WorkerPool Call Value)

def locked : Bool := 0 < pool.blocking + pool.taking

def notifyAll : WorkerPool Call Value :=
  { pool with waiting := 0, locking := pool.locking + pool.waiting }

def step : WorkerEvent Call Value → Option (WorkerPool Call Value)
  | .asyncCall call =>
    if pool.locked then none
    else some { pool.notifyAll with
      taskQueue := pool.taskQueue ++ [call]
      added := pool.added ++ [call] }
  | .loop =>
    if pool.looping = 0 then none
    else if pool.stopRequested then
      some { pool with looping := pool.looping - 1, returned := pool.returned + 1 }
    else some { pool with looping := pool.looping - 1, locking := pool.locking + 1 }
  | .lock =>
    if pool.locking = 0 || pool.locked then none
    else if !pool.taskQueue.isEmpty || pool.stopRequested then
      some { pool with locking := pool.locking - 1, taking := pool.taking + 1 }
    else some { pool with locking := pool.locking - 1, blocking := pool.blocking + 1 }
  | .block =>
    if pool.blocking = 0 then none
    else some { pool with blocking := pool.blocking - 1, waiting := pool.waiting + 1 }
  | .wakeSpuriously =>
    if pool.waiting = 0 then none
    else some { pool with waiting := pool.waiting - 1, locking := pool.locking + 1 }
  | .take =>
    if pool.taking = 0 then none
    else if pool.stopRequested then
      some { pool with taking := pool.taking - 1, returned := pool.returned + 1 }
    else
      match pool.taskQueue with
      | [] => none
      | call :: rest => some { pool with
          taking := pool.taking - 1
          running := call :: pool.running
          taskQueue := rest
          started := pool.started ++ [call] }
  | .ended call value =>
    if call ∈ pool.running then
      some { pool with
        running := pool.running.erase call
        looping := pool.looping + 1
        posted := pool.posted ++ [(call, value)] }
    else none
  | .complete =>
    match pool.posted with
    | [] => none
    | result :: rest => some { pool with posted := rest, completed := pool.completed ++ [result] }
  | .requestStop => some { pool with stopRequested := true }
  | .notifyAll => some pool.notifyAll

structure Sound (threads : Nat) : Prop where
  threads : pool.looping + pool.locking + pool.blocking + pool.waiting + pool.taking +
    pool.running.length + pool.returned = threads
  exclusive : pool.blocking + pool.taking ≤ 1
  asleep : 0 < pool.blocking + pool.waiting → pool.taskQueue = []
  ready : 0 < pool.taking → pool.taskQueue = [] → pool.stopRequested = true
  gone : 0 < pool.returned → pool.stopRequested = true
  inOrder : pool.added = pool.started ++ pool.taskQueue
  once : pool.started.Perm (pool.running ++ (pool.completed ++ pool.posted).map Prod.fst)

variable {pool next final : WorkerPool Call Value} {threads : Nat}
  {event : WorkerEvent Call Value} {events : List (WorkerEvent Call Value)}

theorem Sound.step (sound : pool.Sound threads) (stepped : pool.step event = some next) :
    next.Sound threads := by
  obtain ⟨_, _⟩ := sound
  revert stepped
  fun_cases WorkerPool.step pool event
  all_goals rintro ⟨⟩
  case case2 call unlocked =>
    have free : pool.blocking + pool.taking = 0 := by simpa [locked] using unlocked
    constructor <;> grind [notifyAll]
  case case16 call rest queued =>
    have alone : pool.taking - 1 = 0 := by omega
    constructor <;> grind
  case case17 call value present =>
    have split := List.perm_cons_erase present
    constructor <;> grind
  all_goals constructor <;> first | assumption | grind [notifyAll, locked]

theorem sound_of_run (run : Machine.Run step Machine.anyStep (create threads) events pool) :
    pool.Sound threads :=
  run.preserves (by constructor <;> simp [create]) fun _ _ _ sound _ => Sound.step sound

/-- The calls are started in the order in which they are made, and each of them once:
it is running, or its result is posted or set. -/
theorem calls_started_in_order_once
    (run : Machine.Run step Machine.anyStep (create threads) events pool) :
    pool.added = pool.started ++ pool.taskQueue ∧
      pool.started.Perm (pool.running ++ (pool.completed ++ pool.posted).map Prod.fst) :=
  ⟨(sound_of_run run).inOrder, (sound_of_run run).once⟩

def oneCall : List (WorkerEvent Nat Unit) :=
  [.asyncCall 0, .loop, .lock, .take, .ended 0 none, .complete, .loop, .lock, .block]

theorem oneCall_started : ∃ pool, Machine.exec step (create 1) oneCall = some pool ∧
    [0] = [0] ++ pool.taskQueue ∧ [0].Perm (pool.running ++ [0]) :=
  ⟨_, rfl, calls_started_in_order_once
    (Machine.run_of_exec (rfl : Machine.exec step (create 1) oneCall = some _))⟩

def Settled (pool : WorkerPool Call Value) : Prop :=
  pool.running = [] ∧ ∀ event ∈ [.loop, .lock, .block, .take, .complete], pool.step event = none

theorem Sound.settled (sound : pool.Sound threads) (settled : pool.Settled) :
    pool.waiting + pool.returned = threads ∧ pool.blocking = 0 ∧ pool.posted = [] := by
  obtain ⟨idle, stuck⟩ := settled
  simp only [List.forall_mem_cons] at stuck
  obtain ⟨_, _, _, _, _, -⟩ := stuck
  have total := sound.threads
  have ready := sound.ready
  grind [WorkerPool.step, locked]

/-- No wake-up is lost: if no thread and no posted handler can go on, and no task runs,
every call has been completed. -/
theorem calls_completed (positive : 0 < threads)
    (run : Machine.Run step Machine.anyStep (create threads) events pool)
    (settled : pool.Settled) (unstopped : pool.stopRequested = false) :
    (pool.completed.map Prod.fst).Perm pool.added := by
  have sound := sound_of_run run
  obtain ⟨total, -, delivered⟩ := sound.settled settled
  have asleep : 0 < pool.waiting := by
    have gone := sound.gone
    grind
  have once := sound.once
  rw [settled.1, delivered] at once
  rw [sound.inOrder, sound.asleep (by omega)]
  simpa using once.symm

theorem oneCall_completed : ∃ pool, Machine.exec step (create 1) oneCall = some pool ∧
    (pool.completed.map Prod.fst).Perm [0] :=
  ⟨_, rfl, calls_completed Nat.one_pos
    (Machine.run_of_exec (rfl : Machine.exec step (create 1) oneCall = some _))
    ⟨rfl, by simp [step, create, notifyAll, locked]⟩ rfl⟩

/-- What the threads, their tasks and the posted handlers do. -/
def Closing : WorkerEvent Call Value → Prop
  | .loop | .lock | .block | .take | .ended _ _ | .complete => True
  | .asyncCall _ | .wakeSpuriously | .requestStop | .notifyAll => False

def Stopping (pool : WorkerPool Call Value) (threads asleep : Nat) : Prop :=
  pool.Sound threads ∧ pool.stopRequested = true ∧ pool.blocking + pool.waiting = asleep

/-- How many steps are left once the stop is requested. -/
def stepsLeft (pool : WorkerPool Call Value) : Nat :=
  pool.looping + 2 * pool.locking + pool.blocking + pool.taking + 3 * pool.running.length +
    pool.posted.length

theorem Stopping.step {asleep : Nat} (stopping : pool.Stopping threads asleep)
    (closing : Closing event) (stepped : pool.step event = some next) :
    next.Stopping threads asleep ∧ next.stepsLeft < pool.stepsLeft := by
  obtain ⟨sound, _⟩ := stopping
  refine ⟨⟨sound.step stepped, ?_⟩, ?_⟩
  all_goals cases event <;> grind [WorkerPool.step, Closing, stepsLeft]

private theorem settled_of_stuck (stuck : ∀ event, Closing event → pool.step event = none) :
    pool.Settled := by
  refine ⟨List.eq_nil_iff_forall_not_mem.mpr fun call present => ?_, ?_⟩
  · have ends := stuck (.ended call none) trivial
    simp [step, present] at ends
  · intro event member
    refine stuck event ?_
    simp only [List.mem_cons, List.not_mem_nil, or_false] at member
    rcases member with rfl | rfl | rfl | rfl | rfl <;> trivial

/-- After the destructor the threads take only so many steps, and all of them return but
the one, if any, that had found the predicate false and was not yet asleep when the
destructor called `notify_all`. -/
theorem threads_return_but_one {closing : List (WorkerEvent Call Value)}
    (run : Machine.Run step Machine.anyStep (create threads) events pool)
    (stopped : pool.stopRequested = true)
    (closed : Machine.Run step (fun _ => Closing) pool.notifyAll closing final) :
    closing.length ≤ 3 * threads + pool.posted.length ∧ pool.blocking ≤ 1 ∧
      ((∀ event, Closing event → final.step event = none) →
        final.returned + pool.blocking = threads) := by
  have sound := sound_of_run run
  have start : pool.notifyAll.Stopping threads pool.blocking :=
    ⟨sound.step (show pool.step .notifyAll = _ from rfl), stopped, rfl⟩
  have bounded := closed.length_le start fun _ _ _ => Stopping.step
  have kept : final.Stopping threads pool.blocking := closed.preserves start
    fun _ _ _ stopping closing stepped => (Stopping.step stopping closing stepped).1
  have total := sound.threads
  refine ⟨?_, by grind [sound.exclusive], fun stuck => ?_⟩
  · simp only [stepsLeft, notifyAll] at bounded
    omega
  · obtain ⟨_, _, -⟩ := kept.1.settled (settled_of_stuck stuck)
    have sleeping := kept.2.2
    omega

theorem last_thread_sleeps : ∃ pool final : WorkerPool Nat Unit,
    Machine.exec step pool.notifyAll [.block] = some final ∧
      1 ≤ 3 * 1 + pool.posted.length ∧ pool.blocking ≤ 1 ∧ final.returned + pool.blocking = 1 := by
  have run := Machine.run_of_exec
    (rfl : Machine.exec step (create 1 : WorkerPool Nat Unit) [.loop, .lock, .requestStop] = some _)
  obtain ⟨steps, alone, returned⟩ := threads_return_but_one run rfl
    (.next (show Closing .block from trivial) rfl .done)
  refine ⟨_, _, rfl, steps, alone, returned ?_⟩
  intro event closing
  cases event <;> simp_all [Closing, step, create, notifyAll, locked]

end WorkerPool

end Coroserver.Async
