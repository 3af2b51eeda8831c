import Coroserver.Event.TaskQueueProperties
import Coroserver.Machine

/-! A `processTasks` that finds no client available connects a new one if there is room. But the
room is not checked again after the connect, and a client is released before the next `handleTask`
on it has acquired it. -/

namespace Coroserver.Event

open List Machine

variable {Task : Type}

namespace Coroutine

def client? : Coroutine Task → Option Nat
  | .processTasks (.connecting client _) | .processTasks (.reconnecting client _) => some client
  | .handleTask _ client _ => some client
  | _ => none

def uses (client : Nat) (coroutine : Coroutine Task) : Bool := coroutine.client? == some client

def connects : Coroutine Task → Bool
  | .processTasks (.connecting _ _) | .processTasks (.reconnecting _ _) => true
  | _ => false

def pending (client : Nat) : Coroutine Task → Bool
  | .handleTask _ own false => own == client
  | _ => false

def busy (client : Nat) (coroutine : Coroutine Task) : Bool :=
  coroutine.uses client && !coroutine.pending client

variable {coroutine : Coroutine Task}

private theorem uses_of_pending {client : Nat} (isPending : coroutine.pending client = true) :
    coroutine.uses client = true := by
  cases coroutine with
  | handleTask _ _ executing => cases executing <;> simp_all [pending, uses, client?]
  | processTasks | returned => simp [pending] at isPending

theorem uses_eq_pending_add_busy (client : Nat) (coroutine : Coroutine Task) :
    (coroutine.pending client).toNat + (coroutine.busy client).toNat =
      (coroutine.uses client).toNat := by
  cases isPending : coroutine.pending client with
  | false => simp [busy, isPending]
  | true => simp [busy, isPending, uses_of_pending isPending]

theorem uses_handleTask (task : Task) (own client : Nat) (executing : Bool) :
    (handleTask task own executing).uses client = (own == client) := by
  simp [uses, client?]

theorem uses_connecting (own i client : Nat) :
    (processTasks (.connecting own i) : Coroutine Task).uses client = (own == client) := by
  simp [uses, client?]

theorem uses_of_client {client : Nat} (own : coroutine.client? = some client) :
    coroutine.uses client = true := by
  simp [uses, own]

theorem not_uses_of_none (noClient : coroutine.client? = none) (client : Nat) :
    coroutine.uses client = false := by
  simp [uses, noClient]

theorem not_connects_of_none (noClient : coroutine.client? = none) :
    coroutine.connects = false := by
  unfold connects
  split
  · simp [client?] at noClient
  · simp [client?] at noClient
  · rfl

end Coroutine

open Coroutine

namespace TaskQueue

variable (queue : TaskQueue Task)

theorem count_uses (client : Nat) :
    queue.count (pending client) + queue.count (busy client) = queue.count (uses client) :=
  Tally.countP_add_eq _ _ _ _ (uses_eq_pending_add_busy client)

def starts : TaskQueueEvent Task → Bool
  | .resume coroutine =>
    match queue.coroutines[coroutine]? with
    | some (.processTasks .spawned) => queue.endPoint.isSet && !queue.taskHandlers.isEmpty
    | _ => false
  | _ => false

/-- No `handleTask` that has not started is about to use the free client, or
the room for another client also holds those that are being connected. -/
def safeToStart : Bool :=
  match queue.clients.find? Client.available with
  | some client => queue.count (pending client.id) == 0
  | none =>
    if queue.clients.length < queue.maxClients then
      decide (queue.clients.length + queue.count connects < queue.maxClients)
    else true

def Admitted (event : TaskQueueEvent Task) : Prop :=
  queue.starts event = true → queue.safeToStart = true
deriving Decidable

structure Sound (queue : TaskQueue Task) : Prop where
  fresh : ∀ client, queue.nextClient ≤ client → queue.count (uses client) = 0
  known : ∀ entry ∈ queue.clients, entry.id < queue.nextClient
  single : ∀ client, queue.count (uses client) ≤ 1
  free : ∀ entry ∈ queue.clients, entry.available = true → queue.count (busy entry.id) = 0
  bounded : queue.clients.length + queue.count connects ≤ queue.maxClients

theorem sound_create (endPoint : EndPoint) (maxConnections : Nat) :
    (create endPoint maxConnections : TaskQueue Task).Sound where
  fresh := fun _ _ => rfl
  known := by simp [create]
  single := fun _ => Nat.zero_le 1
  free := by simp [create]
  bounded := Nat.zero_le maxConnections

namespace Sound

variable {queue : TaskQueue Task}

variable {client index : Nat} {old : Coroutine Task}

theorem count_busy_eq_zero (unused : queue.count (uses client) = 0) :
    queue.count (busy client) = 0 := by
  have parts := queue.count_uses client
  omega

section

variable (sound : queue.Sound)

include sound

section

variable (present : queue.coroutines[index]? = some old)

include present

theorem lt_nextClient (own : old.client? = some client) : client < queue.nextClient := by
  have positive := count_pos present (uses_of_client own)
  by_contra beyond
  have unused := sound.fresh client (Nat.le_of_not_lt beyond)
  omega

theorem unused_after (own : old.client? = some client) (new : Coroutine Task)
    (leaves : new.client? = none) : (queue.setCoroutine index new).count (uses client) = 0 := by
  have moved := count_setCoroutine present new (uses client)
  have atMostOne := sound.single client
  simp only [uses_of_client own, not_uses_of_none leaves, Bool.toNat_true, Bool.toNat_false]
    at moved
  omega

theorem room_after (connecting : old.connects = true) (new : Coroutine Task)
    (leaves : new.client? = none) :
    queue.clients.length + (queue.setCoroutine index new).count connects < queue.maxClients := by
  have moved := count_setCoroutine present new connects
  have within := sound.bounded
  simp only [connecting, not_connects_of_none leaves, Bool.toNat_true, Bool.toNat_false] at moved
  omega

end

theorem withTasks (tasks : List Task) :
    ({ queue with taskHandlers := tasks } : TaskQueue Task).Sound :=
  ⟨sound.fresh, sound.known, sound.single, sound.free, sound.bounded⟩

theorem spawn_processTasks : (queue.spawn (.processTasks .spawned)).Sound := by
  have same : ∀ test : Coroutine Task → Bool, test (.processTasks .spawned) = false →
      (queue.spawn (.processTasks .spawned)).count test = queue.count test := by
    intro test unselected
    rw [count_spawn, unselected, Bool.toNat_false, Nat.add_zero]
  refine ⟨?_, sound.known, ?_, ?_, ?_⟩
  · intro client beyond
    rw [same (uses client) rfl]
    exact sound.fresh client beyond
  · intro client
    rw [same (uses client) rfl]
    exact sound.single client
  · intro entry present available
    rw [same (busy entry.id) rfl]
    exact sound.free entry present available
  · rw [same connects rfl]
    exact sound.bounded

theorem spawn_handleTask (task : Task) (unused : queue.count (uses client) = 0)
    (known : client < queue.nextClient) : (queue.spawn (.handleTask task client false)).Sound := by
  refine ⟨?_, sound.known, ?_, ?_, ?_⟩
  · intro other beyond
    have differs : (client == other) = false :=
      beq_false_of_ne (Nat.ne_of_lt (Nat.lt_of_lt_of_le known beyond))
    rw [count_spawn, uses_handleTask, differs, sound.fresh other beyond]
    rfl
  · intro other
    rw [count_spawn, uses_handleTask]
    cases same : client == other with
    | false => exact sound.single other
    | true =>
      obtain rfl : client = other := eq_of_beq same
      rw [unused]
      exact Nat.le_refl 1
  · intro entry present available
    have notBusy : (Coroutine.handleTask task client false).busy entry.id = false := by
      simp [busy, pending, uses_handleTask]
    rw [count_spawn, notBusy]
    exact sound.free entry present available
  · rw [count_spawn]
    exact sound.bounded

theorem replace {new : Coroutine Task} (present : queue.coroutines[index]? = some old)
    (keepsUse : ∀ client, new.uses client = true → old.uses client = true)
    (keepsBusy : ∀ client, new.busy client = true → old.busy client = true)
    (keepsConnects : new.connects = true → old.connects = true) :
    (queue.setCoroutine index new).Sound := by
  refine ⟨?_, sound.known, ?_, ?_, ?_⟩
  · intro client beyond
    have fewer := count_setCoroutine_le present (keepsUse client)
    have none := sound.fresh client beyond
    omega
  · intro client
    exact Nat.le_trans (count_setCoroutine_le present (keepsUse client)) (sound.single client)
  · intro entry inClients available
    have fewer := count_setCoroutine_le present (keepsBusy entry.id)
    have none := sound.free entry inClients available
    omega
  · have fewer := count_setCoroutine_le present keepsConnects
    exact Nat.le_trans (Nat.add_le_add_left fewer _) sound.bounded

theorem leave (present : queue.coroutines[index]? = some old) (new : Coroutine Task)
    (leaves : new.client? = none) : (queue.setCoroutine index new).Sound := by
  have unused := not_uses_of_none leaves
  refine sound.replace present ?_ ?_ ?_
  · intro client used
    simp [unused client] at used
  · intro client used
    simp [busy, unused client] at used
  · intro connecting
    simp [not_connects_of_none leaves] at connecting

theorem setClient {update : Client → Client} (sameId : ∀ entry, (update entry).id = entry.id)
    (allowed : ∀ entry ∈ queue.clients, entry.id = client → (update entry).available = true →
      queue.count (busy client) = 0) : (queue.setClient client update).Sound := by
  have inverted : ∀ entry ∈ (queue.setClient client update).clients, ∃ before ∈ queue.clients,
      entry = if before.id = client then update before else before := by
    intro entry present
    obtain ⟨before, wasPresent, rfl⟩ := mem_map.mp present
    exact ⟨before, wasPresent, rfl⟩
  refine ⟨sound.fresh, ?_, sound.single, ?_, ?_⟩
  · intro entry present
    obtain ⟨before, wasPresent, rfl⟩ := inverted entry present
    have known := sound.known before wasPresent
    split
    · rw [sameId]
      exact known
    · exact known
  · intro entry present available
    obtain ⟨before, wasPresent, rfl⟩ := inverted entry present
    by_cases same : before.id = client
    · rw [if_pos same] at available ⊢
      rw [sameId, same]
      exact allowed before wasPresent same available
    · rw [if_neg same] at available ⊢
      exact sound.free before wasPresent available
  · have sameLength : (queue.setClient client update).clients.length = queue.clients.length :=
      length_map _
    rw [sameLength]
    exact sound.bounded

theorem acquire (client : Nat) : (queue.acquire client).Sound :=
  sound.setClient (fun _ => rfl) (fun _ _ _ available => by cases available)

theorem release (idle : queue.count (busy client) = 0) : (queue.release client).Sound :=
  sound.setClient (fun _ => rfl) (fun _ _ _ _ => idle)

theorem removeClient (client : Nat) : (queue.removeClient client).Sound := by
  have kept : ∀ entry ∈ (queue.removeClient client).clients, entry ∈ queue.clients := by
    intro entry present
    exact mem_of_mem_filter (mem_of_mem_filter present)
  have fewer : (queue.removeClient client).clients.length ≤ queue.clients.length :=
    Nat.le_trans (length_filter_le _ _) (length_filter_le _ _)
  exact ⟨sound.fresh, fun entry present => sound.known entry (kept entry present), sound.single,
    fun entry present => sound.free entry (kept entry present),
    Nat.le_trans (Nat.add_le_add_right fewer _) sound.bounded⟩

theorem insertClient (known : client < queue.nextClient)
    (room : queue.clients.length + queue.count connects < queue.maxClients) :
    (queue.insertClient client).Sound := by
  refine ⟨sound.fresh, ?_, sound.single, ?_, ?_⟩
  · exact forall_mem_append.mpr ⟨sound.known, forall_mem_singleton.mpr known⟩
  · exact forall_mem_append.mpr ⟨sound.free, forall_mem_singleton.mpr nofun⟩
  · have longer : (queue.insertClient client).clients.length = queue.clients.length + 1 :=
      length_append
    have sameConnects : (queue.insertClient client).count connects = queue.count connects := rfl
    have sameBound : (queue.insertClient client).maxClients = queue.maxClients := rfl
    omega

theorem connect (present : queue.coroutines[index]? = some (.processTasks .spawned))
    (room : queue.clients.length + queue.count connects < queue.maxClients) :
    ({ queue.setCoroutine index (.processTasks (.connecting queue.nextClient 0)) with
      nextClient := queue.nextClient + 1 } : TaskQueue Task).Sound := by
  have used : ∀ client, (queue.setCoroutine index
      (.processTasks (.connecting queue.nextClient 0))).count (uses client) =
        queue.count (uses client) + (queue.nextClient == client).toNat := by
    intro client
    have moved := count_setCoroutine present (.processTasks (.connecting queue.nextClient 0))
      (uses client)
    rw [uses_connecting, not_uses_of_none rfl] at moved
    exact moved
  have elsewhere : ∀ client, client ≠ queue.nextClient → (queue.setCoroutine index
        (.processTasks (.connecting queue.nextClient 0))).count (uses client) =
          queue.count (uses client) := by
    intro client differs
    rw [used client, beq_false_of_ne differs.symm]
    rfl
  refine ⟨?_, ?_, ?_, ?_, ?_⟩
  · intro client beyond
    have larger : queue.nextClient < client := beyond
    have unused := sound.fresh client (Nat.le_of_lt larger)
    exact (elsewhere client (Nat.ne_of_gt larger)).trans unused
  · intro entry inClients
    exact Nat.lt_succ_of_lt (sound.known entry inClients)
  · intro client
    by_cases same : client = queue.nextClient
    · have unused := sound.fresh client (Nat.le_of_eq same.symm)
      have now := used client
      rw [unused, beq_iff_eq.mpr same.symm] at now
      exact Nat.le_of_eq now
    · exact (elsewhere client same).symm ▸ sound.single client
  · intro entry inClients available
    have before := sound.free entry inClients available
    have older := sound.known entry inClients
    have moved := count_setCoroutine present (.processTasks (.connecting queue.nextClient 0))
      (busy entry.id)
    have notBusy : (Coroutine.processTasks (.connecting queue.nextClient 0) :
        Coroutine Task).busy entry.id = false := by
      simp [busy, uses_connecting, Nat.ne_of_gt older]
    rw [notBusy, before] at moved
    exact Nat.eq_zero_of_add_eq_zero_right moved
  · have moved := count_setCoroutine present (.processTasks (.connecting queue.nextClient 0))
      connects
    have longer : (queue.setCoroutine index
        (.processTasks (.connecting queue.nextClient 0))).count connects =
          queue.count connects + 1 := moved
    have within : queue.clients.length + (queue.count connects + 1) ≤ queue.maxClients := room
    exact longer ▸ within

theorem start {task : Task}
    (present : queue.coroutines[index]? = some (.handleTask task client false)) :
    ((queue.setCoroutine index (.handleTask task client true)).acquire client).Sound := by
  have sameUses : ∀ other,
      (queue.setCoroutine index (.handleTask task client true)).count (uses other) =
        queue.count (uses other) := by
    intro other
    exact Nat.add_right_cancel (count_setCoroutine present (.handleTask task client true) _)
  refine ⟨?_, (sound.acquire client).known, ?_, ?_, ?_⟩
  · intro other beyond
    exact (sameUses other).trans (sound.fresh other beyond)
  · intro other
    exact Nat.le_trans (Nat.le_of_eq (sameUses other)) (sound.single other)
  · intro entry inClients available
    obtain ⟨before, wasPresent, rfl⟩ := mem_map.mp inClients
    by_cases same : before.id = client
    · rw [if_pos same] at available
      cases available
    · rw [if_neg same] at available ⊢
      have moved := count_setCoroutine present (.handleTask task client true) (busy before.id)
      have notBusy : (handleTask task client true).busy before.id = false := by
        simp [busy, uses_handleTask, Ne.symm same]
      rw [notBusy, sound.free before wasPresent available] at moved
      exact Nat.eq_zero_of_add_eq_zero_right moved
  · have sameConnects := count_setCoroutine present (.handleTask task client true) connects
    exact (Nat.add_right_cancel sameConnects) ▸ (sound.acquire client).bounded

theorem step {next : TaskQueue Task} {event : TaskQueueEvent Task} (admitted : queue.Admitted event)
    (stepped : queue.step event = some next) : next.Sound := by
  cases transition_of_step stepped with
  | setEndPoint endPoint =>
    have changed : ({ queue with endPoint } : TaskQueue Task).Sound :=
      ⟨sound.fresh, sound.known, sound.single, sound.free, sound.bounded⟩
    exact changed.spawn_processTasks
  | queued => exact sound.withTasks _
  | announced => exact (sound.withTasks _).spawn_processTasks
  | skipped present => exact sound.leave present .returned rfl
  | @assigned index client task others present isSet tasks found =>
    have safe : queue.count (pending client.id) = 0 := by
      have allowed := admitted (by simp [starts, present, isSet, tasks])
      simpa [safeToStart, found] using allowed
    have isAvailable : client.available = true := find?_some found
    have inClients := mem_of_find?_eq_some found
    have idle := sound.free client inClients isAvailable
    have left := sound.leave present .returned rfl
    have unused : (queue.setCoroutine index .returned).count (uses client.id) = 0 := by
      have moved := count_setCoroutine present .returned (uses client.id)
      rw [← queue.count_uses client.id, safe, idle] at moved
      exact moved
    exact ((left.acquire client.id).withTasks others).spawn_handleTask task unused
      (sound.known client inClients)
  | connect present isSet tasks found room =>
    refine sound.connect present ?_
    have allowed := admitted (by simp [starts, present, isSet, tasks])
    simpa [safeToStart, found, room] using allowed
  | full present => exact sound.leave present (.processTasks .retrying) rfl
  | refused present | reconnected present =>
    exact sound.replace present (fun _ used => used) (fun _ used => used) (fun _ => rfl)
  | abandoned present => exact sound.leave present (.processTasks .retrying) rfl
  | unneeded present =>
    have left := sound.leave present (.processTasks .retrying) rfl
    have known := sound.lt_nextClient present rfl
    have unused := sound.unused_after present rfl (.processTasks .retrying) rfl
    have room := sound.room_after present rfl (.processTasks .retrying) rfl
    exact (left.insertClient known room).release (count_busy_eq_zero unused)
  | established present =>
    have left := sound.leave present .returned rfl
    have known := sound.lt_nextClient present rfl
    have unused := sound.unused_after present rfl .returned rfl
    have room := sound.room_after present rfl .returned rfl
    exact ((left.insertClient known room).withTasks _).spawn_handleTask _ unused known
  | retried present =>
    have left := sound.leave present .returned rfl
    exact left.spawn_processTasks
  | started present => exact sound.start present
  | suspended present =>
    exact sound.replace present (fun _ used => used) (fun _ used => used) (fun used => used)
  | succeeded present =>
    have left := sound.leave present .returned rfl
    have unused := sound.unused_after present rfl .returned rfl
    exact left.release (count_busy_eq_zero unused)
  | continued present =>
    have left := sound.leave present .returned rfl
    have known := sound.lt_nextClient present rfl
    have unused := sound.unused_after present rfl .returned rfl
    have released := left.release (count_busy_eq_zero unused)
    exact (released.withTasks _).spawn_handleTask _ unused known
  | failed present =>
    have left := sound.leave present .returned rfl
    exact (left.removeClient _).spawn_processTasks
  | closed =>
    refine sound.setClient (fun _ => rfl) ?_
    intro entry present same available
    exact same ▸ sound.free entry present available

end

end Sound

def Exclusive : Prop :=
  ∀ (left right : Nat) (leftTask rightTask : Task) (client : Nat),
    queue.coroutines[left]? = some (.handleTask leftTask client true) →
    queue.coroutines[right]? = some (.handleTask rightTask client true) → left = right

theorem Sound.exclusive {queue : TaskQueue Task} (sound : queue.Sound) : queue.Exclusive := by
  intro _ _ _ _ client atLeft atRight
  exact Tally.index_eq_of_countP_le_one (uses client) (sound.single client) atLeft
    (uses_of_client rfl) atRight (uses_of_client rfl)

theorem maxClients_step {queue next : TaskQueue Task} {event : TaskQueueEvent Task}
    (stepped : queue.step event = some next) : next.maxClients = queue.maxClients := by
  cases transition_of_step stepped <;> rfl

/-- Runs that start no `processTasks` within these gaps keep the clients bounded and run one task
at a time on each. -/
theorem clients_bounded_and_exclusive (endPoint : EndPoint) (maxConnections : Nat)
    {events : List (TaskQueueEvent Task)} {queue : TaskQueue Task}
    (run : Run step Admitted (create endPoint maxConnections) events queue) :
    queue.clients.length ≤ maxConnections ∧ queue.Exclusive := by
  have sound : queue.Sound := run.preserves (sound_create endPoint maxConnections)
      fun _ _ _ before admitted stepped => before.step admitted stepped
  have sameMaximum : queue.maxClients = maxConnections :=
    run.preserves (by rfl) fun _ _ _ before _ stepped => (maxClients_step stepped).trans before
  have bounded := sound.bounded
  rw [sameMaximum] at bounded
  exact ⟨Nat.le_of_add_right_le bounded, sound.exclusive⟩

theorem clients_bounded_and_exclusive_with_follow_up :
    ∃ queue : TaskQueue Nat, exec step (create ⟨"host", "80"⟩ 1)
        [.addTask 0 false, .resume 0, .connected 0 false, .resume 1, .addTask 1 false,
          .addTask 2 true, .resume 2, .finished 1 false, .resume 3, .finished 3 false, .resume 4,
          .finished 4 true, .resume 5] = some queue ∧
      queue.clients.length ≤ 1 ∧ queue.Exclusive := by
  refine Exists.imp (fun queue run => ⟨run.exec_eq, clients_bounded_and_exclusive _ _ run⟩)
    (exists_run_of_within ?_)
  decide

/-- The first task fails while a `processTasks` waits to retry. The one that is
spawned for the failure and the one that retries both find room for a client,
and both of them connect. -/
theorem clients_beyond_maximum :
    ∃ queue : TaskQueue Nat, exec step (create ⟨"host", "80"⟩ 1)
        [.addTask 0 false, .resume 0, .connected 0 false, .resume 1, .addTask 1 false, .resume 2,
          .finished 1 true, .resume 3, .resume 2, .resume 4, .connected 3 false,
          .connected 4 false] = some queue ∧
      queue.maxClients = 1 ∧ (queue.clients.filter Client.isOpen).length = 2 :=
  ⟨_, rfl, rfl, rfl⟩

/-- A `processTasks` takes the client that the next `handleTask` is about to use. -/
example : (exec step (create ⟨"host", "80"⟩ 1)
    [.addTask 0 false, .resume 0, .connected 0 false, .resume 1, .addTask 1 false,
      .addTask 2 false, .finished 1 false, .resume 2, .resume 3, .resume 4]).map
        (fun queue : TaskQueue Nat => queue.coroutines.drop 3) =
      some [.handleTask 1 0 true, .handleTask 2 0 true] := rfl

end TaskQueue

end Coroserver.Event
