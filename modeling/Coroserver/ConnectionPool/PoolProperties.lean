import Coroserver.ConnectionPool.LeaseProperties
import Coroserver.ConnectionPool.Pool

/-! What the counters of a host, the lease table and the suspended connects have to
do with each other. The quantities below are what the accounting results speak
about; the laws say how each part of a step changes them. -/

namespace Coroserver.ConnectionPool

open Tally

def Phase.connect? : Phase → Option (Nat × Nat)
  | .connecting client epoch => some (client, epoch)
  | _ => none

def AcquireTask.connects (test : EndpointKey → Nat → Nat → Bool) (task : AcquireTask) :
    Bool :=
  task.phase.connect?.any fun connect => test task.key connect.1 connect.2

namespace Pool

def connects (pool : Pool) (test : EndpointKey → Nat → Nat → Bool) : Nat :=
  pool.tasks.countP fun task => task.connects test

def connectsClient (pool : Pool) (client : Nat) : Nat :=
  pool.connects fun _ made _ => made == client

def idling (pool : Pool) (client : Nat) : Nat :=
  total (fun state : HostState => state.idle.countP fun entry => entry.client == client)
    pool.hosts

theorem activeCount_eq (pool : Pool) (key : EndpointKey) :
    pool.activeCount key = (pool.host key).activeCount := by
  cases found : pool.hosts.lookup key <;> simp [activeCount, host, found]

theorem idleCount_eq (pool : Pool) (key : EndpointKey) :
    pool.idleCount key = (pool.host key).idle.length := by
  cases found : pool.hosts.lookup key <;> simp [idleCount, host, found]

variable {pool middle next : Pool} {key : EndpointKey}

variable {state : HostState} {task active : Nat} {old : AcquireTask} {idle : List IdleEntry}

theorem host_of_lookup (found : pool.hosts.lookup key = some state) : pool.host key = state := by
  simp [host, found]

@[simp] theorem host_setHost_self (pool : Pool) (key : EndpointKey) (state : HostState) :
    (pool.setHost key state).host key = state := by
  simp [host, setHost]

theorem host_setHost_of_ne (pool : Pool) {other : EndpointKey} (differs : other ≠ key)
    (state : HostState) : (pool.setHost key state).host other = pool.host other := by
  simp [host, setHost, AList.lookup_insert_ne differs]

theorem idling_setHost (pool : Pool) (key : EndpointKey) (state : HostState) (client : Nat) :
    (pool.setHost key state).idling client +
        ((pool.host key).idle.countP fun entry => entry.client == client) =
      pool.idling client + state.idle.countP fun entry => entry.client == client := by
  have inserted := total_insert
    (fun state : HostState => state.idle.countP fun entry => entry.client == client) key state
    pool.hosts
  simp only [idling, setHost]
  cases found : pool.hosts.lookup key <;> simpa [host, found] using inserted

theorem idle_le_idling (pool : Pool) (key : EndpointKey) (client : Nat) :
    ((pool.host key).idle.countP fun entry => entry.client == client) ≤ pool.idling client := by
  cases found : pool.hosts.lookup key with
  | none => simp [host, found]
  | some state =>
    rw [host_of_lookup found]
    exact weight_le_total
      (fun state : HostState => state.idle.countP fun entry => entry.client == client) found

/-! ## Moves -/

structure SameBooks (pool next : Pool) : Prop where
  config : next.config = pool.config
  leases : next.leases = pool.leases
  nextClient : next.nextClient = pool.nextClient
  clears : next.clears = pool.clears
  active : ∀ key, (next.host key).activeCount = (pool.host key).activeCount
  idle : ∀ key, (next.host key).idle = (pool.host key).idle
  idling : ∀ client, next.idling client = pool.idling client
  connects : ∀ test, next.connects test = pool.connects test

theorem SameBooks.trans (first : pool.SameBooks middle) (second : middle.SameBooks next) :
    pool.SameBooks next where
  config := second.config.trans first.config
  leases := second.leases.trans first.leases
  nextClient := second.nextClient.trans first.nextClient
  clears := second.clears.trans first.clears
  active := fun key => (second.active key).trans (first.active key)
  idle := fun key => (second.idle key).trans (first.idle key)
  idling := fun client => (second.idling client).trans (first.idling client)
  connects := fun test => (second.connects test).trans (first.connects test)

theorem sameBooks_setHost (pool : Pool) (key : EndpointKey)
    (active : state.activeCount = (pool.host key).activeCount)
    (idle : state.idle = (pool.host key).idle) : pool.SameBooks (pool.setHost key state) := by
  refine ⟨rfl, rfl, rfl, rfl, fun other => ?_, fun other => ?_, fun client => ?_, fun _ => rfl⟩
  · by_cases same : other = key
    · simp [same, active]
    · rw [host_setHost_of_ne pool same]
  · by_cases same : other = key
    · simp [same, idle]
    · rw [host_setHost_of_ne pool same]
  · have moved := pool.idling_setHost key state client
    rw [idle] at moved
    omega

theorem sameBooks_tasks (pool : Pool) {tasks : List AcquireTask}
    (same : ∀ test, (tasks.countP fun task => task.connects test) = pool.connects test) :
    pool.SameBooks { pool with tasks } :=
  ⟨rfl, rfl, rfl, rfl, fun _ => rfl, fun _ => rfl, fun _ => rfl, same⟩

theorem connects_cancel (task : AcquireTask) (cancelled : Nat → Bool)
    (test : EndpointKey → Nat → Nat → Bool) :
    (task.cancel cancelled).connects test = task.connects test := by
  obtain ⟨key, now, phase⟩ := task
  cases phase with
  | waiting timer =>
    cases isCancelled : cancelled timer <;>
      simp [AcquireTask.cancel, AcquireTask.connects, Phase.connect?, isCancelled]
  | connecting | woken | returned => rfl

theorem sameBooks_cancel (pool : Pool) (cancelled : Nat → Bool) :
    pool.SameBooks { pool with tasks := pool.tasks.map (AcquireTask.cancel cancelled) } :=
  pool.sameBooks_tasks fun test =>
    countP_map_eq _ _ fun task => connects_cancel task cancelled test

theorem connects_setTask (found : pool.tasks[task]? = some old) (new : AcquireTask)
    (test : EndpointKey → Nat → Nat → Bool) :
    (pool.setTask task new).connects test + (old.connects test).toNat =
      pool.connects test + (new.connects test).toNat :=
  countP_set _ found new

theorem sameBooks_setTask {new : AcquireTask} (found : pool.tasks[task]? = some old)
    (same : ∀ test, new.connects test = old.connects test) :
    pool.SameBooks (pool.setTask task new) :=
  pool.sameBooks_tasks fun test => by
    have moved := connects_setTask found new test
    rw [same] at moved
    simp only [setTask, connects] at moved ⊢
    omega

theorem sameBooks_notifyWaiter (pool : Pool) (key : EndpointKey) :
    pool.SameBooks (pool.notifyWaiter key) := by
  have unchanged : pool.SameBooks pool := ⟨rfl, rfl, rfl, rfl, fun _ => rfl, fun _ => rfl,
    fun _ => rfl, fun _ => rfl⟩
  cases found : pool.hosts.lookup key with
  | none => simpa [notifyWaiter, found] using unchanged
  | some state =>
    cases waiting : state.waiters with
    | nil => simpa [notifyWaiter, found, waiting] using unchanged
    | cons timer rest =>
      have popped : pool.SameBooks (pool.setHost key { state with waiters := rest }) :=
        pool.sameBooks_setHost key (by rw [host_of_lookup found]) (by rw [host_of_lookup found])
      have cancelled := popped.trans (sameBooks_cancel _ (· == timer))
      simp only [notifyWaiter, found, waiting]
      exact ⟨cancelled.config, cancelled.leases, cancelled.nextClient, cancelled.clears,
        cancelled.active, cancelled.idle, cancelled.idling, cancelled.connects⟩

theorem extractIdleConnection_cases (config : ConnectionPoolConfig) (now : Int)
    (idle : List IdleEntry) :
    extractIdleConnection config now idle = (none, []) ∨
      ∃ dropped entry rest, idle = dropped ++ entry :: rest ∧
        extractIdleConnection config now idle = (some entry.client, rest) := by
  induction idle with
  | nil => exact .inl rfl
  | cons entry rest ih =>
    unfold extractIdleConnection
    split
    · exact .inr ⟨[], entry, rest, rfl, rfl⟩
    · rcases ih with exhausted | ⟨dropped, found, later, rfl, extracted⟩
      · exact .inl exhausted
      · exact .inr ⟨entry :: dropped, found, later, rfl, extracted⟩

inductive LoopOutcome (pool : Pool) (key : EndpointKey) (next : Pool) : Phase → Prop where
  | reused {dropped rest entry} (idle : (pool.host key).idle = dropped ++ entry :: rest)
      (result : next = (pool.setHost key { pool.host key with
        activeCount := (pool.host key).activeCount + 1, idle := rest }).issue key entry.client) :
      LoopOutcome pool key next (.returned none)
  | connects (free : (pool.host key).activeCount < pool.config.maxConnectionsPerHost)
      (result : next = { pool.setHost key { pool.host key with
        activeCount := (pool.host key).activeCount + 1, idle := [] } with
        nextClient := pool.nextClient + 1 }) :
      LoopOutcome pool key next (.connecting pool.nextClient pool.clears)
  | waits (full : pool.config.maxConnectionsPerHost ≤ (pool.host key).activeCount)
      (result : next = { pool.setHost key { pool.host key with
        idle := [], waiters := (pool.host key).waiters ++ [pool.nextTimer] } with
        nextTimer := pool.nextTimer + 1 }) :
      LoopOutcome pool key next
        (.waiting pool.nextTimer (pool.clock + ticks pool.config.acquireTimeout))

theorem acquireLoop_outcome (pool : Pool) (key : EndpointKey) (now : Int) :
    LoopOutcome pool key (pool.acquireLoop key now).1 (pool.acquireLoop key now).2 := by
  rcases extractIdleConnection_cases pool.config now (pool.host key).idle with
    exhausted | ⟨dropped, entry, rest, idle, extracted⟩
  · simp only [acquireLoop, exhausted]
    split
    · rename_i free
      exact .connects free rfl
    · rename_i full
      exact .waits (Nat.le_of_not_lt full) rfl
  · simp only [acquireLoop, extracted]
    exact .reused idle rfl

structure Rebooked (pool next : Pool) (key : EndpointKey) (newActive : Nat)
    (newIdle : List IdleEntry) : Prop where
  config : next.config = pool.config
  active : (next.host key).activeCount = newActive
  idle : (next.host key).idle = newIdle
  otherActive : ∀ other, other ≠ key → (next.host other).activeCount = (pool.host other).activeCount
  otherIdle : ∀ other, other ≠ key → (next.host other).idle = (pool.host other).idle
  idling : ∀ client, next.idling client +
      ((pool.host key).idle.countP fun entry => entry.client == client) =
    pool.idling client + newIdle.countP fun entry => entry.client == client

theorem rebooked_setHost (pool : Pool) (key : EndpointKey) (state : HostState) :
    pool.Rebooked (pool.setHost key state) key state.activeCount state.idle where
  config := rfl
  active := by simp
  idle := by simp
  otherActive := fun _ differs => by rw [host_setHost_of_ne pool differs]
  otherIdle := fun _ differs => by rw [host_setHost_of_ne pool differs]
  idling := pool.idling_setHost key state

theorem Rebooked.then (first : pool.Rebooked middle key active idle)
    (second : middle.SameBooks next) :
    pool.Rebooked next key active idle where
  config := second.config.trans first.config
  active := (second.active key).trans first.active
  idle := (second.idle key).trans first.idle
  otherActive := fun other differs => (second.active other).trans (first.otherActive other differs)
  otherIdle := fun other differs => (second.idle other).trans (first.otherIdle other differs)
  idling := fun client => by rw [second.idling, first.idling]

theorem Rebooked.congr (rebooked : pool.Rebooked middle key active idle)
    (config : next.config = middle.config) (hosts : next.hosts = middle.hosts) :
    pool.Rebooked next key active idle := by
  have sameHost : ∀ other, next.host other = middle.host other := by simp [host, hosts]
  refine ⟨config.trans rebooked.config, ?_, ?_, ?_, ?_, ?_⟩
  · rw [sameHost, rebooked.active]
  · rw [sameHost, rebooked.idle]
  · intro other differs
    rw [sameHost, rebooked.otherActive other differs]
  · intro other differs
    rw [sameHost, rebooked.otherIdle other differs]
  · intro client
    simpa only [Pool.idling, hosts] using rebooked.idling client

structure SameHosts (pool next : Pool) : Prop where
  config : next.config = pool.config
  hosts : next.hosts = pool.hosts
  nextClient : next.nextClient = pool.nextClient
  clears : next.clears = pool.clears

theorem SameHosts.host_eq (same : pool.SameHosts next) (key : EndpointKey) :
    next.host key = pool.host key := by
  simp [host, same.hosts]

theorem SameHosts.idling_eq (same : pool.SameHosts next) (client : Nat) :
    next.idling client = pool.idling client := by
  simp [idling, same.hosts]

end Pool

def GiveBack.reusable (given : GiveBack) (clock : Int) : List IdleEntry :=
  match given.valid, given.client with
  | true, some client => [⟨client, clock⟩]
  | _, _ => []

theorem GiveBack.countP_reusable (given : GiveBack) (clock : Int) (client : Nat) :
    ((given.reusable clock).countP fun entry => entry.client == client) =
      (LeaseTable.handsOver (some given) client).toNat := by
  obtain ⟨_, givenClient, valid, _⟩ := given
  cases valid with
  | false => cases givenClient <;> rfl
  | true =>
    cases givenClient with
    | none => rfl
    | some own =>
      cases same : own == client <;> simp [GiveBack.reusable, LeaseTable.handsOver, same]

def PoolEvent.internal : PoolEvent → Bool
  | .tick _ | .acquire _ | .timerExpired _ | .resume _ => true
  | .connected _ _ | .lease _ | .clear => false

theorem GiveBack.reusable_length_le (given : GiveBack) (clock : Int) :
    (given.reusable clock).length ≤ 1 := by
  obtain ⟨_, client, valid, _⟩ := given
  cases valid <;> cases client <;> simp [GiveBack.reusable]

namespace Pool

/-! ## Steps -/

inductive Books (pool next : Pool) : PoolEvent → Prop where
  | kept {event} (internal : event.internal = true) (same : pool.SameBooks next) :
      Books pool next event
  | reused {event key dropped rest entry} (internal : event.internal = true)
      (idle : (pool.host key).idle = dropped ++ entry :: rest)
      (hosts : pool.Rebooked next key ((pool.host key).activeCount + 1) rest)
      (leases : next.leases = pool.leases.issue key entry.client pool.clears)
      (connects : ∀ test, next.connects test = pool.connects test)
      (nextClient : next.nextClient = pool.nextClient) (clears : next.clears = pool.clears) :
      Books pool next event
  | opened {event key} (internal : event.internal = true)
      (free : (pool.host key).activeCount < pool.config.maxConnectionsPerHost)
      (hosts : pool.Rebooked next key ((pool.host key).activeCount + 1) [])
      (leases : next.leases = pool.leases)
      (connects : ∀ test, next.connects test =
        pool.connects test + (test key pool.nextClient pool.clears).toNat)
      (nextClient : next.nextClient = pool.nextClient + 1) (clears : next.clears = pool.clears) :
      Books pool next event
  | drained {event key} (internal : event.internal = true)
      (hosts : pool.Rebooked next key (pool.host key).activeCount [])
      (leases : next.leases = pool.leases)
      (connects : ∀ test, next.connects test = pool.connects test)
      (nextClient : next.nextClient = pool.nextClient) (clears : next.clears = pool.clears) :
      Books pool next event
  | established {task value client epoch} (found : pool.tasks[task]? = some value)
      (phase : value.phase = .connecting client epoch) (hosts : pool.SameHosts next)
      (leases : next.leases = pool.leases.issue value.key client pool.clears)
      (connects : ∀ test, next.connects test + (test value.key client epoch).toNat =
        pool.connects test) : Books pool next (.connected task none)
  | failed {task value client epoch ec} (found : pool.tasks[task]? = some value)
      (phase : value.phase = .connecting client epoch)
      (hosts : pool.Rebooked next value.key ((pool.host value.key).activeCount - 1)
        (pool.host value.key).idle) (leases : next.leases = pool.leases)
      (connects : ∀ test, next.connects test + (test value.key client epoch).toNat =
        pool.connects test) (nextClient : next.nextClient = pool.nextClient)
      (clears : next.clears = pool.clears) :
      Books pool next (.connected task (some ec))
  | handled {op given} (applied : pool.leases.apply op = some (next.leases, given))
      (unnoticed : ∀ giveBack, given = some giveBack → pool.hosts.lookup giveBack.key = none)
      (hosts : pool.SameHosts next) (connects : ∀ test, next.connects test = pool.connects test) :
      Books pool next (.lease op)
  | returned {op giveBack state}
      (applied : pool.leases.apply op = some (next.leases, some giveBack))
      (present : pool.hosts.lookup giveBack.key = some state)
      (hosts : pool.Rebooked next giveBack.key ((pool.host giveBack.key).activeCount - 1)
        (giveBack.reusable pool.clock ++ (pool.host giveBack.key).idle))
      (connects : ∀ test, next.connects test = pool.connects test)
      (nextClient : next.nextClient = pool.nextClient) (clears : next.clears = pool.clears) :
      Books pool next (.lease op)
  | cleared (config : next.config = pool.config) (leases : next.leases = pool.leases)
      (hosts : ∀ key, next.host key = {}) (idling : ∀ client, next.idling client = 0)
      (connects : ∀ test, next.connects test = pool.connects test)
      (nextClient : next.nextClient = pool.nextClient)
      (clears : next.clears = pool.clears + 1) : Books pool next .clear

variable {pool next : Pool} {event : PoolEvent}

variable {phase : Phase} {task : Nat} {value : AcquireTask}

theorem LoopOutcome.tasks_eq {key : EndpointKey} (outcome : LoopOutcome pool key next phase) :
    next.tasks = pool.tasks := by
  cases outcome with
  | reused _ result | connects _ result | waits _ result => rw [result]; rfl

theorem LoopOutcome.books {key : EndpointKey} (outcome : LoopOutcome pool key next phase)
    (now : Int) {tasks : List AcquireTask} (internal : event.internal = true)
    (counted : ∀ test, (tasks.countP fun task => task.connects test) =
      pool.connects test + (AcquireTask.connects test ⟨key, now, phase⟩).toNat) :
    Books pool { next with tasks } event := by
  cases outcome with
  | @reused _ rest _ idle result =>
    subst result
    have hosts := pool.rebooked_setHost key { pool.host key with
      activeCount := (pool.host key).activeCount + 1, idle := rest }
    exact .reused internal idle (hosts.congr rfl rfl) rfl counted rfl rfl
  | connects free result =>
    subst result
    have hosts := pool.rebooked_setHost key { pool.host key with
      activeCount := (pool.host key).activeCount + 1, idle := [] }
    exact .opened internal free (hosts.congr rfl rfl) rfl counted rfl rfl
  | waits full result =>
    subst result
    have hosts := pool.rebooked_setHost key { pool.host key with
      idle := [], waiters := (pool.host key).waiters ++ [pool.nextTimer] }
    exact .drained internal (hosts.congr rfl rfl) rfl counted rfl rfl

theorem connected_books {client : Nat} {epoch : Nat} (found : pool.tasks[task]? = some value)
    (phase : value.phase = .connecting client epoch) (ec : Option ErrorCode) :
    Books pool (pool.connected task value client ec) (.connected task ec) := by
  have counted : ∀ (result : Option ErrorCode) test,
      (pool.setTask task { value with phase := .returned result }).connects test +
        (test value.key client epoch).toNat = pool.connects test := by
    intro result test
    have moved := connects_setTask found { value with phase := .returned result } test
    simpa [AcquireTask.connects, phase, Phase.connect?] using moved
  cases ec with
  | none => exact .established found phase ⟨rfl, rfl, rfl, rfl⟩ rfl (counted none)
  | some error =>
    have notified := sameBooks_notifyWaiter
      ((pool.setTask task { value with phase := .returned (some error) }).setHost value.key
        { pool.host value.key with activeCount := (pool.host value.key).activeCount - 1 })
      value.key
    have hosts := (pool.setTask task { value with phase := .returned (some error) }
      ).rebooked_setHost value.key
        { pool.host value.key with activeCount := (pool.host value.key).activeCount - 1 }
    have rebooked := hosts.then notified
    refine .failed found phase ⟨rebooked.config, rebooked.active, rebooked.idle,
      rebooked.otherActive, rebooked.otherIdle, rebooked.idling⟩ notified.leases
      (fun test => ?_) notified.nextClient notified.clears
    rw [connected, notified.connects]
    exact counted (some error) test

theorem returnConnection_eq {given : GiveBack} {state : HostState}
    (present : pool.hosts.lookup given.key = some state) :
    pool.returnConnection given =
      (pool.setHost given.key
        { state with
          activeCount := state.activeCount - 1
          idle := given.reusable pool.clock ++ state.idle }).notifyWaiter given.key := by
  obtain ⟨_, client, valid, _⟩ := given
  cases valid <;> cases client <;> simp [returnConnection, present, GiveBack.reusable]

theorem lease_books {op : LeaseOp} {leases : LeaseTable} {giveBack : GiveBack}
    (applied : pool.leases.apply op = some (leases, some giveBack)) :
    Books pool (({ pool with leases } : Pool).returnConnection giveBack) (.lease op) := by
  cases present : pool.hosts.lookup giveBack.key with
  | none =>
    simp only [returnConnection, present]
    refine .handled applied ?_ ⟨rfl, rfl, rfl, rfl⟩ fun _ => rfl
    rintro _ ⟨⟩
    exact present
  | some state =>
    have found : ({ pool with leases } : Pool).hosts.lookup giveBack.key = some state := present
    rw [returnConnection_eq found]
    have notified := sameBooks_notifyWaiter (({ pool with leases } : Pool).setHost giveBack.key
      { state with
        activeCount := state.activeCount - 1
        idle := giveBack.reusable pool.clock ++ state.idle }) giveBack.key
    have hosts := (({ pool with leases } : Pool).rebooked_setHost giveBack.key { state with
        activeCount := state.activeCount - 1
        idle := giveBack.reusable pool.clock ++ state.idle }).then notified
    refine .returned (applied.trans ?_) present ?_ notified.connects notified.nextClient
      notified.clears
    · rw [notified.leases]
      rfl
    · rw [host_of_lookup present]
      exact ⟨hosts.config, hosts.active, hosts.idle, hosts.otherActive, hosts.otherIdle,
        hosts.idling⟩

theorem resumed_of_aborted (pool : Pool) (task : Nat) (value : AcquireTask) (timer : Nat) :
    pool.resumed task value timer true =
      { (pool.acquireLoop value.key value.now).1 with
        tasks := pool.tasks.set task
          ⟨value.key, value.now, (pool.acquireLoop value.key value.now).2⟩ } := by
  simp [resumed, setTask, (pool.acquireLoop_outcome value.key value.now).tasks_eq]

theorem resumed_books {timer : Nat} {aborted : Bool} (found : pool.tasks[task]? = some value)
    (phase : value.phase = .woken timer aborted) (internal : event.internal = true) :
    Books pool (pool.resumed task value timer aborted) event := by
  have notConnecting : ∀ test, value.connects test = false := by
    intro test
    simp [AcquireTask.connects, phase, Phase.connect?]
  cases aborted with
  | true =>
    have outcome := pool.acquireLoop_outcome value.key value.now
    rw [resumed_of_aborted]
    refine outcome.books value.now internal fun test => ?_
    have moved := connects_setTask found
      ⟨value.key, value.now, (pool.acquireLoop value.key value.now).2⟩ test
    rw [notConnecting] at moved
    exact moved
  | false =>
    have returns : pool.SameBooks
        (pool.setTask task { value with phase := .returned (some .timedOut) }) :=
      sameBooks_setTask found fun test => by
        rw [notConnecting]
        rfl
    have erased : pool.SameBooks ((pool.setTask task
        { value with phase := .returned (some .timedOut) }).setHost value.key
        { pool.host value.key with
          waiters := (pool.host value.key).waiters.filter (· != timer) }) :=
      returns.trans (sameBooks_setHost _ value.key rfl rfl)
    exact .kept internal ⟨erased.config, erased.leases, erased.nextClient, erased.clears,
      erased.active, erased.idle, erased.idling, erased.connects⟩

inductive Transition (pool : Pool) : PoolEvent → Pool → Prop where
  | tick (elapsed : Nat) :
      Transition pool (.tick elapsed) { pool with clock := pool.clock + elapsed }
  | acquire (key : EndpointKey) :
      Transition pool (.acquire key)
        { (pool.acquireLoop key pool.clock).1 with
          tasks := (pool.acquireLoop key pool.clock).1.tasks ++
            [⟨key, pool.clock, (pool.acquireLoop key pool.clock).2⟩] }
  | connected {task value client epoch} (ec : Option ErrorCode) :
      pool.tasks[task]? = some value → value.phase = .connecting client epoch →
      Transition pool (.connected task ec) (pool.connected task value client ec)
  | expired {task value timer expiry} :
      pool.tasks[task]? = some value → value.phase = .waiting timer expiry →
      Transition pool (.timerExpired task)
        (pool.setTask task { value with phase := .woken timer false })
  | resumed {task value timer aborted} :
      pool.tasks[task]? = some value → value.phase = .woken timer aborted →
      Transition pool (.resume task) (pool.resumed task value timer aborted)
  | handled {op leases} :
      pool.leases.apply op = some (leases, none) →
      Transition pool (.lease op) { pool with leases }
  | returned {op leases giveBack} :
      pool.leases.apply op = some (leases, some giveBack) →
      Transition pool (.lease op) (({ pool with leases } : Pool).returnConnection giveBack)
  | clear : Transition pool .clear pool.clear

theorem transition_of_step (stepped : pool.step event = some next) :
    pool.Transition event next := by
  revert stepped
  fun_cases Pool.step pool event
  all_goals rintro ⟨⟩
  case case1 elapsed => exact .tick elapsed
  case case2 key next phase passed =>
    have acquired : pool.Transition (.acquire key) _ := .acquire key
    rw [passed] at acquired
    exact acquired
  case case4 task ec value found client epoch phase => exact .connected ec found phase
  case case7 task value found timer expiry phase _ => exact .expired found phase
  case case11 task value found timer aborted phase => exact .resumed found phase
  case case14 op leases applied => exact .handled applied
  case case15 op leases giveBack applied => exact .returned applied
  case case16 => exact .clear

theorem step_books (stepped : pool.step event = some next) : Books pool next event := by
  cases transition_of_step stepped with
  | tick =>
    exact .kept rfl ⟨rfl, rfl, rfl, rfl, fun _ => rfl, fun _ => rfl, fun _ => rfl, fun _ => rfl⟩
  | acquire key =>
    have outcome := pool.acquireLoop_outcome key pool.clock
    refine outcome.books pool.clock rfl fun test => ?_
    rw [outcome.tasks_eq]
    exact countP_add _ _
  | connected ec found phase => exact connected_books found phase ec
  | expired found phase =>
    refine .kept rfl (sameBooks_setTask found fun test => ?_)
    simp [AcquireTask.connects, phase, Phase.connect?]
  | resumed found phase => exact resumed_books found phase rfl
  | handled applied => exact .handled applied (by simp) ⟨rfl, rfl, rfl, rfl⟩ fun _ => rfl
  | returned applied => exact lease_books applied
  | clear =>
    refine .cleared rfl rfl (fun key => ?_) (fun client => ?_) (fun test => ?_) rfl rfl
    · simp [host, Pool.clear]
    · simp [idling, Pool.clear, total]
    · exact countP_map_eq _ _ fun task => connects_cancel task _ test

end Pool

end Coroserver.ConnectionPool
