import Coroserver.ConnectionPool.Lease
import Coroserver.Machine
import Mathlib.Data.List.AList

/-! `ConnectionPool` on a single-threaded executor: an event is the segment of a
coroutine from one suspension point to the next, one lease operation or one timer that
expires. Connecting is the environment's: an event says how it ended. -/

namespace Coroserver.ConnectionPool

/-- Both timeouts are in seconds. -/
structure ConnectionPoolConfig where
  maxConnectionsPerHost : Nat := 5
  idleTimeout : Int := 30
  acquireTimeout : Int := 10

def ticks (seconds : Int) : Int := seconds * 1000000000

structure IdleEntry where
  client : Nat
  lastUsed : Int
deriving DecidableEq

/-- The back of the vector `idle` is the head of the list; the front of the
deque `waiters` is its head. -/
structure HostState where
  activeCount : Nat := 0
  idle : List IdleEntry := []
  waiters : List Nat := []

inductive ErrorCode where
  | timedOut
  | other (value : Nat)
deriving DecidableEq

/-- Where an `acquire` is: suspended in `connect`, suspended on its timer, with
the completion of that timer queued, or returned. The epoch of a connect counts
the calls of `clear` before it started. -/
inductive Phase where
  | connecting (client : Nat) (epoch : Nat)
  | waiting (timer : Nat) (expiry : Int)
  | woken (timer : Nat) (aborted : Bool)
  | returned (ec : Option ErrorCode)
deriving DecidableEq

structure AcquireTask where
  key : EndpointKey
  now : Int
  phase : Phase
deriving DecidableEq

/-- `cancel` queues the completion of a pending wait as aborted. A timer that
has expired already keeps its result. -/
def AcquireTask.cancel (cancelled : Nat → Bool) (task : AcquireTask) : AcquireTask :=
  match task.phase with
  | .waiting timer _ =>
    if cancelled timer then { task with phase := .woken timer true } else task
  | _ => task

structure Pool where
  config : ConnectionPoolConfig
  hosts : AList (fun _ : EndpointKey => HostState) := ∅
  leases : LeaseTable := {}
  tasks : List AcquireTask := []
  clock : Int := 0
  nextClient : Nat := 0
  nextTimer : Nat := 0
  /-- From here on a history that no operation reads. -/
  clears : Nat := 0
  notified : List Nat := []
  timedOut : List Nat := []

inductive PoolEvent where
  | tick (elapsed : Nat)
  | acquire (key : EndpointKey)
  | connected (task : Nat) (ec : Option ErrorCode)
  | timerExpired (task : Nat)
  | resume (task : Nat)
  | lease (op : LeaseOp)
  | clear
deriving DecidableEq

/-- Idle connections are tried from the most recent one; expired ones are dropped. -/
def extractIdleConnection (config : ConnectionPoolConfig) (now : Int) :
    List IdleEntry → Option Nat × List IdleEntry
  | [] => (none, [])
  | entry :: rest =>
    if now - entry.lastUsed ≤ ticks config.idleTimeout then (some entry.client, rest)
    else extractIdleConnection config now rest

namespace Pool

variable (pool : Pool) (key : EndpointKey)

def host : HostState := (pool.hosts.lookup key).getD {}

def setHost (state : HostState) : Pool :=
  { pool with hosts := pool.hosts.insert key state }

def setTask (task : Nat) (value : AcquireTask) : Pool :=
  { pool with tasks := pool.tasks.set task value }

def activeCount (pool : Pool) (key : EndpointKey) : Nat :=
  match pool.hosts.lookup key with
  | some state => state.activeCount
  | none => 0

def idleCount : Nat :=
  match pool.hosts.lookup key with
  | some state => state.idle.length
  | none => 0

def issue (pool : Pool) (key : EndpointKey) (client : Nat) : Pool :=
  { pool with leases := pool.leases.issue key client pool.clears }

/-- One pass of the loop in `acquire`, up to its next suspension or its return. -/
def acquireLoop (now : Int) : Pool × Phase :=
  let state := pool.host key
  match extractIdleConnection pool.config now state.idle with
  | (some client, idle) =>
    ((pool.setHost key { state with activeCount := state.activeCount + 1, idle }).issue key
      client, .returned none)
  | (none, idle) =>
    if state.activeCount < pool.config.maxConnectionsPerHost then
      ({ pool.setHost key { state with activeCount := state.activeCount + 1, idle } with
        nextClient := pool.nextClient + 1 }, .connecting pool.nextClient pool.clears)
    else
      ({ pool.setHost key { state with idle, waiters := state.waiters ++ [pool.nextTimer] } with
        nextTimer := pool.nextTimer + 1 },
        .waiting pool.nextTimer (pool.clock + ticks pool.config.acquireTimeout))

def notifyWaiter : Pool :=
  match pool.hosts.lookup key with
  | none => pool
  | some state =>
    match state.waiters with
    | [] => pool
    | timer :: rest =>
      { pool.setHost key { state with waiters := rest } with
        tasks := pool.tasks.map (AcquireTask.cancel (· == timer))
        notified := pool.notified ++ [timer] }

def returnConnection (given : GiveBack) : Pool :=
  match pool.hosts.lookup given.key with
  | none => pool
  | some state =>
    let idle := match given.valid, given.client with
      | true, some client => ⟨client, pool.clock⟩ :: state.idle
      | _, _ => state.idle
    (pool.setHost given.key
      { state with activeCount := state.activeCount - 1, idle }).notifyWaiter given.key

/-- The rest of `createNewConnection` and of `acquire` once the connect is over. -/
def connected (task : Nat) (value : AcquireTask) (client : Nat) : Option ErrorCode → Pool
  | none => (pool.setTask task { value with phase := .returned none }).issue value.key client
  | some ec =>
    let state := pool.host value.key
    ((pool.setTask task { value with phase := .returned (some ec) }).setHost value.key
      { state with activeCount := state.activeCount - 1 }).notifyWaiter value.key

/-- The rest of `waitForAvailableSlot`, and the next pass of the loop if the
wait was aborted. -/
def resumed (task : Nat) (value : AcquireTask) (timer : Nat) : Bool → Pool
  | true =>
    let (next, phase) := pool.acquireLoop value.key value.now
    next.setTask task { value with phase }
  | false =>
    let state := pool.host value.key
    { (pool.setTask task { value with phase := .returned (some .timedOut) }).setHost value.key
        { state with waiters := state.waiters.filter (· != timer) } with
      timedOut := pool.timedOut ++ [timer] }

def clear : Pool :=
  let cancelled := pool.hosts.entries.flatMap fun entry => entry.2.waiters
  { pool with
    hosts := ∅
    tasks := pool.tasks.map (AcquireTask.cancel (cancelled.contains ·))
    clears := pool.clears + 1 }

def step : PoolEvent → Option Pool
  | .tick elapsed => some { pool with clock := pool.clock + elapsed }
  | .acquire key =>
    let (next, phase) := pool.acquireLoop key pool.clock
    some { next with tasks := next.tasks ++ [⟨key, pool.clock, phase⟩] }
  | .connected task ec =>
    match pool.tasks[task]? with
    | none => none
    | some value =>
      match value.phase with
      | .connecting client _ => some (pool.connected task value client ec)
      | _ => none
  | .timerExpired task =>
    match pool.tasks[task]? with
    | none => none
    | some value =>
      match value.phase with
      | .waiting timer expiry =>
        if expiry ≤ pool.clock then
          some (pool.setTask task { value with phase := .woken timer false })
        else none
      | _ => none
  | .resume task =>
    match pool.tasks[task]? with
    | none => none
    | some value =>
      match value.phase with
      | .woken timer aborted => some (pool.resumed task value timer aborted)
      | _ => none
  | .lease op =>
    match pool.leases.apply op with
    | none => none
    | some (leases, given) =>
      match given with
      | none => some { pool with leases }
      | some giveBack => some (({ pool with leases } : Pool).returnConnection giveBack)
  | .clear => some pool.clear

def create (config : ConnectionPoolConfig) : Pool := { config }

end Pool

end Coroserver.ConnectionPool
