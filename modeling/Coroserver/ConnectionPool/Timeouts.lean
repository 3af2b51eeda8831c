import Coroserver.ConnectionPool.Wakeup

/-! `acquire` reads the clock once, before its loop, and every pass of the loop
starts a wait of its own. So after a wait idle connections are judged by an old
reading of the clock, and an acquire that has to queue again waits longer than
its timeout. -/

namespace Coroserver.ConnectionPool

open List Machine

def PoolEvent.elapsed : PoolEvent → Nat
  | .tick elapsed => elapsed
  | _ => 0

theorem AcquireTask.cancel_none (task : AcquireTask) : task.cancel (fun _ => false) = task := by
  obtain ⟨key, now, phase⟩ := task
  cases phase <;> rfl

def AcquireTask.sleepsUntil (time : Int) (task : AcquireTask) : Bool :=
  match task.phase with
  | .waiting _ expiry => decide (time ≤ expiry)
  | .woken _ _ => false
  | .connecting _ _ | .returned _ => true

namespace Pool

theorem clock_notifyWaiter (pool : Pool) (key : EndpointKey) :
    (pool.notifyWaiter key).clock = pool.clock := by
  unfold notifyWaiter
  split
  · rfl
  · split <;> rfl

variable {pool next : Pool} {event : PoolEvent} {now : Int} {config : ConnectionPoolConfig}

theorem LoopOutcome.clock_eq {key : EndpointKey} {phase : Phase}
    (outcome : LoopOutcome pool key next phase) : next.clock = pool.clock := by
  cases outcome with
  | reused _ result | connects _ result | waits _ result => rw [result]; rfl

open AcquireTask

theorem tasks_notifyWaiter (pool : Pool) (key : EndpointKey) :
    ∃ cancelled, (pool.notifyWaiter key).tasks = pool.tasks.map (cancel cancelled) := by
  have none : pool.tasks.map (cancel fun _ => false) = pool.tasks :=
    map_id'' cancel_none pool.tasks
  unfold notifyWaiter
  split
  · exact ⟨_, none.symm⟩
  · split
    · exact ⟨_, none.symm⟩
    · exact ⟨_, rfl⟩

inductive TaskStep (pool : Pool) : PoolEvent → AcquireTask → Prop where
  | kept {event task} :
      task ∈ pool.tasks → TaskStep pool event task
  | woken {event old timer expiry aborted} :
      old ∈ pool.tasks → old.phase = .waiting timer expiry → event.elapsed = 0 →
      TaskStep pool event { old with phase := .woken timer aborted }
  | settled {event old} (ec : Option ErrorCode) :
      old ∈ pool.tasks → event.elapsed = 0 →
      TaskStep pool event { old with phase := .returned ec }
  | started (key : EndpointKey) :
      TaskStep pool (.acquire key) ⟨key, pool.clock, (pool.acquireLoop key pool.clock).2⟩
  | resumed {task value timer} :
      pool.tasks[task]? = some value → value.phase = .woken timer true →
      TaskStep pool (.resume task)
        { value with phase := (pool.acquireLoop value.key value.now).2 }

theorem TaskStep.cancelled {pool : Pool} {event : PoolEvent} (immediate : event.elapsed = 0)
    (cancelled : Nat → Bool) {old : AcquireTask}
    (before : old ∈ pool.tasks ∨ ∃ ec former, former ∈ pool.tasks ∧
      old = { former with phase := .returned ec }) :
    TaskStep pool event (old.cancel cancelled) := by
  rcases before with present | ⟨ec, former, present, rfl⟩
  · unfold cancel
    split
    · rename_i waiting
      split
      · exact .woken present waiting immediate
      · exact .kept present
    · exact .kept present
  · exact .settled ec present immediate

theorem step_clock_and_tasks (stepped : pool.step event = some next) :
    next.clock = pool.clock + event.elapsed ∧ ∀ task ∈ next.tasks, TaskStep pool event task := by
  have unchanged : pool.clock = pool.clock + (0 : Nat) := (Int.add_zero _).symm
  cases transition_of_step stepped with
  | tick => exact ⟨rfl, fun _ member => .kept member⟩
  | acquire key =>
    have outcome := pool.acquireLoop_outcome key pool.clock
    refine ⟨outcome.clock_eq.trans unchanged, fun task member => ?_⟩
    rcases mem_append.mp member with old | new
    · exact .kept (outcome.tasks_eq ▸ old)
    · exact mem_singleton.mp new ▸ .started key
  | @connected task value _ _ ec found phase =>
    have settled : ∀ ec, ∀ other ∈ pool.tasks.set task { value with phase := .returned ec },
        other ∈ pool.tasks ∨ ∃ ec former, former ∈ pool.tasks ∧
          other = { former with phase := .returned ec } := by
      intro ec other member
      rcases mem_or_eq_of_mem_set member with old | rfl
      · exact .inl old
      · exact .inr ⟨ec, value, mem_of_getElem? found, rfl⟩
    cases ec with
    | none =>
      refine ⟨unchanged, fun other member => ?_⟩
      rw [← cancel_none other]
      exact .cancelled rfl _ (settled none other member)
    | some error =>
      refine ⟨(clock_notifyWaiter _ _).trans unchanged, fun other member => ?_⟩
      obtain ⟨cancelled, tasks⟩ := tasks_notifyWaiter
        ((pool.setTask task { value with phase := .returned (some error) }).setHost
          value.key { pool.host value.key with
            activeCount := (pool.host value.key).activeCount - 1 }) value.key
      rw [connected, tasks] at member
      obtain ⟨old, before, rfl⟩ := mem_map.mp member
      exact .cancelled rfl cancelled (settled (some error) old before)
  | expired found phase =>
    refine ⟨unchanged, fun other member => ?_⟩
    rcases mem_or_eq_of_mem_set member with old | rfl
    · exact .kept old
    · exact .woken (mem_of_getElem? found) phase rfl
  | @resumed task value timer aborted found phase =>
    cases aborted with
    | true =>
      have outcome := pool.acquireLoop_outcome value.key value.now
      refine ⟨outcome.clock_eq.trans unchanged, fun other member => ?_⟩
      simp only [resumed, setTask, outcome.tasks_eq] at member
      rcases mem_or_eq_of_mem_set member with old | rfl
      · exact .kept old
      · exact .resumed found phase
    | false =>
      refine ⟨unchanged, fun other member => ?_⟩
      rcases mem_or_eq_of_mem_set member with old | rfl
      · exact .kept old
      · exact .settled _ (mem_of_getElem? found) rfl
  | handled => exact ⟨unchanged, fun _ member => .kept member⟩
  | @returned _ _ giveBack =>
    unfold returnConnection
    split
    · exact ⟨unchanged, fun _ member => .kept member⟩
    · refine ⟨(clock_notifyWaiter _ _).trans unchanged, fun other member => ?_⟩
      obtain ⟨cancelled, tasks⟩ := tasks_notifyWaiter _ giveBack.key
      rw [tasks] at member
      obtain ⟨old, before, rfl⟩ := mem_map.mp member
      exact .cancelled rfl cancelled (.inl before)
  | clear =>
    refine ⟨unchanged, fun other member => ?_⟩
    obtain ⟨old, before, rfl⟩ := mem_map.mp member
    exact .cancelled rfl _ (.inl before)

/-! ## Idle connections -/

/-- A step that takes an idle connection off its host, with those before it, and issues
a lease on it. -/
def HandsOut (pool next : Pool) (entry : IdleEntry) : Prop :=
  ∃ key dropped, (pool.host key).idle = dropped ++ entry :: (next.host key).idle ∧
    next.leases = pool.leases.issue key entry.client pool.clears

/-- Whenever an acquire that was told of a connection goes on, the connection that was
returned last to its host has not expired, or had expired when acquire was called. -/
def readingHolds (pool : Pool) : PoolEvent → Bool
  | .resume task =>
    match pool.tasks[task]? with
    | some ⟨key, now, .woken _ true⟩ =>
      (pool.host key).idle.head?.all fun last =>
        pool.clock - last.lastUsed ≤ ticks pool.config.idleTimeout ||
          ticks pool.config.idleTimeout < now - last.lastUsed
    | _ => true
  | _ => true

/-- No reading of the clock is ahead of it, and the idle connections of a host stand in
the order of their return, the last one first. -/
structure Timely (config : ConnectionPoolConfig) (pool : Pool) : Prop where
  sameConfig : pool.config = config
  readings : ∀ task ∈ pool.tasks, task.now ≤ pool.clock
  returns : ∀ key, ∀ entry ∈ (pool.host key).idle, entry.lastUsed ≤ pool.clock
  ordered : ∀ key,
    (pool.host key).idle.Pairwise fun newer older => older.lastUsed ≤ newer.lastUsed

private theorem idle_step (stepped : pool.step event = some next) (key : EndpointKey) :
    (next.host key).idle <:+ (pool.host key).idle ∨
      ∃ client, (next.host key).idle = ⟨client, pool.clock⟩ :: (pool.host key).idle := by
  have rebooked : ∀ {host active idle}, pool.Rebooked next host active idle →
      idle <:+ (pool.host host).idle → (next.host key).idle <:+ (pool.host key).idle := by
    intro host active idle hosts kept
    by_cases same : key = host
    · rw [same, hosts.idle]
      exact kept
    · exact hosts.otherIdle key same ▸ suffix_rfl
  cases step_books stepped with
  | kept _ same => exact .inl (same.idle key ▸ suffix_rfl)
  | @reused _ _ dropped _ entry _ idle hosts =>
    refine .inl (rebooked hosts ⟨dropped ++ [entry], ?_⟩)
    rw [idle, append_assoc, singleton_append]
  | opened _ _ hosts | drained _ hosts => exact .inl (rebooked hosts nil_suffix)
  | failed _ _ hosts => exact .inl (rebooked hosts suffix_rfl)
  | established _ _ hosts | handled _ _ hosts => exact .inl (hosts.host_eq key ▸ suffix_rfl)
  | @returned _ giveBack _ _ _ hosts =>
    by_cases same : key = giveBack.key
    · subst same
      rw [hosts.idle]
      unfold GiveBack.reusable
      split
      · exact .inr ⟨_, rfl⟩
      · exact .inl suffix_rfl
    · exact .inl (hosts.otherIdle key same ▸ suffix_rfl)
  | cleared _ _ hosts => exact .inl (hosts key ▸ nil_suffix)

theorem Timely.step (timely : pool.Timely config) (stepped : pool.step event = some next) :
    next.Timely config := by
  obtain ⟨clock, tasks⟩ := step_clock_and_tasks stepped
  have later : pool.clock ≤ next.clock := by omega
  refine ⟨(step_books stepped).config_eq.trans timely.sameConfig, fun task member => ?_,
    fun key => ?_, fun key => ?_⟩
  · refine Int.le_trans ?_ later
    cases tasks task member with
    | kept old => exact timely.readings _ old
    | @woken _ former _ _ _ old | @settled _ former _ old => exact timely.readings former old
    | started => exact Int.le_refl _
    | @resumed _ former _ found => exact timely.readings former (mem_of_getElem? found)
  · intro entry member
    refine Int.le_trans ?_ later
    rcases idle_step stepped key with kept | ⟨client, added⟩
    · exact timely.returns key entry (kept.subset member)
    · rw [added] at member
      rcases mem_cons.mp member with rfl | old
      · exact Int.le_refl _
      · exact timely.returns key entry old
  · rcases idle_step stepped key with kept | ⟨client, added⟩
    · exact (timely.ordered key).sublist kept.sublist
    · rw [added]
      exact pairwise_cons.mpr ⟨timely.returns key, timely.ordered key⟩

theorem extractIdleConnection_eq {idle : List IdleEntry}
    (ordered : idle.Pairwise fun newer older => older.lastUsed ≤ newer.lastUsed) (now : Int) :
    extractIdleConnection config now idle =
      match idle.head? with
      | some last =>
        if now - last.lastUsed ≤ ticks config.idleTimeout then (some last.client, idle.tail)
        else (none, [])
      | none => (none, []) := by
  induction idle with
  | nil => rfl
  | cons entry rest ih =>
    rw [extractIdleConnection]
    dsimp only [head?_cons, tail_cons]
    obtain ⟨older, ordered⟩ := pairwise_cons.mp ordered
    split
    · rfl
    · rename_i expired
      rw [ih ordered]
      cases rest with
      | nil => rfl
      | cons second =>
        have earlier := older second mem_cons_self
        exact if_neg (by omega)

theorem HandsOut.host_lt {entry : IdleEntry} (handsOut : pool.HandsOut next entry) :
    (∃ key, (next.host key).idle.length < (pool.host key).idle.length) ∧
      next.leases ≠ pool.leases := by
  obtain ⟨key, _, idle, leases⟩ := handsOut
  refine ⟨⟨key, ?_⟩, fun same => ?_⟩
  · rw [idle, length_append, length_cons]
    omega
  · have issued := congrArg (fun table : LeaseTable => table.ledger.length) (leases.symm.trans same)
    simp [LeaseTable.issue] at issued

private theorem handsOut_acquireLoop_iff {key : EndpointKey} {tasks : List AcquireTask}
    (ordered : (pool.host key).idle.Pairwise fun newer older => older.lastUsed ≤ newer.lastUsed)
    (entry : IdleEntry) :
    pool.HandsOut { (pool.acquireLoop key now).1 with tasks } entry ↔
      (pool.host key).idle.head? = some entry ∧
        now - entry.lastUsed ≤ ticks pool.config.idleTimeout := by
  have unleased : ∀ {next : Pool}, next.leases = pool.leases → ¬pool.HandsOut next entry :=
    fun same handsOut => handsOut.host_lt.2 same
  unfold acquireLoop
  dsimp only
  rw [extractIdleConnection_eq ordered]
  cases idle : (pool.host key).idle with
  | nil =>
    simp only [head?_nil, reduceCtorEq, false_and, iff_false]
    split <;> exact unleased rfl
  | cons last =>
    simp only [head?_cons, tail_cons, Option.some.injEq]
    by_cases accepted : now - last.lastUsed ≤ ticks pool.config.idleTimeout
    · simp only [if_pos accepted]
      constructor
      · rintro ⟨other, dropped, found, leases⟩
        obtain rfl : key = other := by
          have issued := append_cancel_left (congrArg LeaseTable.ledger leases)
          exact congrArg LeaseRecord.key (cons.inj issued).1
        simp only [host, issue, setHost, AList.lookup_insert, Option.getD_some] at found
        change (pool.host key).idle = _ at found
        rw [idle] at found
        cases dropped with
        | nil => exact ⟨(cons.inj found).1, (cons.inj found).1 ▸ accepted⟩
        | cons =>
          have sizes := congrArg length found
          simp only [cons_append, length_cons, length_append] at sizes
          omega
      · rintro ⟨rfl, -⟩
        refine ⟨key, [], ?_, rfl⟩
        simpa [host, issue, setHost] using idle
    · simp only [if_neg accepted]
      refine ⟨fun handsOut => absurd handsOut ?_, ?_⟩
      · split <;> exact unleased rfl
      · rintro ⟨rfl, fresh⟩
        exact absurd fresh accepted

theorem Timely.handsOut_in_time_iff (timely : pool.Timely config)
    (stepped : pool.step event = some next) :
    (∀ entry, pool.HandsOut next entry → pool.clock - ticks config.idleTimeout ≤ entry.lastUsed) ↔
      pool.readingHolds event = true := by
  have quiet : (∀ key, (pool.host key).idle.length ≤ (next.host key).idle.length) ∨
      next.leases = pool.leases → ∀ entry, ¬pool.HandsOut next entry := by
    intro still entry handsOut
    obtain ⟨⟨key, fewer⟩, leased⟩ := handsOut.host_lt
    rcases still with grows | same
    · exact absurd fewer (Nat.not_lt.mpr (grows key))
    · exact leased same
  have books := step_books stepped
  cases transition_of_step stepped with
  | tick | expired | clear => simp [quiet (.inr rfl), readingHolds]
  | acquire key =>
    simp only [handsOut_acquireLoop_iff (timely.ordered key), ← timely.sameConfig, readingHolds,
      iff_true]
    intro _ _
    omega
  | connected ec =>
    cases ec with
    | none => simp [quiet (.inl fun key => Nat.le_refl _), readingHolds]
    | some => simp [quiet (.inr (sameBooks_notifyWaiter _ _).leases), readingHolds]
  | @resumed _ value _ aborted found phase =>
    obtain ⟨key, _⟩ := value
    subst phase
    cases aborted with
    | false => simp [quiet (.inr rfl), readingHolds, found]
    | true =>
      rw [resumed_of_aborted]
      simp only [handsOut_acquireLoop_iff (timely.ordered key), ← timely.sameConfig, readingHolds,
        found]
      cases (pool.host key).idle.head? with
      | none => simp
      | some =>
        simp only [Option.some.injEq, and_imp, forall_eq', Option.all_some, Bool.or_eq_true,
          decide_eq_true_eq]
        omega
  | handled | returned =>
    cases books with
    | kept internal | reused internal | opened internal | drained internal => cases internal
    | handled _ _ hosts =>
      simp [quiet (.inl fun key => by rw [hosts.host_eq]), readingHolds]
    | @returned _ giveBack _ _ _ hosts =>
      refine iff_of_true (fun entry handsOut => absurd handsOut (quiet (.inl fun key => ?_) entry))
        rfl
      by_cases same : key = giveBack.key
      · rw [same, hosts.idle, length_append]
        omega
      · rw [hosts.otherIdle key same]

/-- Along a run every idle connection that is handed out was returned in time exactly if
the condition on the readings of the clock holds before each step. -/
theorem idle_reuse_in_time_iff {config : ConnectionPoolConfig} {events : List PoolEvent}
    {final : Pool} (executed : exec Pool.step (create config) events = some final) :
    Along Pool.step (fun pool _ next => ∀ entry, pool.HandsOut next entry →
        pool.clock - ticks config.idleTimeout ≤ entry.lastUsed) (create config) events ↔
      Run Pool.step (fun pool event => pool.readingHolds event = true) (create config) events
        final := by
  have start : (create config).Timely config :=
    ⟨rfl, by simp [create], by simp [create, host], by simp [create, host]⟩
  exact along_iff_run (Timely config) start executed
    (fun _ _ _ timely _ stepped => timely.step stepped)
    (fun _ _ _ timely stepped => timely.handsOut_in_time_iff stepped)

theorem idle_reuse_in_time_after_wait :
    Along Pool.step (fun pool _ next => ∀ entry, pool.HandsOut next entry →
        pool.clock - ticks 30 ≤ entry.lastUsed) (create { maxConnectionsPerHost := 1 })
      [.acquire ⟨"host", ""⟩, .connected 0 none, .acquire ⟨"host", ""⟩, .tick 5000000000,
        .lease (.release 0), .tick 5000000000, .resume 1] := by
  refine (exists_run_of_within ?_).elim fun final run =>
    (@idle_reuse_in_time_iff { maxConnectionsPerHost := 1 } _ _ run.exec_eq).mpr run
  decide

/-- The first waiter expires as a connection is returned, and the second one is
told of the next one only forty seconds later. It takes the first. -/
theorem expired_connection_reused :
    ∃ pool next, exec Pool.step
        (create { maxConnectionsPerHost := 2, idleTimeout := 30, acquireTimeout := 100 })
        [.acquire ⟨"host", ""⟩, .connected 0 none, .acquire ⟨"host", ""⟩, .connected 1 none,
          .acquire ⟨"host", ""⟩, .tick 50000000000, .acquire ⟨"host", ""⟩, .tick 50000000000,
          .timerExpired 2, .lease (.release 0), .resume 2, .tick 40000000000,
          .lease (.markInvalid 1), .lease (.release 1)] = some pool ∧
      pool.step (.resume 3) = some next ∧ pool.HandsOut next ⟨0, 100000000000⟩ ∧
      pool.clock - ticks 30 = 110000000000 :=
  ⟨_, _, rfl, rfl, ⟨⟨"host", ""⟩, [], rfl, rfl⟩, by decide⟩

/-! ## Waiting in the queue -/

/-- Time advances only while no acquire is ready to run. -/
def prompt (pool : Pool) : PoolEvent → Bool
  | .tick elapsed => pool.tasks.all (AcquireTask.sleepsUntil (pool.clock + elapsed))
  | _ => true

/-- An acquire that was told of a connection finds one that it accepts or a free slot,
or queues again at the time at which it queued first. -/
def served (pool : Pool) : PoolEvent → Bool
  | .resume task =>
    match pool.tasks[task]? with
    | some ⟨key, now, .woken _ true⟩ =>
      (pool.host key).idle.any (fun entry =>
          now - entry.lastUsed ≤ ticks pool.config.idleTimeout) ||
        (pool.host key).activeCount < pool.config.maxConnectionsPerHost || pool.clock == now
    | _ => true
  | _ => true

/-- Where an acquire is that has queued once: not beyond its first expiry. -/
def QueuedOnce (config : ConnectionPoolConfig) (clock : Int) (task : AcquireTask) : Prop :=
  match task.phase with
  | .waiting _ expiry => expiry = task.now + ticks config.acquireTimeout ∧ clock ≤ expiry
  | .woken _ _ => clock ≤ task.now + ticks config.acquireTimeout
  | .connecting _ _ | .returned _ => True

theorem QueuedOnce.clock_le {clock : Int} {task : AcquireTask}
    (queued : QueuedOnce config clock task) {timer : Nat}
    (suspended : task.phase.timer? = some timer) :
    clock ≤ task.now + ticks config.acquireTimeout := by
  obtain ⟨key, now, phase⟩ := task
  cases phase with
  | waiting => exact queued.1 ▸ queued.2
  | woken => exact queued
  | connecting | returned => cases suspended

theorem timer?_acquireLoop {key : EndpointKey} (served : ((pool.host key).idle.any fun entry =>
        now - entry.lastUsed ≤ ticks pool.config.idleTimeout) = true ∨
      (pool.host key).activeCount < pool.config.maxConnectionsPerHost) :
    (pool.acquireLoop key now).2.timer? = none := by
  have extracted : (extractIdleConnection pool.config now (pool.host key).idle).1.isSome =
      (pool.host key).idle.any fun entry =>
        now - entry.lastUsed ≤ ticks pool.config.idleTimeout := by
    induction (pool.host key).idle with
    | nil => rfl
    | cons entry rest ih =>
      rw [extractIdleConnection, any_cons]
      split
      · rename_i fresh
        simp [fresh]
      · rename_i expired
        rw [ih, decide_eq_false expired, Bool.false_or]
  unfold acquireLoop
  dsimp only
  split
  · rfl
  · rename_i nothing
    rw [nothing] at extracted
    rw [if_pos (served.resolve_left (ne_true_of_eq_false extracted.symm))]
    rfl

theorem queuedOnce_acquireLoop (sameConfig : pool.config = config)
    (patient : 0 ≤ config.acquireTimeout) (key : EndpointKey)
    (once : (pool.acquireLoop key now).2.timer? = none ∨ pool.clock = now) :
    QueuedOnce config pool.clock ⟨key, now, (pool.acquireLoop key now).2⟩ := by
  have outcome := pool.acquireLoop_outcome key now
  generalize (pool.acquireLoop key now).2 = phase at outcome once ⊢
  cases outcome with
  | reused | connects => trivial
  | waits =>
    rcases once with impossible | rfl
    · cases impossible
    · rw [sameConfig]
      refine ⟨rfl, ?_⟩
      unfold ticks
      omega

structure InTime (config : ConnectionPoolConfig) (pool : Pool) : Prop where
  sameConfig : pool.config = config
  queued : ∀ task ∈ pool.tasks, QueuedOnce config pool.clock task

theorem InTime.step (patient : 0 ≤ config.acquireTimeout) (inTime : pool.InTime config)
    (prompt : pool.prompt event = true) (served : pool.served event = true)
    (stepped : pool.step event = some next) : next.InTime config := by
  obtain ⟨clock, tasks⟩ := step_clock_and_tasks stepped
  refine ⟨(step_books stepped).config_eq.trans inTime.sameConfig, fun task member => ?_⟩
  have now : event.elapsed = 0 → next.clock = pool.clock := by omega
  cases tasks task member with
  | kept old =>
    have queued := inTime.queued _ old
    cases event with
    | tick =>
      have sleeps := all_eq_true.mp prompt _ old
      rw [clock]
      obtain ⟨key, now, phase⟩ := task
      cases phase with
      | waiting => exact ⟨queued.1, of_decide_eq_true sleeps⟩
      | woken => cases sleeps
      | connecting | returned => trivial
    | acquire | connected | timerExpired | resume | lease | clear => exact now rfl ▸ queued
  | @woken _ former _ _ _ old waiting immediate =>
    rw [now immediate]
    have queued := inTime.queued former old
    exact queued.clock_le (by rw [waiting]; rfl)
  | settled => trivial
  | started key =>
    rw [now rfl]
    exact queuedOnce_acquireLoop inTime.sameConfig patient key (.inr rfl)
  | @resumed _ former _ found woken =>
    rw [now rfl]
    obtain ⟨key, _⟩ := former
    subst woken
    simp only [Pool.served, found, Bool.or_eq_true, decide_eq_true_eq, beq_iff_eq] at served
    exact queuedOnce_acquireLoop inTime.sameConfig patient key (served.imp_left timer?_acquireLoop)

/-- If time advances only when no acquire is ready, and none has to queue again later
than it queued first, no acquire is suspended for longer than the acquire timeout. -/
theorem queue_time_bounded {config : ConnectionPoolConfig} {events : List PoolEvent} {pool : Pool}
    (patient : 0 ≤ config.acquireTimeout) (run : Run Pool.step
      (fun pool event => pool.prompt event = true ∧ pool.served event = true) (create config)
      events pool) :
    ∀ task ∈ pool.tasks, task.now + ticks config.acquireTimeout < pool.clock →
      task.phase.timer? = none := by
  have start : (create config).InTime config := ⟨rfl, by simp [create]⟩
  have inTime : pool.InTime config := run.preserves start fun _ _ _ before admitted stepped =>
      before.step patient admitted.1 admitted.2 stepped
  intro task member late
  cases suspended : task.phase.timer? with
  | none => rfl
  | some =>
    have bound := (inTime.queued task member).clock_le suspended
    omega

theorem queue_time_bounded_two_waiters :
    ∃ pool, exec Pool.step (create { maxConnectionsPerHost := 1 })
        [.acquire ⟨"host", ""⟩, .connected 0 none, .acquire ⟨"host", ""⟩, .acquire ⟨"host", ""⟩,
          .tick 9000000000, .lease (.release 0), .resume 1, .tick 1000000000, .timerExpired 2,
          .resume 2, .tick 1] = some pool ∧
      ∀ task ∈ pool.tasks, task.now + ticks 10 < pool.clock → task.phase.timer? = none := by
  refine Exists.imp (fun pool run => ⟨run.exec_eq, queue_time_bounded (by decide) run⟩)
    (exists_run_of_within ?_)
  decide

/-- A third acquire takes the connection that the second one was told of, which
then waits for another ten seconds. -/
theorem queue_time_exceeded :
    ∃ pool, Run Pool.step (fun pool event => pool.prompt event = true)
        (create { maxConnectionsPerHost := 1 })
        [.acquire ⟨"host", ""⟩, .connected 0 none, .acquire ⟨"host", ""⟩, .tick 9000000000,
          .lease (.release 0), .acquire ⟨"host", ""⟩, .resume 1, .tick 2000000000] pool ∧
      pool.clock = 11000000000 ∧
      pool.tasks[1]? = some ⟨⟨"host", ""⟩, 0, .waiting 1 19000000000⟩ := by
  refine ⟨_, run_of_within ?_ rfl, ?_, ?_⟩ <;> decide

end Pool

end Coroserver.ConnectionPool
