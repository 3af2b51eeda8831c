import Coroserver.ConnectionPool.Wakeup

/-! Every step of the pool is one of the moves under which its waiters stay served. -/

namespace Coroserver.ConnectionPool

open AcquireTask Machine

namespace Pool

def notifies (pool : Pool) : PoolEvent → Option EndpointKey
  | .connected task (some _) =>
    match pool.tasks[task]? with
    | some ⟨key, _, .connecting _ _⟩ => some key
    | _ => none
  | .lease op =>
    match pool.leases.apply op with
    | some (_, some giveBack) => some giveBack.key
    | _ => none
  | _ => none

/-- The timer of the first waiter has expired, but its acquire has not run yet. -/
def frontExpired (pool : Pool) (key : EndpointKey) : Bool :=
  match (pool.host key).waiters with
  | [] => false
  | timer :: _ => pool.tasks.any (expired timer)

def Punctual (pool : Pool) (event : PoolEvent) : Prop :=
  event ≠ .clear ∧ ∀ key ∈ pool.notifies event, pool.frontExpired key = false
deriving Decidable

variable {pool next : Pool}

theorem count_expired_of_front {key : EndpointKey} (inTime : pool.frontExpired key = false)
    {timer : Nat} (front : (pool.host key).waiters.head? = some timer) :
    pool.count (expired timer) = 0 := by
  cases waiters : (pool.host key).waiters with
  | nil => simp [waiters] at front
  | cons =>
    simp only [waiters, List.head?_cons, Option.some.injEq] at front
    subst front
    simp only [frontExpired, waiters, List.any_eq_false] at inTime
    exact List.countP_eq_zero.mpr inTime

theorem Wakeful.idle {pool next : Pool} (wakeful : pool.Wakeful) (same : pool.SameTimers next)
    (tasks : next.tasks = pool.tasks)
    (active : ∀ key, (next.host key).activeCount = (pool.host key).activeCount) :
    next.Wakeful := by
  have idle : (⟨{}, 0, .returned none⟩ : AcquireTask).phase.timer? = none := rfl
  refine wakeful.advance same (.inl idle) (fun test timed => ?_) (fun key => ?_)
  · rw [timed _ idle, count, tasks]
    rfl
  · rw [active, timed_aborted.forKey key _ idle]
    exact Nat.le_refl _

theorem SameTimers.of_hosts (config : next.config = pool.config)
    (nextTimer : next.nextTimer = pool.nextTimer) (notified : next.notified = pool.notified)
    (timedOut : next.timedOut = pool.timedOut) (hosts : next.hosts = pool.hosts) :
    pool.SameTimers next :=
  ⟨config, nextTimer, notified, timedOut, fun key => by simp [host, hosts]⟩

theorem LoopOutcome.wakeful {key : EndpointKey} {phase : Phase}
    (outcome : LoopOutcome pool key next phase) (wakeful : pool.Wakeful) {old : AcquireTask}
    (released : Released old) (oldKey : old.key = key) (now : Int) {tasks : List AcquireTask}
    (counts : ∀ test, Timed test → tasks.countP test + (test old).toNat =
      pool.count test + (test ⟨key, now, phase⟩).toNat) : ({ next with tasks } : Pool).Wakeful := by
  have takesSlot : ∀ (state : HostState) (other : EndpointKey),
      (pool.host other).activeCount + (forKey other aborted old).toNat ≤
        ((pool.setHost key { state with activeCount := (pool.host key).activeCount + 1 }
          ).host other).activeCount := by
    intro state other
    by_cases same : other = key
    · subst same
      rw [host_setHost_self]
      exact Nat.add_le_add_left (Bool.toNat_le _) _
    · have differs : (key == other) = false := by simpa using fun equal => same equal.symm
      rw [host_setHost_of_ne pool same]
      simp [forKey, oldKey, differs]
  have sameWaiters : ∀ (state : HostState), state.waiters = (pool.host key).waiters →
      ∀ other, ((pool.setHost key state).host other).waiters = (pool.host other).waiters := by
    intro state kept other
    by_cases same : other = key
    · rw [same, host_setHost_self, kept]
    · rw [host_setHost_of_ne pool same]
  cases outcome with
  | @reused _ rest _ idle result =>
    subst result
    refine wakeful.advance ⟨rfl, rfl, rfl, rfl, sameWaiters _ rfl⟩ released
      (fun test timed => ?_) (takesSlot { pool.host key with idle := rest })
    have moved := counts test timed
    rw [timed ⟨key, now, _⟩ rfl] at moved
    exact moved
  | connects free result =>
    subst result
    refine wakeful.advance ⟨rfl, rfl, rfl, rfl, sameWaiters _ rfl⟩ released
      (fun test timed => ?_) (takesSlot { pool.host key with idle := [] })
    have moved := counts test timed
    rw [timed ⟨key, now, _⟩ rfl] at moved
    exact moved
  | waits full result =>
    subst result
    have after := pool.host_setHost_self key { pool.host key with
      idle := [], waiters := (pool.host key).waiters ++ [pool.nextTimer] }
    refine wakeful.wait rfl rfl rfl rfl oldKey released counts ?_ ?_ ?_
    · exact Nat.le_trans full (Nat.le_of_eq (congrArg HostState.activeCount after).symm)
    · exact congrArg HostState.waiters after
    · exact fun other differs => host_setHost_of_ne pool differs _

theorem Wakeful.finish {task : Nat} {value : AcquireTask} {client epoch : Nat}
    (wakeful : pool.Wakeful) (found : pool.tasks[task]? = some value)
    (phase : value.phase = .connecting client epoch) (result : Option ErrorCode) :
    (pool.setTask task { value with phase := .returned result }).Wakeful := by
  have noTimer : value.phase.timer? = none := by rw [phase]; rfl
  refine wakeful.advance (.of_hosts rfl rfl rfl rfl rfl) (.inl noTimer) (fun test timed => ?_)
    (fun key => ?_)
  · have moved := count_setTask found { value with phase := .returned result } test
    rw [timed { value with phase := .returned result } rfl] at moved
    exact moved
  · rw [timed_aborted.forKey key value noTimer]
    exact Nat.le_refl _

theorem Wakeful.connected {task : Nat} {value : AcquireTask} {client epoch : Nat}
    {ec : Option ErrorCode} (wakeful : pool.Wakeful) (punctual : pool.Punctual (.connected task ec))
    (found : pool.tasks[task]? = some value) (phase : value.phase = .connecting client epoch) :
    (pool.connected task value client ec).Wakeful := by
  cases ec with
  | none =>
    exact (wakeful.finish found phase none).idle (.of_hosts rfl rfl rfl rfl rfl) rfl fun _ => rfl
  | some error =>
    obtain ⟨key, now, _⟩ := value
    subst phase
    have inTime := punctual.2 key (by simp [notifies, found])
    have finished := wakeful.finish found rfl (some error)
    have sameHost : (pool.setTask task ⟨key, now, .returned (some error)⟩).host key =
        pool.host key := rfl
    refine finished.announce rfl ?_ fun timer front => ?_
    · rw [sameHost]
      exact Nat.le_add_of_sub_le (Nat.le_refl _)
    · have before := count_expired_of_front inTime front
      have moved := count_setTask found ⟨key, now, .returned (some error)⟩ (expired timer)
      simp only [expired, Bool.toNat_false] at moved
      exact moved.trans before

theorem Wakeful.resumed {pool : Pool} {task : Nat} {value : AcquireTask} {timer : Nat}
    {isAborted : Bool} (wakeful : pool.Wakeful) (found : pool.tasks[task]? = some value)
    (phase : value.phase = .woken timer isAborted) :
    (pool.resumed task value timer isAborted).Wakeful := by
  cases isAborted with
  | true =>
    have outcome := pool.acquireLoop_outcome value.key value.now
    have released : Released value := by
      right
      simp [aborted, phase]
    have moved := outcome.wakeful wakeful released rfl value.now fun test _ =>
      count_setTask found ⟨value.key, value.now, (pool.acquireLoop value.key value.now).2⟩ test
    rw [resumed_of_aborted]
    exact moved
  | false =>
    have after := (pool.setTask task { value with phase := .returned (some .timedOut) }
      ).host_setHost_self value.key { pool.host value.key with
        waiters := (pool.host value.key).waiters.filter (· != timer) }
    refine wakeful.giveUp rfl rfl rfl rfl rfl phase (fun test timed => ?_) (fun key => ?_)
      (congrArg HostState.waiters after) fun other differs => host_setHost_of_ne _ differs _
    · have moved := count_setTask found { value with phase := .returned (some .timedOut) } test
      rw [timed { value with phase := .returned (some .timedOut) } rfl] at moved
      exact moved
    · by_cases same : key = value.key
      · subst same
        have sameActive := congrArg HostState.activeCount after
        exact sameActive
      · exact congrArg HostState.activeCount (host_setHost_of_ne _ same _)

theorem Wakeful.returned {pool : Pool} {giveBack : GiveBack} (wakeful : pool.Wakeful)
    (inTime : pool.frontExpired giveBack.key = false) :
    (pool.returnConnection giveBack).Wakeful := by
  cases present : pool.hosts.lookup giveBack.key with
  | none => simpa [returnConnection, present] using wakeful
  | some =>
    have sameHost := host_of_lookup present
    simp only [returnConnection, present]
    refine wakeful.announce (by rw [sameHost]) ?_ ?_
    · rw [sameHost]
      exact Nat.le_add_of_sub_le (Nat.le_refl _)
    · intro timer front
      refine count_expired_of_front inTime ?_
      rw [sameHost]
      exact front

theorem Wakeful.step {event : PoolEvent} (wakeful : pool.Wakeful) (punctual : pool.Punctual event)
    (stepped : pool.step event = some next) : next.Wakeful := by
  have operated : ∀ leases, ({ pool with leases } : Pool).Wakeful := fun _ =>
    wakeful.idle (.of_hosts rfl rfl rfl rfl rfl) rfl fun _ => rfl
  cases transition_of_step stepped with
  | tick => exact wakeful.idle (.of_hosts rfl rfl rfl rfl rfl) rfl fun _ => rfl
  | acquire key =>
    have outcome := pool.acquireLoop_outcome key pool.clock
    have idle : Released ⟨key, pool.clock, .returned none⟩ := .inl rfl
    refine outcome.wakeful wakeful idle rfl pool.clock fun test timed => ?_
    rw [outcome.tasks_eq, timed ⟨key, pool.clock, .returned none⟩ rfl]
    exact Tally.countP_add _ _
  | connected ec found phase => exact wakeful.connected punctual found phase
  | expired found phase =>
    exact wakeful.expire (.of_hosts rfl rfl rfl rfl rfl) phase (count_setTask found _) fun _ => rfl
  | resumed found phase => exact wakeful.resumed found phase
  | handled => exact operated _
  | @returned op leases giveBack applied =>
    have inTime := punctual.2 giveBack.key (by simp [notifies, applied])
    exact (operated leases).returned inTime
  | clear => exact absurd rfl punctual.1

/-- An acquire waits for a connection that is there for it to take, and no
other acquire of its key is about to run. -/
def LostWakeup (pool : Pool) (key : EndpointKey) : Prop :=
  (∃ task ∈ pool.tasks, task.key = key ∧ ∃ timer expiry, task.phase = .waiting timer expiry) ∧
    (0 < pool.idleCount key ∨ pool.activeCount key < pool.config.maxConnectionsPerHost) ∧
    ∀ task ∈ pool.tasks, task.key = key →
      (∀ timer isAborted, task.phase ≠ .woken timer isAborted) ∧
        ∀ client epoch, task.phase ≠ .connecting client epoch

/-- Nobody waits beside a free slot, provided that a slot becomes free only while the first waiter
has not expired. -/
theorem no_lost_wakeup {config : ConnectionPoolConfig} {events : List PoolEvent} {pool : Pool}
    (run : Run Pool.step Punctual (create config) events pool) :
    (∀ key, ¬ pool.LostWakeup key) ∧ ∀ timer ∈ pool.notified, timer ∉ pool.timedOut := by
  have wakeful : pool.Wakeful := run.preserves (wakeful_create config)
      fun _ _ _ before punctual stepped => before.step punctual stepped
  have epoch : pool.FirstEpoch config :=
    run.preserves ⟨orderly_create config, accounted_create config, rfl, rfl⟩
      fun _ _ _ before punctual stepped => before.step punctual.1 stepped
  refine ⟨fun key lost => ?_, fun timer told => (wakeful.notified timer told).2.2⟩
  obtain ⟨⟨task, present, sameKey, timer, expiry, phase⟩, available, nobody⟩ := lost
  have waiting : 0 < pool.count (forKey key waits) :=
    List.countP_pos_iff.mpr ⟨task, present, by simp [forKey, waits, sameKey, phase]⟩
  have bounded := epoch.accounted.bounded key
  rw [activeCount_eq] at bounded available
  have promised : 0 < pool.count (forKey key aborted) := by
    rcases wakeful.served key with nobodyWaits | promised
    · omega
    · omega
  obtain ⟨other, otherPresent, selected⟩ := List.countP_pos_iff.mp promised
  simp only [forKey, Bool.and_eq_true, beq_iff_eq] at selected
  obtain ⟨otherKey, woken⟩ := selected
  unfold aborted at woken
  split at woken
  · rename_i otherPhase
    exact (nobody other otherPresent otherKey).1 _ _ otherPhase
  · simp at woken

theorem no_lost_wakeup_with_two_waiters :
    ∃ pool, exec Pool.step (create { maxConnectionsPerHost := 1 })
        [.acquire ⟨"host", ""⟩, .connected 0 none, .acquire ⟨"host", ""⟩,
          .acquire ⟨"host", ""⟩, .lease (.release 0), .resume 1] = some pool ∧
      ¬ pool.LostWakeup ⟨"host", ""⟩ := by
  refine Exists.imp (fun pool run => ⟨run.exec_eq, (no_lost_wakeup run).1 _⟩)
    (exists_run_of_within ?_)
  decide

theorem wakeup_lost_to_expired_waiter :
    ∃ pool, exec Pool.step (create { maxConnectionsPerHost := 1 })
        [.acquire ⟨"host", ""⟩, .connected 0 none, .acquire ⟨"host", ""⟩, .tick 5000000000,
          .acquire ⟨"host", ""⟩, .tick 5000000000, .timerExpired 1, .lease (.release 0),
          .resume 1] = some pool ∧
      pool.LostWakeup ⟨"host", ""⟩ ∧ ∃ timer ∈ pool.notified, timer ∈ pool.timedOut := by
  have lost : ∀ pool : Pool, pool.tasks = [⟨⟨"host", ""⟩, 0, .returned none⟩,
      ⟨⟨"host", ""⟩, 0, .returned (some .timedOut)⟩,
      ⟨⟨"host", ""⟩, 5000000000, .waiting 1 15000000000⟩] ∧
      0 < pool.idleCount ⟨"host", ""⟩ → pool.LostWakeup ⟨"host", ""⟩ := by
    rintro pool ⟨tasks, idle⟩
    simp [LostWakeup, tasks, idle]
  exact ⟨_, rfl, lost _ (by decide), by decide⟩

end Pool

end Coroserver.ConnectionPool
