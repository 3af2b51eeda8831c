import Coroserver.ConnectionPool.Accounting

/-! A slot that becomes free is announced by cancelling the timer at the front of
the waiters. The announcement is lost if that timer has expired already: its
`acquire` times out, and nobody else is told. Otherwise an `acquire` waits only
while every connection is in use or promised to another one. -/

namespace Coroserver.ConnectionPool

open List Tally

def Phase.timer? : Phase → Option Nat
  | .waiting timer _ | .woken timer _ => some timer
  | .connecting _ _ | .returned _ => none

namespace AcquireTask

def owns (timer : Nat) (task : AcquireTask) : Bool := task.phase.timer? == some timer

def queuedOn (timer : Nat) (task : AcquireTask) : Bool :=
  match task.phase with
  | .waiting own _ | .woken own false => own == timer
  | _ => false

def waits (task : AcquireTask) : Bool :=
  match task.phase with
  | .waiting _ _ => true
  | _ => false

def aborted (task : AcquireTask) : Bool :=
  match task.phase with
  | .woken _ true => true
  | _ => false

def expired (timer : Nat) (task : AcquireTask) : Bool :=
  match task.phase with
  | .woken own false => own == timer
  | _ => false

def forKey (key : EndpointKey) (test : AcquireTask → Bool) (task : AcquireTask) : Bool :=
  task.key == key && test task

def Timed (test : AcquireTask → Bool) : Prop := ∀ task, task.phase.timer? = none → test task = false

theorem timed_owns (timer : Nat) : Timed (owns timer) := by
  intro task noTimer
  simp [owns, noTimer]

theorem timed_queuedOn (timer : Nat) : Timed (queuedOn timer) := by
  rintro ⟨_, _, phase⟩ _
  cases phase <;> simp_all [queuedOn, Phase.timer?]

theorem queuedOn_owns {timer : Nat} {task : AcquireTask} (queued : task.queuedOn timer = true) :
    task.owns timer = true := by
  obtain ⟨key, now, phase⟩ := task
  cases phase with
  | woken own isAborted => cases isAborted <;> simp_all [queuedOn, owns, Phase.timer?]
  | waiting | connecting | returned => simp_all [queuedOn, owns, Phase.timer?]

theorem timed_waits : Timed waits := by
  rintro ⟨_, _, phase⟩ _
  cases phase <;> simp_all [waits, Phase.timer?]

theorem timed_aborted : Timed aborted := by
  rintro ⟨_, _, phase⟩ _
  cases phase <;> simp_all [aborted, Phase.timer?]

theorem Timed.forKey {test : AcquireTask → Bool} (timed : Timed test) (key : EndpointKey) :
    Timed (forKey key test) := by
  intro task noTimer
  simp [AcquireTask.forKey, timed task noTimer]

end AcquireTask

open AcquireTask

namespace Pool

def count (pool : Pool) (test : AcquireTask → Bool) : Nat := pool.tasks.countP test

/-! ## The invariant -/

structure Wakeful (pool : Pool) : Prop where
  fresh : ∀ timer, pool.nextTimer ≤ timer → pool.count (owns timer) = 0
  single : ∀ timer, pool.count (owns timer) ≤ 1
  queue : ∀ key timer,
    (pool.host key).waiters.count timer = pool.count (forKey key (queuedOn timer))
  served : ∀ key, pool.count (forKey key waits) = 0 ∨
    pool.config.maxConnectionsPerHost ≤
      (pool.host key).activeCount + pool.count (forKey key aborted)
  notified : ∀ timer ∈ pool.notified, timer < pool.nextTimer ∧
    pool.count (queuedOn timer) = 0 ∧ timer ∉ pool.timedOut
  timedOut : ∀ timer ∈ pool.timedOut, timer < pool.nextTimer ∧ pool.count (owns timer) = 0

theorem count_forKey_le (pool : Pool) (key : EndpointKey) {test weaker : AcquireTask → Bool}
    (implies : ∀ task, test task = true → weaker task = true) :
    pool.count (forKey key test) ≤ pool.count weaker := by
  refine countP_mono_left fun task _ selected => ?_
  simp only [forKey, Bool.and_eq_true] at selected
  exact implies task selected.2

theorem wakeful_create (config : ConnectionPoolConfig) : (create config).Wakeful where
  fresh := fun _ _ => rfl
  single := fun _ => Nat.zero_le 1
  queue := fun _ _ => rfl
  served := fun _ => .inl rfl
  notified := by simp [create]
  timedOut := by simp [create]

structure SameTimers (pool next : Pool) : Prop where
  config : next.config = pool.config
  nextTimer : next.nextTimer = pool.nextTimer
  notified : next.notified = pool.notified
  timedOut : next.timedOut = pool.timedOut
  waiters : ∀ key, (next.host key).waiters = (pool.host key).waiters

def Released (task : AcquireTask) : Prop := task.phase.timer? = none ∨ task.aborted = true

theorem Released.idle {task : AcquireTask} (released : Released task) :
    task.waits = false ∧ ∀ timer, task.queuedOn timer = false := by
  rcases released with noTimer | woken
  · exact ⟨timed_waits task noTimer, fun timer => timed_queuedOn timer task noTimer⟩
  · unfold aborted at woken
    split at woken
    · rename_i phase
      simp [waits, queuedOn, phase]
    · simp at woken

variable {pool next : Pool} {old : AcquireTask} {key : EndpointKey} {timer : Nat}

theorem count_setTask {task : Nat} (found : pool.tasks[task]? = some old) (new : AcquireTask)
    (test : AcquireTask → Bool) :
    (pool.setTask task new).count test + (test old).toNat = pool.count test + (test new).toNat :=
  countP_set test found new

def waitsOn (timer : Nat) (task : AcquireTask) : Bool :=
  match task.phase with
  | .waiting own _ => own == timer
  | _ => false

theorem forKey_cancel (timer : Nat) (key : EndpointKey) (task : AcquireTask) :
    (forKey key waits (task.cancel (· == timer))).toNat + (forKey key (waitsOn timer) task).toNat =
        (forKey key waits task).toNat ∧
      (forKey key aborted task).toNat + (forKey key (waitsOn timer) task).toNat =
        (forKey key aborted (task.cancel (· == timer))).toNat ∧
      (forKey key (expired timer) task).toNat + (forKey key (waitsOn timer) task).toNat =
        (forKey key (queuedOn timer) task).toNat := by
  obtain ⟨own, now, phase⟩ := task
  cases phase with
  | waiting other =>
    cases same : other == timer <;> cases own == key <;>
      simp [AcquireTask.cancel, forKey, waits, aborted, expired, queuedOn, waitsOn, same]
  | woken other isAborted =>
    cases isAborted <;> simp [AcquireTask.cancel, forKey, waits, expired, queuedOn, waitsOn]
  | connecting | returned =>
    simp [AcquireTask.cancel, forKey, waits, expired, queuedOn, waitsOn]

theorem queuedOn_cancel_self (timer : Nat) (task : AcquireTask) :
    (task.cancel (· == timer)).queuedOn timer = task.expired timer := by
  obtain ⟨own, now, phase⟩ := task
  cases phase with
  | waiting other =>
    cases same : other == timer <;> simp [AcquireTask.cancel, queuedOn, expired, same]
  | woken other isAborted => cases isAborted <;> rfl
  | connecting | returned => rfl

theorem queuedOn_cancel_other {other : Nat} (differs : other ≠ timer) (task : AcquireTask) :
    (task.cancel (· == timer)).queuedOn other = task.queuedOn other := by
  obtain ⟨own, now, phase⟩ := task
  cases phase with
  | waiting waited =>
    by_cases same : waited = timer
    · subst same
      have notOther : (waited == other) = false := beq_false_of_ne (Ne.symm differs)
      simp [AcquireTask.cancel, queuedOn, notOther]
    · simp [AcquireTask.cancel, queuedOn, same]
  | woken | connecting | returned => rfl

theorem cancel_key (cancelled : Nat → Bool) (task : AcquireTask) :
    (task.cancel cancelled).key = task.key := by
  unfold AcquireTask.cancel
  split
  · split <;> rfl
  · rfl

theorem owns_cancel (cancelled : Nat → Bool) (other : Nat) (task : AcquireTask) :
    (task.cancel cancelled).owns other = task.owns other := by
  obtain ⟨own, now, phase⟩ := task
  cases phase with
  | waiting timer =>
    cases same : cancelled timer <;> simp [AcquireTask.cancel, owns, Phase.timer?, same]
  | woken | connecting | returned => rfl

variable (wakeful : pool.Wakeful)

include wakeful

/-! ## Its steps -/

theorem Wakeful.of_fewer (nextTimer : next.nextTimer = pool.nextTimer)
    (owners : ∀ timer, next.count (owns timer) ≤ pool.count (owns timer))
    (queued : ∀ timer, next.count (queuedOn timer) ≤ pool.count (queuedOn timer))
    (notified : ∀ timer ∈ next.notified, timer ∈ pool.notified ∨
      timer < pool.nextTimer ∧ next.count (queuedOn timer) = 0 ∧ timer ∉ pool.timedOut)
    (timedOut : ∀ timer ∈ next.timedOut, timer ∈ pool.timedOut ∨
      timer ∉ next.notified ∧ timer < pool.nextTimer ∧ next.count (owns timer) = 0)
    (queue : ∀ key timer,
      (next.host key).waiters.count timer = next.count (forKey key (queuedOn timer)))
    (served : ∀ key, next.count (forKey key waits) = 0 ∨ next.config.maxConnectionsPerHost ≤
      (next.host key).activeCount + next.count (forKey key aborted)) : next.Wakeful := by
  refine ⟨fun timer future => ?_, fun timer => Nat.le_trans (owners timer) (wakeful.single timer),
    queue, served, fun timer told => ?_, fun timer out => ?_⟩
  · exact Nat.le_zero.mp (wakeful.fresh timer (nextTimer ▸ future) ▸ owners timer)
  · have inTime : timer ∉ pool.timedOut → timer ∉ next.timedOut := fun before out =>
      (timedOut timer out).elim before fun other => other.1 told
    rw [nextTimer]
    rcases notified timer told with before | ⟨earlier, unqueued, inTimeBefore⟩
    · obtain ⟨earlier, unqueued, inTimeBefore⟩ := wakeful.notified timer before
      exact ⟨earlier, Nat.le_zero.mp (unqueued ▸ queued timer), inTime inTimeBefore⟩
    · exact ⟨earlier, unqueued, inTime inTimeBefore⟩
  · rw [nextTimer]
    rcases timedOut timer out with before | ⟨_, earlier, unowned⟩
    · obtain ⟨earlier, unowned⟩ := wakeful.timedOut timer before
      exact ⟨earlier, Nat.le_zero.mp (unowned ▸ owners timer)⟩
    · exact ⟨earlier, unowned⟩

theorem Wakeful.advance (same : pool.SameTimers next) (released : Released old)
    (counts : ∀ test, Timed test → next.count test + (test old).toNat = pool.count test)
    (active : ∀ key, (pool.host key).activeCount + (forKey key aborted old).toNat ≤
      (next.host key).activeCount) : next.Wakeful := by
  obtain ⟨notWaiting, notQueued⟩ := released.idle
  have fewer : ∀ test, Timed test → next.count test ≤ pool.count test :=
    fun test timed => counts test timed ▸ Nat.le_add_right ..
  have sameQueueOn : ∀ key timer,
      next.count (forKey key (queuedOn timer)) = pool.count (forKey key (queuedOn timer)) := by
    intro key timer
    have moved := counts _ ((timed_queuedOn timer).forKey key)
    simpa [forKey, notQueued] using moved
  have sameWaits : ∀ key, next.count (forKey key waits) = pool.count (forKey key waits) := by
    intro key
    have moved := counts _ (timed_waits.forKey key)
    simpa [forKey, notWaiting] using moved
  refine wakeful.of_fewer same.nextTimer (fun timer => fewer _ (timed_owns timer))
    (fun timer => fewer _ (timed_queuedOn timer)) (fun _ told => .inl (same.notified ▸ told))
    (fun _ out => .inl (same.timedOut ▸ out)) (fun key timer => ?_) fun key => ?_
  · rw [same.waiters, sameQueueOn]
    exact wakeful.queue key timer
  · rw [sameWaits, same.config]
    have moved := counts _ (timed_aborted.forKey key)
    have slot := active key
    rcases wakeful.served key with nobody | promised
    · exact .inl nobody
    · right
      omega

theorem Wakeful.wait {now expiry : Int}
    (config : next.config = pool.config) (nextTimer : next.nextTimer = pool.nextTimer + 1)
    (notified : next.notified = pool.notified) (timedOut : next.timedOut = pool.timedOut)
    (oldKey : old.key = key) (released : Released old)
    (counts : ∀ test, Timed test → next.count test + (test old).toNat =
      pool.count test + (test ⟨key, now, .waiting pool.nextTimer expiry⟩).toNat)
    (full : pool.config.maxConnectionsPerHost ≤ (next.host key).activeCount)
    (waiters : (next.host key).waiters = (pool.host key).waiters ++ [pool.nextTimer])
    (others : ∀ other, other ≠ key → next.host other = pool.host other) : next.Wakeful := by
  have newOwns : ∀ timer, owns timer ⟨key, now, .waiting pool.nextTimer expiry⟩ =
      (pool.nextTimer == timer) := by
    intro timer
    simp [owns, Phase.timer?]
  have newQueued : ∀ timer, queuedOn timer ⟨key, now, .waiting pool.nextTimer expiry⟩ =
      (pool.nextTimer == timer) := fun _ => rfl
  have owners : ∀ timer, next.count (owns timer) ≤
      pool.count (owns timer) + (pool.nextTimer == timer).toNat := by
    intro timer
    have moved := counts _ (timed_owns timer)
    rw [newOwns] at moved
    omega
  have older : ∀ timer, timer < pool.nextTimer → (pool.nextTimer == timer) = false :=
    fun timer earlier => beq_false_of_ne (Nat.ne_of_gt earlier)
  refine ⟨fun timer future => ?_, fun timer => ?_, fun other timer => ?_, fun other => ?_, ?_, ?_⟩
  · have before := wakeful.fresh timer (by omega)
    have after := owners timer
    have differs : (pool.nextTimer == timer) = false := beq_false_of_ne (by omega)
    simp only [differs, Bool.toNat_false] at after
    omega
  · have after := owners timer
    have before := wakeful.single timer
    cases isNew : pool.nextTimer == timer with
    | true =>
      have unused := wakeful.fresh timer (Nat.le_of_eq (by simpa using isNew))
      simp only [isNew, Bool.toNat_true] at after
      omega
    | false =>
      simp only [isNew, Bool.toNat_false] at after
      omega
  · have moved := counts _ ((timed_queuedOn timer).forKey other)
    simp only [forKey, released.idle.2, newQueued, Bool.and_false, Bool.toNat_false] at moved
    have before := wakeful.queue other timer
    by_cases same : other = key
    · subst same
      rw [waiters, count_append, count_singleton]
      simp only [beq_self_eq_true, Bool.true_and] at moved
      cases isNew : pool.nextTimer == timer <;> simp only [isNew] at moved ⊢ <;>
        simp at moved before ⊢ <;> omega
    · have differs : (key == other) = false := beq_false_of_ne (Ne.symm same)
      simp only [differs, Bool.false_and, Bool.toNat_false] at moved
      rw [others other same, before]
      exact moved.symm
  · by_cases same : other = key
    · right
      rw [same, config]
      omega
    · have differs : (key == other) = false := beq_false_of_ne (Ne.symm same)
      have waiting := counts _ (timed_waits.forKey other)
      have woken := counts _ (timed_aborted.forKey other)
      simp only [forKey, oldKey, differs, Bool.false_and, Bool.toNat_false] at waiting woken
      rw [others other same, config]
      have before := wakeful.served other
      omega
  · intro timer told
    obtain ⟨earlier, _, inTime⟩ := wakeful.notified timer (notified ▸ told)
    have moved := counts _ (timed_queuedOn timer)
    rw [newQueued, older timer earlier] at moved
    rw [nextTimer, timedOut]
    refine ⟨by omega, ?_, inTime⟩
    simp only [Bool.toNat_false] at moved
    omega
  · intro timer expiredBefore
    obtain ⟨earlier, _⟩ := wakeful.timedOut timer (timedOut ▸ expiredBefore)
    have after := owners timer
    simp only [older timer earlier, Bool.toNat_false] at after
    rw [nextTimer]
    omega

theorem Wakeful.expire {expiry : Int} (same : pool.SameTimers next)
    (oldPhase : old.phase = .waiting timer expiry)
    (counts : ∀ test : AcquireTask → Bool, next.count test + (test old).toNat =
      pool.count test + (test { old with phase := .woken timer false }).toNat)
    (active : ∀ key, (next.host key).activeCount = (pool.host key).activeCount) : next.Wakeful := by
  have sameOwners : ∀ other, next.count (owns other) = pool.count (owns other) := by
    intro other
    simpa [owns, oldPhase, Phase.timer?] using counts (owns other)
  have sameQueue : ∀ other, next.count (queuedOn other) = pool.count (queuedOn other) := by
    intro other
    simpa [queuedOn, oldPhase] using counts (queuedOn other)
  refine wakeful.of_fewer same.nextTimer (fun other => Nat.le_of_eq (sameOwners other))
    (fun other => Nat.le_of_eq (sameQueue other)) (fun _ told => .inl (same.notified ▸ told))
    (fun _ out => .inl (same.timedOut ▸ out)) (fun key other => ?_) fun key => ?_
  · have moved := counts (forKey key (queuedOn other))
    have before := wakeful.queue key other
    simp only [forKey, queuedOn, oldPhase] at moved
    rw [same.waiters]
    omega
  · have waiting := counts (forKey key waits)
    have woken := counts (forKey key aborted)
    simp only [forKey, waits, aborted, oldPhase, Bool.and_false, Bool.toNat_false] at waiting woken
    rw [same.config, active]
    have before := wakeful.served key
    omega

theorem Wakeful.queued_elsewhere {other : EndpointKey}
    (here : 0 < pool.count (forKey key (queuedOn timer))) (differs : other ≠ key) :
    pool.count (forKey other (queuedOn timer)) = 0 := by
  have bounded : pool.count (forKey key (queuedOn timer)) +
      pool.count (forKey other (queuedOn timer)) ≤ pool.count (owns timer) := by
    apply countP_add_le
    intro task
    cases queued : task.queuedOn timer with
    | false => simp [forKey, queued]
    | true =>
      have owned := queuedOn_owns queued
      by_cases same : task.key = key
      · have elsewhere : (key == other) = false := beq_false_of_ne (Ne.symm differs)
        simp [forKey, queued, owned, same, elsewhere]
      · have notHere : (task.key == key) = false := beq_false_of_ne same
        simpa [forKey, queued, owned, notHere] using Bool.toNat_le (task.key == other)
  have single := wakeful.single timer
  omega

theorem Wakeful.queued_single (key : EndpointKey) (timer : Nat) :
    pool.count (forKey key (queuedOn timer)) ≤ 1 :=
  Nat.le_trans (pool.count_forKey_le key fun _ => queuedOn_owns) (wakeful.single timer)

theorem Wakeful.giveUp (config : next.config = pool.config)
    (nextTimer : next.nextTimer = pool.nextTimer) (notified : next.notified = pool.notified)
    (timedOut : next.timedOut = pool.timedOut ++ [timer]) (oldKey : old.key = key)
    (oldPhase : old.phase = .woken timer false)
    (counts : ∀ test, Timed test → next.count test + (test old).toNat = pool.count test)
    (active : ∀ key, (next.host key).activeCount = (pool.host key).activeCount)
    (waiters : (next.host key).waiters = (pool.host key).waiters.filter (· != timer))
    (others : ∀ other, other ≠ key → next.host other = pool.host other) : next.Wakeful := by
  have oldOwns : ∀ other, old.owns other = (timer == other) := by
    intro other
    simp [owns, oldPhase, Phase.timer?]
  have oldQueued : ∀ other, old.queuedOn other = (timer == other) := by
    intro other
    simp [queuedOn, oldPhase]
  have fewer : ∀ test, Timed test → next.count test ≤ pool.count test :=
    fun test timed => counts test timed ▸ Nat.le_add_right ..
  have released : next.count (owns timer) = 0 := by
    have moved := counts _ (timed_owns timer)
    have single := wakeful.single timer
    rw [oldOwns, beq_self_eq_true, Bool.toNat_true] at moved
    omega
  have wasQueued : 0 < pool.count (queuedOn timer) := by
    have moved := counts _ (timed_queuedOn timer)
    rw [oldQueued, beq_self_eq_true, Bool.toNat_true] at moved
    omega
  have known : timer < pool.nextTimer := by
    by_contra future
    have unused := wakeful.fresh timer (Nat.le_of_not_lt future)
    have moved := counts _ (timed_owns timer)
    rw [oldOwns, beq_self_eq_true, Bool.toNat_true] at moved
    omega
  refine wakeful.of_fewer nextTimer (fun other => fewer _ (timed_owns other))
    (fun other => fewer _ (timed_queuedOn other)) (fun _ told => .inl (notified ▸ told))
    (fun other out => ?_) (fun host other => ?_) fun host => ?_
  · rw [timedOut, mem_append, mem_singleton] at out
    refine out.imp_right ?_
    rintro rfl
    refine ⟨fun told => ?_, known, released⟩
    have unqueued := (wakeful.notified other (notified ▸ told)).2.1
    omega
  · have moved := counts _ ((timed_queuedOn other).forKey host)
    have before := wakeful.queue host other
    simp only [forKey, oldQueued, oldKey] at moved
    by_cases same : host = key
    · subst same
      rw [beq_self_eq_true, Bool.true_and] at moved
      rw [waiters]
      by_cases own : timer = other
      · subst own
        have single := wakeful.queued_single host timer
        rw [beq_self_eq_true, Bool.toNat_true] at moved
        have erased : ((pool.host host).waiters.filter (· != timer)).count timer = 0 := by
          rw [count_eq_zero]
          simp
        omega
      · have differs : (timer == other) = false := beq_false_of_ne own
        have kept : ((pool.host host).waiters.filter (· != timer)).count other =
            (pool.host host).waiters.count other := by
          apply count_filter
          simpa using fun equal => own equal.symm
        rw [differs, Bool.toNat_false] at moved
        omega
    · have differs : (key == host) = false := beq_false_of_ne (Ne.symm same)
      rw [differs, Bool.false_and, Bool.toNat_false] at moved
      rw [others host same]
      omega
  · have waiting := counts _ (timed_waits.forKey host)
    have woken := counts _ (timed_aborted.forKey host)
    simp only [forKey, waits, aborted, oldPhase, Bool.and_false, Bool.toNat_false] at waiting woken
    rw [config, active]
    have before := wakeful.served host
    omega

theorem Wakeful.waiters_ne_nil
    (waiting : 0 < pool.count (forKey key waits)) : (pool.host key).waiters ≠ [] := by
  intro nobody
  obtain ⟨task, present, selected⟩ := countP_pos_iff.mp waiting
  obtain ⟨own, now, phase⟩ := task
  cases phase with
  | waiting timer =>
    simp only [forKey, waits, Bool.and_true, beq_iff_eq] at selected
    have queued : 0 < pool.count (forKey key (queuedOn timer)) :=
      countP_pos_iff.mpr ⟨_, present, by simp [forKey, queuedOn, selected]⟩
    have counted := wakeful.queue key timer
    rw [nobody, count_nil] at counted
    omega
  | woken | connecting | returned => simp [forKey, waits] at selected

theorem Wakeful.told {rest : List Nat} (config : next.config = pool.config)
    (nextTimer : next.nextTimer = pool.nextTimer) (timedOut : next.timedOut = pool.timedOut)
    (notified : next.notified = pool.notified ++ [timer])
    (tasks : next.tasks = pool.tasks.map (AcquireTask.cancel (· == timer)))
    (waiters : (pool.host key).waiters = timer :: rest)
    (nextWaiters : (next.host key).waiters = rest)
    (active : (pool.host key).activeCount ≤ (next.host key).activeCount + 1)
    (others : ∀ other, other ≠ key → next.host other = pool.host other)
    (notExpired : pool.count (expired timer) = 0) : next.Wakeful := by
  have isQueued : pool.count (forKey key (queuedOn timer)) = 1 := by
    have counted := wakeful.queue key timer
    have single := wakeful.queued_single key timer
    rw [waiters, count_cons_self] at counted
    omega
  have elsewhere : ∀ other, other ≠ key → pool.count (forKey other (queuedOn timer)) = 0 :=
    fun other differs => wakeful.queued_elsewhere (by omega) differs
  have split : ∀ other, pool.count (forKey other (waitsOn timer)) =
      pool.count (forKey other (queuedOn timer)) := by
    intro other
    have added := countP_add_eq _ _ _ pool.tasks fun task =>
      (forKey_cancel timer other task).2.2
    have none : pool.count (forKey other (expired timer)) = 0 :=
      Nat.le_zero.mp (notExpired ▸ pool.count_forKey_le other fun _ => id)
    simp only [count] at none ⊢
    omega
  have fewerWaiting : ∀ other, next.count (forKey other waits) +
      pool.count (forKey other (queuedOn timer)) = pool.count (forKey other waits) := by
    intro other
    rw [← split, count, tasks, countP_map]
    exact countP_add_eq _ _ _ pool.tasks fun task => (forKey_cancel timer other task).1
  have moreAborted : ∀ other, pool.count (forKey other aborted) +
      pool.count (forKey other (queuedOn timer)) = next.count (forKey other aborted) := by
    intro other
    rw [← split, count, count, count, tasks, countP_map]
    exact countP_add_eq _ _ _ pool.tasks fun task => (forKey_cancel timer other task).2.1
  have kept : ∀ {test : AcquireTask → Bool}, (∀ task, test (task.cancel (· == timer)) = test task) →
      next.count test = pool.count test := by
    intro test same
    rw [count, tasks]
    exact countP_map_eq _ _ same
  have sameOwners : ∀ other, next.count (owns other) = pool.count (owns other) :=
    fun other => kept (owns_cancel _ other)
  have unqueued : next.count (queuedOn timer) = 0 := by
    rw [count, tasks, countP_map, ← notExpired]
    exact countP_congr fun task _ => by simp [queuedOn_cancel_self]
  have sameQueue : ∀ other, other ≠ timer →
      next.count (queuedOn other) = pool.count (queuedOn other) :=
    fun other differs => kept (queuedOn_cancel_other differs)
  have sameQueueOn : ∀ host other, other ≠ timer →
      next.count (forKey host (queuedOn other)) = pool.count (forKey host (queuedOn other)) := by
    intro _ _ differs
    refine kept fun task => ?_
    simp [forKey, cancel_key, queuedOn_cancel_other differs]
  have unqueuedOn : ∀ host, next.count (forKey host (queuedOn timer)) = 0 :=
    fun host => Nat.le_zero.mp (unqueued ▸ next.count_forKey_le host fun _ => id)
  have known : timer < pool.nextTimer ∧ timer ∉ pool.timedOut := by
    have owned : 0 < pool.count (owns timer) :=
      Nat.le_trans (Nat.le_of_eq isQueued.symm) (pool.count_forKey_le key fun _ => queuedOn_owns)
    constructor
    · by_contra future
      have unused := wakeful.fresh timer (Nat.le_of_not_lt future)
      omega
    · intro expiredBefore
      have gone := (wakeful.timedOut timer expiredBefore).2
      omega
  refine wakeful.of_fewer nextTimer (fun other => Nat.le_of_eq (sameOwners other)) (fun other => ?_)
    (fun other told => ?_) (fun _ out => .inl (timedOut ▸ out)) (fun host other => ?_)
    fun host => ?_
  · by_cases own : other = timer
    · exact own ▸ unqueued ▸ Nat.zero_le _
    · exact Nat.le_of_eq (sameQueue other own)
  · rw [notified, mem_append, mem_singleton] at told
    refine told.imp_right ?_
    rintro rfl
    exact ⟨known.1, unqueued, known.2⟩
  · have before := wakeful.queue host other
    by_cases own : other = timer
    · subst own
      rw [unqueuedOn]
      by_cases same : host = key
      · subst same
        rw [waiters, count_cons_self] at before
        rw [nextWaiters]
        omega
      · rw [others host same, before]
        exact elsewhere host same
    · rw [sameQueueOn host other own]
      by_cases same : host = key
      · subst same
        rw [waiters, count_cons_of_ne (fun equal => own equal.symm)] at before
        rw [nextWaiters, before]
      · rw [others host same, before]
  · have waiting := fewerWaiting host
    have woken := moreAborted host
    have before := wakeful.served host
    rw [config]
    by_cases same : host = key
    · subst same
      omega
    · have unaffected := elsewhere host same
      rw [others host same]
      omega

theorem Wakeful.announce {state : HostState} (waiters : state.waiters = (pool.host key).waiters)
    (active : (pool.host key).activeCount ≤ state.activeCount + 1)
    (punctual : ∀ timer, state.waiters.head? = some timer → pool.count (expired timer) = 0) :
    ((pool.setHost key state).notifyWaiter key).Wakeful := by
  have found : (pool.setHost key state).hosts.lookup key = some state := by simp [setHost]
  cases queue : state.waiters with
  | nil =>
    have nobody : pool.count (forKey key waits) = 0 := by
      by_contra somebody
      exact wakeful.waiters_ne_nil (Nat.pos_of_ne_zero somebody) (waiters ▸ queue)
    simp only [notifyWaiter, found, queue]
    refine ⟨wakeful.fresh, wakeful.single, fun other timer => ?_, fun other => ?_,
      wakeful.notified, wakeful.timedOut⟩
    · by_cases same : other = key
      · subst same
        rw [host_setHost_self, waiters]
        exact wakeful.queue other timer
      · rw [host_setHost_of_ne pool same]
        exact wakeful.queue other timer
    · by_cases same : other = key
      · subst same
        exact .inl nobody
      · rw [host_setHost_of_ne pool same]
        exact wakeful.served other
  | cons timer rest =>
    rw [queue] at waiters
    simp only [notifyWaiter, found, queue]
    refine wakeful.told rfl rfl rfl rfl rfl waiters.symm ?_ ?_ (fun other differs => ?_)
      (punctual timer (by rw [queue]; rfl))
    · exact congrArg HostState.waiters (host_setHost_self _ key { state with waiters := rest })
    · have after := congrArg HostState.activeCount
        (host_setHost_self (pool.setHost key state) key { state with waiters := rest })
      exact Nat.le_trans active (Nat.le_of_eq (congrArg (· + 1) after.symm))
    · exact (host_setHost_of_ne _ differs _).trans (host_setHost_of_ne pool differs state)

end Pool

end Coroserver.ConnectionPool
