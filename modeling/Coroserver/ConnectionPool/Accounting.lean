import Coroserver.ConnectionPool.Ownership

/-! The counter of a host is the number of leases and connects of the current epoch, and the pool
never exceeds its limit. -/

namespace Coroserver.ConnectionPool

open LeaseTable List Machine Option

namespace Pool

def owed (pool : Pool) (key : EndpointKey) : Nat :=
  pool.leases.outstanding (fun other epoch => other == key && epoch == pool.clears) +
    pool.connects (fun other _ epoch => other == key && epoch == pool.clears)

structure Accounted (pool : Pool) : Prop where
  active : ∀ key, pool.activeCount key = pool.owed key
  bounded : ∀ key,
    pool.activeCount key + pool.idleCount key ≤ pool.config.maxConnectionsPerHost

/-- A lease issued before the last `clear` is given back only where its host no
longer exists or has nothing to lose, and a connect started before it does not
succeed, and fails only where nothing is counted. -/
def Undisturbed (pool : Pool) : PoolEvent → Prop
  | .connected task ec =>
    match pool.tasks[task]? with
    | some ⟨key, _, .connecting _ epoch⟩ =>
      epoch = pool.clears ∨ ec ≠ none ∧ pool.activeCount key = 0
    | _ => True
  | .lease op =>
    match pool.leases.apply op with
    | some (_, some giveBack) =>
      pool.leases.epoch? giveBack.token = some pool.clears ∨
        pool.hosts.lookup giveBack.key = none ∨
        pool.activeCount giveBack.key = 0 ∧ giveBack.reusable pool.clock = []
    | _ => True
  | _ => True

/-- A lease issued before the last `clear` leaves all hosts as they are when it
is given back. -/
def SparesHosts (pool : Pool) (event : PoolEvent) (next : Pool) : Prop :=
  match event with
  | .lease op =>
    match pool.leases.apply op with
    | some (_, some giveBack) =>
      pool.leases.epoch? giveBack.token ≠ some pool.clears → ∀ key,
        next.activeCount key = pool.activeCount key ∧ next.idleCount key = pool.idleCount key
    | _ => True
  | _ => True

theorem accounted_create (config : ConnectionPoolConfig) : (create config).Accounted where
  active := fun _ => rfl
  bounded := fun _ => Nat.zero_le _

variable {pool next : Pool} {event : PoolEvent}

theorem owed_congr (leases : next.leases = pool.leases)
    (connects : ∀ test, next.connects test = pool.connects test)
    (clears : next.clears = pool.clears) (key : EndpointKey) : next.owed key = pool.owed key := by
  simp [owed, leases, connects, clears]

theorem accounted_iff : pool.Accounted ↔ ∀ key, (pool.host key).activeCount = pool.owed key ∧
    (pool.host key).activeCount + (pool.host key).idle.length ≤
      pool.config.maxConnectionsPerHost := by
  constructor
  · intro accounted key
    rw [← activeCount_eq, ← idleCount_eq]
    exact ⟨accounted.active key, accounted.bounded key⟩
  · intro hosts
    refine ⟨fun key => ?_, fun key => ?_⟩ <;> rw [activeCount_eq]
    · exact (hosts key).1
    · rw [idleCount_eq]
      exact (hosts key).2

theorem Accounted.rebooked {key : EndpointKey} {active : Nat} {idle : List IdleEntry}
    (accounted : pool.Accounted) (hosts : pool.Rebooked next key active idle)
    (owed : active = next.owed key)
    (others : ∀ other, other ≠ key → next.owed other = pool.owed other)
    (bounded : active + idle.length ≤ pool.config.maxConnectionsPerHost) : next.Accounted := by
  rw [accounted_iff] at accounted ⊢
  intro other
  rw [hosts.config]
  by_cases same : other = key
  · rw [same, hosts.active, hosts.idle]
    exact ⟨owed, bounded⟩
  · rw [hosts.otherActive other same, hosts.otherIdle other same, others other same]
    exact accounted other

theorem Accounted.sameHosts (accounted : pool.Accounted) (hosts : pool.SameHosts next)
    (owed : ∀ key, next.owed key = pool.owed key) : next.Accounted := by
  rw [accounted_iff] at accounted ⊢
  intro key
  rw [hosts.host_eq, hosts.config, owed]
  exact accounted key

/-- A debt of `key` ends, and it was counted unless it is older than the last `clear`. -/
theorem Accounted.settled {key : EndpointKey} {idle : List IdleEntry} (counted : Bool)
    (accounted : pool.Accounted)
    (hosts : pool.Rebooked next key ((pool.host key).activeCount - 1) idle)
    (ended : ∀ other, next.owed other + (key == other && counted).toNat = pool.owed other)
    (idling : idle.length ≤ (pool.host key).idle.length + counted.toNat)
    (unused : counted = false → (pool.host key).activeCount = 0) : next.Accounted := by
  obtain ⟨_, _⟩ := accounted_iff.mp accounted key
  have own := ended key
  refine accounted.rebooked hosts ?_ (fun other differs => ?_) ?_
  · cases counted <;> simp at own unused <;> omega
  · simpa [beq_false_of_ne differs.symm] using ended other
  · cases counted <;> simp at own unused idling <;> omega

theorem Accounted.step (accounted : pool.Accounted) (orderly : pool.Orderly)
    (undisturbed : pool.Undisturbed event) (books : Books pool next event) : next.Accounted := by
  have sound := orderly.leases
  have counts := accounted_iff.mp accounted
  cases books with
  | kept _ same =>
    refine accounted_iff.mpr fun key => ?_
    rw [same.active, same.idle, same.config, owed_congr same.leases same.connects same.clears]
    exact counts key
  | @reused _ key _ _ _ _ idle hosts leases connects _ clears =>
    obtain ⟨active, bounded⟩ := counts key
    rw [idle, length_append, length_cons] at bounded
    refine accounted.rebooked hosts ?_ (fun other differs => ?_) (by omega)
    · rw [active]
      simp only [owed, leases, outstanding_issue, connects, clears, beq_self_eq_true,
        Bool.and_true, Bool.toNat_true]
      omega
    · simp [owed, leases, outstanding_issue, connects, clears, beq_false_of_ne differs.symm]
  | @opened _ key _ free hosts leases connects _ clears =>
    refine accounted.rebooked hosts ?_ (fun other differs => ?_) free
    · rw [(counts key).1]
      simp only [owed, leases, connects, clears, beq_self_eq_true, Bool.and_true, Bool.toNat_true]
      omega
    · simp [owed, leases, connects, clears, beq_false_of_ne differs.symm]
  | @drained _ key _ hosts leases connects _ clears =>
    have owed := owed_congr leases connects clears
    refine accounted.rebooked hosts ?_ (fun other _ => owed other) ?_
    · rw [(counts key).1, owed]
    · exact Nat.le_trans (Nat.le_add_right _ _) (counts key).2
  | @established _ value _ epoch found phase hosts leases connects =>
    obtain ⟨_, _⟩ := value
    subst phase
    simp only [Undisturbed, found, ne_eq, not_true_eq_false, false_and, or_false] at undisturbed
    subst undisturbed
    refine accounted.sameHosts hosts fun other => ?_
    have moved := connects fun candidate _ epoch => candidate == other && epoch == pool.clears
    simp only at moved
    simp only [owed, leases, outstanding_issue, hosts.clears]
    omega
  | @failed _ value _ epoch _ found phase hosts leases connects _ clears =>
    obtain ⟨_, _⟩ := value
    subst phase
    simp only [Undisturbed, found, activeCount_eq] at undisturbed
    refine accounted.settled (epoch == pool.clears) hosts (fun other => ?_) (Nat.le_add_right _ _)
      fun stale => (undisturbed.resolve_left (ne_of_beq_false stale)).2
    have ended := connects fun candidate _ epoch => candidate == other && epoch == pool.clears
    simp only at ended
    simp only [owed, leases, clears]
    omega
  | @handled op given applied unnoticed hosts connects =>
    have effect := apply_effect sound.paired applied
    refine accounted.sameHosts hosts fun key => ?_
    have moved := sound.effect_outstanding effect
      fun other epoch => other == key && epoch == pool.clears
    have uncounted : (given.any fun giveBack => (pool.leases.epoch? giveBack.token).any
        fun epoch => giveBack.key == key && epoch == pool.clears) = false := by
      cases given with
      | none => rfl
      | some giveBack =>
        by_contra counted
        simp only [any_some, Bool.not_eq_false] at counted
        have sameKey : giveBack.key = key := by
          obtain ⟨epoch, -, matching⟩ := (any_eq_true _ _).mp counted
          simp only [Bool.and_eq_true, beq_iff_eq] at matching
          exact matching.1
        have absent := unnoticed giveBack rfl
        have active := accounted.active key
        simp only [any_some, counted, Bool.toNat_true] at moved
        rw [← sameKey] at active moved
        simp only [activeCount, absent, owed] at active
        omega
    simp only [uncounted, Bool.toNat_false] at moved
    simp only [owed, hosts.clears, connects]
    omega
  | @returned _ giveBack _ applied present hosts connects _ clears =>
    simp only [Undisturbed, applied, present, reduceCtorEq, false_or, activeCount_eq]
      at undisturbed
    refine accounted.settled (pool.leases.epoch? giveBack.token == some pool.clears) hosts
      (fun other => ?_) ?_ fun stale => (undisturbed.resolve_left (ne_of_beq_false stale)).1
    · have ended := sound.effect_outstanding (apply_effect sound.paired applied)
        fun candidate epoch => candidate == other && epoch == pool.clears
      have counted : ((pool.leases.epoch? giveBack.token).any
          fun epoch => giveBack.key == other && epoch == pool.clears) =
          (giveBack.key == other && pool.leases.epoch? giveBack.token == some pool.clears) := by
        cases pool.leases.epoch? giveBack.token <;> simp
      simp only [any_some, counted] at ended
      simp only [owed, connects, clears]
      omega
    · have single := giveBack.reusable_length_le pool.clock
      rw [length_append]
      rcases undisturbed with current | ⟨-, discarded⟩
      · simp only [current, beq_self_eq_true, Bool.toNat_true]
        omega
      · simp [discarded]
  | cleared _ leases hosts _ connects _ clears =>
    constructor
    · intro key
      have noLease : pool.leases.outstanding
          (fun other epoch => other == key && epoch == pool.clears + 1) = 0 :=
        outstanding_eq_zero orderly.leaseEpochs fun _ _ selected => by
          simp only [Bool.and_eq_true, beq_iff_eq] at selected
          omega
      have noConnect : pool.connects
          (fun other _ epoch => other == key && epoch == pool.clears + 1) = 0 :=
        connects_eq_zero orderly.connectEpochs fun _ _ _ selected => by
          simp only [Bool.and_eq_true, beq_iff_eq] at selected
          omega
      simp [activeCount_eq, hosts, owed, leases, connects, clears, noLease, noConnect]
    · intro key
      simp [activeCount_eq, idleCount_eq, hosts]

theorem Accounted.sparesHosts (undisturbed : pool.Undisturbed event)
    (books : Books pool next event) : pool.SparesHosts event next := by
  cases books with
  | @handled _ given applied _ hosts =>
    cases given with
    | none => simp [SparesHosts, applied]
    | some =>
      simp only [SparesHosts, applied]
      intro _ key
      simp [activeCount_eq, idleCount_eq, hosts.host_eq]
  | @returned _ giveBack _ applied present hosts =>
    simp only [Undisturbed, applied, present, reduceCtorEq, false_or] at undisturbed
    simp only [SparesHosts, applied]
    intro stale key
    obtain ⟨unused, discarded⟩ := undisturbed.resolve_left stale
    rw [activeCount_eq] at unused
    simp only [activeCount_eq, idleCount_eq]
    by_cases same : key = giveBack.key
    · subst same
      rw [hosts.active, hosts.idle, unused, discarded]
      exact ⟨rfl, rfl⟩
    · rw [hosts.otherActive key same, hosts.otherIdle key same]
      exact ⟨rfl, rfl⟩
  | kept internal | reused internal | opened internal | drained internal =>
    unfold SparesHosts
    split
    · simp [PoolEvent.internal] at internal
    · trivial
  | established | failed | cleared => trivial

theorem Accounted.undisturbed (accounted : pool.Accounted) (books : Books pool next event)
    (after : next.Accounted) (spares : pool.SparesHosts event next) : pool.Undisturbed event := by
  cases books with
  | @established _ value _ epoch found phase hosts leases connects =>
    obtain ⟨key, _⟩ := value
    subst phase
    simp only [Undisturbed, found, ne_eq, not_true_eq_false, false_and, or_false]
    by_contra stale
    have active := accounted.active key
    have activeAfter := after.active key
    have moved := connects fun candidate _ epoch => candidate == key && epoch == pool.clears
    simp only [beq_false_of_ne stale, Bool.and_false, Bool.toNat_false] at moved
    rw [activeCount_eq, hosts.host_eq, ← activeCount_eq] at activeAfter
    simp only [owed, leases, outstanding_issue, hosts.clears, beq_self_eq_true,
      Bool.and_true, Bool.toNat_true] at active activeAfter
    omega
  | @failed _ value _ epoch _ found phase hosts leases connects _ clears =>
    obtain ⟨key, _⟩ := value
    subst phase
    simp only [Undisturbed, found, ne_eq, reduceCtorEq, not_false_eq_true, true_and]
    by_contra disturbed
    push Not at disturbed
    obtain ⟨stale, counted⟩ := disturbed
    have active := accounted.active key
    have activeAfter := after.active key
    have moved := connects fun candidate _ epoch => candidate == key && epoch == pool.clears
    simp only [beq_false_of_ne stale, Bool.and_false, Bool.toNat_false] at moved
    have activeNext := hosts.active
    simp only at activeNext
    rw [activeCount_eq] at active activeAfter counted
    simp only [owed, leases, clears] at active activeAfter
    omega
  | @handled _ given applied unnoticed =>
    cases given with
    | none => simp [Undisturbed, applied]
    | some giveBack => simp [Undisturbed, applied, unnoticed giveBack rfl]
  | @returned _ giveBack _ applied present hosts _ _ clears =>
    simp only [Undisturbed, applied, present, reduceCtorEq, false_or]
    by_cases stale : pool.leases.epoch? giveBack.token = some pool.clears
    · exact .inl stale
    · simp only [SparesHosts, applied] at spares
      obtain ⟨sameActive, sameIdle⟩ := spares stale giveBack.key
      rw [activeCount_eq, activeCount_eq, hosts.active] at sameActive
      rw [idleCount_eq, idleCount_eq, hosts.idle, length_append] at sameIdle
      refine .inr ⟨?_, length_eq_zero_iff.mp (by omega)⟩
      rw [activeCount_eq]
      omega
  | kept internal | reused internal | opened internal | drained internal =>
    unfold Undisturbed
    split
    · simp [PoolEvent.internal] at internal
    · simp [PoolEvent.internal] at internal
    · trivial
  | cleared => trivial

def Faithful (pool : Pool) (event : PoolEvent) (next : Pool) : Prop :=
  next.Accounted ∧ pool.SparesHosts event next

/-- After a `clear` the counters stay right exactly as long as no lease and no connect of an
earlier epoch reaches a host again. -/
theorem accounting_across_clear_iff {config : ConnectionPoolConfig} {events : List PoolEvent}
    {final : Pool} (executed : exec Pool.step (create config) events = some final) :
    Along Pool.step Faithful (create config) events ↔
      Run Pool.step Undisturbed (create config) events final := by
  refine along_iff_run (fun pool => pool.Orderly ∧ pool.Accounted)
    ⟨orderly_create config, accounted_create config⟩ executed ?_ ?_
  · intro _ _ _ before undisturbed stepped
    obtain ⟨orderly, accounted⟩ := before
    exact ⟨orderly.step stepped, accounted.step orderly undisturbed (step_books stepped)⟩
  · intro _ _ _ before stepped
    obtain ⟨orderly, accounted⟩ := before
    have books := step_books stepped
    constructor
    · intro faithful
      exact accounted.undisturbed books faithful.1 faithful.2
    · intro undisturbed
      exact ⟨accounted.step orderly undisturbed books, Accounted.sparesHosts undisturbed books⟩

theorem accounting_across_early_give_back :
    Along Pool.step Faithful (create { maxConnectionsPerHost := 1 })
      [.acquire ⟨"host", "80"⟩, .connected 0 none, .clear, .lease (.release 0),
        .acquire ⟨"host", "80"⟩, .connected 1 none] := by
  refine Exists.elim (?_ : ∃ final, Run Pool.step Undisturbed _ _ final)
    fun final run => (accounting_across_clear_iff run.exec_eq).mpr run
  exact ⟨_, .next trivial rfl (.next (Or.inl rfl) rfl (.next trivial rfl
    (.next (Or.inr (.inl rfl)) rfl (.next trivial rfl (.next (Or.inl rfl) rfl .done)))))⟩

theorem late_give_back_disturbs_host :
    ∃ final, exec Pool.step (create { maxConnectionsPerHost := 1 })
        [.acquire ⟨"host", "80"⟩, .connected 0 none, .clear, .acquire ⟨"host", "80"⟩,
          .connected 1 none, .lease (.release 0)] = some final ∧
      final.activeCount ⟨"host", "80"⟩ ≠ final.owed ⟨"host", "80"⟩ ∧
      final.idleCount ⟨"host", "80"⟩ = 1 :=
  ⟨_, rfl, by decide, by decide⟩

theorem Books.config_eq (books : Books pool next event) : next.config = pool.config := by
  cases books with
  | kept _ same => exact same.config
  | reused _ _ hosts | opened _ _ hosts | drained _ hosts | established _ _ hosts =>
    exact hosts.config
  | failed _ _ hosts | handled _ _ hosts | returned _ _ hosts => exact hosts.config
  | cleared config => exact config

theorem Books.clears_eq (books : Books pool next event) (notClear : event ≠ .clear) :
    next.clears = pool.clears := by
  cases books with
  | kept _ same => exact same.clears
  | reused _ _ _ _ _ _ clears | opened _ _ _ _ _ _ clears | drained _ _ _ _ _ clears => exact clears
  | established _ _ hosts => exact hosts.clears
  | failed _ _ _ _ _ _ clears => exact clears
  | handled _ _ hosts => exact hosts.clears
  | returned _ _ _ _ _ clears => exact clears
  | cleared => exact absurd rfl notClear

theorem Orderly.undisturbed (orderly : pool.Orderly) (first : pool.clears = 0) (event : PoolEvent) :
    pool.Undisturbed event := by
  unfold Undisturbed
  split
  · split
    · rename_i found
      left
      by_contra later
      have counted : 0 < pool.connects fun _ _ epoch => decide (pool.clears < epoch) := by
        refine Tally.countP_pos _ found ?_
        simp only [AcquireTask.connects, Phase.connect?, any_some, decide_eq_true_eq]
        omega
      have none := orderly.connectEpochs
      omega
    · trivial
  · split
    · rename_i applied
      left
      have effect := apply_effect orderly.leases.paired applied
      obtain ⟨epoch, known⟩ := orderly.leases.effect_epoch effect
      have moved := orderly.leases.effect_outstanding effect
        fun _ epoch => decide (pool.clears < epoch)
      have none := orderly.leaseEpochs
      simp only [any_some, known, first] at moved none ⊢
      have current : decide (0 < epoch) = false := by
        cases later : decide (0 < epoch) with
        | true =>
          simp only [later, Bool.toNat_true] at moved
          omega
        | false => rfl
      simp only [decide_eq_false_iff_not] at current
      simp only [some.injEq]
      omega
    · trivial
  · trivial

theorem owed_eq_of_first (orderly : pool.Orderly) (first : pool.clears = 0) (key : EndpointKey) :
    pool.owed key = pool.leases.outstanding (fun other _ => other == key) +
      pool.connects (fun other _ _ => other == key) := by
  have noLaterLease := orderly.leaseEpochs
  have noLaterConnect := orderly.connectEpochs
  simp only [outstanding, countP_eq_zero] at noLaterLease
  simp only [connects, countP_eq_zero] at noLaterConnect
  have sameLeases : pool.leases.outstanding
      (fun other epoch => other == key && epoch == pool.clears) =
        pool.leases.outstanding fun other _ => other == key := by
    apply countP_congr
    intro record present
    have current := noLaterLease record present
    simp only [Bool.and_eq_true, beq_iff_eq, decide_eq_true_eq, not_and] at current ⊢
    constructor
    · rintro ⟨unreturned, sameKey, -⟩
      exact ⟨unreturned, sameKey⟩
    · rintro ⟨unreturned, sameKey⟩
      have notLater := current unreturned
      exact ⟨unreturned, sameKey, by omega⟩
  have sameConnects : pool.connects (fun other _ epoch => other == key && epoch == pool.clears) =
      pool.connects fun other _ _ => other == key := by
    apply countP_congr
    intro task present
    have current := noLaterConnect task present
    cases connect : task.phase.connect? with
    | none => simp [AcquireTask.connects, connect]
    | some =>
      simp only [AcquireTask.connects, connect, any_some, decide_eq_true_eq,
        Bool.and_eq_true, beq_iff_eq] at current ⊢
      constructor
      · rintro ⟨sameKey, -⟩
        exact sameKey
      · intro sameKey
        exact ⟨sameKey, by omega⟩
  rw [owed, sameLeases, sameConnects]

def WithoutClear (_ : Pool) (event : PoolEvent) : Prop := event ≠ .clear

structure FirstEpoch (config : ConnectionPoolConfig) (pool : Pool) : Prop where
  orderly : pool.Orderly
  accounted : pool.Accounted
  first : pool.clears = 0
  sameConfig : pool.config = config

theorem FirstEpoch.step {config : ConnectionPoolConfig} (before : pool.FirstEpoch config)
    (notClear : event ≠ .clear) (stepped : pool.step event = some next) :
    next.FirstEpoch config := by
  have books := step_books stepped
  have undisturbed := before.orderly.undisturbed before.first event
  exact ⟨before.orderly.step stepped, before.accounted.step before.orderly undisturbed books,
    (books.clears_eq notClear).trans before.first, books.config_eq.trans before.sameConfig⟩

/-- Without `clear` there is one epoch, and the counters are right in every run. -/
theorem accounting_without_clear {config : ConnectionPoolConfig} {events : List PoolEvent}
    {pool : Pool} (run : Run Pool.step WithoutClear (create config) events pool) :
    (∀ key, pool.activeCount key = pool.leases.outstanding (fun other _ => other == key) +
        pool.connects (fun other _ _ => other == key)) ∧
      (∀ key, pool.activeCount key + pool.idleCount key ≤ config.maxConnectionsPerHost) ∧
      (∀ token record, pool.leases.ledger[token]? = some record →
        record.givenBack + pool.leases.holders token = 1) ∧
      ∀ client ∈ pool.leases.retired, ∀ key, ∀ entry ∈ (pool.host key).idle,
        entry.client ≠ client := by
  have invariant : pool.FirstEpoch config :=
    run.preserves ⟨orderly_create config, accounted_create config, rfl, rfl⟩
      fun _ _ _ before notClear stepped => before.step notClear stepped
  obtain ⟨orderly, accounted, first, rfl⟩ := invariant
  refine ⟨fun key => ?_, accounted.bounded, orderly.leases.conserved,
    fun client isRetired key entry idle same => ?_⟩
  · rw [accounted.active, owed_eq_of_first orderly first]
  · have absent := (orderly.retired client isRetired).notIdle
    have bounded := pool.idle_le_idling key client
    have counted : 0 < (pool.host key).idle.countP fun candidate => candidate.client == client :=
      countP_pos_iff.mpr ⟨entry, idle, by simpa using same⟩
    omega

theorem accounting_of_moved_leases :
    ∃ pool, exec Pool.step (create { maxConnectionsPerHost := 2 })
        [.acquire ⟨"host", ""⟩, .connected 0 none, .acquire ⟨"host", ""⟩, .connected 1 none,
          .lease (.moveConstruct 0), .lease (.markInvalid 2), .lease (.destroy 0),
          .lease (.destroy 2), .lease (.release 1), .acquire ⟨"other", ""⟩] = some pool ∧
      pool.leases.retired = [0] ∧ pool.idleCount ⟨"host", ""⟩ = 1 ∧
      ∀ key, pool.activeCount key = pool.leases.outstanding (fun other _ => other == key) +
        pool.connects (fun other _ _ => other == key) := by
  refine exists_exec_and ⟨_, rfl, by decide⟩ fun pool executed _ => ?_
  refine ⟨?_, (accounting_without_clear (run_of_exec_of_forall (by simp) executed)).1⟩
  cases some.inj executed
  decide

end Pool

end Coroserver.ConnectionPool
