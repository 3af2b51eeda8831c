import Coroserver.ConnectionPool.PoolProperties

/-! A client is idle, held by one lease or being connected, and never two of these.
Together with the epochs of leases and connects this holds in every run, with
or without `clear`. -/

namespace Coroserver.ConnectionPool

namespace Pool

def places (pool : Pool) (client : Nat) : Nat :=
  pool.idling client + pool.leases.holding client + pool.connectsClient client

variable {pool next : Pool} {key : EndpointKey} {active : Nat} {event : PoolEvent}

theorem idling_reused {dropped rest : List IdleEntry} {entry : IdleEntry}
    (idle : (pool.host key).idle = dropped ++ entry :: rest)
    (hosts : pool.Rebooked next key active rest) (client : Nat) :
    next.idling client + (entry.client == client).toNat ≤ pool.idling client := by
  have moved := hosts.idling client
  rw [idle, List.countP_append, List.countP_cons] at moved
  cases same : entry.client == client <;> simp only [same] at moved ⊢ <;> simp at moved ⊢ <;> omega

theorem idling_drained (hosts : pool.Rebooked next key active []) (client : Nat) :
    next.idling client ≤ pool.idling client := by
  have moved := hosts.idling client
  simp only [List.countP_nil] at moved
  omega

theorem idling_failed (hosts : pool.Rebooked next key active (pool.host key).idle) (client : Nat) :
    next.idling client = pool.idling client := by
  have moved := hosts.idling client
  omega

theorem idling_returned {giveBack : GiveBack} (hosts : pool.Rebooked next giveBack.key active
      (giveBack.reusable pool.clock ++ (pool.host giveBack.key).idle)) (client : Nat) :
    next.idling client =
      pool.idling client + (LeaseTable.handsOver (some giveBack) client).toNat := by
  have moved := hosts.idling client
  rw [List.countP_append, giveBack.countP_reusable] at moved
  omega

theorem places_step (client : Nat) {owned : LeaseTable → Nat} (issued : ∀ table key made epoch,
      owned (table.issue key made epoch) = owned table + (made == client).toNat)
    (applied : ∀ {table next given}, LeaseTable.Effect table next given →
      owned next + (LeaseTable.handsOver given client).toNat ≤ owned table)
    (paired : pool.leases.Paired) (books : Books pool next event) :
    pool.nextClient ≤ next.nextClient ∧
      (next.idling client + owned next.leases + next.connectsClient client ≤
          pool.idling client + owned pool.leases + pool.connectsClient client ∨
        client < next.nextClient ∧ client = pool.nextClient ∧
          next.idling client + owned next.leases + next.connectsClient client ≤
            pool.idling client + owned pool.leases + pool.connectsClient client + 1) := by
  cases books with
  | kept _ same =>
    refine ⟨Nat.le_of_eq same.nextClient.symm, .inl ?_⟩
    simp [same.idling, same.leases, connectsClient, same.connects]
  | reused _ idle hosts leases connects nextClient =>
    refine ⟨Nat.le_of_eq nextClient.symm, .inl ?_⟩
    have moved := idling_reused idle hosts client
    simp only [leases, issued, connectsClient, connects]
    omega
  | opened _ _ hosts leases connects nextClient =>
    refine ⟨by omega, ?_⟩
    have moved := idling_drained hosts client
    simp only [leases, connectsClient, connects]
    by_cases isNew : pool.nextClient = client
    · refine .inr ⟨by omega, isNew.symm, ?_⟩
      simp only [isNew, beq_self_eq_true, Bool.toNat_true]
      omega
    · have other : (pool.nextClient == client) = false := by simpa using isNew
      simp only [other, Bool.toNat_false]
      omega
  | drained _ hosts leases connects nextClient =>
    refine ⟨Nat.le_of_eq nextClient.symm, .inl ?_⟩
    have moved := idling_drained hosts client
    simp only [leases, connectsClient, connects]
    omega
  | @established _ _ made _ _ _ hosts leases connects =>
    refine ⟨Nat.le_of_eq hosts.nextClient.symm, .inl ?_⟩
    have moved := connects fun _ made _ => made == client
    simp only [hosts.idling_eq, leases, issued, connectsClient]
    omega
  | @failed _ _ made _ _ _ _ hosts leases connects nextClient =>
    refine ⟨Nat.le_of_eq nextClient.symm, .inl ?_⟩
    have moved := connects fun _ made _ => made == client
    simp only [idling_failed hosts, leases, connectsClient]
    omega
  | handled operated _ hosts connects =>
    refine ⟨Nat.le_of_eq hosts.nextClient.symm, .inl ?_⟩
    have kept := applied (LeaseTable.apply_effect paired operated)
    simp only [hosts.idling_eq, connectsClient, connects]
    omega
  | returned operated _ hosts connects nextClient =>
    refine ⟨Nat.le_of_eq nextClient.symm, .inl ?_⟩
    have moved := applied (LeaseTable.apply_effect paired operated)
    simp only [idling_returned hosts, connectsClient, connects]
    omega
  | cleared _ leases _ idling connects nextClient =>
    refine ⟨Nat.le_of_eq nextClient.symm, .inl ?_⟩
    simp only [leases, idling, connectsClient, connects]
    omega

structure Discarded (pool : Pool) (client : Nat) : Prop where
  born : client < pool.nextClient
  notIdle : pool.idling client = 0
  notConnecting : pool.connectsClient client = 0
  unusable : pool.leases.usable client = 0

private theorem usable_issue (table : LeaseTable) (key : EndpointKey) (client : Nat) (epoch : Nat)
    (other : Nat) :
    (table.issue key client epoch).usable other =
      table.usable other + (client == other).toNat := by
  simp only [LeaseTable.usable, LeaseTable.count, LeaseTable.issue, Tally.countP_add]
  simp

theorem Discarded.step {client : Nat} (paired : pool.leases.Paired)
    (discarded : pool.Discarded client) (books : Books pool next event) :
    next.Discarded client := by
  obtain ⟨born, _⟩ := discarded
  obtain ⟨_, moved⟩ := places_step client (fun table key made epoch =>
    usable_issue table key made epoch client) (fun effect => effect.usable_le client) paired books
  have fewer := moved.resolve_right fun isNew => absurd born (by omega)
  exact ⟨by omega, by omega, by omega, by omega⟩

/-- What holds in every run: leases are conserved, no lease or connect is from
a later epoch, clients have one owner and retired clients stay away. -/
structure Orderly (pool : Pool) : Prop where
  leases : pool.leases.Sound
  leaseEpochs : pool.leases.outstanding (fun _ epoch => decide (pool.clears < epoch)) = 0
  connectEpochs : pool.connects (fun _ _ epoch => decide (pool.clears < epoch)) = 0
  owned : ∀ client, pool.places client ≤ 1
  unborn : ∀ client, pool.nextClient ≤ client → pool.places client = 0
  retired : ∀ client ∈ pool.leases.retired, pool.Discarded client

theorem orderly_create (config : ConnectionPoolConfig) : (create config).Orderly where
  leases := LeaseTable.sound_empty
  leaseEpochs := rfl
  connectEpochs := rfl
  owned := fun _ => Nat.zero_le 1
  unborn := fun _ _ => rfl
  retired := by simp [create]

theorem Books.leases_sound (books : Books pool next event) (sound : pool.leases.Sound) :
    next.leases.Sound := by
  cases books with
  | kept _ same => rwa [same.leases]
  | reused _ _ _ leases => rw [leases]; exact sound.issue _ _ _
  | opened _ _ _ leases | drained _ _ leases => rwa [leases]
  | established _ _ _ leases => rw [leases]; exact sound.issue _ _ _
  | failed _ _ _ leases => rwa [leases]
  | handled applied | returned applied =>
    exact sound.effect (LeaseTable.apply_effect sound.paired applied)
  | cleared _ leases => rwa [leases]

theorem Books.later_epochs (books : Books pool next event) (sound : pool.leases.Sound) :
    pool.clears ≤ next.clears ∧ ∀ limit, pool.clears ≤ limit →
      next.leases.outstanding (fun _ epoch => decide (limit < epoch)) ≤
        pool.leases.outstanding (fun _ epoch => decide (limit < epoch)) ∧
      next.connects (fun _ _ epoch => decide (limit < epoch)) ≤
        pool.connects (fun _ _ epoch => decide (limit < epoch)) := by
  have current : ∀ limit, pool.clears ≤ limit → decide (limit < pool.clears) = false := by
    intro limit reached
    simpa using reached
  cases books with
  | kept _ same => simp [same.clears, same.leases, same.connects]
  | reused _ _ _ leases connects _ clears =>
    refine ⟨Nat.le_of_eq clears.symm, fun limit reached => ?_⟩
    simp [leases, LeaseTable.outstanding_issue, connects, current limit reached]
  | opened _ _ _ leases connects _ clears =>
    refine ⟨Nat.le_of_eq clears.symm, fun limit reached => ?_⟩
    simp [leases, connects, current limit reached]
  | drained _ _ leases connects _ clears =>
    simp [leases, connects, clears]
  | @established _ _ _ epoch _ _ hosts leases connects =>
    refine ⟨Nat.le_of_eq hosts.clears.symm, fun limit reached => ?_⟩
    have moved := connects fun _ _ epoch => decide (limit < epoch)
    rw [leases, LeaseTable.outstanding_issue, current limit reached]
    exact ⟨Nat.le_refl _, by omega⟩
  | @failed _ _ _ epoch _ _ _ _ leases connects _ clears =>
    refine ⟨Nat.le_of_eq clears.symm, fun limit _ => ?_⟩
    have moved := connects fun _ _ epoch => decide (limit < epoch)
    rw [leases]
    exact ⟨Nat.le_refl _, by omega⟩
  | handled applied _ hosts connects =>
    refine ⟨Nat.le_of_eq hosts.clears.symm, fun limit _ => ?_⟩
    have moved := sound.effect_outstanding (LeaseTable.apply_effect sound.paired applied)
      fun _ epoch => decide (limit < epoch)
    exact ⟨by omega, Nat.le_of_eq (connects _)⟩
  | returned applied _ _ connects _ clears =>
    refine ⟨Nat.le_of_eq clears.symm, fun limit _ => ?_⟩
    have moved := sound.effect_outstanding (LeaseTable.apply_effect sound.paired applied)
      fun _ epoch => decide (limit < epoch)
    exact ⟨by omega, Nat.le_of_eq (connects _)⟩
  | cleared _ leases _ _ connects _ clears =>
    simp [leases, connects, clears]

theorem outstanding_eq_zero {table : LeaseTable} {limit : Nat} {test : EndpointKey → Nat → Bool}
    (none : table.outstanding (fun _ epoch => decide (limit < epoch)) = 0)
    (later : ∀ key epoch, test key epoch = true → limit < epoch) : table.outstanding test = 0 := by
  refine Nat.le_zero.mp (none ▸ List.countP_mono_left ?_)
  intro record _ selected
  simp only [Bool.and_eq_true, decide_eq_true_eq] at selected ⊢
  exact ⟨selected.1, later _ _ selected.2⟩

theorem connects_eq_zero {limit : Nat} {test : EndpointKey → Nat → Nat → Bool}
    (none : pool.connects (fun _ _ epoch => decide (limit < epoch)) = 0)
    (later : ∀ key client epoch, test key client epoch = true → limit < epoch) :
    pool.connects test = 0 := by
  refine Nat.le_zero.mp (none ▸ List.countP_mono_left ?_)
  intro task _ selected
  obtain ⟨pair, connect, tested⟩ := (Option.any_eq_true _ _).mp selected
  exact (Option.any_eq_true _ _).mpr ⟨pair, connect, decide_eq_true (later _ _ _ tested)⟩

theorem Orderly.newly_discarded {client : Nat} (orderly : pool.Orderly)
    (books : Books pool next event) (before : client ∉ pool.leases.retired)
    (after : client ∈ next.leases.retired) : next.Discarded client := by
  have unique := orderly.owned client
  have held : 0 < pool.leases.holding client →
      client < pool.nextClient ∧ pool.idling client = 0 ∧ pool.connectsClient client = 0 := by
    intro _
    simp only [places] at unique
    refine ⟨?_, by omega, by omega⟩
    by_contra future
    have absent := orderly.unborn client (Nat.le_of_not_lt future)
    simp only [places] at absent
    omega
  have operated : ∀ {op : LeaseOp} {given : Option GiveBack},
      pool.leases.apply op = some (next.leases, given) →
      next.idling client ≤ pool.idling client + (LeaseTable.handsOver given client).toNat →
      (∀ test, next.connects test = pool.connects test) → next.nextClient = pool.nextClient →
        next.Discarded client := by
    intro op given applied idling connects nextClient
    have effect := LeaseTable.apply_effect orderly.leases.paired applied
    have single : pool.leases.holding client ≤ 1 := by
      simp only [places] at unique
      omega
    obtain ⟨positive, unusable, kept⟩ := (effect.retired_cases after single).resolve_left before
    obtain ⟨born, notIdle, notConnecting⟩ := held positive
    rw [kept, notIdle] at idling
    refine ⟨by rwa [nextClient], Nat.le_zero.mp idling, ?_, unusable⟩
    simpa only [connectsClient, connects] using notConnecting
  cases books with
  | kept _ same => exact absurd (same.leases ▸ after) before
  | reused _ _ _ leases => exact absurd (by simpa [leases, LeaseTable.issue] using after) before
  | opened _ _ _ leases | drained _ _ leases => exact absurd (leases ▸ after) before
  | established _ _ _ leases =>
    exact absurd (by simpa [leases, LeaseTable.issue] using after) before
  | failed _ _ _ leases => exact absurd (leases ▸ after) before
  | handled applied _ hosts connects =>
    exact operated applied (hosts.idling_eq client ▸ Nat.le_add_right _ _) connects
      hosts.nextClient
  | returned applied _ hosts connects nextClient _ =>
    exact operated applied (Nat.le_of_eq (idling_returned hosts client)) connects nextClient
  | cleared _ leases => exact absurd (leases ▸ after) before

theorem Orderly.step (orderly : pool.Orderly) (stepped : pool.step event = some next) :
    next.Orderly := by
  have books := step_books stepped
  have paired := orderly.leases.paired
  obtain ⟨later, epochs⟩ := books.later_epochs orderly.leases
  have moved := fun client => places_step client (fun table key made epoch =>
    table.holding_issue key made epoch client) (fun effect => effect.holding_le client) paired books
  refine ⟨books.leases_sound orderly.leases, ?_, ?_, ?_, ?_, ?_⟩
  · have bounded := (epochs next.clears later).1
    rw [outstanding_eq_zero orderly.leaseEpochs fun _ _ above =>
      Nat.lt_of_le_of_lt later (of_decide_eq_true above)] at bounded
    exact Nat.le_zero.mp bounded
  · have bounded := (epochs next.clears later).2
    rw [connects_eq_zero orderly.connectEpochs fun _ _ _ above =>
      Nat.lt_of_le_of_lt later (of_decide_eq_true above)] at bounded
    exact Nat.le_zero.mp bounded
  · intro client
    have before := orderly.owned client
    rcases (moved client).2 with fewer | ⟨-, isNew, more⟩
    · exact Nat.le_trans fewer before
    · have absent := orderly.unborn client (Nat.le_of_eq isNew.symm)
      exact Nat.le_trans more (Nat.le_of_eq (congrArg (· + 1) absent))
  · intro client future
    obtain ⟨growing, fewer | ⟨born, -, -⟩⟩ := moved client
    · have absent := orderly.unborn client (Nat.le_trans growing future)
      exact Nat.le_zero.mp (absent ▸ fewer)
    · omega
  · intro client isRetired
    by_cases already : client ∈ pool.leases.retired
    · exact (orderly.retired client already).step paired books
    · exact orderly.newly_discarded books already isRetired

end Pool

end Coroserver.ConnectionPool
