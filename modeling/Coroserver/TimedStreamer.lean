import Coroserver.Machine

/-! The copies of a `TimedStreamer` share one socket and one timer. An operation
with a timeout arms the timer for itself, every operation cancels it when it is
over, and a timer that expires cancels whatever the socket has outstanding. -/

namespace Coroserver.TimedStreamer

open List Machine

def timeoutTicks (second : Nat) : Nat := 30 * second

inductive Direction where
  | read
  | write
deriving DecidableEq

/-- An operation is outstanding at the socket, or its completion is queued with
data or as cancelled at some time, or its coroutine has gone on. -/
inductive Progress where
  | outstanding
  | transferred
  | cancelled (time : Nat)
  | returned (cancelled : Option Nat)
deriving DecidableEq

structure Operation where
  direction : Direction
  timeout : Bool
  started : Nat
  progress : Progress := .outstanding

/-- The timer is the end of its pending wait. -/
structure Stream where
  clock : Nat := 0
  timer : Option Nat := none
  operations : List Operation := []

inductive StreamEvent where
  | tick (elapsed : Nat)
  | call (direction : Direction) (timeout : Bool)
  | transfer (operation : Nat)
  | expire
  | resume (operation : Nat)

def Operation.pending (operation : Operation) : Bool := operation.progress == .outstanding

def Operation.cancel (time : Nat) (operation : Operation) : Operation :=
  if operation.pending then { operation with progress := .cancelled time } else operation

def Operation.cancelledAt (operation : Operation) : Option Nat :=
  match operation.progress with
  | .cancelled time => some time
  | .returned cancelled => cancelled
  | .outstanding | .transferred => none

namespace Stream

variable (second : Nat) (stream : Stream)

def setTimeout : Stream :=
  { stream with timer := some (stream.clock + timeoutTicks second) }

def call (direction : Direction) (timeout : Bool) : Stream :=
  let armed := if timeout then stream.setTimeout second else stream
  { armed with
    operations := stream.operations ++ [{ direction, timeout, started := stream.clock }] }

def expired : Stream :=
  { stream with
    timer := none
    operations := stream.operations.map (Operation.cancel stream.clock) }

/-- The rest of `read` and `write`, which starts with `timer->cancel()`. -/
def resumed (index : Nat) (operation : Operation) : Stream :=
  { stream with
    timer := none
    operations := stream.operations.set index
      { operation with progress := .returned operation.cancelledAt } }

def step : StreamEvent → Option Stream
  | .tick elapsed => some { stream with clock := stream.clock + elapsed }
  | .call direction timeout => some (stream.call second direction timeout)
  | .transfer index =>
    match stream.operations[index]? with
    | some operation =>
      if operation.pending then
        some { stream with
          operations := stream.operations.set index
            { operation with progress := .transferred } }
      else none
    | none => none
  | .expire =>
    match stream.timer with
    | some expiry => if expiry ≤ stream.clock then some stream.expired else none
    | none => none
  | .resume index =>
    match stream.operations[index]? with
    | some operation =>
      match operation.progress with
      | .transferred | .cancelled _ => some (stream.resumed index operation)
      | .outstanding | .returned _ => none
    | none => none

/-- Time does not pass the end of a pending wait. -/
def prompt : StreamEvent → Bool
  | .tick elapsed => stream.timer.all fun expiry => stream.clock + elapsed ≤ expiry
  | _ => true

end Stream

def Operation.awaitsData (operation : Operation) : Bool :=
  operation.direction == .read && operation.timeout && operation.pending

namespace Stream

variable (second : Nat)

/-- While a timed read is outstanding no operation ends and none arms the timer
anew, and no untimed operation starts while a wait is pending that ends sooner
than one of its own would. -/
def undisturbed (stream : Stream) : StreamEvent → Bool
  | .call _ true => stream.operations.all fun operation =>
    !operation.awaitsData || operation.started == stream.clock
  | .call _ false => stream.timer.all fun expiry => stream.clock + timeoutTicks second ≤ expiry
  | .resume _ => stream.operations.all fun operation => !operation.awaitsData
  | .tick _ | .transfer _ | .expire => true

inductive OperationStep (stream : Stream) : StreamEvent → Operation → Prop where
  | kept {event operation} :
      operation ∈ stream.operations → (event = .expire → operation.pending = false) →
      OperationStep stream event operation
  | called (direction : Direction) (timeout : Bool) :
      OperationStep stream (.call direction timeout)
        { direction, timeout, started := stream.clock }
  | transferred {index old} :
      old ∈ stream.operations →
      OperationStep stream (.transfer index) { old with progress := .transferred }
  | cancelled {old} :
      old ∈ stream.operations → old.pending = true →
      OperationStep stream .expire { old with progress := .cancelled stream.clock }
  | returned {index old} :
      old ∈ stream.operations →
      OperationStep stream (.resume index) { old with progress := .returned old.cancelledAt }

variable {second}

theorem operations_step {stream next : Stream} {event : StreamEvent}
    (stepped : stream.step second event = some next) :
    ∀ operation ∈ next.operations, OperationStep stream event operation := by
  intro operation member
  revert stepped member
  fun_cases Stream.step second stream event with
  | case1 =>
    rintro ⟨⟩ member
    exact .kept member fun expires => by cases expires
  | case2 direction timeout =>
    rintro ⟨⟩ member
    rcases mem_append.mp member with old | new
    · exact .kept old fun expires => by cases expires
    · exact mem_singleton.mp new ▸ .called direction timeout
  | case3 _ _ found =>
    rintro ⟨⟩ member
    rcases mem_or_eq_of_mem_set member with old | rfl
    · exact .kept old fun expires => by cases expires
    · exact .transferred (mem_of_getElem? found)
  | case6 =>
    rintro ⟨⟩ member
    obtain ⟨old, present, rfl⟩ := mem_map.mp member
    unfold Operation.cancel
    split
    · rename_i pending
      exact .cancelled present pending
    · rename_i finished
      exact .kept present fun _ => by simpa using finished
  | case9 _ _ found | case10 _ _ found =>
    rintro ⟨⟩ member
    rcases mem_or_eq_of_mem_set member with old | rfl
    · exact .kept old fun expires => by cases expires
    · exact .returned (mem_of_getElem? found)
  | _ => rintro ⟨⟩

variable (second) in
def nextTimer (stream : Stream) : StreamEvent → Option Nat
  | .call _ true => some (stream.clock + timeoutTicks second)
  | .tick _ | .call _ false | .transfer _ => stream.timer
  | .expire | .resume _ => none

theorem clock_and_timer_step {stream next : Stream} {event : StreamEvent}
    (stepped : stream.step second event = some next) :
    (∃ elapsed, next.clock = stream.clock + elapsed ∧
      (elapsed = 0 ∨ event = .tick elapsed)) ∧ next.timer = stream.nextTimer second event := by
  have same : stream.clock = stream.clock + 0 := rfl
  revert stepped
  fun_cases Stream.step second stream event
  all_goals rintro ⟨⟩
  case case1 elapsed => exact ⟨⟨elapsed, rfl, .inr rfl⟩, rfl⟩
  case case2 direction timeout => cases timeout <;> exact ⟨⟨0, same, .inl rfl⟩, rfl⟩
  case case3 | case6 | case9 | case10 => exact ⟨⟨0, same, .inl rfl⟩, rfl⟩

theorem timer_of_expire {stream next : Stream} (stepped : stream.step second .expire = some next) :
    ∃ expiry, stream.timer = some expiry ∧ expiry ≤ stream.clock := by
  simp only [step] at stepped
  split at stepped
  · rename_i expiry armed
    split at stepped
    · rename_i reached
      exact ⟨expiry, armed, reached⟩
    · cases stepped
  · cases stepped

variable (second) in
structure Armed (stream : Stream) : Prop where
  started : ∀ operation ∈ stream.operations, operation.started ≤ stream.clock
  due : ∀ expiry, stream.timer = some expiry → stream.clock ≤ expiry
  covers : ∀ expiry, stream.timer = some expiry → ∀ operation ∈ stream.operations,
    operation.pending = true → operation.started + timeoutTicks second ≤ expiry
  guarded : ∀ operation ∈ stream.operations, operation.awaitsData = true →
    stream.timer = some (operation.started + timeoutTicks second)
  cancelled : ∀ operation ∈ stream.operations, ∀ time, operation.cancelledAt = some time →
    operation.started + timeoutTicks second ≤ time ∧
      (operation.direction = .read → operation.timeout = true →
        time = operation.started + timeoutTicks second)

namespace Armed

variable {stream next : Stream} {event : StreamEvent}

section

variable (armed : stream.Armed second) (stepped : stream.step second event = some next)

include armed stepped

theorem started_step : ∀ operation ∈ next.operations, operation.started ≤ next.clock := by
  obtain ⟨⟨_, clock, -⟩, -⟩ := clock_and_timer_step stepped
  have later : stream.clock ≤ next.clock := by omega
  intro operation member
  refine Nat.le_trans ?_ later
  cases operations_step stepped operation member with
  | kept old => exact armed.started _ old
  | called => exact Nat.le_refl _
  | @transferred _ former old | @cancelled former old | @returned _ former old =>
    exact armed.started former old

theorem due_step (prompt : stream.prompt event = true) :
    ∀ expiry, next.timer = some expiry → next.clock ≤ expiry := by
  obtain ⟨⟨_, clock, moved⟩, timer⟩ := clock_and_timer_step stepped
  intro expiry running
  rw [timer] at running
  rw [clock]
  rcases moved with rfl | rfl
  · cases event with
    | call _ timeout =>
      cases timeout with
      | true =>
        cases running
        exact Nat.le_add_right _ _
      | false => exact armed.due expiry running
    | tick | transfer => exact armed.due expiry running
    | expire | resume => cases running
  · simp only [nextTimer] at running
    simpa [Stream.prompt, running] using prompt

theorem covers_step (undisturbed : stream.undisturbed second event = true) :
    ∀ expiry, next.timer = some expiry → ∀ operation ∈ next.operations,
      operation.pending = true → operation.started + timeoutTicks second ≤ expiry := by
  obtain ⟨-, timer⟩ := clock_and_timer_step stepped
  intro expiry running operation member pending
  rw [timer] at running
  cases operations_step stepped operation member with
  | kept old =>
    cases event with
    | call _ timeout =>
      cases timeout with
      | true =>
        cases running
        exact Nat.add_le_add_right (armed.started _ old) _
      | false => exact armed.covers expiry running _ old pending
    | tick | transfer => exact armed.covers expiry running _ old pending
    | expire | resume => cases running
  | called _ timeout =>
    cases timeout with
    | true =>
      cases running
      exact Nat.le_refl _
    | false =>
      simp only [nextTimer] at running
      simpa [Stream.undisturbed, running] using undisturbed
  | transferred | cancelled | returned => cases pending

theorem guarded_step (undisturbed : stream.undisturbed second event = true) :
    ∀ operation ∈ next.operations, operation.awaitsData = true →
      next.timer = some (operation.started + timeoutTicks second) := by
  obtain ⟨-, timer⟩ := clock_and_timer_step stepped
  intro operation member awaits
  rw [timer]
  have pending : operation.pending = true := by
    simp only [Operation.awaitsData, Bool.and_eq_true] at awaits
    exact awaits.2
  cases operations_step stepped operation member with
  | kept old survives =>
    have guarded := armed.guarded _ old awaits
    cases event with
    | tick | transfer => exact guarded
    | call _ timeout =>
      cases timeout with
      | false => exact guarded
      | true =>
        have quiet := all_eq_true.mp undisturbed _ old
        simp only [awaits, Bool.not_true, Bool.false_or, beq_iff_eq] at quiet
        rw [nextTimer, quiet]
    | expire => exact absurd pending (by simp [survives rfl])
    | resume =>
      have quiet := all_eq_true.mp undisturbed _ old
      simp [awaits] at quiet
  | called _ timeout =>
    cases timeout with
    | true => rfl
    | false => simp [Operation.awaitsData] at awaits
  | transferred | cancelled | returned => cases pending

private theorem cancelled_step :
    ∀ operation ∈ next.operations, ∀ time, operation.cancelledAt = some time →
      operation.started + timeoutTicks second ≤ time ∧
        (operation.direction = .read → operation.timeout = true →
          time = operation.started + timeoutTicks second) := by
  intro operation member time recorded
  cases operations_step stepped operation member with
  | kept old => exact armed.cancelled _ old time recorded
  | called | transferred => cases recorded
  | @cancelled former old pending =>
    cases recorded
    obtain ⟨expiry, running, reached⟩ := timer_of_expire stepped
    have exactly : expiry = stream.clock := Nat.le_antisymm reached (armed.due expiry running)
    subst exactly
    refine ⟨armed.covers _ running former old pending, fun isRead isTimed => ?_⟩
    have awaits : former.awaitsData = true := by
      simp only [Operation.awaitsData, pending, Bool.and_true, Bool.and_eq_true, beq_iff_eq]
      exact ⟨isRead, isTimed⟩
    exact Option.some.inj (running.symm.trans (armed.guarded former old awaits))
  | @returned _ former old => exact armed.cancelled former old time recorded

theorem step (prompt : stream.prompt event = true)
    (undisturbed : stream.undisturbed second event = true) :
    next.Armed second where
  started := armed.started_step stepped
  due := armed.due_step stepped prompt
  covers := armed.covers_step stepped undisturbed
  guarded := armed.guarded_step stepped undisturbed
  cancelled := armed.cancelled_step stepped

end

end Armed

/-- In undisturbed runs a timed read without data is cancelled exactly when its
timeout is over, and no operation is cancelled before its own would be. -/
theorem timeouts_independent {events : List StreamEvent} {stream : Stream} (run : Run (step second)
      (fun stream event => stream.prompt event = true ∧ stream.undisturbed second event = true) {}
      events stream) :
    (∀ operation ∈ stream.operations, operation.direction = .read → operation.timeout = true →
      (operation.started + timeoutTicks second < stream.clock → operation.pending = false) ∧
        ∀ time, operation.cancelledAt = some time →
          time = operation.started + timeoutTicks second) ∧
      ∀ operation ∈ stream.operations, ∀ time, operation.cancelledAt = some time →
        operation.started + timeoutTicks second ≤ time := by
  have armed : stream.Armed second :=
    run.preserves (by constructor <;> simp) fun _ _ _ before admitted stepped =>
      before.step stepped admitted.1 admitted.2
  refine ⟨fun operation member isRead isTimed => ⟨fun late => ?_, fun time recorded =>
    (armed.cancelled operation member time recorded).2 isRead isTimed⟩,
    fun operation member time recorded => (armed.cancelled operation member time recorded).1⟩
  cases pending : operation.pending with
  | false => rfl
  | true =>
    have awaits : operation.awaitsData = true := by
      simp [Operation.awaitsData, isRead, isTimed, pending]
    have inTime := armed.due _ (armed.guarded operation member awaits)
    omega

theorem timeouts_independent_write_then_read :
    ∃ stream, exec (step 1) {} [.call .write true, .tick 2, .transfer 0, .resume 0,
        .call .read true, .tick 30, .expire, .resume 1, .tick 1] = some stream ∧
      ∀ operation ∈ stream.operations, ∀ time, operation.cancelledAt = some time →
        operation.started + timeoutTicks 1 ≤ time := by
  refine Exists.imp (fun stream run => ⟨run.exec_eq, (timeouts_independent run).2⟩)
    (exists_run_of_within ?_)
  decide

/-- A write that ends during a timed read takes its timeout away, and one that is
outstanding when the timeout of the read is over is cancelled with it. -/
theorem timeouts_interfere :
    (∃ stream, Run (step 1) (fun stream event => stream.prompt event = true) {}
        [.call .read true, .tick 5, .call .write false, .transfer 1, .resume 1,
          .tick 26] stream ∧ stream.clock = 31 ∧
      stream.operations[0]? = some ⟨.read, true, 0, .outstanding⟩ ∧ stream.timer = none) ∧
    ∃ stream, Run (step 1) (fun stream event => stream.prompt event = true) {}
        [.call .read true, .tick 20, .call .write false, .tick 10,
          .expire] stream ∧ stream.operations[1]? = some ⟨.write, false, 20, .cancelled 30⟩ := by
  constructor
  · refine ⟨_, .next rfl rfl (.next rfl rfl (.next rfl rfl (.next rfl rfl (.next rfl rfl
      (.next rfl rfl .done))))), ?_, ?_, ?_⟩ <;> rfl
  · refine ⟨_, .next rfl rfl (.next rfl rfl (.next rfl rfl (.next rfl rfl
      (.next rfl rfl .done)))), ?_⟩
    rfl

end Stream

end Coroserver.TimedStreamer
