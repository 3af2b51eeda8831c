import Coroserver.ConnectionPool.PoolProperties
import Coroserver.Http.WebClient

/-! An attempt fails, ends the execution with an error, or completes. -/

namespace Coroserver.Http

open ConnectionPool Retry List

variable {Body Result : Type}

inductive Outcome (Body : Type) where
  | failed (ec : SystemError)
  /-- The destination file cannot be opened. -/
  | ended (ec : SystemError)
  | completed (response : Response Body)

def Exchange.outcome (exchange : Exchange Body) : Outcome Body :=
  match exchange.acquire, exchange.sendRequest, exchange.receive with
  | .error ec, _, _ => .failed ec
  | .ok _, some ec, _ => .failed ec
  | .ok _, none, (some ec, _) => .failed ec
  | .ok _, none, (none, response) => .completed response

def Exchange.fileOutcome (exchange : Exchange Body) : Outcome Body :=
  match exchange.acquire, exchange.sendRequest, exchange.readResponseHeader with
  | .error ec, _, _ => .failed ec
  | .ok _, some ec, _ => .failed ec
  | .ok _, none, (some ec, _) => .failed ec
  | .ok _, none, (none, statusCode) =>
    if 200 ≤ statusCode ∧ statusCode < 300 then
      match exchange.openFile, exchange.receive with
      | some ec, _ => .ended ec
      | none, (some ec, _) => .failed ec
      | none, (none, response) => .completed response
    else .failed connectionRefused

def Outcome.verdict (completed : Response Body → Result) (ended : SystemError → Result) :
    Outcome Body → Verdict SystemError Result
  | .failed ec => .again ec
  | .ended ec => .stop (ended ec)
  | .completed response => .stop (completed response)

def Outcome.reusable (keepAlive : Bool) : Outcome Body → Bool
  | .completed response => response.keepAlive && keepAlive
  | .failed _ | .ended _ => false

def keptIf (lease : PooledConnection) (condition : Bool) : PooledConnection :=
  { lease with valid := lease.valid && condition }

theorem keptIf_false (lease : PooledConnection) : keptIf lease false = lease.markInvalid := by
  simp [keptIf, PooledConnection.markInvalid]

variable (client : WebClient Body)

theorem WebClient.settle_eq (response : Response Body) (lease : PooledConnection) :
    client.settle response lease = keptIf lease (response.keepAlive && client.keepAlive) := by
  rw [settle]
  cases response.keepAlive <;> cases client.keepAlive <;>
    simp [keptIf, PooledConnection.markInvalid]

open Outcome

open Exchange

theorem WebClient.attempt_eq (returnSuccess : Option SystemError → Response Body → Result)
    (ended : SystemError → Result) (exchange : Exchange Body) :
    client.attempt returnSuccess exchange =
      (exchange.outcome.verdict (returnSuccess none) ended,
        keptIf (client.acquire exchange).2 (exchange.outcome.reusable client.keepAlive)) := by
  unfold attempt outcome acquire
  cases exchange.acquire with
  | error => rfl
  | ok =>
    cases exchange.sendRequest with
    | some => simp [verdict, reusable, keptIf_false]
    | none =>
      obtain ⟨ec, _⟩ := exchange.receive
      cases ec with
      | some => simp [verdict, reusable, keptIf_false]
      | none => simp [verdict, reusable, settle_eq]

theorem FileExecutor.attempt_eq (filePath : String) (exchange : Exchange Body) :
    attempt client filePath exchange =
      (exchange.fileOutcome.verdict (fun _ => (none, filePath)) fun ec => (some ec, filePath),
        keptIf (client.acquire exchange).2 (exchange.fileOutcome.reusable client.keepAlive)) := by
  unfold attempt fileOutcome WebClient.acquire
  cases exchange.acquire with
  | error => rfl
  | ok =>
    cases exchange.sendRequest with
    | some => simp [verdict, reusable, keptIf_false]
    | none =>
      obtain ⟨ec, statusCode⟩ := exchange.readResponseHeader
      cases ec with
      | some hec => simp [verdict, reusable, keptIf_false]
      | none =>
        by_cases accepted : 200 ≤ statusCode ∧ statusCode < 300
        · have notRejected : ¬(statusCode < 200 ∨ statusCode ≥ 300) := by omega
          cases exchange.openFile with
          | some fec =>
            simp [accepted, notRejected, verdict, reusable, keptIf_false]
          | none =>
            obtain ⟨ec, _⟩ := exchange.receive
            cases ec with
            | some =>
              simp [accepted, notRejected, verdict, reusable, keptIf_false]
            | none =>
              simp [accepted, notRejected, verdict, reusable, WebClient.settle_eq]
        · have rejected : statusCode < 200 ∨ statusCode ≥ 300 := by omega
          simp [accepted, rejected, verdict, reusable, keptIf_false]

def held : List LeaseEvent → Int
  | [] => 0
  | .leased _ :: later => held later + 1
  | .returned _ :: later => held later - 1

def Balanced (events : List LeaseEvent) : Prop :=
  events = [] ∨ ∃ lease given, events = [.leased lease, .returned given]

theorem held_of_balanced {attempts : List (List LeaseEvent)}
    (balanced : ∀ events ∈ attempts, Balanced events) {events : List LeaseEvent}
    (happened : events <+: attempts.flatten) : 0 ≤ held events ∧ held events ≤ 1 := by
  induction attempts generalizing events with
  | nil =>
    rw [prefix_nil.mp happened]
    decide
  | cons first rest ih =>
    obtain ⟨now, later⟩ := forall_mem_cons.mp balanced
    rw [flatten_cons] at happened
    rcases now with rfl | ⟨lease, given, rfl⟩
    · exact ih later happened
    · rw [cons_append, singleton_append] at happened
      match events with
      | [] => decide
      | [event] =>
        obtain ⟨rfl, -⟩ := cons_prefix_cons.mp happened
        simp [held]
      | event :: next :: others =>
        obtain ⟨rfl, tail⟩ := cons_prefix_cons.mp happened
        obtain ⟨rfl, rest⟩ := cons_prefix_cons.mp tail
        have same : held (.leased lease :: .returned given :: others) = held others := by
          rw [held, held]
          omega
        rw [same]
        exact ih later rest

def Exchange.leases (client : WebClient Body) (condition : Bool) (exchange : Exchange Body) :
    List LeaseEvent :=
  match exchange.acquire with
  | .error _ => []
  | .ok (connection, token) =>
    [.leased ⟨true, client.getEndpoint, some connection, true, token⟩,
      .returned ⟨client.getEndpoint, some connection, condition, token⟩]

theorem Exchange.balanced_leases (condition : Bool)
    (exchange : Exchange Body) : Balanced (exchange.leases client condition) := by
  unfold leases
  split
  · exact .inl rfl
  · exact .inr ⟨_, _, rfl⟩

theorem WebClient.leaseEvents_keptIf (exchange : Exchange Body) (condition : Bool) :
    leaseEvents (client.acquire exchange).2 (keptIf (client.acquire exchange).2 condition) =
      exchange.leases client condition := by
  unfold acquire leases
  cases exchange.acquire with
  | error => rfl
  | ok => simp [leaseEvents, keptIf, PooledConnection.release]

theorem idle_returnConnection {pool : Pool} {given : GiveBack} {state : HostState}
    (present : pool.hosts.lookup given.key = some state) :
    ((pool.returnConnection given).host given.key).idle =
      given.reusable pool.clock ++ state.idle := by
  rw [Pool.returnConnection_eq present, (Pool.sameBooks_notifyWaiter _ _).idle]
  exact (pool.rebooked_setHost given.key _).idle

structure Handles (client : WebClient Body) (exchanges : Nat → Exchange Body)
    (outcome : Exchange Body → Outcome Body) (completed : Response Body → Result)
    (ended failed : SystemError → Result) (run : Result × List (List LeaseEvent)) : Prop where
  attempts_le : (run.2.length : Int) ≤ max 1 client.maxTries
  completes : ∀ (attempt : Nat) response, attempt < max 1 client.maxTries →
    (∀ earlier < attempt, ∃ ec, outcome (exchanges earlier) = .failed ec) →
    outcome (exchanges attempt) = .completed response →
      run.1 = completed response ∧ run.2.length = attempt + 1
  ends : ∀ (attempt : Nat) ec, attempt < max 1 client.maxTries →
    (∀ earlier < attempt, ∃ ec, outcome (exchanges earlier) = .failed ec) →
    outcome (exchanges attempt) = .ended ec → run.1 = ended ec ∧ run.2.length = attempt + 1
  fails : ∀ (last : Nat) ec, last + 1 = max 1 client.maxTries →
    (∀ earlier < last, ∃ ec, outcome (exchanges earlier) = .failed ec) →
    outcome (exchanges last) = .failed ec → run.1 = failed ec ∧ run.2.length = last + 1
  one_lease : ∀ events, events <+: run.2.flatten → 0 ≤ held events ∧ held events ≤ 1
  unleased : ∀ (attempt : Nat) ec, attempt < run.2.length →
    (exchanges attempt).acquire = .error ec → run.2[attempt]? = some []
  leased : ∀ (attempt : Nat) connection token, attempt < run.2.length →
    (exchanges attempt).acquire = .ok (connection, token) →
    ∃ lease given, run.2[attempt]? = some [.leased lease, .returned given] ∧
      lease.client = some connection ∧ given.client = some connection ∧
      ∀ (pool : Pool) state, pool.hosts.lookup client.getEndpoint = some state →
        ((pool.returnConnection given).host client.getEndpoint).idle =
          if (outcome (exchanges attempt)).reusable client.keepAlive then
            ⟨connection, pool.clock⟩ :: state.idle
          else state.idle

section

variable {client : WebClient Body} {exchanges : Nat → Exchange Body}
  {round : Exchange Body → Verdict SystemError Result × PooledConnection}
  {outcome : Exchange Body → Outcome Body} {completed : Response Body → Result}
  {ended : SystemError → Result}

def outcomeAttempts (client : WebClient Body) (outcome : Exchange Body → Outcome Body)
    (completed : Response Body → Result) (ended : SystemError → Result)
    (exchanges : Nat → Exchange Body) (number : Nat) :
    Verdict SystemError Result × List LeaseEvent :=
  ((outcome (exchanges number)).verdict completed ended,
    (exchanges number).leases client
      ((outcome (exchanges number)).reusable client.keepAlive))

theorem exists_again_of_failed {number : Nat}
    (failed : ∃ ec, outcome (exchanges number) = .failed ec) :
    ∃ ec, (outcomeAttempts client outcome completed ended exchanges number).1 = .again ec := by
  obtain ⟨ec, outcome⟩ := failed
  exact ⟨ec, by rw [outcomeAttempts, outcome]; rfl⟩

variable (same : ∀ exchange, round exchange = ((outcome exchange).verdict completed ended,
  keptIf (client.acquire exchange).2 ((outcome exchange).reusable client.keepAlive)))
include same

theorem retrying_eq (exchanges : Nat → Exchange Body) (returnFailed : Option SystemError → Result) :
    client.retrying round returnFailed exchanges =
      (match (run (outcomeAttempts client outcome completed ended exchanges)
          (max 1 client.maxTries).toNat).1 with
        | .ok result => result
        | .error lastEc => returnFailed lastEc,
        (run (outcomeAttempts client outcome completed ended exchanges)
          (max 1 client.maxTries).toNat).2) := by
  have attempts : (fun number => ((round (exchanges number)).1,
      WebClient.leaseEvents (client.acquire (exchanges number)).2 (round (exchanges number)).2)) =
      outcomeAttempts client outcome completed ended exchanges := by
    funext number
    rw [same, WebClient.leaseEvents_keptIf, outcomeAttempts]
  rw [← attempts]
  rfl

private theorem retrying_of_first_stop (returnFailed : Option SystemError → Result) {attempt : Nat}
    {result : Result} (within : (attempt : Int) < max 1 client.maxTries)
    (before : ∀ earlier < attempt, ∃ ec, outcome (exchanges earlier) = .failed ec)
    (stops : (outcome (exchanges attempt)).verdict completed ended = .stop result) :
    (client.retrying round returnFailed exchanges).1 = result ∧
      (client.retrying round returnFailed exchanges).2.length = attempt + 1 := by
  obtain ⟨returned, made⟩ := run_of_first_stop (by omega : attempt < (max 1 client.maxTries).toNat)
    (fun earlier below => exists_again_of_failed (before earlier below)) stops
  rw [retrying_eq same, returned]
  exact ⟨rfl, made⟩

theorem handles_retrying (exchanges : Nat → Exchange Body)
    (returnFailed : Option SystemError → Result) :
    Handles client exchanges outcome completed ended (fun ec => returnFailed (some ec))
      (client.retrying round returnFailed exchanges) := by
  have retried := retrying_eq same exchanges returnFailed
  obtain ⟨bounded, recorded⟩ := run_records
    (outcomeAttempts client outcome completed ended exchanges) (max 1 client.maxTries).toNat
  have limit : ((max 1 client.maxTries).toNat : Int) = max 1 client.maxTries := by omega
  generalize (max 1 client.maxTries).toNat = attempts at retried bounded recorded limit
  have recordAt : ∀ attempt,
      attempt < (run (outcomeAttempts client outcome completed ended exchanges) attempts).2.length →
      (run (outcomeAttempts client outcome completed ended exchanges) attempts).2[attempt]? =
        some ((exchanges attempt).leases client
          ((outcome (exchanges attempt)).reusable client.keepAlive)) := by
    intro attempt within
    have found := getElem?_eq_getElem within
    exact found.trans (congrArg some (recorded attempt _ found))
  constructor
  case completes =>
    intro _ _ within before completes
    exact retrying_of_first_stop same returnFailed within before
      (congrArg (verdict completed ended) completes)
  case ends =>
    intro _ _ within before ends
    exact retrying_of_first_stop same returnFailed within before
      (congrArg (verdict completed ended) ends)
  all_goals rw [retried]
  case attempts_le =>
    dsimp only
    omega
  case fails =>
    intro last ec number before fails
    obtain rfl : attempts = last + 1 := by omega
    obtain ⟨result, made⟩ := run_of_all_again
      (fun earlier below => exists_again_of_failed (before earlier below))
      (congrArg (verdict completed ended) fails)
    rw [result]
    exact ⟨rfl, made⟩
  case one_lease =>
    intro events happened
    refine held_of_balanced (fun record member => ?_) happened
    obtain ⟨attempt, found⟩ := mem_iff_getElem?.mp member
    rw [recorded attempt record found]
    exact balanced_leases _ _ _
  case unleased =>
    intro attempt ec within refused
    rw [recordAt attempt within, leases, refused]
  case leased =>
    intro attempt connection token within acquired
    refine ⟨⟨true, client.getEndpoint, some connection, true, token⟩,
      ⟨client.getEndpoint, some connection,
        (outcome (exchanges attempt)).reusable client.keepAlive, token⟩, ?_, rfl, rfl, ?_⟩
    · rw [recordAt attempt within, leases, acquired]
    · intro _ _ present
      refine (idle_returnConnection present).trans ?_
      cases (outcome (exchanges attempt)).reusable client.keepAlive <;> rfl

end

/-- The result of an execution follows from the outcomes of its attempts alone. Each attempt takes
one lease and gives it back, and the pool keeps the connection only after a completed exchange
that both sides want to go on. -/
theorem executors_retry_with_leases [Inhabited Body] (client : WebClient Body) (filePath : String)
    (exchanges : Nat → Exchange Body) :
    Handles client exchanges outcome (fun response => (none, response))
      (fun ec => (some ec, { body := default })) (fun ec => (some ec, { body := default }))
      (client.execute exchanges) ∧ Handles client exchanges outcome client.thenHandler
      (fun ec => client.orElseHandler (some ec)) (fun ec => client.orElseHandler (some ec))
      (client.executeHandled exchanges) ∧
    Handles client exchanges fileOutcome (fun _ => (none, filePath))
      (fun ec => (some ec, filePath)) (fun ec => (some ec, filePath))
      (FileExecutor.execute client filePath exchanges) ∧
    Handles client exchanges outcome (fun response => (none, response))
      (fun ec => (some ec, { body := default })) (fun ec => (some ec, { body := default }))
      (BufferExecutor.execute client exchanges) :=
  ⟨handles_retrying (client.attempt_eq (fun ec response => (ec, response)) _) exchanges
      fun ec => (ec, { body := default }),
    handles_retrying (client.attempt_eq (fun _ response => client.thenHandler response) _)
      exchanges client.orElseHandler,
    handles_retrying (FileExecutor.attempt_eq client filePath) exchanges
      fun lastEc => (lastEc, filePath),
    handles_retrying (client.attempt_eq (fun recvEc res => (recvEc, res)) _) exchanges
      fun lastEc => (lastEc, { body := default })⟩

end Coroserver.Http
