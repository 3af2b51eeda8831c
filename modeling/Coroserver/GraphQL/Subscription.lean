import Coroserver.GraphQL.Execute
import Coroserver.Machine

/-! `TypedExecutor::executeSubscription` and `runSubscriptionLoop` with their
triggers, on one thread. A step is what happens between two suspensions of a
coroutine. Calls with one query, the same variables and one kind of trigger share a
session; sessions are numbered as they are made. A callback and the provider return at
any time, with any result. -/

namespace Coroserver.GraphQL

/-- `TimerTrigger` with its interval and `EventTrigger` with its two flags. -/
inductive SubscriptionTrigger where
  | timer (interval : Int)
  | event (pending cancelled : Bool)

/-- The suspended `wait` of a trigger. A timer that has been cancelled or has
expired holds the result until the coroutine resumes. -/
inductive TriggerWait where
  | timer (result : Option Bool)
  /-- Phase 1 of an `EventTrigger`; `timer_` has been cancelled. -/
  | sleeping (woken : Bool)
  /-- Phase 2, on a timer that nobody else knows. -/
  | window
deriving DecidableEq

namespace SubscriptionTrigger

def triggerKey : SubscriptionTrigger → Text
  | .timer interval => ascii (toString interval)
  | .event _ _ => ascii "event"

def cancel : SubscriptionTrigger → SubscriptionTrigger
  | .timer interval => .timer interval
  | .event pending _ => .event pending true

def fire : SubscriptionTrigger → SubscriptionTrigger
  | .timer interval => .timer interval
  | .event _ cancelled => .event true cancelled

def cancelled : SubscriptionTrigger → Bool
  | .timer _ => false
  | .event _ cancelled => cancelled

def clear : SubscriptionTrigger → SubscriptionTrigger
  | .timer interval => .timer interval
  | .event _ cancelled => .event false cancelled

def wait : SubscriptionTrigger → SubscriptionTrigger × TriggerWait
  | .timer interval => (.timer interval, .timer none)
  | .event true cancelled => (.event false cancelled, .window)
  | .event false cancelled => (.event false cancelled, .sleeping false)

end SubscriptionTrigger

namespace TriggerWait

def abort : TriggerWait → TriggerWait
  | .timer none => .timer (some false)
  | .timer (some result) => .timer (some result)
  | .sleeping _ => .sleeping true
  | .window => .window

/-- `fire` cancels the timer of an `EventTrigger` only. -/
def wake : TriggerWait → TriggerWait
  | .timer result => .timer result
  | .sleeping _ => .sleeping true
  | .window => .window

end TriggerWait

inductive SubscriptionLoop where
  | spawned
  /-- `co_await executeSubscriptionSelections(..)`. -/
  | fetching
  /-- The vector when the range-for began, the subscribers from the one whose callback
  is awaited on, and `failedSubIds`. -/
  | broadcasting (audience remaining failed : List Nat)
  | waiting (wait : TriggerWait)
  | finished
  /-- An exception has left the coroutine. -/
  | thrown
  /-- An iterator has been used that was no longer valid. -/
  | undefined
deriving DecidableEq

namespace SubscriptionLoop

def running : SubscriptionLoop → Bool
  | .spawned | .fetching | .broadcasting _ _ _ | .waiting _ => true
  | .finished | .thrown | .undefined => false

def isBroadcasting : SubscriptionLoop → Bool
  | .broadcasting _ _ _ => true
  | .spawned | .fetching | .waiting _ | .finished | .thrown | .undefined => false

def mapWait (change : TriggerWait → TriggerWait) : SubscriptionLoop → SubscriptionLoop
  | .waiting wait => .waiting (change wait)
  | loop => loop

end SubscriptionLoop

structure Broadcast where
  tick : Nat
  before : List Nat
  after : List Nat
deriving DecidableEq

structure SubscriptionSession where
  key : Text := []
  trigger : SubscriptionTrigger := .timer 0
  subscribers : List Nat := []
  nextSubscriberId : Nat := 1
  lastResult : Option Json := none
  active : Bool := true
  operation : Operation := {}
  /-- The coroutines of the session: the loop with its argument, the calls of
  `executeSubscription` on their disconnect timers, and the replays of a last result,
  each with the tick of that result. -/
  mergedVariables : Members := []
  loop : SubscriptionLoop := .finished
  suspended : List Nat := []
  replays : List (Nat × Nat) := []
  /-- From here on a history that no operation reads. -/
  loops : Nat := 0
  ticks : Nat := 0
  delivered : List (Nat × Nat) := []
  broadcasts : List Broadcast := []

namespace SubscriptionSession

variable (session : SubscriptionSession)

def subscribe : SubscriptionSession :=
  { session with
    nextSubscriberId := session.nextSubscriberId + 1
    subscribers := session.subscribers ++ [session.nextSubscriberId]
    suspended := session.suspended ++ [session.nextSubscriberId] }

def spawnLoop : SubscriptionSession :=
  { session with loop := .spawned, loops := session.loops + 1 }

def replay (id : Nat) : SubscriptionSession :=
  match session.lastResult with
  | none => session
  | some _ => { session with replays := session.replays ++ [(session.ticks, id)] }

def removeSubscriber (id : Nat) : SubscriptionSession :=
  { session with subscribers := session.subscribers.erase id }

def cancelTrigger : SubscriptionSession :=
  { session with
    trigger := session.trigger.cancel
    loop := session.loop.mapWait .abort }

def fireTrigger : SubscriptionSession :=
  match session.trigger with
  | .timer _ => session
  | .event _ _ =>
    { session with trigger := session.trigger.fire, loop := session.loop.mapWait .wake }

def cleanup (id : Nat) : SubscriptionSession :=
  let removed := session.removeSubscriber id
  if removed.subscribers = [] then removed.cancelTrigger else removed

def disconnect (id : Nat) : SubscriptionSession :=
  { session with suspended := session.suspended.erase id }.cleanup id

def stop : SubscriptionSession :=
  { session with loop := .finished }

def loopHead : SubscriptionSession :=
  if session.active = true ∧ session.subscribers ≠ [] then
    { session with loop := .fetching }
  else
    session.stop

def awaitTrigger : SubscriptionSession :=
  { session with
    trigger := session.trigger.wait.1
    loop := .waiting session.trigger.wait.2 }

def endBroadcast (audience failed : List Nat) : SubscriptionSession :=
  let ended := { session with
    broadcasts := session.broadcasts ++ [⟨session.ticks, audience, session.subscribers⟩] }
  let cleaned := failed.foldl removeSubscriber ended
  if cleaned.subscribers = [] then cleaned.stop else cleaned.awaitTrigger

def callNext (audience remaining failed : List Nat) : SubscriptionSession :=
  match remaining with
  | [] => session.endBroadcast audience failed
  | id :: rest =>
    { session with
      loop := .broadcasting audience (id :: rest) failed
      delivered := session.delivered ++ [(session.ticks, id)] }

def tickEvent : Except ExecutionError Json → Json
  | .error error => errorResponse error.message
  | .ok data => dataResponse data

def fetched (outcome : Except Exception (Except ExecutionError Json)) : SubscriptionSession :=
  match outcome with
  | .error _ => { session with loop := .thrown }
  | .ok tickResult =>
    { session with
      lastResult := some (tickEvent tickResult)
      ticks := session.ticks + 1 }.callNext session.subscribers session.subscribers []

/-- A callback throws, or returns whether it succeeded; the range-for then goes
on with an iterator into the vector as it was. -/
def callbackReturned (audience : List Nat) (id : Nat)
    (rest failed : List Nat) (result : Option Bool) : SubscriptionSession :=
  match result with
  | none => { session with loop := .thrown }
  | some ok =>
    if session.subscribers = audience then
      session.callNext audience rest (if ok then failed else failed ++ [id])
    else
      { session with loop := .undefined }

/-- `wait` behind its suspension, and the loop behind `wait`. -/
def waitReturned : TriggerWait → Option SubscriptionSession
  | .timer none | .sleeping false => none
  | .timer (some true) => some session.loopHead
  | .timer (some false) => some session.stop
  | .sleeping true =>
    if session.trigger.cancelled then some session.stop
    else some { session with trigger := session.trigger.clear, loop := .waiting .window }
  | .window =>
    if session.trigger.cancelled then some session.stop else some session.loopHead

end SubscriptionSession

abbrev Provider := List (ProviderRequest × Except Text Json) → ProviderData

inductive LoopEvent where
  | started
  | fetched (provider : Provider)
  | callbackReturned (result : Option Bool)
  | waitReturned

def SubscriptionSession.step (schema : TypedSchema) (session : SubscriptionSession) :
    LoopEvent → Option SubscriptionSession
  | .started =>
    match session.loop with
    | .spawned => some session.loopHead
    | _ => none
  | .fetched provider =>
    match session.loop with
    | .fetching => some (session.fetched (Interaction.run provider []
        (executeSubscriptionSelections schema session.operation.selections
          session.mergedVariables)))
    | _ => none
  | .callbackReturned result =>
    match session.loop with
    | .broadcasting audience (id :: rest) failed =>
      some (session.callbackReturned audience id rest failed result)
    | _ => none
  | .waitReturned =>
    match session.loop with
    | .waiting wait => session.waitReturned wait
    | _ => none

structure SubscriptionExecutor where
  sessions : Nat → SubscriptionSession := fun _ => {}
  created : Nat := 0
  activeSubscriptions : Text → Option Nat := fun _ => none

inductive SubscriptionEvent where
  | executeSubscription (query : Text) (vars : Members) (trigger : SubscriptionTrigger)
  | notifyFieldsChanged (fieldNames : List Text)
  /-- A disconnect timer ends its wait, so that the call returns. -/
  | disconnected (session id : Nat)
  | replayed (session tick id : Nat)
  | timerExpired (session : Nat)
  | loop (session : Nat) (event : LoopEvent)

structure SubscriptionRequest where
  operation : Operation
  mergedVariables : Members
  key : Text

def operationReferencesAnyField (operation : Operation) (fieldNames : List Text) : Bool :=
  operation.selections.any fun selection => fieldNames.contains selection.name

def SubscriptionRequest.newSession (request : SubscriptionRequest) (trigger : SubscriptionTrigger) :
    SubscriptionSession where
  key := request.key
  trigger := trigger
  operation := request.operation
  mergedVariables := request.mergedVariables

namespace SubscriptionExecutor

variable (executor : SubscriptionExecutor)

def set (i : Nat) (session : SubscriptionSession) : SubscriptionExecutor :=
  { executor with sessions := Function.update executor.sessions i session }

def setLoop (i : Nat) (session : SubscriptionSession) : SubscriptionExecutor :=
  match session.loop with
  | .finished =>
    { executor.set i session with
      activeSubscriptions := Function.update executor.activeSubscriptions session.key none }
  | _ => executor.set i session

def insert (session : SubscriptionSession) : SubscriptionExecutor :=
  { executor.set executor.created session with
    created := executor.created + 1
    activeSubscriptions :=
      Function.update executor.activeSubscriptions session.key (some executor.created) }

def notifyFieldsChanged (fieldNames : List Text) : SubscriptionExecutor :=
  { executor with
    sessions := fun i =>
      let session := executor.sessions i
      if executor.activeSubscriptions session.key = some i ∧
          operationReferencesAnyField session.operation fieldNames = true then
        session.fireTrigger
      else session }

section

variable (stod : Text → Bool) (dump : Members → Option Text)
  (schema : TypedSchema)

/-- `executeSubscription` up to the search for the session; a request that is not
accepted, or makes it throw, leaves no trace. `std::stod` and `dump` may throw. -/
def prepare (query : Text) (vars : Members) (trigger : SubscriptionTrigger) :
    Option SubscriptionRequest := do
  let parsed ← (Parser.tryParse stod query).toOption
  let operation ← (expandFragments parsed).toOption
  let _ ← (validateOperation schema operation).toOption
  let merged := mergedVariables operation vars
  let dumped ← dump merged
  some {
    operation
    mergedVariables := merged
    key := query ++ ascii "|" ++ dumped ++ ascii "|" ++ trigger.triggerKey }

def executeSubscription (executor : SubscriptionExecutor) (query : Text)
    (vars : Members) (trigger : SubscriptionTrigger) : SubscriptionExecutor :=
  match prepare stod dump schema query vars trigger with
  | none => executor
  | some request =>
    match executor.activeSubscriptions request.key with
    | none => executor.insert (request.newSession trigger).subscribe.spawnLoop
    | some i =>
      let session := executor.sessions i
      executor.set i (session.subscribe.replay session.nextSubscriberId)

def step (executor : SubscriptionExecutor) : SubscriptionEvent → Option SubscriptionExecutor
  | .executeSubscription query vars trigger =>
    some (executeSubscription stod dump schema executor query vars trigger)
  | .notifyFieldsChanged fieldNames => some (executor.notifyFieldsChanged fieldNames)
  | .disconnected i id =>
    let session := executor.sessions i
    if id ∈ session.suspended then some (executor.set i (session.disconnect id)) else none
  | .replayed i tick id =>
    let session := executor.sessions i
    if (tick, id) ∈ session.replays then
      some (executor.set i { session with
        replays := session.replays.erase (tick, id)
        delivered := session.delivered ++ [(tick, id)] })
    else none
  | .timerExpired i =>
    let session := executor.sessions i
    match session.loop with
    | .waiting (.timer none) =>
      some (executor.set i { session with loop := .waiting (.timer (some true)) })
    | _ => none
  | .loop i event => ((executor.sessions i).step schema event).map (executor.setLoop i)

end

end SubscriptionExecutor

end Coroserver.GraphQL
