import Coroserver.Event.TaskQueue
import Mathlib.Data.List.AList
import Mathlib.Data.List.Infix

/-! The sending side of `EventQueue`: events are kept under the time at which they
were added and sent by tasks of the task queue. A handler runs from one
suspension point to the next; what it was waiting for is the outcome of an
event. Every event that reads `epocNow` carries the reading. -/

namespace Coroserver.Event

def done : String := "Done"

def timeToLive : Int := 60

def makeEvent (id data : String) : String := id ++ ":" ++ data

def makeEventWithDelim (id data : String) : String := makeEvent id data ++ "\r\n\r\n"

def parseEvent (event : String) : String × String :=
  match event.toList.span (· != ':') with
  | (id, _ :: data) => (String.ofList id, String.ofList data)
  | (_, []) => (event, "")

/-- Without a colon the id is a C string. -/
def getEventId (event : String) : String :=
  if event.toList.contains ':' then String.ofList (event.toList.takeWhile (· != ':'))
  else String.ofList (event.toList.takeWhile (· != '\x00'))

def mentionsBarrier (event : String) : Bool := decide ("Barrier".toList <:+: event.toList)

/-- The difference of two readings in microseconds, converted to seconds as if
it were in milliseconds. -/
def timeDiff (now id : UInt64) : Int := (now - id).toInt64.toInt.tdiv 1000

inductive Stage where
  | spawned
  | writing
  | readingHeader
  | providing (header : String)
  | readingDone
  | returning (failed : Bool)

/-- The tasks of the event queue with the values bound to them. A send also has
the number of the call of `addEvent` that it is made for; no operation reads it. -/
inductive HandlerCall where
  | sendEventHandler (id : UInt64) (provider : String) (event : String) (origin : Nat)
  | barrierHandler (event : String)

structure Handler where
  call : HandlerCall
  stage : Stage := .spawned

inductive Outcome where
  | failed
  | succeeded
  | header (text : String)

structure EventQueue where
  taskQueue : TaskQueue Handler
  eventProviders : List String := ["default"]
  events : AList (fun _ : UInt64 => String) := ∅
  lastBarrierTime : UInt64 := 0
  /-- From here on a history that no operation reads. -/
  added : List (Option UInt64 × String) := []
  settled : List Nat := []
  writes : List (Nat × String) := []

inductive EventQueueEvent where
  | addEventProvider (eventId : String)
  | setQueEndPoint (endPoint : EndPoint)
  | addEvent (event : String) (now : UInt64)
  | beginBarrier
  | endBarrier
  | resume (coroutine : Nat) (now : UInt64)
  | connected (coroutine : Nat) (failed : Bool)
  | proceed (coroutine : Nat) (outcome : Outcome) (now : UInt64)
  | returned (coroutine : Nat)
  | closed (client : Nat)

namespace EventQueue

def create (endPoint : EndPoint) (maxConnections : Nat) : EventQueue :=
  { taskQueue := .create endPoint maxConnections }

def addTask (queue : EventQueue) (call : HandlerCall) (front : Bool) : EventQueue :=
  { queue with taskQueue := queue.taskQueue.addTask { call } front }

variable (queue : EventQueue)

def setHandler (coroutine client : Nat) (handler : Handler) : EventQueue :=
  { queue with
    taskQueue := queue.taskQueue.setCoroutine coroutine (.handleTask handler client true) }

def removeEvent (id : UInt64) : EventQueue :=
  { queue with events := queue.events.erase id }

variable (event : String)

def providerOf : String :=
  let eventId := getEventId event
  if queue.eventProviders.contains eventId then eventId else "default"

def addEventWithId (id : UInt64) : EventQueue :=
  { queue with
    events := queue.events.insert id event
    added := queue.added ++ [(some id, event)] }.addTask
      (.sendEventHandler id (queue.providerOf event) event queue.added.length) false

def barriers : List String := [makeEvent "Barrier" "Begin", makeEvent "Barrier" "End"]

def addEvent (now : UInt64) : EventQueue :=
  if mentionsBarrier event then
    { queue with
      added := if barriers.contains event then queue.added
        else queue.added ++ [(none, event)] }.addTask (.barrierHandler event) false
  else queue.addEventWithId event now

def eventExists : Bool :=
  queue.events.entries.any fun entry => entry.2 == event

def resendEvent (id : UInt64) (provider : String) (origin : Nat) (now : UInt64) : EventQueue :=
  let event := (queue.events.lookup id).getD ""
  let found := { queue with events := queue.events.insert id event }
  if timeDiff now id > timeToLive then
    { found.removeEvent id with settled := queue.settled ++ [origin] }
  else found.addTask (.sendEventHandler id provider event origin) true

def startHandler (coroutine : Nat) (now : UInt64) : EventQueue :=
  match queue.taskQueue.coroutines[coroutine]? with
  | some (.handleTask ⟨.sendEventHandler id provider event origin, .spawned⟩ client true) =>
    { queue with writes := queue.writes ++ [(origin, event)] }.setHandler coroutine client
      ⟨.sendEventHandler id provider event origin, .writing⟩
  | some (.handleTask ⟨.barrierHandler event, .spawned⟩ client true) =>
    let lastBarrierTime := if (parseEvent event).2 = "Begin" then now else queue.lastBarrierTime
    { queue with lastBarrierTime }.setHandler coroutine client
      ⟨.barrierHandler event, .returning false⟩
  | _ => queue

def sendEventHandler (queue : EventQueue) (coroutine client : Nat) (id : UInt64)
    (provider event : String) (origin : Nat) (now : UInt64) :
    Stage → Outcome → Option EventQueue
  | .writing, .succeeded => some (moveTo .readingHeader)
  | .readingHeader, .header text =>
    if text = done then some (settle (.returning false)) else some (moveTo (.providing text))
  | .providing _, .succeeded => some (settle .readingDone)
  | .writing, .failed | .readingHeader, .failed | .providing _, .failed =>
    some ((moveTo (.returning true)).resendEvent id provider origin now)
  | .readingDone, _ => some (moveTo (.returning false))
  | _, _ => none
where
  moveTo (stage : Stage) : EventQueue :=
    queue.setHandler coroutine client ⟨.sendEventHandler id provider event origin, stage⟩
  settle (stage : Stage) : EventQueue :=
    { (moveTo stage).removeEvent id with settled := queue.settled ++ [origin] }

def step (queue : EventQueue) : EventQueueEvent → Option EventQueue
  | .addEventProvider eventId =>
    some { queue with eventProviders := queue.eventProviders ++ [eventId] }
  | .setQueEndPoint endPoint =>
    some { queue with taskQueue := queue.taskQueue.setEndPoint endPoint }
  | .addEvent event now => some (queue.addEvent event now)
  | .beginBarrier => some (queue.addEvent (makeEvent "Barrier" "Begin") 0)
  | .endBarrier => some (queue.addEvent (makeEvent "Barrier" "End") 0)
  | .resume coroutine now =>
    match queue.taskQueue.step (.resume coroutine) with
    | none => none
    | some taskQueue => some ({ queue with taskQueue }.startHandler coroutine now)
  | .connected coroutine failed =>
    match queue.taskQueue.step (.connected coroutine failed) with
    | none => none
    | some taskQueue => some { queue with taskQueue }
  | .proceed coroutine outcome now =>
    match queue.taskQueue.coroutines[coroutine]? with
    | some (.handleTask ⟨.sendEventHandler id provider event origin, stage⟩ client true) =>
      queue.sendEventHandler coroutine client id provider event origin now stage outcome
    | _ => none
  | .returned coroutine =>
    match queue.taskQueue.coroutines[coroutine]? with
    | some (.handleTask ⟨_, .returning failed⟩ _ true) =>
      match queue.taskQueue.step (.finished coroutine failed) with
      | none => none
      | some taskQueue => some { queue with taskQueue }
    | _ => none
  | .closed client =>
    match queue.taskQueue.step (.closed client) with
    | none => none
    | some taskQueue => some { queue with taskQueue }

end EventQueue

end Coroserver.Event
