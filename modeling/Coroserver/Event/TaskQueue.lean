/-! `TaskQueue` on a single-threaded executor, which may start or resume its
coroutines in any order: an event is the segment of one up to its next suspension, a
call from outside or a client whose socket is closed, with how a connect or a task
ended. A client is referred to by a number that is never used again, and operations on
a destroyed one have no effect. -/

namespace Coroserver.Event

structure EndPoint where
  url : String := ""
  port : String := ""

def EndPoint.isSet (endPoint : EndPoint) : Bool := !endPoint.url.isEmpty

structure Client where
  id : Nat
  available : Bool := true
  isOpen : Bool := true

/-- Where a `processTasks` is: not started, suspended in the `connect` or on the
timer of round `i` of `tryConnect`, or suspended in `waitFor(5s)`. -/
inductive ProcessPhase where
  | spawned
  | connecting (client : Nat) (i : Nat)
  | reconnecting (client : Nat) (i : Nat)
  | retrying

/-- A `handleTask` is spawned, or suspended in its task; the task of a suspended
one is what is left of it. -/
inductive Coroutine (Task : Type) where
  | processTasks (phase : ProcessPhase)
  | handleTask (task : Task) (client : Nat) (executing : Bool)
  | returned

structure TaskQueue (Task : Type) where
  endPoint : EndPoint
  maxClients : Nat
  taskHandlers : List Task := []
  clients : List Client := []
  coroutines : List (Coroutine Task) := []
  nextClient : Nat := 0

def maxRetryCount : Nat := 3

inductive TaskQueueEvent (Task : Type) where
  | setEndPoint (endPoint : EndPoint)
  | addTask (task : Task) (front : Bool)
  | resume (coroutine : Nat)
  | connected (coroutine : Nat) (failed : Bool)
  | suspended (coroutine : Nat) (rest : Task)
  | finished (coroutine : Nat) (failed : Bool)
  | closed (client : Nat)

namespace TaskQueue

variable {Task : Type}

def create (endPoint : EndPoint) (maxConnections : Nat) : TaskQueue Task :=
  { endPoint, maxClients := maxConnections }

variable (queue : TaskQueue Task)

def spawn (coroutine : Coroutine Task) : TaskQueue Task :=
  { queue with coroutines := queue.coroutines ++ [coroutine] }

def setCoroutine (coroutine : Nat) (value : Coroutine Task) : TaskQueue Task :=
  { queue with coroutines := queue.coroutines.set coroutine value }

variable (client : Nat)

def setClient (update : Client → Client) : TaskQueue Task :=
  { queue with
    clients := queue.clients.map fun entry => if entry.id = client then update entry else entry }

def acquire : TaskQueue Task :=
  queue.setClient client fun entry => { entry with available := false }

def release : TaskQueue Task :=
  queue.setClient client fun entry => { entry with available := true }

def insertClient : TaskQueue Task :=
  { queue with clients := queue.clients ++ [{ id := client, available := false }] }

def removeClient : TaskQueue Task :=
  { queue with
    clients := (queue.clients.filter fun entry => entry.id ≠ client).filter fun entry =>
      entry.isOpen }

def setEndPoint (endPoint : EndPoint) : TaskQueue Task :=
  { queue with endPoint }.spawn (.processTasks .spawned)

def addTask (messageHandler : Task) (front : Bool) : TaskQueue Task :=
  let processNow := queue.taskHandlers.length < queue.maxClients
  let added := { queue with
    taskHandlers := if front then messageHandler :: queue.taskHandlers
      else queue.taskHandlers ++ [messageHandler] }
  if processNow then added.spawn (.processTasks .spawned) else added

def takeTask : Option (Task × TaskQueue Task) :=
  match queue.taskHandlers with
  | [] => none
  | task :: rest => some (task, { queue with taskHandlers := rest })

def getFreeClient : Option (Nat × TaskQueue Task) :=
  match queue.clients.find? Client.available with
  | none => none
  | some client => some (client.id, queue.acquire client.id)

/-- `getTask` once it has a client, and the rest of `processTasks` up to where
it is suspended or returns. -/
def getTask : TaskQueue Task × Coroutine Task :=
  match queue.takeTask with
  | none => (queue.release client, .processTasks .retrying)
  | some (task, rest) => (rest.spawn (.handleTask task client false), .returned)

def processTasks (queue : TaskQueue Task) : TaskQueue Task × Coroutine Task :=
  if !queue.endPoint.isSet then (queue, .returned)
  else if queue.taskHandlers.isEmpty then (queue, .returned)
  else
    match queue.getFreeClient with
    | some (client, acquired) => acquired.getTask client
    | none =>
      if queue.clients.length < queue.maxClients then
        ({ queue with nextClient := queue.nextClient + 1 },
          .processTasks (.connecting queue.nextClient 0))
      else (queue, .processTasks .retrying)

def connected (i : Nat) : Bool → TaskQueue Task × Coroutine Task
  | true => (queue, .processTasks (.reconnecting client i))
  | false => (queue.insertClient client).getTask client

def reconnect (i : Nat) : Coroutine Task :=
  if i + 1 < maxRetryCount then .processTasks (.connecting client (i + 1))
  else .processTasks .retrying

def handled : Bool → TaskQueue Task
  | true => (queue.removeClient client).spawn (.processTasks .spawned)
  | false =>
    let released := queue.release client
    match released.takeTask with
    | none => released
    | some (task, rest) => rest.spawn (.handleTask task client false)

def step : TaskQueueEvent Task → Option (TaskQueue Task)
  | .setEndPoint endPoint => some (queue.setEndPoint endPoint)
  | .addTask task front => some (queue.addTask task front)
  | .resume coroutine =>
    match queue.coroutines[coroutine]? with
    | some (.processTasks .spawned) =>
      let (next, rest) := queue.processTasks
      some (next.setCoroutine coroutine rest)
    | some (.processTasks (.reconnecting client i)) =>
      some (queue.setCoroutine coroutine (reconnect client i))
    | some (.processTasks .retrying) =>
      some ((queue.setCoroutine coroutine .returned).spawn (.processTasks .spawned))
    | some (.handleTask task client false) =>
      some ((queue.acquire client).setCoroutine coroutine (.handleTask task client true))
    | _ => none
  | .connected coroutine failed =>
    match queue.coroutines[coroutine]? with
    | some (.processTasks (.connecting client i)) =>
      let (next, rest) := queue.connected client i failed
      some (next.setCoroutine coroutine rest)
    | _ => none
  | .suspended coroutine rest =>
    match queue.coroutines[coroutine]? with
    | some (.handleTask _ client true) =>
      some (queue.setCoroutine coroutine (.handleTask rest client true))
    | _ => none
  | .finished coroutine failed =>
    match queue.coroutines[coroutine]? with
    | some (.handleTask _ client true) =>
      some ((queue.handled client failed).setCoroutine coroutine .returned)
    | _ => none
  | .closed client => some (queue.setClient client fun entry => { entry with isOpen := false })

end TaskQueue

end Coroserver.Event
