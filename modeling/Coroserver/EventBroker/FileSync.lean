import Coroserver.Event.EventQueue

/-! `FileSync` turns the notifications of its watcher into events, and the provider
sends the content that the file has when the peer fetches it. One file is
watched, the peer answers every event with a request for the file, and every
send succeeds; connections may come and go. -/

namespace Coroserver.EventBroker

open Event

structure FileSync (Content : Type) where
  path : String
  queue : EventQueue
  content : Content
  /-- What the peer has fetched last. -/
  peer : Content
  /-- Changes whose notification has not been handled. -/
  outstanding : Nat := 0
  /-- From here on a history that no operation reads: the events whose content has been sent. -/
  fetched : List Nat := []

inductive FileSyncEvent (Content : Type) where
  | change (content : Content)
  | modified (now : UInt64)
  | queued (event : EventQueueEvent)
  | fetch (coroutine : Nat)

namespace FileSync

variable {Content : Type}

def create (path : String) (endPoint : EndPoint) (maxConnections : Nat) (content : Content) :
    FileSync Content where
  path
  queue := { EventQueue.create endPoint maxConnections with
    eventProviders := ["default", "FileModified", "ArchiveModified", "FileDeleted"] }
  content
  peer := content

variable (sync : FileSync Content)

def event : String := makeEventWithDelim "FileModified" sync.path

def modified (now : UInt64) : FileSync Content :=
  if sync.queue.eventExists sync.event then sync
  else { sync with queue := sync.queue.addEvent sync.event now }

def request : String := "Fetch:" ++ sync.path

/-- `providerHandler` for the header that a handler has read: the file is sent
with the content that it has. -/
def provide (origin : Nat) (header : String) : Option (FileSync Content) :=
  if parseEvent header = ("Fetch", sync.path) then
    some { sync with peer := sync.content, fetched := sync.fetched ++ [origin] }
  else none

/-- The steps of the event queue with this peer: the provider has sent the file
when it succeeds. -/
def allows : EventQueueEvent → Bool
  | .addEvent _ _ | .proceed _ .failed _ => false
  | .proceed _ (.header text) _ => text == sync.request
  | .proceed coroutine .succeeded _ =>
    match sync.queue.taskQueue.coroutines[coroutine]? with
    | some (.handleTask ⟨.sendEventHandler _ _ _ origin, .providing _⟩ _ true) =>
      sync.fetched.contains origin
    | _ => true
  | _ => true

def step (sync : FileSync Content) : FileSyncEvent Content → Option (FileSync Content)
  | .change content => some { sync with content, outstanding := sync.outstanding + 1 }
  | .modified now =>
    match sync.outstanding with
    | 0 => none
    | outstanding + 1 => some ({ sync with outstanding }.modified now)
  | .queued event =>
    if sync.allows event then
      (sync.queue.step event).map fun queue => { sync with queue }
    else none
  | .fetch coroutine =>
    match sync.queue.taskQueue.coroutines[coroutine]? with
    | some (.handleTask ⟨.sendEventHandler _ _ _ origin, .providing header⟩ _ true) =>
      if sync.fetched.contains origin then none else sync.provide origin header
    | _ => none

end FileSync

end Coroserver.EventBroker
