import Coroserver.Event.Framing

/-! `executeAsStream` reads the header of a response and leaves its body to
`frameProducer`, which posts frame after frame to the mailbox that the caller
reads from. The socket is the list of segments that its reads return. -/

namespace Coroserver.Http

inductive ErrorCode where
  | eof
  | other (value : Nat)

structure SseFrame where
  ec : Option ErrorCode := none
  data : Bytes := []

/-- The consumer: outside `next()`, suspended on a wait for the timer, or with
a wait that has been completed. -/
inductive Consumer where
  | idle
  | waiting
  | woken
deriving DecidableEq

structure SseStream where
  slot : Option SseFrame := none
  consumer : Consumer := .idle
  /-- From here on a history that no operation reads. -/
  posted : List SseFrame := []
  returned : List SseFrame := []

inductive SseEvent where
  | post (frame : SseFrame)
  | next
  | resume

namespace SseStream

variable (stream : SseStream)

/-- `timer_.cancel()` completes a wait that is pending and has no effect on a
later one. -/
def cancel : SseStream :=
  match stream.consumer with
  | .waiting => { stream with consumer := .woken }
  | .idle | .woken => stream

def post (frame : SseFrame) : SseStream :=
  { stream with slot := some frame, posted := stream.posted ++ [frame] }.cancel

def take : SseStream :=
  match stream.slot with
  | none =>
    { stream with consumer := .idle, returned := stream.returned ++ [{ ec := some .eof }] }
  | some frame =>
    { stream with slot := none, consumer := .idle, returned := stream.returned ++ [frame] }

/-- The timer is armed to the end of time, so that a wait is over only when it
is cancelled. There is one consumer. -/
def step : SseEvent → Option SseStream
  | .post frame => some (stream.post frame)
  | .next =>
    match stream.consumer with
    | .idle => some { stream with consumer := .waiting }
    | .waiting | .woken => none
  | .resume =>
    match stream.consumer with
    | .woken => some stream.take
    | .idle | .waiting => none

end SseStream

open Event (asyncReadUntil)

def headerEnd : Bytes := [13, 10, 13, 10]

structure HttpClient where
  beastBuffer : Bytes := []
  sseBuffer : Bytes := []
  segments : List Bytes

namespace HttpClient

/-- `http::async_read_header` takes the header from its buffer and leaves there
what was read past it. The status code is the one the header is parsed to. -/
def readResponseHeader (statusOf : Bytes → Nat) (client : HttpClient) :
    Option (Nat × HttpClient) :=
  match asyncReadUntil headerEnd client.beastBuffer client.segments with
  | none => none
  | some (buffer, size, segments) =>
    some (statusOf (buffer.take size), { client with beastBuffer := buffer.drop size, segments })

def readUntil (client : HttpClient) (delim : Bytes) : Option (Bytes × HttpClient) :=
  match asyncReadUntil delim client.sseBuffer client.segments with
  | none => none
  | some (buffer, bytes, segments) =>
    some (buffer.take bytes, { client with sseBuffer := buffer.drop bytes, segments })

def readFrames (delim : Bytes) : Nat → HttpClient → Option (List Bytes × HttpClient)
  | 0, client => some ([], client)
  | count + 1, client =>
    match client.readUntil delim with
    | none => none
    | some (frame, next) =>
      match readFrames delim count next with
      | none => none
      | some (frames, last) => some (frame :: frames, last)

def executeAsStream (statusOf : Bytes → Nat) (client : HttpClient) : Option HttpClient :=
  match client.readResponseHeader statusOf with
  | none => none
  | some (statusCode, next) => if statusCode < 200 ∨ statusCode ≥ 300 then none else some next

def remaining (client : HttpClient) : Bytes := client.sseBuffer ++ client.segments.flatten

end HttpClient

end Coroserver.Http
