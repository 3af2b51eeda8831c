import Coroserver.Http.Sse

/-! `executeAsStream` and the `frameProducer` it starts, over a `tcp_stream` whose
deadline stays in force until it is set again. The clock counts seconds. Bytes
of the body that have arrived wait in the segments of the client until they are
read; a connection that has ended reports so after them. -/

namespace Coroserver.Http

open Segmentation (splitAfter)

/-- What `executeAsStream` and then `frameProducer` are suspended on. -/
inductive StreamPhase where
  | sending
  | readingHeader
  | rejected
  | reading
  | waiting
  | ended
deriving DecidableEq

def timeoutError : ErrorCode := .other 1

structure StreamClient where
  now : Nat
  /-- `expires_after`. -/
  deadline : Nat
  phase : StreamPhase
  client : HttpClient := { segments := [] }
  closed : Option ErrorCode := none
  stream : SseStream := {}
  /-- From here on a history that no operation reads: the bytes of the body that have arrived. -/
  body : Bytes := []

inductive StreamEvent where
  | tick
  | sent
  | header (statusCode : Nat) (excess : Bytes)
  | arrive (segment : Bytes)
  | close (ec : ErrorCode)
  | resume

namespace StreamClient

variable (s : StreamClient)

def setTimeout (seconds : Nat) : StreamClient :=
  { s with deadline := s.now + seconds }

def sendRequest (now : Nat) : StreamClient :=
  { now, deadline := now, phase := .sending : StreamClient }.setTimeout 5

def readResponseHeader : StreamClient :=
  { s with phase := .readingHeader }.setTimeout 30

/-- The header has been read. What was read past it stays in the buffer of the
header parser. -/
def headerRead (statusCode : Nat) (excess : Bytes) : StreamClient :=
  if statusCode < 200 ∨ statusCode ≥ 300 then { s with phase := .rejected }
  else
    { s with
      phase := .reading
      client := { s.client with beastBuffer := excess }
      body := s.body ++ excess }

def fail (ec : ErrorCode) : StreamClient :=
  { s with phase := .ended, stream := s.stream.post { ec := some ec } }

/-- `frameProducer` from one suspension to the next: `readUntil` looks into its
buffer before it reads from the socket. -/
def produce (delim : Bytes) : StreamClient :=
  match splitAfter delim s.client.sseBuffer with
  | some (frame, rest) =>
    { s with
      client := { s.client with sseBuffer := rest }
      stream := s.stream.post { data := frame } }
  | none =>
    if s.deadline ≤ s.now then s.fail timeoutError
    else
      match s.client.segments with
      | segment :: segments =>
        { s with
          client := { s.client with
            sseBuffer := s.client.sseBuffer ++ segment
            segments } }
      | [] =>
        match s.closed with
        | some ec => s.fail ec
        | none => { s with phase := .waiting }

/-- An operation that is pending at the deadline fails. -/
def tick : StreamClient :=
  let next := { s with now := s.now + 1 }
  if next.deadline ≤ next.now then
    match s.phase with
    | .sending | .readingHeader => { next with phase := .rejected }
    | .waiting => next.fail timeoutError
    | .rejected | .reading | .ended => next
  else next

def arrive (segment : Bytes) : StreamClient :=
  let client := match s.phase with
    | .waiting => { s.client with sseBuffer := s.client.sseBuffer ++ segment }
    | _ => { s.client with segments := s.client.segments ++ [segment] }
  { s with phase := .reading, client, body := s.body ++ segment }

def close (ec : ErrorCode) : StreamClient :=
  let next := { s with closed := some ec }
  match s.phase with
  | .sending | .readingHeader => { next with phase := .rejected }
  | .waiting => next.fail ec
  | .rejected | .reading | .ended => next

def step (delim : Bytes) (s : StreamClient) : StreamEvent → Option StreamClient
  | .tick => some s.tick
  | .sent => if s.phase = .sending then some s.readResponseHeader else none
  | .header statusCode excess =>
    if s.phase = .readingHeader then some (s.headerRead statusCode excess) else none
  | .arrive segment =>
    if s.closed = none ∧ (s.phase = .reading ∨ s.phase = .waiting) then some (s.arrive segment)
    else none
  | .close ec => if s.closed = none then some (s.close ec) else none
  | .resume => if s.phase = .reading then some (s.produce delim) else none

end StreamClient

end Coroserver.Http
