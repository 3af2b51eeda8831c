import Coroserver.ConnectionPool.Pool
import Coroserver.Retry

/-! `WebClient`, `FileExecutor` and `BufferExecutor` send one request through the
connection pool and repeat it on failures. What the awaited calls of an attempt
return is the environment's. The lease of an attempt is a local variable, which
its scope releases in whatever way it is left. -/

namespace Coroserver.Http

open ConnectionPool Retry

abbrev SystemError := ConnectionPool.ErrorCode

structure Response (Body : Type) where
  keepAlive : Bool := true
  body : Body

/-- What the calls of one attempt return. A lease is given by its client and its
token; a call that is not made is not read. -/
structure Exchange (Body : Type) where
  acquire : Except SystemError (Nat × Nat)
  sendRequest : Option SystemError
  readResponseHeader : Option SystemError × Nat
  openFile : Option SystemError
  receive : Option SystemError × Response Body

/-- The target of a client, `std::variant<TcpData, UnixData>`. -/
inductive EndpointData where
  | tcp (host port : String)
  | unix (path : String)

structure WebClient (Body : Type) where
  data : EndpointData := .tcp "" "443"
  keepAlive : Bool := true
  maxTries : Int := 3
  thenHandler : Response Body → Option SystemError := fun _ => none
  orElseHandler : Option SystemError → Option SystemError := id

inductive LeaseEvent where
  | leased (lease : PooledConnection)
  | returned (given : GiveBack)

def connectionRefused : SystemError := .other 111

namespace WebClient

variable {Body Result : Type} (client : WebClient Body)

def getEndpoint : EndpointKey :=
  match client.data with
  | .tcp host port => ⟨host, port⟩
  | .unix path => ⟨path, ""⟩

def acquire (client : WebClient Body) (exchange : Exchange Body) :
    Option SystemError × PooledConnection :=
  match exchange.acquire with
  | .error acqEc => (some acqEc, {})
  | .ok (connection, token) => (none, ⟨true, client.getEndpoint, some connection, true, token⟩)

def settle (response : Response Body) (lease : PooledConnection) : PooledConnection :=
  if !response.keepAlive || !client.keepAlive then lease.markInvalid else lease

/-- One round of the loop in `WebClient::execute`, with the lease as the round
leaves it. -/
def attempt (returnSuccess : Option SystemError → Response Body → Result)
    (exchange : Exchange Body) : Verdict SystemError Result × PooledConnection :=
  match client.acquire exchange with
  | (some acqEc, lease) => (.again acqEc, lease)
  | (none, lease) =>
    match exchange.sendRequest with
    | some sendEc => (.again sendEc, lease.markInvalid)
    | none =>
      match exchange.receive with
      | (some recvEc, _) => (.again recvEc, lease.markInvalid)
      | (none, response) => (.stop (returnSuccess none response), client.settle response lease)

def leaseEvents (acquired left : PooledConnection) : List LeaseEvent :=
  (if acquired.client.isSome then [.leased acquired] else []) ++
    (left.release.2.map LeaseEvent.returned).toList

/-- The loop of the three executors: the result, and for each attempt what
happened to its lease. -/
def retrying (round : Exchange Body → Verdict SystemError Result × PooledConnection)
    (returnFailed : Option SystemError → Result) (exchanges : Nat → Exchange Body) :
    Result × List (List LeaseEvent) :=
  let maxAttempts := max 1 client.maxTries
  let (outcome, leases) := run (fun attempt =>
    let (verdict, lease) := round (exchanges attempt)
    (verdict, leaseEvents (client.acquire (exchanges attempt)).2 lease)) maxAttempts.toNat
  let result := match outcome with
    | .ok result => result
    | .error lastEc => returnFailed lastEc
  (result, leases)

def execute [Inhabited Body] (client : WebClient Body) (exchanges : Nat → Exchange Body) :
    (Option SystemError × Response Body) × List (List LeaseEvent) :=
  client.retrying (client.attempt fun ec response => (ec, response))
    (fun ec => (ec, { body := default })) exchanges

def executeHandled (exchanges : Nat → Exchange Body) :
    Option SystemError × List (List LeaseEvent) :=
  client.retrying (client.attempt fun _ response => client.thenHandler response)
    client.orElseHandler exchanges

end WebClient

namespace FileExecutor

variable {Body : Type}

def attempt (client : WebClient Body) (filePath : String) (exchange : Exchange Body) :
    Verdict SystemError (Option SystemError × String) × PooledConnection :=
  match client.acquire exchange with
  | (some acqEc, lease) => (.again acqEc, lease)
  | (none, lease) =>
    match exchange.sendRequest with
    | some sendEc => (.again sendEc, lease.markInvalid)
    | none =>
      match exchange.readResponseHeader with
      | (some hec, _) => (.again hec, lease.markInvalid)
      | (none, statusCode) =>
        if statusCode < 200 ∨ statusCode ≥ 300 then
          (.again connectionRefused, lease.markInvalid)
        else
          match exchange.openFile with
          | some fec => (.stop (some fec, filePath), lease.markInvalid)
          | none =>
            match exchange.receive with
            | (some recvEc, _) => (.again recvEc, lease.markInvalid)
            | (none, fileRes) => (.stop (none, filePath), client.settle fileRes lease)

def execute (client : WebClient Body) (filePath : String) (exchanges : Nat → Exchange Body) :
    (Option SystemError × String) × List (List LeaseEvent) :=
  client.retrying (attempt client filePath) (fun lastEc => (lastEc, filePath)) exchanges

end FileExecutor

namespace BufferExecutor

variable {Body : Type}

/-- One round of the loop in `BufferExecutor::execute`, which differs from that
of `WebClient::execute` in the type of the body. -/
def attempt (client : WebClient Body) :
    Exchange Body → Verdict SystemError (Option SystemError × Response Body) × PooledConnection :=
  client.attempt fun recvEc res => (recvEc, res)

def execute [Inhabited Body] (client : WebClient Body) (exchanges : Nat → Exchange Body) :
    (Option SystemError × Response Body) × List (List LeaseEvent) :=
  client.retrying (attempt client) (fun lastEc => (lastEc, { body := default })) exchanges

end BufferExecutor

end Coroserver.Http
