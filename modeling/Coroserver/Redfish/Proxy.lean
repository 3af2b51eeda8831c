import Coroserver.Bytes
import Coroserver.Redfish.Client

/-! `handleProxyRequest` forwards a request through `RedfishClient::execute`, which
sends it with a `WebClient` of its own in each round. What becomes of an attempt
to exchange messages is given by the environment, and so is how a refresh of the
token ends; the calls of other requests in between are those of the client. -/

namespace Coroserver.Redfish

inductive Verb where
  | unknown | delete | get | head | post | put | connect | options | trace | copy | lock | mkcol
  | move | propfind | proppatch | search | unlock | bind | rebind | unbind | acl | report
  | mkactivity | checkout | merge | msearch | notify | subscribe | unsubscribe | patch | purge
  | mkcalendar | link | unlink
deriving DecidableEq

abbrev Field := String × String

def sameName (left right : String) : Bool := left.toLower == right.toLower

structure HttpRequest where
  method : Verb
  target : Bytes
  fields : List Field := []
  body : Bytes := []

/-- A response with such a status has no body. -/
def bodiless (status : Nat) : Bool := status / 100 == 1 || status == 204 || status == 304

structure HttpResponse where
  status : Nat
  fields : List Field := []
  body : Bytes := []
  bodyAllowed : bodiless status = true → body = []

structure StatusTable where
  known : Nat → Bool
  knownErrors : ∀ status, (httpErrorToString status).isSome = true → known status = true

variable (statuses : StatusTable)

/-- `int_to_status`, with 0 for `status::unknown`. -/
def StatusTable.intToStatus (status : Nat) : Nat :=
  if statuses.known status then status else 0

inductive Attempt where
  | acquireFailed (message : String)
  | sendFailed (message : String)
  | receiveFailed (message : String)
  | answered (response : HttpResponse)

inductive Exchange where
  | sent (request : HttpRequest)
  | answered (response : HttpResponse)
  | refreshed

/-- `set`: the field replaces those of the same name. -/
def setField (fields : List Field) (field : Field) : List Field :=
  fields.filter (fun other => !sameName other.1 field.1) ++ [field]

/-- `prepare_payload` for a request; `none` stands for its exception. -/
def HttpRequest.preparePayload (request : HttpRequest) : Option HttpRequest :=
  let size := request.body.length
  if request.method = .trace ∧ 0 < size then none
  else if 0 < size ∨ request.method ∈ [Verb.options, .put, .post] then
    some { request with fields := setField request.fields ("Content-Length", toString size) }
  else some request

def buildRequest (method : Verb) (target : Bytes) (host : String) (headers : List Field)
    (body : Bytes) : Except String HttpRequest :=
  if method = .unknown then .error "unknown method"
  else
    let fields := headers.foldl setField (setField [] ("Host", host))
    match HttpRequest.preparePayload { method, target, fields, body } with
    | none => .error "invalid request body"
    | some request => .ok request

def maxTries : Nat := 3

/-- The loop of `WebClient::execute`. Where the environment lists no more
attempts, no connection can be made. -/
def executeAttempts (request : HttpRequest) : Nat → String → List Attempt →
    List Exchange × Except String HttpResponse
  | 0, lastEc, _ => ([], .error lastEc)
  | _ + 1, _, [] => ([], .error "Connection refused")
  | left + 1, _, attempt :: rest =>
    match attempt with
    | .acquireFailed message | .sendFailed message => executeAttempts request left message rest
    | .receiveFailed message =>
      let (exchanges, result) := executeAttempts request left message rest
      (.sent request :: exchanges, result)
    | .answered response => ([.sent request, .answered response], .ok response)

inductive Refresh where
  | refreshed (token : String)
  | failed (message : String)
  | threw (what : String)

structure Round where
  attempts : List Attempt
  refresh : Refresh := .failed "Permission denied"

structure ClientRequest where
  method : Verb
  target : Bytes
  body : Bytes
  headers : List Field

inductive Executed where
  | response (response : HttpResponse)
  | failed (message : String)
  | threw (what : String)

def clientHeaders (token : String) : List Field :=
  [("Content-Type", "application/json"), ("X-Auth-Token", token)]

/-- `RedfishClient::execute`. It sets headers of its own; those of the request
are not read. -/
def executeRounds (statuses : StatusTable) (host : String) (req : ClientRequest) :
    Nat → String → List Round → List Exchange × Executed
  | 0, _, _ => ([], .failed "Connection timed out")
  | left + 1, token, rounds =>
    let round := rounds.head?.getD { attempts := [] }
    match buildRequest req.method req.target host (clientHeaders token) req.body with
    | .error what => ([], .threw what)
    | .ok request =>
      match executeAttempts request maxTries "Success" round.attempts with
      | (exchanges, .error message) => (exchanges, .failed message)
      | (exchanges, .ok response) =>
        if statuses.intToStatus response.status = unauthorized then
          match round.refresh with
          | .failed message => (exchanges, .failed message)
          | .threw what => (exchanges, .threw what)
          | .refreshed newToken =>
            let (later, result) :=
              executeRounds statuses host req left newToken rounds.tail
            (exchanges ++ .refreshed :: later, result)
        else (exchanges, .response response)

structure ProxyState where
  client : Option RedfishClient
  host : String
  configured : Bool

inductive ProxyBody where
  | forwarded (body : Bytes)
  | json (entries : List (String × String))

structure ProxyResponse where
  status : Nat
  fields : List Field
  body : ProxyBody

/-- The names that are not copied, in these spellings only. -/
def skippedHeaders : List String :=
  ["host", "Host", "authorization", "Authorization", "X-Auth-Token"]

def copyHeaders (fields : List Field) : List Field :=
  fields.foldl (fun headers field =>
    if field.1 ∈ skippedHeaders then headers
    else headers.filter (fun other => other.1 != field.1) ++ [field]) []

def prepareRequest (req : HttpRequest) : ClientRequest where
  method := req.method
  target := req.target
  body := req.body
  headers := copyHeaders req.fields

def initialFields : List Field := [("Content-Type", "application/json")]

def errorResponse (status : Nat) (entries : List (String × String)) : ProxyResponse where
  status
  fields := initialFields
  body := .json entries

def forwardResponse (response : HttpResponse) : ProxyResponse :=
  let status := statuses.intToStatus response.status
  if bodiless status ∧ response.body ≠ [] then
    errorResponse 500 [("details", "invalid response body"), ("error", "Internal proxy error")]
  else
    { status, fields := response.fields.foldl setField initialFields,
      body := .forwarded response.body }

def handleProxyRequest (state : ProxyState) (req : HttpRequest)
    (upstream : List Round) : List Exchange × ProxyResponse :=
  match state.configured, state.client with
  | true, some client =>
    match executeRounds statuses state.host (prepareRequest req) 3 client.token upstream with
    | (exchanges, .failed message) => (exchanges, errorResponse 502
        [("details", message), ("error", "Failed to communicate with target server")])
    | (exchanges, .threw what) => (exchanges, errorResponse 500
        [("details", what), ("error", "Internal proxy error")])
    | (exchanges, .response response) => (exchanges, forwardResponse statuses response)
  | _, _ => ([], errorResponse 503 [("error", "Proxy not configured"),
      ("message", "Please configure the proxy using POST /redfish/v1/proxy/config")])

end Coroserver.Redfish
