import Mathlib.Data.List.Basic

/-! Calls of `refreshToken` and `execute` on one client and a single-threaded
executor, which runs a call from one suspension point to the next and may resume the
calls in any order. Requests are answered by the environment. The POSTs of
`refreshToken` are numbered in the order in which they start. -/

namespace Coroserver.Redfish

def httpErrorToString : Nat → Option String
  | 401 => some "Unauthorized"
  | 404 => some "Not Found"
  | 500 => some "Internal Server Error"
  | _ => none

def unauthorized : Nat := 401
def created : Nat := 201

/-- How a request ends. Of the header fields only `X-Auth-Token` is read. -/
inductive Reply where
  | transportError
  | response (status : Nat) (authToken : Option String)

/-- What a call of `refreshToken` finds when it is made: how many POSTs have
been started, and which of them are running. -/
structure Moment where
  started : Nat
  running : List Nat
deriving DecidableEq

/-- Who awaits `refreshToken`: its caller, or `execute` in one of its rounds. -/
inductive Caller where
  | direct
  | execute (retryCount : Nat)

/-- A call that has not run yet, that awaits its request, that awaits the POST
of the token, that waits for the timer of another one's fetch, whose wait has
been cancelled, that has returned, or that has thrown. -/
inductive Call where
  | spawned (caller : Caller)
  | requesting (retryCount : Nat)
  | posting (post : Nat) (called : Moment) (caller : Caller)
  | waiting (fetch : Nat) (called : Moment) (caller : Caller)
  | woken (called : Moment) (caller : Caller)
  | returned
  | thrown

/-- A result of `refreshToken`; without a token it is `permission_denied`. -/
structure Refreshed where
  called : Moment
  token : Option String
deriving DecidableEq

/-- The timer of `tokenFetchInProgress` is named after the POST of its fetch. -/
structure RedfishClient where
  token : String := ""
  tokenFetchInProgress : Option Nat := none
  calls : List Call := []
  /-- From here on a history that no operation reads. -/
  started : Nat := 0
  finished : List (Nat × Reply) := []
  refreshed : List Refreshed := []

inductive RedfishEvent where
  | refreshToken
  | execute
  | resume (call : Nat)
  | answered (call : Nat) (reply : Reply)

def Call.post? : Call → Option Nat
  | .posting post _ _ => some post
  | _ => none

def Call.wake (fetch : Nat) : Call → Call
  | .waiting other called caller =>
    if other = fetch then .woken called caller else .waiting other called caller
  | call => call

namespace RedfishClient

variable (client : RedfishClient)

def running : List Nat := client.calls.filterMap Call.post?

def setCall (call : Nat) (value : Call) : RedfishClient :=
  { client with calls := client.calls.set call value }

def refreshToken (call : Nat) (caller : Caller) : RedfishClient :=
  let called : Moment := { started := client.started, running := client.running }
  match client.tokenFetchInProgress with
  | some fetch => client.setCall call (.waiting fetch called caller)
  | none =>
    { client.setCall call (.posting client.started called caller) with
      tokenFetchInProgress := some client.started
      started := client.started + 1 }

def releaseFetch (fetch : Nat) : RedfishClient :=
  { client with
    tokenFetchInProgress := none
    calls := client.calls.map (Call.wake fetch) }

def nextRound (retryCount : Nat) : Call :=
  if retryCount < 3 then .requesting (retryCount + 1) else .returned

def afterRefresh (result : Option String) : Caller → Call
  | .direct => .returned
  | .execute retryCount =>
    match result with
    | none => .returned
    | some _ => nextRound retryCount

def returnToken (call : Nat) (called : Moment) (caller : Caller)
    (result : Option String) : RedfishClient :=
  { client.setCall call (afterRefresh result caller) with
    token := match caller with
      | .direct => client.token
      | .execute _ => result.getD client.token
    refreshed := client.refreshed ++ [{ called, token := result }] }

def posted (call post : Nat) (called : Moment) (caller : Caller) (reply : Reply) : RedfishClient :=
  let finished := { client with finished := client.finished ++ [(post, reply)] }
  match reply with
  | .transportError => (finished.releaseFetch post).returnToken call called caller none
  | .response status authToken =>
    if status ≠ created then
      match httpErrorToString status with
      | some _ => (finished.releaseFetch post).returnToken call called caller none
      | none => (finished.releaseFetch post).setCall call .thrown
    else
      match authToken with
      | none => finished.setCall call .thrown
      | some token =>
        ({ finished with token }.releaseFetch post).returnToken call called caller (some token)

def requested (call retryCount : Nat) : Reply → RedfishClient
  | .transportError => client.setCall call .returned
  | .response status _ =>
    match httpErrorToString status with
    | none => client.setCall call .returned
    | some _ =>
      if status = unauthorized then client.refreshToken call (.execute retryCount)
      else client.setCall call .returned

def step : RedfishEvent → Option RedfishClient
  | .refreshToken => some { client with calls := client.calls ++ [.spawned .direct] }
  | .execute => some { client with calls := client.calls ++ [.spawned (.execute 0)] }
  | .resume call =>
    match client.calls[call]? with
    | some (.spawned .direct) => some (client.refreshToken call .direct)
    | some (.spawned (.execute retryCount)) => some (client.setCall call (nextRound retryCount))
    | some (.woken called caller) =>
      some (client.returnToken call called caller (some client.token))
    | _ => none
  | .answered call reply =>
    match client.calls[call]? with
    | some (.posting post called caller) => some (client.posted call post called caller reply)
    | some (.requesting retryCount) => some (client.requested call retryCount reply)
    | _ => none

end RedfishClient

end Coroserver.Redfish
