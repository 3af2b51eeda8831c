import Coroserver.Http.FlatMap
import Coroserver.Http.Target

/-! Handlers are registered under a path and a verb and are found by the path of a
request. The handlers themselves are values of any type. -/

namespace Coroserver.Http

/-- `http::verb`; the verbs that the router has no table for are numbered. -/
inductive Verb where
  | get
  | put
  | post
  | delete
  | other (code : Nat)
deriving DecidableEq

structure RequestMapper where
  path : Bytes
  method : Verb
deriving DecidableEq

def segmentMatches (s1 s2 : Bytes) : Bool := s1 == s2 || isWildcard s1

/-- `operator==`, in which wildcards count only on the left. -/
def RequestMapper.equal (first second : RequestMapper) : Bool :=
  let segs1 := split first.path slash
  let segs2 := split second.path slash
  first.method == second.method && segs1.length == segs2.length &&
    (List.zipWith segmentMatches segs1 segs2).all id

structure HttpRouter (Handler : Type) where
  getHandlers : List (RequestMapper × Handler) := []
  postHandlers : List (RequestMapper × Handler) := []
  deleteHandlers : List (RequestMapper × Handler) := []
  emptyHandlers : List (RequestMapper × Handler) := []
  fallbackHandler : Option Handler := none

inductive Dispatch (Handler : Type) where
  | handle (handler : Handler) (httpfunc : HttpFunction)
  | fallback (handler : Handler) (httpfunc : HttpFunction)
  | notFound (message : Bytes)
deriving DecidableEq

namespace HttpRouter

variable {Handler : Type} (router : HttpRouter Handler)

def handlerForVerb : Verb → List (RequestMapper × Handler)
  | .get => router.getHandlers
  | .put | .post => router.postHandlers
  | .delete => router.deleteHandlers
  | .other _ => router.emptyHandlers

def setHandlers (handlers : List (RequestMapper × Handler)) : Verb → HttpRouter Handler
  | .get => { router with getHandlers := handlers }
  | .put | .post => { router with postHandlers := handlers }
  | .delete => { router with deleteHandlers := handlers }
  | .other _ => { router with emptyHandlers := handlers }

def addHandler (mapper : RequestMapper) (h : Handler) : HttpRouter Handler :=
  router.setHandlers
    (FlatMap.assign RequestMapper.equal (router.handlerForVerb mapper.method) mapper h)
    mapper.method

def addHandlers (verb : Verb) (registered : List (Bytes × Handler)) : HttpRouter Handler :=
  registered.foldl (fun router entry => router.addHandler ⟨entry.1, verb⟩ entry.2) router

def processRequest (target : Bytes) (method : Verb) : Dispatch Handler :=
  let httpfunc := parseFunction target
  match FlatMap.find RequestMapper.equal (router.handlerForVerb method)
      ⟨httpfunc.name, method⟩ with
  | some (mapper, handler) =>
    .handle handler (extractParamsFromPath httpfunc mapper.path httpfunc.name)
  | none =>
    match router.fallbackHandler with
    | some handler => .fallback handler httpfunc
    | none => .notFound httpfunc.name

end HttpRouter

end Coroserver.Http
