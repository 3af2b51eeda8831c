import Coroserver.GraphQL.Ast
import Coroserver.Http.Target

/-! `graphql_dbus_bridge.hpp` mirrors the events of a subscription in D-Bus
objects: one object for each item of a list, whose properties are the values
found in the item below the dotted paths of a field map. Objects are created
by a handler that is posted to the event loop, values are set directly. -/

namespace Coroserver.Dbus.GraphqlBridge

open GraphQL (Json Text)
inductive Thrown where
  /-- `std::stoul` of an index that no `unsigned long` holds. -/
  | outOfRange
  /-- The D-Bus object was refused by `initialize`. -/
  | sdBusError

structure Library where
  floatToString : Text → Text
  dump : Json → Text
  accepts : Text → Bool

structure SubscriptionConfig where
  dbusPath : Text
  fieldMap : List (Text × Text)

def isDigit (c : UInt8) : Bool := '0'.toUInt8 ≤ c && c ≤ '9'.toUInt8

def decimal (digits : Text) : Nat :=
  digits.foldl (fun number c => number * 10 + (c - '0'.toUInt8).toNat) 0

def pathStep (cur : Json) (seg : Text) : Except Thrown (Option Json) :=
  match cur with
  | .array items =>
    if !seg.isEmpty && seg.all isDigit then
      if decimal seg < UInt64.size then .ok items[decimal seg]? else .error .outOfRange
    else .ok none
  | .object _ => .ok (cur.member? seg)
  | _ => .ok none

def pathLoop (cur : Json) (seg : Text) : Text → Except Thrown (Option Json)
  | [] => if seg.isEmpty then .ok (some cur) else pathStep cur seg
  | c :: rest =>
    if c = '.'.toUInt8 then
      match pathStep cur seg with
      | .ok (some next) => pathLoop next [] rest
      | other => other
    else pathLoop cur (seg ++ [c]) rest

def jsonAtPath (root : Json) (dotPath : Text) : Except Thrown (Option Json) :=
  pathLoop root [] dotPath

def toStr (library : Library) : Json → Text
  | .string text => text
  | .int value => ascii (toString (Int64.ofInt value).toInt)
  | .float text => library.floatToString text
  | .bool value => if value then ascii "true" else ascii "false"
  | other => library.dump other

structure DbusObjectProxy where
  properties : Text → Option Text
  known : Text → Option Text

namespace DbusObjectProxy

def create (fieldMap : List (Text × Text)) : DbusObjectProxy where
  properties name := if name ∈ fieldMap.map Prod.snd then some [] else none
  known name := if name ∈ fieldMap.map Prod.snd then some [] else none

def assign (proxy : DbusObjectProxy) (propName strVal : Text) : DbusObjectProxy :=
  match proxy.known propName with
  | none => proxy
  | some old =>
    if old = strVal then proxy
    else
      { properties := Function.update proxy.properties propName (some strVal)
        known := Function.update proxy.known propName (some strVal) }

def applyUpdate (library : Library) (payload : Json) :
    DbusObjectProxy → List (Text × Text) → Except Thrown DbusObjectProxy
  | proxy, [] => .ok proxy
  | proxy, (jsonPath, propName) :: rest =>
    match jsonAtPath payload jsonPath with
    | .error thrown => .error thrown
    | .ok none => applyUpdate library payload proxy rest
    | .ok (some value) =>
      applyUpdate library payload (proxy.assign propName (toStr library value)) rest

end DbusObjectProxy

abbrev DbusObjectRegistry := Text → Option DbusObjectProxy

structure SseSubscriptionClient where
  scalarProxy : Option DbusObjectProxy := none
  listRegistry : Option DbusObjectRegistry := none
  posted : List Text := []

namespace SseSubscriptionClient

def create (library : Library) (config : SubscriptionConfig) (registry : DbusObjectRegistry)
    (path : Text) : Except Thrown DbusObjectRegistry :=
  if (registry path).isSome then .ok registry
  else if library.accepts path then
    .ok (Function.update registry path (some (.create config.fieldMap)))
  else .error .sdBusError

def itemPath (config : SubscriptionConfig) (item : Json) : Text :=
  match item.member? (ascii "id") with
  | some (.string id) => config.dbusPath ++ ascii "/" ++ id
  | _ => config.dbusPath

structure Listing where
  registry : DbusObjectRegistry
  posted : List Text

variable (library : Library)

def dispatchItem (config : SubscriptionConfig) (listing : Listing)
    (item : Json) : Except Thrown Listing :=
  match listing.registry (itemPath config item) with
  | none => .ok { listing with posted := listing.posted ++ [itemPath config item] }
  | some proxy =>
    match proxy.applyUpdate library item config.fieldMap with
    | .error thrown => .error thrown
    | .ok updated =>
      .ok { listing with
        registry := Function.update listing.registry (itemPath config item) (some updated) }

def dispatchPayload (config : SubscriptionConfig)
    (client : SseSubscriptionClient) (payload : Json) : Except Thrown SseSubscriptionClient :=
  match payload, client.listRegistry, client.scalarProxy with
  | .array items, some registry, _ =>
    match items.foldlM (dispatchItem library config) ⟨registry, client.posted⟩ with
    | .error thrown => .error thrown
    | .ok listing =>
      .ok { client with listRegistry := some listing.registry, posted := listing.posted }
  | .object members, _, some proxy =>
    match proxy.applyUpdate library (.object members) config.fieldMap with
    | .error thrown => .error thrown
    | .ok updated => .ok { client with scalarProxy := some updated }
  | _, _, _ => .ok client

/-- `dispatchEvent` of a parsed event, with its result; nothing was parsed from
a discarded one. -/
def dispatchEvent (config : SubscriptionConfig)
    (client : SseSubscriptionClient) (event : Option Json) :
    Except Thrown (SseSubscriptionClient × Except Text Unit) :=
  match event with
  | none => .ok (client, .error (ascii "json parse failed"))
  | some event =>
    match event.member? (ascii "errors") with
    | some errors => .ok (client, .error (ascii "graphql error: " ++ library.dump errors))
    | none =>
      match event.member? (ascii "data") with
      | some (.object fields) =>
        match (fields.map Prod.snd).foldlM (dispatchPayload library config) client with
        | .error thrown => .error thrown
        | .ok next => .ok (next, .ok ())
      | _ => .ok (client, .error (ascii "unexpected shape"))

def runPosted (config : SubscriptionConfig) (client : SseSubscriptionClient) :
    Except Thrown SseSubscriptionClient :=
  match client.listRegistry with
  | none => .ok { client with posted := [] }
  | some registry =>
    match client.posted.foldlM (create library config) registry with
    | .error thrown => .error thrown
    | .ok created => .ok { client with listRegistry := some created, posted := [] }

def handle (config : SubscriptionConfig) (client : SseSubscriptionClient)
    (event : Option Json) : Except Thrown SseSubscriptionClient :=
  match dispatchEvent library config client event with
  | .error thrown => .error thrown
  | .ok (next, _) => next.runPosted library config

def start : SseSubscriptionClient where
  listRegistry := some fun _ => none

end SseSubscriptionClient

end Coroserver.Dbus.GraphqlBridge
