import Coroserver.Event.EventQueue
import Coroserver.Utilities

/-! `DbusSync` turns the changes of a signal into text events, and the consumer of
the peer splits an event into the arguments of `setProperty`. -/

namespace Coroserver.Dbus

open Event (makeEventWithDelim)

def isNameChar (c : Char) : Bool := c.isAlphanum || c == '_'

/-- An entry of the configuration, made of D-Bus names. The unique name of a
connection begins with a colon. -/
structure SyncEntry where
  service : String
  path : String
  interface : String
  property : String
  service_valid : ∀ c ∈ service.toList.drop 1, isNameChar c = true ∨ c = '.' ∨ c = '-'
  path_valid : ∀ c ∈ path.toList, isNameChar c = true ∨ c = '/'
  interface_valid : ∀ c ∈ interface.toList, isNameChar c = true ∨ c = '.'
  property_valid : ∀ c ∈ property.toList, isNameChar c = true

structure SetProperty where
  service : String
  path : String
  interface : String
  property : String
  value : String
deriving DecidableEq

namespace SyncEntry

/-- The event for a change. The match rule admits the signals of one path and
one interface. -/
def changeEvent (entry : SyncEntry) (change : String × String) : String :=
  makeEventWithDelim "PropertyChanged" (entry.service ++ ":" ++ entry.path ++ ":" ++
    entry.interface ++ ":" ++ change.1 ++ ":" ++ change.2)

/-- The events that `propcallback` adds, given the texts in `events` and the
changed properties in the order of their map. The result of the filter is not
used. -/
def propcallback (entry : SyncEntry) : List String → List (String × String) → List String
  | _, [] => []
  | events, change :: rest =>
    let event := entry.changeEvent change
    if events.contains event then entry.propcallback events rest
    else event :: entry.propcallback (events ++ [event]) rest

end SyncEntry

/-- What `readHeader` returns for an event that has been carried unchanged. -/
def headerText (event : String) : String :=
  String.ofList (event.toList.take (event.toList.length - 4))

/-- The call that `dbusConsumer` makes. It reads five pieces of the event
without asking how many there are. -/
def dbusConsumer (event : String) : Option SetProperty :=
  match (split event.toList ':').drop 1 with
  | service :: path :: interface :: property :: value :: _ =>
    some ⟨String.ofList service, String.ofList path, String.ofList interface,
      String.ofList property, String.ofList value⟩
  | _ => none

def SyncEntry.replicate (entry : SyncEntry) (events : List String)
    (changedProperties : List (String × String)) : List (Option SetProperty) :=
  (entry.propcallback events changedProperties).map fun event => dbusConsumer (headerText event)

end Coroserver.Dbus
