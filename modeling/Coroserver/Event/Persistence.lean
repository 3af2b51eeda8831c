import Coroserver.Event.EventQueue
import Coroserver.Serializer

/-! `store` writes the pending events as one text each, the id and the event with a
comma between them; `load` splits the texts and adds the events again. The file
is the JSON value that was written to it. -/

namespace Coroserver.Event

def isspace (c : Char) : Bool := [' ', '\t', '\n', '\x0b', '\x0c', '\r'].contains c

/-- `std::stoull`. White space and a sign may come first, and whatever follows
the digits is ignored; `none` stands for its exceptions. -/
def stoull (text : String) : Option UInt64 :=
  match text.toList.dropWhile isspace with
  | '-' :: rest => (magnitude rest).map fun value => 0 - value
  | '+' :: rest => magnitude rest
  | rest => magnitude rest
where
  magnitude (text : List Char) : Option UInt64 :=
    let digits := text.takeWhile Char.isDigit
    let value := Nat.ofDigitChars 10 digits 0
    if digits.isEmpty then none
    else if value < UInt64.size then some (UInt64.ofNat value)
    else none

namespace EventQueue

variable (queue : EventQueue)

def pending : List (UInt64 × String) :=
  (queue.events.entries.map fun entry => (entry.1, entry.2)).mergeSort
    fun left right => left.1 ≤ right.1

def entryText (entry : UInt64 × String) : String := toString entry.1.toNat ++ "," ++ entry.2

def store (jsonData : Json) : Json :=
  (JsonSerializer.serialize jsonData "events" (.ofStrings (queue.pending.map entryText))).getD
    jsonData

/-- One round of the loop in `load`. Of the pieces only the first two are read;
`none` also stands for reading a piece that is not there. -/
def loadEvent (event : String) : Option EventQueue :=
  match split event.toList ',' with
  | id :: text :: _ =>
    (stoull (String.ofList id)).map fun id => queue.addEventWithId (String.ofList text) id
  | _ => none

def load (file : Option Json) : Option EventQueue :=
  match file with
  | none => some queue
  | some jsonData =>
    match JsonSerializer.getLeafNode jsonData "events" with
    | none => some queue
    | some leaf => leaf.toStrings? >>= fun events => events.foldlM loadEvent queue

end EventQueue

end Coroserver.Event
