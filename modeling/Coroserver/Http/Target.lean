import Coroserver.Bytes
import Coroserver.Utilities

/-! A target is a path and, after the first question mark, parameters. The client
builds it and the server parses it; targets and their parts are byte strings. -/

namespace Coroserver.Http

def slash : UInt8 := '/'.toUInt8
def question : UInt8 := '?'.toUInt8
def ampersand : UInt8 := '&'.toUInt8
def equals : UInt8 := '='.toUInt8
def plus : UInt8 := '+'.toUInt8
def percent : UInt8 := '%'.toUInt8
def space : UInt8 := ' '.toUInt8

structure HttpFunction where
  name : Bytes
  params : List (Bytes × Bytes) := []
deriving DecidableEq

def HttpFunction.get (func : HttpFunction) (name : Bytes) : Bytes :=
  match func.params.find? (fun p => p.1 == name) with
  | some (_, value) => if value.isEmpty then [] else value
  | none => []

def hexNibble (c : UInt8) : Option UInt8 :=
  if '0'.toUInt8 ≤ c ∧ c ≤ '9'.toUInt8 then some (c - '0'.toUInt8)
  else if 'A'.toUInt8 ≤ c ∧ c ≤ 'F'.toUInt8 then some (c - 'A'.toUInt8 + 10)
  else if 'a'.toUInt8 ≤ c ∧ c ≤ 'f'.toUInt8 then some (c - 'a'.toUInt8 + 10)
  else none

def hexByte (high low : UInt8) : Option UInt8 :=
  match hexNibble high, hexNibble low with
  | some hi, some lo => some ((hi <<< 4) ||| lo)
  | _, _ => none

def urlDecode : Bytes → Bytes
  | [] => []
  | c :: rest =>
    if c = plus then space :: urlDecode rest
    else if c = percent then
      match rest with
      | high :: low :: tail =>
        match hexByte high low with
        | some decoded => decoded :: urlDecode tail
        | none => c :: urlDecode (high :: low :: tail)
      | short => c :: urlDecode short
    else c :: urlDecode rest

/-- One round of the loop over the parameters. Empty tokens and bare keys are
skipped, and a second `=` ends the value. -/
def parseParameter (p : Bytes) : Option (Bytes × Bytes) :=
  match split p equals with
  | name :: value :: _ => if name.isEmpty then none else some (name, urlDecode value)
  | _ => none

def parseFunction (target : Bytes) : HttpFunction :=
  if slash ∈ target then
    match split target question with
    | [] => { name := [] }
    | [func] => { name := func }
    | func :: paramstring :: _ =>
      { name := func, params := (split paramstring ampersand).filterMap parseParameter }
  else { name := target }

/-- A segment `{name}` of a registered path. A segment between two slashes that
follow each other is none. -/
def isWildcard (segment : Bytes) : Bool :=
  segment.head? == some '\x7b'.toUInt8 && segment.getLast? == some '\x7d'.toUInt8

def extractParamsFromPath (func : HttpFunction) (handlerfuncname pathfuncname : Bytes) :
    HttpFunction :=
  let segs1 := (split handlerfuncname slash).drop 1
  let segs2 := (split pathfuncname slash).drop 1
  if segs1.length ≠ segs2.length then func
  else
    { func with
      params := func.params ++ List.zipWith (fun s1 s2 =>
        if isWildcard s1 then ((s1.drop 1).dropLast, s2) else (s1, [])) segs1 segs2 }

def buildParams : Bool → List (Bytes × Bytes) → Bytes
  | _, [] => []
  | first, (key, value) :: rest =>
    (if first then question else ampersand) ::
      (key ++ equals :: (value ++ buildParams false rest))

/-- The target of the request that `WebClient::buildRequest` makes, with the
parameters in the order of the map that holds them. -/
def buildTarget (target : Bytes) (params : List (Bytes × Bytes)) : Bytes :=
  target ++ buildParams true params

end Coroserver.Http
