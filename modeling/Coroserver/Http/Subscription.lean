import Coroserver.Http.Target

/-! `SseSubscriptionClient` puts its query into the target of the request and reads
the events that the server writes as chunks of the response. -/

namespace Coroserver.Http

def isAlnum (c : UInt8) : Bool :=
  ('0'.toUInt8 ≤ c && c ≤ '9'.toUInt8) || ('A'.toUInt8 ≤ c && c ≤ 'Z'.toUInt8) ||
    ('a'.toUInt8 ≤ c && c ≤ 'z'.toUInt8)

def hexDigit (nibble : UInt8) : UInt8 :=
  if nibble < 10 then '0'.toUInt8 + nibble else 'A'.toUInt8 + (nibble - 10)

def isUnreserved (c : UInt8) : Bool :=
  isAlnum c || c == '-'.toUInt8 || c == '_'.toUInt8 || c == '.'.toUInt8 || c == '~'.toUInt8

def encodeByte (c : UInt8) : Bytes :=
  if isUnreserved c then [c] else [percent, hexDigit (c >>> 4), hexDigit (c &&& 0x0F)]

def urlEncode (s : Bytes) : Bytes := s.flatMap encodeByte

def decimal (value : Int) : Bytes := ascii (toString value)

def subscribeTarget : Bytes := ascii "/graphql/subscribe"

/-- The parameters of the request. A `std::map` iterates in the order of its
keys. -/
def subscribeParams (query : Bytes) (intervalSeconds : Int) :
    List (Bytes × Bytes) :=
  [(ascii "interval", decimal intervalSeconds), (ascii "query", urlEncode query)]

def newline : UInt8 := '\n'.toUInt8
def carriageReturn : UInt8 := '\r'.toUInt8

def crlf : Bytes := [carriageReturn, newline]

def chunkSize (buf : Bytes) : Bytes := (Nat.toDigits 16 buf.length).map Char.toUInt8

def makeChunk (buf : Bytes) : Bytes := chunkSize buf ++ crlf ++ buf ++ crlf

def makeChunkLast : Bytes := ascii "0" ++ crlf ++ crlf

def dataPrefix : Bytes := ascii "data: "

def frameDelimiter : Bytes := [newline, newline]

def sseWrite (data : Bytes) : Bytes := makeChunk (dataPrefix ++ data ++ frameDelimiter)

/-- The body of a response: the payloads that the handler wrote and, after it
has returned, the last chunk. -/
def sseBody (payloads : List Bytes) (returned : Bool) : Bytes :=
  payloads.flatMap sseWrite ++ if returned then makeChunkLast else []

/-- One line of a frame without its newline, and the values that
`dispatchEvent` is called with. -/
def handleLine (line : Bytes) : List Bytes :=
  let text := if line.getLast? = some carriageReturn then line.dropLast else line
  if dataPrefix.isPrefixOf text then [text.drop dataPrefix.length] else []

/-- The loop of `handleFrame`; `line` is the part of the current line that has
been passed. -/
def handleLines (line : Bytes) : Bytes → List Bytes
  | [] => handleLine line
  | c :: rest =>
    if c = newline then handleLine line ++ if rest.isEmpty then [] else handleLines [] rest
    else handleLines (line ++ [c]) rest

def handleFrame (frame : Bytes) : List Bytes :=
  if frame.isEmpty then [] else handleLines [] frame

end Coroserver.Http
