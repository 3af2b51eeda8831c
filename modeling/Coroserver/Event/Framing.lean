import Coroserver.Bytes
import Coroserver.Segmentation

/-! Reading and writing of delimited headers over `TimedStreamer`. The receiving
side is the list of segments that the reads of the socket return; a read that
finds none left fails. Timeouts are left out. -/

namespace Coroserver.Event

open Segmentation (splitAfter)

def headerDelim : Bytes := [13, 10, 13, 10]

/-- `async_read_until`: the buffer, the size up to and including the first delimiter,
and what the socket has left. -/
def asyncReadUntil (delim buffer : Bytes) :
    List Bytes → Option (Bytes × Nat × List Bytes)
  | [] =>
    match splitAfter delim buffer with
    | some (found, _) => some (buffer, found.length, [])
    | none => none
  | segment :: rest =>
    match splitAfter delim buffer with
    | some (found, _) => some (buffer, found.length, segment :: rest)
    | none => asyncReadUntil delim (buffer ++ segment) rest

/-- `readUntil(delim)`. Its `streambuf` is a local variable. -/
def readUntil (delim : Bytes) (segments : List Bytes) :
    Option (Bytes × List Bytes) :=
  match asyncReadUntil delim [] segments with
  | none => none
  | some (buffer, size, rest) => some (buffer.take size, rest)

def readHeader (segments : List Bytes) : Option (Bytes × List Bytes) :=
  match readUntil headerDelim segments with
  | none => none
  | some (data, rest) => some (data.take (data.length - headerDelim.length), rest)

def readHeaders : Nat → List Bytes → Option (List Bytes × List Bytes)
  | 0, segments => some ([], segments)
  | count + 1, segments =>
    match readHeader segments with
    | none => none
    | some (header, rest) =>
      match readHeaders count rest with
      | none => none
      | some (headers, left) => some (header :: headers, left)

/-- `read`: one segment, or as much of it as the caller's buffer holds. -/
def read (capacity : Nat) : List Bytes → Option (Bytes × List Bytes)
  | [] => none
  | segment :: rest =>
    if segment.length ≤ capacity then some (segment, rest)
    else some (segment.take capacity, segment.drop capacity :: rest)

def rawReads : List Nat → List Bytes → Bytes
  | [], _ => []
  | capacity :: capacities, segments =>
    match read capacity segments with
    | none => []
    | some (data, rest) => data ++ rawReads capacities rest

def sendHeader (data : Bytes) : Bytes := data ++ headerDelim

end Coroserver.Event
