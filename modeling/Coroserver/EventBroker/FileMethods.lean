import Coroserver.Event.Framing
import Coroserver.Event.Persistence
import Coroserver.Http.Target
import Coroserver.LexicalPath

/-! `sendFile` writes a header and then the content of a file. The peer's events are
handled by `fileConsumer`, which calls `recieveFile` and, for an archive,
`recieveArchiveFile`. An event is what a read of the connection returned together
with how the operations on files up to the next read ended. Files are kept under the
text of their path. -/

namespace Coroserver.EventBroker

open Event (sendHeader stoull)
open LexicalPath (slash parentPath)

/-- `async_write_some`: the bytes that are transferred if so many are not. -/
def writeSome (withheld : Nat) (data : Bytes) : Bytes :=
  data.take (data.length - withheld)

def contentSize (fileSize : Nat) : Bytes := ascii ("Content-Size:" ++ toString fileSize)

/-- The loop of `sendFile`. The chunks are what the reads of the file return;
the number that counts is that of the bytes read, not of those sent. -/
def sendChunks (fileSize : Nat) (withheld : Nat → Nat) :
    Nat → Nat → List Bytes → Bytes
  | _, _, [] => []
  | round, sentSofar, chunk :: rest =>
    if sentSofar < fileSize then
      writeSome (withheld round) chunk ++
        sendChunks fileSize withheld (round + 1) (sentSofar + chunk.length) rest
    else []

/-- What `sendFile` puts on the connection for a file that is read in chunks, if
all operations succeed. -/
def sendFile (withheld : Nat → Nat) (chunks : List Bytes) : Bytes :=
  writeSome (withheld 0) (sendHeader (contentSize chunks.flatten.length)) ++
    sendChunks chunks.flatten.length withheld 1 0 chunks

def colon : UInt8 := ':'.toUInt8

def parseEvent (event : Bytes) : Bytes × Bytes :=
  match event.span (· != colon) with
  | (id, _ :: data) => (id, data)
  | (_, []) => (event, [])

def stoullBytes (text : Bytes) : Option UInt64 :=
  stoull (String.ofList (text.map fun byte => Char.ofNat byte.toNat))

/-- `c_str`, as an operation on files reads it. -/
def cStr (text : Bytes) : Bytes := text.takeWhile (· != 0)

def isExpected (header : Bytes) : Bool :=
  [ascii "FileNotFound", ascii "Content-Size", ascii "FileType"].any fun text =>
    decide (text <:+: header)

/-- Where the receiver is suspended: in `next`, in the `readFor` of a
`recieveFile`, in the loop of one, or nowhere after an error. -/
inductive ReceiverPhase where
  | idle
  | awaiting (root destPath : Bytes) (retryCount : Nat)
  | receiving (filePath : Bytes) (fileSize recSofar : Nat)
  | stopped
deriving DecidableEq

structure ArchiveCall where
  root : Bytes
  destPath : Bytes
  archPath : Bytes

structure Receiver where
  root : Bytes
  phase : ReceiverPhase := .idle
  /-- The innermost call first. -/
  archives : List ArchiveCall := []
  files : Bytes → Option Bytes
  /-- From here on a history that no operation reads: paths that are written, created or removed. -/
  touched : List Bytes := []

structure Disk where
  found : Bool := true
  opened : Bool := true
  removed : Bool := true

structure Extraction where
  found : Bool := true
  entries : List (Bytes × Bytes) := []
  succeeded : Bool := true

inductive ReceiverEvent where
  | header (text : Bytes) (disk : Disk) (extractions : List Extraction)
  | data (bytes : Bytes) (withheld : Nat) (extractions : List Extraction)
  | failed
  | connected

namespace Receiver

variable (r : Receiver)

def touch (path : Bytes) : Receiver :=
  { r with touched := r.touched ++ [cStr path] }

def store (path content : Bytes) : Receiver :=
  { r with files := Function.update r.files (cStr path) (some content) }

def remove (path : Bytes) : Receiver :=
  { r.touch path with files := Function.update r.files (cStr path) none }

def entryPath (directoryPath currentFile : Bytes) : Bytes :=
  directoryPath ++ slash :: currentFile

def extractTarArchive (directoryPath : Bytes)
    (entries : List (Bytes × Bytes)) : Receiver :=
  entries.foldl (fun written entry =>
    (written.touch (entryPath directoryPath entry.1)).store (entryPath directoryPath entry.1)
      entry.2) (r.touch directoryPath)

/-- A `recieveFile` returns without an error, and with it the calls of
`recieveArchiveFile` that wait for it, from the inside out. -/
def succeed : List Extraction → List ArchiveCall → Receiver → Receiver
  | _, [], r => { r with phase := .idle, archives := [] }
  | extractions, call :: calls, r =>
    let extraction := extractions.head?.getD {}
    let directory := call.root ++ call.destPath
    let created := if extraction.found then r else r.touch directory
    let extracted := created.extractTarArchive directory extraction.entries
    if extraction.succeeded then
      succeed extractions.tail calls (extracted.remove (call.root ++ call.archPath))
    else { extracted with phase := .stopped, archives := [] }

def stop : Receiver := { r with phase := .stopped, archives := [] }

def openFile (filePath : Bytes) (fileSize : Nat) (disk : Disk) : Receiver :=
  let created := if disk.found then r else r.touch (parentPath filePath)
  let written := created.touch filePath
  if disk.opened then
    { written.store filePath [] with phase := .receiving filePath fileSize 0 }
  else written.stop

def recieveFile (root destPath header : Bytes) (disk : Disk)
    (extractions : List Extraction) : Receiver :=
  let filePath := root ++ destPath
  let (id, data) := parseEvent header
  if id = ascii "FileType" then
    let (ftype, archfilePath) := parseEvent data
    if ftype = ascii "archive" then
      { r with
        phase := .awaiting root archfilePath 3
        archives := ⟨root, destPath, archfilePath⟩ :: r.archives }
    else { r with phase := .awaiting filePath ftype 3 }
  else if id = ascii "FileNotFound" then succeed extractions r.archives r
  else if id = ascii "Content-Size" then
    match stoullBytes data with
    | none => r.stop
    | some fileSize =>
      if fileSize = 0 then succeed extractions r.archives r
      else r.openFile filePath fileSize.toNat disk
  else r.stop

def readFor (root destPath : Bytes) (retryCount : Nat) (header : Bytes)
    (disk : Disk) (extractions : List Extraction) : Receiver :=
  if isExpected header then r.recieveFile root destPath header disk extractions
  else if 1 < retryCount then { r with phase := .awaiting root destPath (retryCount - 1) }
  else r.stop

/-- One round of the loop of `recieveFile`. What the file does not take of a
write is not written again. -/
def recieveData (filePath : Bytes) (fileSize recSofar : Nat)
    (bytes : Bytes) (withheld : Nat) (extractions : List Extraction) : Receiver :=
  let content := (r.files (cStr filePath)).getD [] ++ writeSome withheld bytes
  let written := r.store filePath content
  if recSofar + bytes.length < fileSize then
    { written with phase := .receiving filePath fileSize (recSofar + bytes.length) }
  else succeed extractions r.archives written

def deleteFile (path : Bytes) (disk : Disk) : Receiver :=
  if disk.removed then r.remove (r.root ++ path) else (r.touch (r.root ++ path)).stop

/-- The consumer of an event up to its first read. `parseAndHandle` passes the
event on as a C string; events of other kinds have consumers of their own. -/
def fileConsumer (event : Bytes) (disk : Disk) : Receiver :=
  let (id, data) := parseEvent (cStr event)
  if id = ascii "FileModified" then { r with phase := .awaiting r.root data 3 }
  else if id = ascii "FileDeleted" then r.deleteFile data disk
  else if id = ascii "ArchiveModified" then { r with phase := .awaiting r.root data 3 }
  else r

def step : ReceiverEvent → Option Receiver
  | .header text disk extractions =>
    match r.phase with
    | .idle => some (r.fileConsumer text disk)
    | .awaiting root destPath retryCount =>
      some (r.readFor root destPath retryCount text disk extractions)
    | .receiving _ _ _ | .stopped => none
  | .data bytes withheld extractions =>
    match r.phase with
    | .receiving filePath fileSize recSofar =>
      some (r.recieveData filePath fileSize recSofar bytes withheld extractions)
    | .idle | .awaiting _ _ _ | .stopped => none
  | .failed => if r.phase = .stopped then none else some r.stop
  | .connected => if r.phase = .stopped then some { r with phase := .idle } else none

end Receiver

end Coroserver.EventBroker
