import Coroserver.FileStore
import Coroserver.Http.Target

/-! Calls of `downloadFirmware` that share a download directory. A call runs from
one suspension point of the `FileExecutor` to the next, and the calls may be
resumed in any order. The parser of URLs, the digest and what servers serve are
parameters. -/

namespace Coroserver.Firmware

open Http (slash)

structure FirmwareEntry where
  version : Bytes
  imageUrl : Bytes
  checksum : Bytes
deriving DecidableEq

structure Request where
  host : Bytes
  port : Bytes
  target : Bytes

structure Url where
  host : Bytes
  port : Option Bytes
  /-- The path, decoded and without the query. -/
  path : Bytes
  denoted : Request

structure World where
  parseUri : Bytes → Option Url
  /-- The body that is served to a request. -/
  served : Request → Bytes
  /-- The hexadecimal digest of a content. -/
  sha256 : Bytes → Bytes

def filename (path : Bytes) : Bytes :=
  (path.reverse.takeWhile (· != slash)).reverse

def localFilePath (world : World) (downloadDir : Bytes) (entry : FirmwareEntry) :
    Bytes :=
  let fallback := downloadDir ++ ascii "/firmware-" ++ entry.version
  match world.parseUri entry.imageUrl with
  | none => fallback
  | some url =>
    if filename url.path = [] then fallback else downloadDir ++ slash :: filename url.path

def Url.request (url : Url) : Request where
  host := url.host
  port := url.port.getD (ascii "443")
  target := if url.path = [] then ascii "/" else url.path

def maxAttempts : Nat := 3

/-- A call in one of its attempts, before the body or with as much of the body
written to the file that it has opened, or one that has returned. -/
inductive Phase where
  | requesting (attempt : Nat)
  | writing (attempt file written : Nat)
  | returned
deriving DecidableEq

structure Call where
  entry : FirmwareEntry
  destPath : Bytes
  request : Request
  phase : Phase := .requesting 0

structure Success where
  entry : FirmwareEntry
  localPath : Bytes
  content : Option Bytes

structure Downloader where
  downloadDir : Bytes
  files : FileStore Bytes
  calls : List Call := []
  /-- From here on a history that no operation reads. -/
  successes : List Success := []

inductive DownloaderEvent where
  | call (entry : FirmwareEntry) (directoryCreated : Bool)
  /-- No connection, no header, or a status that is not a success. -/
  | attemptFailed (call : Nat)
  | headerRead (call : Nat) (opened : Bool)
  | bodyRead (call count : Nat)
  | bodyFailed (call : Nat)
  | bodyComplete (call : Nat)

namespace Downloader

def alreadyDownloaded (world : World) (d : Downloader) (entry : FirmwareEntry) : Bool :=
  match d.files.read (localFilePath world d.downloadDir entry) with
  | none => false
  | some content => entry.checksum.isEmpty || world.sha256 content == entry.checksum

def succeed (d : Downloader) (entry : FirmwareEntry) (localPath : Bytes) : Downloader :=
  { d with successes := d.successes ++ [⟨entry, localPath, d.files.read localPath⟩] }

def setPhase (d : Downloader) (call : Nat) (value : Call) (phase : Phase) : Downloader :=
  { d with calls := d.calls.set call { value with phase } }

def downloadFirmware (world : World) (d : Downloader) (entry : FirmwareEntry)
    (directoryCreated : Bool) : Downloader :=
  let destPath := localFilePath world d.downloadDir entry
  if d.alreadyDownloaded world entry then d.succeed entry destPath
  else
    let cleared := { d with files := d.files.remove destPath }
    match directoryCreated, world.parseUri entry.imageUrl with
    | true, some url =>
      { cleared with calls := d.calls ++ [{ entry, destPath, request := url.request }] }
    | _, _ => cleared

def nextAttempt (attempt : Nat) : Phase :=
  if attempt + 1 < maxAttempts then .requesting (attempt + 1) else .returned

def step (world : World) (d : Downloader) : DownloaderEvent → Option Downloader
  | .call entry directoryCreated => some (d.downloadFirmware world entry directoryCreated)
  | .attemptFailed call =>
    match d.calls[call]? with
    | some value =>
      match value.phase with
      | .requesting attempt => some (d.setPhase call value (nextAttempt attempt))
      | .writing _ _ _ | .returned => none
    | none => none
  | .headerRead call opened =>
    match d.calls[call]? with
    | some value =>
      match value.phase with
      | .requesting attempt =>
        if opened then
          some { d.setPhase call value
              (.writing attempt (d.files.target value.destPath) 0) with
            files := d.files.openTruncate value.destPath }
        else some (d.setPhase call value .returned)
      | .writing _ _ _ | .returned => none
    | none => none
  | .bodyRead call count =>
    match d.calls[call]? with
    | some value =>
      match value.phase with
      | .writing attempt file written =>
        let bytes := ((world.served value.request).drop written).take count
        some { d.setPhase call value (.writing attempt file (written + bytes.length)) with
          files := d.files.write value.destPath file written bytes }
      | .requesting _ | .returned => none
    | none => none
  | .bodyFailed call =>
    match d.calls[call]? with
    | some value =>
      match value.phase with
      | .writing attempt _ _ => some (d.setPhase call value (nextAttempt attempt))
      | .requesting _ | .returned => none
    | none => none
  | .bodyComplete call =>
    match d.calls[call]? with
    | some value =>
      match value.phase with
      | .writing _ _ written =>
        if written = (world.served value.request).length then
          some ((d.setPhase call value .returned).succeed value.entry value.destPath)
        else none
      | .requesting _ | .returned => none
    | none => none

end Downloader

end Coroserver.Firmware
