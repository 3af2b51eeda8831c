import Coroserver.Machine
import Coroserver.Spdm.Messages

/-! `FileCertificateTrustStore` keeps certificates in files and a link for each,
named by the hash of its subject and an index, as OpenSSL looks them up. Files
and links are identified by the parts of their names. -/

namespace Coroserver.Spdm

inductive Extension where
  | pem
  | der
  deriving DecidableEq

def Extension.text : Extension → String
  | .pem => ".pem"
  | .der => ".der"

def CertificateFormat.extension (format : CertificateFormat) : Extension :=
  if format = .pem then .pem else .der

structure CertFile (Dir : Type) where
  dir : Dir
  stem : String
  extension : Extension
  deriving DecidableEq

structure HashLink (Dir : Type) where
  dir : Dir
  hash : String
  index : Nat
  deriving DecidableEq

def CertFile.fileName {Dir : Type} (file : CertFile Dir) : String :=
  file.stem ++ file.extension.text

def HashLink.fileName {Dir : Type} (link : HashLink Dir) : String :=
  link.hash ++ "." ++ toString link.index

structure TrustStoreEnvironment (Dir : Type) where
  storePath : String
  /-- The directory of `storePath/identifier` and the last component; there is
  none if a directory on the way does not exist. -/
  locate : String → Option (Dir × String)
  /-- `parseCertificate` and `X509_subject_name_hash`. -/
  subjectNameHash : Extension → Bytes → Option UInt64

/-- The files with their contents, and the links with the file that the target's
name denotes in the link's directory. -/
structure FileCertificateTrustStore (Dir : Type) where
  files : CertFile Dir → Option Bytes
  links : HashLink Dir → Option (CertFile Dir)

def hashStr (hash : UInt64) : String :=
  String.ofList (List.replicate (8 - (Nat.toDigits 16 hash.toNat).length) '0' ++
    Nat.toDigits 16 hash.toNat)

namespace FileCertificateTrustStore

variable {Dir : Type}

def empty : FileCertificateTrustStore Dir where
  files _ := none
  links _ := none

/-- `exists` of a link's path follows the link. -/
def linkExists (store : FileCertificateTrustStore Dir) (link : HashLink Dir) : Bool :=
  match store.links link with
  | none => false
  | some file => (store.files file).isSome

/-- The search loop of `createCertificateHashFile` from an index on; the result
is the index that it leaves. -/
def searchIndex (taken : Nat → Bool) (index : Nat) : Nat → Nat
  | 0 => index
  | fuel + 1 =>
    if taken index && decide (index + 1 < 100) then searchIndex taken (index + 1) fuel
    else index + 1

variable [DecidableEq Dir]

def createCertificateHashFile (store : FileCertificateTrustStore Dir) (hash : String)
    (file : CertFile Dir) : FileCertificateTrustStore Dir × Bool :=
  match searchIndex (fun index => store.linkExists ⟨file.dir, hash, index⟩) 0 100 with
  | index =>
    if index ≥ 100 then (store, false)
    else
      match store.links ⟨file.dir, hash, index - 1⟩ with
      | some _ => (store, false)
      | none =>
        ({ store with
            links := Function.update store.links ⟨file.dir, hash, index - 1⟩ (some file) },
          true)

def storeCertificate (environment : TrustStoreEnvironment Dir)
    (store : FileCertificateTrustStore Dir) (cert : Bytes) (format : CertificateFormat)
    (identifier : String) : FileCertificateTrustStore Dir × Bool × String :=
  if cert.isEmpty || identifier.isEmpty then (store, false, "")
  else if cert.length > maxCertificateSize then (store, false, "")
  else
    match environment.locate identifier with
    | none => (store, false, "")
    | some (dir, stem) =>
      let file : CertFile Dir := ⟨dir, stem, format.extension⟩
      let written := { store with files := Function.update store.files file (some cert) }
      let certPath := environment.storePath ++ "/" ++ identifier ++ format.extension.text
      match environment.subjectNameHash format.extension cert with
      | none => (written, true, certPath)
      | some hash => ((written.createCertificateHashFile (hashStr hash) file).1, true, certPath)

def removeCertificate (environment : TrustStoreEnvironment Dir)
    (store : FileCertificateTrustStore Dir) (identifier : String) :
    FileCertificateTrustStore Dir × Bool :=
  if identifier.isEmpty then (store, false)
  else
    match environment.locate identifier with
    | none => (store, false)
    | some (dir, stem) =>
      ({ store with
          files := Function.update (Function.update store.files ⟨dir, stem, .pem⟩ none)
            ⟨dir, stem, .der⟩ none },
        (store.files ⟨dir, stem, .pem⟩).isSome || (store.files ⟨dir, stem, .der⟩).isSome)

end FileCertificateTrustStore

structure ParsableCertificate {Dir : Type} (environment : TrustStoreEnvironment Dir) where
  cert : Bytes
  format : CertificateFormat
  hash : UInt64
  parses : environment.subjectNameHash format.extension cert = some hash

inductive TrustStoreCall {Dir : Type} (environment : TrustStoreEnvironment Dir) where
  | store (certificate : ParsableCertificate environment) (identifier : String)
  | remove (identifier : String)

namespace FileCertificateTrustStore

variable {Dir : Type} [DecidableEq Dir] {environment : TrustStoreEnvironment Dir}

def step (store : FileCertificateTrustStore Dir) :
    TrustStoreCall environment → Option (FileCertificateTrustStore Dir)
  | .store certificate identifier =>
    some (storeCertificate environment store certificate.cert certificate.format identifier).1
  | .remove identifier => some (removeCertificate environment store identifier).1

end FileCertificateTrustStore

end Coroserver.Spdm
