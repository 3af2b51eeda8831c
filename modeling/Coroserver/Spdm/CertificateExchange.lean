import Coroserver.Spdm.Messages

/-! `exchangeCertificates` pushes the certificate of the requester and pulls and
stores that of the responder. Whether the first was loaded and pushed, what is
received and what the trust store does with a certificate is part of a call. -/

namespace Coroserver.Spdm

/-- The outcome of `storeCertificate`. A store that fails may have opened a file, which
truncates it, and may have written a part of the certificate. -/
inductive StoreOutcome where
  | saved (certPath : String)
  | failed (opened : Option (String × Bytes))

structure ExchangeCall where
  requesterCert : Option Bytes
  pushed : Bool
  response : Option Bytes
  stored : StoreOutcome

structure CertificateClient where
  files : String → Option (Bytes × CertificateFormat) := fun _ => none
  lastStoredCertPath : String := ""

variable (order : ByteOrder)

def ExchangeCall.received (call : ExchangeCall) :
    Option (SpdmPullCertificateResponse × Bytes) :=
  match call.response with
  | none => none
  | some response =>
    if response.length < (SpdmPullCertificateResponse.layout order).size then none
    else
      match deserializePullCertificateResponse order response with
      | .error _ => none
      | .ok (resp, certData) =>
        if resp.status != certExchangeSuccess then none else some (resp, certData)

namespace CertificateClient

def pullCertificateFromResponder (format : CertificateFormat) (client : CertificateClient)
    (call : ExchangeCall) : CertificateClient × Bool :=
  match call.received order with
  | none => (client, false)
  | some (_, cert) =>
    match call.stored with
    | .saved certPath =>
      (⟨Function.update client.files certPath (some (cert, format)), certPath⟩, true)
    | .failed (some (certPath, left)) =>
      ({ client with files := Function.update client.files certPath (some (left, format)) }, true)
    | .failed none => (client, true)

def exchangeCertificates (client : CertificateClient) (call : ExchangeCall) :
    CertificateClient × Bool × String :=
  match call.requesterCert with
  | none | some [] => (client, false, "")
  | some (_ :: _) =>
    if !call.pushed then (client, false, "")
    else
      match client.pullCertificateFromResponder order .pem call with
      | (next, true) => (next, true, next.lastStoredCertPath)
      | (next, false) => (next, false, "")

def after (client : CertificateClient) (calls : List ExchangeCall) : CertificateClient :=
  calls.foldl (fun client call => (client.exchangeCertificates order call).1) client

end CertificateClient

/-- The file that a call writes, with what is in it afterwards. -/
def ExchangeCall.written (call : ExchangeCall) : Option (String × Bytes) :=
  if call.requesterCert.any (!·.isEmpty) && call.pushed then
    match call.received order, call.stored with
    | none, _ => none
    | some (_, cert), .saved certPath => some (certPath, cert)
    | some _, .failed opened => opened
  else none

def ExchangeCall.content (path : String) (last : Option Bytes) (call : ExchangeCall) :
    Option Bytes :=
  match call.written order with
  | none => last
  | some (file, bytes) => if file = path then some bytes else last

variable {order} {client : CertificateClient} {call : ExchangeCall}

namespace CertificateClient

end CertificateClient

end Coroserver.Spdm
