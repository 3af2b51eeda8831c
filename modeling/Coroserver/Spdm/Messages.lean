import Coroserver.PackedLayout

/-! `spdm_custom_messages.hpp`: the packed records that requester and responder
exchange, how they are serialized, and the helpers that build them. A
certificate follows its record without any separator. The byte order of the
machine is a parameter, the same for both ends. -/

namespace Coroserver.Spdm

/-- The codes of the requests are also those of their acknowledgements. -/
def spdmPushCertificate : UInt8 := 0x7E

def spdmPullCertificate : UInt8 := 0x7F

def spdmSetProvisioned : UInt8 := 0x7D

def certExchangeSuccess : UInt8 := 0x00
def certExchangeErrorInvalidRequest : UInt8 := 0x04

def maxCertificateSize : Nat := 256 * 1024

/-- An enumeration over `uint8_t`: a value cast from a message can be any byte. -/
structure CertificateFormat where
  code : UInt8
  deriving DecidableEq

def CertificateFormat.der : CertificateFormat := ⟨0⟩
def CertificateFormat.pem : CertificateFormat := ⟨1⟩

structure SpdmMessageHeader where
  spdmVersion : UInt8
  requestResponseCode : UInt8
  param1 : UInt8
  param2 : UInt8

structure SpdmPushCertificateRequest where
  header : SpdmMessageHeader
  certSize : UInt32
  certFormat : UInt8
  reserved : Vector UInt8 3

structure SpdmPullCertificateResponse where
  header : SpdmMessageHeader
  status : UInt8
  certSize : UInt32
  certFormat : UInt8
  reserved : Vector UInt8 2

structure SpdmSetProvisionedRequest where
  header : SpdmMessageHeader
  provisioned : UInt8
  reserved : Vector UInt8 3

structure SpdmSetProvisionedResponse where
  header : SpdmMessageHeader
  status : UInt8
  reserved : Vector UInt8 3

open PackedLayout

def SpdmMessageHeader.layout : PackedLayout SpdmMessageHeader :=
  ((byte.append byte).append (byte.append byte)).ofEquiv
    { toFun := fun ((version, code), (param1, param2)) => ⟨version, code, param1, param2⟩
      invFun := fun header =>
        ((header.spdmVersion, header.requestResponseCode), (header.param1, header.param2))
      left_inv := fun _ => rfl
      right_inv := fun _ => rfl }

def SpdmPushCertificateRequest.layout (order : ByteOrder) :
    PackedLayout SpdmPushCertificateRequest :=
  (SpdmMessageHeader.layout.append ((uint32 order).append (byte.append (bytes 3)))).ofEquiv
    { toFun := fun (header, size, format, reserved) => ⟨header, size, format, reserved⟩
      invFun := fun request =>
        (request.header, request.certSize, request.certFormat, request.reserved)
      left_inv := fun _ => rfl
      right_inv := fun _ => rfl }

def SpdmPullCertificateResponse.layout (order : ByteOrder) :
    PackedLayout SpdmPullCertificateResponse :=
  (SpdmMessageHeader.layout.append
      (byte.append ((uint32 order).append (byte.append (bytes 2))))).ofEquiv
    { toFun := fun (header, status, size, format, reserved) =>
        ⟨header, status, size, format, reserved⟩
      invFun := fun response =>
        (response.header, response.status, response.certSize, response.certFormat,
          response.reserved)
      left_inv := fun _ => rfl
      right_inv := fun _ => rfl }

def SpdmSetProvisionedRequest.layout : PackedLayout SpdmSetProvisionedRequest :=
  (SpdmMessageHeader.layout.append (byte.append (bytes 3))).ofEquiv
    { toFun := fun (header, provisioned, reserved) => ⟨header, provisioned, reserved⟩
      invFun := fun request => (request.header, request.provisioned, request.reserved)
      left_inv := fun _ => rfl
      right_inv := fun _ => rfl }

def SpdmSetProvisionedResponse.layout : PackedLayout SpdmSetProvisionedResponse :=
  (SpdmMessageHeader.layout.append (byte.append (bytes 3))).ofEquiv
    { toFun := fun (header, status, reserved) => ⟨header, status, reserved⟩
      invFun := fun response => (response.header, response.status, response.reserved)
      left_inv := fun _ => rfl
      right_inv := fun _ => rfl }

section

variable {Record : Type} (layout : PackedLayout Record)

def serializePOD (buffer : Bytes) (data : Record) : Bytes :=
  buffer ++ layout.encode data

/-- Errors are the texts of the `runtime_error`s. -/
def deserializePOD (data : Bytes) (offset : Nat) : Except String (Record × Nat) :=
  if offset + layout.size > data.length then
    .error "Buffer underflow during deserialization"
  else .ok (layout.decode (data.drop offset), offset + layout.size)

def deserializeRecord (message : String) (data : Bytes) : Except String Record :=
  if data.length < layout.size then
    .error ("Invalid " ++ message ++ ": buffer too small")
  else
    match deserializePOD layout data 0 with
    | .error text => .error text
    | .ok (record, _) => .ok record

variable (certSize : Record → UInt32)

def serializeWithCertificate (mismatch : String) (record : Record) (certData : Bytes) :
    Except String Bytes :=
  if certData.length ≠ (certSize record).toNat then .error mismatch
  else .ok (serializePOD layout [] record ++ certData)

def deserializeWithCertificate (message : String) (data : Bytes) :
    Except String (Record × Bytes) :=
  if data.length < layout.size then
    .error ("Invalid " ++ message ++ ": buffer too small")
  else
    match deserializePOD layout data 0 with
    | .error text => .error text
    | .ok (record, offset) =>
      if (certSize record).toNat > maxCertificateSize then
        .error ("Invalid " ++ message ++ ": cert_size exceeds maximum")
      else if offset + (certSize record).toNat > data.length then
        .error ("Invalid " ++ message ++ ": insufficient certificate data")
      else .ok (record, (data.drop offset).take (certSize record).toNat)

end

variable (order : ByteOrder)

def serializePushCertificateRequest :
    SpdmPushCertificateRequest → Bytes → Except String Bytes :=
  serializeWithCertificate (SpdmPushCertificateRequest.layout order) (·.certSize)
    "Certificate data size mismatch: certData.size() != request.cert_size"

def deserializePushCertificateRequest :
    Bytes → Except String (SpdmPushCertificateRequest × Bytes) :=
  deserializeWithCertificate (SpdmPushCertificateRequest.layout order) (·.certSize)
    "PUSH_CERTIFICATE request"

def serializePullCertificateResponse :
    SpdmPullCertificateResponse → Bytes → Except String Bytes :=
  serializeWithCertificate (SpdmPullCertificateResponse.layout order) (·.certSize)
    "Certificate data size mismatch: certData.size() != response.cert_size"

def deserializePullCertificateResponse :
    Bytes → Except String (SpdmPullCertificateResponse × Bytes) :=
  deserializeWithCertificate (SpdmPullCertificateResponse.layout order) (·.certSize)
    "PULL_CERTIFICATE response"

def serializeSetProvisionedRequest (request : SpdmSetProvisionedRequest) : Bytes :=
  serializePOD SpdmSetProvisionedRequest.layout [] request

def deserializeSetProvisionedRequest : Bytes → Except String SpdmSetProvisionedRequest :=
  deserializeRecord SpdmSetProvisionedRequest.layout "SET_PROVISIONED request"

def serializeSetProvisionedResponse (response : SpdmSetProvisionedResponse) : Bytes :=
  serializePOD SpdmSetProvisionedResponse.layout [] response

def deserializeSetProvisionedResponse : Bytes → Except String SpdmSetProvisionedResponse :=
  deserializeRecord SpdmSetProvisionedResponse.layout "SET_PROVISIONED response"

variable (spdmVersion : UInt8)

def pushCertificateRequest (certData : Bytes)
    (format : CertificateFormat) : SpdmPushCertificateRequest where
  header := ⟨spdmVersion, spdmPushCertificate, 0, 0⟩
  certSize := UInt32.ofNat certData.length
  certFormat := format.code
  reserved := Vector.replicate 3 0

def createPushCertificateRequest (certData : Bytes) (format : CertificateFormat) :
    Except String Bytes :=
  serializePushCertificateRequest order (pushCertificateRequest spdmVersion certData format)
    certData

def pullCertificateResponse (status : UInt8) (certData : Bytes)
    (format : CertificateFormat) : SpdmPullCertificateResponse where
  header := ⟨spdmVersion, spdmPullCertificate, 0, 0⟩
  status := status
  certSize := UInt32.ofNat certData.length
  certFormat := format.code
  reserved := Vector.replicate 2 0

def createPullCertificateResponse (status : UInt8)
    (certData : Bytes) (format : CertificateFormat) : Except String Bytes :=
  serializePullCertificateResponse order
    (pullCertificateResponse spdmVersion status certData format) certData

def createSetProvisionedRequest (provisioned : Bool) : Bytes :=
  serializeSetProvisionedRequest
    { header := ⟨spdmVersion, spdmSetProvisioned, 0, 0⟩
      provisioned := if provisioned then 1 else 0
      reserved := Vector.replicate 3 0 }

def createSetProvisionedResponse (status : UInt8) : Bytes :=
  serializeSetProvisionedResponse
    { header := ⟨spdmVersion, spdmSetProvisioned, 0, 0⟩
      status := status
      reserved := Vector.replicate 3 0 }

end Coroserver.Spdm
