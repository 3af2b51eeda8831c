import Coroserver.Spdm.MessagesProperties

/-! The responder's handler of SET_PROVISIONED and the two functions of the
requester that send it. The handler reports success by the status 1; the
requester's functions differ in the statuses they take for success. -/

namespace Coroserver.Spdm

/-- `property` is the value that the D-Bus interface publishes. -/
structure SpdmResponderObject where
  provisioned : Bool := false
  property : Bool := false
  deriving DecidableEq

def SpdmResponderObject.setProvisioned (_object : SpdmResponderObject) (value : Bool) :
    SpdmResponderObject where
  provisioned := value
  property := value

variable (request : Bytes) (responderObject : Option SpdmResponderObject)

def handleSetProvisioned : Option SpdmResponderObject × Bytes :=
  match deserializeSetProvisionedRequest request with
  | .ok req =>
    match responderObject with
    | some object =>
      (some (object.setProvisioned (req.provisioned != 0)),
        createSetProvisionedResponse 0x12 1)
    | none => (none, createSetProvisionedResponse 0x12 certExchangeErrorInvalidRequest)
  | .error _ =>
    (responderObject, createSetProvisionedResponse 0x12 certExchangeErrorInvalidRequest)

structure SpdmConnectionManager where
  deviceSendMessage : Bytes → Bool
  deviceReceiveMessageAll : Option Bytes

def SpdmConnectionManager.setProvisioned (connection : SpdmConnectionManager)
    (provisioned : Bool) : Bool :=
  if !connection.deviceSendMessage (createSetProvisionedRequest 0x12 provisioned) then false
  else
    match connection.deviceReceiveMessageAll with
    | none => false
    | some buffer =>
      match deserializeSetProvisionedResponse buffer with
      | .error _ => false
      | .ok response =>
        if response.header.requestResponseCode != spdmSetProvisioned then false
        else if response.status == 0 then false
        else true

structure CertificateExchangeRequester where
  sendFunc : Option (Bytes → Bool)
  receiveFunc : Option (Bool × Bytes)

namespace CertificateExchangeRequester

variable (requester : CertificateExchangeRequester)

def sendMessage (message : Bytes) : Bool :=
  match requester.sendFunc with
  | none => false
  | some sendFunc => sendFunc message

def receiveMessage : Bool × Bytes :=
  match requester.receiveFunc with
  | none => (false, [])
  | some received => received

def setProvisionedState (provisioned : Bool) : Bool :=
  if !requester.sendMessage (createSetProvisionedRequest 0x12 provisioned) then false
  else
    match requester.receiveMessage with
    | (success, response) =>
      if !success || decide (response.length < SpdmSetProvisionedResponse.layout.size) then
        false
      else
        match deserializeSetProvisionedResponse response with
        | .error _ => false
        | .ok resp =>
          if resp.status != certExchangeSuccess && resp.status != 1 then false else true

end CertificateExchangeRequester

theorem deserialize_createSetProvisionedResponse (version status : UInt8) :
    deserializeSetProvisionedResponse (createSetProvisionedResponse version status) =
      .ok { header := ⟨version, spdmSetProvisioned, 0, 0⟩
            status := status
            reserved := Vector.replicate 3 0 } :=
  (deserializeRecord_eq_ok_iff _).mpr ⟨[], (List.append_nil _).symm⟩

def SpdmConnectionManager.receiving (response : Bytes) : SpdmConnectionManager where
  deviceSendMessage _ := true
  deviceReceiveMessageAll := some response

def CertificateExchangeRequester.receiving (response : Bytes) :
    CertificateExchangeRequester where
  sendFunc := some fun _ => true
  receiveFunc := some (true, response)

theorem setProvisioned_receiving (version status : UInt8) (provisioned : Bool) :
    (SpdmConnectionManager.receiving (createSetProvisionedResponse version status)).setProvisioned
        provisioned = (status != 0) := by
  simp only [SpdmConnectionManager.setProvisioned, SpdmConnectionManager.receiving,
    deserialize_createSetProvisionedResponse]
  cases zero : status == 0 with
  | true | false => simp [bne, zero]

open CertificateExchangeRequester

theorem setProvisionedState_receiving (version status : UInt8) (provisioned : Bool) :
    (receiving
        (createSetProvisionedResponse version status)).setProvisionedState provisioned =
      (status == certExchangeSuccess || status == 1) := by
  have long : ¬ (createSetProvisionedResponse version status).length <
      SpdmSetProvisionedResponse.layout.size := by
    rw [createSetProvisionedResponse, serializeSetProvisionedResponse, serializePOD,
      List.nil_append, PackedLayout.length_encode]
    exact Nat.lt_irrefl _
  simp only [setProvisionedState, sendMessage, receiveMessage,
    receiving, deserialize_createSetProvisionedResponse, long]
  cases success : status == certExchangeSuccess <;> cases one : status == 1 <;>
    simp [bne, success, one]

/-- The request sets the state of the responder object, whatever it was before. -/
def SetsProvisioned (provisioned : Bool) : Prop :=
  responderObject.isSome = true ∧ ∀ before : SpdmResponderObject,
    (handleSetProvisioned request (some before)).1.map (·.provisioned) = some provisioned

/-- Both functions of the requester, given the handler's response to a request,
return true exactly if that request set the state to the value they asked for. -/
def ProvisioningAgrees (provisioned : Bool) : Prop :=
  ((SpdmConnectionManager.receiving
      (handleSetProvisioned request responderObject).2).setProvisioned provisioned = true ↔
    SetsProvisioned request responderObject provisioned) ∧
  ((CertificateExchangeRequester.receiving
      (handleSetProvisioned request responderObject).2).setProvisionedState provisioned = true ↔
    SetsProvisioned request responderObject provisioned)

def AsksFor (provisioned : Bool) : Prop :=
  8 ≤ request.length ∧ (request.getD 4 0 != 0) = provisioned

theorem decode_provisioned (request : Bytes) :
    (SpdmSetProvisionedRequest.layout.decode request).provisioned = request.getD 4 0 := by
  change (request.drop 4).headD 0 = request.getD 4 0
  rw [List.headD_eq_head?_getD, List.head?_drop, List.getD_eq_getElem?_getD]

variable {request : Bytes}

theorem handleSetProvisioned_of_long (long : 8 ≤ request.length) (object : SpdmResponderObject) :
    handleSetProvisioned request (some object) =
      (some (object.setProvisioned (request.getD 4 0 != 0)),
        createSetProvisionedResponse 0x12 1) := by
  have decoded := @deserializeRecord_eq_ok _ SpdmSetProvisionedRequest.layout _
    "SET_PROVISIONED request" long
  simp [handleSetProvisioned, deserializeSetProvisionedRequest, decoded, decode_provisioned]

variable {responderObject : Option SpdmResponderObject}

theorem handleSetProvisioned_refused (refused : request.length < 8 ∨ responderObject = none) :
    handleSetProvisioned request responderObject =
      (responderObject, createSetProvisionedResponse 0x12 certExchangeErrorInvalidRequest) := by
  unfold handleSetProvisioned
  split
  · next req decoded =>
      obtain ⟨rest, rfl⟩ := (deserializeRecord_eq_ok_iff _).mp decoded
      have fixed : (SpdmSetProvisionedRequest.layout.encode req).length = 8 :=
        PackedLayout.length_encode ..
      obtain short | rfl := refused
      · rw [List.length_append] at short
        omega
      · rfl
  · rfl

private theorem setsProvisioned_iff {provisioned : Bool} :
    SetsProvisioned request responderObject provisioned ↔
      responderObject.isSome = true ∧ AsksFor request provisioned := by
  apply and_congr_right
  intro _
  constructor
  · intro sets
    by_cases long : 8 ≤ request.length
    · have set := sets {}
      rw [handleSetProvisioned_of_long long] at set
      exact ⟨long, Option.some.inj set⟩
    · -- an object in the other state keeps it
      have kept := sets { provisioned := !provisioned }
      rw [handleSetProvisioned_refused (.inl (Nat.lt_of_not_le long))] at kept
      cases provisioned <;> cases kept
  · rintro ⟨long, rfl⟩ before
    rw [handleSetProvisioned_of_long long]
    rfl

private theorem provisioningAgrees_iff (request : Bytes)
    (responderObject : Option SpdmResponderObject) (provisioned : Bool) :
    ProvisioningAgrees request responderObject provisioned ↔
      responderObject.isSome = true ∧ AsksFor request provisioned := by
  rw [ProvisioningAgrees, setsProvisioned_iff]
  by_cases refused : request.length < 8 ∨ responderObject = none
  · rw [handleSetProvisioned_refused refused, setProvisioned_receiving,
      setProvisionedState_receiving]
    have unset : ¬ (responderObject.isSome = true ∧ AsksFor request provisioned) := by
      rintro ⟨present, long, _⟩
      obtain short | rfl := refused
      · omega
      · cases present
    simp only [unset, iff_false]
    exact fun both => both.1 (by decide)
  · rw [not_or, Nat.not_lt] at refused
    obtain ⟨object, rfl⟩ := Option.ne_none_iff_exists'.mp refused.2
    rw [handleSetProvisioned_of_long refused.1, setProvisioned_receiving,
      setProvisionedState_receiving]
    have accepted : ((1 : UInt8) != 0) = true ∧
        ((1 : UInt8) == certExchangeSuccess || (1 : UInt8) == 1) = true := by decide
    simp

/-- Requester and responder agree exactly if there is a responder object and the
request asks for that state; the request that the requester builds does. -/
theorem requester_responder_agree_iff (request : Bytes)
    (responderObject : Option SpdmResponderObject) (provisioned : Bool) :
    (ProvisioningAgrees request responderObject provisioned ↔
      responderObject.isSome = true ∧ AsksFor request provisioned) ∧
    (ProvisioningAgrees (createSetProvisionedRequest 0x12 provisioned) responderObject provisioned ↔
      responderObject.isSome = true) := by
  refine ⟨provisioningAgrees_iff request responderObject provisioned, ?_⟩
  rw [provisioningAgrees_iff]
  refine and_iff_left ?_
  cases provisioned <;> exact ⟨Nat.le_refl 8, rfl⟩

theorem setProvisioned_succeeds_without_object :
    ¬ SetsProvisioned (createSetProvisionedRequest 0x12 true) none true ∧
      (SpdmConnectionManager.receiving
        (handleSetProvisioned (createSetProvisionedRequest 0x12 true) none).2).setProvisioned
          true = true ∧ (CertificateExchangeRequester.receiving
        (handleSetProvisioned (createSetProvisionedRequest 0x12 true) none).2).setProvisionedState
          true = false := by
  refine ⟨fun sets => absurd sets.1 (by decide), ?_, ?_⟩
  · rw [handleSetProvisioned_refused (.inr rfl), setProvisioned_receiving]
    decide
  · rw [handleSetProvisioned_refused (.inr rfl), setProvisionedState_receiving]
    decide

end Coroserver.Spdm
