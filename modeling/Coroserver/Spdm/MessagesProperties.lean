import Coroserver.Spdm.Messages

/-! A deserializer accepts exactly the byte strings that start with a serialized
message. Both directions of the certificate codec follow from that. -/

namespace Coroserver.Spdm

open List

section

variable {Record : Type} {layout : PackedLayout Record} {certSize : Record → UInt32}
  {data message certData : Bytes} {record : Record}

theorem deserializePOD_zero (long : layout.size ≤ data.length) :
    deserializePOD layout data 0 = .ok (layout.decode data, layout.size) := by
  rw [deserializePOD, if_neg (by omega), drop_zero, Nat.zero_add]

theorem deserializeRecord_eq_ok_iff (name : String) :
    deserializeRecord layout name data = .ok record ↔
      ∃ rest, data = layout.encode record ++ rest := by
  simp only [layout.eq_encode_append_iff]
  unfold deserializeRecord
  split
  · next short =>
      constructor
      · intro impossible
        cases impossible
      · rintro ⟨_, _⟩
        omega
  · next long =>
      rw [deserializePOD_zero (Nat.le_of_not_lt long)]
      simp [Nat.le_of_not_lt long]

theorem deserializeRecord_eq_ok (name : String) (long : layout.size ≤ data.length) :
    deserializeRecord layout name data = .ok (layout.decode data) := by
  rw [deserializeRecord, if_neg (by omega), deserializePOD_zero long]

theorem serializeWithCertificate_eq_ok_iff (mismatch : String) :
    serializeWithCertificate layout certSize mismatch record certData = .ok message ↔
      certData.length = (certSize record).toNat ∧ message = layout.encode record ++ certData := by
  unfold serializeWithCertificate serializePOD
  by_cases same : certData.length = (certSize record).toNat
  · simp [same, eq_comm]
  · simp [same]

theorem deserializeWithCertificate_eq_ok_iff (name : String) :
    deserializeWithCertificate layout certSize name data = .ok (record, certData) ↔
      (∃ rest, data = layout.encode record ++ (certData ++ rest)) ∧
        certData.length = (certSize record).toNat ∧ certData.length ≤ maxCertificateSize := by
  constructor
  · intro accepted
    unfold deserializeWithCertificate at accepted
    split at accepted
    · cases accepted
    · next long =>
        rw [Nat.not_lt] at long
        simp only [deserializePOD_zero long] at accepted
        split at accepted
        · cases accepted
        · next small =>
            split at accepted
            · cases accepted
            · next enough =>
                cases accepted
                have taken : ((data.drop layout.size).take
                    (certSize (layout.decode data)).toNat).length =
                    (certSize (layout.decode data)).toNat := by
                  rw [length_take_of_le]
                  rw [length_drop]
                  omega
                rw [taken]
                have split := take_append_drop (certSize (layout.decode data)).toNat
                  (data.drop layout.size)
                exact ⟨⟨_, layout.eq_encode_append_iff.mpr ⟨long, rfl, split.symm⟩⟩, rfl, by omega⟩
  · rintro ⟨⟨rest, starts⟩, size, small⟩
    obtain ⟨long, decoded, dropped⟩ := layout.eq_encode_append_iff.mp starts
    have total : data.length = layout.size + (certData.length + rest.length) := by
      rw [starts, length_append, layout.length_encode, length_append]
    unfold deserializeWithCertificate
    rw [if_neg (by omega), deserializePOD_zero long]
    simp only [decoded, dropped]
    rw [if_neg (by omega), if_neg (by omega), ← size, take_left]

theorem deserializeWithCertificate_serialize {mismatch : String}
    (serialized : serializeWithCertificate layout certSize mismatch record certData = .ok message)
    (small : certData.length ≤ maxCertificateSize) (name : String) (rest : Bytes) :
    deserializeWithCertificate layout certSize name (message ++ rest) = .ok (record, certData) := by
  obtain ⟨size, rfl⟩ := (serializeWithCertificate_eq_ok_iff mismatch).mp serialized
  apply (deserializeWithCertificate_eq_ok_iff name).mpr
  exact ⟨⟨rest, append_assoc ..⟩, size, small⟩

theorem deserializeWithCertificate_bounds {name : String}
    (accepted : deserializeWithCertificate layout certSize name data = .ok (record, certData)) :
    data.take layout.size = layout.encode record ∧
      certData.length = (certSize record).toNat ∧ certData.length ≤ maxCertificateSize ∧
      layout.size + certData.length ≤ data.length ∧
      certData = (data.drop layout.size).take certData.length := by
  obtain ⟨⟨rest, rfl⟩, size, small⟩ := (deserializeWithCertificate_eq_ok_iff name).mp accepted
  have fixed := layout.length_encode record
  refine ⟨take_left' fixed, size, small, ?_, ?_⟩
  · rw [length_append, length_append]
    omega
  · rw [drop_left' fixed, take_left]

end

theorem toNat_ofNat_length {certData : Bytes} (small : certData.length ≤ maxCertificateSize) :
    (UInt32.ofNat certData.length).toNat = certData.length :=
  UInt32.toNat_ofNat_of_lt' (Nat.lt_of_le_of_lt small (by decide))

/-- Certificates up to the limit are read back, whatever follows the message; what is
read from any bytes lies right behind the fixed part, within the input and the limit.
-/
theorem certificate_messages_read_back (order : ByteOrder) :
    (∀ version certData format rest, certData.length ≤ maxCertificateSize →
      ∃ message, createPushCertificateRequest order version certData format = .ok message ∧
        deserializePushCertificateRequest order (message ++ rest) =
          .ok ({ header := ⟨version, 0x7E, 0, 0⟩
                 certSize := .ofNat certData.length
                 certFormat := format.code
                 reserved := .replicate 3 0 }, certData)) ∧
    (∀ version status certData format rest, certData.length ≤ maxCertificateSize →
      ∃ message, createPullCertificateResponse order version status certData format =
          .ok message ∧ deserializePullCertificateResponse order (message ++ rest) =
          .ok ({ header := ⟨version, 0x7F, 0, 0⟩
                 status
                 certSize := .ofNat certData.length
                 certFormat := format.code
                 reserved := .replicate 2 0 }, certData)) ∧ (∀ data request certData,
      deserializePushCertificateRequest order data = .ok (request, certData) →
        data.take 12 = (SpdmPushCertificateRequest.layout order).encode request ∧
          certData.length = request.certSize.toNat ∧ certData.length ≤ maxCertificateSize ∧
          12 + certData.length ≤ data.length ∧ certData = (data.drop 12).take certData.length) ∧
    (∀ data response certData,
      deserializePullCertificateResponse order data = .ok (response, certData) →
        data.take 12 = (SpdmPullCertificateResponse.layout order).encode response ∧
          certData.length = response.certSize.toNat ∧ certData.length ≤ maxCertificateSize ∧
          12 + certData.length ≤ data.length ∧ certData = (data.drop 12).take certData.length) := by
  refine ⟨?_, ?_, ?_, ?_⟩
  · intro version certData format rest small
    have serialized : createPushCertificateRequest order version certData format = .ok _ :=
      (serializeWithCertificate_eq_ok_iff _).mpr ⟨(toNat_ofNat_length small).symm, rfl⟩
    exact ⟨_, serialized, deserializeWithCertificate_serialize serialized small _ rest⟩
  · intro version status certData format rest small
    have serialized : createPullCertificateResponse order version status certData format = .ok _ :=
      (serializeWithCertificate_eq_ok_iff _).mpr ⟨(toNat_ofNat_length small).symm, rfl⟩
    exact ⟨_, serialized, deserializeWithCertificate_serialize serialized small _ rest⟩
  · intro _ _ _ accepted
    exact deserializeWithCertificate_bounds accepted
  · intro _ _ _ accepted
    exact deserializeWithCertificate_bounds accepted

theorem certificate_messages_read_back_three :
    [0x30, 0x01, 0x02].length ≤ maxCertificateSize ∧
      ∃ message, createPushCertificateRequest .little 0x12 [0x30, 0x01, 0x02] .pem = .ok message ∧
        deserializePushCertificateRequest .little (message ++ [0xAA, 0xBB]) =
          .ok (⟨⟨0x12, 0x7E, 0, 0⟩, 3, 1, .replicate 3 0⟩, [0x30, 0x01, 0x02]) :=
  ⟨by decide, (certificate_messages_read_back .little).1 0x12 [0x30, 0x01, 0x02] .pem [0xAA, 0xBB]
    (by decide)⟩

end Coroserver.Spdm
