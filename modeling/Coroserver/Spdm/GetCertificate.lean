import Coroserver.PackedLayout

/-! `libspdm_get_certificate_async` asks for a certificate chain in portions. An
exchange is what sending the request of a round and receiving its response yield. The
numbers in a message have the least significant byte first. -/

namespace Coroserver.Spdm

open List

inductive LibspdmReturn where
  | success
  | invalidMsgSize
  | invalidMsgField
  | failed (status : UInt32)

def uint16 (index : Nat) (message : Bytes) : Nat :=
  fromLittleEndian ((message.drop index).take 2)

def getCertificateRequest (version slotId : UInt8) (offset : Nat) : Bytes :=
  [version, 0x82, slotId, 0] ++ littleEndian 2 offset ++ littleEndian 2 0x400

/-- The portion in a response, and how much remains after it. -/
def portion (slotId : UInt8) (resp : Bytes) : Except LibspdmReturn (Bytes × Nat) :=
  if resp.length < 8 then .error .invalidMsgSize
  else if resp.getD 1 0 ≠ 0x02 then .error .invalidMsgField
  else if resp.getD 2 0 ≠ slotId then .error .invalidMsgField
  else if resp.length < 8 + uint16 4 resp then .error .invalidMsgSize
  else .ok ((resp.drop 8).take (uint16 4 resp), uint16 6 resp)

variable (version slotId : UInt8)

/-- The loop from a round on. -/
def getCertificate (exchange : Nat → Bytes → Except LibspdmReturn Bytes)
    (round offset : Nat) (certChain : Bytes) : Nat → Option (LibspdmReturn × Bytes)
  | 0 => none
  | fuel + 1 =>
    match exchange round (getCertificateRequest version slotId offset) >>= portion slotId with
    | .error status => some (status, certChain)
    | .ok (data, remainder) =>
      if remainder = 0 then some (.success, certChain ++ data)
      else
        getCertificate exchange (round + 1) ((offset + data.length) % 2 ^ 16) (certChain ++ data)
          fuel

/-- The response of a responder that sends up to `most` bytes at once. -/
def respond (chain : Bytes) (most : Nat) (request : Bytes) : Bytes :=
  let rest := chain.drop (uint16 4 request)
  let data := rest.take (min most (uint16 6 request))
  [request.getD 0 0, 0x02, request.getD 2 0, 0] ++ littleEndian 2 data.length ++
    littleEndian 2 (rest.length - data.length) ++ data

theorem portion_eq {data : Bytes} {remainder : Nat} (short : data.length < 256 ^ 2)
    (bounded : remainder < 256 ^ 2) :
    portion slotId ([version, 0x02, slotId, 0] ++ littleEndian 2 data.length ++
      littleEndian 2 remainder ++ data) = .ok (data, remainder) := by
  generalize response : [version, 0x02, slotId, 0] ++ _ ++ _ ++ data = resp
  have given : uint16 4 resp = data.length := response ▸ fromLittleEndian_littleEndian short
  have left : uint16 6 resp = remainder := response ▸ fromLittleEndian_littleEndian bounded
  have code : resp.getD 1 0 = 0x02 := response ▸ rfl
  have slot : resp.getD 2 0 = slotId := response ▸ rfl
  have content : resp.drop 8 = data := response ▸ rfl
  have whole : resp.length = data.length + 8 := response ▸ rfl
  rw [portion, given, left, code, slot, content, whole, take_length]
  grind

variable {chain : Bytes}

private theorem portion_respond {offset : Nat} (fits : chain.length < 256 ^ 2)
    (inside : offset ≤ chain.length) (count : Nat) :
    portion slotId (respond chain count (getCertificateRequest version slotId offset)) =
      .ok ((chain.drop offset).take (min count 0x400),
        chain.length - offset - min count 0x400) := by
  have asked : uint16 4 (getCertificateRequest version slotId offset) = offset :=
    fromLittleEndian_littleEndian (Nat.lt_of_le_of_lt inside fits)
  have length : uint16 6 (getCertificateRequest version slotId offset) = 0x400 := rfl
  have left : (chain.drop offset).length - ((chain.drop offset).take (min count 0x400)).length =
      chain.length - offset - min count 0x400 := by grind
  rw [respond, asked, length, left]
  exact portion_eq version slotId (by grind) (by grind)

private theorem getCertificate_from {most : Nat → Nat} (fits : chain.length < 256 ^ 2)
    (sends : ∀ round, 0 < most round) {fuel round offset : Nat} (inside : offset ≤ chain.length)
    (enough : chain.length - offset < fuel) :
    getCertificate version slotId (fun round request => .ok (respond chain (most round) request))
      round offset (chain.take offset) fuel = some (.success, chain) := by
  induction fuel generalizing round offset with
  | zero => omega
  | succ fuel ih =>
    have positive := sends round
    simp only [getCertificate, bind, Except.bind, portion_respond version slotId fits inside,
      ← take_add]
    split
    · next last => rw [take_of_length_le (by omega)]
    · next more =>
      have whole : ((chain.drop offset).take (min (most round) 0x400)).length =
          min (most round) 0x400 := by grind
      rw [whole, Nat.mod_eq_of_lt (by omega)]
      exact ih (by omega) (by omega)

/-- From a responder that always sends something, the loop gets the whole chain. -/
theorem getCertificate_chain (most : Nat → Nat) (fits : chain.length < 256 ^ 2)
    (sends : ∀ round, 0 < most round) :
    getCertificate version slotId (fun round request => .ok (respond chain (most round) request))
      0 0 [] (chain.length + 1) = some (.success, chain) :=
  getCertificate_from version slotId fits sends (Nat.zero_le _) (by omega)

theorem getCertificate_three : [1, 2, 3].length < 256 ^ 2 ∧
    getCertificate 0x12 0 (fun _ request => .ok (respond [1, 2, 3] 2 request)) 0 0 [] 4 =
      some (.success, [1, 2, 3]) :=
  ⟨by decide, getCertificate_chain 0x12 0 (fun _ => 2) (by decide) fun _ => by decide⟩

end Coroserver.Spdm
