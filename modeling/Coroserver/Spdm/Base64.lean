import Coroserver.Http.Target
import Mathlib.Algebra.BigOperators.Ring.Nat
import Mathlib.Data.List.Forall2

/-! `encodeBase64` of the measurement client and the loop in `derCertsToPem` are the
same code. Both are compared with the encoding and the decoding of RFC 4648. -/

namespace Coroserver.Spdm.Base64

open List
def b64Table : Bytes :=
  ascii "ABCDEFGHIJKLMNOPQRSTUVWXYZabcdefghijklmnopqrstuvwxyz0123456789+/"

def letter (k : Nat) : UInt8 := b64Table.getD k 0

def character (n shift : Nat) : UInt8 := letter (n >>> shift &&& 63)

def base64 : Bytes → Bytes
  | a :: b :: c :: rest =>
    let n := a.toNat <<< 16 ||| b.toNat <<< 8 ||| c.toNat
    character n 18 :: character n 12 :: character n 6 :: character n 0 :: base64 rest
  | [a, b] =>
    let n := a.toNat <<< 16 ||| b.toNat <<< 8
    [character (a.toNat <<< 16) 18, character n 12, character n 6, 61]
  | [a] => [character (a.toNat <<< 16) 18, character (a.toNat <<< 16) 12, 61, 61]
  | [] => []

def encodeBase64 (data : Bytes) : Bytes := base64 data

def lines : Bytes → List Bytes
  | [] => []
  | first :: rest => (first :: rest).take 64 :: lines ((first :: rest).drop 64)
termination_by text => text.length
decreasing_by simp only [length_drop, length_cons]; omega

def pem (cert : Bytes) : Bytes :=
  ascii "-----BEGIN CERTIFICATE-----\n" ++ (lines (base64 cert)).flatMap (· ++ [10]) ++
    ascii "-----END CERTIFICATE-----\n"

/-- A certificate that `libspdm_x509_get_cert_from_cert_chain` finds; it is assumed to
find no empty one, for which the loop would make no progress. -/
abbrev FoundCert := { cert : Bytes // cert ≠ [] }

/-- The loop of `derCertsToPem`. -/
def pemLoop (certAt : Nat → Option FoundCert) (remaining index : Nat)
    (pemChain lastCert : Bytes) : Bytes × Bytes :=
  if remaining = 0 then (pemChain, lastCert)
  else
    match certAt index with
    | some ⟨cert, nonempty⟩ =>
      have _ := length_pos_of_ne_nil nonempty
      pemLoop certAt (remaining - cert.length) (index + 1) (pemChain ++ pem cert) cert
    | none => (pemChain, lastCert)
termination_by remaining
decreasing_by omega

def derCertsToPem (certAt : Bytes → Nat → Option FoundCert) (derCerts : Bytes) :
    Bytes × Bytes :=
  pemLoop (certAt derCerts) derCerts.length 0 [] []

/-- The alphabet of RFC 4648: `A`-`Z`, `a`-`z`, `0`-`9`, `+` and `/`. -/
def alphabet (value : Nat) : UInt8 :=
  if value < 26 then .ofNat (65 + value)
  else if value < 52 then .ofNat (97 + (value - 26))
  else if value < 62 then .ofNat (48 + (value - 52))
  else if value = 62 then 43 else 47

def sextet? (character : UInt8) : Option Nat :=
  (List.range 64).find? (alphabet · == character)

/-- Six bits at a time; zero bits are added on the right. -/
def rfc4648 : Bytes → Bytes
  | a :: b :: c :: rest =>
    alphabet (a.toNat / 4) :: alphabet (a.toNat % 4 * 16 + b.toNat / 16) ::
      alphabet (b.toNat % 16 * 4 + c.toNat / 64) :: alphabet (c.toNat % 64) :: rfc4648 rest
  | [a, b] =>
    [alphabet (a.toNat / 4), alphabet (a.toNat % 4 * 16 + b.toNat / 16),
      alphabet (b.toNat % 16 * 4), 61]
  | [a] => [alphabet (a.toNat / 4), alphabet (a.toNat % 4 * 16), 61, 61]
  | [] => []

def octet (value : Nat) : UInt8 := .ofNat value

/-- Four characters at a time; the bits that padding leaves over are zero. -/
def decode : Bytes → Option Bytes
  | [] => some []
  | a :: b :: c :: d :: rest => do
    let x ← sextet? a
    let y ← sextet? b
    if rest = [] ∧ c = 61 ∧ d = 61 then
      if y % 16 = 0 then some [octet (x * 4 + y / 16)] else none
    else
      let z ← sextet? c
      if rest = [] ∧ d = 61 then
        if z % 4 = 0 then some [octet (x * 4 + y / 16), octet (y % 16 * 16 + z / 4)] else none
      else
        let w ← sextet? d
        let others ← decode rest
        some (octet (x * 4 + y / 16) :: octet (y % 16 * 16 + z / 4) :: octet (z % 4 * 64 + w) ::
          others)
  | _ => none

private theorem packed_eq (a b c : UInt8) :
    a.toNat <<< 16 ||| b.toNat <<< 8 ||| c.toNat =
      a.toNat * 65536 + b.toNat * 256 + c.toNat := by
  have low : b.toNat <<< 8 ||| c.toNat = b.toNat * 256 + c.toNat := by
    rw [← Nat.shiftLeft_add_eq_or_of_lt c.toNat_lt, Nat.shiftLeft_eq]
  have second := b.toNat_lt
  have third := c.toNat_lt
  have fits : b.toNat * 256 + c.toNat < 2 ^ 16 := by omega
  rw [Nat.or_assoc, low, ← Nat.shiftLeft_add_eq_or_of_lt fits, Nat.shiftLeft_eq, Nat.add_assoc]

theorem character_packed (a b c : UInt8) (shift : Nat) :
    character (a.toNat <<< 16 ||| b.toNat <<< 8 ||| c.toNat) shift =
      letter ((a.toNat * 65536 + b.toNat * 256 + c.toNat) / 2 ^ shift % 64) := by
  rw [character, packed_eq, Nat.shiftRight_eq_div_pow, Nat.and_two_pow_sub_one_eq_mod _ 6]

private theorem letter_eq_alphabet : ∀ k < 64, letter k = alphabet k := by
  decide +kernel

theorem characters_eq (a b c : UInt8) {n : Nat}
    (packed : n = a.toNat <<< 16 ||| b.toNat <<< 8 ||| c.toNat) :
    character n 18 = alphabet (a.toNat / 4) ∧
      character n 12 = alphabet (a.toNat % 4 * 16 + b.toNat / 16) ∧
      character n 6 = alphabet (b.toNat % 16 * 4 + c.toNat / 64) ∧
      character n 0 = alphabet (c.toNat % 64) := by
  have first := a.toNat_lt
  have second := b.toNat_lt
  have third := c.toNat_lt
  simp only [packed, character_packed, letter_eq_alphabet _ (Nat.mod_lt _ (by decide : 0 < 64))]
  refine ⟨?_, ?_, ?_, ?_⟩ <;> congr 1 <;> omega

variable (data : Bytes)

theorem base64_eq_rfc4648 : base64 data = rfc4648 data := by
  induction data using base64.induct with
  | case1 a b c rest ih => simp [base64, ih, rfc4648, characters_eq a b c rfl]
  | case2 a b =>
    have one := characters_eq a 0 0 rfl
    have two := characters_eq a b 0 rfl
    simp at one two
    simp [base64, rfc4648, one, two]
  | case3 a =>
    have one := characters_eq a 0 0 rfl
    simp at one
    simp [base64, rfc4648, one]
  | case4 => rfl

theorem alphabet_spec : ∀ k < 64, sextet? (alphabet k) = some k ∧ alphabet k ≠ 61 := by
  decide +kernel

theorem octet_eq {value : Nat} (byte : UInt8) (same : value = byte.toNat) : octet value = byte := by
  rw [octet, same, UInt8.ofNat_toNat]

theorem decode_rfc4648 : decode (rfc4648 data) = some data := by
  induction data using base64.induct with
  | case1 a b c rest ih =>
    have first := a.toNat_lt
    have second := b.toNat_lt
    have third := c.toNat_lt
    simp (disch := omega) [rfc4648, decode, alphabet_spec, ih]
    exact ⟨octet_eq a (by omega), octet_eq b (by omega), octet_eq c (by omega)⟩
  | case2 a b =>
    have first := a.toNat_lt
    have second := b.toNat_lt
    simp (disch := omega) [rfc4648, decode, alphabet_spec]
    exact ⟨octet_eq a (by omega), octet_eq b (by omega)⟩
  | case3 a =>
    have first := a.toNat_lt
    simp (disch := omega) [rfc4648, decode, alphabet_spec]
    exact octet_eq a (by omega)
  | case4 => rfl

theorem length_base64 : (base64 data).length = 4 * ((data.length + 2) / 3) := by
  induction data using base64.induct with
  | case1 a b c rest ih =>
    simp only [base64, length_cons, ih]
    omega
  | case2 | case3 | case4 => simp [base64]

theorem lines_spec (text : Bytes) :
    (lines text).flatten = text ∧ ∀ line ∈ lines text, line.length ≤ 64 := by
  fun_induction lines text with
  | case1 => simp
  | case2 _ _ ih =>
    rw [flatten_cons, ih.1, take_append_drop, forall_mem_cons]
    exact ⟨rfl, length_take_le _ _, ih.2⟩

/-- A certificate in PEM: the lines of its encoding between the two marks. -/
def IsPemOf (cert : FoundCert) (text : Bytes) : Prop :=
  ∃ lines : List Bytes,
    text = ascii "-----BEGIN CERTIFICATE-----\n" ++ lines.flatMap (· ++ [10]) ++
        ascii "-----END CERTIFICATE-----\n" ∧
      lines.flatten = rfc4648 cert ∧ ∀ line ∈ lines, line.length ≤ 64

theorem isPemOf_pem (cert : FoundCert) : IsPemOf cert (pem cert) := by
  refine ⟨lines (base64 cert), rfl, ?_, (lines_spec _).2⟩
  rw [(lines_spec _).1, base64_eq_rfc4648]

private theorem pemLoop_spec (certAt : Nat → Option FoundCert) (remaining index : Nat)
    (pemChain lastCert : Bytes) :
    ∃ certs : List FoundCert,
      (pemLoop certAt remaining index pemChain lastCert).1 =
        pemChain ++ certs.flatMap (pem ·.1) ∧
      certs.map some = (range' index certs.length).map certAt ∧
      (certAt (index + certs.length) = none ∨ remaining ≤ (certs.map (·.1.length)).sum) := by
  fun_induction pemLoop certAt remaining index pemChain lastCert with
  | case1 => exact ⟨[], by simp, rfl, .inr (Nat.zero_le _)⟩
  | case2 _ _ _ _ _ cert nonempty found _ ih =>
    obtain ⟨certs, chain, listed, stops⟩ := ih
    refine ⟨⟨cert, nonempty⟩ :: certs, ?_, ?_, ?_⟩
    · rw [chain, flatMap_cons, append_assoc]
    · rw [map_cons, length_cons, range'_succ, map_cons, found, listed]
    · rw [length_cons, map_cons, sum_cons, ← Nat.add_assoc, Nat.add_right_comm]
      refine stops.imp_right fun enough => ?_
      dsimp only
      omega
  | case3 _ _ _ _ _ missing => exact ⟨[], by simp, rfl, .inl missing⟩

/-- `encodeBase64` is the encoding of RFC 4648. `derCertsToPem` writes the certificates
of the chain one after the other, up to its length or to the first that is not found,
each as its encoding in lines of at most 64 characters. -/
theorem base64_correct (certAt : Bytes → Nat → Option FoundCert) (derCerts : Bytes) :
    (encodeBase64 data = rfc4648 data ∧ decode (encodeBase64 data) = some data ∧
      (encodeBase64 data).length = 4 * ((data.length + 2) / 3)) ∧
    ∃ certs texts, Forall₂ IsPemOf certs texts ∧ (derCertsToPem certAt derCerts).1 = texts.flatten ∧
      certs.map some = (range certs.length).map (certAt derCerts) ∧
      (certAt derCerts certs.length = none ∨ derCerts.length ≤ (certs.map (·.1.length)).sum) := by
  constructor
  · refine ⟨base64_eq_rfc4648 data, ?_, length_base64 data⟩
    rw [encodeBase64, base64_eq_rfc4648, decode_rfc4648]
  · obtain ⟨certs, chain, found, stops⟩ :=
      pemLoop_spec (certAt derCerts) derCerts.length 0 [] []
    rw [Nat.zero_add] at stops
    refine ⟨certs, certs.map fun cert => pem cert.1, ?_, ?_, ?_, stops⟩
    · exact forall₂_map_right_iff.mpr (forall₂_same.mpr fun cert _ => isPemOf_pem cert)
    · rw [derCertsToPem, chain, nil_append, flatMap_def]
    · rw [found, range_eq_range']

end Coroserver.Spdm.Base64
