import Coroserver.Bytes
import Mathlib.Data.List.Basic
import Mathlib.Algebra.Group.Nat.Defs
import Mathlib.Logic.Equiv.Defs

/-! How a record is laid out in memory without padding. A layout encodes every
record in the same number of bytes, and its decoder inverts the encoder both
ways; layouts of fields are put together in their order. -/

namespace Coroserver

inductive ByteOrder where
  | little
  | big

/-- The bytes of a number, from or to those with the least significant one first. -/
def ByteOrder.arrange : ByteOrder → Bytes → Bytes
  | .little, bytes => bytes
  | .big, bytes => bytes.reverse

@[simp] theorem ByteOrder.arrange_arrange (order : ByteOrder) (bytes : Bytes) :
    order.arrange (order.arrange bytes) = bytes := by
  cases order with
  | little => rfl
  | big => exact bytes.reverse_reverse

@[simp] theorem ByteOrder.length_arrange (order : ByteOrder) (bytes : Bytes) :
    (order.arrange bytes).length = bytes.length := by
  cases order with
  | little => rfl
  | big => exact bytes.length_reverse

def littleEndian : Nat → Nat → Bytes
  | 0, _ => []
  | width + 1, value => UInt8.ofNat value :: littleEndian width (value / 256)

def fromLittleEndian : Bytes → Nat
  | [] => 0
  | byte :: rest => byte.toNat + 256 * fromLittleEndian rest

@[simp] theorem length_littleEndian (width value : Nat) :
    (littleEndian width value).length = width := by
  induction width generalizing value with
  | zero => rfl
  | succ width ih => rw [littleEndian, List.length_cons, ih]

theorem fromLittleEndian_littleEndian {width value : Nat} (fits : value < 256 ^ width) :
    fromLittleEndian (littleEndian width value) = value := by
  induction width generalizing value with
  | zero =>
    rw [Nat.pow_zero] at fits
    rw [littleEndian, fromLittleEndian]
    omega
  | succ width ih =>
    rw [Nat.pow_succ] at fits
    have lower : (UInt8.ofNat value).toNat = value % 256 := UInt8.toNat_ofNat'
    rw [littleEndian, fromLittleEndian, ih (by omega), lower]
    omega

theorem fromLittleEndian_lt (bytes : Bytes) :
    fromLittleEndian bytes < 256 ^ bytes.length := by
  induction bytes with
  | nil => decide
  | cons byte =>
    have small := byte.toNat_lt
    rw [fromLittleEndian, List.length_cons, Nat.pow_succ]
    omega

theorem littleEndian_fromLittleEndian (bytes : Bytes) :
    littleEndian bytes.length (fromLittleEndian bytes) = bytes := by
  induction bytes with
  | nil => rfl
  | cons byte rest ih =>
    have small := byte.toNat_lt
    have higher : (byte.toNat + 256 * fromLittleEndian rest) / 256 = fromLittleEndian rest := by
      omega
    have lower : UInt8.ofNat (byte.toNat + 256 * fromLittleEndian rest) = byte := by
      apply UInt8.toNat_inj.mp
      rw [UInt8.toNat_ofNat']
      omega
    rw [fromLittleEndian, List.length_cons, littleEndian, higher, ih, lower]

structure PackedLayout (Record : Type) where
  size : Nat
  encode : Record → Bytes
  decode : Bytes → Record
  length_encode : ∀ record, (encode record).length = size
  decode_encode : ∀ record rest, decode (encode record ++ rest) = record
  encode_decode : ∀ bytes, size ≤ bytes.length → encode (decode bytes) = bytes.take size

namespace PackedLayout

variable {First Second : Type}

def byte : PackedLayout UInt8 where
  size := 1
  encode value := [value]
  decode bytes := bytes.headD 0
  length_encode _ := rfl
  decode_encode _ _ := rfl
  encode_decode bytes long := by
    cases bytes with
    | nil => exact absurd long (by decide)
    | cons => rfl

def bytes (count : Nat) : PackedLayout (Vector UInt8 count) where
  size := count
  encode values := values.toList
  decode bytes := Vector.ofFn fun position => bytes.getD position 0
  length_encode values := values.length_toList
  decode_encode values rest := by
    ext position bound
    simp [List.getElem?_append_left]
  encode_decode bytes long := by
    apply List.ext_getElem
    · simp [long]
    · intro position _ bound
      have inside : position < bytes.length := by
        rw [List.length_take] at bound
        omega
      simp [inside]

open List

def uint32 (order : ByteOrder) : PackedLayout UInt32 where
  size := 4
  encode value := order.arrange (littleEndian 4 value.toNat)
  decode bytes := UInt32.ofNat (fromLittleEndian (order.arrange (bytes.take 4)))
  length_encode value := by rw [order.length_arrange, length_littleEndian]
  decode_encode value rest := by
    have taken : (order.arrange (littleEndian 4 value.toNat) ++ rest).take 4 =
        order.arrange (littleEndian 4 value.toNat) :=
      take_left' (by rw [order.length_arrange, length_littleEndian])
    rw [taken, order.arrange_arrange, fromLittleEndian_littleEndian value.toNat_lt]
    exact UInt32.ofNat_toNat
  encode_decode bytes long := by
    have four : (order.arrange (bytes.take 4)).length = 4 := by
      rw [order.length_arrange, length_take_of_le long]
    have small := fromLittleEndian_lt (order.arrange (bytes.take 4))
    rw [four] at small
    have same := littleEndian_fromLittleEndian (order.arrange (bytes.take 4))
    rw [four] at same
    rw [UInt32.toNat_ofNat_of_lt' small, same, order.arrange_arrange]

def append (first : PackedLayout First) (second : PackedLayout Second) :
    PackedLayout (First × Second) where
  size := first.size + second.size
  encode record := first.encode record.1 ++ second.encode record.2
  decode bytes := (first.decode bytes, second.decode (bytes.drop first.size))
  length_encode record := by
    rw [length_append, first.length_encode, second.length_encode]
  decode_encode record rest := by
    have dropped : (first.encode record.1 ++ (second.encode record.2 ++ rest)).drop first.size =
        second.encode record.2 ++ rest := drop_left' (first.length_encode record.1)
    rw [append_assoc, first.decode_encode, dropped, second.decode_encode]
  encode_decode bytes long := by
    have others : second.size ≤ (bytes.drop first.size).length := by
      rw [length_drop]
      omega
    rw [first.encode_decode bytes (by omega), second.encode_decode _ others, take_add]

def ofEquiv (layout : PackedLayout First) (fields : First ≃ Second) : PackedLayout Second where
  size := layout.size
  encode record := layout.encode (fields.symm record)
  decode bytes := fields (layout.decode bytes)
  length_encode record := layout.length_encode _
  decode_encode record rest := by
    rw [layout.decode_encode, fields.apply_symm_apply]
  encode_decode bytes long := by
    rw [fields.symm_apply_apply, layout.encode_decode bytes long]

theorem eq_encode_append_iff (layout : PackedLayout First) {bytes rest : Bytes} {record : First} :
    bytes = layout.encode record ++ rest ↔
      layout.size ≤ bytes.length ∧ layout.decode bytes = record ∧
        bytes.drop layout.size = rest := by
  constructor
  · rintro rfl
    refine ⟨?_, layout.decode_encode record rest, drop_left' (layout.length_encode record)⟩
    rw [length_append, layout.length_encode]
    exact Nat.le_add_right _ _
  · rintro ⟨long, rfl, rfl⟩
    rw [layout.encode_decode bytes long, take_append_drop]

end PackedLayout

end Coroserver
