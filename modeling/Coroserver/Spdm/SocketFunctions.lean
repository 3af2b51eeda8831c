import Coroserver.Event.Framing

/-! What arrives is the list of segments that the reads of the socket return; when
none is left, a read fails or times out. -/

namespace Coroserver.Spdm

open List

/-- `asio::streambuf`: what can be read, and what is left of the put area. -/
structure Streambuf where
  readable : Bytes := []
  putArea : Bytes := replicate 128 0

/-- A put area that is used up is first grown. -/
def Streambuf.sputc (growth : Nat) (buf : Streambuf) (c : UInt8) : Streambuf :=
  match buf.putArea with
  | [] => ⟨buf.readable ++ [c], replicate (growth - 1) 0⟩
  | _ :: spare => ⟨buf.readable ++ [c], spare⟩

def Streambuf.commit (buf : Streambuf) (n : Nat) : Streambuf :=
  ⟨buf.readable ++ buf.putArea.take n, buf.putArea.drop n⟩

structure Written where
  result : Bool
  sent : Bytes
  size : Nat
deriving DecidableEq

/-- The socket may fail after some bytes. -/
def writeWithTimeout (growth : Nat) (failure : Option Nat) (data : Bytes) : Written :=
  let buf := (data.foldl (Streambuf.sputc growth) {}).commit data.length
  match failure with
  | none => ⟨true, buf.readable, buf.readable.length⟩
  | some count => ⟨false, buf.readable.take count, (buf.readable.take count).length⟩

private theorem sputc_spec {growth : Nat} (grows : 0 < growth) (data : Bytes) (buf : Streambuf) :
    (data.foldl (Streambuf.sputc growth) buf).readable = buf.readable ++ data ∧
      ((data.foldl (Streambuf.sputc growth) buf).putArea = [] ↔
        buf.putArea.length ≤ data.length ∧ growth ∣ data.length - buf.putArea.length) := by
  induction data generalizing buf with
  | nil => simp +contextual [length_eq_zero_iff]
  | cons c data ih =>
    obtain ⟨readable, emptied⟩ := ih (buf.sputc growth c)
    rw [foldl_cons, readable, emptied]
    unfold Streambuf.sputc
    split
    · next used =>
      simp only [used, append_assoc, singleton_append, length_replicate,
        length_nil, length_cons, true_and, Nat.zero_le, Nat.sub_zero]
      constructor
      · rintro ⟨_, divides⟩
        have split : data.length + 1 = data.length - (growth - 1) + growth := by omega
        exact split ▸ Nat.dvd_add divides (Nat.dvd_refl growth)
      · intro divides
        have enough := Nat.le_of_dvd (Nat.succ_pos _) divides
        refine ⟨by omega, ?_⟩
        have split : data.length - (growth - 1) = data.length + 1 - growth := by omega
        exact split ▸ Nat.dvd_sub divides (Nat.dvd_refl growth)
    · next spare used => simp [used]

/-- Besides the message, `commit` sends what is left of the put area, at most as
much again. For `growth` 128 nothing is left after a multiple of 128 bytes. -/
theorem written_exactly_iff {growth : Nat} (grows : 0 < growth) (data : Bytes) :
    writeWithTimeout growth none data = ⟨true, data, data.length⟩ ↔
      data = [] ∨ 128 ≤ data.length ∧ growth ∣ data.length - 128 := by
  obtain ⟨readable, emptied⟩ := sputc_spec grows data {}
  rw [length_replicate] at emptied
  simp only [writeWithTimeout, Streambuf.commit, readable, nil_append, Written.mk.injEq,
    true_and]
  rw [← emptied]
  constructor
  · rintro ⟨sent, -⟩
    rcases take_eq_nil_iff.mp (append_right_eq_self.mp sent) with none | used
    · exact .inl (length_eq_zero_iff.mp none)
    · exact .inr used
  · rintro (rfl | used)
    · exact ⟨rfl, rfl⟩
    · rw [used, take_nil, append_nil]
      exact ⟨rfl, rfl⟩

theorem written_exactly_iff_full :
    writeWithTimeout 128 none (replicate 256 7) = ⟨true, replicate 256 7, 256⟩ := by
  have whole := (@written_exactly_iff 128 (by decide) (replicate 256 7)).mpr
  rw [length_replicate] at whole
  exact whole (.inr ⟨by decide, by decide⟩)

theorem four_bytes_sent_twice_as_long :
    writeWithTimeout 128 none [5, 1, 2, 3] = ⟨true, [5, 1, 2, 3, 0, 0, 0, 0], 8⟩ := by
  decide +kernel

structure Received where
  result : Bool
  data : Bytes
  size : Nat
  left : List Bytes
deriving DecidableEq

/-- `transfer_at_least(1)`. -/
def readWithTimeout (size : Nat) : List Bytes → Received
  | [] => ⟨false, [], size, []⟩
  | [] :: segments => readWithTimeout size segments
  | segment :: segments =>
    match Event.read size (segment :: segments) with
    | none => ⟨false, [], size, segments⟩
    | some (data, left) => ⟨true, data, data.length, left⟩

/-- The loop of a strict read. A read without an error has at least one byte. -/
def readRemaining (remaining : Nat) (total : Bytes) (segments : List Bytes) :
    Received :=
  if remaining = 0 then ⟨true, total, total.length, segments⟩
  else
    match readWithTimeout remaining segments with
    | ⟨true, byte :: chunk, _, left⟩ =>
      readRemaining (remaining - (chunk.length + 1)) (total ++ byte :: chunk) left
    | failed => ⟨false, total, total.length, failed.left⟩
termination_by remaining
decreasing_by omega

def readAllWithTimeout (size : Nat) (strict : Bool) (segments : List Bytes) : Received :=
  if size = 0 then ⟨true, [], 0, segments⟩
  else if !strict then readWithTimeout size segments
  else readRemaining size [] segments

def SpdmTcpClient.receive := readAllWithTimeout

def deviceReceiveMessageAll (messageSize : Nat) (segments : List Bytes) : Received :=
  SpdmTcpClient.receive messageSize false segments

private theorem readWithTimeout_whole_iff {size : Nat} (segments : List Bytes)
    (fits : segments.flatten.length ≤ size) :
    ((readWithTimeout size segments).result = true →
        (readWithTimeout size segments).data = segments.flatten ∧
          (readWithTimeout size segments).size = segments.flatten.length) ↔
      (segments.filter (· ≠ [])).length ≤ 1 := by
  induction segments with
  | nil => simp [readWithTimeout]
  | cons segment segments ih =>
    rw [flatten_cons, length_append] at fits
    cases segment with
    | nil => simpa [readWithTimeout] using ih (by omega)
    | cons byte bytes =>
      have first : readWithTimeout size ((byte :: bytes) :: segments) =
          ⟨true, byte :: bytes, bytes.length + 1, segments⟩ := by
        simp [readWithTimeout, Event.read, show bytes.length + 1 ≤ size from by simp at fits; omega]
      have others : (segments.filter (· ≠ [])).length + 1 ≤ 1 ↔ segments.flatten = [] := by
        simp [flatten_eq_nil_iff]
      rw [first, filter_cons_of_pos (by simp), length_cons, others, flatten_cons]
      constructor
      · exact fun whole => append_right_eq_self.mp (whole rfl).1.symm
      · intro none
        simp [none]

/-- A response is received whole exactly if one read has all of it. -/
theorem received_whole_iff {capacity : Nat} {segments : List Bytes}
    (fits : segments.flatten.length ≤ capacity) :
    ((deviceReceiveMessageAll capacity segments).result = true →
        (deviceReceiveMessageAll capacity segments).data = segments.flatten ∧
          (deviceReceiveMessageAll capacity segments).size = segments.flatten.length) ↔
      (segments.filter (· ≠ [])).length ≤ 1 := by
  unfold deviceReceiveMessageAll SpdmTcpClient.receive readAllWithTimeout
  split
  · next empty =>
    rw [empty, Nat.le_zero, length_eq_zero_iff] at fits
    have none : segments.filter (· ≠ []) = [] := by
      simpa using flatten_eq_nil_iff.mp fits
    rw [none, fits]
    exact iff_of_true (fun _ => ⟨rfl, rfl⟩) (Nat.zero_le 1)
  · exact readWithTimeout_whole_iff segments fits

theorem received_whole_iff_one :
    (deviceReceiveMessageAll 8 [[5, 1, 2]]).data = [5, 1, 2] :=
  ((@received_whole_iff 8 [[5, 1, 2]] (by decide)).mpr (by decide) rfl).1

theorem split_response_truncated :
    deviceReceiveMessageAll 8 [[5, 1], [2]] = ⟨true, [5, 1], 2, [[2]]⟩ := by
  decide

end Coroserver.Spdm
