import Coroserver.Event.FramingProperties
import Mathlib.Algebra.BigOperators.Ring.Nat

/-! `async_spdm_receive` and `async_spdm_send`: first the bytes that are received,
where the timer is left out, and then the timer that the calls share. -/

namespace Coroserver.Spdm

open List

structure Reading where
  result : Bool
  buf : Bytes
  left : List Bytes

def streamerReadExact (n : Nat) (buf : Bytes) (segments : List Bytes) : Reading :=
  if n = 0 then ⟨true, buf, segments⟩
  else
    match Event.read n segments with
    | some (byte :: chunk, left) =>
      streamerReadExact (n - (chunk.length + 1)) (buf ++ byte :: chunk) left
    | some ([], left) => ⟨false, buf, left⟩
    | none => ⟨false, buf, segments⟩
termination_by n
decreasing_by omega

def totalSize (buf : Bytes) : Nat :=
  ((buf.getD 0 0).toNat ||| (buf.getD 1 0).toNat <<< 8) + 2

def asyncSpdmReceive (size : Nat) (segments : List Bytes) : Reading :=
  match streamerReadExact 4 [] segments with
  | ⟨false, buf, left⟩ => ⟨false, buf, left⟩
  | ⟨true, buf, left⟩ =>
    if totalSize buf < 4 ∨ size < totalSize buf then ⟨false, buf, left⟩
    else streamerReadExact (totalSize buf - 4) buf left

def Receives (size : Nat) : List Bytes → List Bytes → List Bytes → Prop
  | [], segments, left => left = segments
  | message :: messages, segments, left =>
    ∃ next, asyncSpdmReceive size segments = ⟨true, message, next⟩ ∧
      Receives size messages next left

theorem length_streamerReadExact_le (n : Nat) (buf : Bytes) (segments : List Bytes) :
    (streamerReadExact n buf segments).buf.length ≤ buf.length + n := by
  fun_induction streamerReadExact n buf segments with
  | case1 => exact Nat.le_refl _
  | case2 _ _ _ _ _ _ _ done ih =>
    have fits := (Event.read_spec done).2
    simp only [length_append, length_cons] at ih fits
    omega
  | case3 | case4 => exact Nat.le_add_right _ _

theorem streamerReadExact_eq {data rest : Bytes} {segments : List Bytes}
    (nonempty : ∀ segment ∈ segments, segment ≠ []) (arrived : segments.flatten = data ++ rest)
    (buf : Bytes) :
    ∃ left, streamerReadExact data.length buf segments = ⟨true, buf ++ data, left⟩ ∧
      left.flatten = rest ∧ ∀ segment ∈ left, segment ≠ [] := by
  rw [streamerReadExact]
  split
  · next none =>
    cases length_eq_zero_iff.mp none
    exact ⟨segments, by rw [append_nil], arrived, nonempty⟩
  · next some =>
    have more : segments ≠ [] := by
      rintro rfl
      exact some (by simp_all)
    obtain ⟨chunk, left, done, progress, kept⟩ :=
      Event.read_progress (Nat.pos_of_ne_zero some) nonempty more
    obtain ⟨byte, chunk, rfl⟩ := exists_cons_of_ne_nil progress
    obtain ⟨read, fits⟩ := Event.read_spec done
    rw [arrived] at read
    obtain ⟨later, rfl⟩ := prefix_of_prefix_length_le ⟨_, read.symm⟩ ⟨rest, rfl⟩ fits
    rw [append_assoc] at read
    have received := streamerReadExact_eq kept (append_cancel_left read).symm
      (buf ++ byte :: chunk)
    rw [done]
    simpa using received
termination_by data.length

/-- The value of the first two bytes, the lower one first. -/
def lengthField (bytes : Bytes) : Nat :=
  (bytes.getD 0 0).toNat + 256 * (bytes.getD 1 0).toNat

/-- A message whose first two bytes are its size without them. -/
structure Framed (message : Bytes) : Prop where
  header : 4 ≤ message.length
  size : lengthField message + 2 = message.length

theorem totalSize_eq (bytes : Bytes) : totalSize bytes = lengthField bytes + 2 := by
  have lower : (bytes.getD 0 0).toNat < 2 ^ 8 := UInt8.toNat_lt _
  have joined := Nat.shiftLeft_add_eq_or_of_lt lower (bytes.getD 1 0).toNat
  rw [totalSize, Nat.or_comm, ← joined, Nat.shiftLeft_eq, lengthField]
  omega

theorem totalSize_take (stream : Bytes) : totalSize (stream.take 4) = totalSize stream := by
  rcases stream with _ | ⟨_, _ | _⟩ <;> rfl

theorem asyncSpdmReceive_eq (size : Nat) {stream : Bytes} {segments : List Bytes}
    (nonempty : ∀ segment ∈ segments, segment ≠ []) (arrived : segments.flatten = stream)
    (header : 4 ≤ stream.length) :
    ∃ left, left.flatten = stream.drop 4 ∧ (∀ segment ∈ left, segment ≠ []) ∧
      asyncSpdmReceive size segments =
        if totalSize stream < 4 ∨ size < totalSize stream then ⟨false, stream.take 4, left⟩
        else streamerReadExact (totalSize stream - 4) (stream.take 4) left := by
  rw [← take_append_drop 4 stream] at arrived
  obtain ⟨left, read, rest, kept⟩ := streamerReadExact_eq nonempty arrived []
  rw [length_take_of_le header] at read
  refine ⟨left, rest, kept, ?_⟩
  rw [asyncSpdmReceive, read, ← totalSize_take]
  rfl

theorem Framed.asyncSpdmReceive_eq {size : Nat} {message rest : Bytes}
    (framed : Framed message) (fits : message.length ≤ size) {segments : List Bytes}
    (nonempty : ∀ segment ∈ segments, segment ≠ []) (arrived : segments.flatten = message ++ rest) :
    ∃ left, asyncSpdmReceive size segments = ⟨true, message, left⟩ ∧ left.flatten = rest ∧
      ∀ segment ∈ left, segment ≠ [] := by
  obtain ⟨header, total⟩ := framed
  have whole : totalSize (message ++ rest) = message.length := by
    rw [← totalSize_take, take_append_of_le_length header, totalSize_take, totalSize_eq, total]
  obtain ⟨body, after, kept, received⟩ := Spdm.asyncSpdmReceive_eq size nonempty arrived
    (by rw [length_append]; omega)
  rw [drop_append_of_le_length header] at after
  obtain ⟨left, read, remaining, nonempty⟩ := streamerReadExact_eq kept after (message.take 4)
  rw [take_append_drop, length_drop] at read
  rw [whole, if_neg (by omega), take_append_of_le_length header, read] at received
  exact ⟨left, received, remaining, nonempty⟩

theorem length_asyncSpdmReceive_le {size : Nat} (header : 4 ≤ size) (segments : List Bytes) :
    (asyncSpdmReceive size segments).buf.length ≤ size := by
  have first := length_streamerReadExact_le 4 [] segments
  unfold asyncSpdmReceive
  split
  · next buf left read =>
    rw [read] at first
    exact Nat.le_trans first header
  · next buf left read =>
    rw [read] at first
    have body := length_streamerReadExact_le (totalSize buf - 4) buf left
    dsimp only [length_nil] at first
    split
    · exact Nat.le_trans first header
    · omega

private theorem receives_messages {size : Nat} {messages : List Bytes}
    (fitting : ∀ message ∈ messages, Framed message ∧ message.length ≤ size)
    {segments : List Bytes} (nonempty : ∀ segment ∈ segments, segment ≠ [])
    {rest : Bytes} (arrived : segments.flatten = messages.flatten ++ rest) :
    ∃ left, Receives size messages segments left ∧ left.flatten = rest ∧
      ∀ segment ∈ left, segment ≠ [] := by
  induction messages generalizing segments with
  | nil => exact ⟨segments, rfl, arrived, nonempty⟩
  | cons _ _ ih =>
    obtain ⟨⟨framed, fits⟩, others⟩ := forall_mem_cons.mp fitting
    rw [flatten_cons, append_assoc] at arrived
    obtain ⟨next, received, after, kept⟩ := framed.asyncSpdmReceive_eq fits nonempty arrived
    obtain ⟨left, more, remaining, nonempty⟩ := ih others kept after
    exact ⟨left, ⟨next, received, more⟩, remaining, nonempty⟩

/-- Successive calls receive the messages that fit, and the next call fails if the
size after them is too large or less than a header. Nothing is written behind the
buffer. -/
theorem messages_received {size : Nat} (header : 4 ≤ size) :
    (∀ segments, (asyncSpdmReceive size segments).buf.length ≤ size) ∧
    ∀ messages segments (rest : Bytes),
      (∀ message ∈ messages, Framed message ∧ message.length ≤ size) →
      (∀ segment ∈ segments, segment ≠ []) → segments.flatten = messages.flatten ++ rest →
      ∃ left, Receives size messages segments left ∧ left.flatten = rest ∧
        (4 ≤ rest.length → lengthField rest < 2 ∨ size < lengthField rest + 2 →
          (asyncSpdmReceive size left).result = false) := by
  refine ⟨length_asyncSpdmReceive_le header, ?_⟩
  intro _ _ _ fitting nonempty arrived
  obtain ⟨left, received, remaining, kept⟩ := receives_messages fitting nonempty arrived
  refine ⟨left, received, remaining, fun header refused => ?_⟩
  obtain ⟨_, -, -, failed⟩ := asyncSpdmReceive_eq size kept remaining header
  rw [failed, totalSize_eq, if_pos (by omega)]

theorem messages_received_two :
    ∃ left, Receives 260 [[2, 0, 5, 1], [2, 1] ++ List.replicate 258 7]
        [[2, 0, 5], [1, 2], 1 :: List.replicate 258 7 ++ [3, 1, 0], [0]] left ∧
      left.flatten = [3, 1, 0, 0] ∧ (asyncSpdmReceive 260 left).result = false := by
  have size : (List.replicate 258 (7 : UInt8)).length = 258 := length_replicate
  generalize List.replicate 258 (7 : UInt8) = body at size ⊢
  obtain ⟨left, received, rest, refused⟩ := (messages_received (show 4 ≤ 260 by decide)).2
    [[2, 0, 5, 1], [2, 1] ++ body] [[2, 0, 5], [1, 2], 1 :: body ++ [3, 1, 0], [0]] [3, 1, 0, 0]
    (by simpa [size] using ⟨⟨by decide, rfl⟩, by simp [size], by simp [size, lengthField]⟩)
    (by simp) (by simp)
  exact ⟨left, received, rest, refused (by decide) (by decide)⟩

/-- The timer that the calls share, with the time in microseconds. -/
structure SharedTimer where
  clock : Nat := 0
  expiry : Option Nat := none

namespace SharedTimer

def setTimeout (timer : SharedTimer) (seconds : Nat) : SharedTimer :=
  { timer with expiry := some (timer.clock + seconds * 1000000) }

def idle (timer : SharedTimer) (time : Nat) : SharedTimer :=
  ⟨timer.clock + time, timer.expiry.filter (timer.clock + time ≤ ·)⟩

/-- A read or write of the socket that would take some time, and `timer->cancel()`
after it; `none` if the timer cancels it. -/
def transfer (timer : SharedTimer) (time : Nat) : Option SharedTimer :=
  if timer.expiry.any (· < timer.clock + time) then none else some ⟨timer.clock + time, none⟩

/-- `streamer_read_exact` and `streamer_write_exact`, for the time and the size of
each transfer. -/
def transferExact (timeout : Bool) : SharedTimer → Nat → List (Nat × Nat) → Option SharedTimer
  | timer, 0, _ => some timer
  | _, _, [] | _, _, (_, 0) :: _ => none
  | timer, n, (time, size) :: transfers =>
    match (if timeout then timer.setTimeout 30 else timer).transfer time with
    | none => none
    | some next => transferExact timeout next (n - size) transfers

end SharedTimer

/-- The calls that succeed, with what their transfers take; idle time before a
header is partly before the call. -/
inductive SpdmCall where
  | receive (pause timeoutUs size : Nat) (header body : List (Nat × Nat))
  | send (timeoutUs size : Nat) (writes : List (Nat × Nat))

def seconds (timeoutUs : Nat) : Nat := (if timeoutUs > 0 then timeoutUs else 10000000) / 1000000

namespace SpdmCall

def run (timer : SharedTimer) : SpdmCall → Option SharedTimer
  | .receive pause timeoutUs size header body =>
    match (timer.idle pause).transferExact false 4 header with
    | none => none
    | some timer =>
      if size < 4 then none
      else (timer.setTimeout (seconds timeoutUs)).transferExact true (size - 4) body
  | .send timeoutUs size writes =>
    if size = 0 then some timer
    else (timer.setTimeout (seconds timeoutUs)).transferExact true size writes

/-- A message of four bytes has no body whose reads would cancel the timer. -/
def leavesArmed (armed : Bool) : SpdmCall → Bool
  | .receive _ _ size _ _ => size == 4
  | .send _ size _ => armed && size == 0

end SpdmCall

theorem transfer_expiry {timer next : SharedTimer} {time : Nat}
    (moved : timer.transfer time = some next) : next.expiry = none := by
  unfold SharedTimer.transfer at moved
  split at moved <;> cases moved
  rfl

private theorem transferExact_expiry {timeout : Bool} {timer next : SharedTimer} {n : Nat}
    {transfers : List (Nat × Nat)} (done : timer.transferExact timeout n transfers = some next) :
    next.expiry = if n = 0 then timer.expiry else none := by
  fun_induction SharedTimer.transferExact timeout timer n transfers with
  | case1 => rw [← Option.some.inj done, if_pos rfl]
  | case2 | case3 | case4 => cases done
  | case5 _ _ _ _ _ positive _ _ moved ih =>
    rw [ih done, transfer_expiry moved, ite_self, if_neg positive]

theorem SpdmCall.run_expiry {timer next : SharedTimer} {call : SpdmCall}
    (done : call.run timer = some next) :
    next.expiry.isSome = call.leavesArmed timer.expiry.isSome := by
  revert done
  fun_cases SpdmCall.run timer call with
  | case1 | case2 => exact nofun
  | case3 _ _ size header body =>
    intro done
    have header : size - 4 = 0 ↔ size = 4 := by omega
    rw [transferExact_expiry done, leavesArmed]
    by_cases body : size = 4 <;> simp [header, body, SharedTimer.setTimeout]
  | case4 =>
    rintro ⟨⟩
    simp [leavesArmed]
  | case5 _ _ _ sent =>
    intro done
    rw [transferExact_expiry done, if_neg sent]
    simp [leavesArmed, sent]

theorem SpdmCall.calls_expiry {calls : List SpdmCall} {start timer : SharedTimer}
    (succeeded : calls.foldlM SpdmCall.run start = some timer) :
    timer.expiry.isSome = calls.foldl leavesArmed start.expiry.isSome := by
  induction calls generalizing start with
  | nil =>
    cases succeeded
    rfl
  | cons _ _ ih =>
    obtain ⟨_, ran, others⟩ := Option.bind_eq_some_iff.mp succeeded
    rw [ih others, run_expiry ran, foldl_cons]

private theorem transferExact_isSome {n : Nat} {transfers : List (Nat × Nat)}
    (arriving : ∀ transfer ∈ transfers, 0 < transfer.2)
    (enough : n ≤ (transfers.map Prod.snd).sum) {timer : SharedTimer}
    (unarmed : timer.expiry = none) : (timer.transferExact false n transfers).isSome := by
  fun_induction SharedTimer.transferExact false timer n transfers with
  | case1 => rfl
  | case2 timer n positive => exact absurd (Nat.le_zero.mp enough) positive
  | case3 => exact absurd (arriving _ mem_cons_self) (Nat.lt_irrefl 0)
  | case4 _ _ _ _ _ _ _ stopped =>
    simp [SharedTimer.transfer, unarmed] at stopped
  | case5 _ _ _ _ _ _ _ _ moved ih =>
    rw [map_cons, sum_cons] at enough
    exact ih (fun transfer later => arriving transfer (mem_cons_of_mem _ later)) (by omega)
      (transfer_expiry moved)

/-- The timer does not cancel the read of a header, in whatever parts it arrives,
unless a message of four bytes left the timer armed. -/
theorem header_read_not_cancelled {calls : List SpdmCall} {timer : SharedTimer}
    (succeeded : calls.foldlM SpdmCall.run {} = some timer)
    (disarmed : calls.foldl SpdmCall.leavesArmed false = false) (pause : Nat)
    {header : List (Nat × Nat)} (arriving : ∀ transfer ∈ header, 0 < transfer.2)
    (enough : 4 ≤ (header.map Prod.snd).sum) :
    ((timer.idle pause).transferExact false 4 header).isSome := by
  have unarmed : timer.expiry = none := by
    simpa [disarmed] using SpdmCall.calls_expiry succeeded
  refine transferExact_isSome arriving enough ?_
  simp [SharedTimer.idle, unarmed]

theorem header_read_not_cancelled_after_send :
    ∃ timer, [SpdmCall.receive 0 0 4 [(5, 4)] [], .send 0 6 [(1, 6)]].foldlM SpdmCall.run {} =
        some timer ∧
      ((timer.idle 7).transferExact false 4 [(100000000, 1), (100000000, 3)]).isSome :=
  ⟨_, rfl, @header_read_not_cancelled [.receive 0 0 4 [(5, 4)] [], .send 0 6 [(1, 6)]] _ rfl rfl
    7 _ (by decide) (by decide)⟩

theorem header_read_cancelled_after_four_bytes :
    ∃ timer, [SpdmCall.receive 0 0 4 [(5, 4)] []].foldlM SpdmCall.run {} = some timer ∧
      (timer.idle 0).transferExact false 4 [(10000001, 4)] = none :=
  ⟨_, rfl, rfl⟩

end Coroserver.Spdm
