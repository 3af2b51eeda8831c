import Coroserver.Bytes
import Mathlib.Data.List.Basic

/-! The framer of the IBM i console: `encode` wraps a payload in `END` markers and
escapes the two reserved bytes, `feed` decodes a byte stream that arrives in
pieces of any size. What `feed` leaves unfinished stays in the framer. -/

namespace Coroserver.Console

open List

namespace VSlip

def frameEnd : UInt8 := 0xC0
def esc : UInt8 := 0xDB
def escEnd : UInt8 := 0xDC
def escEsc : UInt8 := 0xDD

def encodeByte (b : UInt8) : Bytes :=
  if b = frameEnd then [esc, escEnd]
  else if b = esc then [esc, escEsc]
  else [b]

def encode (payload : Bytes) : Bytes :=
  frameEnd :: (payload.flatMap encodeByte ++ [frameEnd])

end VSlip

open VSlip

structure VSlipFramer where
  buf : Bytes := []
  escaping : Bool := false
  deriving DecidableEq

def VSlipFramer.fresh : VSlipFramer := {}

structure Feeding where
  framer : VSlipFramer
  out : List Bytes
  completed : Nat

namespace Feeding

def push (feeding : Feeding) (b : UInt8) : Feeding :=
  { feeding with framer := { buf := feeding.framer.buf ++ [b], escaping := false } }

def byte (feeding : Feeding) (b : UInt8) : Feeding :=
  if feeding.framer.escaping then
    if b = escEnd then feeding.push frameEnd
    else if b = escEsc then feeding.push esc
    else { feeding with framer := { feeding.framer with escaping := false } }
  else if b = frameEnd then
    if feeding.framer.buf.isEmpty then feeding
    else
      { framer := { feeding.framer with buf := [] }
        out := feeding.out ++ [feeding.framer.buf]
        completed := feeding.completed + 1 }
  else if b = esc then
    { feeding with framer := { feeding.framer with escaping := true } }
  else feeding.push b

end Feeding

namespace VSlipFramer

def feed (framer : VSlipFramer) (raw : Bytes) (out : List Bytes) : Feeding :=
  raw.foldl Feeding.byte ⟨framer, out, 0⟩

def feedAll (framer : VSlipFramer) (chunks : List Bytes) (out : List Bytes) :
    Feeding :=
  chunks.foldl
    (fun fed chunk =>
      let next := fed.framer.feed chunk fed.out
      { next with completed := fed.completed + next.completed })
    ⟨framer, out, 0⟩

def reset (_ : VSlipFramer) : VSlipFramer := {}

end VSlipFramer

namespace Feeding

private theorem byte_append (framer : VSlipFramer) (earlier out : List Bytes) (before count : Nat)
    (b : UInt8) :
    byte ⟨framer, earlier ++ out, before + count⟩ b =
      { framer := (byte ⟨framer, out, count⟩ b).framer
        out := earlier ++ (byte ⟨framer, out, count⟩ b).out
        completed := before + (byte ⟨framer, out, count⟩ b).completed } := by
  unfold byte push
  split
  · split
    · rfl
    · split <;> rfl
  · split
    · split
      · rfl
      · simp [Nat.add_assoc]
    · split <;> rfl

theorem foldl_byte_append (raw : Bytes) (framer : VSlipFramer)
    (earlier out : List Bytes) (before count : Nat) :
    raw.foldl byte ⟨framer, earlier ++ out, before + count⟩ =
      { framer := (raw.foldl byte ⟨framer, out, count⟩).framer
        out := earlier ++ (raw.foldl byte ⟨framer, out, count⟩).out
        completed := before + (raw.foldl byte ⟨framer, out, count⟩).completed } := by
  induction raw generalizing framer out count with
  | nil => rfl
  | cons b rest ih =>
    simp only [foldl_cons, byte_append]
    exact ih ..

end Feeding

namespace VSlipFramer

variable (framer : VSlipFramer)

theorem foldl_byte_eq_feed (raw : Bytes) (out : List Bytes) (count : Nat) :
    raw.foldl Feeding.byte ⟨framer, out, count⟩ =
      { framer := (framer.feed raw []).framer
        out := out ++ (framer.feed raw []).out
        completed := count + (framer.feed raw []).completed } := by
  simpa only [feed, append_nil, Nat.add_zero] using
    Feeding.foldl_byte_append raw framer out [] count 0

theorem feed_append (first second : Bytes) : framer.feed (first ++ second) [] =
      { framer := ((framer.feed first []).framer.feed second []).framer
        out := (framer.feed first []).out ++ ((framer.feed first []).framer.feed second []).out
        completed := (framer.feed first []).completed +
          ((framer.feed first []).framer.feed second []).completed } := by
  unfold feed
  rw [foldl_append]
  exact foldl_byte_eq_feed ..

theorem feedAll_eq_feed (chunks : List Bytes)
    (out : List Bytes) : framer.feedAll chunks out = framer.feed chunks.flatten out := by
  suffices general : ∀ fed : Feeding, chunks.foldl (fun fed chunk =>
            let next := fed.framer.feed chunk fed.out
            { next with completed := fed.completed + next.completed }) fed =
        chunks.flatten.foldl Feeding.byte fed from general ⟨framer, out, 0⟩
  induction chunks with
  | nil => exact fun _ => rfl
  | cons chunk rest ih =>
    intro fed
    rw [foldl_cons, ih, flatten_cons, foldl_append]
    congr 1
    rw [foldl_byte_eq_feed fed.framer chunk fed.out fed.completed]
    unfold feed
    rw [foldl_byte_eq_feed]
    simp [feed]

private theorem byte_out_ne_nil {feeding : Feeding} (nonempty : ∀ frame ∈ feeding.out, frame ≠ [])
    (b : UInt8) : ∀ frame ∈ (feeding.byte b).out, frame ≠ [] := by
  unfold Feeding.byte
  split
  · split
    · exact nonempty
    · split <;> exact nonempty
  · split
    · split
      · exact nonempty
      · next filled =>
          refine forall_mem_append.mpr ⟨nonempty, forall_mem_singleton.mpr ?_⟩
          exact fun empty => filled (by simp [empty])
    · split <;> exact nonempty

theorem feed_out_ne_nil (raw : Bytes) : ∀ frame ∈ (framer.feed raw []).out, frame ≠ [] := by
  suffices general : ∀ feeding : Feeding, (∀ frame ∈ feeding.out, frame ≠ []) →
      ∀ frame ∈ (raw.foldl Feeding.byte feeding).out, frame ≠ [] from
    general ⟨framer, [], 0⟩ (by simp)
  induction raw with
  | nil => exact fun _ nonempty => nonempty
  | cons b rest ih => exact fun feeding nonempty => ih _ (byte_out_ne_nil nonempty b)

theorem foldl_encodeByte (buf : Bytes) (out : List Bytes) (count : Nat) (b : UInt8) :
    (encodeByte b).foldl Feeding.byte ⟨⟨buf, false⟩, out, count⟩ =
      ⟨⟨buf ++ [b], false⟩, out, count⟩ := by
  unfold encodeByte
  split
  · next isEnd =>
      subst isEnd
      rfl
  · next notEnd =>
      split
      · next isEsc =>
          subst isEsc
          rfl
      · next notEsc => simp [Feeding.byte, Feeding.push, notEnd, notEsc]

variable (payload : Bytes)

theorem foldl_encodeBytes (buf : Bytes) (out : List Bytes) (count : Nat) :
    (payload.flatMap encodeByte).foldl Feeding.byte ⟨⟨buf, false⟩, out, count⟩ =
      ⟨⟨buf ++ payload, false⟩, out, count⟩ := by
  induction payload generalizing buf with
  | nil => simp
  | cons b rest ih =>
    rw [flatMap_cons, foldl_append, foldl_encodeByte, ih, append_assoc]
    rfl

/-- The frames `feed` completes for one encoded payload: an empty one is
skipped as two markers next to each other. -/
def framesOf (payload : Bytes) : List Bytes := if payload = [] then [] else [payload]

private theorem byte_frameEnd (buf : Bytes) (out : List Bytes) (count : Nat) :
    Feeding.byte ⟨⟨buf, false⟩, out, count⟩ frameEnd =
      ⟨fresh, out ++ framesOf buf, count + (framesOf buf).length⟩ := by
  cases buf with
  | nil | cons => simp [Feeding.byte, framesOf, fresh]

theorem feed_encode_eq :
    ∃ frames, framer.feed (encode payload) [] = ⟨fresh, frames, frames.length⟩ ∧
      frames = if framer.escaping then framesOf (framer.buf ++ payload)
        else framesOf framer.buf ++ framesOf payload := by
  obtain ⟨buf, escaping⟩ := framer
  refine ⟨_, ?_, rfl⟩
  rw [feed, encode, foldl_cons, foldl_append]
  cases escaping with
  | false =>
    rw [byte_frameEnd, fresh, foldl_encodeBytes, foldl_cons, foldl_nil, byte_frameEnd]
    simp [fresh]
  | true =>
    have dropped : Feeding.byte ⟨⟨buf, true⟩, [], 0⟩ frameEnd = ⟨⟨buf, false⟩, [], 0⟩ := rfl
    rw [dropped, foldl_encodeBytes, foldl_cons, foldl_nil, byte_frameEnd]
    simp

theorem framer_feed_encode : (framer.feed (encode payload) []).framer = fresh := by
  obtain ⟨_, fed, -⟩ := framer.feed_encode_eq payload
  rw [fed]

theorem feed_encode : fresh.feed (encode payload) [] =
      ⟨fresh, framesOf payload, (framesOf payload).length⟩ := by
  obtain ⟨_, fed, rfl⟩ := fresh.feed_encode_eq payload
  exact fed

theorem feed_encode_all (payloads : List Bytes) :
    fresh.feed (payloads.flatMap encode) [] =
      ⟨fresh, payloads.flatMap framesOf, (payloads.flatMap framesOf).length⟩ := by
  induction payloads with
  | nil => rfl
  | cons _ _ ih =>
    rw [flatMap_cons, feed_append, feed_encode, ih]
    simp

theorem flatMap_framesOf (payloads : List Bytes) :
    payloads.flatMap framesOf = payloads.filter (· ≠ []) := by
  induction payloads with
  | nil => rfl
  | cons payload rest ih =>
    rw [flatMap_cons, ih, framesOf]
    by_cases empty : payload = [] <;> simp [empty]

/-- Payloads come back from their encodings, in whatever pieces these arrive. -/
theorem feedAll_encode (payloads chunks out : List Bytes)
    (cut : chunks.flatten = payloads.flatMap encode) :
    fresh.feedAll chunks out =
      ⟨fresh, out ++ payloads.filter (· ≠ []), (payloads.filter (· ≠ [])).length⟩ := by
  rw [feedAll_eq_feed, cut, feed, foldl_byte_eq_feed, feed_encode_all, flatMap_framesOf]
  simp

theorem feedAll_encode_cut_escape :
    fresh.feedAll [[0xC0, 0xDB], [0xDC, 0xC0, 0xC0, 0xC0], [0xC0, 0xDB, 0xDD, 0xC0]] [] =
      ⟨fresh, [[0xC0], [0xDB]], 2⟩ :=
  feedAll_encode [[0xC0], [], [0xDB]] _ [] (by decide)

/-- After any noise the payload of the next frame is the last one exactly if the
noise does not leave an escape open behind bytes of an unfinished frame. -/
theorem payload_last_after_noise_iff (noise payload : Bytes) (chunks : List Bytes)
    (nonempty : payload ≠ []) (cut : chunks.flatten = noise ++ encode payload) :
    (fresh.feedAll chunks []).out.getLast? = some payload ↔
      (fresh.feed noise []).framer.escaping = false ∨ (fresh.feed noise []).framer.buf = [] := by
  obtain ⟨_, fed, rfl⟩ := (fresh.feed noise []).framer.feed_encode_eq payload
  rw [feedAll_eq_feed, cut, feed_append, fed]
  cases (fresh.feed noise []).framer.escaping with
  | false | true => simp [framesOf, nonempty]

theorem payload_last_after_one_byte :
    (fresh.feedAll [[0x01, 0xC0], [0x02, 0xC0]] []).out.getLast? = some [0x02] :=
  (payload_last_after_noise_iff [0x01] [0x02] _ (by decide) (by decide)).mpr (.inl (by decide))

theorem noise_joins_payload :
    (fresh.feed ([0x01, 0xDB] ++ encode [0x02]) []).out = [[0x01, 0x02]] := by decide

end VSlipFramer

end Coroserver.Console
