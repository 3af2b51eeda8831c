import Coroserver.Telnet.ProtocolProperties
import Coroserver.Telnet.Session
import Mathlib.Data.List.TakeWhile

/-! The application bytes of a client are its decoded bytes with each LF behind a CR
removed. They do not depend on how the client's bytes are cut into reads. A read
gives a batch of them, and the first escape character splits them. -/

namespace Coroserver.Telnet

open List

theorem Decoder.feedByte_output (decoder : Decoder) (output : Output) (c : UInt8) :
    (decoder.feedByte output c).1 = (decoder.feedByte {} c).1 ∧
      (decoder.feedByte output c).2.data = output.data ++ (decoder.feedByte {} c).2.data := by
  unfold Decoder.feedByte Decoder.dataByte Decoder.onIac
  cases decoder.state <;> dsimp only <;> repeat' split
  all_goals simp [Output.pushData, Output.pushEvent]

theorem Decoder.feed_output (decoder : Decoder) (output : Output) (input : Bytes) :
    (decoder.feed output input).1 = (decoder.feed {} input).1 ∧
      (decoder.feed output input).2.data = output.data ++ (decoder.feed {} input).2.data := by
  induction input generalizing decoder output with
  | nil => simp
  | cons c rest ih =>
    obtain ⟨decoded, pushed⟩ := decoder.feedByte_output output c
    have later := ih (decoder.feedByte {} c).1 (decoder.feedByte output c).2
    have fresh := ih (decoder.feedByte {} c).1 (decoder.feedByte {} c).2
    rw [Decoder.feed_cons, Decoder.feed_cons, decoded]
    refine ⟨later.1.trans fresh.1.symm, ?_⟩
    rw [later.2, fresh.2, pushed, append_assoc]

def foldLineEnds : Bool → Bytes → Bytes
  | _, [] => []
  | afterCr, c :: rest =>
    if c = 10 ∧ afterCr = true then foldLineEnds false rest
    else c :: foldLineEnds (c = 13) rest

def endsInCr (afterCr : Bool) (bytes : Bytes) : Bool :=
  bytes.foldl (fun _ c => c = 13) afterCr

theorem foldLineEnds_append (afterCr : Bool) (left right : Bytes) :
    foldLineEnds afterCr (left ++ right) =
      foldLineEnds afterCr left ++ foldLineEnds (endsInCr afterCr left) right := by
  induction left generalizing afterCr with
  | nil => rfl
  | cons c rest ih =>
    rw [cons_append, foldLineEnds, foldLineEnds]
    split
    · rename_i folded
      have plain : decide (c = 13) = false := by rw [folded.1]; rfl
      rw [ih, endsInCr, endsInCr, foldl_cons, plain]
    · rw [ih]
      rfl

structure AppReader where
  decoder : Decoder
  lastCr : Bool

def AppReader.read (reader : AppReader) (bytes : Bytes) : AppReader × Bytes :=
  let fed := reader.decoder.feed {} bytes
  (⟨fed.1, endsInCr reader.lastCr fed.2.data⟩, foldLineEnds reader.lastCr fed.2.data)

variable (reader : AppReader)

theorem AppReader.read_append (left right : Bytes) : reader.read (left ++ right) =
      (((reader.read left).1.read right).1,
        (reader.read left).2 ++ ((reader.read left).1.read right).2) := by
  have fed := (reader.decoder.feed {} left).1.feed_output (reader.decoder.feed {} left).2 right
  simp [AppReader.read, Decoder.feed_append, fed.1, fed.2, foldLineEnds_append, endsInCr]

def AppReader.batches (reader : AppReader) : List Bytes → List Bytes
  | [] => []
  | chunk :: rest => (reader.read chunk).2 :: (reader.read chunk).1.batches rest

theorem AppReader.read_nil : reader.read [] = (reader, []) := rfl

theorem AppReader.flatten_batches (chunks : List Bytes) :
    (reader.batches chunks).flatten = (reader.read chunks.flatten).2 := by
  induction chunks generalizing reader with
  | nil => rfl
  | cons _ _ ih =>
    rw [AppReader.batches, flatten_cons, flatten_cons, ih, AppReader.read_append]

theorem AppReader.batches_concat (chunks : List Bytes) (chunk : Bytes) :
    reader.batches (chunks ++ [chunk]) =
      reader.batches chunks ++ [((reader.read chunks.flatten).1.read chunk).2] := by
  induction chunks generalizing reader with
  | nil => rfl
  | cons _ _ ih =>
    rw [cons_append, AppReader.batches, ih, AppReader.batches, flatten_cons,
      AppReader.read_append]
    rfl

namespace ClientInput

def appReader (input : ClientInput) : AppReader := ⟨input.decoder, input.lastCr⟩

/-- The bytes that are pending and those of what the client sends next. -/
def applicationBytes (input : ClientInput) (bytes : Bytes) : Bytes :=
  input.pending ++ (input.appReader.read bytes).2

def batches (input : ClientInput) (chunks : List Bytes) : List Bytes :=
  input.pending :: input.appReader.batches chunks

section

variable (input : ClientInput)

include input

theorem flatten_batches (chunks : List Bytes) :
    (input.batches chunks).flatten = input.applicationBytes chunks.flatten := by
  rw [batches, flatten_cons, AppReader.flatten_batches, applicationBytes]

theorem batches_concat (chunks : List Bytes) (chunk : Bytes) :
    input.batches (chunks ++ [chunk]) =
      input.batches chunks ++ [((input.appReader.read chunks.flatten).1.read chunk).2] := by
  rw [batches, AppReader.batches_concat]
  rfl

theorem collapse_eq (data : Bytes) :
    input.collapse data =
      { input with
        lastCr := endsInCr input.lastCr data
        pending := input.pending ++ foldLineEnds input.lastCr data } := by
  induction data generalizing input with
  | nil => simp [collapse, endsInCr, foldLineEnds]
  | cons c rest ih =>
    rw [collapse, foldLineEnds]
    split
    · rename_i folded
      have plain : decide (c = 13) = false := by rw [folded.1]; rfl
      rw [ih, endsInCr, endsInCr, foldl_cons, plain]
    · rw [ih]
      simp [endsInCr]

private theorem onEvents_frame (events : List Event) :
    (input.onEvents events).1.appReader = input.appReader ∧
      (input.onEvents events).1.pending = input.pending := by
  induction events generalizing input with
  | nil => exact ⟨rfl, rfl⟩
  | cons event rest ih =>
    have first : (input.onEvent event).1.appReader = input.appReader ∧
        (input.onEvent event).1.pending = input.pending := by
      cases event with
      | negotiation =>
        rw [onEvent]
        dsimp only
        split <;> exact ⟨rfl, rfl⟩
      | subnegotiation | command => exact ⟨rfl, rfl⟩
    obtain ⟨reader, pending⟩ := ih (input.onEvent event).1
    exact ⟨reader.trans first.1, pending.trans first.2⟩

theorem receive_eq (chunk : Bytes) :
    (input.receive chunk).1.appReader = (input.appReader.read chunk).1 ∧
      (input.receive chunk).1.pending = input.pending ++ (input.appReader.read chunk).2 := by
  let fed := input.decoder.feed {} chunk
  obtain ⟨reader, pending⟩ := onEvents_frame { input with decoder := fed.1 } fed.2.events
  simp only [appReader, AppReader.mk.injEq] at reader
  simp only [receive, collapse_eq, appReader, AppReader.read]
  exact ⟨by rw [reader.1, reader.2], by rw [pending, reader.2]⟩

end

end ClientInput

def beforeEscape (bytes : Bytes) : Bytes := bytes.takeWhile (· ≠ escapeChar)

def behindEscape (bytes : Bytes) : Bytes := (bytes.dropWhile (· ≠ escapeChar)).tail

/-- The bytes behind the first escape character that were read together with it. -/
def droppedBehindEscape : List Bytes → Bytes
  | [] => []
  | batch :: rest =>
    if escapeChar ∈ batch then behindEscape batch else droppedBehindEscape rest

section

variable {left right bytes : Bytes}

theorem beforeEscape_append (free : escapeChar ∉ left) :
    beforeEscape (left ++ right) = left ++ beforeEscape right := by
  refine takeWhile_append_of_pos fun c member => ?_
  simpa using ne_of_mem_of_not_mem member free

theorem behindEscape_append (free : escapeChar ∉ left) :
    behindEscape (left ++ right) = behindEscape right := by
  rw [behindEscape, dropWhile_append_of_pos, behindEscape]
  intro c member
  simpa using ne_of_mem_of_not_mem member free

theorem not_mem_beforeEscape : escapeChar ∉ beforeEscape bytes := by
  intro member
  have differs := mem_takeWhile_imp member
  simp at differs

theorem beforeEscape_of_not_mem (free : escapeChar ∉ bytes) : beforeEscape bytes = bytes := by
  have split := @beforeEscape_append bytes [] free
  simpa [beforeEscape] using split

theorem behindEscape_of_not_mem (free : escapeChar ∉ bytes) : behindEscape bytes = [] := by
  have split := @behindEscape_append bytes [] free
  simpa [behindEscape] using split

theorem eq_of_escape_mem (found : escapeChar ∈ bytes) :
    bytes = beforeEscape bytes ++ escapeChar :: behindEscape bytes := by
  induction bytes with
  | nil => cases found
  | cons c rest ih =>
    by_cases escape : c = escapeChar
    · subst escape
      simp [beforeEscape, behindEscape]
    · have later : escapeChar ∈ rest := by
        rcases mem_cons.mp found with same | later
        · exact absurd same.symm escape
        · exact later
      have split := ih later
      have first : escapeChar ∉ [c] := by simpa using Ne.symm escape
      rw [← singleton_append, beforeEscape_append first, behindEscape_append first,
        append_assoc, ← split]

theorem beforeEscape_prefix_append : beforeEscape left <+: beforeEscape (left ++ right) := by
  by_cases found : escapeChar ∈ left
  · rw [eq_of_escape_mem found, append_assoc, beforeEscape_append not_mem_beforeEscape,
      beforeEscape_append not_mem_beforeEscape]
    simp [beforeEscape]
  · rw [beforeEscape_append found, beforeEscape_of_not_mem found]
    exact prefix_append _ _

theorem droppedBehindEscape_concat_of_mem {batches : List Bytes} {batch : Bytes}
    (found : escapeChar ∈ batches.flatten) :
    droppedBehindEscape (batches ++ [batch]) = droppedBehindEscape batches := by
  induction batches with
  | nil => cases found
  | cons first rest ih =>
    rw [cons_append, droppedBehindEscape, droppedBehindEscape]
    split
    · rfl
    · rename_i free
      rw [flatten_cons, mem_append] at found
      exact ih (found.resolve_left free)

theorem droppedBehindEscape_concat_of_not_mem {batches : List Bytes}
    {batch : Bytes} (free : escapeChar ∉ batches.flatten) :
    droppedBehindEscape (batches ++ [batch]) = behindEscape batch := by
  induction batches with
  | nil =>
    rw [nil_append, droppedBehindEscape, droppedBehindEscape]
    split
    · rfl
    · rename_i none
      exact (behindEscape_of_not_mem none).symm
  | cons _ _ ih =>
    rw [flatten_cons, mem_append, not_or] at free
    rw [cons_append, droppedBehindEscape, if_neg free.1]
    exact ih free.2

end

end Coroserver.Telnet
