import Mathlib.Data.List.Chain
import Coroserver.Telnet.Protocol

/-! The decoder on what the three encoders write. -/

namespace Coroserver.Telnet

open Cmd List

@[simp] theorem Decoder.feed_nil (decoder : Decoder) (output : Output) :
    decoder.feed output [] = (decoder, output) := rfl

@[simp] theorem Decoder.feed_cons (decoder : Decoder) (output : Output) (c : UInt8) (rest : Bytes) :
    decoder.feed output (c :: rest) =
      (decoder.feedByte output c).1.feed (decoder.feedByte output c).2 rest := rfl

open Decoder

theorem Decoder.feed_append (decoder : Decoder) (output : Output) (left right : Bytes) :
    decoder.feed output (left ++ right) =
      (decoder.feed output left).1.feed (decoder.feed output left).2 right := by
  simp [feed]

/-- Chunk boundaries are invisible to the decoder. -/
theorem Decoder.feedAll_eq_feed_flatten (decoder : Decoder) (output : Output)
    (chunks : List Bytes) :
    decoder.feedAll output chunks = decoder.feed output chunks.flatten := by
  induction chunks generalizing decoder output with
  | nil => rfl
  | cons chunk rest ih =>
    have unfolded : decoder.feedAll output (chunk :: rest) =
        (decoder.feed output chunk).1.feedAll (decoder.feed output chunk).2 rest := rfl
    rw [unfolded, ih, flatten_cons, feed_append]

/-- What one end of a telnet connection sends. Negotiation verbs and plain
command codes are restricted to the values that decode as such. -/
inductive Item where
  | data (bytes : Bytes)
  | negotiation (verb option : UInt8) (valid : Cmd.will ≤ verb ∧ verb ≤ Cmd.dont)
  | subnegotiation (option : UInt8) (payload : Bytes)
  | command (code : UInt8) (plain : code < Cmd.sb)

def Item.encode : Item → Bytes
  | .data bytes => escapeIac bytes
  | .negotiation verb option _ => Telnet.negotiation verb option
  | .subnegotiation option payload => Telnet.subnegotiation option payload
  | .command code _ => [Cmd.iac, code]

def Item.dataBytes : Item → Bytes
  | .data bytes => bytes
  | .negotiation .. | .subnegotiation .. | .command .. => []

def Item.event? : Item → Option Event
  | .data _ => none
  | .negotiation verb option _ => some (.negotiation ⟨verb, option⟩)
  | .subnegotiation option payload =>
    some (.subnegotiation ⟨option, payload.take maxSubnegotiationSize⟩)
  | .command code _ => some (.command ⟨code⟩)

/-- The wire bytes of an item with its data bytes exposed: `some` marks a data
byte, `none` a byte of a command. -/
def Item.wireMarks : Item → List (Option UInt8)
  | .data bytes => (escapeIac bytes).map some
  | item => item.encode.map fun _ => none

def crNul (left right : Option UInt8) : Prop := left = some 13 ∧ right = some 0

/-- On the wire no NUL data byte immediately follows a CR data byte. -/
def NoNulAfterCr (items : List Item) : Prop :=
  List.IsChain (fun left right => ¬ crNul left right) (items.flatMap Item.wireMarks)

def Decoder.Idle (decoder : Decoder) : Prop := decoder.state = .data ∨ decoder.state = .cr

def DecoderState.mark : DecoderState → Option UInt8
  | .cr => some 13
  | _ => none

def Unbroken (previous : Option UInt8) (marks : List (Option UInt8)) : Prop :=
  List.IsChain (fun left right => ¬ crNul left right) (previous :: marks)

variable {marks : List (Option UInt8)} {previous : Option UInt8} {c : UInt8} {decoder : Decoder}

theorem unbroken_none_iff :
    Unbroken none marks ↔ List.IsChain (fun left right => ¬ crNul left right) marks := by
  simp [Unbroken, isChain_cons, crNul]

theorem Unbroken.tail {next : Option UInt8} (unbroken : Unbroken previous (next :: marks)) :
    Unbroken next marks :=
  (isChain_cons_cons.mp unbroken).2

theorem Unbroken.forget (unbroken : Unbroken previous marks) : Unbroken none marks :=
  unbroken_none_iff.mpr (isChain_cons.mp unbroken).2

theorem Unbroken.drop (skipped : List (Option UInt8))
    (unbroken : Unbroken previous (skipped ++ marks)) : Unbroken none marks := by
  induction skipped generalizing previous with
  | nil => exact unbroken.forget
  | cons _ _ ih => exact ih unbroken.tail

theorem Unbroken.ne_nul (unbroken : Unbroken (some 13) (some c :: marks)) : c ≠ 0 := by
  intro isNul
  exact (isChain_cons_cons.mp unbroken).1 ⟨rfl, congrArg some isNul⟩

theorem Decoder.idle_after_plain (decoder : Decoder) (c : UInt8) :
    ({ decoder with state := if c = 13 then .cr else .data } : Decoder).Idle := by
  by_cases carriage : c = 13 <;> simp [Idle, carriage]

theorem Decoder.feed_payload (decoder : Decoder) (output : Output) (payload : Bytes)
    (collecting : decoder.state = .sbData)
    (bounded : decoder.sbPayload.length ≤ maxSubnegotiationSize) :
    decoder.feed output (escapeIac payload) =
      ({ decoder with
          sbPayload := (decoder.sbPayload ++ payload).take maxSubnegotiationSize }, output) := by
  induction payload generalizing decoder with
  | nil => simp [escapeIac, take_of_length_le bounded]
  | cons c rest ih =>
    have pushed : decoder.feed output (escapeIac (c :: rest)) =
        (decoder.sbPush c).feed output (escapeIac rest) := by
      by_cases escaped : c = iac
      · subst escaped
        simp only [escapeIac, ↓reduceIte, feed_cons, feedByte, collecting,
          sbPush, show ¬ iac = se by decide]
        split <;> simp only [← collecting]
      · simp [escapeIac, if_neg escaped, feedByte, collecting]
    rw [pushed]
    by_cases room : decoder.sbPayload.length < maxSubnegotiationSize
    · have grown : decoder.sbPush c = { decoder with sbPayload := decoder.sbPayload ++ [c] } := by
        simp [sbPush, room]
      have stillBounded : (decoder.sbPayload ++ [c]).length ≤ maxSubnegotiationSize := by
        simpa using Nat.succ_le_of_lt room
      rw [grown, ih { decoder with sbPayload := decoder.sbPayload ++ [c] } collecting stillBounded]
      simp
    · have full : decoder.sbPush c = decoder := by simp [sbPush, room]
      rw [full, ih _ collecting bounded]
      have exact : decoder.sbPayload.length = maxSubnegotiationSize := by omega
      simp [← exact]

open Item

section

variable (idle : decoder.Idle)

include idle

theorem Decoder.Idle.feedByte_data (output : Output) (notPair : decoder.state = .cr → c ≠ 0) :
    decoder.feedByte output c = decoder.dataByte c output := by
  rcases idle with inData | inCr
  · simp [feedByte, inData]
  · simp [feedByte, inCr, if_neg (notPair inCr)]

theorem Decoder.Idle.feedByte_iac (output : Output) :
    decoder.feedByte output iac = ({ decoder with state := .iac }, output) := by
  rw [idle.feedByte_data output (fun _ => by decide)]
  simp [dataByte]

theorem Decoder.Idle.feed_iac_iac (output : Output) (rest : Bytes) :
    decoder.feed output (iac :: iac :: rest) =
      ({ decoder with state := .data } : Decoder).feed (output.pushData iac) rest := by
  have pushed : ({ decoder with state := .iac } : Decoder).feedByte output iac =
      ({ decoder with state := .data }, output.pushData iac) := by
    simp [feedByte, onIac]
  rw [feed_cons, idle.feedByte_iac, feed_cons, pushed]

theorem Decoder.Idle.feedByte_plain (output : Output) (plain : ¬c = iac)
    (notPair : decoder.state = .cr → c ≠ 0) :
    decoder.feedByte output c =
      ({ decoder with state := if c = 13 then .cr else .data }, output.pushData c) := by
  rw [idle.feedByte_data output notPair, dataByte, if_neg plain]

theorem Decoder.feed_data (output : Output) (bytes : Bytes) (marks : List (Option UInt8))
    (unbroken : Unbroken decoder.state.mark ((escapeIac bytes).map some ++ marks)) :
    ∃ next : Decoder, decoder.feed output (escapeIac bytes) =
        (next, { output with data := output.data ++ bytes }) ∧
      next.Idle ∧ Unbroken next.state.mark marks := by
  induction bytes generalizing decoder output with
  | nil => exact ⟨decoder, by simp [escapeIac], idle, by simpa [escapeIac] using unbroken⟩
  | cons c rest ih =>
    by_cases escaped : c = iac
    · subst escaped
      simp only [escapeIac, ↓reduceIte, map_cons, cons_append] at unbroken
      have nextIdle : ({ decoder with state := .data } : Decoder).Idle := .inl rfl
      obtain ⟨next, fed, nextIdle, remaining⟩ :=
        ih nextIdle (output.pushData iac) unbroken.tail.tail.forget
      refine ⟨next, ?_, nextIdle, remaining⟩
      rw [escapeIac, if_pos rfl, idle.feed_iac_iac, fed]
      simp [Output.pushData]
    · simp only [escapeIac, if_neg escaped, map_cons, cons_append] at unbroken
      have notPair : decoder.state = .cr → c ≠ 0 := by
        intro inCr
        rw [inCr] at unbroken
        exact unbroken.ne_nul
      have nextUnbroken : Unbroken (if c = 13 then DecoderState.cr else DecoderState.data).mark
          ((escapeIac rest).map some ++ marks) := by
        by_cases carriage : c = 13
        · subst carriage
          exact unbroken.tail
        · rw [if_neg carriage]
          exact unbroken.tail.forget
      obtain ⟨next, fed, nextIdle, remaining⟩ :=
        ih (decoder.idle_after_plain c) (output.pushData c) nextUnbroken
      refine ⟨next, ?_, nextIdle, remaining⟩
      rw [escapeIac, if_neg escaped, feed_cons, idle.feedByte_plain output escaped notPair, fed]
      simp [Output.pushData]

theorem Decoder.feed_negotiation (output : Output) {verb : UInt8}
    (option : UInt8) (valid : will ≤ verb ∧ verb ≤ dont) :
    decoder.feed output (Telnet.negotiation verb option) =
      ({ decoder with verb := verb, state := .data },
        output.pushEvent (.negotiation ⟨verb, option⟩)) := by
  have notIac : verb ≠ iac := by
    intro same
    rw [same] at valid
    exact absurd valid.2 (by decide)
  simp only [Telnet.negotiation, feed_cons, feed_nil, idle.feedByte_iac]
  simp [feedByte, onIac, if_neg notIac, if_pos valid]

theorem Decoder.feed_command (output : Output) {code : UInt8} (plain : code < sb) :
    decoder.feed output [iac, code] =
      ({ decoder with state := .data }, output.pushEvent (.command ⟨code⟩)) := by
  have notIac : code ≠ iac := by
    intro same
    rw [same] at plain
    exact absurd plain (by decide)
  have notSb : code ≠ sb := by
    intro same
    rw [same] at plain
    exact absurd plain (by decide)
  have notVerb : ¬ (will ≤ code ∧ code ≤ dont) := by
    intro isVerb
    exact absurd (UInt8.lt_of_le_of_lt isVerb.1 plain) (by decide)
  simp only [feed_cons, feed_nil, idle.feedByte_iac]
  simp [feedByte, onIac, if_neg notIac, if_neg notVerb, if_neg notSb]

theorem Decoder.feed_subnegotiation (output : Output) (option : UInt8) (payload : Bytes) :
    decoder.feed output (Telnet.subnegotiation option payload) =
      ({ decoder with sbOption := option, sbPayload := [], state := .data },
        output.pushEvent (.subnegotiation ⟨option, payload.take maxSubnegotiationSize⟩)) := by
  have opened : decoder.feed output [iac, sb, option] =
      ({ decoder with sbOption := option, sbPayload := [], state := .sbData }, output) := by
    have notIac : sb ≠ iac := by decide
    have notVerb : ¬ (will ≤ sb ∧ sb ≤ dont) := by decide
    simp only [feed_cons, feed_nil, idle.feedByte_iac]
    simp [feedByte, onIac, if_neg notIac, if_neg notVerb]
  rw [Telnet.subnegotiation, feed_append, feed_append, opened, feed_payload _ _ _ rfl (by simp)]
  simp [feedByte]

theorem Decoder.feed_item (output : Output) (item : Item) (marks : List (Option UInt8))
    (unbroken : Unbroken decoder.state.mark (item.wireMarks ++ marks)) :
    ∃ next : Decoder, decoder.feed output item.encode =
        (next, ⟨output.data ++ item.dataBytes, output.events ++ item.event?.toList⟩) ∧
      next.Idle ∧ Unbroken next.state.mark marks := by
  cases item with
  | data bytes =>
    obtain ⟨next, fed, nextIdle, remaining⟩ := feed_data idle output bytes marks unbroken
    exact ⟨next, by simp [encode, dataBytes, event?, fed], nextIdle, remaining⟩
  | negotiation verb option valid =>
    refine ⟨{ decoder with verb := verb, state := .data }, ?_, .inl rfl, unbroken.drop _⟩
    rw [encode, feed_negotiation idle output option valid]
    simp [dataBytes, event?, Output.pushEvent]
  | subnegotiation option =>
    refine ⟨{ decoder with sbOption := option, sbPayload := [], state := .data }, ?_, .inl rfl,
      unbroken.drop _⟩
    rw [encode, feed_subnegotiation idle]
    simp [dataBytes, event?, Output.pushEvent]
  | command code plain =>
    refine ⟨{ decoder with state := .data }, ?_, .inl rfl, unbroken.drop _⟩
    rw [encode, feed_command idle output plain]
    simp [dataBytes, event?, Output.pushEvent]

theorem Decoder.feed_items (output : Output) (items : List Item)
    (unbroken : Unbroken decoder.state.mark (items.flatMap wireMarks)) :
    ∃ next : Decoder, decoder.feed output (items.flatMap encode) =
      (next, ⟨output.data ++ items.flatMap dataBytes,
        output.events ++ items.filterMap event?⟩) := by
  induction items generalizing decoder output with
  | nil => exact ⟨decoder, by simp⟩
  | cons item rest ih =>
    rw [flatMap_cons] at unbroken
    obtain ⟨_, first, middleIdle, remaining⟩ := feed_item idle output item _ unbroken
    obtain ⟨next, others⟩ := ih middleIdle _ remaining
    refine ⟨next, ?_⟩
    rw [flatMap_cons, feed_append, first, others]
    cases event : item.event? <;> simp [event]

end

/-- The decoder inverts the encoders for every sequence of items and every way of cutting the
encoded bytes into chunks. -/
theorem decoder_inverts_encoders (items : List Item) (chunks : List Bytes)
    (separated : NoNulAfterCr items) (cut : chunks.flatten = items.flatMap Item.encode) :
    (Decoder.feedAll {} {} chunks).2.data = items.flatMap Item.dataBytes ∧
      (Decoder.feedAll {} {} chunks).2.events = items.filterMap Item.event? := by
  have fresh : ({} : Decoder).Idle := .inl rfl
  obtain ⟨next, decoded⟩ := feed_items fresh {} items (unbroken_none_iff.mpr separated)
  rw [feedAll_eq_feed_flatten, cut, decoded]
  simp

theorem decoder_inverts_encoders_split_frame :
    NoNulAfterCr [.data [97, 255, 13], .negotiation Cmd.will 0 (by decide),
        .data [0], .subnegotiation 255 [255, 240], .command 241 (by decide)] ∧
      (Decoder.feedAll {} {} [[97, 255], [255, 13, 255], [251], [0, 0, 255, 250, 255, 255],
        [255, 240, 255], [240, 255, 241]]).2 =
      ⟨[97, 255, 13, 0], [.negotiation ⟨251, 0⟩, .subnegotiation ⟨255, [255, 240]⟩,
        .command ⟨241⟩]⟩ := by
  have separated : NoNulAfterCr [.data [97, 255, 13], .negotiation will 0 (by decide),
      .data [0], .subnegotiation 255 [255, 240], .command 241 (by decide)] := by
    simp [NoNulAfterCr, wireMarks, escapeIac, encode, negotiation, subnegotiation, iac, crNul]
  have decoded := decoder_inverts_encoders _ [[97, 255], [255, 13, 255], [251],
    [0, 0, 255, 250, 255, 255], [255, 240, 255], [240, 255, 241]] separated (by rfl)
  refine ⟨separated, ?_⟩
  rw [show (feedAll {} {} _).2 = ⟨_, _⟩ from congrArg₂ Output.mk decoded.1 decoded.2]
  rfl

end Coroserver.Telnet
