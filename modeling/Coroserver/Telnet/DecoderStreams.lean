import Coroserver.Telnet.ProtocolProperties

/-! An IAC inside a subnegotiation that is followed by neither SE nor IAC ends the subnegotiation
and is reported with whatever follows it, also where that is the start of another command. -/

namespace Coroserver.Telnet

open Cmd

def dropNuls : Bool → Bytes → Bytes
  | _, [] => []
  | afterCr, c :: rest =>
    if afterCr && c == 0 then dropNuls false rest else c :: dropNuls (c == 13) rest

private theorem length_dropNuls_le (afterCr : Bool) (bytes : Bytes) :
    (dropNuls afterCr bytes).length ≤ bytes.length := by
  induction bytes generalizing afterCr with
  | nil => exact Nat.le_refl 0
  | cons c rest ih =>
    rw [dropNuls]
    split
    · exact Nat.le_succ_of_le (ih false)
    · exact Nat.succ_le_succ (ih (c == 13))

theorem dropNuls_eq_self_iff (afterCr : Bool) (bytes : Bytes) :
    dropNuls afterCr bytes = bytes ↔
      ¬(afterCr = true ∧ bytes.head? = some 0) ∧ ¬[13, 0] <:+: bytes := by
  induction bytes generalizing afterCr with
  | nil => simp [dropNuls]
  | cons c rest ih =>
    rw [dropNuls]
    split
    · rename_i dropped
      simp only [Bool.and_eq_true, beq_iff_eq] at dropped
      have shorter : dropNuls false rest ≠ c :: rest := by
        intro same
        have bound := length_dropNuls_le false rest
        rw [same, List.length_cons] at bound
        omega
      simp [dropped.1, dropped.2, dropped.2 ▸ shorter]
    · rename_i kept
      simp only [Bool.and_eq_true, beq_iff_eq, not_and] at kept
      have start : [13, 0] <+: c :: rest ↔ c = 13 ∧ rest.head? = some 0 := by
        rw [List.cons_prefix_cons, List.singleton_prefix_iff_head?_eq_some]
        exact and_congr_left' eq_comm
      rw [List.cons_inj_right, ih, List.infix_cons_iff, start, beq_iff_eq, not_or,
        List.head?_cons, Option.some.injEq]
      exact ⟨fun plain => ⟨fun both => kept both.1 both.2, plain⟩, fun plain => plain.2⟩

open Decoder

theorem Decoder.feed_escapeIac {decoder : Decoder} (idle : decoder.Idle) (output : Output)
    (bytes : Bytes) :
    (decoder.feed output (escapeIac bytes)).2 =
      { output with data := output.data ++ dropNuls (decide (decoder.state = .cr)) bytes } := by
  induction bytes generalizing decoder output with
  | nil => simp [escapeIac, dropNuls]
  | cons c rest ih =>
    by_cases escaped : c = iac
    · subst escaped
      have nextIdle : ({ decoder with state := .data } : Decoder).Idle := .inl rfl
      have kept : dropNuls (decide (decoder.state = .cr)) (iac :: rest) =
          iac :: dropNuls false rest := by
        simp [dropNuls, show ¬iac = 0 by decide, show (iac == 13) = false by decide]
      rw [escapeIac, if_pos rfl, idle.feed_iac_iac, ih nextIdle, kept]
      simp [Output.pushData]
    · rw [escapeIac, if_neg escaped, feed_cons]
      by_cases pair : decoder.state = .cr ∧ c = 0
      · obtain ⟨inCr, rfl⟩ := pair
        have skipped : decoder.feedByte output 0 = ({ decoder with state := .data }, output) := by
          simp [feedByte, inCr]
        have nextIdle : ({ decoder with state := .data } : Decoder).Idle := .inl rfl
        rw [skipped, ih nextIdle]
        simp [dropNuls, inCr]
      · have notPair : decoder.state = .cr → c ≠ 0 := fun inCr isNul => pair ⟨inCr, isNul⟩
        have afterCr : decide ((if c = 13 then DecoderState.cr else .data) = .cr) = (c == 13) := by
          by_cases carriage : c = 13 <;> simp [carriage]
        have kept : dropNuls (decide (decoder.state = .cr)) (c :: rest) =
            c :: dropNuls (c == 13) rest := by
          rw [dropNuls, if_neg (by simpa using pair)]
        rw [idle.feedByte_plain output escaped notPair, ih (decoder.idle_after_plain c), afterCr,
          kept]
        simp [Output.pushData]

/-- The encoder doubles IAC bytes only, while the decoder also drops a NUL that follows a CR. -/
theorem escaped_bytes_survive_iff (bytes : Bytes) (chunks : List Bytes)
    (cut : chunks.flatten = escapeIac bytes) :
    (Decoder.feedAll {} {} chunks).2.data = bytes ∧ (Decoder.feedAll {} {} chunks).2.events = [] ↔
      ¬[13, 0] <:+: bytes := by
  have fresh : ({} : Decoder).Idle := .inl rfl
  have plain := dropNuls_eq_self_iff false bytes
  simp only [Bool.false_eq_true, false_and, not_false_eq_true, true_and] at plain
  rw [feedAll_eq_feed_flatten, cut, feed_escapeIac fresh, ← plain]
  simp

theorem escaped_bytes_survive_split_escape :
    (Decoder.feedAll {} {} [[0, 13, 255], [255, 0], [13, 10]]).2 =
      ⟨[0, 13, 255, 0, 13, 10], []⟩ := by
  have survived := (escaped_bytes_survive_iff [0, 13, 255, 0, 13, 10]
    [[0, 13, 255], [255, 0], [13, 10]] rfl).mpr (by decide)
  exact congrArg₂ Output.mk survived.1 survived.2

theorem escaped_cr_nul_loses_nul :
    escapeIac [13, 0] = [13, 0] ∧ (Decoder.feedAll {} {} [[13, 0]]).2 = ⟨[13], []⟩ := by
  decide

/-- The decoder has read the IAC of a command, or one inside a subnegotiation. -/
def Decoder.AfterIac (decoder : Decoder) : Prop :=
  decoder.state = .iac ∨ decoder.state = .sbIac

def Decoder.reports (decoder : Decoder) (code : UInt8) : Prop :=
  (decoder.state = .iac ∧ code < Cmd.sb) ∨
    (decoder.state = .sbIac ∧ code ≠ Cmd.se ∧ code ≠ Cmd.iac)

theorem plain_code_iff (code : UInt8) :
    code < sb ↔ code ≠ iac ∧ ¬(will ≤ code ∧ code ≤ dont) ∧ code ≠ sb := by
  simp only [sb, iac, will, dont, ne_eq, UInt8.lt_iff_toNat_lt,
    UInt8.le_iff_toNat_le, ← UInt8.toNat_inj, UInt8.reduceToNat]
  have bound := code.toNat_lt
  omega

theorem Decoder.command_mem_feedByte_iff (decoder : Decoder) (output : Output) (c code : UInt8) :
    .command ⟨code⟩ ∈ (decoder.feedByte output c).2.events ↔
      .command ⟨code⟩ ∈ output.events ∨ code = c ∧ decoder.reports c := by
  have plain := plain_code_iff c
  cases state : decoder.state with
  | data | cr =>
    simp only [feedByte, state, reports, dataByte]
    split_ifs <;> simp [Output.pushData]
  | iac =>
    simp only [feedByte, state, reports, onIac, plain]
    split_ifs <;> simp_all [Output.pushData, Output.pushEvent]
  | verb => simp [feedByte, state, reports, Output.pushEvent]
  | sbOption => simp [feedByte, state, reports]
  | sbData =>
    simp only [feedByte, state, reports]
    split_ifs <;> simp
  | sbIac =>
    simp only [feedByte, state, reports]
    split_ifs <;> simp_all [Output.pushEvent]

theorem Decoder.command_mem_feed_iff (decoder : Decoder) (output : Output) (input : Bytes)
    (code : UInt8) :
    .command ⟨code⟩ ∈ (decoder.feed output input).2.events ↔ .command ⟨code⟩ ∈ output.events ∨
      ∃ before after, input = before ++ code :: after ∧
        (decoder.feed output before).1.reports code := by
  induction input generalizing decoder output with
  | nil => simp
  | cons c rest ih =>
    rw [feed_cons, ih, command_mem_feedByte_iff, or_assoc]
    refine or_congr_right ⟨?_, ?_⟩
    · rintro (⟨rfl, reported⟩ | ⟨before, after, rfl, reported⟩)
      · exact ⟨[], rest, rfl, reported⟩
      · exact ⟨c :: before, after, rfl, reported⟩
    · rintro ⟨before, after, whole, reported⟩
      cases before with
      | nil =>
        obtain ⟨rfl, rfl⟩ := List.cons.inj whole
        exact .inl ⟨rfl, reported⟩
      | cons first others =>
        obtain ⟨rfl, rfl⟩ := List.cons.inj whole
        exact .inr ⟨others, after, rfl, reported⟩

theorem Decoder.data_feed_negotiation {decoder : Decoder} (afterIac : decoder.state = .iac)
    (output : Output) {verb : UInt8} (valid : will ≤ verb ∧ verb ≤ dont) (option : UInt8) :
    (decoder.feed output [verb, option]).2.data = output.data := by
  have notIac : verb ≠ iac := by
    rintro rfl
    exact absurd valid.2 (by decide)
  simp [feedByte, afterIac, onIac, if_neg notIac, if_pos valid, Output.pushEvent]

/-- No negotiation or subnegotiation is reported as a plain command, and no
option of a negotiation is taken for data, if and only if no IAC inside a
subnegotiation is followed by SB, WILL, WONT, DO or DONT. -/
theorem commands_plain_iff (chunks : List Bytes) :
    (∀ code, .command ⟨code⟩ ∈ (Decoder.feedAll {} {} chunks).2.events → code < Cmd.sb) ∧
      (∀ before verb option after, chunks.flatten = before ++ verb :: option :: after →
        (Decoder.feed {} {} before).1.AfterIac → Cmd.will ≤ verb ∧ verb ≤ Cmd.dont →
          (Decoder.feed {} {} (before ++ [verb, option])).2.data =
            (Decoder.feed {} {} before).2.data) ↔
      ∀ before code after, chunks.flatten = before ++ code :: after →
        (Decoder.feed {} {} before).1.state = .sbIac → ¬(Cmd.sb ≤ code ∧ code ≤ Cmd.dont) := by
  rw [feedAll_eq_feed_flatten]
  constructor
  · rintro ⟨plain, -⟩ before code after whole inside ⟨atLeast, atMost⟩
    have notSe : code ≠ se := by
      rintro rfl
      exact absurd atLeast (by decide)
    have notIac : code ≠ iac := by
      rintro rfl
      exact absurd atMost (by decide)
    have reported : .command ⟨code⟩ ∈ (feed {} {} chunks.flatten).2.events :=
      (command_mem_feed_iff {} {} _ code).mpr
        (.inr ⟨before, after, whole, .inr ⟨inside, notSe, notIac⟩⟩)
    exact UInt8.not_lt.mpr atLeast (plain code reported)
  · intro uninterrupted
    constructor
    · intro code reported
      rcases (command_mem_feed_iff {} {} _ code).mp reported with
        early | ⟨before, after, whole, ⟨-, plain⟩ | ⟨inside, -, notIac⟩⟩
      · cases early
      · exact plain
      · have outside := uninterrupted before code after whole inside
        refine (plain_code_iff code).mpr ⟨notIac, ?_, ?_⟩
        · intro isVerb
          exact outside ⟨UInt8.le_trans (by decide) isVerb.1, isVerb.2⟩
        · rintro rfl
          exact outside (by decide)
    · intro before verb option after whole afterIac valid
      rcases afterIac with command | inside
      · rw [feed_append]
        exact data_feed_negotiation command _ valid option
      · exact absurd ⟨UInt8.le_trans (by decide) valid.1, valid.2⟩
          (uninterrupted before verb (option :: after) whole inside)

theorem interrupted_subnegotiation_leaks :
    (Decoder.feedAll {} {} [[255, 250, 24, 0], [255, 253, 1]]).2 =
      ⟨[1], [.command ⟨253⟩]⟩ := by
  decide

end Coroserver.Telnet
