import Coroserver.Console.Screen5250Properties
import Coroserver.Fallible

/-! The orders of a record, one by one. -/

namespace Coroserver.Console

open Screen5250

/-- A result with a property, or a loop that does not end: nothing was written
or read out of range. -/
def Within {Result : Type} (good : Result → Prop) : Except Fault Result → Prop
  | .ok result => good result
  | .error fault => fault = .neverReturns

theorem Within.bind {First Second : Type} {good : First → Prop} {fine : Second → Prop}
    {first : Except Fault First} {next : First → Except Fault Second} (within : Within good first)
    (onward : ∀ result, good result → Within fine (next result)) :
    Within fine (first >>= next) := by
  cases first with
  | error => exact within
  | ok result => exact onward result within

theorem Within.ne_outOfRange {Result : Type} {good : Result → Prop}
    {result : Except Fault Result} (within : Within good result) :
    result ≠ .error .outOfRange := by
  rintro rfl
  cases within

namespace Screen5250

variable {screen : Screen5250} {target : Nat}

section

variable (inRange : screen.InRange)

include inRange

theorem repeatLoop_succ (elsewhere : screen.position ≠ target) (c : UInt8) (turns : Nat) :
    ∃ next, next.InRange ∧ next.position = (screen.position + 1) % (rows * cols) ∧
      repeatLoop target { ch := c } (turns + 1) screen =
        repeatLoop target { ch := c } turns next := by
  obtain ⟨next, put, nextInRange, -, moved⟩ := putChar_spec screen c inRange
  refine ⟨next, nextInRange, moved, ?_⟩
  have turn : repeatLoop target { ch := c } (turns + 1) screen =
      if screen.position = target then .ok screen
      else screen.putChar c >>= repeatLoop target { ch := c } turns := by
    rw [repeatLoop, putChar, bind_assoc]
    rfl
  rw [turn, if_neg elsewhere, put]
  rfl

theorem repeatLoop_offScreen (off : rows * cols ≤ target) (c : UInt8) (turns : Nat) :
    repeatLoop target { ch := c } turns screen = .error .neverReturns := by
  induction turns generalizing screen with
  | zero => rfl
  | succ turns ih =>
    have elsewhere : screen.position ≠ target := by
      have inside := inRange.position_lt
      omega
    obtain ⟨next, nextInRange, -, went⟩ := repeatLoop_succ inRange elsewhere c turns
    rw [went]
    exact ih nextInRange

theorem repeatLoop_onScreen {distance turns : Nat}
    (ahead : target = (screen.position + distance) % (rows * cols)) (enough : distance < turns)
    (c : UInt8) :
    ∃ final, repeatLoop target { ch := c } turns screen = .ok final ∧ final.InRange := by
  induction distance generalizing screen turns with
  | zero =>
    obtain ⟨turns, rfl⟩ := Nat.exists_eq_add_one_of_ne_zero (Nat.ne_of_gt enough)
    rw [Nat.add_zero, Nat.mod_eq_of_lt inRange.position_lt] at ahead
    exact ⟨screen, if_pos ahead.symm, inRange⟩
  | succ _ ih =>
    obtain ⟨turns, rfl⟩ :=
      Nat.exists_eq_add_one_of_ne_zero (Nat.ne_of_gt (Nat.zero_lt_of_lt enough))
    by_cases reached : screen.position = target
    · exact ⟨screen, if_pos reached, inRange⟩
    · obtain ⟨next, nextInRange, moved, went⟩ := repeatLoop_succ inRange reached c turns
      rw [went]
      refine ih nextInRange ?_ (Nat.lt_of_succ_lt_succ enough)
      rw [moved, Nat.mod_add_mod, ahead, Nat.add_right_comm, Nat.add_assoc]

theorem repeatLoop_inRange (target : Nat) (c : UInt8) (turns : Nat) :
    Within InRange (repeatLoop target { ch := c } turns screen) := by
  induction turns generalizing screen with
  | zero => rfl
  | succ turns ih =>
    by_cases reached : screen.position = target
    · rw [show repeatLoop target _ (turns + 1) screen = .ok screen from if_pos reached]
      exact inRange
    · obtain ⟨next, nextInRange, -, went⟩ := repeatLoop_succ inRange reached c turns
      rw [went]
      exact ih nextInRange

end

/-- A result that is a screen with its cursor inside under the condition, and
otherwise a loop that does not end. -/
def ReturnsIff (condition : Prop) : Except Fault Screen5250 → Prop
  | .ok final => condition ∧ final.InRange
  | .error fault => ¬condition ∧ fault = .neverReturns

theorem ReturnsIff.eq_error {condition : Prop} {result : Except Fault Screen5250}
    (spec : ReturnsIff condition result) (fails : ¬condition) :
    result = .error .neverReturns := by
  cases result with
  | ok => exact absurd spec.1 fails
  | error => rw [spec.2]

theorem inRange_clear : ({} : Screen5250).InRange := ⟨by decide, by decide⟩

theorem repeatToAddress_spec (inRange : screen.InRange) (toRow toCol : Nat) (c : UInt8) :
    ReturnsIff (toRow * cols + toCol < rows * cols) (screen.repeatToAddress toRow toCol c) := by
  have inside := inRange.position_lt
  by_cases onScreen : toRow * cols + toCol < rows * cols
  · -- the cells from the cursor to the target, around the end of the screen
    have ahead : toRow * cols + toCol = (screen.position +
        (toRow * cols + toCol + rows * cols - screen.position) % (rows * cols)) %
          (rows * cols) := by
      rw [Nat.add_mod_mod, Nat.add_sub_cancel' (by omega), Nat.add_mod_right,
        Nat.mod_eq_of_lt onScreen]
    obtain ⟨final, filled, finalInRange⟩ :=
      repeatLoop_onScreen inRange ahead (Nat.mod_lt _ (by decide)) c
    rw [repeatToAddress, filled]
    exact ⟨onScreen, finalInRange⟩
  · rw [repeatToAddress, repeatLoop_offScreen inRange (Nat.le_of_not_lt onScreen)]
    exact ⟨onScreen, rfl⟩

end Screen5250

namespace Stream5250Parser

def targets : Bytes → List (Nat × Nat)
  | [] => []
  | b :: rest =>
    match orderOf b, rest with
    | .repeatToAddress, b0 :: b1 :: _ :: rest => decodeSba b0 b1 :: targets rest
    | .eraseToAddress, b0 :: b1 :: rest => decodeSba b0 b1 :: targets rest
    | .setBufferAddress, _ :: _ :: rest => targets rest
    | .startOfField, _ :: rest | .modifyField, _ :: rest => targets rest
    | .insertCursor, rest | .padding, rest | .character, rest => targets rest
    | .repeatToAddress, _ | .eraseToAddress, _ | .setBufferAddress, _ => []
    | .startOfField, [] | .modifyField, [] => []

def OnScreen (address : Nat × Nat) : Prop := address.1 * cols + address.2 < rows * cols
deriving Decidable

variable {screen : Screen5250}

theorem orders_spec (stream : Bytes) (inRange : screen.InRange) :
    ReturnsIff (∀ address ∈ targets stream, OnScreen address) (orders stream screen) := by
  fun_induction orders stream screen
  case case1 | case3 | case5 | case9 | case12 | case13 =>
    refine ⟨?_, inRange⟩
    simp [targets, *]
  case case2 ih => simpa [targets, *] using ih (inRange_setCursor _ _ _)
  case case4 ih | case6 ih | case14 ih | case15 ih => simpa [targets, *] using ih inRange
  case case7 failed | case10 failed =>
    obtain ⟨off, rfl⟩ : ReturnsIff (OnScreen _) (.error _) :=
      failed ▸ repeatToAddress_spec inRange _ _ _
    exact ⟨fun onScreen => off (onScreen _ (by simp [targets, *])), rfl⟩
  case case8 filled ih | case11 filled ih =>
    obtain ⟨onScreen, filledInRange⟩ : ReturnsIff (OnScreen _) (.ok _) :=
      filled ▸ repeatToAddress_spec inRange _ _ _
    simpa [targets, onScreen, *] using ih filledInRange
  case case16 failed =>
    obtain ⟨_, put, -⟩ := putChar_spec _ _ inRange
    cases put.symm.trans failed
  case case17 written ih =>
    obtain ⟨_, put, nextInRange, -⟩ := putChar_spec _ _ inRange
    cases put.symm.trans written
    simpa [targets, *] using ih nextInRange

def orderStream : Bytes → Bytes
  | [] => []
  | cmd :: rest =>
    if cmd = 0x40 then [] else if cmd = 0x11 then rest else if cmd = 0xF3 then [] else cmd :: rest

theorem process_spec (data : Bytes) (inRange : screen.InRange) :
    ReturnsIff (∀ address ∈ targets (orderStream data), OnScreen address)
      (process data screen) := by
  fun_cases process data screen
  case case1 => exact ⟨by simp [orderStream, targets], inRange⟩
  case case2 => exact ⟨by simp [orderStream, targets, *], inRange_clear⟩
  case case3 =>
    rw [loop_eq_orders _ _ (Nat.le_add_left _ _)]
    simpa [orderStream, *] using orders_spec _ inRange
  case case4 => exact ⟨by simp [orderStream, targets, *], inRange⟩
  case case5 =>
    rw [loop_eq_orders _ _ (Nat.le_add_left _ _)]
    simpa [orderStream, *] using orders_spec _ inRange

/-- The loop of a repeat or erase order goes around the screen, so that it ends exactly if its
target is a cell. -/
theorem process_returns_iff (data : Bytes) {screen : Screen5250} (inRange : screen.InRange) :
    (∃ final, process data screen = .ok final) ↔
      ∀ address ∈ targets (orderStream data), OnScreen address := by
  have spec := process_spec data inRange
  constructor
  · rintro ⟨final, returned⟩
    rw [returned] at spec
    exact spec.1
  · intro onScreen
    cases result : process data screen with
    | ok final => exact ⟨final, rfl⟩
    | error =>
      rw [result] at spec
      exact absurd onScreen spec.1

theorem process_returns_last_cell :
    ∃ final, process [0x11, 0x3C, 0x17, 0x3F, 0x40] {} = .ok final :=
  (process_returns_iff _ inRange_clear).mpr (by decide +kernel)

theorem process_row_24_never_returns :
    process [0x11, 0x3C, 0x18, 0x00, 0x40] {} = .error .neverReturns ∧
      ∀ turns, repeatLoop (24 * cols + 0) { ch := ebcdicToAscii 0x40 } turns {} =
        .error .neverReturns := by
  constructor
  · exact (process_spec _ inRange_clear).eq_error (by decide +kernel)
  · exact repeatLoop_offScreen inRange_clear (by decide) _

variable {data : Bytes} {i : Nat}

theorem readAt_within (inside : i < data.length) : Within (fun _ => True) (readAt data i) := by
  rw [readAt, List.getElem?_eq_getElem inside]
  trivial

theorem step_spec (inside : i < data.length) (inRange : screen.InRange) :
    Within (fun result => result.2.InRange ∧ ∀ j ∈ result.1, i < j ∧ j ≤ data.length)
      (step data i screen) := by
  have onward {next : Screen5250} {j : Nat} (nextInRange : next.InRange) (ahead : i < j)
      (upTo : j ≤ data.length) :
      Within (fun result => result.2.InRange ∧ ∀ j ∈ result.1, i < j ∧ j ≤ data.length)
        (.ok (some j, next)) :=
    ⟨nextInRange, by simp [ahead, upTo]⟩
  refine (readAt_within inside).bind fun b _ => ?_
  cases orderOf b with
  | setBufferAddress =>
    dsimp only
    split
    · exact ⟨inRange, by simp⟩
    · refine (readAt_within (by omega)).bind fun b0 _ => ?_
      refine (readAt_within (by omega)).bind fun b1 _ => ?_
      exact onward (inRange_setCursor _ _ _) (by omega) (by omega)
  | insertCursor | padding => exact onward inRange (by omega) (by omega)
  | startOfField | modifyField => exact onward inRange (by split <;> omega) (by split <;> omega)
  | repeatToAddress =>
    dsimp only
    split
    · exact ⟨inRange, by simp⟩
    · refine (readAt_within (by omega)).bind fun b0 _ => ?_
      refine (readAt_within (by omega)).bind fun b1 _ => ?_
      refine (readAt_within (by omega)).bind fun c _ => ?_
      refine (repeatLoop_inRange inRange _ _ _).bind fun filled filledInRange => ?_
      exact onward filledInRange (by omega) (by omega)
  | eraseToAddress =>
    dsimp only
    split
    · exact ⟨inRange, by simp⟩
    · refine (readAt_within (by omega)).bind fun b0 _ => ?_
      refine (readAt_within (by omega)).bind fun b1 _ => ?_
      refine (repeatLoop_inRange inRange _ _ _).bind fun filled filledInRange => ?_
      exact onward filledInRange (by omega) (by omega)
  | character =>
    obtain ⟨next, put, nextInRange, -⟩ := putChar_spec screen (ebcdicToAscii b) inRange
    dsimp only
    rw [put]
    exact onward nextInRange (by omega) (by omega)

inductive Between (data : Bytes) (screen : Screen5250) : Nat → Screen5250 → Prop where
  | start {cmd} (first : data.head? = some cmd) (known : cmd ≠ 0x40 ∧ cmd ≠ 0xF3) :
      Between data screen (if cmd = 0x11 then 1 else 0) screen
  | order {i j middle next} (before : Between data screen i middle) (inside : i < data.length)
      (stepped : step data i middle = .ok (some j, next)) :
      Between data screen j next

theorem Between.inRange {screen middle : Screen5250} (between : Between data screen i middle)
    (inRange : screen.InRange) : middle.InRange ∧ i ≤ data.length := by
  induction between with
  | start first =>
    refine ⟨inRange, ?_⟩
    have nonempty : 0 < data.length := List.length_pos_of_mem (List.mem_of_mem_head? first)
    split <;> omega
  | order _ inside stepped ih =>
    have spec := step_spec inside ih.1
    rw [stepped] at spec
    exact ⟨spec.1, (spec.2 _ rfl).2⟩

/-- Every order leaves the cursor on the screen and reads only bytes of its record. -/
theorem process_stays_in_range (payloads : List Bytes) {screen : Screen5250}
    (applied : payloads.foldlM (fun screen data => process data screen) {} = .ok screen)
    (data : Bytes) :
    screen.InRange ∧ process data screen ≠ .error .outOfRange ∧
      ∀ i middle, Between data screen i middle → middle.InRange ∧ i ≤ data.length ∧
        (i < data.length → step data i middle ≠ .error .outOfRange) ∧
        ∀ target c turns, repeatLoop target { ch := c } turns middle ≠ .error .outOfRange := by
  have inRange : screen.InRange := by
    refine Fallible.foldlM_preserves InRange ?_ inRange_clear applied
    intro _ data _ inRange processed
    have spec := process_spec data inRange
    rw [processed] at spec
    exact spec.2
  refine ⟨inRange, ?_, ?_⟩
  · intro failed
    have spec := process_spec data inRange
    rw [failed] at spec
    cases spec.2
  · intro i middle between
    obtain ⟨middleInRange, upTo⟩ := between.inRange inRange
    refine ⟨middleInRange, upTo, ?_, ?_⟩
    · intro inside
      exact (step_spec inside middleInRange).ne_outOfRange
    · intro target c turns
      exact (repeatLoop_inRange middleInRange target c turns).ne_outOfRange

theorem process_stays_in_range_past_edge :
    [[0x40]].foldlM (fun screen data => process data screen) {} = .ok {} ∧
      Between [0x11, 0x11, 0x3F, 0x3F] {} 4 (setCursor {} 63 63) ∧
      (setCursor {} 63 63).InRange := by
  have between : Between [0x11, 0x11, 0x3F, 0x3F] {} 4 (setCursor {} 63 63) :=
    .order (.start rfl (by decide)) (by decide) rfl
  exact ⟨rfl, between, ((process_stays_in_range [[0x40]] rfl _).2.2 _ _ between).1⟩

end Stream5250Parser

end Coroserver.Console
