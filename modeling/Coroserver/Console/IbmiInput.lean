import Coroserver.Console.IbmiEmulatorProperties
import Coroserver.Console.Screen5250

/-! `mapInput` of `ibmi_console_client` turns the bytes of one read from the
terminal into a record, and the emulator takes the first byte of a record for
a key. Letters and digits are sent as their codes in the shifted table, where
the code of `3` is the one of the Enter key. -/

namespace Coroserver.Console

open List
namespace Aid

def enter : UInt8 := 0xF1
def f1 : UInt8 := 0x31
def pa1 : UInt8 := 0x6C
def pa2 : UInt8 := 0x6E

end Aid

def makeAidRecord (aid : UInt8) (row col : Nat) : Bytes :=
  [aid, UInt8.ofNat (row &&& 0x3F), UInt8.ofNat (col &&& 0x3F)]

/-- The key of a function-key sequence: page up, page down and F1 to F12,
whose codes follow each other. -/
def functionKey (fnNum : Int32) : Option UInt8 :=
  if fnNum = 5 then some Aid.pa1
  else if fnNum = 6 then some Aid.pa2
  else if 11 ≤ fnNum ∧ fnNum ≤ 15 then some (Aid.f1 + .ofInt (fnNum - 11).toInt)
  else if 17 ≤ fnNum ∧ fnNum ≤ 21 then some (Aid.f1 + .ofInt (fnNum - 12).toInt)
  else if 23 ≤ fnNum ∧ fnNum ≤ 24 then some (Aid.f1 + .ofInt (fnNum - 13).toInt)
  else none

def isDigit (c : UInt8) : Bool := '0'.toUInt8 ≤ c && c ≤ '9'.toUInt8

/-- The number is an `int`. More digits than it holds are undefined behaviour, which is
taken to wrap around. -/
def leadingNumber (text : Bytes) : Int32 :=
  (text.takeWhile isDigit).foldl (fun number c => number * 10 + .ofNat (c - '0'.toUInt8).toNat) 0

def cursorKey (key : UInt8) : Bytes :=
  if key = 'A'.toUInt8 then [0x18]
  else if key = 'B'.toUInt8 then [0x19]
  else if key = 'C'.toUInt8 then [0x1A]
  else if key = 'D'.toUInt8 then [0x1B]
  else []

/-- The record for the bytes behind an escape byte, unless they are passed
through like other input. -/
def escapeSequence (screen : Screen5250) (rest : Bytes) : Option Bytes :=
  match rest with
  | [bracket, key] =>
    if bracket = '['.toUInt8 then some (cursorKey key)
    else if bracket = 'O'.toUInt8 && 'P'.toUInt8 ≤ key && key ≤ 'S'.toUInt8 then
      some (makeAidRecord (Aid.f1 + (key - 'P'.toUInt8)) screen.inputRow screen.inputCol)
    else none
  | bracket :: first :: more =>
    if bracket = '['.toUInt8 then
      match functionKey (leadingNumber (first :: more)) with
      | some aid => some (makeAidRecord aid screen.inputRow screen.inputCol)
      | none => some []
    else none
  | _ => none

def passThrough (raw : Bytes) : Bytes :=
  (raw.filter fun c => 0x20 ≤ c && c ≤ 0x7E).map asciiToEbcdic

def mapInput (screen : Screen5250) (raw : Bytes) : Bytes :=
  match raw with
  | [] => []
  | first :: rest =>
    if rest.isEmpty && (first = '\r'.toUInt8 || first = '\n'.toUInt8) then
      makeAidRecord Aid.enter screen.inputRow screen.inputCol
    else if rest.isEmpty && (first = 0x08 || first = 0x7F) then [0x15]
    else
      match if first = 0x1B then escapeSequence screen rest else none with
      | some record => record
      | none => passThrough raw

theorem isAlphanumeric_bounds {c : UInt8} (alphanumeric : isAlphanumeric c = true) :
    0x30 ≤ c.toNat ∧ c.toNat ≤ 0x7A := by
  have first : '0'.toNat = 0x30 ∧ '9'.toNat = 0x39 ∧ 'A'.toNat = 0x41 ∧ 'Z'.toNat = 0x5A ∧
      'a'.toNat = 0x61 ∧ 'z'.toNat = 0x7A := by decide
  simp only [isAlphanumeric, first, Bool.or_eq_true, Bool.and_eq_true, decide_eq_true_eq]
    at alphanumeric
  omega

theorem mapInput_alphanumeric (screen : Screen5250) {text : Bytes}
    (alphanumeric : ∀ c ∈ text, isAlphanumeric c = true) :
    mapInput screen text = text.map asciiToEbcdic := by
  cases text with
  | nil => rfl
  | cons first rest =>
    have bounds := isAlphanumeric_bounds (alphanumeric first mem_cons_self)
    have differs : ∀ key : UInt8, key.toNat < 0x30 ∨ 0x7A < key.toNat → first ≠ key := by
      intro _ _ same
      subst same
      omega
    have printable : ∀ c ∈ first :: rest, (0x20 ≤ c && c ≤ 0x7E) = true := by
      intro c member
      have inside := isAlphanumeric_bounds (alphanumeric c member)
      simp only [Bool.and_eq_true, decide_eq_true_eq, UInt8.le_iff_toNat_le]
      exact ⟨Nat.le_trans (by decide) inside.1, Nat.le_trans inside.2 (by decide)⟩
    simp only [mapInput, differs '\r'.toUInt8 (by decide), differs '\n'.toUInt8 (by decide),
      differs 0x08 (by decide), differs 0x7F (by decide), differs 0x1B (by decide), decide_false,
      Bool.or_self, Bool.and_false, Bool.false_eq_true, if_false]
    rw [passThrough, filter_eq_self.mpr printable]

namespace IbmiEmulator

section

variable {emulator : IbmiEmulator} {text : Bytes}

def withTyped (emulator : IbmiEmulator) (text : Bytes) : IbmiEmulator :=
  let input := emulator.text emulator.activeField
  let typing := (Typing.mk input emulator.inputCursor).insert
    (text.take (maxInputLength - input.length))
  { emulator.setText emulator.activeField typing.input with inputCursor := typing.cursor }

@[simp]
theorem framer_setText (field : Field) (text : Bytes) :
    (emulator.setText field text).framer = emulator.framer := by
  cases field <;> rfl

private theorem framer_processFrame (frame : Bytes) :
    (emulator.processFrame frame).framer = emulator.framer := by
  unfold processFrame
  split
  · rfl
  · split
    · unfold onEnter
      repeat' split
      all_goals rfl
    · rfl
    · unfold onClear
      split <;> rfl
    · unfold onBackspace
      split
      · exact framer_setText _ _
      · rfl
    · unfold onRight
      split <;> rfl
    · unfold onLeft
      split <;> rfl
    · unfold onChangeField
      repeat' split
      all_goals rfl
    · exact framer_setText _ _

private theorem framer_processFrames (frames : List Bytes) :
    (frames.foldl processFrame emulator).framer = emulator.framer := by
  induction frames generalizing emulator with
  | nil => rfl
  | cons frame rest ih => exact ih.trans (framer_processFrame frame)

theorem framer_processed (emulator : IbmiEmulator) (input : Bytes) :
    (emulator.processed input).framer = (emulator.framer.feed input []).framer :=
  framer_processFrames _

theorem processed_encode {payload : Bytes} (idle : emulator.framer = .fresh)
    (nonempty : payload ≠ []) :
    emulator.processed (VSlip.encode payload) = emulator.processFrame payload := by
  have same : { emulator with framer := .fresh } = emulator := by rw [← idle]
  simp [processed, idle, VSlipFramer.feed_encode, VSlipFramer.framesOf, nonempty, same]

theorem commandOf_asciiToEbcdic {c : UInt8} (alphanumeric : isAlphanumeric c = true) :
    commandOf (asciiToEbcdic c) = if c = '3'.toUInt8 then .enter else .typed := by
  by_cases three : c = '3'.toUInt8
  · subst three
    decide +kernel
  · have large := le_asciiToEbcdic c
    have differs : ∀ key : UInt8, key.toNat < 0x40 → asciiToEbcdic c ≠ key := by
      intro key small same
      rw [same] at large
      omega
    have notEnter : asciiToEbcdic c ≠ 0xF1 := by
      intro same
      have shown := ebcdicToAscii_asciiToEbcdic (mem_table_of_isAlphanumeric alphanumeric)
      have code : ebcdicToAscii 0xF1 = '3'.toUInt8 := by decide +kernel
      rw [same, code] at shown
      exact three shown.symm
    simp [commandOf, three, notEnter, differs]

private theorem typedCharacters_map (alphanumeric : ∀ c ∈ text, isAlphanumeric c = true) :
    typedCharacters (text.map asciiToEbcdic) = text := by
  have shown : (text.map asciiToEbcdic).map ebcdicToAscii = text := by
    rw [map_map]
    conv_rhs => rw [← map_id text]
    exact map_congr_left fun c member =>
      ebcdicToAscii_asciiToEbcdic (mem_table_of_isAlphanumeric (alphanumeric c member))
  rw [typedCharacters, shown, filter_eq_self]
  intro c member
  have bounds := isAlphanumeric_bounds (alphanumeric c member)
  simp only [bne_iff_ne, ne_eq]
  intro space
  rw [space] at bounds
  exact absurd bounds.1 (by decide)

theorem onTyped_map (wellFormed : emulator.WellFormed)
    (alphanumeric : ∀ c ∈ text, isAlphanumeric c = true) :
    emulator.onTyped (text.map asciiToEbcdic) = emulator.withTyped text := by
  unfold onTyped withTyped
  simp only [foldl_byte (text.map asciiToEbcdic)
    ⟨IbmiEmulator.text emulator emulator.activeField, emulator.inputCursor⟩ wellFormed.cursor,
    typedCharacters_map alphanumeric]

theorem length_text_withTyped (emulator : IbmiEmulator) (text : Bytes) :
    ((emulator.withTyped text).text emulator.activeField).length =
      (emulator.text emulator.activeField).length +
        min (maxInputLength - (emulator.text emulator.activeField).length) text.length := by
  have texts : (emulator.withTyped text).text emulator.activeField = _ :=
    (text_setText emulator.activeField emulator.activeField _).trans (if_pos rfl)
  rw [texts, Typing.length_insert, length_take]

private theorem withTyped_of_full
    (full : (emulator.text emulator.activeField).length = maxInputLength) :
    emulator.withTyped text = emulator := by
  unfold withTyped
  simp only [full, Nat.sub_self, take_zero, Typing.insert_nil]
  cases emulator.activeField <;> rfl

private theorem onEnter_eq_withTyped_iff (wellFormed : emulator.WellFormed) (nonempty : text ≠ []) :
    emulator.onEnter = emulator.withTyped text ↔
      emulator.screen = .menu ∧ emulator.selection.length = maxInputLength ∧
        emulator.status = ascii "Enter 1, 2, or 3." := by
  have typed : 0 < text.length := length_pos_iff.mpr nonempty
  have inserted := length_text_withTyped emulator text
  obtain ⟨screenKept, fieldKept, statusKept⟩ : (emulator.withTyped text).screen = _ ∧
      (emulator.withTyped text).field = _ ∧ (emulator.withTyped text).status = _ :=
    setText_screen emulator emulator.activeField _
  cases screenKind : emulator.screen with
  | signOn =>
    refine iff_of_false (fun same => ?_) (fun condition => by cases condition.1)
    rw [← same] at inserted screenKept fieldKept
    by_cases user : emulator.field = .user
    · simp [onEnter, screenKind, user] at fieldKept
    · by_cases valid : (emulator.user = validUser && emulator.password = validPassword) = true
      · simp [onEnter, screenKind, user, valid] at screenKept
      · -- a rejected sign-on empties the password
        simp [onEnter, screenKind, user, valid, activeField, IbmiEmulator.text,
          maxInputLength] at inserted
        omega
  | menu =>
    have limited := wellFormed.lengths .selection
    simp only [IbmiEmulator.text] at limited
    simp only [activeField, screenKind, IbmiEmulator.text] at inserted
    by_cases chosen : (emulator.selection = ascii "1" || emulator.selection = ascii "2" ||
        emulator.selection = ascii "3") = true
    · -- an option that is selected is emptied, and it was one character
      have short : emulator.selection.length = 1 := by
        simp only [Bool.or_eq_true, decide_eq_true_eq] at chosen
        obtain (same | same) | same := chosen <;> rw [same] <;> rfl
      refine iff_of_false (fun same => ?_) fun condition => ?_
      · simp [← same, onEnter, screenKind, chosen] at inserted
        omega
      · have full := condition.2.1
        simp only [maxInputLength] at full
        omega
    · have entered : emulator.onEnter = { emulator with status := ascii "Enter 1, 2, or 3." } := by
        simp [onEnter, screenKind, chosen]
      rw [entered]
      constructor
      · intro same
        refine ⟨rfl, ?_, ?_⟩
        · simp only [← same] at inserted
          omega
        · exact statusKept.symm.trans (congrArg IbmiEmulator.status same).symm
      · intro condition
        have full : (emulator.text emulator.activeField).length = maxInputLength := by
          simpa [activeField, screenKind, IbmiEmulator.text] using condition.2.1
        rw [withTyped_of_full full, ← condition.2.2]

theorem processFrame_map_iff (wellFormed : emulator.WellFormed) (nonempty : text ≠ [])
    (alphanumeric : ∀ c ∈ text, isAlphanumeric c = true) :
    emulator.processFrame (text.map asciiToEbcdic) = emulator.withTyped text ↔
      text.head? ≠ some '3'.toUInt8 ∨
        (emulator.screen = .menu ∧ emulator.selection.length = maxInputLength ∧
          emulator.status = ascii "Enter 1, 2, or 3.") := by
  have frame := onTyped_map wellFormed alphanumeric
  have entered := onEnter_eq_withTyped_iff wellFormed nonempty
  cases text with
  | nil => exact absurd rfl nonempty
  | cons first =>
    have command := commandOf_asciiToEbcdic (alphanumeric first mem_cons_self)
    rw [map_cons] at frame ⊢
    by_cases three : first = '3'.toUInt8
    · subst three
      rw [if_pos rfl] at command
      simp only [processFrame, command, head?_cons, ne_eq, not_true, false_or]
      exact entered
    · rw [if_neg three] at command
      simp [processFrame, command, three, frame]

end

/-- Letters and digits typed in one read are inserted, and nothing else changes,
exactly when the framer is between two frames and the text does not start with `3`, up
to an Enter that changes nothing in a full field. -/
theorem process_typed_iff (inputs : List Bytes) (screen : Screen5250) (text : Bytes)
    (_running : (processAll {} inputs).1.closed = false) (nonempty : text ≠ [])
    (alphanumeric : ∀ c ∈ text, isAlphanumeric c = true) :
    ((processAll {} inputs).1.process (VSlip.encode (mapInput screen text))).1 =
        (processAll {} inputs).1.withTyped text ↔
      (processAll {} inputs).1.framer = .fresh ∧ (text.head? ≠ some '3'.toUInt8 ∨
          ((processAll {} inputs).1.screen = .menu ∧
            (processAll {} inputs).1.selection.length = maxInputLength ∧
            (processAll {} inputs).1.status = ascii "Enter 1, 2, or 3.")) := by
  have wellFormed := (WellFormed.processAll inputs wellFormed_initial).1
  generalize (processAll {} inputs).1 = emulator at wellFormed ⊢
  have sent : (text.map asciiToEbcdic) ≠ [] := by simpa using nonempty
  have after := framer_processed emulator (VSlip.encode (text.map asciiToEbcdic))
  rw [VSlipFramer.framer_feed_encode] at after
  rw [mapInput_alphanumeric screen alphanumeric]
  change emulator.processed _ = _ ↔ _
  constructor
  · intro same
    have idle : emulator.framer = .fresh := by
      rw [same, withTyped, framer_setText] at after
      exact after
    rw [processed_encode idle sent] at same
    exact ⟨idle, (processFrame_map_iff wellFormed nonempty alphanumeric).mp same⟩
  · intro condition
    rw [processed_encode condition.1 sent]
    exact (processFrame_map_iff wellFormed nonempty alphanumeric).mpr condition.2

theorem process_typed_user :
    ((processAll {} []).1.process (VSlip.encode (mapInput {} (ascii "DEMO")))).1 =
      (processAll {} []).1.withTyped (ascii "DEMO") :=
  (process_typed_iff [] {} (ascii "DEMO") rfl (by decide) (by decide +kernel)).mpr
    (by decide +kernel)

theorem process_typed_three :
    (process {} (VSlip.encode (mapInput {} (ascii "3")))).1 ≠ withTyped {} (ascii "3") ∧
      (process {} (VSlip.encode (mapInput {} (ascii "3")))).1.field = .password ∧
      (process {} (VSlip.encode (mapInput {} (ascii "3")))).1.user = [] := by
  decide +kernel

end IbmiEmulator

end Coroserver.Console
