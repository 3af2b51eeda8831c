import Coroserver.Console.VSlip
import Coroserver.Console.Ebcdic

/-! `IbmiEmulator` of `examples/obmc_console`: it decodes VSLIP frames of keys and
typed text, keeps the fields of a sign-on screen and of a menu, and answers
every input with a display record for a 5250 client. -/

namespace Coroserver.Console

namespace IbmiEmulator

inductive Screen where
  | signOn
  | menu
  deriving DecidableEq

inductive Field where
  | user
  | password
  | selection
  deriving DecidableEq

def validUser : Bytes := ascii "DEMO"
def validPassword : Bytes := ascii "PASSWORD"
def maxInputLength : Nat := 20

end IbmiEmulator

open IbmiEmulator in
structure IbmiEmulator where
  framer : VSlipFramer := {}
  screen : Screen := .signOn
  field : Field := .user
  user : Bytes := []
  password : Bytes := []
  selection : Bytes := []
  status : Bytes := ascii "Enter DEMO and PASSWORD to sign on."
  inputCursor : Nat := 0
  closed : Bool := false
  deriving DecidableEq

namespace IbmiEmulator

structure TextAt where
  row : UInt8
  column : UInt8
  text : Bytes

def writeText (write : TextAt) : Bytes :=
  0x11 :: write.row :: write.column :: write.text.map asciiToEbcdic

def setInputCursor (row column : UInt8) : Bytes := [0x11, row, column, 0x1D, 0x20, 0x13]

variable (emulator : IbmiEmulator)

def signOnTexts : List TextAt :=
  [⟨1, 0, ascii "IBM i DUMMY CONSOLE                         SYSTEM: TESTIBMI"⟩,
    ⟨2, 0, ascii "5250 emulator source for ibmi_console_client testing"⟩,
    ⟨4, 0, ascii "                         Sign On"⟩,
    ⟨7, 8, ascii "User . . . . . . . . . . . . . . . . . . . .:"⟩,
    ⟨7, 56, emulator.user⟩,
    ⟨9, 8, ascii "Password . . . . . . . . . . . . . . . . . .:"⟩,
    ⟨9, 56, List.replicate emulator.password.length '*'.toUInt8⟩,
    ⟨13, 0, emulator.status⟩,
    ⟨20, 0, ascii "Enter=Next/Sign on   Up/Down=Change field"⟩,
    ⟨22, 0, ascii "F3=Exit   F12=Clear fields"⟩]

def menuTexts : List TextAt :=
  [⟨1, 0, ascii "IBM i DUMMY CONSOLE                         SYSTEM: TESTIBMI"⟩,
    ⟨4, 0, ascii "                        Main Menu"⟩,
    ⟨7, 8, ascii "1. Work with user profiles"⟩,
    ⟨9, 8, ascii "2. Work with jobs"⟩,
    ⟨11, 8, ascii "3. Display system status"⟩,
    ⟨14, 8, ascii "Selection . . . . . . . . . . . . . . . . . .:"⟩,
    ⟨14, 56, emulator.selection⟩,
    ⟨17, 0, emulator.status⟩,
    ⟨20, 0, ascii "Type 1, 2, or 3 and press Enter."⟩,
    ⟨22, 0, ascii "F3=Exit   F12=Sign off"⟩]

def displayRecord : Bytes :=
  match emulator.screen with
  | .signOn =>
    0x11 :: (emulator.signOnTexts.flatMap writeText ++
      setInputCursor (if emulator.field = .user then 7 else 9)
        (UInt8.ofNat (56 + emulator.inputCursor)))
  | .menu =>
    0x11 :: (emulator.menuTexts.flatMap writeText ++
      setInputCursor 14 (UInt8.ofNat (56 + emulator.inputCursor)))

def makeDisplay : Bytes :=
  if emulator.closed then VSlip.encode [0x40]
  else VSlip.encode [0x40] ++ VSlip.encode emulator.displayRecord

def initialDisplay : Bytes := emulator.makeDisplay

def activeField : Field :=
  match emulator.screen with
  | .signOn => if emulator.field = .user then .user else .password
  | .menu => .selection

def text : Field → Bytes
  | .user => emulator.user
  | .password => emulator.password
  | .selection => emulator.selection

def setText (field : Field) (text : Bytes) : IbmiEmulator :=
  match field with
  | .user => { emulator with user := text }
  | .password => { emulator with password := text }
  | .selection => { emulator with selection := text }

inductive Command where
  | enter
  | exit
  | clear
  | backspace
  | right
  | left
  | changeField
  | typed
  deriving DecidableEq

def commandOf (byte : UInt8) : Command :=
  if byte = 0xF1 then .enter
  else if byte = 0x33 then .exit
  else if byte = 0x3C then .clear
  else if byte = 0x15 then .backspace
  else if byte = 0x1A then .right
  else if byte = 0x1B then .left
  else if byte = 0x18 then .changeField
  else if byte = 0x19 then .changeField
  else .typed

def onEnter : IbmiEmulator :=
  match emulator.screen with
  | .signOn =>
    if emulator.field = .user then
      { emulator with
        field := .password
        inputCursor := emulator.password.length
        status := ascii "Enter password, then press Enter." }
    else if emulator.user = validUser && emulator.password = validPassword then
      { emulator with
        screen := .menu
        field := .selection
        inputCursor := 0
        status := ascii "Sign on successful. Select an option." }
    else
      { emulator with
        password := []
        inputCursor := 0
        status := ascii "Sign on failed. Use DEMO / PASSWORD." }
  | .menu =>
    if emulator.selection = ascii "1" || emulator.selection = ascii "2" ||
        emulator.selection = ascii "3" then
      { emulator with
        status := ascii "Option " ++ emulator.selection ++ ascii " selected."
        selection := []
        inputCursor := 0 }
    else { emulator with status := ascii "Enter 1, 2, or 3." }

def onClear : IbmiEmulator :=
  match emulator.screen with
  | .menu =>
    { emulator with
      screen := .signOn
      field := .user
      user := []
      password := []
      selection := []
      status := ascii "Signed off. Enter DEMO and PASSWORD."
      inputCursor := 0 }
  | .signOn =>
    { emulator with
      user := []
      password := []
      field := .user
      status := ascii "Fields cleared."
      inputCursor := 0 }

def onBackspace : IbmiEmulator :=
  if emulator.inputCursor > 0 then
    let input := emulator.text emulator.activeField
    { emulator.setText emulator.activeField
        (input.take (emulator.inputCursor - 1) ++ input.drop emulator.inputCursor) with
      inputCursor := emulator.inputCursor - 1 }
  else emulator

def onRight : IbmiEmulator :=
  if emulator.inputCursor < (emulator.text emulator.activeField).length then
    { emulator with inputCursor := emulator.inputCursor + 1 }
  else emulator

def onLeft : IbmiEmulator :=
  if emulator.inputCursor > 0 then { emulator with inputCursor := emulator.inputCursor - 1 }
  else emulator

def onChangeField : IbmiEmulator :=
  match emulator.screen with
  | .signOn =>
    if emulator.field = .user then
      { emulator with field := .password, inputCursor := emulator.password.length }
    else { emulator with field := .user, inputCursor := emulator.user.length }
  | .menu => emulator

structure Typing where
  input : Bytes
  cursor : Nat

def Typing.byte (typing : Typing) (byte : UInt8) : Typing :=
  if ebcdicToAscii byte != ' '.toUInt8 && typing.input.length < maxInputLength then
    { input := typing.input.take typing.cursor ++
        ebcdicToAscii byte :: typing.input.drop typing.cursor
      cursor := typing.cursor + 1 }
  else typing

def onTyped (frame : Bytes) : IbmiEmulator :=
  let typing := frame.foldl Typing.byte
    ⟨emulator.text emulator.activeField, emulator.inputCursor⟩
  { emulator.setText emulator.activeField typing.input with inputCursor := typing.cursor }

def processFrame (frame : Bytes) : IbmiEmulator :=
  match frame with
  | [] => emulator
  | front :: _ =>
    match commandOf front with
    | .enter => emulator.onEnter
    | .exit => { emulator with closed := true }
    | .clear => emulator.onClear
    | .backspace => emulator.onBackspace
    | .right => emulator.onRight
    | .left => emulator.onLeft
    | .changeField => emulator.onChangeField
    | .typed => emulator.onTyped frame

def processed (input : Bytes) : IbmiEmulator :=
  let fed := emulator.framer.feed input []
  (fed.out.filter (· ≠ [])).foldl processFrame { emulator with framer := fed.framer }

def process (input : Bytes) : IbmiEmulator × Bytes :=
  (emulator.processed input, (emulator.processed input).makeDisplay)

/-- The state and the last output after a sequence of inputs; before the first
input the output is the initial display. -/
def processAll (inputs : List Bytes) : IbmiEmulator × Bytes :=
  inputs.foldl (fun reached input => reached.1.process input)
    (emulator, emulator.initialDisplay)

end IbmiEmulator

end Coroserver.Console
