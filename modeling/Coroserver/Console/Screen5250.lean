import Coroserver.Console.Ebcdic

/-! The 24 by 80 screen of the IBM i console client and the parser that applies a
decoded record to it. A write outside the cell array or a read behind the
record is a fault of the model, and so is the loop of a repeat order that
never meets its target. -/

namespace Coroserver.Console

inductive Fault where
  | outOfRange
  | neverReturns

structure Cell5250 where
  ch : UInt8 := ' '.toUInt8
  attr : UInt8 := 0x20

namespace Screen5250

def rows : Nat := 24
def cols : Nat := 80

end Screen5250

open Screen5250 in
structure Screen5250 where
  cells : Vector Cell5250 (rows * cols) := Vector.replicate _ {}
  cursorRow : Nat := 0
  cursorCol : Nat := 0
  inputRow : Nat := 0
  inputCol : Nat := 0

namespace Screen5250

def clear (_ : Screen5250) : Screen5250 := {}

variable (screen : Screen5250)

def setCursor (row col : Nat) : Screen5250 :=
  { screen with cursorRow := min row (rows - 1), cursorCol := min col (cols - 1) }

def setInputCursor (row col : Nat) : Screen5250 :=
  { screen with inputRow := min row (rows - 1), inputCol := min col (cols - 1) }

def assign (row col : Nat) (cell : Cell5250) : Except Fault Screen5250 :=
  if inside : row * cols + col < rows * cols then
    .ok { screen with cells := screen.cells.set (row * cols + col) cell inside }
  else .error .outOfRange

def advance : Screen5250 :=
  if screen.cursorCol + 1 ≥ cols then
    if screen.cursorRow + 1 ≥ rows then { screen with cursorRow := 0, cursorCol := 0 }
    else { screen with cursorRow := screen.cursorRow + 1, cursorCol := 0 }
  else { screen with cursorCol := screen.cursorCol + 1 }

/-- The attribute is the default one at every call. -/
def putChar (c : UInt8) : Except Fault Screen5250 := do
  let written ← screen.assign screen.cursorRow screen.cursorCol { ch := c }
  return written.advance

/-- The loop of `repeatToAddress`, at most `turns` tests of its condition. -/
def repeatLoop (target : Nat) (cell : Cell5250) : Nat → Screen5250 → Except Fault Screen5250
  | 0, _ => .error .neverReturns
  | turns + 1, screen =>
    if screen.cursorRow * cols + screen.cursorCol = target then .ok screen
    else do
      let written ← screen.assign screen.cursorRow screen.cursorCol cell
      repeatLoop target cell turns written.advance

/-- The cursor goes around the screen, so that a target it has not met after
as many tests as there are cells is never met. -/
def repeatToAddress (toRow toCol : Nat) (c : UInt8) : Except Fault Screen5250 :=
  repeatLoop (toRow * cols + toCol) { ch := c } (rows * cols) screen

def decodeSba (b0 b1 : UInt8) : Nat × Nat := ((b0 &&& 0x3F).toNat, (b1 &&& 0x3F).toNat)

end Screen5250

namespace Stream5250Parser

inductive Order where
  | setBufferAddress
  | insertCursor
  | startOfField
  | repeatToAddress
  | eraseToAddress
  | modifyField
  | padding
  | character

def orderOf (b : UInt8) : Order :=
  if b = 0x11 then .setBufferAddress
  else if b = 0x13 then .insertCursor
  else if b = 0x1D then .startOfField
  else if b = 0x3C then .repeatToAddress
  else if b = 0x3F then .eraseToAddress
  else if b = 0x2B then .modifyField
  else if b = 0x00 then .padding
  else .character

/-- `data[i]`, which is only defined inside the record. -/
def readAt (data : Bytes) (i : Nat) : Except Fault UInt8 :=
  match data[i]? with
  | some b => .ok b
  | none => .error .outOfRange

/-- One iteration of the loop of `process`: the index of the next one, or
nothing when an incomplete order makes `process` return. -/
def step (data : Bytes) (start : Nat) (screen : Screen5250) :
    Except Fault (Option Nat × Screen5250) := do
  let n := data.length
  let b ← readAt data start
  let i := start + 1
  match orderOf b with
  | .setBufferAddress =>
    if i + 1 ≥ n then return (none, screen)
    else
      let b0 ← readAt data i
      let b1 ← readAt data (i + 1)
      let address := Screen5250.decodeSba b0 b1
      return (some (i + 2), screen.setCursor address.1 address.2)
  | .insertCursor =>
    return (some i, screen.setInputCursor screen.cursorRow screen.cursorCol)
  | .startOfField => return (some (if i < n then i + 1 else i), screen)
  | .repeatToAddress =>
    if i + 2 ≥ n then return (none, screen)
    else
      let b0 ← readAt data i
      let b1 ← readAt data (i + 1)
      let address := Screen5250.decodeSba b0 b1
      let c ← readAt data (i + 2)
      let filled ← screen.repeatToAddress address.1 address.2 (ebcdicToAscii c)
      return (some (i + 3), filled)
  | .eraseToAddress =>
    if i + 1 ≥ n then return (none, screen)
    else
      let b0 ← readAt data i
      let b1 ← readAt data (i + 1)
      let address := Screen5250.decodeSba b0 b1
      let filled ← screen.repeatToAddress address.1 address.2 ' '.toUInt8
      return (some (i + 2), filled)
  | .modifyField => return (some (if i < n then i + 1 else i), screen)
  | .padding => return (some i, screen)
  | .character =>
    let written ← screen.putChar (ebcdicToAscii b)
    return (some i, written)

def loop (data : Bytes) : Nat → Nat → Screen5250 → Except Fault Screen5250
  | turns, i, screen =>
    if i < data.length then
      match turns with
      | 0 => .error .neverReturns
      | turns + 1 =>
        match step data i screen with
        | .error fault => .error fault
        | .ok (none, next) => .ok next
        | .ok (some j, next) => loop data turns j next
    else .ok screen

/-- Apply one record. Every iteration consumes a byte, so that the loop makes
at most as many as the record has bytes. -/
def process (data : Bytes) (screen : Screen5250) : Except Fault Screen5250 :=
  match data with
  | [] => .ok screen
  | cmd :: _ =>
    if cmd = 0x40 then .ok screen.clear
    else if cmd = 0x11 then loop data data.length 1 screen
    else if cmd = 0xF3 then .ok screen
    else loop data data.length 0 screen

end Stream5250Parser

end Coroserver.Console
