import Coroserver.Console.Screen5250

/-! The loop of the parser works with an index into the record; `orders` reads the
same stream from the front. On it, a text that is written behind an address
order is described by the cells it fills. -/

namespace Coroserver.Console

open Screen5250 List

namespace Stream5250Parser

def orders : Bytes → Screen5250 → Except Fault Screen5250
  | [], screen => .ok screen
  | b :: rest, screen =>
    match orderOf b, rest with
    | .setBufferAddress, b0 :: b1 :: rest =>
      orders rest (screen.setCursor (decodeSba b0 b1).1 (decodeSba b0 b1).2)
    | .setBufferAddress, _ => .ok screen
    | .insertCursor, rest =>
      orders rest (screen.setInputCursor screen.cursorRow screen.cursorCol)
    | .startOfField, [] => .ok screen
    | .startOfField, _ :: rest => orders rest screen
    | .repeatToAddress, b0 :: b1 :: c :: rest =>
      match screen.repeatToAddress (decodeSba b0 b1).1 (decodeSba b0 b1).2
          (ebcdicToAscii c) with
      | .error fault => .error fault
      | .ok filled => orders rest filled
    | .repeatToAddress, _ => .ok screen
    | .eraseToAddress, b0 :: b1 :: rest =>
      match screen.repeatToAddress (decodeSba b0 b1).1 (decodeSba b0 b1).2 ' '.toUInt8 with
      | .error fault => .error fault
      | .ok filled => orders rest filled
    | .eraseToAddress, _ => .ok screen
    | .modifyField, [] => .ok screen
    | .modifyField, _ :: rest => orders rest screen
    | .padding, rest => orders rest screen
    | .character, rest =>
      match screen.putChar (ebcdicToAscii b) with
      | .error fault => .error fault
      | .ok written => orders rest written

section

variable {data : Bytes} {i : Nat} {b : UInt8} {rest : Bytes}

private theorem readAt_of_drop (left : data.drop i = b :: rest) : readAt data i = .ok b := by
  have found : data[i]? = some b := by
    rw [← head?_drop, left, head?_cons]
  rw [readAt, found]

private theorem drop_succ (left : data.drop i = b :: rest) : data.drop (i + 1) = rest := by
  rw [← drop_drop, left]
  rfl

private theorem length_of_drop (left : data.drop i = b :: rest) :
    data.length = i + 1 + rest.length := by
  have lengths := congrArg List.length left
  simp only [length_drop, length_cons] at lengths
  omega

theorem loop_eq_orders (turns : Nat) (screen : Screen5250) (enough : data.length ≤ i + turns) :
    loop data turns i screen = orders (data.drop i) screen := by
  induction turns generalizing i screen with
  | zero =>
    have past : data.length ≤ i := enough
    rw [loop, if_neg (by omega), drop_eq_nil_of_le past, orders]
  | succ turns ih =>
    by_cases inside : i < data.length
    · obtain ⟨b, rest, left⟩ : ∃ b rest, data.drop i = b :: rest :=
        ⟨_, _, drop_eq_getElem_cons inside⟩
      have onward := drop_succ left
      have total := length_of_drop left
      have recurse : ∀ j next, i + 1 ≤ j → loop data turns j next = orders (data.drop j) next := by
        intro j next later
        exact ih next (by omega)
      rw [loop, if_pos inside, left]
      simp only [step, readAt_of_drop left, pure, Except.pure, bind, Except.bind]
      cases kind : orderOf b with
      | setBufferAddress =>
        match rest with
        | [] | [_] => simp [orders, kind, total]
        | b0 :: b1 :: rest =>
          have second := drop_succ onward
          have third := drop_succ second
          simp [orders, kind, total, readAt_of_drop onward, readAt_of_drop second, recurse, third]
      | insertCursor => simp [orders, kind, recurse, onward]
      | startOfField | modifyField =>
        match rest with
        | [] => simp [orders, kind, total, recurse, onward]
        | _ :: rest => simp [orders, kind, total, recurse, drop_succ onward]
      | repeatToAddress =>
        match rest with
        | [] | [_] | [_, _] => simp [orders, kind, total]
        | b0 :: b1 :: c :: rest =>
          have second := drop_succ onward
          have third := drop_succ second
          have fourth := drop_succ third
          simp only [orders, kind, readAt_of_drop onward, readAt_of_drop second,
            readAt_of_drop third]
          cases screen.repeatToAddress (decodeSba b0 b1).1 (decodeSba b0 b1).2
              (ebcdicToAscii c) with
          | error => simp [total]
          | ok => simp [total, recurse, fourth]
      | eraseToAddress =>
        match rest with
        | [] | [_] => simp [orders, kind, total]
        | b0 :: b1 :: rest =>
          have second := drop_succ onward
          have third := drop_succ second
          simp only [orders, kind, readAt_of_drop onward, readAt_of_drop second]
          cases screen.repeatToAddress (decodeSba b0 b1).1 (decodeSba b0 b1).2 ' '.toUInt8 with
          | error => simp [total]
          | ok => simp [total, recurse, third]
      | padding => simp [orders, kind, recurse, onward]
      | character =>
        simp only [orders, kind]
        cases screen.putChar (ebcdicToAscii b) with
        | error => rfl
        | ok => simp [recurse, onward]
    · rw [loop, if_neg inside, drop_eq_nil_of_le (by omega), orders]

end

theorem process_writeToDisplay (stream : Bytes) (screen : Screen5250) :
    process (0x11 :: stream) screen = orders stream screen := by
  have entered : process (0x11 :: stream) screen =
      loop (0x11 :: stream) (0x11 :: stream).length 1 screen := rfl
  rw [entered, loop_eq_orders _ _ (Nat.le_add_left _ _), drop_one, tail_cons]

end Stream5250Parser

namespace Screen5250

variable (screen : Screen5250)

def charAt (position : Nat) : Option UInt8 :=
  screen.cells[position]?.map Cell5250.ch

def Shows (row col : Nat) (text : Bytes) : Prop :=
  ∀ k c, text[k]? = some c → screen.charAt (row * cols + col + k) = some c

def position : Nat := screen.cursorRow * cols + screen.cursorCol

def InRange : Prop := screen.cursorRow < rows ∧ screen.cursorCol < cols

theorem InRange.position_lt {screen : Screen5250} (inRange : screen.InRange) :
    screen.position < rows * cols := by
  simp only [InRange, position, rows, cols] at *
  omega

variable (screen : Screen5250)

theorem inRange_setCursor (row col : Nat) : (screen.setCursor row col).InRange := by
  simp only [InRange, setCursor, rows, cols]
  omega

structure Wrote (before after : Screen5250) (start : Nat) (text : Bytes) : Prop where
  shown : ∀ k c, text[k]? = some c → after.charAt (start + k) = some c
  kept : ∀ p, p < start ∨ start + text.length ≤ p → after.charAt p = before.charAt p
  inputRow : after.inputRow = before.inputRow
  inputCol : after.inputCol = before.inputCol

theorem Wrote.refl (start : Nat) : Wrote screen screen start [] where
  shown _ _ found := by simp at found
  kept _ _ := rfl
  inputRow := rfl
  inputCol := rfl

theorem Wrote.cons {first middle last : Screen5250} {start : Nat} {c : UInt8} {text : Bytes}
    (one : Wrote first middle start [c]) (others : Wrote middle last (start + 1) text) :
    Wrote first last start (c :: text) where
  shown k found same := by
    cases k with
    | zero =>
      cases same
      rw [Nat.add_zero, others.kept start (.inl (by omega))]
      exact one.shown 0 c rfl
    | succ k =>
      rw [Nat.add_comm k 1, ← Nat.add_assoc]
      exact others.shown k found same
  kept p outside := by
    rw [length_cons] at outside
    rw [others.kept p (by omega), one.kept p (by simp only [length_singleton]; omega)]
  inputRow := others.inputRow.trans one.inputRow
  inputCol := others.inputCol.trans one.inputCol

theorem advance_spec (inRange : screen.InRange) : screen.advance.InRange ∧
      screen.advance.position = (screen.position + 1) % (rows * cols) := by
  obtain ⟨_, _⟩ := inRange
  by_cases lastCol : screen.cursorCol + 1 ≥ cols
  · by_cases lastRow : screen.cursorRow + 1 ≥ rows
    · simp only [advance, if_pos lastCol, if_pos lastRow, InRange, position]
      simp only [rows, cols] at *
      omega
    · simp only [advance, if_pos lastCol, if_neg lastRow, InRange, position]
      simp only [rows, cols] at *
      omega
  · simp only [advance, if_neg lastCol, InRange, position]
    simp only [rows, cols] at *
    omega

private theorem advance_cells :
    screen.advance.cells = screen.cells ∧ screen.advance.inputRow = screen.inputRow ∧
      screen.advance.inputCol = screen.inputCol := by
  unfold advance
  split
  · split <;> exact ⟨rfl, rfl, rfl⟩
  · exact ⟨rfl, rfl, rfl⟩

theorem putChar_spec (c : UInt8) (inRange : screen.InRange) :
    ∃ next, screen.putChar c = .ok next ∧ next.InRange ∧ Wrote screen next screen.position [c] ∧
      next.position = (screen.position + 1) % (rows * cols) := by
  have inside := inRange.position_lt
  have assigned : screen.putChar c =
      .ok { screen with cells := screen.cells.set screen.position { ch := c } inside }.advance := by
    simp only [putChar, assign, dif_pos (show screen.cursorRow * cols + screen.cursorCol <
      rows * cols from inside), bind, Except.bind, pure, Except.pure]
    rfl
  obtain ⟨cells, row, col⟩ := advance_cells
    { screen with cells := screen.cells.set screen.position { ch := c } inside }
  have moved := advance_spec
    { screen with cells := screen.cells.set screen.position { ch := c } inside } inRange
  refine ⟨_, assigned, moved.1, ⟨?_, ?_, row, col⟩, moved.2⟩
  · intro k found same
    obtain ⟨rfl, rfl⟩ : k = 0 ∧ found = c := by
      cases k with
      | zero => exact ⟨rfl, by simpa using same.symm⟩
      | succ k => simp at same
    simp [charAt, cells]
  · intro p outside
    simp only [length_singleton] at outside
    have elsewhere : screen.position ≠ p := by omega
    simp only [charAt, cells]
    rw [Vector.getElem?_set_ne inside elsewhere]

end Screen5250

namespace Stream5250Parser

def shownAs (c : UInt8) : UInt8 := ebcdicToAscii (asciiToEbcdic c)

theorem orderOf_of_le {b : UInt8} (large : 0x40 ≤ b.toNat) : orderOf b = .character := by
  have differs : ∀ order : UInt8, order.toNat < 0x40 → b ≠ order := by
    intro _ _ same
    rw [same] at large
    omega
  simp [orderOf, differs]

theorem orders_setBufferAddress (b0 b1 : UInt8) (rest : Bytes) (screen : Screen5250) :
    orders (0x11 :: b0 :: b1 :: rest) screen =
      orders rest (screen.setCursor (decodeSba b0 b1).1 (decodeSba b0 b1).2) := by
  have kind : orderOf 0x11 = .setBufferAddress := rfl
  simp [orders, kind]

def insertCursorAt (screen : Screen5250) (address : Nat × Nat) : Screen5250 :=
  (screen.setCursor address.1 address.2).setInputCursor
    (screen.setCursor address.1 address.2).cursorRow
    (screen.setCursor address.1 address.2).cursorCol

theorem orders_insertCursor (b0 b1 display : UInt8) (rest : Bytes) (screen : Screen5250) :
    orders (0x11 :: b0 :: b1 :: 0x1D :: display :: 0x13 :: rest) screen =
      orders rest (insertCursorAt screen (decodeSba b0 b1)) := by
  have field : orderOf 0x1D = .startOfField := rfl
  have cursor : orderOf 0x13 = .insertCursor := rfl
  rw [orders_setBufferAddress]
  simp [orders, field, cursor, insertCursorAt]

theorem orders_characters (bytes rest : Bytes) {start : Nat} (screen : Screen5250)
    (inRange : screen.InRange) (place : screen.position = start % (rows * cols))
    (fits : start + bytes.length ≤ rows * cols) (large : ∀ b ∈ bytes, 0x40 ≤ b.toNat) :
    ∃ next, orders (bytes ++ rest) screen = orders rest next ∧
      Wrote screen next start (bytes.map ebcdicToAscii) := by
  induction bytes generalizing screen start with
  | nil => exact ⟨screen, rfl, Wrote.refl screen _⟩
  | cons b bytes ih =>
    rw [length_cons] at fits
    rw [forall_mem_cons] at large
    rw [Nat.mod_eq_of_lt (by omega)] at place
    obtain ⟨middle, put, middleInRange, wrote, moved⟩ :=
      putChar_spec screen (ebcdicToAscii b) inRange
    rw [place] at wrote moved
    obtain ⟨next, written, others⟩ := ih middle middleInRange moved (by omega) large.2
    refine ⟨next, ?_, wrote.cons others⟩
    rw [cons_append, ← written]
    simp only [orders, orderOf_of_le large.1]
    rw [put]

theorem decodeSba_toNat (row column : UInt8) :
    decodeSba row column = (row.toNat % 64, column.toNat % 64) := by
  simp only [decodeSba, UInt8.toNat_and, Prod.mk.injEq]
  exact ⟨Nat.and_two_pow_sub_one_eq_mod _ 6, Nat.and_two_pow_sub_one_eq_mod _ 6⟩

theorem orders_addressed {row column : UInt8} {bytes : Bytes} (rest : Bytes)
    (screen : Screen5250) (rowInside : row.toNat < rows) (columnInside : column.toNat < 64)
    (fits : row.toNat * cols + column.toNat + bytes.length ≤ rows * cols)
    (large : ∀ b ∈ bytes, 0x40 ≤ b.toNat) :
    ∃ next, orders (0x11 :: row :: column :: (bytes ++ rest)) screen = orders rest next ∧
      Wrote screen next (row.toNat * cols + column.toNat) (bytes.map ebcdicToAscii) := by
  have place : (screen.setCursor row.toNat column.toNat).position =
      (row.toNat * cols + column.toNat) % (rows * cols) := by
    simp only [setCursor, position, rows, cols] at *
    omega
  obtain ⟨next, written, wrote⟩ := orders_characters bytes rest
    (screen.setCursor row.toNat column.toNat) (inRange_setCursor ..) place fits large
  have small : row.toNat < 64 := Nat.lt_trans rowInside (by decide)
  refine ⟨next, ?_, ⟨wrote.shown, wrote.kept, wrote.inputRow, wrote.inputCol⟩⟩
  rw [orders_setBufferAddress, decodeSba_toNat, Nat.mod_eq_of_lt small,
    Nat.mod_eq_of_lt columnInside, written]

/-- The cells show the entries of the table for the CP037 codes, none of which is
the letter or digit that the code stands for. -/
theorem cp037_text_shown_iff {text : Bytes}
    (alphanumeric : ∀ c ∈ text, isAlphanumeric c = true) {row column : UInt8}
    (rowInside : row.toNat < 24) (columnInside : column.toNat < 64)
    (fits : column.toNat + text.length ≤ 80) (screen : Screen5250) :
    ∃ shown, process (0x11 :: 0x11 :: row :: column :: text.map cp037) screen =
        .ok shown ∧ shown.Shows row.toNat column.toNat (text.map fun c => ebcdicToAscii (cp037 c)) ∧
      (shown.Shows row.toNat column.toNat text ↔ text = []) := by
  have room : row.toNat * cols + column.toNat + (text.map cp037).length ≤ rows * cols := by
    rw [length_map, rows, cols]
    omega
  have large : ∀ b ∈ text.map cp037, 0x40 ≤ b.toNat :=
    forall_mem_map.mpr fun c member => (cp037_spec (alphanumeric c member)).1
  obtain ⟨shown, written, wrote⟩ := orders_addressed [] screen rowInside columnInside room large
  rw [map_map] at wrote
  rw [append_nil] at written
  refine ⟨shown, (process_writeToDisplay _ _).trans written, wrote.shown, ?_, ?_⟩
  · intro shows
    cases text with
    | nil => rfl
    | cons c =>
      have own := (shows 0 c rfl).symm.trans (wrote.shown 0 _ rfl)
      exact absurd (Option.some.inj own).symm
        (cp037_spec (alphanumeric c mem_cons_self)).2
  · rintro rfl k c found
    simp at found

theorem cp037_text_shown_iff_letter :
    ∃ shown, process [0x11, 0x11, 5, 10, 0xC1] {} = .ok shown ∧
      shown.Shows 5 10 ['C'.toUInt8] ∧ ¬shown.Shows 5 10 ['A'.toUInt8] := by
  obtain ⟨shown, written, shows, own⟩ :=
    @cp037_text_shown_iff ['A'.toUInt8] (by decide +kernel) 5 10 (by decide) (by decide)
      (by decide) {}
  exact ⟨shown, written, shows, mt own.mp (cons_ne_nil _ _)⟩

theorem cp037_capital_misread :
    ∃ shown, process [0x11, 0x11, 0, 0, 0xC1] {} = .ok shown ∧
      cp037 'A'.toUInt8 = 0xC1 ∧ shown.charAt 0 = some 'C'.toUInt8 ∧
      ¬shown.Shows 0 0 ['A'.toUInt8] := by
  have large : ∀ b ∈ [(0xC1 : UInt8)], 0x40 ≤ b.toNat := by decide +kernel
  obtain ⟨shown, written, wrote⟩ := orders_addressed [] {}
    (by decide : (0 : UInt8).toNat < rows) (by decide : (0 : UInt8).toNat < 64) (by decide) large
  have letter : shown.charAt 0 = some 'C'.toUInt8 := (wrote.shown 0 _ rfl).trans (by decide +kernel)
  refine ⟨shown, (process_writeToDisplay _ _).trans written, by decide, letter, fun shows => ?_⟩
  exact absurd (letter.symm.trans (shows 0 _ rfl)) (by decide)

end Stream5250Parser

end Coroserver.Console
