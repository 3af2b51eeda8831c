import Coroserver.Console.IbmiEmulatorProperties
import Coroserver.Console.Screen5250Properties

/-! The display of the emulator, followed through the framer and the parser of
`ibmi_console_client`: the active field is shown where the emulator put it,
but the address of the input cursor loses all but its six low bits. -/

namespace Coroserver.Console

open Screen5250 Stream5250Parser List

def receive (framer : VSlipFramer) (bytes : Bytes) (screen : Screen5250) :
    Except Fault Screen5250 :=
  (framer.feed bytes []).out.foldlM (fun shown frame => Stream5250Parser.process frame shown) screen

namespace IbmiEmulator

namespace TextAt

def start (write : TextAt) : Nat := write.row.toNat * cols + write.column.toNat

structure Fits (write : TextAt) : Prop where
  row : write.row.toNat < rows
  column : write.column.toNat < 64
  text : write.start + write.text.length < rows * cols

end TextAt

theorem orders_writeText (write : TextAt) (fits : write.Fits) (rest : Bytes) (screen : Screen5250) :
    ∃ next, orders (writeText write ++ rest) screen = orders rest next ∧
      Wrote screen next write.start (write.text.map shownAs) := by
  have large : ∀ b ∈ write.text.map asciiToEbcdic, 0x40 ≤ b.toNat := by
    simp [le_asciiToEbcdic]
  have room := Nat.le_of_lt fits.text
  rw [← length_map asciiToEbcdic] at room
  obtain ⟨next, written, wrote⟩ := orders_addressed rest screen fits.row fits.column room large
  rw [map_map] at wrote
  exact ⟨next, written, wrote⟩

private theorem orders_texts (writes : List TextAt) (limit : Nat) (rest : Bytes)
    (screen : Screen5250) (fit : ∀ write ∈ writes, write.Fits)
    (behind : ∀ write ∈ writes, limit ≤ write.start) :
    ∃ next, orders (writes.flatMap writeText ++ rest) screen = orders rest next ∧
      ∀ p < limit, next.charAt p = screen.charAt p := by
  induction writes generalizing screen with
  | nil => exact ⟨screen, rfl, fun _ _ => rfl⟩
  | cons write others ih =>
    rw [forall_mem_cons] at fit behind
    obtain ⟨middle, first, wrote⟩ :=
      orders_writeText write fit.1 (others.flatMap writeText ++ rest) screen
    obtain ⟨next, second, kept⟩ := ih middle fit.2 behind.2
    refine ⟨next, ?_, fun p before => ?_⟩
    · rw [flatMap_cons, append_assoc, first, second]
    · have outside : p < write.start := Nat.lt_of_lt_of_le before behind.1
      rw [kept p before, wrote.kept p (.inl outside)]

theorem orders_texts_shows (earlier later : List TextAt) (write : TextAt) (rest : Bytes)
    (screen : Screen5250) (fit : ∀ other ∈ earlier ++ write :: later, other.Fits)
    (behind : ∀ other ∈ later, write.start + write.text.length ≤ other.start) :
    ∃ next, orders ((earlier ++ write :: later).flatMap writeText ++ rest) screen =
        orders rest next ∧
      next.Shows write.row.toNat write.column.toNat (write.text.map shownAs) := by
  have fitEarlier := fun other member => fit other (mem_append_left _ member)
  have fitWrite := fit write (by simp)
  have fitLater := fun other member => fit other (mem_append_right _ (.tail _ member))
  obtain ⟨before, first, _⟩ := orders_texts earlier 0
    (writeText write ++ (later.flatMap writeText ++ rest)) screen fitEarlier
    (fun _ _ => Nat.zero_le _)
  obtain ⟨middle, second, wrote⟩ :=
    orders_writeText write fitWrite (later.flatMap writeText ++ rest) before
  obtain ⟨next, third, kept⟩ := orders_texts later (write.start + write.text.length) rest middle
    fitLater behind
  refine ⟨next, ?_, fun k c found => ?_⟩
  · rw [flatMap_append, flatMap_cons, append_assoc, append_assoc, first,
      second, third]
  · have inside : k < write.text.length := by
      have bound := (List.getElem?_eq_some_iff.mp found).1
      simpa using bound
    exact (kept _ (Nat.add_lt_add_left inside _)).trans (wrote.shown k c found)

def fieldRow : Field → Nat
  | .user => 7
  | .password => 9
  | .selection => 14

def fieldDisplay (emulator : IbmiEmulator) : Field → Bytes
  | .user => emulator.user
  | .password => replicate emulator.password.length '*'.toUInt8
  | .selection => emulator.selection

structure ShowsActiveField (emulator : IbmiEmulator) (shown : Screen5250) : Prop where
  inputRow : shown.inputRow = fieldRow emulator.activeField
  inputCol : shown.inputCol = 56 + emulator.inputCursor
  text : shown.Shows (fieldRow emulator.activeField) 56
    (emulator.fieldDisplay emulator.activeField)

section

variable {emulator : IbmiEmulator}

theorem TextAt.fits_of_short {row column : UInt8} {text : Bytes} (rowInside : row.toNat ≤ 22)
    (columnInside : column.toNat < 64) (short : text.length ≤ 80) : Fits ⟨row, column, text⟩ where
  row := Nat.lt_of_le_of_lt rowInside (by decide)
  column := columnInside
  text := by
    simp only [TextAt.start, rows, cols]
    omega

theorem process_record (earlier later : List TextAt) (write : TextAt) (row column : UInt8)
    (screen : Screen5250) (fit : ∀ other ∈ earlier ++ write :: later, other.Fits)
    (behind : ∀ other ∈ later, write.start + write.text.length ≤ other.start)
    (inside : row.toNat < rows) :
    ∃ shown,
      Stream5250Parser.process
          (0x11 :: ((earlier ++ write :: later).flatMap writeText ++ setInputCursor row column))
          screen = .ok shown ∧ shown.inputRow = row.toNat ∧ shown.inputCol = column.toNat % 64 ∧
        shown.Shows write.row.toNat write.column.toNat (write.text.map shownAs) := by
  obtain ⟨next, applied, shows⟩ := orders_texts_shows earlier later write
    (setInputCursor row column) screen fit behind
  rw [setInputCursor, orders_insertCursor, decodeSba_toNat] at applied
  refine ⟨insertCursorAt next (row.toNat % 64, column.toNat % 64), ?_, ?_, ?_, shows⟩
  · rw [process_writeToDisplay, setInputCursor, applied, orders]
  · simp only [insertCursorAt, Screen5250.setInputCursor, setCursor, rows] at *
    omega
  · simp only [insertCursorAt, Screen5250.setInputCursor, setCursor, cols]
    omega

theorem receive_makeDisplay (running : emulator.closed = false) (screen : Screen5250) :
    receive .fresh emulator.makeDisplay screen =
      Stream5250Parser.process emulator.displayRecord screen.clear := by
  obtain ⟨rest, record⟩ : ∃ rest, emulator.displayRecord = 0x11 :: rest := by
    unfold displayRecord
    split <;> exact ⟨_, rfl⟩
  have output : emulator.makeDisplay = [[0x40], emulator.displayRecord].flatMap VSlip.encode := by
    simp [makeDisplay, running]
  have frames : (VSlipFramer.fresh.feed emulator.makeDisplay []).out =
      [[0x40], emulator.displayRecord] := by
    rw [output, VSlipFramer.feed_encode_all, VSlipFramer.flatMap_framesOf]
    simp [record]
  have cleared : Stream5250Parser.process [0x40] screen = .ok screen.clear := rfl
  simp only [receive, frames, foldlM_cons, foldlM_nil, cleared, bind, Except.bind, pure,
    Except.pure]
  cases Stream5250Parser.process emulator.displayRecord screen.clear <;> rfl

variable (wellFormed : emulator.WellFormed)

include wellFormed

theorem map_shownAs_fieldDisplay (field : Field) :
    (emulator.fieldDisplay field).map shownAs = emulator.fieldDisplay field := by
  have listed : ∀ c ∈ emulator.fieldDisplay field, c ∈ kEbcdicToAsciiTable := by
    cases field with
    | user => exact wellFormed.characters .user
    | password =>
      intro c member
      rw [eq_of_mem_replicate member]
      decide +kernel
    | selection => exact wellFormed.characters .selection
  conv_rhs => rw [← map_id (emulator.fieldDisplay field)]
  exact map_congr_left fun c member => ebcdicToAscii_asciiToEbcdic (listed c member)

theorem signOnTexts_fit : ∀ write ∈ emulator.signOnTexts, write.Fits := by
  have user := wellFormed.lengths .user
  have password := wellFormed.lengths .password
  simp only [text, maxInputLength] at user password
  simp only [signOnTexts, forall_mem_cons, not_mem_nil, false_implies, implies_true,
    and_true]
  refine ⟨?_, ?_, ?_, ?_, ?_, ?_, ?_, ?_, ?_, ?_⟩
  case refine_5 => exact TextAt.fits_of_short (by decide) (by decide) (by omega)
  case refine_7 =>
    exact TextAt.fits_of_short (by decide) (by decide) (by rw [length_replicate]; omega)
  case refine_8 => exact TextAt.fits_of_short (by decide) (by decide) wellFormed.status
  all_goals exact TextAt.fits_of_short (by decide) (by decide) (by decide +kernel)

private theorem menuTexts_fit : ∀ write ∈ emulator.menuTexts, write.Fits := by
  have selection := wellFormed.lengths .selection
  simp only [text, maxInputLength] at selection
  simp only [menuTexts, forall_mem_cons, not_mem_nil, false_implies, implies_true,
    and_true]
  refine ⟨?_, ?_, ?_, ?_, ?_, ?_, ?_, ?_, ?_, ?_⟩
  case refine_7 => exact TextAt.fits_of_short (by decide) (by decide) (by omega)
  case refine_8 => exact TextAt.fits_of_short (by decide) (by decide) wellFormed.status
  all_goals exact TextAt.fits_of_short (by decide) (by decide) (by decide +kernel)

private theorem process_displayRecord (screen : Screen5250) :
    ∃ shown, Stream5250Parser.process emulator.displayRecord screen = .ok shown ∧
      shown.inputRow = fieldRow emulator.activeField ∧
      shown.inputCol = (56 + emulator.inputCursor) % 64 ∧
      shown.Shows (fieldRow emulator.activeField) 56
        (emulator.fieldDisplay emulator.activeField) := by
  have cursor := wellFormed.cursor
  have limits := wellFormed.lengths
  simp only [maxInputLength] at limits
  have limited := limits emulator.activeField
  have column : (UInt8.ofNat (56 + emulator.inputCursor)).toNat = 56 + emulator.inputCursor :=
    UInt8.toNat_ofNat_of_lt' (by show _ < 256; omega)
  rw [← map_shownAs_fieldDisplay wellFormed, ← column]
  cases screenKind : emulator.screen with
  | signOn =>
    have fit := signOnTexts_fit wellFormed
    simp only [displayRecord, screenKind, activeField]
    have user := limits .user
    have password := limits .password
    simp only [text] at user password
    by_cases field : emulator.field = .user
    · simp only [field, if_true, fieldRow]
      refine process_record (emulator.signOnTexts.take 4) (emulator.signOnTexts.drop 5)
        ⟨7, 56, emulator.user⟩ 7 _ screen fit ?_ (by decide)
      simp only [signOnTexts, drop_succ_cons, drop_zero, forall_mem_cons,
        not_mem_nil, false_implies, implies_true, and_true, TextAt.start]
      refine ⟨?_, ?_, ?_, ?_, ?_⟩ <;> simp [cols] <;> omega
    · simp only [field, if_false, fieldRow]
      refine process_record (emulator.signOnTexts.take 6) (emulator.signOnTexts.drop 7)
        ⟨9, 56, replicate emulator.password.length '*'.toUInt8⟩ 9 _ screen fit ?_
        (by decide)
      simp only [signOnTexts, drop_succ_cons, drop_zero, forall_mem_cons,
        not_mem_nil, false_implies, implies_true, and_true, TextAt.start,
        length_replicate]
      refine ⟨?_, ?_, ?_⟩ <;> simp [cols] <;> omega
  | menu =>
    have fit := menuTexts_fit wellFormed
    simp only [displayRecord, screenKind, activeField]
    have selection := limits .selection
    simp only [text] at selection
    refine process_record (emulator.menuTexts.take 6) (emulator.menuTexts.drop 7)
      ⟨14, 56, emulator.selection⟩ 14 _ screen fit ?_ (by decide)
    simp only [menuTexts, drop_succ_cons, drop_zero, forall_mem_cons,
      not_mem_nil, false_implies, implies_true, and_true, TextAt.start]
    refine ⟨?_, ?_, ?_⟩ <;> simp [cols] <;> omega

theorem exists_showsActiveField_iff (running : emulator.closed = false) (screen : Screen5250) :
    (∃ shown, receive .fresh emulator.makeDisplay screen = .ok shown ∧
      emulator.ShowsActiveField shown) ↔ emulator.inputCursor < 8 := by
  have cursor := wellFormed.cursor
  have limited := wellFormed.lengths emulator.activeField
  simp only [maxInputLength] at limited
  obtain ⟨shown, parsed, row, column, text⟩ := process_displayRecord wellFormed screen.clear
  rw [← receive_makeDisplay running] at parsed
  constructor
  · rintro ⟨other, received, shows⟩
    obtain rfl : shown = other := Except.ok.inj (parsed.symm.trans received)
    have same := column.symm.trans shows.inputCol
    omega
  · intro small
    refine ⟨shown, parsed, row, ?_, text⟩
    rw [column]
    omega

end

/-- A client that receives the last output shows the active field with the input
cursor in it exactly when fewer than eight characters stand before the cursor. -/
theorem display_shows_active_field_iff (inputs : List Bytes) (screen : Screen5250)
    (running : (processAll {} inputs).1.closed = false) :
    (∃ shown, receive .fresh (processAll {} inputs).2 screen = .ok shown ∧
      (processAll {} inputs).1.ShowsActiveField shown) ↔
      (processAll {} inputs).1.inputCursor < 8 := by
  obtain ⟨wellFormed, output⟩ := WellFormed.processAll inputs wellFormed_initial
  rw [output]
  exact exists_showsActiveField_iff wellFormed running screen

def typedUser (name : String) : Bytes := VSlip.encode ((ascii name).map asciiToEbcdic)

theorem display_shows_typed_user :
    ∃ shown, receive .fresh (processAll {} [typedUser "DEMO"]).2 {} = .ok shown ∧
      (processAll {} [typedUser "DEMO"]).1.ShowsActiveField shown := by
  have state : (processAll {} [typedUser "DEMO"]).1.closed = false ∧
      (processAll {} [typedUser "DEMO"]).1.inputCursor < 8 := by decide +kernel
  exact (display_shows_active_field_iff [typedUser "DEMO"] {} state.1).mpr state.2

theorem display_misplaces_cursor :
    (processAll {} [typedUser "DEMOUSER"]).1.closed = false ∧
      ¬∃ shown, receive .fresh (processAll {} [typedUser "DEMOUSER"]).2 {} = .ok shown ∧
        (processAll {} [typedUser "DEMOUSER"]).1.ShowsActiveField shown := by
  have state : (processAll {} [typedUser "DEMOUSER"]).1.closed = false ∧
      ¬(processAll {} [typedUser "DEMOUSER"]).1.inputCursor < 8 := by decide +kernel
  obtain ⟨wellFormed, output⟩ := WellFormed.processAll [typedUser "DEMOUSER"] wellFormed_initial
  refine ⟨state.1, fun shows => state.2 ?_⟩
  rw [output] at shows
  exact (exists_showsActiveField_iff wellFormed state.1 {}).mp shows

end IbmiEmulator

end Coroserver.Console
