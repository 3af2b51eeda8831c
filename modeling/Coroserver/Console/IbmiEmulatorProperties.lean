import Coroserver.Console.IbmiEmulator

/-! A typed frame inserts its characters at the cursor, as many as there is room for. -/

namespace Coroserver.Console

open List
namespace IbmiEmulator

def Typing.insert (typing : Typing) (characters : Bytes) : Typing where
  input := typing.input.take typing.cursor ++ (characters ++ typing.input.drop typing.cursor)
  cursor := typing.cursor + characters.length

def typedCharacters (frame : Bytes) : Bytes :=
  (frame.map ebcdicToAscii).filter (· != ' '.toUInt8)

theorem Typing.insert_nil (typing : Typing) : typing.insert [] = typing := by
  simp [Typing.insert]

theorem Typing.insert_cons (typing : Typing) (c : UInt8) (characters : Bytes)
    (inside : typing.cursor ≤ typing.input.length) :
    typing.insert (c :: characters) = (typing.insert [c]).insert characters := by
  obtain ⟨input, cursor⟩ := typing
  have left : (input.take cursor).length = cursor := length_take_of_le inside
  have stop : (input.take cursor ++ [c]).length = cursor + 1 := by
    rw [length_append, left, length_singleton]
  simp only [Typing.insert, Typing.mk.injEq, length_cons, length_nil]
  refine ⟨?_, by omega⟩
  rw [← append_assoc (input.take cursor) [c], take_left' stop, drop_left' stop]
  simp

theorem Typing.length_insert (typing : Typing) (characters : Bytes) :
    (typing.insert characters).input.length = typing.input.length + characters.length := by
  simp only [Typing.insert, length_append, length_take, length_drop]
  omega

theorem foldl_byte (frame : Bytes) (typing : Typing)
    (inside : typing.cursor ≤ typing.input.length) :
    frame.foldl Typing.byte typing =
      typing.insert ((typedCharacters frame).take (maxInputLength - typing.input.length)) := by
  induction frame generalizing typing with
  | nil => simp [typedCharacters, Typing.insert_nil]
  | cons byte rest ih =>
    rw [foldl_cons]
    by_cases space : ebcdicToAscii byte = ' '.toUInt8
    · have skipped : typing.byte byte = typing := by simp [Typing.byte, space]
      have same : typedCharacters (byte :: rest) = typedCharacters rest := by
        simp [typedCharacters, space]
      rw [skipped, ih typing inside, same]
    · have more : typedCharacters (byte :: rest) = ebcdicToAscii byte :: typedCharacters rest := by
        simp [typedCharacters, space]
      by_cases room : typing.input.length < maxInputLength
      · have inserted : typing.byte byte = typing.insert [ebcdicToAscii byte] := by
          simp [Typing.byte, space, room, Typing.insert]
        have length := typing.length_insert [ebcdicToAscii byte]
        rw [length_singleton] at length
        have insideNext : (typing.insert [ebcdicToAscii byte]).cursor ≤
            (typing.insert [ebcdicToAscii byte]).input.length := by
          rw [length]
          exact Nat.succ_le_succ inside
        obtain ⟨left, leftEq⟩ : ∃ left, maxInputLength - typing.input.length = left + 1 :=
          ⟨maxInputLength - typing.input.length - 1, by omega⟩
        have leftNext : maxInputLength - (typing.insert [ebcdicToAscii byte]).input.length =
            left := by omega
        rw [inserted, ih _ insideNext, more, leftEq, leftNext, take_succ_cons,
          ← Typing.insert_cons typing _ _ inside]
      · have full : maxInputLength - typing.input.length = 0 := by omega
        have kept : typing.byte byte = typing := by simp [Typing.byte, room]
        rw [kept, ih typing inside, full, take_zero, take_zero]

structure WellFormed (emulator : IbmiEmulator) : Prop where
  cursor : emulator.inputCursor ≤ (emulator.text emulator.activeField).length
  lengths : ∀ field, (emulator.text field).length ≤ maxInputLength
  field : emulator.screen = .menu ↔ emulator.field = .selection
  characters : ∀ field, ∀ c ∈ emulator.text field, c ∈ kEbcdicToAsciiTable
  status : emulator.status.length ≤ 80

theorem wellFormed_initial : WellFormed {} where
  cursor := Nat.zero_le _
  lengths field := by cases field <;> exact Nat.zero_le _
  field := by simp
  characters field c member := by cases field <;> cases member
  status := by decide +kernel

section

variable {emulator : IbmiEmulator}

@[simp]
theorem text_setText (field other : Field) (text : Bytes) :
    (emulator.setText field text).text other =
      if other = field then text else emulator.text other := by
  cases field <;> cases other <;> rfl

@[simp]
theorem activeField_setText (field : Field) (text : Bytes) :
    (emulator.setText field text).activeField = emulator.activeField := by
  cases field <;> rfl

theorem setText_screen (emulator : IbmiEmulator) (field : Field) (text : Bytes) :
    (emulator.setText field text).screen = emulator.screen ∧
      (emulator.setText field text).field = emulator.field ∧
      (emulator.setText field text).status = emulator.status := by
  cases field <;> exact ⟨rfl, rfl, rfl⟩

theorem WellFormed.edit (wellFormed : emulator.WellFormed) (typing : Typing)
    (inside : typing.cursor ≤ typing.input.length) (limited : typing.input.length ≤ maxInputLength)
    (listed : ∀ c ∈ typing.input, c ∈ kEbcdicToAsciiTable) :
    WellFormed { emulator.setText emulator.activeField typing.input with
      inputCursor := typing.cursor } := by
  obtain ⟨screen, field, status⟩ := setText_screen emulator emulator.activeField typing.input
  have texts : ∀ other, text { emulator.setText emulator.activeField typing.input with
        inputCursor := typing.cursor } other =
        if other = emulator.activeField then typing.input else emulator.text other :=
    fun other => text_setText emulator.activeField other typing.input
  have active : activeField { emulator.setText emulator.activeField typing.input with
      inputCursor := typing.cursor } = emulator.activeField :=
    activeField_setText emulator.activeField typing.input
  constructor
  · rw [active, texts, if_pos rfl]
    exact inside
  · intro other
    rw [texts]
    split
    · exact limited
    · exact wellFormed.lengths other
  · exact screen ▸ field ▸ wellFormed.field
  · intro other c
    rw [texts]
    split
    · exact listed c
    · exact wellFormed.characters other c
  · exact status ▸ wellFormed.status

theorem ascii_short (text : String) (short : text.length ≤ 80) :
    (ascii text).length ≤ 80 := by
  rwa [ascii, length_map, String.length_toList]

section

variable (wellFormed : emulator.WellFormed)

include wellFormed

theorem WellFormed.change {next : IbmiEmulator}
    (texts : ∀ field, next.text field = emulator.text field ∨ next.text field = [])
    (cursor : next.inputCursor ≤ (next.text next.activeField).length)
    (field : next.screen = .menu ↔ next.field = .selection) (status : next.status.length ≤ 80) :
    next.WellFormed where
  cursor := cursor
  lengths other := by
    obtain same | emptied := texts other
    · exact same ▸ wellFormed.lengths other
    · rw [emptied]
      exact Nat.zero_le _
  field := field
  characters other := by
    obtain same | emptied := texts other
    · exact same ▸ wellFormed.characters other
    · simp [emptied]
  status := status

theorem WellFormed.onEnter : emulator.onEnter.WellFormed := by
  unfold IbmiEmulator.onEnter
  split
  · next signOn =>
      split
      · refine wellFormed.change ?_ ?_ ?_ (ascii_short _ (by decide +kernel))
        · exact fun field => .inl (by cases field <;> rfl)
        · simp [activeField, signOn, text]
        · simp [signOn]
      · split
        · refine wellFormed.change ?_ (Nat.zero_le _) ?_ (ascii_short _ (by decide +kernel))
          · exact fun field => .inl (by cases field <;> rfl)
          · simp
        · refine wellFormed.change ?_ (Nat.zero_le _) wellFormed.field
            (ascii_short _ (by decide +kernel))
          intro field
          cases field with
          | password => exact .inr rfl
          | user | selection => exact .inl rfl
  · split
    · refine wellFormed.change ?_ (Nat.zero_le _) wellFormed.field ?_
      · intro field
        cases field with
        | selection => exact .inr rfl
        | user | password => exact .inl rfl
      · have limited := wellFormed.lengths .selection
        have before : (ascii "Option ").length = 7 := by decide
        have behind : (ascii " selected.").length = 10 := by decide
        simp only [text, maxInputLength] at limited
        simp only [length_append]
        omega
    · refine wellFormed.change ?_ wellFormed.cursor wellFormed.field
        (ascii_short _ (by decide +kernel))
      exact fun field => .inl (by cases field <;> rfl)

theorem WellFormed.onClear : emulator.onClear.WellFormed := by
  unfold IbmiEmulator.onClear
  split
  · refine wellFormed.change ?_ (Nat.zero_le _) (by simp) (ascii_short _ (by decide +kernel))
    exact fun field => .inr (by cases field <;> rfl)
  · next signOn =>
      refine wellFormed.change ?_ (Nat.zero_le _) (by simp [signOn])
        (ascii_short _ (by decide +kernel))
      intro field
      cases field with
      | selection => exact .inl rfl
      | user | password => exact .inr rfl

theorem WellFormed.onBackspace : emulator.onBackspace.WellFormed := by
  unfold IbmiEmulator.onBackspace
  split
  · have inside := wellFormed.cursor
    have limited := wellFormed.lengths emulator.activeField
    refine wellFormed.edit ⟨(emulator.text emulator.activeField).take (emulator.inputCursor - 1) ++
        (emulator.text emulator.activeField).drop emulator.inputCursor,
        emulator.inputCursor - 1⟩ ?_ ?_ ?_
    · simp only [length_append, length_take, length_drop]
      omega
    · simp only [length_append, length_take, length_drop]
      omega
    · exact forall_mem_append.mpr
        ⟨fun c before => wellFormed.characters _ c (mem_of_mem_take before),
          fun c behind => wellFormed.characters _ c (mem_of_mem_drop behind)⟩
  · exact wellFormed

theorem WellFormed.moveCursor {cursor : Nat}
    (inside : cursor ≤ (emulator.text emulator.activeField).length) :
    WellFormed { emulator with inputCursor := cursor } :=
  wellFormed.change (fun field => .inl (by cases field <;> rfl)) inside wellFormed.field
    wellFormed.status

theorem WellFormed.onChangeField : emulator.onChangeField.WellFormed := by
  unfold IbmiEmulator.onChangeField
  split
  · next signOn =>
      split
      all_goals
        refine wellFormed.change (fun field => .inl (by cases field <;> rfl)) ?_ ?_
          wellFormed.status
        · simp [activeField, signOn, text]
        · simp [signOn]
  · exact wellFormed

theorem WellFormed.onTyped (frame : Bytes) : (emulator.onTyped frame).WellFormed := by
  have inside := wellFormed.cursor
  have limited := wellFormed.lengths emulator.activeField
  have typed := foldl_byte frame ⟨emulator.text emulator.activeField, emulator.inputCursor⟩ inside
  unfold IbmiEmulator.onTyped
  simp only [typed]
  apply wellFormed.edit
  · simp only [Typing.length_insert]
    exact Nat.add_le_add inside (Nat.le_refl _)
  · simp only [Typing.length_insert, length_take]
    omega
  · intro c member
    simp only [Typing.insert, mem_append] at member
    obtain before | new | behind := member
    · exact wellFormed.characters _ c (mem_of_mem_take before)
    · have listed := mem_of_mem_take new
      simp only [typedCharacters, mem_filter, mem_map] at listed
      obtain ⟨⟨byte, _, rfl⟩, _⟩ := listed
      exact ebcdicToAscii_mem byte
    · exact wellFormed.characters _ c (mem_of_mem_drop behind)

theorem WellFormed.processFrame (frame : Bytes) :
    (emulator.processFrame frame).WellFormed := by
  unfold IbmiEmulator.processFrame
  split
  · exact wellFormed
  · split
    · exact wellFormed.onEnter
    · exact wellFormed.change (fun field => .inl (by cases field <;> rfl)) wellFormed.cursor
        wellFormed.field wellFormed.status
    · exact wellFormed.onClear
    · exact wellFormed.onBackspace
    · unfold IbmiEmulator.onRight
      split
      · exact wellFormed.moveCursor (by omega)
      · exact wellFormed
    · unfold IbmiEmulator.onLeft
      split
      · have inside := wellFormed.cursor
        exact wellFormed.moveCursor (by omega)
      · exact wellFormed
    · exact wellFormed.onChangeField
    · exact wellFormed.onTyped _

end

theorem WellFormed.processFrames (frames : List Bytes) (wellFormed : emulator.WellFormed) :
    (frames.foldl IbmiEmulator.processFrame emulator).WellFormed := by
  induction frames generalizing emulator with
  | nil => exact wellFormed
  | cons frame rest ih => exact ih (wellFormed.processFrame frame)

theorem WellFormed.processed (wellFormed : emulator.WellFormed) (input : Bytes) :
    (emulator.processed input).WellFormed := by
  apply WellFormed.processFrames
  exact wellFormed.change (fun field => .inl (by cases field <;> rfl)) wellFormed.cursor
    wellFormed.field wellFormed.status

theorem WellFormed.processAll (inputs : List Bytes) (wellFormed : emulator.WellFormed) :
    (emulator.processAll inputs).1.WellFormed ∧
      (emulator.processAll inputs).2 = (emulator.processAll inputs).1.makeDisplay := by
  refine List.foldlRecOn (motive := fun reached : IbmiEmulator × Bytes =>
    reached.1.WellFormed ∧ reached.2 = reached.1.makeDisplay) _ _ ⟨wellFormed, rfl⟩ ?_
  exact fun reached kept input _ => ⟨kept.1.processed input, rfl⟩

end

structure Guarded (before after : IbmiEmulator) : Prop where
  menu : (before.screen = .menu → before.user = validUser ∧ before.password = validPassword) →
    after.screen = .menu → after.user = validUser ∧ after.password = validPassword
  closed : before.closed = true → after.closed = true

section

variable (emulator : IbmiEmulator)

theorem guarded_edit (typing : Typing) :
    emulator.Guarded { emulator.setText emulator.activeField typing.input with
      inputCursor := typing.cursor } := by
  cases shown : emulator.screen with
  | signOn =>
    by_cases inUser : emulator.field = .user <;>
      exact ⟨fun _ => by simp [activeField, shown, inUser, setText],
        fun closed => by simpa [activeField, shown, inUser, setText] using closed⟩
  | menu =>
    simp only [activeField, shown, setText]
    exact ⟨fun signedOn _ => signedOn shown, id⟩

private theorem guarded_onEnter : emulator.Guarded emulator.onEnter := by
  unfold onEnter
  split
  · split
    · exact ⟨fun signedOn => signedOn, id⟩
    · split
      · next accepted =>
          exact ⟨fun _ _ => by simpa using accepted, id⟩
      · next signOn _ _ => exact ⟨fun _ menu => by simp [signOn] at menu, id⟩
  · split <;> exact ⟨fun signedOn => signedOn, id⟩

theorem guarded_processFrame (frame : Bytes) :
    emulator.Guarded (emulator.processFrame frame) := by
  have kept : ∀ field cursor,
      emulator.Guarded { emulator with field, inputCursor := cursor } :=
    fun _ _ => ⟨fun signedOn => signedOn, id⟩
  unfold processFrame
  split
  · exact kept _ _
  · split
    · exact emulator.guarded_onEnter
    · exact ⟨fun signedOn => signedOn, fun _ => rfl⟩
    · unfold onClear
      split
      · exact ⟨fun _ => nofun, id⟩
      · next signOn => exact ⟨fun _ menu => by simp [signOn] at menu, id⟩
    · unfold onBackspace
      split
      · exact emulator.guarded_edit ⟨_, _⟩
      · exact kept _ _
    · unfold onRight
      split <;> exact kept _ _
    · unfold onLeft
      split <;> exact kept _ _
    · unfold onChangeField
      split
      · split <;> exact kept _ _
      · exact kept _ _
    · exact emulator.guarded_edit _

theorem Guarded.trans {first second third : IbmiEmulator} (earlier : first.Guarded second)
    (later : second.Guarded third) : first.Guarded third :=
  ⟨fun signedOn => later.menu (earlier.menu signedOn), later.closed ∘ earlier.closed⟩

theorem guarded_processed (input : Bytes) : emulator.Guarded (emulator.processed input) := by
  refine List.foldlRecOn (motive := emulator.Guarded) _ _ ⟨fun signedOn => signedOn, id⟩ ?_
  exact fun reached before frame _ => before.trans (reached.guarded_processFrame frame)

end

def reached (inputs : List Bytes) : IbmiEmulator :=
  (({} : IbmiEmulator).processAll inputs).1

private theorem guarded_reached (inputs more : List Bytes) :
    (reached inputs).Guarded (reached (inputs ++ more)) := by
  have split : reached (inputs ++ more) =
      (more.foldl (fun reached input => reached.1.process input) (processAll {} inputs)).1 := by
    rw [reached, processAll, processAll, foldl_append]
  rw [split]
  refine List.foldlRecOn (motive := fun next : IbmiEmulator × Bytes =>
    (reached inputs).Guarded next.1) _ _ ⟨id, id⟩ ?_
  exact fun next before input _ => before.trans (next.1.guarded_processed input)

/-- Whatever bytes arrive, the cursor stays inside the active field, the fields within their limit
and the menu with the selection field. -/
theorem reached_invariant (inputs more : List Bytes) :
    (reached inputs).inputCursor ≤ ((reached inputs).text (reached inputs).activeField).length ∧
      (∀ field, ((reached inputs).text field).length ≤ 20) ∧ ((reached inputs).screen = .menu →
        (reached inputs).user = ascii "DEMO" ∧ (reached inputs).password = ascii "PASSWORD") ∧
      ((reached inputs).closed = true → (reached (inputs ++ more)).closed = true) := by
  obtain ⟨wellFormed, -⟩ := wellFormed_initial.processAll inputs
  exact ⟨wellFormed.cursor, wellFormed.lengths, (guarded_reached [] inputs).menu nofun,
    (guarded_reached inputs more).closed⟩

end IbmiEmulator

end Coroserver.Console
