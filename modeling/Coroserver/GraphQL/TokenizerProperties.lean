import Coroserver.GraphQL.Printing

/-! The tokenizer takes the text of a lexeme, with the ignored text before it, off a
printed document and leaves the text of the lexemes that follow. -/

namespace Coroserver.GraphQL

open Tokenizer

def StartsToken : Text → Prop
  | [] => True
  | byte :: _ => isSpace byte = false ∧ byte ≠ 44 ∧ byte ≠ 35

variable {text body rest : Text} {byte : UInt8} {lexeme : Lexeme}

theorem startsName_iff : startsName byte = true ↔ IsNameStart byte := by
  simp [startsName, isAlpha, IsNameStart, or_comm]

theorem isDigit_iff : isDigit byte = true ↔ IsDecimal byte := by
  simp [isDigit, IsDecimal]

theorem IsNameStart.startsName (starts : IsNameStart byte) : startsName byte = true :=
  startsName_iff.mpr starts

theorem continuesName_iff : continuesName byte = true ↔ IsNameStart byte ∨ IsDecimal byte := by
  rw [continuesName, Bool.or_eq_true, startsName_iff, isDigit_iff]

theorem isSpace_or_comma_iff :
    isSpace byte = true ∨ byte = 44 ↔ byte ∈ [9, 10, 11, 12, 13, 32, 44] := by
  simp only [isSpace, List.mem_cons, List.not_mem_nil]
  grind

theorem unescape_of_mem {letter : UInt8} (known : (letter, byte) ∈ simpleEscapes) :
    byte = unescape letter := by
  have table : ∀ entry ∈ simpleEscapes, entry.2 = unescape entry.1 := by
    simp [simpleEscapes, unescape]
  exact table (letter, byte) known

theorem punctuator?_of_mem {type : TokenType} (known : (type, [byte]) ∈ Lexeme.punctuators) :
    punctuator? byte = some type ∧ byte ≠ 44 := by
  simp only [Lexeme.punctuators, List.mem_cons, List.not_mem_nil, or_false] at known
  rcases known with same | same | same | same | same | same | same | same | same | same | same <;>
    cases same <;> decide

theorem StartsToken.ignoredLength_eq (starts : StartsToken text) :
    ignoredLength false text = 0 := by
  cases text with
  | nil => rfl
  | cons =>
    obtain ⟨notSpace, notComma, notComment⟩ := starts
    simp [ignoredLength, notSpace, notComma, notComment]

theorem ignoredLength_comment {ending : UInt8} (inside : ∀ byte ∈ body, byte ≠ 10 ∧ byte ≠ 13)
    (ends : ending = 10 ∨ ending = 13) :
    ignoredLength true (body ++ ending :: rest) =
      body.length + (ignoredLength false rest + 1) := by
  induction body with
  | nil =>
    rcases ends with rfl | rfl <;> simp [ignoredLength, isLineBreak, isSpace]
  | cons byte body ih =>
    have notBreak : isLineBreak byte = false := by simp [isLineBreak, inside byte]
    have others := ih fun byte member => inside byte (List.mem_cons_of_mem _ member)
    simp only [List.cons_append, ignoredLength, notBreak, others]
    simp only [Bool.not_false, Bool.and_self, if_true, List.length_cons]
    omega

theorem Ignored.ignoredLength_append {ignored : Text} (separator : Ignored ignored)
    (starts : StartsToken text) : ignoredLength false (ignored ++ text) = ignored.length := by
  induction separator with
  | nil => exact starts.ignoredLength_eq
  | @blank byte rest blank _ ih =>
    have skipped : (isSpace byte || decide (byte = 44)) = true := by
      simpa using isSpace_or_comma_iff.mpr blank
    simp [ignoredLength, skipped, ih]
  | @comment body rest ending inside ends _ ih =>
    have start : ignoredLength false (35 :: (body ++ ending :: rest) ++ text) =
        ignoredLength true (body ++ ending :: (rest ++ text)) + 1 := by
      simp [ignoredLength, isSpace]
    rw [start, ignoredLength_comment inside ends, ih]
    simp

theorem Ignored.head (separator : Ignored (byte :: rest)) :
    isSpace byte = true ∨ byte = 44 ∨ byte = 35 := by
  cases separator with
  | blank blank _ => exact (isSpace_or_comma_iff.mpr blank).imp_right .inl
  | comment => exact .inr (.inr rfl)

theorem skipIgnored_append {ignored text : Text} {position : Nat} (separator : Ignored ignored)
    (starts : StartsToken text) :
    skipIgnored ⟨ignored ++ text, position⟩ = ⟨text, position + ignored.length⟩ := by
  unfold skipIgnored skip
  dsimp only
  rw [separator.ignoredLength_append starts, List.drop_left]

def Breaks (text : Text) : Prop :=
  (∀ byte ∈ text.head?, continuesName byte = false) ∧ fractionLength text = 0

theorem takeWhile_append_of_break {keep : UInt8 → Bool} (kept : ∀ byte ∈ body, keep byte = true)
    (breaks : ∀ byte ∈ text.head?, keep byte = false) : (body ++ text).takeWhile keep = body := by
  rw [List.takeWhile_append_of_pos kept]
  cases text with
  | nil => simp
  | cons byte => simp [breaks byte rfl]

theorem take_append (type : TokenType) (body text : Text) (position : Nat) :
    take ⟨body ++ text, position⟩ type body.length =
      (⟨type, body, position⟩, ⟨text, position + body.length⟩) := by
  simp [take, skip]

theorem readName_append {name text : Text} {position : Nat} (named : IsName name)
    (breaks : Breaks text) :
    readName ⟨name ++ text, position⟩ =
      (⟨.name, name, position⟩, ⟨text, position + name.length⟩) := by
  have kept : ∀ byte ∈ name, continuesName byte = true := by
    cases name with
    | nil => cases named
    | cons =>
      intro byte member
      rcases List.mem_cons.mp member with rfl | later
      · exact continuesName_iff.mpr (.inl named.1)
      · exact continuesName_iff.mpr (named.2 byte later)
  unfold readName
  dsimp only
  rw [takeWhile_append_of_break kept breaks.1]
  exact take_append .name name text position

private theorem digitsLength_append {digits : Text} (kept : ∀ byte ∈ digits, isDigit byte = true)
    (breaks : Breaks text) : digitsLength (digits ++ text) = digits.length := by
  have ends : ∀ byte ∈ text.head?, isDigit byte = false := by
    intro byte member
    have := breaks.1 byte member
    grind [continuesName]
  rw [digitsLength, takeWhile_append_of_break kept ends]

theorem integerLength_append {number : Text} (integer : IsInteger number) (breaks : Breaks text) :
    integerLength (number ++ text) = number.length := by
  obtain ⟨sign, digits, rfl, signed, nonempty, decimal⟩ := integer
  have kept : ∀ byte ∈ digits, isDigit byte = true := fun byte member =>
    isDigit_iff.mpr (decimal byte member)
  have read := digitsLength_append kept breaks
  rcases signed with rfl | rfl
  · cases digits with
    | nil => exact absurd rfl nonempty
    | cons digit digits =>
      have notSign : digit ≠ 45 := by
        have := kept digit List.mem_cons_self
        grind [isDigit]
      have unsigned : signLength [45] (digit :: digits ++ text) = 0 := by
        simp [signLength, notSign]
      simp only [List.nil_append, integerLength, unsigned, List.drop_zero, read, Nat.zero_add]
  · have signed : signLength [45] (45 :: (digits ++ text)) = 1 := rfl
    simp only [List.cons_append, List.nil_append, integerLength, signed, List.drop_succ_cons,
      List.drop_zero, read, List.length_cons]
    omega

private theorem exponentLength_of_breaks (breaks : Breaks text) : exponentLength text = 0 := by
  cases text with
  | nil => rfl
  | cons byte =>
    have := breaks.1 byte rfl
    have noExponent : byte ≠ 101 ∧ byte ≠ 69 := by
      grind [continuesName, startsName, isAlpha]
    simp [exponentLength, noExponent]

theorem readNumber_append {number text : Text} {position : Nat} (integer : IsInteger number)
    (breaks : Breaks text) :
    readNumber ⟨number ++ text, position⟩ =
      (⟨.int, number, position⟩, ⟨text, position + number.length⟩) := by
  unfold readNumber
  simp only [integerLength_append integer breaks, List.drop_left, breaks.2, Nat.add_zero,
    exponentLength_of_breaks breaks, and_self, if_true]
  exact take_append .int number text position

/-- What the loop of `readString` takes for an escape: any byte behind a
backslash. -/
def loopEscape (byte : UInt8) (written : Text) : Prop :=
  ∃ letter, byte = unescape letter ∧ written = [92, letter]

theorem Quoted.mono {Escape Other : UInt8 → Text → Prop} (quoted : Quoted Escape text body)
    (implies : ∀ byte written, Escape byte written → Other byte written) :
    Quoted Other text body := by
  induction quoted with
  | nil => exact .nil
  | literal notQuote notBackslash _ ih => exact .literal notQuote notBackslash ih
  | escape escaped _ ih => exact .escape (implies _ _ escaped) ih

theorem readStringFrom_append {text body rest result : Text} {start position : Nat}
    (quoted : Quoted loopEscape text body) :
    readStringFrom start (body ++ 34 :: rest) position result =
      .ok (⟨.string, result ++ text, start⟩, ⟨rest, position + body.length + 1⟩) := by
  induction quoted generalizing position result with
  | nil =>
    rw [List.nil_append, List.append_nil]
    unfold readStringFrom
    rw [if_pos rfl]
    rfl
  | @literal byte _ _ notQuote notBackslash _ ih =>
    have read := @ih (result ++ [byte]) (position + 1)
    rw [List.append_assoc, List.singleton_append, Nat.add_right_comm position 1] at read
    rw [List.cons_append]
    unfold readStringFrom
    rw [if_neg notQuote, if_neg notBackslash]
    exact read
  | escape escaped _ ih =>
    obtain ⟨letter, rfl, rfl⟩ := escaped
    have read := @ih (result ++ [unescape letter]) (position + 2)
    rw [List.append_assoc, List.singleton_append, Nat.add_right_comm position 2] at read
    rw [List.append_assoc, List.cons_append]
    unfold readStringFrom
    rw [if_neg (by decide), if_pos rfl]
    exact read

theorem punctuator_plain {type : TokenType} (known : punctuator? byte = some type) :
    isSpace byte = false ∧ byte ≠ 35 ∧ continuesName byte = false ∧ byte ≠ 45 ∧ byte ≠ 46 ∧
      type ≠ .name ∧ type ≠ .int ∧ type ≠ .endOfInput := by
  unfold punctuator? at known
  split at known <;> cases known <;> decide

theorem IsInteger.startsNumber {number text : Text} (integer : IsInteger number) :
    ∃ first rest, number ++ text = first :: rest ∧ startsName first = false ∧
      GraphQL.startsNumber (first :: rest) = true := by
  obtain ⟨sign, digits, rfl, signed, nonempty, decimal⟩ := integer
  have kept : ∀ byte ∈ digits, isDigit byte = true := fun byte member =>
    isDigit_iff.mpr (decimal byte member)
  cases digits with
  | nil => exact absurd rfl nonempty
  | cons digit digits =>
    have isDigit_digit := kept digit List.mem_cons_self
    rcases signed with rfl | rfl
    · refine ⟨digit, digits ++ text, rfl, ?_, ?_⟩
      · grind [startsName, isAlpha, isDigit]
      · simp [GraphQL.startsNumber, isDigit_digit]
    · exact ⟨45, digit :: (digits ++ text), rfl, by decide, by
        simp [GraphQL.startsNumber, isDigit_digit]⟩

theorem Spelled.startsToken (text : Text) (spelled : Spelled simpleEscape lexeme body) :
    StartsToken (body ++ text) := by
  cases spelled with
  | name named =>
    cases body with
    | nil => cases named
    | cons =>
      have := named.1.startsName
      refine ⟨?_, ?_, ?_⟩ <;> grind [startsName, isAlpha, isSpace]
  | int integer =>
    obtain ⟨_, _, same, _⟩ := @IsInteger.startsNumber _ text integer
    rw [same]
    refine ⟨?_, ?_, ?_⟩ <;> grind [GraphQL.startsNumber, isDigit, isSpace]
  | string | spread => exact ⟨by decide, by decide, by decide⟩
  | punctuator member =>
    obtain ⟨known, notComma⟩ := punctuator?_of_mem member
    obtain ⟨notSpace, notComment, _⟩ := punctuator_plain known
    exact ⟨notSpace, notComma, notComment⟩

theorem next_append {lexeme : Lexeme} {ignored body text : Text} {position : Nat}
    (separator : Ignored ignored) (spelled : Spelled simpleEscape lexeme body)
    (breaks : IsWord lexeme → Breaks text) :
    ∃ start finish, next ⟨ignored ++ (body ++ text), position⟩ =
      .ok (⟨lexeme.1, lexeme.2, start⟩, ⟨text, finish⟩) := by
  unfold next
  rw [skipIgnored_append separator (spelled.startsToken text)]
  dsimp only
  cases spelled with
  | name named =>
    have read := @readName_append _ _ (position + ignored.length) named (breaks (.inl rfl))
    cases body with
    | nil => cases named
    | cons =>
      rw [List.cons_append] at read ⊢
      dsimp only
      rw [if_pos named.1.startsName, read]
      exact ⟨_, _, rfl⟩
  | int integer =>
    have read := @readNumber_append _ _ (position + ignored.length) integer (breaks (.inr rfl))
    obtain ⟨_, _, same, notName, starts⟩ := @IsInteger.startsNumber _ text integer
    rw [same] at read ⊢
    dsimp only
    rw [if_neg (by rw [notName]; decide), if_pos starts, read]
    exact ⟨_, _, rfl⟩
  | @string _ body quoted =>
    have read := @readStringFrom_append _ _ text [] (position + ignored.length)
      (position + ignored.length + 1)
      (quoted.mono fun _ _ ⟨letter, member, escaped⟩ =>
        ⟨letter, unescape_of_mem member, escaped⟩)
    refine ⟨position + ignored.length, position + ignored.length + 1 + body.length + 1, ?_⟩
    rw [List.cons_append, List.append_assoc, List.singleton_append]
    dsimp only
    rw [if_neg (by decide), if_neg (by simp [startsNumber, isDigit])]
    exact read
  | spread => exact ⟨_, _, rfl⟩
  | @punctuator byte type member =>
    have known := (punctuator?_of_mem member).1
    obtain ⟨_, _⟩ := punctuator_plain known
    have notStart : startsName byte = false := by grind [continuesName]
    have notNumber : startsNumber (byte :: text) = false := by
      grind [startsNumber, continuesName]
    rw [List.singleton_append]
    dsimp only
    rw [if_neg (by rw [notStart]; decide), if_neg (by rw [notNumber]; decide), known]
    exact ⟨_, _, rfl⟩

theorem next_ignored {ignored : Text} {position : Nat} (separator : Ignored ignored) :
    ∃ finish, next ⟨ignored, position⟩ =
      .ok (⟨.endOfInput, [], finish⟩, ⟨[], finish⟩) := by
  have skipped := @skipIgnored_append ignored [] position separator trivial
  rw [List.append_nil] at skipped
  unfold next
  rw [skipped]
  exact ⟨_, rfl⟩

theorem Spelled.type_ne_endOfInput (spelled : Spelled simpleEscape lexeme body) :
    lexeme.1 ≠ .endOfInput := by
  cases spelled with
  | punctuator member => exact (punctuator_plain (punctuator?_of_mem member).1).2.2.2.2.2.2.2
  | _ => exact nofun

theorem breaks_of_head (notName : continuesName byte = false) (notDot : byte ≠ 46) :
    Breaks (byte :: text) := by
  refine ⟨?_, ?_⟩
  · intro first member
    cases member
    exact notName
  · unfold fractionLength
    split
    · rename_i same
      cases same
      exact absurd rfl notDot
    · rfl

theorem Ignored.breaks (separator : Ignored (byte :: rest)) (text : Text) :
    Breaks (byte :: rest ++ text) := by
  have ignored := separator.head
  refine breaks_of_head ?_ ?_ <;> grind [continuesName, startsName, isAlpha, isDigit, isSpace]

theorem Spelled.breaks (text : Text) (spelled : Spelled simpleEscape lexeme body)
    (notWord : ¬IsWord lexeme) : Breaks (body ++ text) := by
  cases spelled with
  | name => exact absurd (.inl rfl) notWord
  | int => exact absurd (.inr rfl) notWord
  | string => exact breaks_of_head (by decide) (by decide)
  | spread => exact ⟨by simp [continuesName, startsName, isAlpha, isDigit], rfl⟩
  | punctuator member =>
    obtain ⟨_, _, notName, _, notDot, _⟩ := punctuator_plain (punctuator?_of_mem member).1
    exact breaks_of_head notName notDot

theorem Spells.breaks {Previous : Prop} {lexemes : List Lexeme}
    (spells : Spells simpleEscape Previous lexemes text) (word : Previous) : Breaks text := by
  cases spells with
  | nil separator =>
    cases text with
    | nil => exact ⟨nofun, rfl⟩
    | cons => simpa using separator.breaks []
  | @cons _ _ _ ignored _ text separator separated spelled =>
    cases ignored with
    | nil => exact spelled.breaks text fun isWord => separated word isWord rfl
    | cons => exact separator.breaks _

theorem Spelled.length_pos (spelled : Spelled simpleEscape lexeme body) : 0 < body.length := by
  cases spelled with
  | name named =>
    cases body with
    | nil => cases named
    | cons => exact Nat.succ_pos _
  | int integer =>
    obtain ⟨_, _, rfl, _, nonempty, _⟩ := integer
    rw [List.length_append]
    exact Nat.add_pos_right _ (List.length_pos_of_ne_nil nonempty)
  | _ => exact Nat.succ_pos _

theorem Spells.length_le {Previous : Prop} {lexemes : List Lexeme} {text : Text}
    (spells : Spells simpleEscape Previous lexemes text) : lexemes.length ≤ text.length := by
  induction spells with
  | nil _ => exact Nat.zero_le _
  | cons _ _ spelled =>
    have positive := spelled.length_pos
    simp only [List.length_cons, List.length_append]
    omega

def Impl.lexemes : Parsing.Source parserSignature Lexeme where
  lexeme impl :=
    if impl.current.type = .endOfInput then none else some (impl.current.type, impl.current.text)
  advance := Impl.advance

theorem reads_of_next {Previous : Prop} {lexemes : List Lexeme}
    (spells : Spells simpleEscape Previous lexemes text) (position : Nat) :
    ∃ token tokenizer, next ⟨text, position⟩ = .ok (token, tokenizer) ∧
      Impl.lexemes.Reads lexemes ⟨tokenizer, token⟩ := by
  induction spells generalizing position with
  | nil separator =>
    obtain ⟨_, drawn⟩ := @next_ignored _ position separator
    exact ⟨_, _, drawn, rfl⟩
  | @cons _ _ _ _ _ text separator _ spelled later ih =>
    obtain ⟨start, finish, drawn⟩ := @next_append _ _ _ _ position separator spelled later.breaks
    obtain ⟨token, tokenizer, followed, reads⟩ := ih finish
    refine ⟨_, _, drawn, if_neg spelled.type_ne_endOfInput, ⟨tokenizer, token⟩, ?_, reads⟩
    change (next ⟨text, finish⟩).map _ = _
    rw [followed]
    rfl

end Coroserver.GraphQL
