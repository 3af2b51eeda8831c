import Coroserver.GraphQL.ParserRoundTrip

/-! A well-formed operation has lexemes, and every one of them has a text. -/

namespace Coroserver.GraphQL

open GraphQL.Parser Lexeme List

def Spellable (lexemes : List Lexeme) : Prop :=
  ∀ lexeme ∈ lexemes, ∃ body, Spelled simpleEscape lexeme body

theorem spellable_nil : Spellable [] := nofun

theorem Spellable.cons {lexeme : Lexeme} {rest : List Lexeme} {body : Text}
    (spelled : Spelled simpleEscape lexeme body) (others : Spellable rest) :
    Spellable (lexeme :: rest) :=
  forall_mem_cons.mpr ⟨⟨body, spelled⟩, others⟩

theorem Spellable.append {first second : List Lexeme} (one : Spellable first)
    (other : Spellable second) : Spellable (first ++ second) :=
  forall_mem_append.mpr ⟨one, other⟩

variable {text body : Text} {rest : List Lexeme} {Item : Type} {depth : Nat}
  {definition : VariableDefinition} {operation : Operation} {Escape : UInt8 → Text → Prop}

theorem Spellable.name (named : IsName text) (others : Spellable rest) :
    Spellable (name text :: rest) :=
  others.cons (.name named)

theorem Spellable.punctuator {byte : UInt8} {type : TokenType} {rest : List Lexeme}
    (others : Spellable rest) (known : (type, [byte]) ∈ punctuators) :
    Spellable ((type, [byte]) :: rest) :=
  others.cons (.punctuator known)

theorem exists_quoted (text : Text) : ∃ body, Quoted simpleEscape text body := by
  induction text with
  | nil => exact ⟨[], .nil⟩
  | cons byte text ih =>
    obtain ⟨body, quoted⟩ := ih
    by_cases quote : byte = 34
    · exact ⟨_, .escape ⟨34, by simp [quote, simpleEscapes], rfl⟩ quoted⟩
    · by_cases backslash : byte = 92
      · exact ⟨_, .escape ⟨92, by simp [backslash, simpleEscapes], rfl⟩ quoted⟩
      · exact ⟨_, .literal quote backslash quoted⟩

private theorem exists_digits (number : Nat) :
    ∃ digits, digits ≠ [] ∧ (∀ byte ∈ digits, IsDecimal byte) ∧ decimalValue digits = number := by
  have digit : ∀ value < 10, IsDecimal (UInt8.ofNat (48 + value)) ∧
      (UInt8.ofNat (48 + value)).toNat - 48 = value := by
    decide
  by_cases zero : number = 0
  · exact ⟨[48], cons_ne_nil _ _, by decide +kernel, zero.symm⟩
  · refine ⟨((Nat.digits 10 number).map fun value => UInt8.ofNat (48 + value)).reverse, ?_, ?_, ?_⟩
    · have nonempty := @Nat.digits_ne_nil_iff_ne_zero 10 number
      simpa using nonempty.mpr zero
    · simp only [mem_reverse, mem_map, forall_exists_index, and_imp]
      rintro byte value member rfl
      exact (digit value (Nat.digits_lt_base (by decide) member)).1
    · have values : ((Nat.digits 10 number).map fun value => UInt8.ofNat (48 + value)).map
          (fun digit => digit.toNat - 48) = Nat.digits 10 number := by
        rw [map_map]
        refine (map_congr_left fun value member => ?_).trans (map_id _)
        exact (digit value (Nat.digits_lt_base (by decide) member)).2
      rw [decimalValue, reverse_reverse, values, Nat.ofDigits_digits]

theorem exists_integer (number : Int) : ∃ text, IsInteger text ∧ WritesInteger number text := by
  cases number with
  | ofNat number =>
    obtain ⟨digits, nonempty, kept, rfl⟩ := exists_digits number
    exact ⟨digits, ⟨[], digits, rfl, .inl rfl, nonempty, kept⟩, .unsigned kept⟩
  | negSucc number =>
    obtain ⟨digits, nonempty, kept, same⟩ := exists_digits (number + 1)
    refine ⟨45 :: digits, ⟨[45], digits, rfl, .inr rfl, nonempty, kept⟩, ?_⟩
    rw [Int.negSucc_eq, ← Nat.cast_succ, Nat.succ_eq_add_one, ← same]
    exact .negative

def Printable {Item : Type} (Prints : Item → List Lexeme → Prop) (item : Item) : Prop :=
  ∃ lexemes, Prints item lexemes ∧ Spellable lexemes

theorem exists_parts {Prints : Item → List Lexeme → Prop} {items : List Item}
    (printable : ∀ item ∈ items, Printable Prints item) :
    ∃ parts, Forall₂ Prints items parts ∧ Spellable parts.flatten := by
  induction items with
  | nil => exact ⟨[], .nil, spellable_nil⟩
  | cons _ _ ih =>
    obtain ⟨⟨part, printed, spellable⟩, others⟩ := forall_mem_cons.mp printable
    obtain ⟨parts, all_printed, all_spellable⟩ := ih others
    exact ⟨part :: parts, .cons printed all_printed, spellable.append all_spellable⟩

theorem Spellable.enclosed {start close : UInt8} {startType closeType : TokenType}
    {parts : List (List Lexeme)} (inside : Spellable parts.flatten)
    (starts : (startType, [start]) ∈ punctuators) (closes : (closeType, [close]) ∈ punctuators) :
    Spellable (enclosed (startType, [start]) (closeType, [close]) parts) :=
  (inside.append (spellable_nil.punctuator closes)).punctuator starts

instance (text : Text) : Decidable (IsName text) :=
  match text with
  | [] => inferInstanceAs (Decidable False)
  | _ :: rest => @instDecidableAnd _ _ _ (List.decidableBAll _ rest)

theorem Value.WellFormed.printable {json : Json} {kind : ValueKind}
    (wellFormed : Value.WellFormed ⟨kind, json⟩) : Printable PrintsValue ⟨kind, json⟩ := by
  induction json using Json.induction generalizing kind with
  | leaf json notArray notObject =>
    cases wellFormed with
    | string text =>
      obtain ⟨body, quoted⟩ := exists_quoted text
      exact ⟨_, .string text, spellable_nil.cons (.string quoted)⟩
    | @int number =>
      obtain ⟨text, integer, same⟩ := exists_integer number
      exact ⟨_, .int same, spellable_nil.cons (.int integer)⟩
    | boolean value =>
      refine ⟨_, .boolean value, spellable_nil.name ?_⟩
      cases value <;> decide
    | null => exact ⟨_, .null, spellable_nil.name (by decide)⟩
    | enum named notTrue notFalse notNull =>
      exact ⟨_, .enum notTrue notFalse notNull, spellable_nil.name named⟩
    | reference _ => exact absurd rfl (notObject _)
    | list _ => exact absurd rfl (notArray _)
    | object => exact absurd rfl (notObject _)
  | array items ih =>
    cases wellFormed with
    | list wellFormed =>
      have printable : ∀ item ∈ items, Printable PrintsJson item := by
        intro item member
        obtain ⟨value⟩ := wellFormed item member
        obtain ⟨lexemes, printed, spellable⟩ := ih item member value
        exact ⟨lexemes, .ofValue printed, spellable⟩
      obtain ⟨parts, printed, spellable⟩ := exists_parts printable
      exact ⟨_, .list printed, spellable.enclosed (by decide) (by decide)⟩
  | object members ih =>
    cases wellFormed with
    | @reference name named =>
      exact ⟨_, .reference name, (spellable_nil.name named).punctuator (by decide)⟩
    | object _ named wellFormed =>
      have printable : ∀ entry ∈ members, Printable PrintsMember entry := by
        rintro ⟨key, json⟩ member
        obtain ⟨value⟩ := wellFormed (key, json) member
        obtain ⟨_, printed, spellable⟩ := ih (key, json) member value
        refine ⟨_, .intro (.ofValue printed), ?_⟩
        exact (spellable.punctuator (by decide)).name (named (key, json) member)
      obtain ⟨parts, printed, spellable⟩ := exists_parts printable
      exact ⟨_, .object (.refl _) printed, spellable.enclosed (by decide) (by decide)⟩

theorem printable_unlessEmpty {Prints : Item → List Lexeme → Prop} {items : List Item}
    (printable : ∀ item ∈ items, Printable Prints item) :
    Printable (PrintsUnlessEmpty Prints leftParen rightParen) items := by
  by_cases empty : items = []
  · exact ⟨[], .inl ⟨empty, rfl⟩, spellable_nil⟩
  · obtain ⟨parts, printed, spellable⟩ := exists_parts printable
    exact ⟨_, .inr ⟨empty, parts, printed, rfl⟩, spellable.enclosed (by decide) (by decide)⟩

theorem printable_arguments {arguments : List Argument}
    (wellFormed : ∀ argument ∈ arguments, argument.WellFormed) :
    Printable PrintsArguments arguments := by
  refine printable_unlessEmpty fun argument member => ?_
  obtain ⟨named, value⟩ := wellFormed argument member
  obtain ⟨lexemes, printed, spellable⟩ := value.printable
  exact ⟨_, ⟨lexemes, printed, rfl⟩, (spellable.punctuator (by decide)).name named⟩

theorem printable_directives {directives : List Directive}
    (wellFormed : ∀ directive ∈ directives, directive.WellFormed) :
    Printable PrintsDirectives directives := by
  have printable : ∀ directive ∈ directives, Printable PrintsDirective directive := by
    intro directive member
    obtain ⟨named, arguments_wellFormed⟩ := wellFormed directive member
    obtain ⟨lexemes, printed, spellable⟩ := printable_arguments arguments_wellFormed
    exact ⟨_, ⟨lexemes, printed, rfl⟩, (spellable.name named).punctuator (by decide)⟩
  obtain ⟨parts, printed, spellable⟩ := exists_parts printable
  exact ⟨_, ⟨parts, printed, rfl⟩, spellable⟩

private theorem spellable_fieldName {name aliasName : Text} (named : IsName name)
    (aliased : aliasName = [] ∨ IsName aliasName) : Spellable (fieldName name aliasName) := by
  unfold fieldName
  split
  · exact spellable_nil.name named
  · rename_i given
    exact ((spellable_nil.name named).punctuator (by decide)).name (aliased.resolve_left given)

theorem FieldSelection.WellFormed.printable {selection : FieldSelection}
    (wellFormed : selection.WellFormed depth) : Printable PrintsSelection selection := by
  induction wellFormed with
  | @spread _ name named =>
    exact ⟨_, .spread name, (spellable_nil.name named).cons .spread⟩
  | @field depth name aliasName arguments directives selections named aliased
      arguments_wellFormed directives_wellFormed _ _ ih =>
    obtain ⟨_, arguments_printed, arguments_spellable⟩ := printable_arguments arguments_wellFormed
    obtain ⟨_, directives_printed, directives_spellable⟩ :=
      printable_directives directives_wellFormed
    have name_spellable := spellable_fieldName named aliased
    by_cases empty : selections = []
    · subst empty
      exact ⟨_, .leaf arguments_printed directives_printed,
        name_spellable.append (arguments_spellable.append directives_spellable)⟩
    · obtain ⟨parts, printed, spellable⟩ := exists_parts ih
      have set_spellable : Spellable (enclosed leftBrace rightBrace parts) :=
        spellable.enclosed (by decide) (by decide)
      exact ⟨_, .node arguments_printed directives_printed empty printed,
        name_spellable.append (arguments_spellable.append
          (directives_spellable.append set_spellable))⟩

theorem printable_selectionSet {selections : Selections}
    (wellFormed : ∀ selection ∈ selections, selection.WellFormed depth) :
    Printable PrintsSelectionSet selections := by
  obtain ⟨parts, printed, spellable⟩ :=
    exists_parts fun selection member => (wellFormed selection member).printable
  exact ⟨_, ⟨parts, printed, rfl⟩, spellable.enclosed (by decide) (by decide)⟩

theorem FragmentDefinition.WellFormed.printable {frag : FragmentDefinition}
    (wellFormed : frag.WellFormed) : Printable PrintsFragment frag := by
  obtain ⟨directives, directives_printed, directives_spellable⟩ :=
    printable_directives wellFormed.directives
  obtain ⟨selections, selections_printed, selections_spellable⟩ :=
    printable_selectionSet wellFormed.selections
  refine ⟨_, ⟨directives, selections, directives_printed, selections_printed, rfl⟩, ?_⟩
  have body := directives_spellable.append selections_spellable
  exact (((body.name wellFormed.typed).name (by decide)).name wellFormed.named).name (by decide)

private theorem spellable_typeReference (wellFormed : definition.WellFormed) :
    Spellable (typeReference definition) := by
  unfold typeReference
  refine Spellable.append ?_ ?_
  · split
    · exact ((spellable_nil.punctuator (by decide)).name wellFormed.typed).punctuator
        (by decide)
    · exact spellable_nil.name wellFormed.typed
  · split
    · exact spellable_nil.punctuator (by decide)
    · exact spellable_nil

theorem VariableDefinition.WellFormed.printable (wellFormed : definition.WellFormed) :
    Printable PrintsVariableDefinition definition := by
  have default : Printable PrintsDefault definition.defaultValue := by
    cases given : definition.defaultValue with
    | none => exact ⟨[], rfl, spellable_nil⟩
    | some value =>
      obtain ⟨lexemes, printed, spellable⟩ := (wellFormed.default value given).printable
      exact ⟨_, ⟨lexemes, printed, rfl⟩, spellable.punctuator (by decide)⟩
  obtain ⟨lexemes, printed, spellable⟩ := default
  refine ⟨_, ⟨lexemes, printed, rfl⟩, ?_⟩
  have typed := (spellable_typeReference wellFormed).append spellable
  exact ((typed.punctuator (by decide)).name wellFormed.named).punctuator (by decide)

private theorem printable_header (wellFormed : operation.WellFormed) :
    Printable PrintsHeader operation := by
  obtain ⟨definitions, definitions_printed, definitions_spellable⟩ :=
    printable_unlessEmpty fun definition member =>
      (wellFormed.variableDefinitions definition member).printable
  obtain ⟨directives, directives_printed, directives_spellable⟩ :=
    printable_directives wellFormed.directives
  have name_spellable : Spellable (if operation.name = [] then [] else [name operation.name]) := by
    split
    · exact spellable_nil
    · rename_i given
      exact spellable_nil.name (wellFormed.named.resolve_left given)
  have keyword_named : IsName (ascii operation.type.keyword) := by
    cases operation.type <;> decide
  refine ⟨_, .inr ⟨definitions, directives, definitions_printed, directives_printed, rfl⟩, ?_⟩
  exact (name_spellable.append (definitions_spellable.append directives_spellable)).name
    keyword_named

theorem Operation.WellFormed.printable (wellFormed : operation.WellFormed) :
    Printable PrintsOperation operation := by
  obtain ⟨header, header_printed, header_spellable⟩ := printable_header wellFormed
  obtain ⟨selections, selections_printed, selections_spellable⟩ :=
    printable_selectionSet wellFormed.selections
  have fragments_printable : ∀ frag ∈ operation.fragments.map Prod.snd,
      Printable PrintsFragment frag := by
    intro frag member
    obtain ⟨entry, inFragments, rfl⟩ := mem_map.mp member
    exact (wellFormed.fragments entry inFragments).printable
  obtain ⟨fragments, fragments_printed, fragments_spellable⟩ := exists_parts fragments_printable
  exact ⟨_, ⟨header, selections, fragments, _, header_printed, selections_printed, .refl _,
    fragments_printed, rfl⟩,
    header_spellable.append (selections_spellable.append fragments_spellable)⟩

theorem Spells.adjacent {Previous : Prop} {lexeme : Lexeme} (body : Text)
    (apart : Previous → ¬IsWord lexeme) (spelled : Spelled Escape lexeme body)
    (later : Spells Escape (IsWord lexeme) rest text) :
    Spells Escape Previous (lexeme :: rest) (body ++ text) :=
  .cons .nil (fun previous word => absurd word (apart previous)) spelled later

end Coroserver.GraphQL
