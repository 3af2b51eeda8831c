import Coroserver.GraphQL.Parser
import Mathlib.Data.Nat.Digits.Defs

/-! How an operation is written in GraphQL syntax: first as lexemes, then as text,
with ignored text between the lexemes. The bytes of names, numbers, escapes,
punctuators and ignored text are stated here and not taken from the tokenizer; of
the parser only the bound on the depth is used. The fields of an object and the
fragments of an operation may be written in any order. The escapes that may stand
in a string are a parameter. -/

namespace Coroserver.GraphQL

def IsNameStart (byte : UInt8) : Prop :=
  byte = 95 ∨ (65 ≤ byte ∧ byte ≤ 90) ∨ (97 ≤ byte ∧ byte ≤ 122)
deriving Decidable

def IsDecimal (byte : UInt8) : Prop := 48 ≤ byte ∧ byte ≤ 57
deriving Decidable

/-- `[_A-Za-z][_0-9A-Za-z]*` -/
def IsName : Text → Prop
  | [] => False
  | first :: rest => IsNameStart first ∧ ∀ byte ∈ rest, IsNameStart byte ∨ IsDecimal byte

/-- The number that decimal digits stand for; the first digit is the highest. -/
def decimalValue (digits : Text) : Nat :=
  Nat.ofDigits 10 (digits.reverse.map fun digit => digit.toNat - 48)

inductive WritesInteger : Int → Text → Prop where
  | unsigned {digits} (decimal : ∀ byte ∈ digits, IsDecimal byte) :
      WritesInteger (decimalValue digits) digits
  | negative {digits} : WritesInteger (-(decimalValue digits)) (45 :: digits)

mutual

/-- The values of the grammar, as the parser represents them; there are no
floating-point numbers. -/
inductive Value.WellFormed : Value → Prop where
  | reference {name} (named : IsName name) :
      Value.WellFormed ⟨.variable, .object [(ascii "$variable", .string name)]⟩
  | string (text : Text) : Value.WellFormed ⟨.string, .string text⟩
  | int {number} (least : -9223372036854775808 ≤ number)
      (greatest : number ≤ 9223372036854775807) : Value.WellFormed ⟨.int, .int number⟩
  | boolean (value : Bool) : Value.WellFormed ⟨.boolean, .bool value⟩
  | null : Value.WellFormed ⟨.null, .null⟩
  | enum {name} (named : IsName name) (notTrue : name ≠ ascii "true")
      (notFalse : name ≠ ascii "false") (notNull : name ≠ ascii "null") :
      Value.WellFormed ⟨.enum, .string name⟩
  | list {items} (wellFormed : ∀ item ∈ items, Json.WellFormed item) :
      Value.WellFormed ⟨.list, .array items⟩
  | object {members} (ordered : OrderedMap.Ordered members)
      (named : ∀ entry ∈ members, IsName entry.1)
      (wellFormed : ∀ entry ∈ members, Json.WellFormed entry.2) :
      Value.WellFormed ⟨.object, .object members⟩

inductive Json.WellFormed : Json → Prop where
  | ofValue {kind json} (value : Value.WellFormed ⟨kind, json⟩) :
      Json.WellFormed json

end

def Argument.WellFormed (argument : Argument) : Prop :=
  IsName argument.name ∧ argument.value.WellFormed

def Directive.WellFormed (directive : Directive) : Prop :=
  IsName directive.name ∧ ∀ argument ∈ directive.arguments, argument.WellFormed

inductive FieldSelection.WellFormed : Nat → FieldSelection → Prop where
  | spread {depth name} (named : IsName name) (notOn : name ≠ ascii "on") :
      FieldSelection.WellFormed depth { fragmentSpreadName := name }
  | field {depth : Nat} {name aliasName : Text} {arguments : List Argument}
      {directives : List Directive} {selections : Selections}
      (named : IsName name) (aliased : aliasName = [] ∨ IsName aliasName)
      (arguments_wellFormed : ∀ argument ∈ arguments, argument.WellFormed)
      (directives_wellFormed : ∀ directive ∈ directives, directive.WellFormed)
      (nested : selections = [] ∨ depth + 1 < Parser.kMaxDepth)
      (selections_wellFormed : ∀ selection ∈ selections,
        FieldSelection.WellFormed (depth + 1) selection) :
      FieldSelection.WellFormed depth
        { name, aliasName, arguments, directives, selections }

structure FragmentDefinition.WellFormed (frag : FragmentDefinition) : Prop where
  named : IsName frag.name
  typed : IsName frag.typeCondition
  directives : ∀ directive ∈ frag.directives, directive.WellFormed
  selections : ∀ selection ∈ frag.selections, selection.WellFormed 0

structure VariableDefinition.WellFormed (definition : VariableDefinition) : Prop where
  named : IsName definition.name
  typed : IsName definition.typeName
  default : ∀ value ∈ definition.defaultValue, value.WellFormed

structure Operation.WellFormed (operation : Operation) : Prop where
  named : operation.name = [] ∨ IsName operation.name
  variableDefinitions : ∀ definition ∈ operation.variableDefinitions, definition.WellFormed
  directives : ∀ directive ∈ operation.directives, directive.WellFormed
  selections : ∀ selection ∈ operation.selections, selection.WellFormed 0
  /-- The fragments are stored under their own, distinct names. -/
  fragments_ordered : OrderedMap.Ordered operation.fragments
  fragments_keyed : ∀ entry ∈ operation.fragments, entry.1 = entry.2.name
  fragments : ∀ entry ∈ operation.fragments, entry.2.WellFormed

abbrev Lexeme := TokenType × Text

namespace Lexeme

def name (text : Text) : Lexeme := (.name, text)
def keyword (text : String) : Lexeme := (.name, ascii text)
def dollar : Lexeme := (.dollar, [36])
def bang : Lexeme := (.bang, [33])
def colon : Lexeme := (.colon, [58])
def equals : Lexeme := (.equals, [61])
def atSign : Lexeme := (.atSign, [64])
def spread : Lexeme := (.spread, [46, 46, 46])
def leftParen : Lexeme := (.leftParen, [40])
def rightParen : Lexeme := (.rightParen, [41])
def leftBrace : Lexeme := (.leftBrace, [123])
def rightBrace : Lexeme := (.rightBrace, [125])
def leftBracket : Lexeme := (.leftBracket, [91])
def rightBracket : Lexeme := (.rightBracket, [93])

def punctuators : List Lexeme :=
  [dollar, bang, colon, equals, atSign, leftParen, rightParen, leftBrace, rightBrace,
    leftBracket, rightBracket]

def enclosed (start close : Lexeme) (parts : List (List Lexeme)) : List Lexeme :=
  start :: (parts.flatten ++ [close])

end Lexeme

open Lexeme

mutual

inductive PrintsValue : Value → List Lexeme → Prop where
  | reference (name : Text) :
      PrintsValue ⟨.variable, .object [(ascii "$variable", .string name)]⟩
        [dollar, Lexeme.name name]
  | string (text : Text) : PrintsValue ⟨.string, .string text⟩ [(.string, text)]
  | int {number text} (written : WritesInteger number text) :
      PrintsValue ⟨.int, .int number⟩ [(.int, text)]
  | boolean (value : Bool) :
      PrintsValue ⟨.boolean, .bool value⟩ [keyword (if value then "true" else "false")]
  | null : PrintsValue ⟨.null, .null⟩ [keyword "null"]
  | enum {name : Text} (notTrue : name ≠ ascii "true") (notFalse : name ≠ ascii "false")
      (notNull : name ≠ ascii "null") : PrintsValue ⟨.enum, .string name⟩ [Lexeme.name name]
  | list {items parts} (printed : List.Forall₂ PrintsJson items parts) :
      PrintsValue ⟨.list, .array items⟩ (enclosed leftBracket rightBracket parts)
  | object {members written parts} (same : written.Perm members)
      (printed : List.Forall₂ PrintsMember written parts) :
      PrintsValue ⟨.object, .object members⟩ (enclosed leftBrace rightBrace parts)

inductive PrintsJson : Json → List Lexeme → Prop where
  | ofValue {kind json lexemes} (printed : PrintsValue ⟨kind, json⟩ lexemes) :
      PrintsJson json lexemes

inductive PrintsMember : Text × Json → List Lexeme → Prop where
  | intro {key json lexemes} (printed : PrintsJson json lexemes) :
      PrintsMember (key, json) (Lexeme.name key :: colon :: lexemes)

end

def PrintsArgument (argument : Argument) (lexemes : List Lexeme) : Prop :=
  ∃ value, PrintsValue argument.value value ∧
    lexemes = Lexeme.name argument.name :: colon :: value

def PrintsUnlessEmpty {Item : Type} (Prints : Item → List Lexeme → Prop) (start close : Lexeme)
    (items : List Item) (lexemes : List Lexeme) : Prop :=
  (items = [] ∧ lexemes = []) ∨
    items ≠ [] ∧
      ∃ parts, List.Forall₂ Prints items parts ∧ lexemes = enclosed start close parts

def PrintsArguments : List Argument → List Lexeme → Prop :=
  PrintsUnlessEmpty PrintsArgument leftParen rightParen

def PrintsDirective (directive : Directive) (lexemes : List Lexeme) : Prop :=
  ∃ arguments, PrintsArguments directive.arguments arguments ∧
    lexemes = atSign :: Lexeme.name directive.name :: arguments

def PrintsDirectives (directives : List Directive) (lexemes : List Lexeme) : Prop :=
  ∃ parts, List.Forall₂ PrintsDirective directives parts ∧ lexemes = parts.flatten

def fieldName (name aliasName : Text) : List Lexeme :=
  if aliasName = [] then [Lexeme.name name]
  else [Lexeme.name aliasName, colon, Lexeme.name name]

inductive PrintsSelection : FieldSelection → List Lexeme → Prop where
  | spread (name : Text) :
      PrintsSelection { fragmentSpreadName := name } [Lexeme.spread, Lexeme.name name]
  | leaf {name aliasName arguments directives printedArguments printedDirectives}
      (arguments_printed : PrintsArguments arguments printedArguments)
      (directives_printed : PrintsDirectives directives printedDirectives) :
      PrintsSelection { name, aliasName, arguments, directives }
        (fieldName name aliasName ++ (printedArguments ++ printedDirectives))
  | node {name aliasName arguments directives selections printedArguments printedDirectives parts}
      (arguments_printed : PrintsArguments arguments printedArguments)
      (directives_printed : PrintsDirectives directives printedDirectives)
      (nonempty : selections ≠ [])
      (selections_printed : List.Forall₂ PrintsSelection selections parts) :
      PrintsSelection { name, aliasName, arguments, directives, selections }
        (fieldName name aliasName ++
          (printedArguments ++ (printedDirectives ++ enclosed leftBrace rightBrace parts)))

def PrintsSelectionSet (selections : Selections) (lexemes : List Lexeme) : Prop :=
  ∃ parts, List.Forall₂ PrintsSelection selections parts ∧
    lexemes = enclosed leftBrace rightBrace parts

def PrintsFragment (frag : FragmentDefinition) (lexemes : List Lexeme) : Prop :=
  ∃ directives selections, PrintsDirectives frag.directives directives ∧
    PrintsSelectionSet frag.selections selections ∧
    lexemes = keyword "fragment" :: Lexeme.name frag.name :: keyword "on" ::
      Lexeme.name frag.typeCondition :: (directives ++ selections)

def typeReference (definition : VariableDefinition) : List Lexeme :=
  (if definition.isList then [leftBracket, Lexeme.name definition.typeName, rightBracket]
    else [Lexeme.name definition.typeName]) ++ if definition.nonNull then [bang] else []

def PrintsDefault : Option Value → List Lexeme → Prop
  | none, lexemes => lexemes = []
  | some value, lexemes => ∃ printed, PrintsValue value printed ∧ lexemes = equals :: printed

def PrintsVariableDefinition (definition : VariableDefinition) (lexemes : List Lexeme) : Prop :=
  ∃ default, PrintsDefault definition.defaultValue default ∧
    lexemes = dollar :: Lexeme.name definition.name :: colon ::
      (typeReference definition ++ default)

def OperationType.keyword : OperationType → String
  | .query => "query"
  | .mutation => "mutation"
  | .subscription => "subscription"

/-- What stands before the selection set. A query that has nothing else may be
written without its keyword. -/
def PrintsHeader (operation : Operation) (lexemes : List Lexeme) : Prop :=
  (operation.type = .query ∧ operation.name = [] ∧ operation.variableDefinitions = [] ∧
      operation.directives = [] ∧ lexemes = []) ∨
    ∃ definitions directives,
      PrintsUnlessEmpty PrintsVariableDefinition leftParen rightParen
        operation.variableDefinitions definitions ∧
      PrintsDirectives operation.directives directives ∧
      lexemes = Lexeme.keyword operation.type.keyword ::
        ((if operation.name = [] then [] else [Lexeme.name operation.name]) ++
          (definitions ++ directives))

def PrintsOperation (operation : Operation) (lexemes : List Lexeme) : Prop :=
  ∃ header selections fragments written,
    PrintsHeader operation header ∧ PrintsSelectionSet operation.selections selections ∧
    written.Perm (operation.fragments.map Prod.snd) ∧
    List.Forall₂ PrintsFragment written fragments ∧
    lexemes = header ++ (selections ++ fragments.flatten)

/-- White space, commas and comments; a comment is ended by a line break. -/
inductive Ignored : Text → Prop where
  | nil : Ignored []
  | blank {byte rest} (blank : byte ∈ [9, 10, 11, 12, 13, 32, 44]) (ignored : Ignored rest) :
      Ignored (byte :: rest)
  | comment {body rest : Text} {ending : UInt8} (inside : ∀ byte ∈ body, byte ≠ 10 ∧ byte ≠ 13)
      (ends : ending = 10 ∨ ending = 13) (ignored : Ignored rest) :
      Ignored (35 :: (body ++ ending :: rest))

/-- The letters of the simple escapes, with the bytes that they stand for. -/
def simpleEscapes : List (UInt8 × UInt8) :=
  [(34, 34), (92, 92), (47, 47), (98, 8), (102, 12), (110, 10), (114, 13), (116, 9)]

def simpleEscape (byte : UInt8) (written : Text) : Prop :=
  ∃ letter, (letter, byte) ∈ simpleEscapes ∧ written = [92, letter]

def hexDigit (digit : UInt8) : UInt8 := if digit < 10 then 48 + digit else 87 + digit

section

variable (Escape : UInt8 → Text → Prop)

inductive Quoted : Text → Text → Prop where
  | nil : Quoted [] []
  | literal {byte text body} (notQuote : byte ≠ 34) (notBackslash : byte ≠ 92)
      (rest : Quoted text body) : Quoted (byte :: text) (byte :: body)
  | escape {byte written text body} (escaped : Escape byte written) (rest : Quoted text body) :
      Quoted (byte :: text) (written ++ body)

def IsInteger (text : Text) : Prop :=
  ∃ sign digits, text = sign ++ digits ∧ (sign = [] ∨ sign = [45]) ∧ digits ≠ [] ∧
    ∀ byte ∈ digits, IsDecimal byte

inductive Spelled : Lexeme → Text → Prop where
  | name {text} (named : IsName text) : Spelled (.name, text) text
  | int {text} (integer : IsInteger text) : Spelled (.int, text) text
  | string {text body} (quoted : Quoted Escape text body) :
      Spelled (.string, text) (34 :: (body ++ [34]))
  | spread : Spelled Lexeme.spread [46, 46, 46]
  | punctuator {byte type} (known : (type, [byte]) ∈ punctuators) :
      Spelled (type, [byte]) [byte]

def IsWord (lexeme : Lexeme) : Prop := lexeme.1 = .name ∨ lexeme.1 = .int
deriving Decidable

/-- The text of the lexemes; `Previous` says whether a word comes before them. -/
inductive Spells : Prop → List Lexeme → Text → Prop where
  | nil {Previous ignored} (separator : Ignored ignored) :
      Spells Previous [] ignored
  | cons {Previous lexeme rest ignored body text} (separator : Ignored ignored)
      (separated : Previous → IsWord lexeme → ignored ≠ []) (spelled : Spelled Escape lexeme body)
      (later : Spells (IsWord lexeme) rest text) :
      Spells Previous (lexeme :: rest) (ignored ++ (body ++ text))

end

end Coroserver.GraphQL
