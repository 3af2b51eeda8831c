import Coroserver.GraphQL.Tokenizer
import Coroserver.OrderedMap
import Coroserver.Parsing

/-! `Parser::Impl` of `graphql/parser.hpp`, by recursive descent over the tokens. The
recursion and every `while` loop run on a bound that the length of the query provides.
`stod` says whether `std::stod` returns for the text of a number, rather than
throwing. The number is kept as its text. A trace is kept of the calls of
`Tokenizer::next`, of the functions that recurse and of the turns of the loops; no
function reads it. -/

namespace Coroserver.GraphQL

open Tracing.Traced (call fail inspect repeatWhile)

structure Impl where
  tokenizer : Tokenizer
  current : Token

def Impl.advance (impl : Impl) : Except ParseError Impl :=
  impl.tokenizer.next.map fun (token, tokenizer) => ⟨tokenizer, token⟩

def Token.isName (token : Token) (text : String) : Bool :=
  token.type = .name && token.text = ascii text

inductive ParserFunction where
  | parseSelectionSet
  | parseField
  | parseFragmentSpread
  | parseInlineFragment
  | parseValue
  | parseListValue
  | parseObjectValue

inductive ParserLoop where
  | variableDefinitions
  | selections
  | arguments
  | directives
  | listItems
  | objectFields
  | fragmentDefinitions

/-- A call of `Tokenizer::next`, with the current token that the result replaces.
There is none when the parser is constructed. -/
abbrev NextCall := Option Token

abbrev parserSignature : Tracing.Signature :=
  ⟨NextCall, ParserFunction, ParserLoop, Impl, ParseError⟩

abbrev Parser (Result : Type) := Tracing.Traced parserSignature Result

namespace Parser

def kMaxDepth : Nat := 20

def current : Parser Token := do
  let impl ← inspect
  pure impl.current

def advance : Parser Unit := fun impl =>
  ([.step (some impl.current)], impl.advance.map fun next => ((), next))

def throwParseError {Result : Type} (message : String) : Parser Result := do
  let token ← current
  fail (.runtimeError (ascii message ++ ascii " at position " ++ decimal token.position))

def expect (type : TokenType) (message : String) : Parser Text := do
  let token ← current
  if token.type ≠ type then throwParseError message
  else
    advance
    pure token.text

def accept (type : TokenType) : Parser Bool := do
  let token ← current
  if token.type ≠ type then pure false
  else
    advance
    pure true

def takeText : Parser Text := do
  let token ← current
  advance
  pure token.text

def optional {Result : Type} (type : TokenType) (part : Parser Result) (absent : Result) :
    Parser Result := do
  let token ← current
  if token.type = type then part else pure absent

/-- The loop over the elements before a closing token; a comma may follow each. -/
def elements {Item : Type} (loop : ParserLoop) (close : TokenType) (item : Parser Item)
    (bound : Nat) : Parser (List Item) :=
  repeatWhile .exhausted loop (fun impl => impl.current.type ≠ close)
    (do
      let element ← item
      let _ ← accept .comma
      pure [element]) bound

def magnitude (digits : Text) : Nat :=
  digits.foldl (fun number digit => number * 10 + (digit.toNat - 48)) 0

def integer : Text → Int
  | 45 :: digits => -(magnitude digits : Int)
  | digits => magnitude digits

/-- `std::stoll` of the text of an `Int` token; it throws beyond 64 bits. -/
def stoll (text : Text) : Option Int :=
  if -9223372036854775808 ≤ integer text ∧ integer text ≤ 9223372036854775807 then
    some (integer text)
  else none

section

variable (stod : Text → Bool)

def intValue (text : Text) : Value :=
  match stoll text with
  | some parsed => ⟨.int, .int parsed⟩
  | none => ⟨.int, .string text⟩

def floatValue (text : Text) : Value :=
  if stod text then ⟨.float, .float text⟩ else ⟨.float, .string text⟩

def nameValue (text : Text) : Value :=
  if text = ascii "true" then ⟨.boolean, .bool true⟩
  else if text = ascii "false" then ⟨.boolean, .bool false⟩
  else if text = ascii "null" then ⟨.null, .null⟩
  else ⟨.enum, .string text⟩

def parseListValue (parseValue : Parser Value) (bound : Nat) : Parser Value :=
  call .parseListValue do
    let _ ← expect .leftBracket "Expected '[' to start list value"
    let result ← elements .listItems .rightBracket (do
      let item ← parseValue
      pure item.value) bound
    let _ ← expect .rightBracket "Expected ']' to end list value"
    pure ⟨.list, .array result⟩

def parseObjectField (parseValue : Parser Value) : Parser (Text × Json) := do
  let fieldName ← expect .name "Expected field name in object value"
  let _ ← expect .colon "Expected ':' after object field name"
  let item ← parseValue
  pure (fieldName, item.value)

def parseObjectValue (parseValue : Parser Value) (bound : Nat) : Parser Value :=
  call .parseObjectValue do
    let _ ← expect .leftBrace "Expected '\x7b' to start object value"
    let fields ← elements .objectFields .rightBrace (parseObjectField parseValue) bound
    let _ ← expect .rightBrace "Expected '\x7d' to end object value"
    pure ⟨.object, .object (OrderedMap.assignAll [] fields)⟩

def parseValue : Nat → Parser Value
  | 0 => fail .exhausted
  | bound + 1 => call .parseValue do
      let token ← current
      match token.type with
      | .dollar =>
        advance
        let variableName ← expect .name "Expected variable name after '$'"
        pure ⟨.variable, .object [(ascii "$variable", .string variableName)]⟩
      | .string =>
        let value ← takeText
        pure ⟨.string, .string value⟩
      | .int =>
        let value ← takeText
        pure (intValue value)
      | .float =>
        let value ← takeText
        pure (floatValue stod value)
      | .leftBracket => parseListValue (parseValue bound) bound
      | .leftBrace => parseObjectValue (parseValue bound) bound
      | .name =>
        let value ← takeText
        pure (nameValue value)
      | _ => throwParseError "Expected value"

variable (bound : Nat)

def parseArgument : Parser Argument := do
  let name ← expect .name "Expected argument name in field arguments"
  let _ ← expect .colon "Expected ':' after argument name"
  let value ← parseValue stod bound
  pure ⟨name, value⟩

def parseArguments : Parser (List Argument) := do
  let _ ← expect .leftParen "Expected '(' to start arguments"
  let arguments ← elements .arguments .rightParen (parseArgument stod bound) bound
  let _ ← expect .rightParen "Expected ')' after arguments"
  pure arguments

def parseDirective : Parser Directive := do
  let _ ← expect .atSign "Expected '@' to start directive"
  let name ← expect .name "Expected directive name"
  let arguments ← optional .leftParen (parseArguments stod bound) []
  pure ⟨name, arguments⟩

def parseDirectives : Parser (List Directive) :=
  repeatWhile .exhausted .directives (fun impl => impl.current.type = .atSign)
    (do
      let directive ← parseDirective stod bound
      pure [directive]) bound

def parseFieldName : Parser (Text × Text) := do
  let fieldName ← expect .name "Expected field name in selection set"
  let aliased ← accept .colon
  if aliased then
    let name ← expect .name "Expected field name after alias"
    pure (name, fieldName)
  else pure (fieldName, [])

/-- `nested` is `parseSelectionSet(depth + 1)`. -/
def parseField (nested : Parser Selections) (bound : Nat) :
    Parser FieldSelection :=
  call .parseField do
    let (name, aliasName) ← parseFieldName
    let arguments ← optional .leftParen (parseArguments stod bound) []
    let directives ← parseDirectives stod bound
    let selections ← optional .leftBrace nested []
    pure { name, aliasName, arguments, directives, selections }

/-- `same` is `parseSelectionSet(depth)`; the type condition is not enforced. -/
def parseInlineFragment (same : Parser Selections) (bound : Nat) :
    Parser Selections :=
  call .parseInlineFragment do
    let token ← current
    if token.isName "on" then
      advance
      let _ ← expect .name "Expected inline fragment type condition"
    let _ ← parseDirectives stod bound
    same

def parseFragmentSpread (same : Parser Selections) (bound : Nat) :
    Parser Selections :=
  call .parseFragmentSpread do
    let _ ← expect .spread "Expected '...'"
    let token ← current
    if token.isName "on" then parseInlineFragment stod same bound
    else
      let fragmentSpreadName ← expect .name "Expected fragment name after '...'"
      let _ ← parseDirectives stod bound
      pure [{ fragmentSpreadName }]

def parseSelection (same nested : Parser Selections) (bound : Nat) :
    Parser Selections := do
  let token ← current
  if token.type = .spread then parseFragmentSpread stod same bound
  else
    let field ← parseField stod nested bound
    pure [field]

def parseSelectionSet : Nat → Nat → Parser Selections
  | 0, _ => fail .exhausted
  | bound + 1, depth => call .parseSelectionSet (
      if kMaxDepth ≤ depth then
        throwParseError ("Query exceeds maximum nesting depth of " ++ toString kMaxDepth)
      else do
        let _ ← expect .leftBrace "Expected '\x7b' to start selection set"
        let fields ← repeatWhile .exhausted .selections
          (fun impl => impl.current.type ≠ .rightBrace)
          (parseSelection stod (parseSelectionSet bound depth)
            (parseSelectionSet bound (depth + 1)) bound) bound
        let _ ← expect .rightBrace "Expected '\x7d' to end selection set"
        pure fields)

def parseFragmentDefinition : Parser FragmentDefinition := do
  let _ ← expect .name "Expected 'fragment' keyword"
  let name ← expect .name "Expected fragment name"
  let token ← current
  if !token.isName "on" then throwParseError "Expected 'on' in fragment definition"
  else
    advance
    let typeCondition ← expect .name "Expected type condition in fragment definition"
    let directives ← parseDirectives stod bound
    let selections ← parseSelectionSet stod bound 0
    pure { name, typeCondition, directives, selections }

def parseTypeName : Parser (Text × Bool) := do
  let isList ← accept .leftBracket
  if isList then
    let typeName ← expect .name "Expected type name in variable definition"
    let _ ← expect .rightBracket "Expected ']' in type reference"
    pure (typeName, true)
  else
    let typeName ← expect .name "Expected type name in variable definition"
    pure (typeName, false)

/-- `skipTypeReference`, with what it stores in the definition. -/
def skipTypeReference : Parser (Text × Bool × Bool) := do
  let (typeName, isList) ← parseTypeName
  let nonNull ← accept .bang
  pure (typeName, isList, nonNull)

def parseDefaultValue : Parser (Option Value) := do
  let present ← accept .equals
  if present then
    let value ← parseValue stod bound
    pure (some value)
  else pure none

def parseVariableDefinition : Parser VariableDefinition := do
  let _ ← expect .dollar "Expected '$' in variable definition"
  let name ← expect .name "Expected variable name in definition"
  let _ ← expect .colon "Expected ':' after variable name"
  let (typeName, isList, nonNull) ← skipTypeReference
  let defaultValue ← parseDefaultValue stod bound
  pure { name, typeName, nonNull, isList, defaultValue }

def parseVariableDefinitions : Parser (List VariableDefinition) := do
  let _ ← expect .leftParen "Expected '(' to start variable definitions"
  let definitions ← elements .variableDefinitions .rightParen
    (parseVariableDefinition stod bound) bound
  let _ ← expect .rightParen "Expected ')' after variable definitions"
  pure definitions

def operationType? (keyword : Text) : Option OperationType :=
  if keyword = ascii "query" then some .query
  else if keyword = ascii "mutation" then some .mutation
  else if keyword = ascii "subscription" then some .subscription
  else none

def parseOperationHeader (type : OperationType) (bound : Nat) : Parser Operation := do
  let name ← optional .name takeText []
  let variableDefinitions ← optional .leftParen (parseVariableDefinitions stod bound) []
  let directives ← parseDirectives stod bound
  pure { type, name, variableDefinitions, directives }

def parseOperationStart : Parser Operation := do
  let token ← current
  match token.type with
  | .leftBrace => pure { type := .query }
  | .name =>
    match operationType? token.text with
    | some type =>
      advance
      parseOperationHeader stod type bound
    | none => throwParseError "Expected operation type or selection set"
  | _ => throwParseError "Expected operation definition"

def parseOperationDefinition : Parser Operation := do
  let operation ← parseOperationStart stod bound
  let selections ← parseSelectionSet stod bound 0
  pure { operation with selections }

def parseDocument : Parser Operation := do
  let operation ← parseOperationDefinition stod bound
  let definitions ← repeatWhile .exhausted .fragmentDefinitions
    (fun impl => impl.current.isName "fragment")
    (do
      let frag ← parseFragmentDefinition stod bound
      pure [(frag.name, frag)]) bound
  let token ← current
  if token.type ≠ .endOfInput then throwParseError "Unexpected token after operation"
  else pure { operation with fragments := OrderedMap.assignAll operation.fragments definitions }

/-- `Parser::parse` with the trace that it leaves. -/
def parseTraced (query : Text) : Tracing.Trace parserSignature × Except ParseError Operation :=
  match Tokenizer.next ⟨query, 0⟩ with
  | .error failure => ([.step none], .error failure)
  | .ok (token, tokenizer) =>
    let (trace, result) := parseDocument stod (query.length + 1) ⟨tokenizer, token⟩
    (.step none :: trace, result.map Prod.fst)

def parse (query : Text) : Except ParseError Operation :=
  (parseTraced stod query).2

/-- What `e.what()` points to ends at the first zero byte of the message. -/
def tryParse (query : Text) : Except Text Operation :=
  match parse stod query with
  | .ok operation => .ok operation
  | .error (.runtimeError message) => .error (message.takeWhile (· ≠ 0))
  | .error .exhausted => .error []

end

end Parser

end Coroserver.GraphQL
