import Coroserver.GraphQL.ParserProgress
import Coroserver.GraphQL.TokenizerProperties

/-! A document that was printed from an operation is parsed to that operation. Each
function of the parser is shown to read the lexemes of what it returns; where an
optional part may follow, what comes next must not be mistaken for it. -/

namespace Coroserver.GraphQL

open Parsing Lexeme List
open OrderedMap
open Tracing.Traced (repeatWhile)

namespace Parser

abbrev Reads (lexemes : List Lexeme) (impl : Impl) : Prop := Impl.lexemes.Reads lexemes impl

abbrev Yields {Result : Type}
    (outcome : Tracing.Outcome parserSignature Result)
    (value : Result) (rest : List Lexeme) : Prop :=
  Impl.lexemes.Yields outcome value rest

abbrev Consumes {Result : Type} (bound : Nat) (parser : Parser Result) (value : Result)
    (lexemes rest : List Lexeme) : Prop :=
  Impl.lexemes.Consumes bound parser value lexemes rest

def NotNext (types : List TokenType) (lexemes : List Lexeme) : Prop :=
  ∀ lexeme ∈ lexemes.head?, lexeme.1 ∉ types

variable {types : List TokenType} {type : TokenType} {rest : List Lexeme} {lexeme close : Lexeme}
  {impl : Impl} {Result Item : Type} {bound : Nat} {parts : List (List Lexeme)}

theorem NotNext.append {first second : List Lexeme} (notFirst : NotNext types first)
    (notSecond : NotNext types second) : NotNext types (first ++ second) := by
  cases first with
  | nil => exact notSecond
  | cons => exact notFirst

variable {text : Text} {part : Parser Result} {absent : Result} {items : List Item}
  {item : Parser Item}

theorem notNext_cons (notIn : type ∉ types) : NotNext types ((type, text) :: rest) := by
  intro first member
  cases member
  exact notIn

variable {lexemes : List Lexeme}

theorem NotNext.mono {fewer : List TokenType}
    (notNext : NotNext types lexemes) (subset : fewer ⊆ types) :
    NotNext fewer lexemes :=
  fun lexeme member inFewer => notNext lexeme member (subset inFewer)

theorem reads_cons (reads : Reads (lexeme :: rest) impl) :
    impl.current.type = lexeme.1 ∧ impl.current.text = lexeme.2 ∧
      ∃ next, impl.advance = .ok next ∧ Reads rest next := by
  obtain ⟨shown, later⟩ := reads
  change (if impl.current.type = .endOfInput then none
    else some (impl.current.type, impl.current.text)) = some lexeme at shown
  split at shown
  · cases shown
  · cases shown
    exact ⟨rfl, rfl, later⟩

theorem type_ne_of_notNext (reads : Reads rest impl) (notNext : NotNext [type] rest)
    (token : type ≠ .endOfInput) : impl.current.type ≠ type := by
  cases rest with
  | nil =>
    have ended : impl.current.type = .endOfInput := by
      by_contra notEnd
      have shown : (if impl.current.type = .endOfInput then none
        else some (impl.current.type, impl.current.text)) = none := reads
      rw [if_neg notEnd] at shown
      cases shown
    rw [ended]
    exact token.symm
  | cons lexeme =>
    rw [(reads_cons reads).1]
    intro same
    exact notNext lexeme rfl (mem_singleton.mpr same)

/-! ## Tokens -/

theorem advance_consumes : Consumes bound advance () [lexeme] rest := by
  intro impl _ reads
  obtain ⟨_, _, next, advanced, later⟩ := reads_cons reads
  refine ⟨next, ?_, later⟩
  unfold advance
  rw [advanced]
  rfl

theorem expect_yields {message : String} (reads : Reads (lexeme :: rest) impl) :
    Yields (expect lexeme.1 message impl) lexeme.2 rest := by
  obtain ⟨type, text, _⟩ := reads_cons reads
  rw [expect, current_bind, if_neg (not_not.mpr type), text]
  exact (advance_consumes impl (Nat.lt_succ_self _) reads).map

theorem accept_yields_false (reads : Reads rest impl) (notNext : NotNext [type] rest)
    (token : type ≠ .endOfInput) : Yields (accept type impl) false rest := by
  rw [accept, current_bind, if_pos (type_ne_of_notNext reads notNext token)]
  exact Source.yields_pure reads

section

variable {stod : Text → Bool}

variable {items : List Json} {members : Members} {value : Value}
  {selections : Selections} {printedDirectives : List Lexeme} {depth : Nat}
  {definition : VariableDefinition} {written : List FragmentDefinition}

variable {lexemes rest more : List Lexeme} {bound : Nat} {impl : Impl} {name aliasName : Text}
  {parts : List (List Lexeme)} {arguments : List Argument} {directives : List Directive}
  {nested same : Parser Selections} {selection : FieldSelection} {operation : Operation}

/-! ## Values -/

def ReadsJson (parseValue : Parser Value) (bound : Nat) (json : Json) : Prop :=
  ∀ {kind : ValueKind} {lexemes more : List Lexeme} {impl : Impl},
    PrintsValue ⟨kind, json⟩ lexemes → (lexemes ++ more).length < bound →
      Reads (lexemes ++ more) impl → Yields (parseValue impl) ⟨kind, json⟩ more

theorem ReadsJson.consumes {parseValue : Parser Value} {json : Json} {kind : ValueKind}
    (reads : ReadsJson parseValue bound json) (printed : PrintsValue ⟨kind, json⟩ lexemes) :
    Consumes bound parseValue ⟨kind, json⟩ lexemes rest :=
  fun _ => reads printed

end

end Parser

end Coroserver.GraphQL
