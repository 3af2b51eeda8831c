import Coroserver.GraphQL.ParserProgress

/-! The parser calls `Tokenizer::next` only to replace a token that is not the end, and every such
token stands for a byte of the query. -/

namespace Coroserver.GraphQL

open Tracing

namespace Parser

/-- A call of `Tokenizer::next` that replaces a token which is not the end. -/
def TakesToken (nextCall : NextCall) : Prop :=
  ∃ token, nextCall = some token ∧ token.type ≠ .endOfInput

/-- The calls of `Tokenizer::next` take tokens, at least `least` of them, and the
parser finishes where less than `bound` is ahead of it. -/
abbrev Takes {Result : Type} (least bound : Nat) (impl : Impl)
    (outcome : Outcome parserSignature Result) : Prop :=
  Spends ⟨Impl.size, TakesToken, ParseError.exhausted⟩ least bound impl outcome

variable {impl : Impl} {bound : Nat}

variable {Result : Type} {type : TokenType}

variable {message : String}

theorem throwParseError_takes {least : Nat} :
    Takes least bound impl ((throwParseError message : Parser Result) impl) := by
  rw [throwParseError, current_bind]
  exact spends_fail nofun

theorem advance_takes (token : impl.current.type ≠ .endOfInput) :
    Takes 1 bound impl (advance impl) := by
  have sized : impl.size = impl.tokenizer.rest.length + 1 := by rw [Impl.size, if_neg token]
  have single : steps (advance impl).1 = [some impl.current] := rfl
  obtain ⟨proper, shorter⟩ := next_spec impl.tokenizer
  refine ⟨?_, ?_, ?_, List.forall_mem_nil _, ?_⟩
  · intro step member
    rw [single] at member
    exact ⟨impl.current, List.mem_singleton.mp member, token⟩
  · change 1 ≤ impl.size
    omega
  · intro _ _ read
    obtain ⟨moved, advanced, same⟩ := Fallible.map_eq_ok.mp read
    obtain ⟨⟨drawnToken, left⟩, drawn, rfl⟩ := Fallible.map_eq_ok.mp advanced
    cases same
    have smaller := shorter drawnToken left drawn
    change 1 ≤ 1 ∧ 1 + Impl.size ⟨left, drawnToken⟩ ≤ impl.size
    omega
  · intro _ failed
    exact proper (Fallible.map_eq_error.mp (Fallible.map_eq_error.mp failed))

theorem expect_takes (token : type ≠ .endOfInput) :
    Takes 1 bound impl (expect type message impl) := by
  rw [expect, current_bind]
  split
  · exact throwParseError_takes
  · rename_i same
    rw [not_not] at same
    exact (advance_takes (same ▸ token)).bind_any fun _ next => spends_pure _

theorem accept_takes (token : type ≠ .endOfInput) :
    Takes 0 bound impl (accept type impl) := by
  rw [accept, current_bind]
  split
  · exact spends_pure _
  · rename_i same
    rw [not_not] at same
    exact (advance_takes (same ▸ token)).any.bind_any fun _ next => spends_pure _

theorem takeText_takes (token : impl.current.type ≠ .endOfInput) :
    Takes 1 bound impl (takeText impl) := by
  rw [takeText, current_bind]
  exact (advance_takes token).bind_any fun _ next => spends_pure _

theorem optional_takes {part : Parser Result} {absent : Result}
    (takes : impl.current.type = type → Takes 0 bound impl (part impl)) :
    Takes 0 bound impl (optional type part absent impl) := by
  rw [optional, current_bind]
  split
  · rename_i same
    exact takes same
  · exact spends_pure _

theorem enclosed_takes {Item : Type} {loop : ParserLoop} {start close : TokenType}
    {item : Parser Item} (takes : ∀ impl, Takes 1 bound impl (item impl))
    (starts : start ≠ .endOfInput) (closes : close ≠ .endOfInput) (value : List Item → Result)
    {atStart atClose : String} :
    Takes 1 (bound + 1) impl ((do
      let _ ← expect start atStart
      let items ← elements loop close item bound
      let _ ← expect close atClose
      pure (value items) : Parser Result) impl) := by
  refine (expect_takes starts).bind_inner fun _ inner => ?_
  refine Spends.bind_any ?_ fun items last => ?_
  · refine spends_repeatWhile (fun impl _ => ?_) _ (Nat.le_refl _)
    refine (takes impl).bind_any fun element next => ?_
    exact (accept_takes (by decide)).bind_any fun _ last => spends_pure _
  · exact (expect_takes closes).any.bind_any fun _ next => spends_pure _

section

variable {stod : Text → Bool}

theorem parseListValue_takes {parseValue : Parser Value}
    (takes : ∀ impl, Takes 1 bound impl (parseValue impl)) :
    Takes 1 (bound + 1) impl (parseListValue parseValue bound impl) := by
  refine Spends.call (enclosed_takes (fun impl => ?_) (by decide) (by decide) _) _
  exact (takes impl).bind_any fun item next => spends_pure _

private theorem parseObjectValue_takes {parseValue : Parser Value}
    (takes : ∀ impl, Takes 1 bound impl (parseValue impl)) :
    Takes 1 (bound + 1) impl (parseObjectValue parseValue bound impl) := by
  refine Spends.call (enclosed_takes (fun impl => ?_) (by decide) (by decide) _) _
  refine (expect_takes (by decide)).bind_any fun fieldName next => ?_
  refine (expect_takes (by decide)).any.bind_any fun _ last => ?_
  exact (takes last).any.bind_any fun item left => spends_pure _

theorem parseValue_takes :
    Takes 1 bound impl (parseValue stod bound impl) := by
  induction bound generalizing impl with
  | zero => exact spends_fail nofun
  | succ bound ih =>
    have taken : ∀ (type : TokenType) (value : Text → Value), impl.current.type = type →
        type ≠ .endOfInput →
        Takes 1 (bound + 1) impl
          ((takeText >>= fun text => pure (value text) : Parser Value) impl) := by
      intro _ _ same token
      exact (takeText_takes (same ▸ token)).bind_any fun _ next => spends_pure _
    refine Spends.call ?_ _
    rw [current_bind]
    cases same : impl.current.type with
    | dollar =>
      refine (advance_takes (by rw [same]; decide)).bind_any fun _ next => ?_
      exact (expect_takes (by decide)).any.bind_any fun variableName last => spends_pure _
    | string => exact taken _ (fun value => ⟨.string, .string value⟩) same (by decide)
    | int => exact taken _ intValue same (by decide)
    | float => exact taken _ (floatValue stod) same (by decide)
    | leftBracket => exact parseListValue_takes fun impl => ih
    | leftBrace => exact parseObjectValue_takes fun impl => ih
    | name => exact taken _ nameValue same (by decide)
    | _ => exact throwParseError_takes

theorem parseArguments_takes :
    Takes 1 bound impl (parseArguments stod bound impl) := by
  refine (enclosed_takes (fun impl => ?_) (by decide) (by decide) fun items => items).mono
    (Nat.le_refl 1) (Nat.le_succ bound)
  refine (expect_takes (by decide)).bind_any fun name next => ?_
  refine (expect_takes (by decide)).any.bind_any fun _ last => ?_
  exact parseValue_takes.any.bind_any fun value left => spends_pure _

theorem parseDirectives_takes :
    Takes 0 bound impl (parseDirectives stod bound impl) := by
  refine spends_repeatWhile (fun impl _ => ?_) _ (Nat.le_refl _)
  refine Spends.bind_any ?_ fun directive next => spends_pure _
  refine (expect_takes (by decide)).bind_any fun _ afterSign => ?_
  refine (expect_takes (by decide)).any.bind_any fun name afterName => ?_
  refine (optional_takes fun _ => parseArguments_takes.any).bind_any fun arguments left => ?_
  exact spends_pure _

theorem parseFieldName_takes : Takes 1 bound impl (parseFieldName impl) := by
  refine (expect_takes (by decide)).bind_any fun fieldName afterName => ?_
  refine (accept_takes (by decide)).bind_any fun aliased afterColon => ?_
  split
  · exact (expect_takes (by decide)).any.bind_any fun name left => spends_pure _
  · exact spends_pure _

variable {nested same : Parser Selections}

theorem parseField_takes (takes : ∀ impl, Takes 1 bound impl (nested impl)) :
    Takes 1 bound impl (parseField stod nested bound impl) := by
  refine Spends.call (parseFieldName_takes.bind_any fun (name, aliasName) afterName => ?_) _
  refine (optional_takes fun _ => parseArguments_takes.any).bind_any
    fun arguments afterArguments => ?_
  refine parseDirectives_takes.bind_any fun directives afterDirectives => ?_
  exact (optional_takes fun _ => (takes _).any).bind_any fun selections left => spends_pure _

theorem isName_ne_endOfInput {token : Token} {text : String} (named : token.isName text = true) :
    token.type ≠ .endOfInput := by
  intro ended
  simp [Token.isName, ended] at named

private theorem parseInlineFragment_takes (takes : ∀ impl, Takes 1 bound impl (same impl)) :
    Takes 1 bound impl (parseInlineFragment stod same bound impl) := by
  have body : ∀ impl, Takes 1 bound impl ((do
      let _ ← parseDirectives stod bound
      same : Parser Selections) impl) := fun impl =>
    parseDirectives_takes.any_bind fun _ next => takes next
  refine Spends.call ?_ _
  rw [current_bind]
  split
  · rename_i named
    refine (advance_takes (isName_ne_endOfInput named)).bind_any fun _ afterOn => ?_
    exact (expect_takes (by decide)).any.bind_any fun _ afterType => (body afterType).any
  · exact body impl

private theorem parseSelection_takes (takesSame : ∀ impl, Takes 1 bound impl (same impl))
    (takesNested : ∀ impl, Takes 1 bound impl (nested impl)) :
    Takes 1 bound impl (parseSelection stod same nested bound impl) := by
  rw [parseSelection, current_bind]
  split
  · refine Spends.call ((expect_takes (by decide)).bind_any fun _ afterSpread => ?_) _
    rw [current_bind]
    split
    · exact (parseInlineFragment_takes takesSame).any
    · refine (expect_takes (by decide)).any.bind_any fun fragmentSpreadName afterName => ?_
      exact parseDirectives_takes.bind_any fun _ left => spends_pure _
  · exact (parseField_takes takesNested).bind_any fun field next => spends_pure _

theorem parseSelectionSet_takes (depth : Nat) :
    Takes 1 bound impl
      (parseSelectionSet stod bound depth impl) := by
  induction bound generalizing depth impl with
  | zero => exact spends_fail nofun
  | succ bound ih =>
    refine Spends.call ?_ _
    split
    · exact throwParseError_takes
    · refine (expect_takes (by decide)).bind_inner fun _ inner => ?_
      refine (spends_repeatWhile (fun impl _ => ?_) _ (Nat.le_refl _)).bind_any
        fun fields last => ?_
      · exact parseSelection_takes (fun impl => ih depth) (fun impl => ih (depth + 1))
      · exact (expect_takes (by decide)).any.bind_any fun _ left => spends_pure _

theorem parseFragmentDefinition_takes :
    Takes 1 bound impl
      (parseFragmentDefinition stod bound impl) := by
  refine (expect_takes (by decide)).bind_any fun _ afterKeyword => ?_
  refine (expect_takes (by decide)).any.bind_any fun name afterName => ?_
  rw [current_bind]
  split
  · exact throwParseError_takes
  · rename_i named
    have token : afterName.current.isName "on" = true := by simpa using named
    refine (advance_takes (isName_ne_endOfInput token)).any.bind_any fun _ afterOn => ?_
    refine (expect_takes (by decide)).any.bind_any fun typeCondition afterType => ?_
    refine parseDirectives_takes.bind_any fun directives afterDirectives => ?_
    exact (parseSelectionSet_takes 0).any.bind_any fun selections left => spends_pure _

private theorem skipTypeReference_takes : Takes 1 bound impl (skipTypeReference impl) := by
  have typeName : Takes 1 bound impl (parseTypeName impl) := by
    refine (accept_takes (by decide)).any_bind fun isList afterBracket => ?_
    split
    · refine (expect_takes (by decide)).bind_any fun typeName afterName => ?_
      exact (expect_takes (by decide)).any.bind_any fun _ left => spends_pure _
    · exact (expect_takes (by decide)).bind_any fun typeName left => spends_pure _
  refine typeName.bind_any fun (name, isList) afterName => ?_
  exact (accept_takes (by decide)).bind_any fun nonNull left => spends_pure _

private theorem parseVariableDefinitions_takes :
    Takes 1 bound impl (parseVariableDefinitions stod bound impl) := by
  have default : ∀ impl,
      Takes 0 bound impl (parseDefaultValue stod bound impl) := by
    intro impl
    refine (accept_takes (by decide)).bind_any fun present afterEquals => ?_
    split
    · exact parseValue_takes.any.bind_any fun value left => spends_pure _
    · exact spends_pure _
  refine (enclosed_takes (fun impl => ?_) (by decide) (by decide) fun items => items).mono
    (Nat.le_refl 1) (Nat.le_succ bound)
  refine (expect_takes (by decide)).bind_any fun _ afterDollar => ?_
  refine (expect_takes (by decide)).any.bind_any fun name afterName => ?_
  refine (expect_takes (by decide)).any.bind_any fun _ afterColon => ?_
  refine skipTypeReference_takes.any.bind_any fun (typeName, isList, nonNull) afterType => ?_
  exact (default afterType).bind_any fun defaultValue left => spends_pure _

private theorem parseOperationStart_takes :
    Takes 0 bound impl (parseOperationStart stod bound impl) := by
  have header : ∀ (type : OperationType) (impl : Impl),
      Takes 0 bound impl (parseOperationHeader stod type bound impl) := by
    intro type impl
    have name : Takes 0 bound impl (optional .name takeText [] impl) := by
      refine optional_takes fun same => ?_
      exact (takeText_takes (by rw [same]; decide)).any
    refine name.bind_any fun name afterName => ?_
    refine (optional_takes fun _ => parseVariableDefinitions_takes.any).bind_any
      fun variableDefinitions afterDefinitions => ?_
    exact parseDirectives_takes.bind_any fun directives left => spends_pure _
  rw [parseOperationStart, current_bind]
  cases same : impl.current.type with
  | leftBrace => exact spends_pure _
  | name =>
    cases keyword : operationType? impl.current.text with
    | none => exact throwParseError_takes
    | some type =>
      refine (advance_takes (by rw [same]; decide)).any.bind_any fun _ next => ?_
      exact header type next
  | _ => exact throwParseError_takes

theorem parseDocument_takes :
    Takes 0 bound impl (parseDocument stod bound impl) := by
  have definition : Takes 0 bound impl
      (parseOperationDefinition stod bound impl) := by
    refine parseOperationStart_takes.bind_any fun operation afterStart => ?_
    exact (parseSelectionSet_takes 0).any.bind_any fun selections left => spends_pure _
  refine definition.bind_any fun operation afterOperation => ?_
  refine (spends_repeatWhile (fun impl _ => ?_) _ (Nat.le_refl _)).bind_any
    fun definitions left => ?_
  · exact parseFragmentDefinition_takes.bind_any fun frag next => spends_pure _
  · rw [current_bind]
    split
    · exact throwParseError_takes
    · exact spends_pure _

end

variable (stod : Text → Bool)

private theorem parse_ne_exhausted (query : Text) : parse stod query ≠ .error .exhausted := by
  obtain ⟨proper, shorter⟩ := next_spec ⟨query, 0⟩
  rw [parse, parseTraced]
  cases drawn : Tokenizer.next ⟨query, 0⟩ with
  | error =>
    intro same
    cases same
    exact proper drawn
  | ok pair =>
    have within : Impl.size ⟨pair.2, pair.1⟩ < query.length + 1 :=
      Nat.lt_succ_of_le (shorter pair.1 pair.2 drawn)
    intro exhausted
    exact parseDocument_takes.finishes within (Fallible.map_eq_error.mp exhausted)

/-- The calls are bounded by the length of the query, each turn of a loop takes a token or throws,
and nothing goes beyond that bound. -/
theorem parse_calls_next (query : Text) :
    (parseTraced stod query).2 = parse stod query ∧
      ((∃ operation, parse stod query = .ok operation) ∨
        ∃ message, parse stod query = .error (.runtimeError message)) ∧
      (steps (parseTraced stod query).1).length ≤ query.length + 1 ∧
      ∀ turn ∈ turns (parseTraced stod query).1,
        if turn.completed then ∃ nextCall ∈ steps turn.body, TakesToken nextCall
        else ∃ message, parse stod query = .error (.runtimeError message) := by
  have thrown : ∀ failure, parse stod query = .error failure →
      ∃ message, parse stod query = .error (.runtimeError message) := by
    intro failure same
    cases failure with
    | runtimeError message => exact ⟨message, same⟩
    | exhausted => exact absurd same (parse_ne_exhausted stod query)
  refine ⟨rfl, ?_, ?_⟩
  · cases ended : parse stod query with
    | ok operation => exact .inl ⟨operation, rfl⟩
    | error failure => exact .inr (ended ▸ thrown failure ended)
  · unfold parse parseTraced at thrown ⊢
    cases drawn : Tokenizer.next ⟨query, 0⟩ with
    | error => exact ⟨Nat.le_add_left 1 _, nofun⟩
    | ok pair =>
      have sized : Impl.size ⟨pair.2, pair.1⟩ ≤ query.length :=
        (next_spec ⟨query, 0⟩).2 pair.1 pair.2 drawn
      obtain ⟨-, steps_le, -, kept, -⟩ :=
        @parseDocument_takes ⟨pair.2, pair.1⟩ (query.length + 1) stod
      rw [drawn] at thrown
      refine ⟨Nat.succ_le_succ (Nat.le_trans steps_le sized), ?_⟩
      intro turn member
      have own := kept turn member
      split at own
      · rename_i completed
        rwa [if_pos completed]
      · rename_i abandoned
        obtain ⟨failure, ended⟩ := own
        rw [if_neg abandoned]
        exact thrown failure (congrArg (Except.map Prod.fst) ended)

end Parser

end Coroserver.GraphQL
