import Coroserver.GraphQL.ParserTokens
import Coroserver.GraphQL.PrintingTotality

/-! `kMaxDepth` is checked in `parseSelectionSet` only, for the depth that
`parseField` increments. An inline fragment is parsed at the depth of the
selections around it, and values have no depth at all, so these recurse as deeply
as the query is nested. -/

namespace Coroserver.GraphQL

open Parsing Lexeme
open Tracing (nested nested_of_call)
open Tracing

namespace Parser

section

variable {stod : Text → Bool}

variable {impl : Impl}

theorem nested_bind_of_yields {First Second : Type} {least : Nat}
    {computation : Parser First} {continuation : First → Parser Second} {value : First}
    {rest : List Lexeme} (yielded : Yields (computation impl) value rest)
    (later : ∀ next, Reads rest next → least ≤ nested (continuation value next).1) :
    least ≤ nested ((computation >>= continuation) impl).1 := by
  obtain ⟨next, parsed, reads⟩ := yielded
  exact Nat.le_trans (later next reads) (nested_le_bind_of_ok parsed)

theorem parseValue_nested {count bound : Nat} (enough : count < bound)
    (reads : Reads (List.replicate count leftBracket) impl) :
    count ≤ nested (parseValue stod bound impl).1 := by
  induction count generalizing bound impl with
  | zero => exact Nat.zero_le _
  | succ count ih =>
    obtain ⟨bound, rfl⟩ : ∃ less, bound = less + 2 := ⟨bound - 2, by omega⟩
    rw [parseValue, nested_of_call, current_bind, (reads_cons reads).1]
    refine Nat.le_trans ?_ (Nat.le_add_right _ _)
    change _ ≤ nested (parseListValue _ _ impl).1
    rw [parseListValue, nested_of_call]
    apply Nat.succ_le_succ
    refine nested_bind_of_yields (expect_yields reads)
      fun next later => ?_
    cases count with
    | zero => exact Nat.zero_le _
    | succ =>
      have opens : next.current.type = .leftBracket := (reads_cons later).1
      have inner := @ih next (bound + 1) (by omega) later
      refine Nat.le_trans (Nat.le_trans inner ?_) nested_le_bind
      refine Nat.le_trans ?_ (nested_le_repeatWhile (by simp [opens]) _ _ _)
      exact Nat.le_trans nested_le_bind nested_le_bind

def bracketsQuery (count : Nat) : Text :=
  ascii "\x7ba(b:" ++ List.replicate count 91

def bracketsLexemes (count : Nat) : List Lexeme :=
  [leftBrace, Lexeme.name (ascii "a"), leftParen, Lexeme.name (ascii "b"), colon] ++
    List.replicate count leftBracket

private theorem spells_brackets (count : Nat) (Previous : Prop) :
    Spells simpleEscape Previous (List.replicate count leftBracket) (List.replicate count 91) := by
  induction count generalizing Previous with
  | zero => exact .nil .nil
  | succ count ih =>
    exact .adjacent [91] (fun _ => by decide) (.punctuator (by decide)) (ih _)

theorem spells_bracketsQuery (count : Nat) :
    Spells simpleEscape False (bracketsLexemes count) (bracketsQuery count) :=
  .adjacent [123] nofun (.punctuator (by decide)) <|
    .adjacent (ascii "a") (by decide) (.name (by decide)) <|
    .adjacent [40] (by decide) (.punctuator (by decide)) <|
    .adjacent (ascii "b") (by decide) (.name (by decide)) <|
    .adjacent [58] (by decide) (.punctuator (by decide)) (spells_brackets count _)

private theorem parseArguments_nested {count bound : Nat} (enough : count < bound)
    (reads : Reads (leftParen :: Lexeme.name (ascii "b") :: colon ::
      List.replicate count leftBracket) impl) :
    count ≤ nested (parseArguments stod bound impl).1 := by
  obtain ⟨bound, rfl⟩ : ∃ less, bound = less + 1 := ⟨bound - 1, by omega⟩
  refine nested_bind_of_yields (expect_yields reads) fun next later => ?_
  have named : next.current.type = .name := (reads_cons later).1
  refine Nat.le_trans (Nat.le_trans ?_ (nested_le_repeatWhile (by simp [named]) _ _ _))
    nested_le_bind
  refine Nat.le_trans ?_ nested_le_bind
  refine nested_bind_of_yields (expect_yields later) fun next later => ?_
  refine nested_bind_of_yields (expect_yields later) fun next later => ?_
  exact Nat.le_trans (parseValue_nested enough later) nested_le_bind

theorem parseSelectionSet_nested {count bound : Nat} {impl : Impl} (enough : count + 1 < bound)
    (reads : Reads (bracketsLexemes count) impl) :
    count ≤ nested (parseSelectionSet stod bound 0 impl).1 := by
  obtain ⟨bound, rfl⟩ : ∃ less, bound = less + 2 := ⟨bound - 2, by omega⟩
  rw [parseSelectionSet, nested_of_call, if_neg (by decide)]
  refine Nat.le_trans ?_ (Nat.le_add_right _ _)
  refine nested_bind_of_yields (expect_yields reads) fun next later => ?_
  have named : next.current.type = .name := (reads_cons later).1
  refine Nat.le_trans (Nat.le_trans ?_ (nested_le_repeatWhile (by simp [named]) _ _ _))
    nested_le_bind
  rw [parseSelection, current_bind, named, if_neg (by decide)]
  refine Nat.le_trans ?_ nested_le_bind
  rw [parseField, nested_of_call]
  refine Nat.le_trans ?_ (Nat.le_add_right _ _)
  have fieldName : Yields (parseFieldName next) (ascii "a", []) _ :=
    (expect_yields later).bind fun next later =>
      (accept_yields_false later (notNext_cons (by decide)) (by decide)).bind
        fun next later => Source.yields_pure later
  refine nested_bind_of_yields fieldName fun next later => ?_
  refine Nat.le_trans ?_ nested_le_bind
  have opens : next.current.type = .leftParen := (reads_cons later).1
  rw [optional, current_bind, if_pos opens]
  exact parseArguments_nested (by omega) later

theorem parse_nested_bracketsQuery (count : Nat) :
    count ≤ nested (parseTraced stod (bracketsQuery count)).1 := by
  obtain ⟨token, tokenizer, drawn, reads⟩ := reads_of_next (spells_bracketsQuery count) 0
  have enough : count + 1 < (bracketsQuery count).length + 1 := by
    simp [bracketsQuery, ascii]
  have opens : token.type = .leftBrace := (reads_cons reads).1
  have inside := @parseSelectionSet_nested stod _ _ _ enough reads
  unfold parseTraced
  rw [drawn]
  refine Nat.le_trans inside (Nat.le_trans ?_ (Nat.le_max_right _ _))
  refine Nat.le_trans ?_ nested_le_bind
  have start : parseOperationStart stod ((bracketsQuery count).length + 1)
      ⟨tokenizer, token⟩ = ([], .ok ({ type := .query }, ⟨tokenizer, token⟩)) := by
    rw [parseOperationStart, current_bind, opens]
    rfl
  refine Nat.le_trans ?_ (nested_le_bind_of_ok (congrArg Prod.snd start))
  exact nested_le_bind

end

/-- The active calls grow with the length of the query, at least by one for every list
that a value opens. -/
theorem parse_nested_of_brackets (stod : Text → Bool) (count : Nat) :
    (bracketsQuery count).length = count + 5 ∧
      count ≤ nested (parseTraced stod (bracketsQuery count)).1 := by
  refine ⟨?_, parse_nested_bracketsQuery count⟩
  simp only [bracketsQuery, List.length_append, List.length_replicate]
  exact Nat.add_comm 5 count

/-- No constant bounds the active calls for all queries. -/
theorem parse_nested_unbounded :
    ¬ ∃ limit, ∀ stod query, nested (parseTraced stod query).1 ≤ limit := by
  rintro ⟨limit, bounded⟩
  have deep : limit + 1 ≤ nested (parseTraced (fun _ => true) (bracketsQuery (limit + 1))).1 :=
    parse_nested_bracketsQuery (limit + 1)
  exact Nat.not_succ_le_self limit (Nat.le_trans deep (bounded _ _))

end Parser

end Coroserver.GraphQL
