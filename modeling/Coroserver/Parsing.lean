import Coroserver.Tracing

/-! A parser is a computation over a state from which lexemes are drawn one by one.
`Reads` says which lexemes are still to come, `Yields` which value a parser
returns and what it leaves, and `Returns` what holds of every value it returns. -/

namespace Coroserver.Parsing

open List Tracing

variable {sig : Signature} {Lexeme First Second Item : Type}

structure Source (sig : Signature) (Lexeme : Type) where
  lexeme : sig.State → Option Lexeme
  advance : sig.State → Except sig.Error sig.State

/-- The lexemes that are drawn from a state, up to the end. -/
def Source.Reads (source : Source sig Lexeme) : List Lexeme → sig.State → Prop
  | [], state => source.lexeme state = none
  | first :: rest, state =>
    source.lexeme state = some first ∧
      ∃ next, source.advance state = .ok next ∧ source.Reads rest next

/-- The parser returned the value and left the lexemes `rest`. -/
def Source.Yields (source : Source sig Lexeme) (outcome : Outcome sig First) (value : First)
    (rest : List Lexeme) : Prop :=
  ∃ next, outcome.2 = .ok (value, next) ∧ source.Reads rest next

/-- The parser reads `lexemes` as the value, if fewer than `bound` are to come. -/
def Source.Consumes (source : Source sig Lexeme) (bound : Nat)
    (parser : Traced sig First) (value : First) (lexemes rest : List Lexeme) : Prop :=
  ∀ state, (lexemes ++ rest).length < bound → source.Reads (lexemes ++ rest) state →
    source.Yields (parser state) value rest

section Reading

variable {source : Source sig Lexeme}

variable {rest : List Lexeme}

theorem Source.yields_pure {value : First} {state : sig.State} (reads : source.Reads rest state) :
    source.Yields ((pure value : Traced sig First) state) value rest :=
  ⟨state, rfl, reads⟩

variable {parser : Traced sig First} {first : First}

theorem Source.Yields.bind {continuation : First → Traced sig Second}
    {state : sig.State} {second : Second} {middle : List Lexeme}
    (yielded : source.Yields (parser state) first middle)
    (later : ∀ next, source.Reads middle next →
      source.Yields (continuation first next) second rest) :
    source.Yields ((parser >>= continuation) state) second rest := by
  obtain ⟨next, parsed, reads⟩ := yielded
  obtain ⟨last, finished, left⟩ := later next reads
  exact ⟨last, (Outcome.bind_result parsed).trans finished, left⟩

theorem Source.Yields.call {state : sig.State} (function : sig.Function)
    (yielded : source.Yields (parser state) first rest) :
    source.Yields (Traced.call function parser state) first rest :=
  yielded

theorem Source.Yields.map {change : First → Second} {state : sig.State}
    (yielded : source.Yields (parser state) first rest) :
    source.Yields ((parser >>= fun value => pure (change value)) state) (change first) rest :=
  yielded.bind fun _ reads => yields_pure reads

section

variable {second : Second} {continuation : First → Traced sig Second}
  {bound : Nat} {lexeme : Lexeme} {lexemes more : List Lexeme}

theorem Source.Consumes.bind (consumes : source.Consumes bound parser first lexemes (more ++ rest))
    (later : source.Consumes bound (continuation first) second more rest) :
    source.Consumes bound (parser >>= continuation) second (lexemes ++ more) rest := by
  intro state enough reads
  rw [append_assoc] at enough reads
  refine (consumes state enough reads).bind fun next reads => later next ?_ reads
  rw [length_append] at enough
  omega

theorem Source.Consumes.next (consumes : source.Consumes bound parser first [lexeme] (more ++ rest))
    (later : source.Consumes bound (continuation first) second more rest) :
    source.Consumes bound (parser >>= continuation) second (lexeme :: more) rest :=
  consumes.bind later

theorem Source.Consumes.skip (consumes : source.Consumes bound parser first [] (more ++ rest))
    (later : source.Consumes bound (continuation first) second more rest) :
    source.Consumes bound (parser >>= continuation) second more rest :=
  consumes.bind later

theorem Source.Consumes.map {change : First → Second}
    (consumes : source.Consumes bound parser first lexemes rest) :
    source.Consumes bound (parser >>= fun value => pure (change value)) (change first) lexemes
      rest :=
  fun state enough reads => (consumes state enough reads).map

end

theorem Source.Yields.repeatWhile {gaveUp : sig.Error} {loop : sig.Loop}
    {continues : sig.State → Bool} {item : Traced sig (List Item)}
    {Follows : List Lexeme → Prop} {limit : Nat}
    (stops : ∀ state, source.Reads rest state → continues state = false) (follows : Follows rest)
    {items : List Item} {parts : List (List Lexeme)}
    (reads_part : Forall₂ (fun value part => part ≠ [] ∧ ∀ more, Follows (part ++ more) ∧
      ∀ state, Follows more → (part ++ more).length < limit → source.Reads (part ++ more) state →
          continues state = true ∧ source.Yields (item state) [value] more) items parts)
    {bound : Nat} (enough : (parts.flatten ++ rest).length < bound)
    (within : (parts.flatten ++ rest).length < limit) {state : sig.State}
    (reads : source.Reads (parts.flatten ++ rest) state) :
    source.Yields (Traced.repeatWhile gaveUp loop continues item bound state) items rest := by
  induction reads_part generalizing bound state with
  | nil =>
    cases bound with
    | zero => cases enough
    | succ =>
      rw [repeatWhile_of_not_continues (stops state reads)]
      exact ⟨state, rfl, reads⟩
  | @cons value _ _ parts read others ih =>
    have followed : Follows (parts.flatten ++ rest) := by
      cases others with
      | nil => exact follows
      | cons second =>
        rw [flatten_cons, append_assoc]
        exact (second.2 _).1
    have positive := length_pos_of_ne_nil read.1
    rw [flatten_cons, append_assoc] at reads enough within
    rw [length_append] at enough
    cases bound with
    | zero => cases enough
    | succ =>
      obtain ⟨goes, yielded⟩ := (read.2 _).2 state followed within reads
      have turned : source.Yields (Traced.turn loop item state) [value] _ := yielded
      rw [repeatWhile_of_continues goes]
      refine turned.bind fun next reads => ?_
      rw [length_append] at within
      refine (ih (by omega) (by omega) reads).bind fun last left => ?_
      exact Source.yields_pure left

end Reading

section Results

def Returns (holds : First → Prop) (parser : Traced sig First) : Prop :=
  ∀ state value next, (parser state).2 = .ok (value, next) → holds value

variable {holds : First → Prop} {later : Second → Prop}
  {parser : Traced sig First}
  {continuation : First → Traced sig Second}

theorem returns_pure {value : First} (valid : holds value) :
    Returns holds (pure value : Traced sig First) := by
  intro _ _ _ returned
  cases returned
  exact valid

theorem Returns.call (returns : Returns holds parser) (function : sig.Function) :
    Returns holds (Traced.call function parser) :=
  returns

theorem Returns.bind (returns : Returns holds parser)
    (continues : ∀ value, holds value → Returns later (continuation value)) :
    Returns later (parser >>= continuation) := by
  intro state result next returned
  obtain ⟨value, middle, parsed, rest⟩ := Outcome.of_bind_ok returned
  exact continues value (returns state value middle parsed) middle result next rest

theorem returns_bind (continues : ∀ value, Returns later (continuation value)) :
    Returns later (parser >>= continuation) :=
  Returns.bind (fun _ _ _ _ => trivial : Returns (fun _ => True) parser) fun value _ =>
    continues value

theorem Returns.repeatWhile {gaveUp : sig.Error} {loop : sig.Loop} {continues : sig.State → Bool}
    {item : Traced sig (List Item)} {holds : List Item → Prop}
    (none : holds []) (append : ∀ first others, holds first → holds others →
      holds (first ++ others)) (returns : Returns holds item) (bound : Nat) :
    Returns holds (Traced.repeatWhile gaveUp loop continues item bound) := by
  induction bound with
  | zero =>
    intro _ _ _ impossible
    cases impossible
  | succ bound ih =>
    intro state value next returned
    cases goes : continues state with
    | false =>
      rw [repeatWhile_of_not_continues goes] at returned
      cases returned
      exact none
    | true =>
      have turned : Returns holds (Traced.turn loop item) := returns
      rw [repeatWhile_of_continues goes] at returned
      refine turned.bind (fun first valid => ?_) state value next returned
      exact ih.bind fun others validOthers =>
        returns_pure (append first others valid validOthers)

end Results

end Coroserver.Parsing
