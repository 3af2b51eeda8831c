import Coroserver.GraphQL.Fragments
import Coroserver.GraphQL.Parser

/-! The parser limits the nesting of the selections of an operation, and that of the
selections of each fragment on its own. Expansion puts the selections of a
fragment where it is spread, so the levels of a chain of fragments add up. -/

namespace Coroserver.GraphQL

open List
open Parsing (Returns returns_pure returns_bind)

mutual

def levels : Selections → Nat
  | [] => 0
  | field :: rest => max field.levels (levels rest)

def FieldSelection.levels : FieldSelection → Nat
  | ⟨_, _, fragmentSpreadName, _, _, selections⟩ =>
    if fragmentSpreadName ≠ [] then 0 else GraphQL.levels selections + 1

end

mutual

def nesting : Selections → Nat
  | [] => 0
  | field :: rest => max field.nesting (nesting rest)

def FieldSelection.nesting : FieldSelection → Nat
  | ⟨_, _, _, _, _, selections⟩ => GraphQL.nesting selections + 1

end

mutual

def spreadsAt : Selections → List (Nat × Text)
  | [] => []
  | field :: rest => field.spreadsAt ++ spreadsAt rest

def FieldSelection.spreadsAt : FieldSelection → List (Nat × Text)
  | ⟨_, _, fragmentSpreadName, _, _, selections⟩ =>
    if fragmentSpreadName ≠ [] then [(0, fragmentSpreadName)]
    else (GraphQL.spreadsAt selections).map fun entry => (entry.1 + 1, entry.2)

end

/-- A fragment is spread in selections, directly or through others, with this
number of fields around it in the expansion. -/
inductive ReachedAt (fragments : List (Text × FragmentDefinition))
    (selections : Selections) : Nat → Text → Prop where
  | direct {level name} : (level, name) ∈ spreadsAt selections →
      ReachedAt fragments selections level name
  | through {level name fragment inner other} : ReachedAt fragments selections level name →
      fragments.lookup name = some fragment → (inner, other) ∈ spreadsAt fragment.selections →
      ReachedAt fragments selections (level + inner) other

variable {fragments : List (Text × FragmentDefinition)} (field : FieldSelection)

variable (rest : Selections)

theorem levels_cons : levels (field :: rest) =
      max (if field.fragmentSpreadName ≠ [] then 0 else levels field.selections + 1)
        (levels rest) := by
  cases field
  rw [levels, FieldSelection.levels]

theorem levels_append (left right : Selections) :
    levels (left ++ right) = max (levels left) (levels right) := by
  induction left with
  | nil => simp [levels]
  | cons _ _ ih => rw [cons_append, levels, levels, ih, Nat.max_assoc]

theorem nesting_cons :
    nesting (field :: rest) = max (nesting field.selections + 1) (nesting rest) := by
  cases field
  rw [nesting, FieldSelection.nesting]

theorem nesting_append (left right : Selections) :
    nesting (left ++ right) = max (nesting left) (nesting right) := by
  induction left with
  | nil => simp [nesting]
  | cons _ _ ih => rw [cons_append, nesting, nesting, ih, Nat.max_assoc]

theorem spreadsAt_cons : spreadsAt (field :: rest) =
      (if field.fragmentSpreadName ≠ [] then [(0, field.fragmentSpreadName)]
        else (spreadsAt field.selections).map fun entry => (entry.1 + 1, entry.2)) ++
      spreadsAt rest := by
  cases field
  rw [spreadsAt, FieldSelection.spreadsAt]

theorem ReachedAt.mono {selections other : Selections} {level : Nat} {name : Text}
    (reached : ReachedAt fragments selections level name)
    (subset : spreadsAt selections ⊆ spreadsAt other) : ReachedAt fragments other level name := by
  induction reached with
  | direct member => exact .direct (subset member)
  | through _ found member ih => exact ih.through found member

theorem reachedAt_nil {level : Nat} {name : Text} : ¬ ReachedAt fragments [] level name := by
  intro reached
  induction reached with
  | direct member => simp [spreadsAt] at member
  | through _ _ _ ih => exact ih

variable {field : FieldSelection}

theorem reachedAt_field_iff {rest : Selections}
    (isField : field.fragmentSpreadName = []) {level : Nat} {name : Text} :
    ReachedAt fragments (field :: rest) level name ↔
      (∃ inner, level = inner + 1 ∧ ReachedAt fragments field.selections inner name) ∨
        ReachedAt fragments rest level name := by
  have spreads := spreadsAt_cons field rest
  rw [if_neg (not_not.mpr isField)] at spreads
  constructor
  · intro reached
    induction reached with
    | direct member =>
      rw [spreads] at member
      rcases mem_append.mp member with inside | later
      · obtain ⟨entry, spread, same⟩ := mem_map.mp inside
        cases same
        exact .inl ⟨entry.1, rfl, .direct spread⟩
      · exact .inr (.direct later)
    | through _ found member ih =>
      rcases ih with ⟨inner, rfl, reached⟩ | reached
      · exact .inl ⟨_, Nat.add_right_comm inner 1 _, reached.through found member⟩
      · exact .inr (reached.through found member)
  · rintro (⟨inner, rfl, reached⟩ | reached)
    · induction reached with
      | direct member =>
        refine .direct (spreads ▸ mem_append_left _ ?_)
        exact mem_map.mpr ⟨_, member, rfl⟩
      | through _ found member ih =>
        rw [Nat.add_right_comm]
        exact ih.through found member
    · exact reached.mono fun entry member => spreads ▸ mem_append_right _ member

theorem reachedAt_spread_iff {rest : Selections}
    {fragment : FragmentDefinition} (isSpread : field.fragmentSpreadName ≠ [])
    (found : fragments.lookup field.fragmentSpreadName = some fragment) {level : Nat}
    {name : Text} :
    ReachedAt fragments (field :: rest) level name ↔
      (level = 0 ∧ name = field.fragmentSpreadName) ∨
        ReachedAt fragments fragment.selections level name ∨
        ReachedAt fragments rest level name := by
  have spreads := spreadsAt_cons field rest
  rw [if_pos isSpread] at spreads
  have entered : ReachedAt fragments (field :: rest) 0 field.fragmentSpreadName :=
    .direct (spreads ▸ mem_append_left _ mem_cons_self)
  constructor
  · intro reached
    induction reached with
    | direct member =>
      rw [spreads] at member
      rcases mem_append.mp member with own | later
      · cases mem_singleton.mp own
        exact .inl ⟨rfl, rfl⟩
      · exact .inr (.inr (.direct later))
    | through _ lookedUp member ih =>
      rcases ih with ⟨rfl, rfl⟩ | reached | reached
      · obtain rfl := Option.some.inj (found.symm.trans lookedUp)
        rw [Nat.zero_add]
        exact .inr (.inl (.direct member))
      · exact .inr (.inl (reached.through lookedUp member))
      · exact .inr (.inr (reached.through lookedUp member))
  · rintro (⟨rfl, rfl⟩ | reached | reached)
    · exact entered
    · induction reached with
      | @direct level name member =>
        rw [← Nat.zero_add level]
        exact entered.through found member
      | through _ lookedUp member ih => exact ih.through lookedUp member
    · exact reached.mono fun entry member => spreads ▸ mem_append_right _ member

/-- Wherever a fragment ends up in the expansion of selections, its own fields
stay within the limit. -/
def FragmentsWithin (fragments : List (Text × FragmentDefinition))
    (selections : Selections) (limit : Nat) : Prop :=
  ∀ level name fragment, ReachedAt fragments selections level name →
    fragments.lookup name = some fragment → level + levels fragment.selections ≤ limit

theorem fragmentsWithin_field_iff {rest : Selections}
    (isField : field.fragmentSpreadName = []) {limit : Nat} :
    FragmentsWithin fragments (field :: rest) (limit + 1) ↔
      FragmentsWithin fragments field.selections limit ∧
        FragmentsWithin fragments rest (limit + 1) := by
  constructor
  · intro within
    refine ⟨?_, ?_⟩
    · intro level name fragment reached found
      have deeper := within (level + 1) name fragment
        ((reachedAt_field_iff isField).mpr (.inl ⟨level, rfl, reached⟩)) found
      omega
    · intro level name fragment reached found
      exact within level name fragment ((reachedAt_field_iff isField).mpr (.inr reached)) found
  · rintro ⟨inside, later⟩ level name fragment reached found
    rcases (reachedAt_field_iff isField).mp reached with ⟨inner, rfl, below⟩ | after
    · have := inside inner name fragment below found
      omega
    · exact later level name fragment after found

private theorem fragmentsWithin_spread_iff {rest : Selections}
    {fragment : FragmentDefinition} (isSpread : field.fragmentSpreadName ≠ [])
    (found : fragments.lookup field.fragmentSpreadName = some fragment) {limit : Nat} :
    FragmentsWithin fragments (field :: rest) limit ↔
      (levels fragment.selections ≤ limit ∧ FragmentsWithin fragments fragment.selections limit) ∧
      FragmentsWithin fragments rest limit := by
  have reachedAt := fun level name =>
    @reachedAt_spread_iff fragments field rest fragment isSpread found level name
  constructor
  · intro within
    refine ⟨⟨?_, ?_⟩, ?_⟩
    · have own := within 0 _ fragment ((reachedAt _ _).mpr (.inl ⟨rfl, rfl⟩)) found
      rwa [Nat.zero_add] at own
    · intro level name other reached lookedUp
      exact within level name other ((reachedAt _ _).mpr (.inr (.inl reached))) lookedUp
    · intro level name other reached lookedUp
      exact within level name other ((reachedAt _ _).mpr (.inr (.inr reached))) lookedUp
  · rintro ⟨⟨own, inside⟩, later⟩ level name other reached lookedUp
    rcases (reachedAt _ _).mp reached with ⟨rfl, rfl⟩ | below | after
    · obtain rfl := Option.some.inj (found.symm.trans lookedUp)
      rwa [Nat.zero_add]
    · exact inside level name other below lookedUp
    · exact later level name other after lookedUp

theorem Inlines.levels_le_iff {selections expanded : Selections}
    (inlines : Inlines fragments selections expanded) {limit : Nat} :
    levels expanded ≤ limit ↔
      levels selections ≤ limit ∧ FragmentsWithin fragments selections limit := by
  induction inlines generalizing limit with
  | nil =>
    exact ⟨fun within => ⟨within, fun _ _ _ reached => absurd reached reachedAt_nil⟩, And.left⟩
  | spread isSpread found _ _ bodyIH othersIH =>
    rw [levels_append, levels_cons, if_pos isSpread, Nat.max_le, Nat.max_le, bodyIH, othersIH,
      fragmentsWithin_spread_iff isSpread found]
    constructor
    · rintro ⟨body, rest, others⟩
      exact ⟨⟨Nat.zero_le _, rest⟩, body, others⟩
    · rintro ⟨⟨-, rest⟩, body, others⟩
      exact ⟨body, rest, others⟩
  | @field field rest expanded others isField _ _ expandedIH othersIH =>
    have plain : ¬ field.fragmentSpreadName ≠ [] := not_not.mpr isField
    have nested : levels ({ field with selections := expanded } :: others) =
        max (levels expanded + 1) (levels others) := by
      rw [levels_cons, if_neg plain]
    rw [nested, levels_cons, if_neg plain, Nat.max_le, Nat.max_le]
    cases limit with
    | zero => simp
    | succ =>
      rw [Nat.succ_le_succ_iff, Nat.succ_le_succ_iff, expandedIH, othersIH,
        fragmentsWithin_field_iff isField]
      constructor
      · rintro ⟨⟨inner, inside⟩, rest, later⟩
        exact ⟨⟨inner, rest⟩, inside, later⟩
      · rintro ⟨⟨inner, rest⟩, inside, later⟩
        exact ⟨⟨inner, inside⟩, rest, later⟩

theorem Inlines.nesting_eq {selections expanded : Selections}
    (inlines : Inlines fragments selections expanded) : nesting expanded = levels expanded := by
  induction inlines with
  | nil => rfl
  | spread _ _ _ _ bodyIH othersIH => rw [nesting_append, levels_append, bodyIH, othersIH]
  | field isField _ _ expandedIH othersIH =>
    rw [nesting_cons, levels_cons, if_neg (not_not.mpr isField), expandedIH, othersIH]

namespace Parser

variable {stod : Text → Bool}

theorem parseField_levels {nested : Parser Selections} {depth : Nat} (within : depth < kMaxDepth)
    (returns : Returns (fun fields => depth + 1 + levels fields ≤ kMaxDepth) nested) (bound : Nat) :
    Returns (fun field => depth + levels [field] ≤ kMaxDepth)
      (parseField stod nested bound) := by
  refine Returns.call ?_ _
  refine returns_bind fun (name, aliasName) => returns_bind fun arguments =>
    returns_bind fun directives => ?_
  have body : Returns (fun fields => depth + 1 + levels fields ≤ kMaxDepth)
      (optional .leftBrace nested []) := by
    unfold optional
    refine returns_bind fun token => ?_
    split
    · exact returns
    · exact returns_pure within
  refine body.bind fun selections shallow => returns_pure ?_
  change depth + max (levels selections + 1) 0 ≤ kMaxDepth
  omega

private theorem parseSelection_levels {same nested : Parser Selections} {depth : Nat}
    (within : depth < kMaxDepth)
    (here : Returns (fun fields => depth + levels fields ≤ kMaxDepth) same)
    (inside : Returns (fun fields => depth + 1 + levels fields ≤ kMaxDepth) nested) (bound : Nat) :
    Returns (fun fields => depth + levels fields ≤ kMaxDepth)
      (parseSelection stod same nested bound) := by
  unfold parseSelection
  refine returns_bind fun token => ?_
  split
  · refine Returns.call ?_ _
    refine returns_bind fun _ => returns_bind fun token => ?_
    split
    · refine Returns.call (returns_bind fun token => ?_) _
      split
      · exact returns_bind fun _ => returns_bind fun _ => returns_bind fun _ => here
      · exact returns_bind fun _ => here
    · refine returns_bind fun name => returns_bind fun _ => returns_pure ?_
      rw [levels_cons]
      split <;> simp only [levels] <;> omega
  · exact (parseField_levels within inside bound).bind fun field shallow => returns_pure shallow

private theorem parseSelectionSet_levels (bound depth : Nat) :
    Returns (fun fields => depth + levels fields ≤ kMaxDepth)
      (parseSelectionSet stod bound depth) := by
  induction bound generalizing depth with
  | zero =>
    intro _ _ _ impossible
    cases impossible
  | succ bound ih =>
    refine Returns.call ?_ _
    split
    · intro _ _ _ impossible
      cases impossible
    · rename_i notDeep
      have within := Nat.lt_of_not_le notDeep
      have none : depth + levels [] ≤ kMaxDepth := Nat.le_of_lt within
      have append : ∀ first others, depth + levels first ≤ kMaxDepth →
          depth + levels others ≤ kMaxDepth → depth + levels (first ++ others) ≤ kMaxDepth := by
        intro _ _ _ _
        rw [levels_append]
        omega
      refine returns_bind fun _ => Returns.bind (Returns.repeatWhile none append ?_ bound) ?_
      · exact parseSelection_levels within (ih depth) (ih (depth + 1)) bound
      · exact fun fields shallow => returns_bind fun _ => returns_pure shallow

private theorem parseDocument_levels (bound : Nat) :
    Returns (fun operation => levels operation.selections ≤ kMaxDepth)
      (parseDocument stod bound) := by
  have definition : Returns (fun operation => levels operation.selections ≤ kMaxDepth)
      (parseOperationDefinition stod bound) := by
    unfold parseOperationDefinition
    refine returns_bind fun operation => ?_
    refine (parseSelectionSet_levels bound 0).bind fun selections shallow => returns_pure ?_
    rwa [Nat.zero_add] at shallow
  unfold parseDocument
  refine definition.bind fun operation shallow => returns_bind fun definitions =>
    returns_bind fun token => ?_
  split
  · intro _ _ _ impossible
    cases impossible
  · exact returns_pure shallow

theorem parse_levels {query : Text} {operation : Operation}
    (parsed : parse stod query = .ok operation) :
    levels operation.selections ≤ kMaxDepth := by
  unfold parse parseTraced at parsed
  split at parsed
  · cases parsed
  · obtain ⟨⟨_, _⟩, returned, rfl⟩ := Fallible.map_eq_ok.mp parsed
    exact parseDocument_levels _ _ _ _ returned

end Parser

/-- The nesting of the expanded operation is within the limit of the parser
exactly if every fragment, wherever its selections end up, has no more levels
than the fields around it leave. -/
theorem expanded_nesting_le_iff (stod : Text → Bool) (query : Text)
    (operation expanded : Operation) (parsed : Parser.parse stod query = .ok operation)
    (succeeded : expandFragments operation = .ok expanded) :
    nesting expanded.selections ≤ Parser.kMaxDepth ↔
      FragmentsWithin operation.fragments operation.selections Parser.kMaxDepth := by
  obtain ⟨_, inner, same⟩ := Fallible.bind_eq_ok.mp succeeded
  cases same
  have inlines := inlines_of_expandSelections inner
  rw [inlines.nesting_eq, inlines.levels_le_iff]
  exact and_iff_right (Parser.parse_levels parsed)

def expandedNesting? (query : Text) : Option Nat :=
  match Parser.parse (fun _ => true) query with
  | .error _ => none
  | .ok operation =>
    match expandFragments operation with
    | .error _ => none
    | .ok expanded => some (nesting expanded.selections)

theorem expandedNesting?_eq_some {query : Text} {count : Nat}
    (same : expandedNesting? query = some count) :
    ∃ operation expanded, Parser.parse (fun _ => true) query = .ok operation ∧
      expandFragments operation = .ok expanded ∧ nesting expanded.selections = count := by
  unfold expandedNesting? at same
  split at same
  · cases same
  · split at same
    · cases same
    · exact ⟨_, _, ‹_›, ‹_›, Option.some.inj same⟩

def shallowQuery : Text :=
  ascii "\x7b a \x7b b \x7b ...F \x7d \x7d \x7d fragment F on T \x7b c \x7d"

def deepQuery : Text :=
  (replicate 19 (ascii "\x7b a ")).flatten ++ ascii "\x7b ...F \x7d" ++
    (replicate 19 (ascii "\x7d ")).flatten ++ ascii "fragment F on T \x7b a \x7b a \x7d \x7d"

theorem expanded_nesting_le_shallowQuery :
    ∃ operation expanded, Parser.parse (fun _ => true) shallowQuery = .ok operation ∧
      expandFragments operation = .ok expanded ∧ nesting expanded.selections = 3 ∧
      FragmentsWithin operation.fragments operation.selections Parser.kMaxDepth := by
  have same : expandedNesting? shallowQuery = some 3 := by decide +kernel
  obtain ⟨operation, expanded, parsed, succeeded, count⟩ := expandedNesting?_eq_some same
  refine ⟨operation, expanded, parsed, succeeded, count, ?_⟩
  apply (expanded_nesting_le_iff _ _ operation expanded parsed succeeded).mp
  rw [count]
  decide

theorem expanded_nesting_deepQuery :
    ∃ operation expanded, Parser.parse (fun _ => true) deepQuery = .ok operation ∧
      expandFragments operation = .ok expanded ∧ nesting expanded.selections = 21 ∧
      ¬ nesting expanded.selections ≤ Parser.kMaxDepth := by
  have same : expandedNesting? deepQuery = some 21 := by decide +kernel
  obtain ⟨operation, expanded, parsed, succeeded, count⟩ := expandedNesting?_eq_some same
  refine ⟨operation, expanded, parsed, succeeded, count, ?_⟩
  rw [count]
  decide

end Coroserver.GraphQL
