import Coroserver.Fallible
import Coroserver.GraphQL.Ast
import Coroserver.Http.Target
import Mathlib.Data.List.Perm.Subperm
import Mathlib.Logic.Relation

/-! `expandFragments` of `graphql/util.hpp`. A spread is replaced by the expanded
selections of its fragment, and `visited` holds the fragments that are being expanded.
These are distinct, so their number bounds the recursion. Success is compared with an
inlining that is stated without the visited set. -/

namespace Coroserver.GraphQL

open Fallible List

inductive FragmentError where
  | circular (name : Text)
  | unknown (name : Text)
  | tooDeep

def FragmentError.message : FragmentError → Text
  | .circular name => ascii "Circular fragment reference: " ++ name
  | .unknown name => ascii "Unknown fragment: " ++ name
  | .tooDeep => []

mutual

def expandEach (spread : Text → Except FragmentError Selections) :
    Selections → Except FragmentError Selections
  | [] => .ok []
  | field :: rest => do
      let first ← expandOne spread field
      let others ← expandEach spread rest
      .ok (first ++ others)

def expandOne (spread : Text → Except FragmentError Selections) :
    FieldSelection → Except FragmentError Selections
  | ⟨name, aliasName, fragmentSpreadName, arguments, directives, selections⟩ =>
    if fragmentSpreadName ≠ [] then spread fragmentSpreadName
    else do
      let expanded ← expandEach spread selections
      .ok [⟨name, aliasName, fragmentSpreadName, arguments, directives, expanded⟩]

end

/-- `visited` is passed on with the fragment that is entered; erasing the
fragment afterwards restores it. -/
def expandSelections (fragments : List (Text × FragmentDefinition)) :
    Nat → List Text → Selections → Except FragmentError Selections
  | 0, _, _ => .error .tooDeep
  | depth + 1, visited, selections =>
    expandEach
      (fun name =>
        if name ∈ visited then .error (.circular name)
        else
          match fragments.lookup name with
          | none => .error (.unknown name)
          | some fragment =>
            expandSelections fragments depth (name :: visited) fragment.selections)
      selections

def expandFragments (operation : Operation) : Except FragmentError Operation := do
  let selections ← expandSelections operation.fragments (operation.fragments.length + 1) []
    operation.selections
  .ok { operation with selections }

mutual

/-- The fragments that are spread in selections, at any depth. What a spread
carries besides its name is never read. -/
def spreads : Selections → List Text
  | [] => []
  | field :: rest => field.spreads ++ spreads rest

def FieldSelection.spreads : FieldSelection → List Text
  | ⟨_, _, fragmentSpreadName, _, _, selections⟩ =>
    if fragmentSpreadName ≠ [] then [fragmentSpreadName] else GraphQL.spreads selections

end

section

variable (fragments : List (Text × FragmentDefinition))

def SpreadEdge (name other : Text) : Prop :=
  ∃ fragment, fragments.lookup name = some fragment ∧ other ∈ spreads fragment.selections

def Reached (selections : Selections) (name : Text) : Prop :=
  ∃ first ∈ spreads selections, Relation.ReflTransGen (SpreadEdge fragments) first name

structure Expandable (selections : Selections) : Prop where
  defined : ∀ name, Reached fragments selections name → fragments.lookup name ≠ none
  acyclic : ∀ name, Reached fragments selections name →
    ¬ Relation.TransGen (SpreadEdge fragments) name name

/-- Each spread is replaced in place by the inlined selections of its fragment,
and nothing else changes. -/
inductive Inlines : Selections → Selections → Prop where
  | nil : Inlines [] []
  | spread {field rest fragment body others} :
      field.fragmentSpreadName ≠ [] → fragments.lookup field.fragmentSpreadName = some fragment →
      Inlines fragment.selections body → Inlines rest others →
      Inlines (field :: rest) (body ++ others)
  | field {field rest expanded others} :
      field.fragmentSpreadName = [] → Inlines field.selections expanded → Inlines rest others →
      Inlines (field :: rest) ({ field with selections := expanded } :: others)

end

variable {fragments : List (Text × FragmentDefinition)}

theorem spreads_cons (field : FieldSelection) (rest : Selections) :
    spreads (field :: rest) =
      (if field.fragmentSpreadName ≠ [] then [field.fragmentSpreadName]
        else spreads field.selections) ++ spreads rest := by
  cases field
  rw [spreads, FieldSelection.spreads]

theorem spreads_append (left right : Selections) :
    spreads (left ++ right) = spreads left ++ spreads right := by
  induction left with
  | nil => rfl
  | cons _ _ ih => rw [cons_append, spreads, spreads, ih, append_assoc]

theorem expandEach_cons (spread : Text → Except FragmentError Selections)
    (field : FieldSelection) (rest : Selections) :
    expandEach spread (field :: rest) =
      (if field.fragmentSpreadName ≠ [] then spread field.fragmentSpreadName
        else (expandEach spread field.selections).map fun expanded =>
          [{ field with selections := expanded }]).bind fun first =>
        (expandEach spread rest).map (first ++ ·) := by
  cases field
  rw [expandEach, expandOne]
  rfl

variable {selections expanded : Selections}

private theorem inlines_of_expandEach {spread : Text → Except FragmentError Selections}
    (sound : ∀ name body, spread name = .ok body →
      ∃ fragment, fragments.lookup name = some fragment ∧
        Inlines fragments fragment.selections body)
    (succeeded : expandEach spread selections = .ok expanded) :
    Inlines fragments selections expanded := by
  induction selections using selections_induction generalizing expanded with
  | nil =>
    cases succeeded
    exact .nil
  | cons field rest fieldIH restIH =>
    rw [expandEach_cons] at succeeded
    obtain ⟨first, firstExpanded, others⟩ := bind_eq_ok.mp succeeded
    obtain ⟨others, restExpanded, rfl⟩ := map_eq_ok.mp others
    split at firstExpanded
    · rename_i isSpread
      obtain ⟨_, found, inlined⟩ := sound _ _ firstExpanded
      exact .spread isSpread found inlined (restIH restExpanded)
    · rename_i isField
      obtain ⟨inner, innerExpanded, rfl⟩ := map_eq_ok.mp firstExpanded
      exact .field (not_not.mp isField) (fieldIH innerExpanded) (restIH restExpanded)

theorem inlines_of_expandSelections {depth : Nat} {visited : List Text}
    (succeeded : expandSelections fragments depth visited selections = .ok expanded) :
    Inlines fragments selections expanded := by
  induction depth generalizing visited selections expanded with
  | zero => cases succeeded
  | succ depth ih =>
    refine inlines_of_expandEach ?_ succeeded
    intro name body entered
    split at entered
    · cases entered
    · split at entered
      · cases entered
      · rename_i fragment found
        exact ⟨fragment, found, ih entered⟩

theorem Inlines.spreads_eq_nil
    (inlines : Inlines fragments selections expanded) : spreads expanded = [] := by
  induction inlines with
  | nil => rfl
  | spread _ _ _ _ bodyIH othersIH => rw [spreads_append, bodyIH, othersIH, append_nil]
  | field isField _ _ expandedIH othersIH =>
    rw [spreads_cons, if_neg (not_not.mpr isField), expandedIH, othersIH, append_nil]

theorem Inlines.unique {other : Selections} (inlines : Inlines fragments selections expanded)
    (again : Inlines fragments selections other) : other = expanded := by
  induction inlines generalizing other with
  | nil =>
    cases again
    rfl
  | spread isSpread found _ _ bodyIH othersIH =>
    cases again with
    | spread _ foundAgain body others =>
      obtain rfl := Option.some.inj (found.symm.trans foundAgain)
      rw [bodyIH body, othersIH others]
    | field isField => exact absurd isField isSpread
  | field isField _ _ expandedIH othersIH =>
    cases again with
    | spread isSpread => exact absurd isField isSpread
    | field _ expanded others => rw [expandedIH expanded, othersIH others]

/-- A fragment that can be inlined: it is defined, and so can those it spreads. -/
inductive Inlinable (fragments : List (Text × FragmentDefinition)) : Text → Prop where
  | intro {name fragment} : fragments.lookup name = some fragment →
      (∀ other ∈ spreads fragment.selections, Inlinable fragments other) →
      Inlinable fragments name

theorem Inlines.inlinable (inlines : Inlines fragments selections expanded) :
    ∀ name ∈ spreads selections, Inlinable fragments name := by
  induction inlines with
  | nil => simp [spreads]
  | spread isSpread found _ _ bodyIH othersIH =>
    rw [spreads_cons, if_pos isSpread]
    refine forall_mem_append.mpr ⟨forall_mem_singleton.mpr ?_, othersIH⟩
    exact .intro found bodyIH
  | field isField _ _ expandedIH othersIH =>
    rw [spreads_cons, if_neg (not_not.mpr isField)]
    exact forall_mem_append.mpr ⟨expandedIH, othersIH⟩

theorem Inlinable.edge {name other : Text} (inlinable : Inlinable fragments name)
    (edge : SpreadEdge fragments name other) : Inlinable fragments other := by
  cases inlinable with
  | intro found others =>
    obtain ⟨_, same, member⟩ := edge
    obtain rfl := Option.some.inj (found.symm.trans same)
    exact others other member

theorem Inlinable.acyclic {name : Text} (inlinable : Inlinable fragments name) :
    ¬ Relation.TransGen (SpreadEdge fragments) name name := by
  induction inlinable with
  | @intro _ _ found _ ih =>
    intro cycle
    obtain ⟨other, edge, back⟩ := Relation.TransGen.head'_iff.mp cycle
    obtain ⟨same, lookedUp, member⟩ := edge
    obtain rfl := Option.some.inj (found.symm.trans lookedUp)
    exact ih other member (Relation.TransGen.tail' back ⟨_, lookedUp, member⟩)

theorem expandable_of_inlinable
    (inlinable : ∀ name ∈ spreads selections, Inlinable fragments name) :
    Expandable fragments selections := by
  have reached : ∀ name, Reached fragments selections name → Inlinable fragments name := by
    intro name ⟨first, member, path⟩
    induction path with
    | refl => exact inlinable first member
    | tail _ edge ih => exact ih.edge edge
  refine ⟨?_, fun name found => (reached name found).acyclic⟩
  intro name found
  cases reached name found with
  | intro defined _ => simp [defined]

private theorem exists_of_expandEach_eq_error
    {spread : Text → Except FragmentError Selections} {error : FragmentError}
    (failed : expandEach spread selections = .error error) :
    ∃ name ∈ spreads selections, spread name = .error error := by
  induction selections using selections_induction with
  | nil => cases failed
  | cons field rest fieldIH restIH =>
    rw [expandEach_cons] at failed
    rw [spreads_cons]
    rcases bind_eq_error.mp failed with first | ⟨first, -, others⟩
    · split at first
      · exact ⟨field.fragmentSpreadName, by simp [*], first⟩
      · obtain ⟨name, _, result⟩ := fieldIH (map_eq_error.mp first)
        exact ⟨name, by simp [*], result⟩
    · obtain ⟨name, member, result⟩ := restIH (map_eq_error.mp others)
      exact ⟨name, by simp [member], result⟩

private theorem not_expandable_of_error {depth : Nat} {visited : List Text} {error : FragmentError}
    (failed : expandSelections fragments depth visited selections = .error error)
    (distinct : visited.Nodup) (known : visited ⊆ fragments.map Prod.fst)
    (enough : fragments.length < depth + visited.length)
    (path : ∀ name ∈ visited, ∀ other ∈ spreads selections,
      Relation.TransGen (SpreadEdge fragments) name other) :
    error ≠ .tooDeep ∧ ¬ Expandable fragments selections := by
  induction depth generalizing visited selections with
  | zero =>
    have bounded := (distinct.subperm known).length_le
    simp at bounded
    omega
  | succ depth ih =>
    obtain ⟨name, member, result⟩ := exists_of_expandEach_eq_error failed
    split at result
    · rename_i active
      cases result
      refine ⟨by simp, fun expandable => ?_⟩
      exact expandable.acyclic name ⟨name, member, .refl⟩ (path name active name member)
    · rename_i fresh
      split at result
      · rename_i missing
        cases result
        exact ⟨by simp, fun expandable => expandable.defined name ⟨name, member, .refl⟩ missing⟩
      · rename_i fragment found
        have edges : ∀ other ∈ spreads fragment.selections, SpreadEdge fragments name other :=
          fun other inner => ⟨fragment, found, inner⟩
        have entered : ∀ start ∈ name :: visited, ∀ other ∈ spreads fragment.selections,
            Relation.TransGen (SpreadEdge fragments) start other := by
          intro start active other inner
          rcases mem_cons.mp active with rfl | earlier
          · exact .single (edges other inner)
          · exact (path start earlier name member).tail (edges other inner)
        have listed : name ∈ fragments.map Prod.fst := by
          obtain ⟨_, _, entries, -⟩ := lookup_eq_some_iff.mp found
          simp [entries]
        obtain ⟨reason, blocked⟩ := ih result (nodup_cons.mpr ⟨fresh, distinct⟩)
          (cons_subset.mpr ⟨listed, known⟩)
          (by simp only [length_cons]; omega) entered
        refine ⟨reason, fun expandable => blocked ⟨?_, ?_⟩⟩
        · intro other ⟨first, inner, further⟩
          exact expandable.defined other ⟨name, member, .head (edges first inner) further⟩
        · intro other ⟨first, inner, further⟩
          exact expandable.acyclic other ⟨name, member, .head (edges first inner) further⟩

/-- Expansion ends within its bound. It succeeds exactly if every fragment that is
reached is defined and on no cycle, with the one reference inlining, and fails with
one of the two errors otherwise. -/
theorem expandFragments_correct (operation : Operation) :
    (∀ error, expandFragments operation = .error error → error ≠ .tooDeep) ∧
    ((∃ expanded, expandFragments operation = .ok expanded) ↔
      Expandable operation.fragments operation.selections) ∧
    ∀ expanded, expandFragments operation = .ok expanded → spreads expanded.selections = [] ∧
      (∀ selections, Inlines operation.fragments operation.selections selections ↔
        selections = expanded.selections) ∧
      expanded = { operation with selections := expanded.selections } := by
  have failure : ∀ error, expandFragments operation = .error error →
      error ≠ .tooDeep ∧ ¬ Expandable operation.fragments operation.selections := by
    intro error failed
    rcases bind_eq_error.mp failed with inner | ⟨_, -, impossible⟩
    · exact not_expandable_of_error inner .nil (nil_subset _) (by simp) (by simp)
    · cases impossible
  have success : ∀ expanded, expandFragments operation = .ok expanded →
      Inlines operation.fragments operation.selections expanded.selections ∧
      expanded = { operation with selections := expanded.selections } := by
    intro _ succeeded
    obtain ⟨_, inner, same⟩ := bind_eq_ok.mp succeeded
    cases same
    exact ⟨inlines_of_expandSelections inner, rfl⟩
  refine ⟨fun error failed => (failure error failed).1, ⟨?_, ?_⟩, ?_⟩
  · rintro ⟨expanded, succeeded⟩
    exact expandable_of_inlinable (success expanded succeeded).1.inlinable
  · intro expandable
    cases result : expandFragments operation with
    | ok expanded => exact ⟨expanded, rfl⟩
    | error error => exact absurd expandable (failure error result).2
  · intro expanded succeeded
    obtain ⟨inlines, same⟩ := success expanded succeeded
    refine ⟨inlines.spreads_eq_nil, fun selections => ⟨inlines.unique, ?_⟩, same⟩
    rintro rfl
    exact inlines

end Coroserver.GraphQL
