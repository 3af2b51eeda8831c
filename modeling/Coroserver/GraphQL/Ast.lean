import Coroserver.Bytes
import Mathlib.Data.List.Basic

/-! The JSON values and the syntax trees of `examples/graphql_server`. A
`std::string` is its list of bytes. The members of a JSON object and the
fragments of an operation are listed in the order of their names. -/

namespace Coroserver.GraphQL

abbrev Text := Bytes

/-- A floating-point number is kept as the text it was read from. -/
inductive Json where
  | null
  | bool (value : Bool)
  | int (value : Int)
  | float (text : Text)
  | string (text : Text)
  | array (items : List Json)
  | object (members : List (Text × Json))

abbrev Members := List (Text × Json)

namespace Json

def member? (json : Json) (key : Text) : Option Json :=
  match json with
  | .object members => members.lookup key
  | _ => none

theorem induction {motive : Json → Prop}
    (leaf : ∀ json, (∀ items, json ≠ .array items) → (∀ members, json ≠ .object members) →
      motive json) (array : ∀ items, (∀ item ∈ items, motive item) → motive (.array items))
    (object : ∀ members : Members, (∀ entry ∈ members, motive entry.2) → motive (.object members)) :
    ∀ json, motive json
  | .null => leaf _ nofun nofun
  | .bool _ => leaf _ nofun nofun
  | .int _ => leaf _ nofun nofun
  | .float _ => leaf _ nofun nofun
  | .string _ => leaf _ nofun nofun
  | .array items => array items fun item _ => induction leaf array object item
  | .object members => object members fun (_, json) _ => induction leaf array object json
decreasing_by
  · have smaller := List.sizeOf_lt_of_mem (by assumption : item ∈ items)
    simp only [Json.array.sizeOf_spec]
    omega
  · rename_i member
    have smaller := List.sizeOf_lt_of_mem member
    simp only [Json.object.sizeOf_spec, Prod.mk.sizeOf_spec] at smaller ⊢
    omega

end Json

inductive ValueKind where
  | int
  | float
  | string
  | boolean
  | null
  | enum
  | list
  | object
  | variable

structure Value where
  kind : ValueKind := .null
  value : Json := .null

structure Argument where
  name : Text
  value : Value

structure Directive where
  name : Text
  arguments : List Argument := []

structure FieldSelection where
  name : Text := []
  aliasName : Text := []
  fragmentSpreadName : Text := []
  arguments : List Argument := []
  directives : List Directive := []
  selections : List FieldSelection := []

abbrev Selections := List FieldSelection

structure FragmentDefinition where
  name : Text
  typeCondition : Text
  directives : List Directive := []
  selections : Selections := []

structure VariableDefinition where
  name : Text
  typeName : Text
  nonNull : Bool := false
  isList : Bool := false
  defaultValue : Option Value := none

inductive OperationType where
  | query
  | mutation
  | subscription
deriving DecidableEq

structure Operation where
  type : OperationType := .query
  name : Text := []
  variableDefinitions : List VariableDefinition := []
  directives : List Directive := []
  selections : Selections := []
  fragments : List (Text × FragmentDefinition) := []

theorem selections_induction {motive : Selections → Prop} (nil : motive [])
    (cons : ∀ field rest, motive field.selections → motive rest → motive (field :: rest)) :
    ∀ selections, motive selections
  | [] => nil
  | ⟨_, _, _, _, _, selections⟩ :: rest =>
    cons _ _ (selections_induction nil cons selections) (selections_induction nil cons rest)

end Coroserver.GraphQL
