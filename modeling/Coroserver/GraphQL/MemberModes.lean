import Coroserver.Async.WhenAllPrograms
import Coroserver.GraphQL.Executor

/-! `resolveByPath` takes the members of a collection from one expanded payload, or fetches them
one by one in concurrent batches. -/

namespace Coroserver.GraphQL

open Async (Completion EndsWith)
open Interaction (evaluate evaluate_bind evaluate_attempt evaluate_collectOk evaluate_lift)

variable {data : ProviderData}

variable {Value Item : Type} {ids : List Text} {returnType : Text}
  {selections : Selections}

theorem evaluate_whenAll (tasks : List (Task Value)) :
    evaluate data (whenAll tasks) = tasks.mapM (evaluate data) := by
  induction tasks with
  | nil => rfl
  | cons task rest ih =>
    rw [whenAll, evaluate_bind, evaluate_attempt, List.mapM_cons, ← ih]
    change evaluate data ((whenAll rest).attempt >>= _) = _
    rw [evaluate_bind, evaluate_attempt]
    cases evaluate data task with
    | error => rfl
    | ok =>
      cases evaluate data (whenAll rest) with
      | error | ok => rfl

theorem whenAll_endsWith (data : ProviderData) (tasks : List (Task Value)) :
    EndsWith data tasks.get (.ofExcept (evaluate data (whenAll tasks))) := by
  have ends := Async.endsWith_of_data data tasks.get
  rwa [List.ofFn_get, ← evaluate_whenAll] at ends

theorem evaluate_fetchBatches (schema : TypedSchema) (returnType : Text)
    (selections : Selections) (batches : List (List Text)) :
    evaluate data (fetchBatches schema returnType selections batches) =
      (batches.flatten.mapM fun memberId =>
        evaluate data (fetchAndProject schema memberId returnType selections)).map
          (·.filterMap id) := by
  let fetched := fun memberId =>
    evaluate data (fetchAndProject schema memberId returnType selections)
  induction batches with
  | nil => rfl
  | cons batch rest ih =>
    rw [fetchBatches, evaluate_bind, evaluate_whenAll, List.flatten_cons, Fallible.mapM_append,
      List.mapM_map]
    change (batch.mapM fetched).bind _ = ((batch.mapM fetched).bind _).map _
    cases batch.mapM fetched with
    | error => rfl
    | ok outcomes =>
      change evaluate data (fetchBatches schema returnType selections rest >>= _) =
        ((rest.flatten.mapM fetched).map (outcomes ++ ·)).map _
      rw [evaluate_bind, ih]
      cases rest.flatten.mapM fetched with
      | error => rfl
      | ok => exact congrArg Except.ok (List.filterMap_append).symm

private theorem flatten_toChunks_go (size : Nat) (items : List Item) (first : Array Item)
    (chunks : Array (List Item)) :
    (List.toChunks.go size items first chunks).flatten =
      chunks.toList.flatten ++ (first.toList ++ items) := by
  induction items generalizing first chunks with
  | nil => simp [List.toChunks.go]
  | cons _ _ ih =>
    rw [List.toChunks.go]
    split
    · rw [ih]
      simp
    · rw [ih]
      simp

theorem flatten_toChunks (size : Nat) (items : List Item) :
    (items.toChunks size).flatten = items := by
  cases items with
  | nil => cases size <;> rfl
  | cons item items =>
    cases size with
    | zero => simp [List.toChunks]
    | succ size => exact flatten_toChunks_go (size + 1) items #[item] #[]

structure Provides (data : ProviderData) (fresh : Bool) (path : Text)
    (bodies : List Json) (ids : List Text) : Prop where
  expanded : ∃ payload, data ⟨fresh, path ++ expandSuffix⟩ = .ok payload ∧
    payload.membersArray? = some bodies
  plain : ∃ payload links, data ⟨fresh, path⟩ = .ok payload ∧
    payload.membersArray? = some links ∧
    List.Forall₂ (fun link id => link.member? (ascii "@odata.id") = some (.string id)) links ids
  members : List.Forall₂ (fun id body => data ⟨true, id⟩ = .ok body) ids bodies

theorem memberIds_of_links {links : List Json} (linked : List.Forall₂ (fun link id =>
      link.member? (ascii "@odata.id") = some (.string id)) links ids) :
    memberIds links = .ok ids := by
  induction linked with
  | nil => rfl
  | cons link _ ih =>
    rw [memberIds, link, ih]
    rfl

variable {schema : TypedSchema}

theorem evaluate_fetchAndProject {memberId : Text} {body : Json}
    (answers : data ⟨true, memberId⟩ = .ok body) :
    evaluate data (fetchAndProject schema memberId returnType selections) =
      (evaluate data (projectObject schema body returnType selections)).map Except.toOption := by
  rw [fetchAndProject, evaluate, answers]
  change evaluate data (projectObject schema body returnType selections >>= _) = _
  rw [evaluate_bind]
  cases evaluate data (projectObject schema body returnType selections) with
  | error | ok => rfl

theorem fetched_eq_projected {bodies : List Json}
    (members : List.Forall₂ (fun id body => data ⟨true, id⟩ = .ok body) ids bodies) :
    (ids.mapM fun memberId =>
        evaluate data (fetchAndProject schema memberId returnType selections)).map
          (·.filterMap id) =
      (bodies.mapM fun body =>
        evaluate data (projectObject schema body returnType selections)).map
          (·.filterMap Except.toOption) := by
  induction members with
  | nil => rfl
  | @cons memberId body ids _ answers _ ih =>
    rw [List.mapM_cons, List.mapM_cons, evaluate_fetchAndProject answers]
    cases evaluate data (projectObject schema body returnType selections) with
    | error => rfl
    | ok outcome =>
      cases fetched : ids.mapM fun memberId =>
          evaluate data (fetchAndProject schema memberId returnType selections) with
      | error =>
        rw [fetched] at ih
        have failed := Fallible.map_eq_error.mp ih.symm
        rw [failed]
        rfl
      | ok =>
        rw [fetched] at ih
        obtain ⟨_, succeeded, same⟩ := Fallible.map_eq_ok.mp ih.symm
        rw [succeeded]
        cases outcome with
        | ok json => exact congrArg (fun items => Except.ok (json :: items)) same.symm
        | error => exact congrArg Except.ok same.symm

theorem evaluate_resolveByPath {selection : FieldSelection}
    {fieldSpec : FieldSpec} {vars args : Members} {fresh : Bool} {path : Text}
    {payload : Json} (given : fieldSpec.redfishPath ≠ [])
    (resolved : argumentsToJson vars selection.arguments = .ok args)
    (expanded : expandPath fieldSpec.redfishPath args fieldSpec = .ok path)
    (answers : data ⟨fresh, if fieldSpec.expandMembers && fieldSpec.isList then
      path ++ expandSuffix else path⟩ = .ok payload) :
    evaluate data (resolveByPath schema selection fieldSpec vars fresh) =
      evaluate data (resolvePayload schema selection fieldSpec payload) := by
  rw [resolveByPath, if_neg given, resolved]
  change evaluate data (Interaction.lift (expandPath _ args fieldSpec) >>= _) = _
  rw [expanded]
  change evaluate data (.ask ⟨fresh, if fieldSpec.expandMembers && fieldSpec.isList then
    path ++ expandSuffix else path⟩ _) = _
  rw [evaluate, answers]

def projectedItems (data : ProviderData) (schema : TypedSchema)
    (selection : FieldSelection) (fieldSpec : FieldSpec) (bodies : List Json) :
    Except Exception (List Json) :=
  (bodies.mapM fun body =>
    evaluate data (projectObject schema body fieldSpec.returnType selection.selections)).map
      (·.filterMap Except.toOption)

section

variable {schema : TypedSchema} {selection : FieldSelection} {fieldSpec : FieldSpec}
  {bodies members : List Json} {payload : Json}

theorem evaluate_array {task : Task (List Json)} :
    evaluate data (do
      let items ← task
      .done (.ok (.array items)) : Task (Except ExecutionError Json)) =
      (evaluate data task).map fun items => .ok (.array items) := by
  rw [evaluate_bind]
  cases evaluate data task with
  | error | ok => rfl

theorem evaluate_fetched_members {ids : List Text} (notExpanded : fieldSpec.expandMembers = false)
    (listed : payload.membersArray? = some members) (linked : memberIds members = .ok ids)
    (provided : List.Forall₂ (fun id body => data ⟨true, id⟩ = .ok body) ids bodies) :
    evaluate data (resolveMembersOf schema selection fieldSpec payload) =
      (projectedItems data schema selection fieldSpec bodies).map
        fun items => .ok (.array items) := by
  have unexpanded : ¬ fieldSpec.expandMembers = true := by simp [notExpanded]
  rw [resolveMembersOf, listed]
  change evaluate data (if fieldSpec.expandMembers then _ else _) = _
  rw [if_neg unexpanded, linked]
  change evaluate data (fetchBatches _ _ _ (ids.toChunks kBatchSize) >>= _) = _
  rw [evaluate_array, evaluate_fetchBatches, flatten_toChunks, fetched_eq_projected provided]
  rfl

end

/-- With a provider that answers a request always in the same way both modes give the same items
in the same order, in whatever order the fetches of a batch complete. -/
theorem resolveByPath_modes_agree (schema : TypedSchema)
    (data : ProviderData) (selection : FieldSelection)
    (fieldSpec : FieldSpec) (vars args : Members) (fresh : Bool) (path : Text)
    (bodies : List Json) (ids : List Text) (isList : fieldSpec.isList = true)
    (expands : fieldSpec.expandMembers = true) (given : fieldSpec.redfishPath ≠ [])
    (resolved : argumentsToJson vars selection.arguments = .ok args)
    (expanded : expandPath fieldSpec.redfishPath args fieldSpec = .ok path)
    (provides : Provides data fresh path bodies ids) :
    evaluate data (resolveByPath schema selection fieldSpec vars fresh) =
      (projectedItems data schema selection fieldSpec bodies).map
        (fun items => .ok (.array items)) ∧ evaluate data
        (resolveByPath schema selection { fieldSpec with expandMembers := false } vars fresh) =
      (projectedItems data schema selection fieldSpec bodies).map
        (fun items => .ok (.array items)) ∧
    ∀ batch ∈ ids.toChunks kBatchSize,
      EndsWith data (batch.map fun memberId =>
          fetchAndProject schema memberId fieldSpec.returnType selection.selections).get
        (.ofExcept (evaluate data (whenAll (batch.map fun memberId =>
          fetchAndProject schema memberId fieldSpec.returnType selection.selections)))) := by
  obtain ⟨⟨bodyPayload, answers, listed⟩, ⟨linkPayload, links, answersPlain, listedPlain, linked⟩,
    provided⟩ := provides
  refine ⟨?_, ?_, fun batch _ => whenAll_endsWith data _⟩
  · rw [evaluate_resolveByPath given resolved expanded (by rw [expands, isList]; exact answers),
      resolvePayload, if_pos isList, resolveMembersOf, listed]
    change evaluate data (if fieldSpec.expandMembers then _ else _) = _
    rw [if_pos expands, evaluate_array, evaluate_collectOk]
    rfl
  · -- the path and the arguments do not depend on the mode
    have plain := @evaluate_resolveByPath data schema selection
      { fieldSpec with expandMembers := false } vars args fresh path linkPayload given resolved
      expanded answersPlain
    rw [plain, resolvePayload, if_pos isList]
    exact evaluate_fetched_members rfl listedPlain (memberIds_of_links linked) provided

def memberSchema : TypedSchema where
  objects := [(ascii "T", ⟨[(ascii "x",
    { name := ascii "x", responseKey := ascii "x", returnType := ascii "S", scalar := true })]⟩)]

def memberSpec : FieldSpec where
  name := ascii "f"
  returnType := ascii "T"
  isList := true
  redfishPath := ascii "c"
  expandMembers := true

def memberSelection : FieldSelection where
  name := ascii "f"
  selections := [{ name := ascii "x" }]

def memberBody (number : Int) : Json := .object [(ascii "x", .int number)]

def memberLink (id : String) : Json := .object [(ascii "@odata.id", .string (ascii id))]

def collectionOf (members : List Json) : Json := .object [(ascii "Members", .array members)]

def memberData (request : ProviderRequest) : Except Text Json :=
  if request.url = ascii "c" ++ expandSuffix then
    .ok (collectionOf [memberBody 1, memberBody 2])
  else if request.url = ascii "c" then .ok (collectionOf [memberLink "m", memberLink "n"])
  else if request.url = ascii "m" then .ok (memberBody 1)
  else .ok (memberBody 2)

theorem resolveByPath_modes_agree_two_members :
    evaluate memberData (resolveByPath memberSchema memberSelection memberSpec [] false) =
      .ok (.ok (.array [memberBody 1, memberBody 2])) ∧ evaluate memberData
        (resolveByPath memberSchema memberSelection { memberSpec with expandMembers := false } []
          false) = .ok (.ok (.array [memberBody 1, memberBody 2])) := by
  have provides : Provides memberData false (ascii "c") [memberBody 1, memberBody 2]
      [ascii "m", ascii "n"] :=
    ⟨⟨_, if_pos rfl, rfl⟩, ⟨_, _, rfl, rfl, .cons rfl (.cons rfl .nil)⟩, .cons rfl (.cons rfl .nil)⟩
  have agree := resolveByPath_modes_agree memberSchema memberData memberSelection memberSpec [] []
    false (ascii "c") _ _ rfl rfl (by decide) rfl rfl provides
  exact ⟨agree.1, agree.2.1⟩

end Coroserver.GraphQL
