import Coroserver.GraphQL.Executor

/-! What an execution can end with is followed through the projection, the batches and the root
fields once, for any admitted payloads, exceptions and errors. -/

namespace Coroserver.GraphQL

open Interaction

structure Ground (admits : ProviderRequest → Except Text Json → Prop)
    (raised : Exception → Prop) (failed : ExecutionError → Prop) (linked : Json → Prop) :
    Prop where
  payload : ∀ request json, admits request (.ok json) → linked json
  member : ∀ json key value, linked json → json.member? key = some value → linked value
  item : ∀ items item, linked (.array items) → item ∈ items → linked item
  link : ∀ json link, linked json → json.member? (ascii "@odata.id") = some link →
    ∀ exception, link.getString = .error exception → raised exception
  other : ∀ error, error.isLookup = false → failed error

def Fails {Value : Type} (failed : ExecutionError → Prop)
    (outcome : Except ExecutionError Value) : Prop :=
  ∀ error, outcome = .error error → failed error

variable {Value : Type} {unknown : Text → ExecutionError} {fresh : Bool} {vars : Members}

theorem Fails.ok {failed : ExecutionError → Prop} {value : Value} : Fails failed (.ok value) := by
  intro error impossible
  cases impossible

theorem Fails.error {failed : ExecutionError → Prop} {error : ExecutionError}
    (allowed : failed error) : Fails failed (.error error : Except ExecutionError Value) := by
  intro other same
  cases same
  exact allowed

theorem Fails.map {First Second : Type} {failed : ExecutionError → Prop}
    {outcome : Except ExecutionError First} (fails : Fails failed outcome)
    (change : First → Second) : Fails failed (outcome.map change) := by
  cases outcome with
  | ok => exact .ok
  | error error => exact .error (fails error rfl)

section

variable {schema : TypedSchema} {admits : ProviderRequest → Except Text Json → Prop}
  {raised : Exception → Prop} {failed : ExecutionError → Prop} {linked : Json → Prop}

theorem Ground.membersArray (ground : Ground admits raised failed linked) {json : Json}
    {members : List Json} (holds : linked json) (found : json.membersArray? = some members) :
    ∀ member ∈ members, linked member := by
  unfold Json.membersArray? at found
  split at found
  · rename_i items array
    cases found
    intro member inside
    exact ground.item members member (ground.member json _ _ holds array) inside
  · cases found

variable {fieldSpec : FieldSpec} {source : Json} {typeName : Text}
  {selections : Selections}

theorem Ground.projectValue (ground : Ground admits raised failed linked) {name : Text}
    {project : Json → Text → Task (Except ExecutionError Json)} (holds : linked source)
    (each : fieldSpec.scalar = false → ∀ value, linked value →
      (project value fieldSpec.returnType).Always admits raised (Fails failed)) :
    (projectValue name fieldSpec source project).Always admits raised (Fails failed) := by
  unfold GraphQL.projectValue
  split
  · exact .ok
  · rename_i value found
    have valueLinked := ground.member source _ _ holds found
    split
    · exact .ok
    · rename_i composite
      have project := each (by simpa using composite)
      split
      · split
        · split
          · exact .error (ground.other _ rfl)
          · rename_i link present
            refine always_bind.mpr (always_lift
              (ground.link value link valueLinked present) fun collUrl _ => ?_)
            intro answer admitted
            cases answer with
            | error => exact .error (ground.other _ rfl)
            | ok collResult =>
              have collLinked := ground.payload _ _ admitted
              dsimp only
              split
              · exact .error (ground.other _ rfl)
              · rename_i members array
                have linkedMembers := ground.membersArray collLinked array
                refine always_bind.mpr ((always_collectOk
                  fun member inside => ?_).mono fun items _ => .ok)
                exact (project member (linkedMembers member inside)).mono fun _ _ => trivial
        · split
          · rename_i items
            refine always_bind.mpr ((always_collectAll
              fun item inside => ?_).mono fun projected fails => Fails.map fails _)
            exact project item (ground.item items item valueLinked inside)
          · exact .error (ground.other _ rfl)
      · exact project value valueLinked

theorem always_projectWith {isEmpty : Bool}
    {each : ObjectSpec → Json → Task (Except ExecutionError Members)}
    (found : schema.getObject typeName = none → failed (.unknownObjectType typeName))
    (loop : ∀ object, schema.getObject typeName = some object →
      (each object source).Always admits raised (Fails failed)) :
    (projectWith schema isEmpty each source typeName).Always admits raised (Fails failed) := by
  unfold GraphQL.projectWith
  split
  · rename_i missing
    exact .error (found missing)
  · rename_i object present
    split
    · exact .ok
    · exact always_bind.mpr ((loop object present).mono fun members fails =>
        fails.map _)

theorem Ground.projectEach (ground : Ground admits raised failed linked) {object : ObjectSpec}
    {result : Members} (holds : linked source) (checked : (∀ error, failed error) ∨
      validateEach schema object typeName selections = .ok ()) :
    (projectEach schema object typeName selections result source).Always admits raised
      (Fails failed) := by
  induction selections using selections_induction generalizing object typeName result source with
  | nil => exact .ok
  | cons field rest fieldIH restIH =>
    rw [GraphQL.projectEach]
    split
    · rename_i missing
      rcases checked with allowed | accepted
      · exact .error (allowed _)
      · obtain ⟨_, present, -⟩ :=
          exists_of_validateField (validateField_of_validateEach accepted).1
        rw [missing] at present
        cases present
    · rename_i fieldSpec present
      have projected : (projectField schema field fieldSpec source).Always admits raised
          (Fails failed) := by
        rw [projectField_eq]
        refine ground.projectValue holds fun composite value valueLinked => ?_
        rcases checked with allowed | accepted
        · exact always_projectWith (fun _ => allowed _) fun inner _ =>
            fieldIH valueLinked (.inl allowed)
        · -- validation has looked up the same field, and gone into it as the projection does
          obtain ⟨same, found, nested⟩ :=
            exists_of_validateField (validateField_of_validateEach accepted).1
          rw [present] at found
          cases found
          obtain ⟨inner, innerFound, innerAccepted⟩ := nested composite
          refine always_projectWith (fun missing => ?_) fun other otherFound => ?_
          · rw [innerFound] at missing
            cases missing
          · rw [innerFound] at otherFound
            cases otherFound
            exact fieldIH valueLinked (.inr innerAccepted)
      refine always_bind.mpr (projected.mono fun outcome fails => ?_)
      cases outcome with
      | error error => exact .error (fails error rfl)
      | ok =>
        exact restIH holds (checked.imp_right fun accepted =>
          (validateField_of_validateEach accepted).2)

theorem Ground.projectObject (ground : Ground admits raised failed linked) (holds : linked source)
    (checked : (∀ error, failed error) ∨ validateSelections schema selections typeName = .ok ()) :
    (projectObject schema source typeName selections).Always admits raised (Fails failed) := by
  rcases checked with allowed | accepted
  · exact always_projectWith (fun _ => allowed _) fun object _ =>
      ground.projectEach holds (.inl allowed)
  · obtain ⟨_, found, valid⟩ := exists_of_validateSelections accepted
    refine always_projectWith (fun missing => ?_) fun other otherFound => ?_
    · rw [found] at missing
      cases missing
    · rw [found] at otherFound
      cases otherFound
      exact ground.projectEach holds (.inr valid)

theorem always_whenAll {Value : Type} {tasks : List (Task Value)}
    (each : ∀ task ∈ tasks, task.Always admits raised fun _ => True) :
    (whenAll tasks).Always admits raised fun _ => True := by
  induction tasks with
  | nil => exact trivial
  | cons task rest ih =>
    refine always_bind.mpr ((each task List.mem_cons_self).attempt.mono fun first firstEnds => ?_)
    refine always_bind.mpr ((ih fun other later => each other
      (List.mem_cons_of_mem _ later)).attempt.mono fun others othersEnd => ?_)
    cases first with
    | error => exact firstEnds
    | ok =>
      cases others with
      | error => exact othersEnd
      | ok => exact trivial

section

variable (ground : Ground admits raised failed linked)

include ground

theorem Ground.projectObject_of_skipped (holds : linked source) :
    (GraphQL.projectObject schema source typeName selections).Always admits raised
      fun _ => True := by
  have any : Ground admits raised (fun _ => True) linked :=
    { ground with other := fun _ _ => trivial }
  exact (any.projectObject holds (.inl fun _ => trivial)).mono fun _ _ => trivial

variable {returnType : Text}

theorem Ground.fetchAndProject {memberId : Text} :
    (fetchAndProject schema memberId returnType selections).Always admits raised
      fun _ => True := by
  intro answer admitted
  cases answer with
  | error => exact trivial
  | ok =>
    exact always_bind.mpr ((ground.projectObject_of_skipped
      (ground.payload _ _ admitted)).mono fun _ _ => trivial)

theorem Ground.fetchBatches (batches : List (List Text)) :
    (fetchBatches schema returnType selections batches).Always admits raised fun _ => True := by
  induction batches with
  | nil => exact trivial
  | cons batch rest ih =>
    have batchEnds : (whenAll (batch.map fun memberId => GraphQL.fetchAndProject schema memberId
        returnType selections)).Always admits raised fun _ => True := by
      refine always_whenAll fun task member => ?_
      obtain ⟨_, -, rfl⟩ := List.mem_map.mp member
      exact ground.fetchAndProject
    refine always_bind.mpr (batchEnds.mono fun outcomes _ => ?_)
    exact always_bind.mpr (ih.mono fun _ _ => trivial)

theorem Ground.memberIds {members : List Json} (holds : ∀ member ∈ members, linked member)
    {exception : Exception} (thrown : memberIds members = .error exception) : raised exception := by
  induction members with
  | nil => cases thrown
  | cons member rest ih =>
    have restRaises := ih fun other later => holds other (List.mem_cons_of_mem _ later)
    rw [GraphQL.memberIds] at thrown
    split at thrown
    · exact restRaises thrown
    · rename_i link present
      rcases Fallible.bind_eq_error.mp thrown with bad | ⟨memberId, -, others⟩
      · exact ground.link member link (holds member List.mem_cons_self) present exception bad
      · rcases Fallible.bind_eq_error.mp others with later | ⟨_, -, impossible⟩
        · exact restRaises later
        · cases impossible

theorem Ground.resolvePayload {selection : FieldSelection} {payload : Json} (holds : linked payload)
    (checked : (∀ error, failed error) ∨ (fieldSpec.scalar = false →
      validateSelections schema selection.selections fieldSpec.returnType = .ok ())) :
    (resolvePayload schema selection fieldSpec payload).Always admits raised (Fails failed) := by
  unfold GraphQL.resolvePayload
  split
  · unfold resolveMembersOf
    split
    · exact .error (ground.other _ rfl)
    · rename_i members array
      have linkedMembers := ground.membersArray holds array
      split
      · exact always_bind.mpr ((always_collectOk fun member inside =>
          ground.projectObject_of_skipped (linkedMembers member inside)).mono fun _ _ => .ok)
      · refine always_bind.mpr (always_lift
          (fun _ thrown => ground.memberIds linkedMembers thrown) fun ids _ => ?_)
        exact always_bind.mpr ((ground.fetchBatches _).mono fun _ _ => .ok)
  · split
    · exact .ok
    · rename_i composite
      exact ground.projectObject holds (checked.imp_right fun accepted =>
        accepted (by simpa using composite))

end

theorem Ground.resolveByPath (ground : Ground admits raised failed linked)
    {selection : FieldSelection} {vars : Members} {fresh : Bool}
    (arguments : ∀ exception, argumentsToJson vars selection.arguments = .error exception →
      raised exception)
    (path : ∀ args exception, argumentsToJson vars selection.arguments = .ok args →
      expandPath fieldSpec.redfishPath args fieldSpec = .error exception → raised exception)
    (checked : (∀ error, failed error) ∨ (fieldSpec.scalar = false →
      validateSelections schema selection.selections fieldSpec.returnType = .ok ())) :
    (resolveByPath schema selection fieldSpec vars fresh).Always admits raised (Fails failed) := by
  unfold GraphQL.resolveByPath
  split
  · exact .error (ground.other _ rfl)
  · refine always_bind.mpr (always_lift arguments fun args resolved => ?_)
    refine always_bind.mpr (always_lift
      (fun exception => path args exception resolved) fun target _ => ?_)
    intro answer admitted
    cases answer with
    | error => exact .error (ground.other _ rfl)
    | ok payload => exact ground.resolvePayload (ground.payload _ _ admitted) checked

end

private theorem ground_isLookup : Ground (fun _ _ => True) (fun _ => True)
    (fun error => error.isLookup = false) (fun _ => True) where
  payload _ _ _ := trivial
  member _ _ _ _ _ := trivial
  item _ _ _ _ := trivial
  link _ _ _ _ _ _ := trivial
  other _ other := other

private theorem executeRoots_isLookup {schema : TypedSchema} {field? : Text → Option FieldSpec}
    {selections : Selections} (result : Members) (accepted : ∀ selection ∈ selections,
      validateRoot schema (field? selection.name) selection = .ok ()) :
    (executeRoots schema field? unknown fresh vars selections result).Always (fun _ _ => True)
      (fun _ => True) (Fails fun error => error.isLookup = false) := by
  induction selections generalizing result with
  | nil => exact .ok
  | cons selection rest ih =>
    obtain ⟨fieldSpec, found, valid⟩ :=
      exists_of_validateRoot (accepted selection List.mem_cons_self)
    rw [executeRoots, found]
    have resolved : (resolveByPath schema selection fieldSpec vars fresh).Always
        (fun _ _ => True) (fun _ => True) (Fails fun error => error.isLookup = false) :=
      ground_isLookup.resolveByPath (fun _ _ => trivial) (fun _ _ _ _ => trivial) (.inr valid)
    refine always_bind.mpr (resolved.mono fun outcome fails => ?_)
    cases outcome with
    | error error => exact .error (fails error rfl)
    | ok => exact ih _ fun other later => accepted other (List.mem_cons_of_mem _ later)

private theorem isLookup_of_run {schema : TypedSchema} {field? : Text → Option FieldSpec}
    {selections : Selections} {error : ExecutionError}
    {provider : List (ProviderRequest × Except Text Json) → ProviderData}
    (accepted : ∀ selection ∈ selections,
      validateRoot schema (field? selection.name) selection = .ok ()) (returned : run provider []
      (executeRoots schema field? unknown fresh vars selections []) = .ok (.error error)) :
    error.isLookup = false := by
  have ends : Ends (fun _ => True) (Fails fun error => error.isLookup = false) (run provider []
        (executeRoots schema field? unknown fresh vars selections [])) :=
    (executeRoots_isLookup [] accepted).ends (fun _ _ => trivial) []
  rw [returned] at ends
  exact ends error rfl

/-- No lookup fails in a validated operation. -/
theorem no_failed_lookup {schema : TypedSchema} {operation : Operation}
    (accepted : validateOperation schema operation = .ok ()) (vars : Members)
    (provider : List (ProviderRequest × Except Text Json) → ProviderData) (error : ExecutionError) :
    (operation.type = .query →
      Interaction.run provider [] (executeSelections schema operation.selections vars) =
        .ok (.error error) → error.isLookup = false) ∧ (operation.type = .subscription →
      Interaction.run provider [] (executeSubscriptionSelections schema operation.selections vars) =
        .ok (.error error) → error.isLookup = false) := by
  have valid : validateRoots schema operation.type operation.selections = .ok () := by
    unfold validateOperation at accepted
    split at accepted
    · cases accepted
    · exact accepted
  have each := forall_of_validateRoots valid
  constructor
  · intro isQuery returned
    rw [isQuery] at each
    exact isLookup_of_run each returned
  · intro isSubscription returned
    rw [isSubscription] at each
    exact isLookup_of_run each returned

theorem no_failed_lookup_system :
    ∃ (schema : TypedSchema) (operation : Operation)
      (provider : List (ProviderRequest × Except Text Json) → ProviderData)
      (error : ExecutionError),
      validateOperation schema operation = .ok () ∧ operation.type = .query ∧
      Interaction.run provider [] (executeSelections schema operation.selections []) =
        .ok (.error error) ∧ error.isLookup = false := by
  let system : FieldSpec := { name := [115], returnType := [83], redfishPath := [47] }
  let name : FieldSpec :=
    { name := [110], responseKey := [78], returnType := [84], scalar := true }
  let list : FieldSpec :=
    { name := [108], responseKey := [76], returnType := [83], isList := true }
  let schema : TypedSchema :=
    { rootQueries := [([115], system)], objects := [([83], ⟨[([110], name), ([108], list)]⟩)] }
  let operation : Operation := { selections := [{ name := [115], selections :=
    [{ name := [110] }, { name := [108], selections := [{ name := [110] }] }] }] }
  let provider : List (ProviderRequest × Except Text Json) → ProviderData := fun _ _ =>
    .ok (.object [([76], .int 5), ([78], .string [120])])
  have accepted : validateOperation schema operation = .ok () := rfl
  have returned : run provider [] (executeSelections schema operation.selections []) =
      .ok (.error (.expectedArray [108])) := rfl
  exact ⟨schema, operation, provider, .expectedArray [108], accepted, rfl, returned,
    (no_failed_lookup accepted [] _ _).1 rfl returned⟩

end Coroserver.GraphQL
