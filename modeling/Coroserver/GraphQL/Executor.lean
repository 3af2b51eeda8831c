import Coroserver.GraphQL.Schema
import Coroserver.Interaction
import Coroserver.OrderedMap

/-! `executeSelections`, `executeSubscriptionSelections`, `resolveByPath` and the
projection of `graphql/typed_executor.hpp`, with the resolution of arguments of
`graphql/util.hpp`. The provider is asked through `get` and `getFresh` and
answers with a payload or a message. A `Result` is a value of the coroutine; what
the JSON library throws is raised. -/

namespace Coroserver.GraphQL

/-- What `get<std::string>()` throws for a value that is not a string, and what
`expandFragments` throws. -/
inductive Exception where
  | typeMustBeString
  | runtimeError (message : Text)
deriving DecidableEq

def Json.getString : Json → Except Exception Text
  | .string text => .ok text
  | _ => .error .typeMustBeString

/-- The value of `$variable` in an object that has no other member. -/
def variableReference? : Members → Option Json
  | [(key, name)] => if key = ascii "$variable" then some name else none
  | _ => none

section

variable (vars : Members)

mutual

def resolveVariables : Json → Except Exception Json
  | .object members =>
    match variableReference? members with
    | some name => do
        let variableName ← name.getString
        .ok ((vars.lookup variableName).getD .null)
    | none => do
        let resolved ← resolveMembers members
        .ok (.object resolved)
  | .array items => do
      let resolved ← resolveItems items
      .ok (.array resolved)
  | .null => .ok .null
  | .bool value => .ok (.bool value)
  | .int value => .ok (.int value)
  | .float text => .ok (.float text)
  | .string text => .ok (.string text)

def resolveItems : List Json → Except Exception (List Json)
  | [] => .ok []
  | item :: rest => do
      let first ← resolveVariables item
      let others ← resolveItems rest
      .ok (first :: others)

def resolveMembers : Members → Except Exception Members
  | [] => .ok []
  | (key, value) :: rest => do
      let first ← resolveVariables value
      let others ← resolveMembers rest
      .ok ((key, first) :: others)

end

def argumentsToJson (arguments : List Argument) : Except Exception Members :=
  arguments.foldlM
    (fun result argument => do
      let value ← resolveVariables vars argument.value.value
      .ok (OrderedMap.assign result argument.name value))
    []

end

def initialVariables (operation : Operation) : Members :=
  OrderedMap.assignAll []
    (operation.variableDefinitions.map fun definition =>
      (definition.name, (definition.defaultValue.map Value.value).getD .null))

/-- Replace every occurrence of a placeholder from left to right; `skip` bytes of
the last one are still to be passed over. -/
def replaceFrom (placeholder value : Text) : Nat → Text → Text
  | _, [] => []
  | skip + 1, _ :: rest => replaceFrom placeholder value skip rest
  | 0, c :: rest =>
    if placeholder.isPrefixOf (c :: rest) then
      value ++ replaceFrom placeholder value (placeholder.length - 1) rest
    else c :: replaceFrom placeholder value 0 rest

def resolvedArguments (args : Members) (fieldSpec : FieldSpec) : Members :=
  let defaults := fieldSpec.arguments.filterMap fun argSpec =>
    if argSpec.defaultValue = [] then none
    else some (argSpec.name, Json.string argSpec.defaultValue)
  let given := args.filter fun entry =>
    match entry.2 with
    | .null => false
    | _ => true
  OrderedMap.assignAll (OrderedMap.assignAll [] defaults) given

def substitute (path : Text) (resolved : Members) : Except Exception Text :=
  resolved.foldlM
    (fun result entry => do
      let value ← entry.2.getString
      .ok (replaceFrom (123 :: entry.1 ++ [125]) value 0 result))
    path

def expandPath (pathTemplate : Text) (args : Members) (fieldSpec : FieldSpec) :
    Except Exception Text :=
  substitute pathTemplate (resolvedArguments args fieldSpec)

structure ProviderRequest where
  fresh : Bool
  url : Text

abbrev ProviderData := ProviderRequest → Except Text Json

abbrev Task := Interaction ProviderRequest (Except Text Json) Exception

inductive ExecutionError where
  | unknownQueryField (name : Text)
  | unknownSubscriptionField (name : Text)
  | unknownObjectType (name : Text)
  | unknownField (name typeName : Text)
  | expectedLink (field : Text)
  | expectedLinkedMembers (field : Text)
  | expectedArray (field : Text)
  | noRedfishPath (field : Text)
  | expectedMembers (field : Text)
  | provider (message : Text)

def ExecutionError.message : ExecutionError → Text
  | .unknownQueryField name => ascii "Unknown query field: " ++ name
  | .unknownSubscriptionField name => ascii "Unknown subscription field: " ++ name
  | .unknownObjectType name => ascii "Unknown object type: " ++ name
  | .unknownField name typeName =>
    ascii "Unknown field '" ++ name ++ ascii "' on type '" ++ typeName ++ ascii "'"
  | .expectedLink field =>
    ascii "Expected collection link object for field '" ++ field ++ ascii "'"
  | .expectedLinkedMembers field =>
    ascii "Expected Members array in collection link for '" ++ field ++ ascii "'"
  | .expectedArray field => ascii "Expected array for field '" ++ field ++ ascii "'"
  | .noRedfishPath field => ascii "No redfishPath defined for field: " ++ field
  | .expectedMembers field => ascii "Expected collection Members array for '" ++ field ++ ascii "'"
  | .provider message => message

/-- The lookups that validation is meant to rule out. -/
def ExecutionError.isLookup : ExecutionError → Bool
  | .unknownQueryField _ | .unknownSubscriptionField _ | .unknownObjectType _
  | .unknownField _ _ => true
  | .expectedLink _ | .expectedLinkedMembers _ | .expectedArray _ | .noRedfishPath _
  | .expectedMembers _ | .provider _ => false

def expandSuffix : Text := ascii "?$expand=*($levels=1)"

def FieldSelection.outputName (selection : FieldSelection) : Text :=
  if selection.aliasName = [] then selection.name else selection.aliasName

def Json.membersArray? (json : Json) : Option (List Json) :=
  match json.member? (ascii "Members") with
  | some (.array members) => some members
  | _ => none

section

variable (schema : TypedSchema)

/-- `projectObject`, with the loop over its selections as a parameter. -/
def projectWith (isEmpty : Bool)
    (each : ObjectSpec → Json → Task (Except ExecutionError Members))
    (source : Json) (typeName : Text) : Task (Except ExecutionError Json) :=
  match schema.getObject typeName with
  | none => .done (.error (.unknownObjectType typeName))
  | some object =>
    if isEmpty then .done (.ok source)
    else do
      let members ← each object source
      .done (members.map Json.object)

def projectValue (name : Text) (fieldSpec : FieldSpec) (source : Json)
    (project : Json → Text → Task (Except ExecutionError Json)) :
    Task (Except ExecutionError Json) :=
  match source.member? fieldSpec.responseKey with
  | none => .done (.ok .null)
  | some value =>
    if fieldSpec.scalar then .done (.ok value)
    else if fieldSpec.isList then
      if fieldSpec.collectionLink then
        match value.member? (ascii "@odata.id") with
        | none => .done (.error (.expectedLink name))
        | some link => do
            let collUrl ← Interaction.lift link.getString
            .ask ⟨true, collUrl ++ expandSuffix⟩ fun
              | .error message => .done (.error (.provider message))
              | .ok collResult =>
                match collResult.membersArray? with
                | none => .done (.error (.expectedLinkedMembers name))
                | some members => do
                    let items ← Interaction.collectOk
                      (fun member => project member fieldSpec.returnType) members
                    .done (.ok (.array items))
      else
        match value with
        | .array items => do
            let projected ← Interaction.collectAll
              (fun item => project item fieldSpec.returnType) items
            .done (projected.map Json.array)
        | _ => .done (.error (.expectedArray name))
    else project value fieldSpec.returnType

mutual

def projectEach (object : ObjectSpec) (typeName : Text) :
    Selections → Members → Json →
      Task (Except ExecutionError Members)
  | [], result, _ => .done (.ok result)
  | selection :: rest, result, source =>
    match object.fields.lookup selection.name with
    | none => .done (.error (.unknownField selection.name typeName))
    | some fieldSpec => do
        let fieldResult ← projectField selection fieldSpec source
        match fieldResult with
        | .error error => .done (.error error)
        | .ok value =>
          projectEach object typeName rest
            (OrderedMap.assign result selection.outputName value) source

def projectField : FieldSelection → FieldSpec → Json → Task (Except ExecutionError Json)
  | ⟨name, _, _, _, _, selections⟩, fieldSpec, source =>
    projectValue name fieldSpec source fun value typeName =>
      projectWith schema selections.isEmpty
        (fun object source => projectEach object typeName selections [] source) value typeName

end

def projectObject (source : Json) (typeName : Text) (selections : Selections) :
    Task (Except ExecutionError Json) :=
  projectWith schema selections.isEmpty
    (fun object source => projectEach schema object typeName selections [] source) source typeName

variable (selection : FieldSelection)

theorem projectField_eq (fieldSpec : FieldSpec) (source : Json) :
    projectField schema selection fieldSpec source =
      projectValue selection.name fieldSpec source fun value typeName =>
        projectObject schema value typeName selection.selections := by
  cases selection
  rw [projectField]
  rfl

/-- `std::nullopt` for a member that is skipped. -/
def fetchAndProject (memberId returnType : Text) (selections : Selections) :
    Task (Option Json) :=
  .ask ⟨true, memberId⟩ fun
    | .error _ => .done none
    | .ok item => do
        let projResult ← projectObject schema item returnType selections
        .done projResult.toOption

def kBatchSize : Nat := 3

/-- `when_all` for a batch: every task runs to its end, the outcomes are in the order
of the tasks, and the first exception among them is rethrown. Each task only depends
on the answers to its own requests. -/
def whenAll {Value : Type} : List (Task Value) → Task (List Value)
  | [] => .done []
  | task :: rest => do
      let first ← task.attempt
      let others ← (whenAll rest).attempt
      match first, others with
      | .error exception, _ => .raise exception
      | .ok _, .error exception => .raise exception
      | .ok value, .ok values => .done (value :: values)

def fetchBatches (returnType : Text) (selections : Selections) :
    List (List Text) → Task (List Json)
  | [] => .done []
  | batch :: rest => do
      let outcomes ← whenAll (batch.map fun memberId =>
        fetchAndProject schema memberId returnType selections)
      let others ← fetchBatches returnType selections rest
      .done (outcomes.filterMap id ++ others)

def memberIds : List Json → Except Exception (List Text)
  | [] => .ok []
  | member :: rest =>
    match member.member? (ascii "@odata.id") with
    | none => memberIds rest
    | some link => do
        let memberId ← link.getString
        let others ← memberIds rest
        .ok (memberId :: others)

def resolveMembersOf (fieldSpec : FieldSpec) (payload : Json) : Task (Except ExecutionError Json) :=
  match payload.membersArray? with
  | none => .done (.error (.expectedMembers fieldSpec.name))
  | some members =>
    if fieldSpec.expandMembers then do
      let items ← Interaction.collectOk
        (fun member => projectObject schema member fieldSpec.returnType selection.selections)
        members
      .done (.ok (.array items))
    else do
      let ids ← Interaction.lift (memberIds members)
      let items ← fetchBatches schema fieldSpec.returnType selection.selections
        (ids.toChunks kBatchSize)
      .done (.ok (.array items))

def resolvePayload (fieldSpec : FieldSpec) (payload : Json) : Task (Except ExecutionError Json) :=
  if fieldSpec.isList then resolveMembersOf schema selection fieldSpec payload
  else if fieldSpec.scalar then .done (.ok payload)
  else projectObject schema payload fieldSpec.returnType selection.selections

def resolveByPath (fieldSpec : FieldSpec)
    (vars : Members) (fresh : Bool) : Task (Except ExecutionError Json) :=
  if fieldSpec.redfishPath = [] then .done (.error (.noRedfishPath fieldSpec.name))
  else do
    let args ← Interaction.lift (argumentsToJson vars selection.arguments)
    let path ← Interaction.lift (expandPath fieldSpec.redfishPath args fieldSpec)
    let target := if fieldSpec.expandMembers && fieldSpec.isList then path ++ expandSuffix else path
    .ask ⟨fresh, target⟩ fun
      | .error message => .done (.error (.provider message))
      | .ok payload => resolvePayload schema selection fieldSpec payload

def executeRoots (field? : Text → Option FieldSpec) (unknown : Text → ExecutionError)
    (fresh : Bool) (vars : Members) :
    Selections → Members → Task (Except ExecutionError Json)
  | [], result => .done (.ok (.object result))
  | selection :: rest, result =>
    match field? selection.name with
    | none => .done (.error (unknown selection.name))
    | some fieldSpec => do
        let fieldResult ← resolveByPath schema selection fieldSpec vars fresh
        match fieldResult with
        | .error error => .done (.error error)
        | .ok value =>
          executeRoots field? unknown fresh vars rest
            (OrderedMap.assign result selection.outputName value)

def executeSelections (selections : Selections) (vars : Members) :
    Task (Except ExecutionError Json) :=
  executeRoots schema schema.getRootQueryField .unknownQueryField false vars selections []

def executeSubscriptionSelections (selections : Selections)
    (vars : Members) : Task (Except ExecutionError Json) :=
  executeRoots schema schema.getRootSubscriptionField .unknownSubscriptionField true vars
    selections []

end

end Coroserver.GraphQL
