import Coroserver.GraphQL.Ast
import Coroserver.Http.Target

/-! `graphql/typed_schema.hpp`: the fields of the root types and of the object
types, and the validation of an operation against them. Validation reports the
first fault it finds. -/

namespace Coroserver.GraphQL

structure ArgumentSpec where
  name : Text
  required : Bool := false
  defaultValue : Text := []

structure FieldSpec where
  name : Text
  responseKey : Text := []
  returnType : Text
  isList : Bool := false
  scalar : Bool := false
  arguments : List ArgumentSpec := []
  redfishPath : Text := []
  expandMembers : Bool := false
  collectionLink : Bool := false

structure ObjectSpec where
  fields : List (Text × FieldSpec)

structure TypedSchema where
  rootQueries : List (Text × FieldSpec) := []
  rootSubscriptions : List (Text × FieldSpec) := []
  objects : List (Text × ObjectSpec) := []

inductive ValidationError where
  | unsupportedOperation
  | unknownRootField (name : Text)
  | unknownObjectType (name : Text)
  | unknownField (name objectTypeName : Text)
  | scalarSelections (name : Text)
  | unknownArgument (argument field : Text)
  | missingArgument (argument field : Text)

def ValidationError.message : ValidationError → Text
  | .unsupportedOperation => ascii "Only query and subscription operations are supported"
  | .unknownRootField name => ascii "Unknown field: " ++ name
  | .unknownObjectType name => ascii "Unknown object type: " ++ name
  | .unknownField name objectTypeName =>
    ascii "Unknown field '" ++ name ++ ascii "' on type '" ++ objectTypeName ++ ascii "'"
  | .scalarSelections name => ascii "Scalar field cannot have sub-selections: " ++ name
  | .unknownArgument argument field =>
    ascii "Unknown argument '" ++ argument ++ ascii "' on field '" ++ field ++ ascii "'"
  | .missingArgument argument field =>
    ascii "Missing required argument '" ++ argument ++ ascii "' on field '" ++ field ++ ascii "'"

namespace TypedSchema

def getRootQueryField (schema : TypedSchema) (name : Text) : Option FieldSpec :=
  schema.rootQueries.lookup name

def getRootSubscriptionField (schema : TypedSchema) (name : Text) : Option FieldSpec :=
  schema.rootSubscriptions.lookup name

def getObject (schema : TypedSchema) (name : Text) : Option ObjectSpec :=
  schema.objects.lookup name

end TypedSchema

def validateArguments (fieldName : Text) (arguments : List Argument) (fieldSpec : FieldSpec) :
    Except ValidationError Unit :=
  match arguments.find? fun argument =>
      !fieldSpec.arguments.any fun spec => spec.name = argument.name with
  | some argument => .error (.unknownArgument argument.name fieldName)
  | none =>
    match fieldSpec.arguments.find? fun spec =>
        spec.required && !arguments.any fun argument => argument.name = spec.name with
    | some spec => .error (.missingArgument spec.name fieldName)
    | none => .ok ()

section

variable (schema : TypedSchema)

mutual

def validateEach (object : ObjectSpec) (objectTypeName : Text) :
    Selections → Except ValidationError Unit
  | [] => .ok ()
  | field :: rest =>
    match validateField object objectTypeName field with
    | .error error => .error error
    | .ok () => validateEach object objectTypeName rest

def validateField (object : ObjectSpec) (objectTypeName : Text) :
    FieldSelection → Except ValidationError Unit
  | ⟨name, _, _, arguments, _, selections⟩ =>
    match object.fields.lookup name with
    | none => .error (.unknownField name objectTypeName)
    | some fieldSpec =>
      match validateArguments name arguments fieldSpec with
      | .error error => .error error
      | .ok () =>
        if fieldSpec.scalar then
          if selections ≠ [] then .error (.scalarSelections name) else .ok ()
        else
          match schema.getObject fieldSpec.returnType with
          | none => .error (.unknownObjectType fieldSpec.returnType)
          | some inner => validateEach inner fieldSpec.returnType selections

end

def validateSelections (selections : Selections) (objectTypeName : Text) :
    Except ValidationError Unit :=
  match schema.getObject objectTypeName with
  | none => .error (.unknownObjectType objectTypeName)
  | some object => validateEach schema object objectTypeName selections

def validateRoot (fieldSpec? : Option FieldSpec) (selection : FieldSelection) :
    Except ValidationError Unit :=
  match fieldSpec? with
  | none => .error (.unknownRootField selection.name)
  | some fieldSpec =>
    match validateArguments selection.name selection.arguments fieldSpec with
    | .error error => .error error
    | .ok () =>
      if fieldSpec.scalar = false then
        validateSelections schema selection.selections fieldSpec.returnType
      else if selection.selections ≠ [] then .error (.scalarSelections selection.name)
      else .ok ()

def rootField (type : OperationType) (name : Text) : Option FieldSpec :=
  if type = .subscription then schema.getRootSubscriptionField name
  else schema.getRootQueryField name

def validateRoots (type : OperationType) : Selections → Except ValidationError Unit
  | [] => .ok ()
  | selection :: rest =>
    match validateRoot schema (rootField schema type selection.name) selection with
    | .error error => .error error
    | .ok () => validateRoots type rest

def validateOperation (operation : Operation) : Except ValidationError Unit :=
  if operation.type ≠ .query ∧ operation.type ≠ .subscription then .error .unsupportedOperation
  else validateRoots schema operation.type operation.selections

end

variable {schema : TypedSchema} {selections : Selections}

theorem forall_of_validateRoots {type : OperationType}
    (accepted : validateRoots schema type selections = .ok ()) :
    ∀ selection ∈ selections,
      validateRoot schema (rootField schema type selection.name) selection = .ok () := by
  induction selections with
  | nil => simp
  | cons first rest ih =>
    rw [validateRoots] at accepted
    split at accepted
    · cases accepted
    · rename_i valid
      intro selection member
      rcases List.mem_cons.mp member with rfl | later
      · exact valid
      · exact ih accepted selection later

theorem exists_of_validateRoot {fieldSpec? : Option FieldSpec} {selection : FieldSelection}
    (accepted : validateRoot schema fieldSpec? selection = .ok ()) :
    ∃ fieldSpec, fieldSpec? = some fieldSpec ∧ (fieldSpec.scalar = false →
        validateSelections schema selection.selections fieldSpec.returnType = .ok ()) := by
  unfold validateRoot at accepted
  split at accepted
  · cases accepted
  · rename_i fieldSpec
    refine ⟨fieldSpec, rfl, fun composite => ?_⟩
    split at accepted
    · cases accepted
    · rwa [if_pos composite] at accepted

variable {objectTypeName : Text} {object : ObjectSpec} {field : FieldSelection}

theorem validateField_of_validateEach {rest : Selections}
    (accepted : validateEach schema object objectTypeName (field :: rest) = .ok ()) :
    validateField schema object objectTypeName field = .ok () ∧
      validateEach schema object objectTypeName rest = .ok () := by
  rw [validateEach] at accepted
  split at accepted
  · cases accepted
  · rename_i valid
    exact ⟨valid, accepted⟩

theorem exists_of_validateField
    (accepted : validateField schema object objectTypeName field = .ok ()) :
    ∃ fieldSpec, object.fields.lookup field.name = some fieldSpec ∧ (fieldSpec.scalar = false →
        ∃ inner, schema.getObject fieldSpec.returnType = some inner ∧
          validateEach schema inner fieldSpec.returnType field.selections = .ok ()) := by
  obtain ⟨name, aliasName, fragmentSpreadName, arguments, directives, selections⟩ := field
  rw [validateField] at accepted
  split at accepted
  · cases accepted
  · rename_i fieldSpec found
    refine ⟨fieldSpec, found, fun composite => ?_⟩
    split at accepted
    · cases accepted
    · rw [if_neg (by simp [composite])] at accepted
      split at accepted
      · cases accepted
      · rename_i inner object
        exact ⟨inner, object, accepted⟩

theorem exists_of_validateSelections
    (accepted : validateSelections schema selections objectTypeName = .ok ()) :
    ∃ object, schema.getObject objectTypeName = some object ∧
      validateEach schema object objectTypeName selections = .ok () := by
  unfold validateSelections at accepted
  split at accepted
  · cases accepted
  · rename_i object found
    exact ⟨object, found, accepted⟩

end Coroserver.GraphQL
