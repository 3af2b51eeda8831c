import Coroserver.GraphQL.ExecutorProperties
import Coroserver.GraphQL.Fragments
import Coroserver.GraphQL.Parser

/-! `TypedExecutor::execute`: parsing, expansion of fragments, validation and
execution. Only the parser is called within a `try`; an exception of the other steps
leaves the coroutine. -/

namespace Coroserver.GraphQL

open Interaction List
open OrderedMap

def errorResponse (message : Text) : Json :=
  .object [(ascii "errors", .array [.object [(ascii "message", .string message)]])]

def dataResponse (data : Json) : Json := .object [(ascii "data", data)]

def mergedVariables (operation : Operation) (vars : Members) : Members :=
  OrderedMap.assignAll (initialVariables operation) vars

def executeExpanded (schema : TypedSchema) (operation : Operation) (vars : Members) :
    Task Json :=
  match validateOperation schema operation with
  | .error error => .done (errorResponse error.message)
  | .ok () => do
      let dataResult ← executeSelections schema operation.selections
        (mergedVariables operation vars)
      match dataResult with
      | .error error => .done (errorResponse error.message)
      | .ok data => .done (dataResponse data)

def execute (stod : Text → Bool) (schema : TypedSchema) (query : Text)
    (vars : Members) : Task Json :=
  match Parser.tryParse stod query with
  | .error message => .done (errorResponse message)
  | .ok operation =>
    match expandFragments operation with
    | .error error => .raise (.runtimeError error.message)
    | .ok expanded => executeExpanded schema expanded vars

def Json.IsText (json : Json) : Prop := ∃ text, json = .string text

variable {json : Json} {vars : Members} {fieldSpec : FieldSpec}
  {selections : Selections} {selection : FieldSelection}

theorem exists_getString_iff : (∃ text, json.getString = .ok text) ↔ json.IsText := by
  constructor
  · rintro ⟨text, read⟩
    cases json with
    | string other => exact ⟨other, rfl⟩
    | _ => cases read
  · rintro ⟨text, rfl⟩
    exact ⟨text, rfl⟩

variable {path typeName : Text} {args result : Members} {object : ObjectSpec}
  {fresh : Bool}

theorem exists_substitute_iff {resolved : Members} :
    (∃ target, substitute path resolved = .ok target) ↔ ∀ entry ∈ resolved, entry.2.IsText := by
  unfold substitute
  induction resolved generalizing path with
  | nil => exact ⟨fun _ _ member => absurd member not_mem_nil, fun _ => ⟨path, rfl⟩⟩
  | cons _ _ ih =>
    rw [forall_mem_cons]
    constructor
    · rintro ⟨target, done⟩
      obtain ⟨_, first, others⟩ := Fallible.foldlM_cons_eq_ok.mp done
      obtain ⟨text, read, _⟩ := Fallible.bind_eq_ok.mp first
      exact ⟨exists_getString_iff.mp ⟨text, read⟩, ih.mp ⟨target, others⟩⟩
    · rintro ⟨isText, others⟩
      obtain ⟨text, read⟩ := exists_getString_iff.mpr isText
      obtain ⟨target, done⟩ := ih.mpr others
      refine ⟨target, Fallible.foldlM_cons_eq_ok.mpr ⟨_, ?_, done⟩⟩
      exact Fallible.bind_eq_ok.mpr ⟨text, read, rfl⟩

def Json.TextOrNull (json : Json) : Prop := json = .null ∨ json.IsText

theorem argumentsToJson_ordered {arguments : List Argument}
    (resolved : argumentsToJson vars arguments = .ok args) : Ordered args := by
  apply Fallible.foldlM_preserves Ordered _ List.Pairwise.nil resolved
  intro _ _ _ ordered first
  obtain ⟨value, _, same⟩ := Fallible.bind_eq_ok.mp first
  cases same
  exact ordered.assign _ _

theorem exists_expandPath_iff (ordered : Ordered args) :
    (∃ target, expandPath path args fieldSpec = .ok target) ↔
      ∀ entry ∈ args, entry.2.TextOrNull := by
  unfold expandPath
  rw [exists_substitute_iff]
  unfold resolvedArguments
  constructor
  · intro texts entry member
    by_cases null : entry.2 = .null
    · exact .inl null
    · refine .inr (texts entry (mem_assignAll ?_ (mem_filter.mpr ⟨member, ?_⟩)))
      · exact ordered.nodup_keys.sublist (filter_sublist.map _)
      · cases value : entry.2 with
        | null => exact absurd value null
        | _ => rfl
  · intro textOrNull entry member
    rcases mem_or_mem_of_mem_assignAll member with default | given
    · rcases mem_or_mem_of_mem_assignAll default with none | default
      · cases none
      · obtain ⟨_, _, made⟩ := mem_filterMap.mp default
        split at made
        · cases made
        · cases made
          exact ⟨_, rfl⟩
    · obtain ⟨member, given⟩ := mem_filter.mp given
      rcases textOrNull entry member with null | isText
      · rw [null] at given
        cases given
      · exact isText

/-- The arguments resolve, and every one that is not null is a string. -/
def TextArguments (vars : Members) (arguments : List Argument) : Prop :=
  ∃ args, argumentsToJson vars arguments = .ok args ∧ ∀ entry ∈ args, entry.2.TextOrNull

/-- Every member called `@odata.id`, at any depth, is a string. -/
inductive TextLinks : Json → Prop where
  | null : TextLinks .null
  | bool (value : Bool) : TextLinks (.bool value)
  | int (value : Int) : TextLinks (.int value)
  | float (text : Text) : TextLinks (.float text)
  | string (text : Text) : TextLinks (.string text)
  | array {items} (inside : ∀ item ∈ items, TextLinks item) :
      TextLinks (.array items)
  | object {members} (links : ∀ link, (ascii "@odata.id", link) ∈ members → link.IsText)
      (inside : ∀ entry ∈ members, TextLinks entry.2) : TextLinks (.object members)

def TextAnswer (_ : ProviderRequest) (answer : Except Text Json) : Prop :=
  ∀ payload, answer = .ok payload → TextLinks payload

private theorem mem_of_member? {value : Json} {key : Text} (found : json.member? key = some value) :
    ∃ members, json = .object members ∧ (key, value) ∈ members := by
  unfold Json.member? at found
  split at found
  · rename_i members
    obtain ⟨_, _, entries, _⟩ := lookup_eq_some_iff.mp found
    refine ⟨members, rfl, ?_⟩
    rw [entries]
    exact mem_append_right _ mem_cons_self
  · cases found

theorem ground_textLinks :
    Ground TextAnswer (fun _ => False) (fun _ => True) TextLinks where
  payload _ json admitted := admitted json rfl
  member json key value holds found := by
    obtain ⟨_, rfl, member⟩ := mem_of_member? found
    cases holds with
    | object _ inside => exact inside _ member
  item items item holds member := by
    cases holds with
    | array inside => exact inside item member
  link json link holds found exception thrown := by
    obtain ⟨_, rfl, member⟩ := mem_of_member? found
    cases holds with
    | object links _ =>
      obtain ⟨text, rfl⟩ := links link member
      cases thrown
  other _ _ := trivial

section

variable (schema : TypedSchema) (field? : Text → Option FieldSpec)

def Resolvable (selection : FieldSelection) (fieldSpec : FieldSpec) : Prop :=
  fieldSpec.isList = true ∨ fieldSpec.scalar = true ∨
    ∃ object, schema.getObject fieldSpec.returnType = some object ∧
      ∀ inner ∈ selection.selections, object.fields.lookup inner.name ≠ none

/-- The root fields up to the first one that is certain to fail have string
arguments. -/
def TextRoots (vars : Members) : Selections → Prop
  | [] => True
  | selection :: rest =>
    ∀ fieldSpec, field? selection.name = some fieldSpec → fieldSpec.redfishPath ≠ [] →
      TextArguments vars selection.arguments ∧
        (Resolvable schema selection fieldSpec → TextRoots vars rest)

end

variable {schema : TypedSchema}

private theorem projectEach_fails {source : Json} (holds : TextLinks source)
    (missing : ∃ inner ∈ selections, object.fields.lookup inner.name = none) :
    (projectEach schema object typeName selections result source).Always TextAnswer
      (fun _ => False) fun outcome => ∀ members, outcome ≠ .ok members := by
  induction selections generalizing result with
  | nil =>
    obtain ⟨_, member, _⟩ := missing
    cases member
  | cons selection rest ih =>
    rw [projectEach]
    split
    · intro members same
      cases same
    · rename_i fieldSpec found
      have later : ∃ inner ∈ rest, object.fields.lookup inner.name = none := by
        obtain ⟨inner, member, absent⟩ := missing
        rcases mem_cons.mp member with rfl | inRest
        · rw [found] at absent
          cases absent
        · exact ⟨inner, inRest, absent⟩
      have projected : (projectField schema selection fieldSpec source).Always TextAnswer
          (fun _ => False) (Fails fun _ => True) := by
        rw [projectField_eq]
        exact ground_textLinks.projectValue holds fun _ value linked =>
          ground_textLinks.projectObject linked (.inl fun _ => trivial)
      refine always_bind.mpr (projected.mono fun outcome _ => ?_)
      cases outcome with
      | error =>
        intro members same
        cases same
      | ok => exact ih later

theorem resolvePayload_fails {payload : Json} (holds : TextLinks payload)
    (unresolvable : ¬Resolvable schema selection fieldSpec) :
    (resolvePayload schema selection fieldSpec payload).Always TextAnswer (fun _ => False)
      fun outcome => ∀ value, outcome ≠ .ok value := by
  unfold Resolvable at unresolvable
  push Not at unresolvable
  obtain ⟨notList, notScalar, unknown⟩ := unresolvable
  unfold resolvePayload
  rw [if_neg notList, if_neg notScalar]
  unfold projectObject projectWith
  split
  · exact nofun
  · rename_i object found
    obtain ⟨inner, member, absent⟩ := unknown object found
    have nonempty : selection.selections.isEmpty = false :=
      isEmpty_eq_false_iff.mpr (ne_nil_of_mem member)
    rw [if_neg (by rw [nonempty]; exact Bool.false_ne_true)]
    refine always_bind.mpr
      ((projectEach_fails holds ⟨inner, member, absent⟩).mono fun outcome never => ?_)
    cases outcome with
    | error => exact nofun
    | ok members => exact absurd rfl (never members)

theorem projectEach_null (known : ∀ inner ∈ selections, object.fields.lookup inner.name ≠ none)
    (result : Members) :
    ∃ members, projectEach schema object typeName selections result .null =
      .done (.ok members) := by
  induction selections generalizing result with
  | nil => exact ⟨result, rfl⟩
  | cons selection rest ih =>
    obtain ⟨first, others⟩ := forall_mem_cons.mp known
    obtain ⟨fieldSpec, found⟩ := Option.ne_none_iff_exists'.mp first
    obtain ⟨members, projected⟩ := ih others (assign result selection.outputName .null)
    have nullField : projectField schema selection fieldSpec .null = .done (.ok .null) := by
      rw [projectField_eq]
      rfl
    refine ⟨members, ?_⟩
    rw [projectEach, found]
    dsimp only
    rw [nullField]
    exact projected

private theorem exists_resolvePayload_ok (resolvable : Resolvable schema selection fieldSpec) :
    ∃ payload value, TextLinks payload ∧
      resolvePayload schema selection fieldSpec payload = .done (.ok value) := by
  by_cases isList : fieldSpec.isList = true
  · have different : ascii "@odata.id" ≠ ascii "Members" := by decide
    have links : TextLinks (.object [(ascii "Members", .array [])]) := by
      refine .object (fun link member => ?_) ?_
      · exact absurd (congrArg Prod.fst (mem_singleton.mp member)) different
      · exact forall_mem_singleton.mpr (.array nofun)
    have found : (Json.object [(ascii "Members", .array [])]).membersArray? = some [] := rfl
    refine ⟨_, .array [], links, ?_⟩
    rw [resolvePayload, if_pos isList, resolveMembersOf, found]
    dsimp only
    split <;> rfl
  · by_cases scalar : fieldSpec.scalar = true
    · exact ⟨.null, .null, .null, by rw [resolvePayload, if_neg isList, if_pos scalar]⟩
    · obtain ⟨object, found, known⟩ := (resolvable.resolve_left isList).resolve_left scalar
      have projected : ∃ members, projectEach schema object fieldSpec.returnType
          selection.selections [] .null = .done (.ok members) := projectEach_null known []
      obtain ⟨members, projected⟩ := projected
      refine ⟨.null, if selection.selections.isEmpty then .null else .object members, .null, ?_⟩
      rw [resolvePayload, if_neg isList, if_neg scalar, projectObject, projectWith, found]
      dsimp only
      split
      · rfl
      · rw [projected]
        rfl

private theorem always_resolveByPath_iff {Rest : Prop} :
    (resolveByPath schema selection fieldSpec vars fresh).Always TextAnswer (fun _ => False)
        (fun outcome => ∀ value, outcome = .ok value → Rest) ↔
      (fieldSpec.redfishPath ≠ [] → TextArguments vars selection.arguments ∧
        (Resolvable schema selection fieldSpec → Rest)) := by
  by_cases empty : fieldSpec.redfishPath = []
  · rw [resolveByPath, if_pos empty]
    exact ⟨fun _ present => absurd empty present, fun _ => nofun⟩
  · rw [resolveByPath, if_neg empty, always_bind]
    constructor
    · intro always _
      cases arguments : argumentsToJson vars selection.arguments with
      | error =>
        rw [arguments] at always
        exact always.elim
      | ok args =>
        rw [arguments] at always
        have continued := always_bind.mp always
        cases path : expandPath fieldSpec.redfishPath args fieldSpec with
        | error =>
          rw [path] at continued
          exact continued.elim
        | ok target =>
          rw [path] at continued
          refine ⟨⟨args, arguments, ?_⟩, fun resolvable => ?_⟩
          · exact (exists_expandPath_iff (argumentsToJson_ordered arguments)).mp ⟨target, path⟩
          · obtain ⟨payload, value, links, resolved⟩ := exists_resolvePayload_ok resolvable
            have answered := continued (.ok payload) fun _ same => by cases same; exact links
            dsimp only at answered
            rw [resolved] at answered
            exact answered value rfl
    · intro condition
      obtain ⟨⟨args, arguments, texts⟩, reached⟩ := condition empty
      obtain ⟨_, path⟩ := (exists_expandPath_iff (argumentsToJson_ordered arguments)).mpr texts
      rw [arguments]
      refine always_bind.mpr ?_
      rw [path]
      intro answer admitted
      cases answer with
      | error => exact nofun
      | ok payload =>
        have links := admitted payload rfl
        by_cases resolvable : Resolvable schema selection fieldSpec
        · refine (ground_textLinks.resolvePayload links (.inl fun _ => trivial)).mono ?_
          exact fun _ _ _ _ => reached resolvable
        · refine (resolvePayload_fails links resolvable).mono fun outcome never value same => ?_
          exact absurd same (never value)

theorem always_executeRoots_iff {field? : Text → Option FieldSpec}
    {unknown : Text → ExecutionError} :
    (executeRoots schema field? unknown fresh vars selections result).Always TextAnswer
        (fun _ => False) (fun _ => True) ↔
      TextRoots schema field? vars selections := by
  induction selections generalizing result with
  | nil => exact ⟨fun _ => trivial, fun _ => trivial⟩
  | cons selection rest ih =>
    rw [executeRoots, TextRoots]
    cases found : field? selection.name with
    | none =>
      refine ⟨fun _ fieldSpec same => ?_, fun _ => trivial⟩
      cases same
    | some fieldSpec =>
      have continued : (resolveByPath schema selection fieldSpec vars fresh).Always TextAnswer
          (fun _ => False) (fun outcome => ∀ value, outcome = .ok value →
            TextRoots schema field? vars rest) ↔ _ :=
        always_resolveByPath_iff
      refine always_bind.trans ((always_congr fun outcome => ?_).trans (continued.trans ?_))
      · cases outcome with
        | error =>
          refine ⟨fun _ value same => ?_, fun _ => trivial⟩
          cases same
        | ok value => exact ih.trans ⟨fun holds _ _ => holds, fun holds => holds value rfl⟩
      · exact ⟨fun condition _ same => by cases same; exact condition,
          fun condition => condition fieldSpec rfl⟩

def IsResponse (response : Json) : Prop :=
  response.member? (ascii "data") ≠ none ∨ response.member? (ascii "errors") ≠ none

theorem isResponse_errorResponse (message : Text) : IsResponse (errorResponse message) :=
  .inr nofun

/-- The fragments of the query can be expanded, and if validation accepts the
operation, the root fields that are reached have string arguments. -/
def Answerable (stod : Text → Bool) (schema : TypedSchema) (query : Text)
    (vars : Members) : Prop :=
  ∀ operation, Parser.tryParse stod query = .ok operation →
    Expandable operation.fragments operation.selections ∧
      ∀ expanded, expandFragments operation = .ok expanded →
        validateOperation schema expanded = .ok () →
          TextRoots schema schema.getRootQueryField (mergedVariables expanded vars)
            expanded.selections

private theorem always_executeExpanded_iff {operation : Operation} :
    (executeExpanded schema operation vars).Always TextAnswer (fun _ => False) IsResponse ↔
      (validateOperation schema operation = .ok () →
        TextRoots schema schema.getRootQueryField (mergedVariables operation vars)
          operation.selections) := by
  unfold executeExpanded
  cases validated : validateOperation schema operation with
  | error error => exact ⟨fun _ => nofun, fun _ => isResponse_errorResponse error.message⟩
  | ok _ =>
    have responds : ∀ outcome : Except ExecutionError Json, (match outcome with
          | .error error => .done (errorResponse error.message)
          | .ok data => .done (dataResponse data) : Task Json).Always TextAnswer
            (fun _ => False) IsResponse ↔ True := by
      intro outcome
      cases outcome with
      | error error => exact iff_true_intro (isResponse_errorResponse error.message)
      | ok => exact iff_true_intro (.inl nofun)
    dsimp only
    rw [always_bind, always_congr responds]
    unfold executeSelections
    rw [always_executeRoots_iff]
    exact ⟨fun holds _ => holds, fun condition => condition rfl⟩

private theorem always_execute_iff {stod : Text → Bool} {query : Text} :
    (execute stod schema query vars).Always TextAnswer (fun _ => False) IsResponse ↔
      Answerable stod schema query vars := by
  unfold execute Answerable
  cases parsed : Parser.tryParse stod query with
  | error message => exact ⟨fun _ => nofun, fun _ => isResponse_errorResponse message⟩
  | ok operation =>
    have expandable := (expandFragments_correct operation).2.1
    dsimp only
    cases expansion : expandFragments operation with
    | error =>
      refine ⟨False.elim, fun condition => ?_⟩
      obtain ⟨_, succeeded⟩ := expandable.mpr (condition operation rfl).1
      rw [expansion] at succeeded
      cases succeeded
    | ok expanded =>
      refine always_executeExpanded_iff.trans ⟨fun condition other same => ?_, fun condition =>
        (condition operation rfl).2 expanded expansion⟩
      cases same
      refine ⟨expandable.mp ⟨expanded, expansion⟩, fun other succeeded => ?_⟩
      rw [expansion] at succeeded
      cases succeeded
      exact condition

/-- `execute` returns a response, whatever a provider of text links answers, exactly if its query
is answerable. -/
theorem execute_returns_iff (stod : Text → Bool) (schema : TypedSchema) (query : Text)
    (vars : Members) :
    (∀ provider : List (ProviderRequest × Except Text Json) → ProviderData,
      (∀ history request, TextAnswer request (provider history request)) →
        ∃ response, Interaction.run provider [] (execute stod schema query vars) =
          .ok response ∧ IsResponse response) ↔
      Answerable stod schema query vars := by
  rw [← always_execute_iff]
  constructor
  · intro returns
    refine always_of_forall_ends (fun _ => ⟨.error [], nofun⟩) [] ?_
    intro provider admitted
    exact (ends_iff fun _ => not_false).mpr (returns provider admitted)
  · intro always _ admitted
    exact (ends_iff fun _ => not_false).mp (always.ends admitted [])

def thrown : Except Exception Json → Option Exception
  | .ok _ => none
  | .error exception => some exception

def systemField : FieldSpec where
  name := ascii "system"
  returnType := ascii "System"
  scalar := true
  arguments := [{ name := ascii "id" }]
  redfishPath := ascii "/Systems/\x7bid\x7d"

def systemsField : FieldSpec where
  name := ascii "systems"
  returnType := ascii "System"
  isList := true
  redfishPath := ascii "/Systems"

def systemsSchema : TypedSchema where
  rootQueries := [(ascii "system", systemField), (ascii "systems", systemsField)]
  objects := [(ascii "System", ⟨[]⟩)]

/-- An undefined fragment, a fragment that spreads itself, an argument that is a
number, and a link that is a number. -/
theorem execute_throws :
    thrown (Interaction.run (fun _ _ => .error []) []
      (execute (fun _ => true) systemsSchema (ascii "\x7b...F\x7d") [])) =
        some (.runtimeError (ascii "Unknown fragment: F")) ∧
    thrown (Interaction.run (fun _ _ => .error []) [] (execute (fun _ => true) systemsSchema
        (ascii "\x7b...F\x7d fragment F on Query \x7b...F\x7d") [])) =
        some (.runtimeError (ascii "Circular fragment reference: F")) ∧
    thrown (Interaction.run (fun _ _ => .error []) []
      (execute (fun _ => true) systemsSchema (ascii "\x7bsystem(id:1)\x7d") [])) =
        some .typeMustBeString ∧ thrown (Interaction.run (fun _ _ => .ok (.object [(ascii "Members",
        .array [.object [(ascii "@odata.id", .int 1)]])])) []
      (execute (fun _ => true) systemsSchema (ascii "\x7bsystems\x7d") [])) =
        some .typeMustBeString := by
  refine ⟨?_, ?_, ?_, ?_⟩ <;> decide +kernel

end Coroserver.GraphQL
