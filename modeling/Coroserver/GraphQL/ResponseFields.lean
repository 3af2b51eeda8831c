import Coroserver.GraphQL.Execute
import Coroserver.GraphQL.MemberModes

/-! A field is written under its output name whenever it is selected, so of several
selections with one output name in a selection set the last one stays. A list of
members leaves out those that cannot be projected. A selected path is shown in the
response unless it meets one of the two. -/

namespace Coroserver.GraphQL

open Interaction (evaluate evaluate_bind_eq_ok evaluate_collectOk evaluate_lift)
open Fallible List

/-! ## Paths of a query -/

structure PathStep where
  outputName : Text
  name : Text
  arguments : List Argument

def FieldSelection.pathStep (selection : FieldSelection) : PathStep :=
  ⟨selection.outputName, selection.name, selection.arguments⟩

/-- The path leads down to a leaf of the selections. -/
def Selected : List PathStep → Selections → Prop
  | [], selections => selections = []
  | step :: rest, selections =>
    ∃ selection ∈ selections, selection.pathStep = step ∧ Selected rest selection.selections

/-- Selections with one output name refer to one field with the same arguments, and what
they select below it may be merged as well. -/
inductive Mergeable : Selections → Prop where
  | intro {selections}
      (agree : ∀ one ∈ selections, ∀ other ∈ selections, one.outputName = other.outputName →
        one.pathStep = other.pathStep ∧ (one.selections = [] ↔ other.selections = []))
      (nested : ∀ one ∈ selections, ∀ other ∈ selections, one.outputName = other.outputName →
        Mergeable (one.selections ++ other.selections)) : Mergeable selections

def lastNamed? (outputName : Text) : Selections → Option FieldSelection
  | [] => none
  | selection :: rest =>
    (lastNamed? outputName rest).or
      (if selection.outputName = outputName then some selection else none)

variable {selections : Selections} {outputName : Text} {last : FieldSelection}

theorem mem_of_lastNamed? (found : lastNamed? outputName selections = some last) :
    last ∈ selections ∧ last.outputName = outputName := by
  induction selections with
  | nil => cases found
  | cons first rest ih =>
    rw [lastNamed?] at found
    rcases Option.or_eq_some_iff.mp found with later | ⟨-, here⟩
    · exact ⟨mem_cons_of_mem _ (ih later).1, (ih later).2⟩
    · split at here
      · rename_i named
        cases here
        exact ⟨mem_cons_self, named⟩
      · cases here

/-! ## What the provider has -/

/-! ## Reading a path -/

/-- What there is for a field: no response key, nothing that can be read, the value of a
scalar, or the objects of a composite field. -/
inductive Reading where
  | absent
  | unreadable
  | leaf (value : Json)
  | objects (type : Text) (isList linked : Bool) (members : List Json)

def Json.elements? (isList : Bool) (json : Json) : Option (List Json) :=
  if isList then
    match json with
    | .array items => some items
    | _ => none
  else some [json]

section

variable (data : ProviderData) (schema : TypedSchema)

def linkedMembers? (inner : Json) : Option (List Json) :=
  match inner.member? (ascii "@odata.id") with
  | some (.string collUrl) =>
    match data ⟨true, collUrl ++ expandSuffix⟩ with
    | .ok collection => collection.membersArray?
    | .error _ => none
  | _ => none

def readField (fieldSpec : FieldSpec) (source : Json) : Reading :=
  match source.member? fieldSpec.responseKey with
  | none => .absent
  | some inner =>
    if fieldSpec.scalar then .leaf inner
    else if fieldSpec.isList && fieldSpec.collectionLink then
      match linkedMembers? data inner with
      | none => .unreadable
      | some members => .objects fieldSpec.returnType true true members
    else
      match inner.elements? fieldSpec.isList with
      | none => .unreadable
      | some members => .objects fieldSpec.returnType fieldSpec.isList false members

def readObject (typeName : Text) (source : Json) (step : PathStep) : Reading :=
  match (schema.getObject typeName).bind (·.fields.lookup step.name) with
  | none => .unreadable
  | some fieldSpec => readField data fieldSpec source

def memberBody? (member : Json) : Option Json :=
  match member.member? (ascii "@odata.id") with
  | some (.string memberId) => (data ⟨true, memberId⟩).toOption
  | _ => none

def readPayload (fieldSpec : FieldSpec) (payload : Json) : Reading :=
  if fieldSpec.isList then
    match payload.membersArray? with
    | none => .unreadable
    | some members => .objects fieldSpec.returnType true true
        (if fieldSpec.expandMembers then members else members.filterMap (memberBody? data))
  else if fieldSpec.scalar then .leaf payload
  else .objects fieldSpec.returnType false false [payload]

def readRoot (vars : Members) (step : PathStep) : Reading :=
  match schema.getRootQueryField step.name with
  | none => .unreadable
  | some fieldSpec =>
    match (argumentsToJson vars step.arguments).bind
        (expandPath fieldSpec.redfishPath · fieldSpec) with
    | .error _ => .unreadable
    | .ok path =>
      match data ⟨false, if fieldSpec.expandMembers && fieldSpec.isList then path ++ expandSuffix
          else path⟩ with
      | .error _ => .unreadable
      | .ok payload => readPayload data fieldSpec payload

/-- The response has, at the end of the path, what the provider has there, for lists
member by member. A response key that is missing ends the path. -/
def Shown : List PathStep → Json → (PathStep → Reading) → Json → Prop
  | [], source, _, response => response = source
  | step :: rest, _, read, response =>
    ∃ value, response.member? step.outputName = some value ∧
      match read step with
      | .absent | .unreadable => True
      | .leaf inner => value = inner
      | .objects type isList _ members =>
        ∃ items, value.elements? isList = some items ∧ Forall₂
          (fun member item => Shown rest member (readObject data schema type member) item)
          members items

/-- Everything selected can be read. Members behind a link may fail for themselves. -/
inductive Projectable : Text → Selections → Json → Prop where
  | intro {type selections source} (known : schema.getObject type ≠ none)
      (readable : ∀ selection ∈ selections,
        readObject data schema type source selection.pathStep ≠ .unreadable)
      (inside : ∀ selection ∈ selections, ∀ inner isList members,
        readObject data schema type source selection.pathStep =
          .objects inner isList false members →
        ∀ member ∈ members, Projectable inner selection.selections member) :
      Projectable type selections source

/-- At every object the path comes to, it goes through the last selection with its
output name, and no member of a list on the path is left out. -/
def Retained : List PathStep → (PathStep → Reading) → Selections → Prop
  | [], _, selections => selections = []
  | step :: rest, read, selections =>
    ∃ last, lastNamed? step.outputName selections = some last ∧ last.pathStep = step ∧
      ∀ type isList linked members, read step = .objects type isList linked members →
        ∀ member ∈ members, Projectable data schema type last.selections member ∧
          Retained rest (readObject data schema type member) last.selections

def RootShown (vars : Members) (path : List PathStep) (response : Json) : Prop :=
  Shown data schema path (.object []) (readRoot data schema vars) response

def RootRetained (vars : Members) (path : List PathStep)
    (selections : Selections) : Prop :=
  Retained data schema path (readRoot data schema vars) selections

end

/-! ## What the projection of a field gives -/

/-! ## Projection -/

/-- What becomes of a reading when `project` gives the outcomes for its objects. -/
inductive Outcome (project : Text → Json → Except Exception (Except ExecutionError Json)) :
    Reading → Except ExecutionError Json → Prop where
  | absent : Outcome project .absent (.ok .null)
  | unreadable {failure} : Outcome project .unreadable (.error failure)
  | leaf {value} : Outcome project (.leaf value) (.ok value)
  | kept {type members outcomes}
      (each : Forall₂ (fun member outcome => project type member = .ok outcome) members outcomes) :
      Outcome project (.objects type true true members)
        (.ok (.array (outcomes.filterMap Except.toOption)))
  | all {type isList members items value}
      (each : Forall₂ (fun member item => project type member = .ok (.ok item)) members items)
      (holds : value.elements? isList = some items) :
      Outcome project (.objects type isList false members) (.ok value)
  | refused {type isList members member failure} (inside : member ∈ members)
      (failed : project type member = .ok (.error failure)) :
      Outcome project (.objects type isList false members) (.error failure)

theorem forall_ok_of_length {outcomes : List (Except ExecutionError Json)}
    (same : (outcomes.filterMap Except.toOption).length = outcomes.length) :
    ∀ outcome ∈ outcomes, ∃ item, outcome = .ok item := by
  induction outcomes with
  | nil => exact nofun
  | cons first rest ih =>
    cases first with
    | error =>
      have fewer := length_filterMap_le Except.toOption rest
      have longer : (rest.filterMap Except.toOption).length = rest.length + 1 := same
      omega
    | ok item => exact forall_mem_cons.mpr ⟨⟨item, rfl⟩, ih (Nat.succ.inj same)⟩

theorem forall₂_filterMap_toOption {Member : Type}
    {gives : Member → Except ExecutionError Json → Prop} {members : List Member}
    {outcomes : List (Except ExecutionError Json)} (each : Forall₂ gives members outcomes)
    (full : ∀ outcome ∈ outcomes, ∃ item, outcome = .ok item) :
    Forall₂ (fun member item => gives member (.ok item)) members
      (outcomes.filterMap Except.toOption) := by
  induction each with
  | nil => exact .nil
  | cons first _ ih =>
    obtain ⟨⟨item, rfl⟩, others⟩ := forall_mem_cons.mp full
    exact .cons first (ih others)

variable {project : Text → Json → Except Exception (Except ExecutionError Json)}
  {type : Text} {isList linked : Bool} {members : List Json} {value : Json}

theorem Outcome.exists_items
    (outcome : Outcome project (.objects type isList linked members) (.ok value)) :
    ∃ items, value.elements? isList = some items ∧ (items.length = members.length ∨
        (∀ member ∈ members, ∀ outcome, project type member = .ok outcome →
          ∃ item, outcome = .ok item) →
        Forall₂ (fun member item => project type member = .ok (.ok item)) members items) := by
  cases outcome with
  | all each holds => exact ⟨_, holds, fun _ => each⟩
  | @kept _ _ _ each =>
    refine ⟨_, rfl, fun complete => forall₂_filterMap_toOption each ?_⟩
    rcases complete with same | succeed
    · exact forall_ok_of_length (same.trans each.length_eq)
    · intro outcome inside
      obtain ⟨index, bound, rfl⟩ := mem_iff_getElem.mp inside
      have before : index < members.length := each.length_eq ▸ bound
      exact succeed _ (getElem_mem before) _ (each.get before bound)

abbrev projection (data : ProviderData) (schema : TypedSchema)
    (selections : Selections) (type : Text) (member : Json) :
    Except Exception (Except ExecutionError Json) :=
  evaluate data (projectObject schema member type selections)

def Readable (data : ProviderData) (schema : TypedSchema)
    (selections : Selections) (reading : Reading) : Prop :=
  reading ≠ .unreadable ∧ ∀ type isList members, reading = .objects type isList false members →
    ∀ member ∈ members, Projectable data schema type selections member

theorem exists_of_forall₂ {First Second : Type} {one other : First → Second → Prop}
    {left : List First} {right : List Second} (first : Forall₂ one left right)
    (second : Forall₂ other left right) : ∀ a ∈ left, ∃ b, one a b ∧ other a b := by
  induction first with
  | nil => exact nofun
  | cons head _ ih =>
    cases second with
    | cons otherHead rest => exact forall_mem_cons.mpr ⟨⟨_, head, otherHead⟩, ih rest⟩

/-- The members a loop over selections ends with, where each selection gives a value
that is written under its output name. -/
inductive Assigns (gives : FieldSelection → Json → Prop) :
    Selections → Members → Members → Prop where
  | nil {result} : Assigns gives [] result result
  | cons {selection rest value result final} (given : gives selection value)
      (later : Assigns gives rest (OrderedMap.assign result selection.outputName value) final) :
      Assigns gives (selection :: rest) result final

theorem Assigns.lookup {gives : FieldSelection → Json → Prop} {result final : Members}
    (assigns : Assigns gives selections result final) (ordered : OrderedMap.Ordered result)
    (outputName : Text) :
    match lastNamed? outputName selections with
    | none => final.lookup outputName = result.lookup outputName
    | some last => ∃ value, gives last value ∧ final.lookup outputName = some value := by
  induction assigns with
  | nil => rfl
  | @cons selection rest value _ _ given _ ih =>
    have after := ih (ordered.assign _ _)
    rw [lastNamed?]
    cases found : lastNamed? outputName rest with
    | some =>
      rw [found] at after
      exact after
    | none =>
      rw [found] at after
      dsimp only at after
      rw [ordered.lookup_assign] at after
      by_cases named : selection.outputName = outputName
      · rw [if_pos named]
        rw [if_pos named.symm] at after
        exact ⟨value, given, after⟩
      · rw [if_neg named]
        rw [if_neg (Ne.symm named)] at after
        exact after

section

variable {data : ProviderData} {schema : TypedSchema}
  {typeName : Text} {source response : Json} {selection : FieldSelection} {fieldSpec : FieldSpec}
  {outcome : Except ExecutionError Json}

theorem outcome_of_collectOk {type : Text} {items : List Json}
    (collected : evaluate data (Interaction.collectOk
      (fun member => projectObject schema member type selections) members) = .ok items) :
    Outcome (projection data schema selections) (.objects type true true members)
      (.ok (.array items)) := by
  rw [evaluate_collectOk] at collected
  obtain ⟨_, mapped, rfl⟩ := map_eq_ok.mp collected
  exact .kept (forall₂_of_mapM mapped)

private theorem outcome_of_collectAll {type : Text} {collected : Except ExecutionError (List Json)}
    (looped : evaluate data (Interaction.collectAll
      (fun member => projectObject schema member type selections) members) = .ok collected) :
    Outcome (projection data schema selections) (.objects type true false members)
      (collected.map .array) := by
  cases collected with
  | error =>
    obtain ⟨_, inside, failed⟩ := Interaction.exists_of_collectAll looped
    exact .refused inside failed
  | ok => exact .all (Interaction.forall₂_of_collectAll looped) rfl

private theorem outcome_of_linked {inner : Json} (composite : ¬fieldSpec.scalar)
    (found : source.member? fieldSpec.responseKey = some inner)
    (linked : fieldSpec.isList && fieldSpec.collectionLink)
    (evaluated : evaluate data (projectField schema selection fieldSpec source) = .ok outcome) :
    Outcome (projection data schema selection.selections) (readField data fieldSpec source)
      outcome := by
  obtain ⟨isList, link⟩ := Bool.and_eq_true_iff.mp linked
  rw [projectField_eq, projectValue, found] at evaluated
  rw [readField, found]
  dsimp only at evaluated ⊢
  rw [if_neg composite, if_pos isList, if_pos link] at evaluated
  rw [if_neg composite, if_pos linked, linkedMembers?]
  cases present : inner.member? (ascii "@odata.id") with
  | none =>
    rw [present] at evaluated
    cases evaluated
    exact .unreadable
  | some =>
    rw [present] at evaluated
    obtain ⟨collUrl, text, continued⟩ := evaluate_bind_eq_ok.mp evaluated
    rw [evaluate_lift] at text
    obtain ⟨_, rfl⟩ := exists_getString_iff.mp ⟨collUrl, text⟩
    cases text
    rw [evaluate] at continued
    dsimp only
    cases answer : data ⟨true, collUrl ++ expandSuffix⟩ with
    | error =>
      rw [answer] at continued
      cases continued
      exact .unreadable
    | ok collection =>
      rw [answer] at continued
      dsimp only at continued ⊢
      cases listed : collection.membersArray? with
      | none =>
        rw [listed] at continued
        cases continued
        exact .unreadable
      | some =>
        rw [listed] at continued
        obtain ⟨items, collected, ⟨⟩⟩ := evaluate_bind_eq_ok.mp continued
        exact outcome_of_collectOk collected

theorem outcome_of_projectField
    (evaluated : evaluate data (projectField schema selection fieldSpec source) = .ok outcome) :
    Outcome (projection data schema selection.selections) (readField data fieldSpec source)
      outcome := by
  cases found : source.member? fieldSpec.responseKey with
  | none =>
    rw [projectField_eq, projectValue, found] at evaluated
    cases evaluated
    rw [readField, found]
    exact .absent
  | some inner =>
    by_cases linked : ¬fieldSpec.scalar ∧ (fieldSpec.isList && fieldSpec.collectionLink)
    · exact outcome_of_linked linked.1 found linked.2 evaluated
    rw [projectField_eq, projectValue, found] at evaluated
    rw [readField, found]
    dsimp only at evaluated ⊢
    split at evaluated
    · rename_i scalar
      cases evaluated
      rw [if_pos scalar]
      exact .leaf
    rename_i composite
    have unlinked := fun link => linked ⟨composite, link⟩
    rw [if_neg composite, if_neg unlinked]
    cases isList : fieldSpec.isList with
    | false =>
      rw [isList, if_neg Bool.false_ne_true] at evaluated
      cases outcome with
      | error => exact .refused (mem_singleton.mpr rfl) evaluated
      | ok => exact .all (.cons evaluated .nil) rfl
    | true =>
      rw [isList, Bool.true_and] at unlinked
      rw [isList, if_pos rfl, if_neg unlinked] at evaluated
      cases inner with
      | array =>
        obtain ⟨_, looped, ⟨⟩⟩ := evaluate_bind_eq_ok.mp evaluated
        exact outcome_of_collectAll looped
      | _ =>
        cases evaluated
        exact .unreadable

theorem projectable_cons {rest : Selections} :
    Projectable data schema typeName (selection :: rest) source ↔
      Readable data schema selection.selections
          (readObject data schema typeName source selection.pathStep) ∧
        Projectable data schema typeName rest source := by
  constructor
  · rintro ⟨known, readable, inside⟩
    obtain ⟨readableFirst, readableRest⟩ := forall_mem_cons.mp readable
    obtain ⟨insideFirst, insideRest⟩ := forall_mem_cons.mp inside
    exact ⟨⟨readableFirst, insideFirst⟩, .intro known readableRest insideRest⟩
  · rintro ⟨first, known, readable, inside⟩
    exact .intro known (forall_mem_cons.mpr ⟨first.1, readable⟩)
      (forall_mem_cons.mpr ⟨first.2, inside⟩)

theorem Outcome.ok_iff {reading : Reading} (becomes : Outcome project reading outcome)
    (each : ∀ type member outcome, project type member = .ok outcome →
      ((∃ item, outcome = .ok item) ↔ Projectable data schema type selections member)) :
    (∃ value, outcome = .ok value) ↔ Readable data schema selections reading := by
  cases becomes with
  | absent | leaf | kept => exact iff_of_true ⟨_, rfl⟩ ⟨nofun, nofun⟩
  | unreadable => exact iff_of_false nofun fun readable => readable.1 rfl
  | all projected =>
    refine iff_of_true ⟨_, rfl⟩ ⟨nofun, ?_⟩
    rintro _ _ _ ⟨⟩ member inside
    obtain ⟨item, -, succeeded⟩ := exists_of_forall₂ projected projected member inside
    exact (each _ _ _ succeeded).mp ⟨item, rfl⟩
  | refused inside failed =>
    refine iff_of_false nofun fun readable => ?_
    obtain ⟨item, same⟩ := (each _ _ _ failed).mpr (readable.2 _ _ _ rfl _ inside)
    cases same

theorem projectObject_ok_iff
    (loop : ∀ object outcome, schema.getObject typeName = some object →
      evaluate data (projectEach schema object typeName selections [] source) = .ok outcome →
      ((∃ members, outcome = .ok members) ↔
        Projectable data schema typeName selections source))
    (evaluated : projection data schema selections typeName source = .ok outcome) :
    (∃ response, outcome = .ok response) ↔
      Projectable data schema typeName selections source := by
  rw [projection, projectObject, projectWith] at evaluated
  split at evaluated
  · rename_i unknown
    cases evaluated
    refine iff_of_false (by simp) ?_
    rintro ⟨known, -, -⟩
    exact known unknown
  · rename_i object known
    split at evaluated
    · rename_i isEmpty
      cases evaluated
      obtain rfl := isEmpty_iff.mp isEmpty
      exact iff_of_true ⟨source, rfl⟩ ((loop object (.ok []) known rfl).mp ⟨[], rfl⟩)
    · obtain ⟨members, looped, returned⟩ := evaluate_bind_eq_ok.mp evaluated
      cases returned
      rw [← loop object members known looped]
      cases members with
      | error => exact iff_of_false (by simp [Except.map]) (by simp)
      | ok => exact iff_of_true ⟨_, rfl⟩ ⟨_, rfl⟩

private theorem projectEach_ok_iff {object : ObjectSpec} {result : Members}
    {outcome : Except ExecutionError Members} (known : schema.getObject typeName = some object)
    (evaluated : evaluate data (projectEach schema object typeName selections result source) =
      .ok outcome) :
    (∃ members, outcome = .ok members) ↔
      Projectable data schema typeName selections source := by
  induction selections using selections_induction generalizing
    object typeName result source outcome with
  | nil =>
    cases evaluated
    refine iff_of_true ⟨_, rfl⟩ (.intro ?_ (by simp) (by simp))
    rw [known]
    exact Option.some_ne_none object
  | cons field rest fieldIH restIH =>
    rw [projectable_cons, readObject, known, Option.bind_some]
    rw [projectEach] at evaluated
    cases found : object.fields.lookup field.name with
    | none =>
      rw [found] at evaluated
      cases evaluated
      rw [show object.fields.lookup field.pathStep.name = none from found]
      exact iff_of_false (by simp) fun readable => readable.1.1 rfl
    | some fieldSpec =>
      rw [found] at evaluated
      rw [show object.fields.lookup field.pathStep.name = some fieldSpec from found]
      obtain ⟨first, projected, continued⟩ := evaluate_bind_eq_ok.mp evaluated
      have firstOk := (outcome_of_projectField projected).ok_iff fun type member outcome =>
        projectObject_ok_iff fun object outcome => fieldIH
      cases first with
      | error =>
        cases continued
        exact iff_of_false (by simp) fun readable => by simpa using firstOk.mpr readable.1
      | ok value => rw [restIH known continued, ← firstOk, and_iff_right ⟨value, rfl⟩]

theorem projectable_iff
    (evaluated : projection data schema selections typeName source = .ok outcome) :
    (∃ response, outcome = .ok response) ↔
      Projectable data schema typeName selections source :=
  projectObject_ok_iff (fun _ _ => projectEach_ok_iff) evaluated

/-! ## What the response has -/

variable (data schema)

/-- The response has the last selection for every output name, and all of the source
if nothing is selected. -/
structure Projected (read : PathStep → Reading) (source : Json)
    (selections : Selections) (response : Json) : Prop where
  whole : selections = [] → response = source
  written : ∀ outputName last, lastNamed? outputName selections = some last →
    ∃ value, response.member? outputName = some value ∧
      Outcome (projection data schema last.selections) (read last.pathStep) (.ok value)
  unwritten : ∀ outputName, selections ≠ [] → lastNamed? outputName selections = none →
    response.member? outputName = none

variable {data schema} {read : PathStep → Reading} {vars : Members}
  {path : List PathStep} {operation : Operation}

theorem Assigns.projected {final : Members}
    (assigns : Assigns (fun selection value => Outcome (projection data schema
      selection.selections) (read selection.pathStep) (.ok value)) selections [] final)
    (whole : selections = [] → .object final = source) :
    Projected data schema read source selections (.object final) where
  whole := whole
  written outputName last found := by
    have holds := assigns.lookup .nil outputName
    rw [found] at holds
    obtain ⟨value, outcome, written⟩ := holds
    exact ⟨value, written, outcome⟩
  unwritten outputName _ found := by
    have holds := assigns.lookup .nil outputName
    rwa [found] at holds

private theorem assigns_of_projectEach {object : ObjectSpec} {result final : Members}
    (known : schema.getObject typeName = some object)
    (evaluated : evaluate data (projectEach schema object typeName selections result source) =
      .ok (.ok final)) :
    Assigns (fun selection value => Outcome (projection data schema selection.selections)
      (readObject data schema typeName source selection.pathStep) (.ok value))
      selections result final := by
  induction selections generalizing result with
  | nil =>
    rw [projectEach] at evaluated
    cases evaluated
    exact .nil
  | cons selection rest ih =>
    rw [projectEach] at evaluated
    split at evaluated
    · cases evaluated
    · rename_i fieldSpec found
      obtain ⟨outcome, first, continued⟩ := evaluate_bind_eq_ok.mp evaluated
      cases outcome with
      | error => cases continued
      | ok =>
        refine .cons ?_ (ih continued)
        rw [readObject, known, Option.bind_some,
          show object.fields.lookup selection.pathStep.name = some fieldSpec from found]
        exact outcome_of_projectField first

theorem projected_of_projectObject
    (evaluated : projection data schema selections typeName source = .ok (.ok response)) :
    Projected data schema (readObject data schema typeName source) source selections response := by
  rw [projection, projectObject, projectWith] at evaluated
  split at evaluated
  · cases evaluated
  · rename_i object known
    split at evaluated
    · rename_i isEmpty
      cases evaluated
      obtain rfl := isEmpty_iff.mp isEmpty
      exact ⟨fun _ => rfl, by simp [lastNamed?], fun _ several => absurd rfl several⟩
    · rename_i several
      obtain ⟨outcome, looped, returned⟩ := evaluate_bind_eq_ok.mp evaluated
      cases outcome with
      | error => cases returned
      | ok =>
        cases returned
        exact (assigns_of_projectEach known looped).projected fun none =>
          absurd (isEmpty_iff.mpr none) several

/-- The fetches of the members give the projections of those bodies that are there. -/
theorem exists_outcomes_of_fetches {type : Text} {ids : List Text} {fetched : List (Option Json)}
    (linked : memberIds members = .ok ids) (mapped : ids.mapM (fun memberId => evaluate data
      (fetchAndProject schema memberId type selections)) = .ok fetched) :
    ∃ outcomes, Forall₂ (fun body outcome => projection data schema selections type body =
        .ok outcome) (members.filterMap (memberBody? data)) outcomes ∧
      fetched.filterMap id = outcomes.filterMap Except.toOption := by
  induction members generalizing ids fetched with
  | nil =>
    cases linked
    cases mapped
    exact ⟨[], .nil, rfl⟩
  | cons member rest ih =>
    rw [memberIds] at linked
    rw [filterMap_cons, memberBody?]
    cases present : member.member? (ascii "@odata.id") with
    | none =>
      rw [present] at linked
      exact ih linked mapped
    | some =>
      rw [present] at linked
      obtain ⟨memberId, text, continued⟩ := bind_eq_ok.mp linked
      obtain ⟨_, later, returned⟩ := bind_eq_ok.mp continued
      cases returned
      obtain ⟨same, rfl⟩ := exists_getString_iff.mp ⟨memberId, text⟩
      cases text
      rw [mapM_cons] at mapped
      obtain ⟨first, fetchedFirst, mappedRest⟩ := bind_eq_ok.mp mapped
      obtain ⟨more, fetchedRest, returned⟩ := bind_eq_ok.mp mappedRest
      cases returned
      obtain ⟨outcomes, each, equal⟩ := ih later fetchedRest
      dsimp only
      cases answer : data ⟨true, memberId⟩ with
      | error =>
        rw [fetchAndProject, evaluate, answer] at fetchedFirst
        cases fetchedFirst
        exact ⟨outcomes, each, equal⟩
      | ok =>
        rw [evaluate_fetchAndProject answer] at fetchedFirst
        obtain ⟨outcome, projected, kept⟩ := map_eq_ok.mp fetchedFirst
        refine ⟨outcome :: outcomes, .cons projected each, ?_⟩
        rw [← kept, filterMap_cons, filterMap_cons, equal]
        rfl

private theorem outcome_of_resolvePayload {payload : Json}
    (evaluated : evaluate data (resolvePayload schema selection fieldSpec payload) =
      .ok (.ok value)) :
    Outcome (projection data schema selection.selections) (readPayload data fieldSpec payload)
      (.ok value) := by
  rw [resolvePayload] at evaluated
  rw [readPayload]
  split at evaluated
  · rename_i isList
    rw [if_pos isList]
    rw [resolveMembersOf] at evaluated
    cases listed : payload.membersArray? with
    | none =>
      rw [listed] at evaluated
      cases evaluated
    | some members =>
      rw [listed] at evaluated
      dsimp only at evaluated ⊢
      split at evaluated
      · rename_i expands
        obtain ⟨items, collected, ⟨⟩⟩ := evaluate_bind_eq_ok.mp evaluated
        rw [if_pos expands]
        exact outcome_of_collectOk collected
      · rename_i fetches
        obtain ⟨ids, linked, continued⟩ := evaluate_bind_eq_ok.mp evaluated
        obtain ⟨items, fetched, ⟨⟩⟩ := evaluate_bind_eq_ok.mp continued
        rw [evaluate_lift] at linked
        rw [evaluate_fetchBatches, flatten_toChunks] at fetched
        obtain ⟨fetched, mapped, rfl⟩ := map_eq_ok.mp fetched
        obtain ⟨_, each, same⟩ := exists_outcomes_of_fetches linked mapped
        rw [if_neg fetches, same]
        exact .kept each
  · rename_i single
    rw [if_neg single]
    split at evaluated
    · rename_i scalar
      cases evaluated
      rw [if_pos scalar]
      exact .leaf
    · rename_i composite
      rw [if_neg composite]
      exact .all (.cons evaluated .nil) rfl

theorem outcome_of_resolveByPath (known : schema.getRootQueryField selection.name = some fieldSpec)
    (evaluated : evaluate data (resolveByPath schema selection fieldSpec vars false) =
      .ok (.ok value)) :
    Outcome (projection data schema selection.selections)
      (readRoot data schema vars selection.pathStep) (.ok value) := by
  rw [resolveByPath] at evaluated
  split at evaluated
  · cases evaluated
  · obtain ⟨args, resolved, continued⟩ := evaluate_bind_eq_ok.mp evaluated
    obtain ⟨path, expanded, asked⟩ := evaluate_bind_eq_ok.mp continued
    rw [evaluate_lift] at resolved expanded
    have resolved : argumentsToJson vars selection.pathStep.arguments = .ok args := resolved
    rw [readRoot, show schema.getRootQueryField selection.pathStep.name = _ from known]
    dsimp only
    rw [bind_eq_ok.mpr ⟨args, resolved, expanded⟩]
    dsimp only
    rw [evaluate] at asked
    split at asked
    · cases asked
    · rename_i payload answer
      simpa only [answer] using outcome_of_resolvePayload asked

private theorem assigns_of_executeRoots {result : Members}
    (evaluated : evaluate data (executeRoots schema schema.getRootQueryField .unknownQueryField
      false vars selections result) = .ok (.ok response)) :
    ∃ final, response = .object final ∧
      Assigns (fun selection value => Outcome (projection data schema selection.selections)
        (readRoot data schema vars selection.pathStep) (.ok value)) selections result final := by
  induction selections generalizing result with
  | nil =>
    cases evaluated
    exact ⟨result, rfl, .nil⟩
  | cons selection rest ih =>
    rw [executeRoots] at evaluated
    split at evaluated
    · cases evaluated
    · rename_i fieldSpec known
      obtain ⟨outcome, first, continued⟩ := evaluate_bind_eq_ok.mp evaluated
      cases outcome with
      | error => cases continued
      | ok =>
        obtain ⟨final, same, later⟩ := ih continued
        exact ⟨final, same, .cons (outcome_of_resolveByPath known first) later⟩

theorem projected_of_executeSelections
    (evaluated : evaluate data (executeSelections schema selections vars) = .ok (.ok response)) :
    Projected data schema (readRoot data schema vars) (.object []) selections response := by
  obtain ⟨final, rfl, assigns⟩ := assigns_of_executeRoots evaluated
  refine assigns.projected fun none => ?_
  subst none
  cases assigns
  rfl

theorem Projected.shown (projected : Projected data schema read source selections response)
    (retained : Retained data schema path read selections) :
    Shown data schema path source read response := by
  induction path generalizing read source selections response with
  | nil => exact projected.whole retained
  | cons _ _ ih =>
    obtain ⟨last, found, rfl, below⟩ := retained
    obtain ⟨value, written, outcome⟩ := projected.written _ last found
    refine ⟨value, written, ?_⟩
    cases reading : read last.pathStep with
    | absent | unreadable => trivial
    | leaf =>
      rw [reading] at outcome
      cases outcome
      rfl
    | objects type isList linked members =>
      rw [reading] at outcome
      have kept := below type isList linked members reading
      obtain ⟨items, elements, each⟩ := outcome.exists_items
      refine ⟨items, elements, ?_⟩
      have succeed := each (.inr fun member inside outcome made =>
        (projectable_iff made).mpr (kept member inside).1)
      refine ((forall₂_and_left _ _).mpr ⟨kept, succeed⟩).imp ?_
      rintro _ _ ⟨⟨-, retained⟩, made⟩
      exact ih (projected_of_projectObject made) retained

theorem Projected.retained {mine : Selections}
    (projected : Projected data schema read source selections response)
    (leaves : mine = [] ↔ selections = []) (mergeable : Mergeable (mine ++ selections))
    (selected : Selected path mine) (shown : Shown data schema path source read response) :
    Retained data schema path read selections := by
  induction path generalizing read source selections response mine with
  | nil => exact leaves.mp selected
  | cons _ _ ih =>
    obtain ⟨selection, member, rfl, below⟩ := selected
    obtain ⟨value, present, shown⟩ := shown
    cases found : lastNamed? selection.pathStep.outputName selections with
    | none =>
      rw [projected.unwritten _ (mt leaves.mpr (ne_nil_of_mem member)) found] at present
      cases present
    | some last =>
      obtain ⟨lastMember, named⟩ := mem_of_lastNamed? found
      have before := mem_append_left selections member
      have after := mem_append_right mine lastMember
      obtain ⟨agree, nested⟩ := mergeable
      obtain ⟨same, leaves⟩ := agree _ before _ after named.symm
      refine ⟨last, found, same.symm, fun type isList linked members reading => ?_⟩
      obtain ⟨written, writes, outcome⟩ := projected.written _ last found
      rw [present] at writes
      cases writes
      rw [← same, reading] at outcome
      rw [reading] at shown
      obtain ⟨items, elements, shownEach⟩ := shown
      obtain ⟨all, sameElements, each⟩ := outcome.exists_items
      rw [elements] at sameElements
      cases sameElements
      have made := each (.inl shownEach.length_eq.symm)
      intro member inside
      obtain ⟨item, projected, shown⟩ := exists_of_forall₂ made shownEach member inside
      exact ⟨(projectable_iff projected).mp ⟨item, rfl⟩,
        ih (projected_of_projectObject projected) leaves (nested _ before _ after named.symm)
          below shown⟩

theorem executed_of_dataResponse (executed : evaluate data (executeExpanded schema operation vars) =
      .ok (dataResponse response)) :
    evaluate data (executeSelections schema operation.selections
      (mergedVariables operation vars)) = .ok (.ok response) := by
  have differs : ∀ message, errorResponse message ≠ dataResponse response := by
    intro message same
    simp only [errorResponse, dataResponse, Json.object.injEq, List.cons.injEq,
      Prod.mk.injEq] at same
    exact absurd same.1.1 (by decide)
  rw [executeExpanded] at executed
  split at executed
  · exact absurd (Except.ok.inj executed) (differs _)
  · obtain ⟨outcome, evaluated, returned⟩ := evaluate_bind_eq_ok.mp executed
    cases outcome with
    | error => exact absurd (Except.ok.inj returned) (differs _)
    | ok value =>
      have same : value = response := by
        simpa [dataResponse] using Except.ok.inj returned
      rw [evaluated, same]

end

/-! ## Selected paths -/

theorem Mergeable.append_self (mergeable : Mergeable selections) :
    Mergeable (selections ++ selections) := by
  obtain ⟨agree, nested⟩ := mergeable
  have inside : ∀ selection ∈ selections ++ selections, selection ∈ selections :=
    fun selection member => (mem_append.mp member).elim id id
  refine .intro ?_ ?_
  · intro one first other second
    exact agree one (inside one first) other (inside other second)
  · intro one first other second
    exact nested one (inside one first) other (inside other second)

/-- A selected path is shown in the data of the response if it is retained. Where the
selections of the query may be merged, it is shown only then. -/
theorem selected_path_shown (stod : Text → Bool) (schema : TypedSchema)
    (data : ProviderData) (query : Text) (vars : Members)
    (operation expanded : Operation) (response : Json)
    (parsed : Parser.tryParse stod query = .ok operation)
    (succeeded : expandFragments operation = .ok expanded)
    (executed : evaluate data (execute stod schema query vars) =
      .ok (dataResponse response))
    (path : List PathStep) (selected : Selected path expanded.selections) :
    (RootRetained data schema (mergedVariables expanded vars) path expanded.selections →
        RootShown data schema (mergedVariables expanded vars) path response) ∧
      (Mergeable expanded.selections →
        RootShown data schema (mergedVariables expanded vars) path response →
        RootRetained data schema (mergedVariables expanded vars) path expanded.selections) := by
  rw [execute, parsed] at executed
  dsimp only at executed
  rw [succeeded] at executed
  have projected := projected_of_executeSelections (executed_of_dataResponse executed)
  exact ⟨projected.shown, fun mergeable =>
    projected.retained Iff.rfl mergeable.append_self selected⟩

def repeatedQuery : Text := ascii "\x7bs\x7ba\x7ds\x7bb\x7d\x7d"

def repeatedSelections : Selections :=
  [{ name := ascii "s", selections := [{ name := ascii "a" }] },
    { name := ascii "s", selections := [{ name := ascii "b" }] }]

def scalarField (name : Text) : FieldSpec where
  name := name
  responseKey := name
  returnType := ascii "Int"
  scalar := true

def repeatedSchema : TypedSchema where
  rootQueries :=
    [(ascii "s", { name := ascii "s", returnType := ascii "T", redfishPath := ascii "p" })]
  objects := [(ascii "T",
    ⟨[(ascii "a", scalarField (ascii "a")), (ascii "b", scalarField (ascii "b"))]⟩)]

def repeatedData (_ : ProviderRequest) : Except Text Json :=
  .ok (.object [(ascii "a", .int 1), (ascii "b", .int 2)])

def repeatedResponse : Json := .object [(ascii "s", .object [(ascii "b", .int 2)])]

def stepTo (name : String) : PathStep := ⟨ascii name, ascii name, []⟩

theorem parse_repeatedQuery :
    Parser.tryParse (fun _ => true) repeatedQuery = .ok { selections := repeatedSelections } :=
  rfl

theorem execute_repeatedQuery :
    evaluate repeatedData (execute (fun _ => true) repeatedSchema repeatedQuery []) =
      .ok (dataResponse repeatedResponse) :=
  rfl

theorem mergeable_repeatedSelections : Mergeable repeatedSelections := by
  have none : Mergeable [] := .intro nofun nofun
  have leaves (one other : Text) : Mergeable [{ name := one }, { name := other }] := by
    refine .intro ?_ ?_ <;>
      simp +contextual [FieldSelection.outputName, FieldSelection.pathStep, none]
  refine .intro ?_ ?_ <;>
    simp [repeatedSelections, FieldSelection.outputName, FieldSelection.pathStep, leaves]

theorem selected_path_shown_repeatedQuery :
    RootShown repeatedData repeatedSchema [] [stepTo "s", stepTo "b"] repeatedResponse ∧
      ¬ RootShown repeatedData repeatedSchema [] [stepTo "s", stepTo "a"] repeatedResponse := by
  have shown := selected_path_shown (fun _ => true) repeatedSchema repeatedData repeatedQuery []
    { selections := repeatedSelections } { selections := repeatedSelections } _
    parse_repeatedQuery rfl execute_repeatedQuery
  constructor
  · refine (shown [stepTo "s", stepTo "b"] ?_).1 ?_
    · exact ⟨_, mem_cons_of_mem _ mem_cons_self, rfl, _, mem_cons_self, rfl, rfl⟩
    · refine ⟨_, rfl, rfl, ?_⟩
      rintro _ _ _ _ ⟨⟩
      refine forall_mem_singleton.mpr ⟨.intro nofun ?_ ?_, _, rfl, rfl, nofun⟩
      · exact forall_mem_singleton.mpr nofun
      · exact forall_mem_singleton.mpr nofun
  · intro lost
    obtain ⟨last, found, -, below⟩ := (shown [stepTo "s", stepTo "a"]
      ⟨_, mem_cons_self, rfl, _, mem_cons_self, rfl, rfl⟩).2 mergeable_repeatedSelections lost
    cases found
    obtain ⟨-, inner, missing, -⟩ := below _ _ _ _ rfl _ mem_cons_self
    cases missing

theorem selected_path_lost :
    ∃ operation expanded response,
      Parser.tryParse (fun _ => true) repeatedQuery = .ok operation ∧
      expandFragments operation = .ok expanded ∧ Mergeable expanded.selections ∧
      evaluate repeatedData (execute (fun _ => true) repeatedSchema repeatedQuery []) =
        .ok (dataResponse response) ∧
      Selected [stepTo "s", stepTo "a"] expanded.selections ∧
      ¬ RootShown repeatedData repeatedSchema (mergedVariables expanded [])
        [stepTo "s", stepTo "a"] response := by
  refine ⟨_, _, _, parse_repeatedQuery, rfl, mergeable_repeatedSelections,
    execute_repeatedQuery, ⟨_, mem_cons_self, rfl, _, mem_cons_self, rfl, rfl⟩, ?_⟩
  rintro ⟨_, ⟨⟩, _, ⟨⟩, each⟩
  cases each with
  | cons first _ =>
    obtain ⟨_, written, -⟩ := first
    cases written

end Coroserver.GraphQL
