import Coroserver.Serializer

/-! What a merge patch writes is described member by member. A value is read back
from its path if the path has at most four keys, which `std::reduce` takes one by one,
and the value settles there: it is not null, and what it is merged into leaves nothing
of its own. Erasing looks for the path as the name of one member. -/

namespace Coroserver

open OrderedMap List

namespace Json

inductive WellFormed : Json → Prop where
  | null : WellFormed .null
  | bool (value : Bool) : WellFormed (.bool value)
  | int (value : Int) : WellFormed (.int value)
  | float (bits : UInt64) : WellFormed (.float bits)
  | string (text : String) : WellFormed (.string text)
  | array {elements} (each : ∀ element ∈ elements, WellFormed element) :
      WellFormed (.array elements)
  | object {members} (ordered : OrderedMap.Ordered members)
      (each : ∀ entry ∈ members, WellFormed entry.2) : WellFormed (.object members)

variable {json value : Json}

theorem WellFormed.members (formed : WellFormed json) :
    Ordered json.members ∧ ∀ entry ∈ json.members, WellFormed entry.2 := by
  cases formed with
  | object ordered each => exact ⟨ordered, each⟩
  | null | bool | int | float | string | array => exact ⟨.nil, fun _ member => by cases member⟩

theorem WellFormed.member? (formed : WellFormed json) {key : String}
    (found : json.member? key = some value) : WellFormed value :=
  formed.members.2 _ (formed.members.1.lookup_eq_some_iff.mp found)

theorem WellFormed.getD (formed : WellFormed json) (key : String) :
    WellFormed ((json.member? key).getD .null) := by
  cases found : json.member? key with
  | none => exact .null
  | some => exact formed.member? found

def patched (old : Option Json) : Option Json → Option Json
  | none => old
  | some .null => none
  | some value => some ((old.getD .null).mergePatch value)

theorem patched_of_ne_null (present : value ≠ .null) (old : Option Json) :
    patched old (some value) = some ((old.getD .null).mergePatch value) := by
  rw [patched]
  exact present

theorem lookup_eraseMember (members : List (String × Json)) (key other : String) :
    (eraseMember members key).lookup other =
      if other = key then none else members.lookup other := by
  induction members with
  | nil => simp [eraseMember]
  | cons entry rest ih =>
    unfold eraseMember at ih ⊢
    by_cases erased : entry.1 = key
    · rw [filter_cons_of_neg (by simp [erased]), ih, lookup_cons]
      by_cases same : other = key
      · simp [same]
      · simp [same, erased, beq_eq_false_iff_ne.mpr same]
    · rw [filter_cons_of_pos (by simp [erased]), lookup_cons, lookup_cons, ih]
      by_cases same : other = key
      · simp [same, beq_eq_false_iff_ne.mpr (Ne.symm erased)]
      · simp [same]

variable {members : List (String × Json)}

theorem ordered_eraseMember (ordered : Ordered members) (key : String) :
    Ordered (eraseMember members key) := List.Pairwise.filter _ ordered

theorem ordered_setMember (ordered : Ordered members) (key : String) (value : Json) :
    Ordered (setMember members key value) := ordered.assign key value

theorem ordered_mergeMembers (ordered : Ordered members) (patch : List (String × Json)) :
    Ordered (mergeMembers members patch) := by
  induction patch generalizing members with
  | nil => simpa [mergeMembers] using ordered
  | cons entry rest ih =>
    obtain ⟨key, value⟩ := entry
    by_cases erased : value = .null
    · rw [erased, mergeMembers]
      exact ih (ordered_eraseMember ordered key)
    · rw [mergeMembers_cons_of_ne_null erased]
      exact ih (ordered_setMember ordered key _)

theorem lookup_mergeMembers {patch : List (String × Json)} (ordered : Ordered members)
    (orderedPatch : Ordered patch) (key : String) :
    (mergeMembers members patch).lookup key = patched (members.lookup key) (patch.lookup key) := by
  induction patch generalizing members with
  | nil => simp [mergeMembers, patched]
  | cons entry rest ih =>
    obtain ⟨name, value⟩ := entry
    obtain ⟨below, others⟩ := pairwise_cons.mp orderedPatch
    have absent : rest.lookup name = none := by
      rw [lookup_eq_none_iff]
      intro later member
      exact bne_iff_ne.mpr fun same => Std.lt_irrefl (same ▸ below later member)
    by_cases erased : value = .null
    · rw [erased, mergeMembers, ih (ordered_eraseMember ordered name) others, lookup_eraseMember]
      by_cases same : key = name
      · simp [same, absent, patched]
      · simp [same, lookup_cons, beq_eq_false_iff_ne.mpr same]
    · rw [mergeMembers_cons_of_ne_null erased, ih (ordered_setMember ordered name _) others,
        setMember, ordered.lookup_assign]
      by_cases same : key = name
      · simp [same, absent, patched]
      · simp [same, lookup_cons, beq_eq_false_iff_ne.mpr same]

mutual

/-- Merging leaves nothing of a target beside a value, and no part of the value
is null. -/
def settles (target : Json) : Json → Bool
  | .null => false
  | .object members =>
    (target.members.all fun entry => (members.lookup entry.1).isSome) &&
      settlesMembers target members
  | .bool _ | .int _ | .float _ | .string _ | .array _ => true

def settlesMembers (target : Json) : List (String × Json) → Bool
  | [] => true
  | (key, value) :: rest =>
    settles ((target.member? key).getD .null) value && settlesMembers target rest

end

private theorem settlesMembers_iff (target : Json) (members : List (String × Json)) :
    settlesMembers target members = true ↔
      ∀ entry ∈ members, settles ((target.member? entry.1).getD .null) entry.2 = true := by
  induction members with
  | nil => simp [settlesMembers]
  | cons _ _ ih => simp [settlesMembers, ih]

theorem patched_eq_iff {value : Json} (formed : WellFormed value) {old : Option Json}
    (formedOld : WellFormed (old.getD .null)) :
    patched old (some value) = some value ↔ settles (old.getD .null) value = true := by
  induction formed generalizing old with
  | null => simp [patched, settles]
  | bool | int | float | string | array => simp [patched, mergePatch, settles]
  | @object members ordered each ih =>
    obtain ⟨orderedOld, _⟩ := formedOld.members
    have merged := lookup_mergeMembers orderedOld ordered
    have same : mergeMembers (old.getD .null).members members = members ↔
        ∀ key, patched ((old.getD .null).member? key) (members.lookup key) =
          members.lookup key := by
      constructor
      · intro equal key
        rw [member?, ← merged key, equal]
      · intro lookups
        refine (ordered_mergeMembers orderedOld members).ext_lookup ordered fun key => ?_
        rw [merged key, ← member?, lookups key]
    rw [patched_of_ne_null (by simp), mergePatch, Option.some.injEq, object.injEq, same, settles,
      Bool.and_eq_true, all_eq_true, settlesMembers_iff]
    constructor
    · intro lookups
      constructor
      · intro entry member
        have found : (old.getD .null).member? entry.1 = some entry.2 :=
          orderedOld.lookup_eq_some_iff.mpr member
        have equal := lookups entry.1
        rw [found] at equal
        cases written : members.lookup entry.1 with
        | some => rfl
        | none =>
          rw [written] at equal
          cases equal
      · intro entry member
        have written := ordered.lookup_eq_some_iff.mpr member
        have equal := lookups entry.1
        rw [written] at equal
        exact (ih entry member (formedOld.getD entry.1)).mp equal
    · rintro ⟨covered, settled⟩ key
      cases written : members.lookup key with
      | some =>
        have member := ordered.lookup_eq_some_iff.mp written
        exact (ih _ member (formedOld.getD key)).mpr (settled _ member)
      | none =>
        cases found : (old.getD .null).member? key with
        | none => rfl
        | some =>
          have inOld := orderedOld.lookup_eq_some_iff.mp found
          simpa [written] using covered _ inOld

def leaf (json : Json) (keys : List String) : Option Json := keys.foldlM Json.member? json

theorem leaf_cons (json : Json) (key : String) (rest : List String) :
    leaf json (key :: rest) = (json.member? key).bind (leaf · rest) := rfl

theorem leaf_singleton (json : Json) (key : String) : leaf json [key] = json.member? key := by
  rw [leaf_cons]
  exact Option.bind_fun_some _

theorem leaf_getD (old : Option Json) (key : String) (rest : List String) :
    leaf (old.getD .null) (key :: rest) = old.bind (leaf · (key :: rest)) := by
  cases old <;> rfl

theorem WellFormed.leaf_getD {json : Json} (formed : WellFormed json) (keys : List String) :
    WellFormed ((leaf json keys).getD .null) := by
  induction keys generalizing json with
  | nil => exact formed
  | cons key rest ih =>
    rw [leaf_cons]
    cases found : json.member? key with
    | none => exact .null
    | some => exact ih (formed.member? found)

theorem member?_mergePatch {json : Json} (formed : WellFormed json) (key : String) (value : Json)
    (other : String) :
    (json.mergePatch (.object [(key, value)])).member? other =
      if other = key then patched (json.member? key) (some value) else json.member? other := by
  rw [mergePatch, member?, members,
    lookup_mergeMembers formed.members.1 (pairwise_singleton _ _), lookup_cons]
  by_cases same : other = key
  · simp [same, member?]
  · simp [same, beq_eq_false_iff_ne.mpr same, patched, member?]

end Json

namespace JsonSerializer

open Json

theorem nest_cons_ne_null (key : String) (rest : List String) (value : Json) :
    nest (key :: rest) value ≠ .null := by
  simp [nest]

variable {json : Json} {path : String}

theorem leaf_mergePatch_nest (formed : WellFormed json) (key : String) (rest : List String)
    (value : Json) :
    leaf (json.mergePatch (nest (key :: rest) value)) (key :: rest) =
      patched (leaf json (key :: rest)) (some value) := by
  induction rest generalizing json key with
  | nil =>
    rw [leaf_singleton, leaf_singleton]
    exact (member?_mergePatch formed key value key).trans (if_pos rfl)
  | cons next rest ih =>
    rw [leaf_cons, nest, foldr_cons, ← nest, member?_mergePatch formed, if_pos rfl,
      patched_of_ne_null (nest_cons_ne_null next rest value), Option.bind_some,
      ih (formed.getD key), leaf_getD, leaf_cons json]

def Unrelated (first second : List String) : Prop := ¬first <+: second ∧ ¬second <+: first

variable {key : String}

theorem leaf_mergePatch_nest_of_unrelated (formed : WellFormed json) {rest others : List String}
    (unrelated : Unrelated (key :: rest) others) (value : Json) :
    leaf (json.mergePatch (nest (key :: rest) value)) others = leaf json others := by
  induction rest generalizing json key others with
  | nil =>
    cases others with
    | nil => exact absurd nil_prefix unrelated.2
    | cons other others =>
      have differs : other ≠ key := by
        rintro rfl
        exact unrelated.1 (prefix_append [other] others)
      rw [leaf_cons, leaf_cons, nest, foldr_cons, member?_mergePatch formed, if_neg differs]
  | cons next rest ih =>
    cases others with
    | nil => exact absurd nil_prefix unrelated.2
    | cons other others =>
      rw [leaf_cons, leaf_cons, nest, foldr_cons, ← nest, member?_mergePatch formed]
      by_cases same : other = key
      · subst same
        simp only [Unrelated, cons_prefix_cons, true_and] at unrelated
        cases others with
        | nil => exact absurd nil_prefix unrelated.2
        | cons =>
          rw [if_pos rfl, patched_of_ne_null (nest_cons_ne_null next rest value),
            Option.bind_some, ih (formed.getD other) unrelated, Json.leaf_getD]
      · rw [if_neg same]

variable (json : Json)

theorem leaf_erase (path : String) (key : String) (rest : List String) :
    leaf (erase json path) (key :: rest) =
      if key = path then none else leaf json (key :: rest) := by
  rw [leaf_cons, leaf_cons, erase]
  split
  · rw [member?, members, lookup_eraseMember]
    split <;> rfl
  · rename_i absent
    split
    · rename_i same
      rw [same, Option.not_isSome_iff_eq_none.mp absent]
      rfl
    · rfl

theorem keys_of_not_mem (nonempty : path ≠ "") (flat : '/' ∉ path.toList) : keys path = [path] := by
  have someCharacter : path.toList ≠ [] := by simpa using nonempty
  rw [keys, split_of_not_mem someCharacter flat, map_singleton, String.ofList_toList]

theorem not_mem_of_mem_keys (member : key ∈ keys path) : '/' ∉ key.toList := by
  obtain ⟨piece, inPath, rfl⟩ := mem_map.mp member
  rw [split] at inPath
  split at inPath
  · cases inPath
  · rw [String.toList_ofList]
    exact (not_mem_and_subset_of_mem_splitOn inPath).1

theorem exists_keys_eq_cons (nonempty : path ≠ "") : ∃ key rest, keys path = key :: rest := by
  have someCharacter : path.toList ≠ [] := by simpa using nonempty
  obtain ⟨_, found⟩ := splitOn_eq_takeWhile_cons path.toList '/'
  rw [keys, split, if_neg (by simpa using someCharacter), found]
  exact ⟨_, _, rfl⟩

theorem leaf_erase_keys (nonempty : path ≠ "") : leaf (erase json path) (keys path) = none ↔
      '/' ∉ path.toList ∨ leaf json (keys path) = none := by
  by_cases flat : '/' ∈ path.toList
  · obtain ⟨key, rest, split⟩ := exists_keys_eq_cons nonempty
    have differs : key ≠ path := by
      rintro rfl
      exact not_mem_of_mem_keys (split ▸ mem_cons_self) flat
    rw [split, leaf_erase, if_neg differs]
    simp [flat]
  · rw [keys_of_not_mem nonempty flat, leaf_erase, if_pos rfl]
    simp [flat]

theorem leaf_erase_of_unrelated {other : String} (unrelated : Unrelated (keys path) (keys other)) :
    leaf (erase json path) (keys other) = leaf json (keys other) := by
  cases split : keys other with
  | nil => exact absurd (split ▸ nil_prefix) unrelated.2
  | cons key rest =>
    have differs : key ≠ path := by
      rintro rfl
      have flat := not_mem_of_mem_keys (split ▸ mem_cons_self)
      have nonempty : key ≠ "" := by
        rintro rfl
        exact unrelated.1 <| show keys "" <+: _ from nil_prefix
      rw [split, keys_of_not_mem nonempty flat] at unrelated
      exact unrelated.1 (prefix_append [key] rest)
    rw [leaf_erase, if_neg differs]

theorem getLeafNode_eq (path : String) : getLeafNode json path = leaf json (keys path) := rfl

theorem deserialize_eq (path : String) (initial : Json) :
    deserialize json path initial = (leaf json (keys path)).getD initial := by
  rw [deserialize, getLeafNode_eq]
  cases leaf json (keys path) <;> rfl

private theorem forall_getD_eq_iff (found : Option Json) (value : Json) :
    (∀ initial, found.getD initial = value) ↔ found = some value := by
  cases found with
  | some =>
    constructor
    · intro always
      exact congrArg some (always .null)
    · rintro ⟨⟩ _
      rfl
  | none =>
    constructor
    · intro always
      have isNull : Json.null = value := always .null
      have isTrue : Json.bool true = value := always (.bool true)
      exact absurd (isNull.trans isTrue.symm) (by simp)
    · rintro ⟨⟩

/-- What is serialized reads back, and what is erased is gone, exactly under these
conditions. Unrelated paths are never touched. -/
theorem serializer_acts_as_map_iff {jsonData value : Json} (formed : WellFormed jsonData)
    (formedValue : WellFormed value) {path : String} (nonempty : path ≠ "") :
    ((∃ written, serialize jsonData path value = some written ∧
        (∀ initial, deserialize written path initial = value) ∧
        ∀ other, Unrelated (keys path) (keys other) → ∀ initial,
          deserialize written other initial = deserialize jsonData other initial) ↔
      (keys path).length ≤ 4 ∧ settles ((getLeafNode jsonData path).getD .null) value = true) ∧
    ((getLeafNode (erase jsonData path) path = none ∧
        ∀ other, Unrelated (keys path) (keys other) → ∀ initial,
          deserialize (erase jsonData path) other initial =
            deserialize jsonData other initial) ↔
      ('/' ∉ path.toList ∨ getLeafNode jsonData path = none)) := by
  obtain ⟨key, rest, split⟩ := exists_keys_eq_cons nonempty
  constructor
  · rw [serialize, makeJson_eq (split ▸ cons_ne_nil key rest)]
    by_cases few : (keys path).length ≤ 4
    · have kept := fun other (unrelated : Unrelated (key :: rest) (keys other)) (initial : Json) =>
        congrArg (·.getD initial) (leaf_mergePatch_nest_of_unrelated formed unrelated value)
      rw [if_pos few, and_iff_right few]
      simp only [Option.map_some, Option.some.injEq, exists_eq_left', deserialize_eq,
        getLeafNode_eq, split]
      rw [leaf_mergePatch_nest formed, forall_getD_eq_iff,
        patched_eq_iff formedValue (formed.leaf_getD (key :: rest))]
      exact and_iff_left kept
    · simp [few]
  · simp only [deserialize_eq, getLeafNode_eq, split]
    have kept := fun other (unrelated : Unrelated (key :: rest) (keys other)) (initial : Json) =>
      congrArg (·.getD initial) (leaf_erase_of_unrelated jsonData (split ▸ unrelated))
    rw [← split, leaf_erase_keys jsonData nonempty, split]
    exact and_iff_left kept

theorem serializer_acts_as_map_settled :
    (∃ written, serialize
        (.object [("fan", .object [("speed", .int 3)]), ("host", .string "a")]) "fan"
        (.object [("mode", .string "auto"), ("speed", .int 7)]) = some written ∧
      ∀ initial, deserialize written "fan" initial =
        .object [("mode", .string "auto"), ("speed", .int 7)]) ∧ getLeafNode (erase
      (.object [("fan", .object [("speed", .int 3)]), ("host", .string "a")]) "fan") "fan" =
        none := by
  have formed : WellFormed
      (.object [("fan", .object [("speed", .int 3)]), ("host", .string "a")]) := by
    refine .object (by unfold Ordered; decide) ?_
    simp only [forall_mem_cons]
    exact ⟨.object (pairwise_singleton _ _) (by simpa using .int 3), .string "a", by simp⟩
  have formedValue : WellFormed (.object [("mode", .string "auto"), ("speed", .int 7)]) := by
    refine .object (by unfold Ordered; decide) ?_
    simp only [forall_mem_cons]
    exact ⟨.string "auto", .int 7, by simp⟩
  obtain ⟨written, erased⟩ := serializer_acts_as_map_iff formed formedValue (by decide : "fan" ≠ "")
  obtain ⟨final, serialized, read, -⟩ := written.mpr ⟨by decide, rfl⟩
  exact ⟨⟨final, serialized, read⟩, (erased.mpr (.inl (by decide))).1⟩

/-- A null is not stored, an object keeps the members of the one before it, a path of
five names is not serialized at all, and a path of two names is not erased. -/
theorem serializer_differs_from_map :
    (serialize (.object []) "fan" .null).bind (getLeafNode · "fan") = none ∧
    (serialize (.object [("fan", .object [("speed", .int 3)])]) "fan"
        (.object [("mode", .string "auto")])).bind (getLeafNode · "fan") =
      some (.object [("mode", .string "auto"), ("speed", .int 3)]) ∧
    serialize (.object []) "a/b/c/d/e" (.int 1) = none ∧
    getLeafNode (erase (.object [("fan", .object [("speed", .int 3)])]) "fan/speed") "fan/speed" =
      some (.int 3) := by
  refine ⟨rfl, rfl, rfl, rfl⟩

end JsonSerializer

end Coroserver
