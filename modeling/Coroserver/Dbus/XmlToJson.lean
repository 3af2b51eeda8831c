import Coroserver.GraphQL.Ast
import Coroserver.Http.Target
import Coroserver.OrderedMap

/-! `xmlToJson` of `dbus_types.hpp`, for the property trees that `read_xml` makes
without any flags, where text is not a node. -/

namespace Coroserver.Dbus.Xml

open GraphQL (Json Members Text)
open List

inductive Ptree where
  | node (data : Text) (children : List (Text × Ptree))

def Ptree.data : Ptree → Text
  | .node data _ => data

def Ptree.children : Ptree → List (Text × Ptree)
  | .node _ children => children

def ofAssignments (assignments : Members) : Json :=
  if assignments.isEmpty then .null else .object (OrderedMap.assignAll [] assignments)

def Ptree.isArray (pt : Ptree) : Bool :=
  decide (1 < pt.children.length) &&
    pt.children.head?.map Prod.fst == pt.children.getLast?.map Prod.fst

theorem sizeOf_snd_lt {Value : Type} [SizeOf Value] {entry : Text × Value}
    {entries : List (Text × Value)} (member : entry ∈ entries) :
    sizeOf entry.2 < sizeOf entries := by
  have smaller := sizeOf_lt_of_mem member
  obtain ⟨_, _⟩ := entry
  rw [Prod.mk.sizeOf_spec] at smaller
  dsimp only
  omega

theorem Ptree.sizeOf_lt {data : Text} {children : List (Text × Ptree)} {child : Text × Ptree}
    (member : child ∈ children) : sizeOf child.2 < sizeOf (Ptree.node data children) := by
  have smaller := sizeOf_snd_lt member
  rw [Ptree.node.sizeOf_spec]
  omega

def assigned (node : Text × Ptree) (json : Json) : Members :=
  if node.1 = ascii "<xmlattr>" then
    node.2.children.map fun attr => (ascii "@" ++ attr.1, .string attr.2.data)
  else if node.1 = ascii "<xmlcomment>" then [(ascii "#comment", .string node.2.data)]
  else [(node.1, json)]

mutual

def treetoJson : Ptree → Json
  | .node _ children => ofAssignments (children.flatMap fun node =>
    assigned node (if node.2.isArray then jsonArray node.2 else treetoJson node.2))
termination_by pt => sizeOf pt
decreasing_by all_goals exact Ptree.sizeOf_lt ‹_›

def jsonArray : Ptree → Json
  | .node _ children => .array (children.map fun arrayNode => treetoJson arrayNode.2)
termination_by pt => sizeOf pt
decreasing_by exact Ptree.sizeOf_lt ‹_›

end

/-- What an attribute, by its name and value, and an element count for. -/
structure Weights where
  attr : Text → Text → Nat
  element : Nat

namespace Weights

def elements : Weights := ⟨fun _ _ => 0, 1⟩

def occurrences (pair : Text × Text) : Weights :=
  ⟨fun name value => ((name, value) == pair).toNat, 0⟩

/-- What a document contains. A comment among the elements of an array becomes an item
and counts as an element there. -/
def contained (weights : Weights) (isArray : Bool) : Ptree → Nat
  | .node _ children => (children.map fun node =>
    if node.1 = ascii "<xmlattr>" then
      (node.2.children.map fun attr => weights.attr attr.1 attr.2.data).sum
    else if node.1 = ascii "<xmlcomment>" then if isArray then weights.element else 0
    else weights.element + weights.contained (!isArray && node.2.isArray) node.2).sum
termination_by pt => sizeOf pt
decreasing_by exact Ptree.sizeOf_lt ‹_›

def member (weights : Weights) (key : Text) (value : Json) : Nat :=
  if key.head? = some 64 then
    match value with
    | .string text => weights.attr key.tail text
    | _ => 0
  else if key = ascii "#comment" then 0
  else weights.element

def shown (weights : Weights) : Json → Nat
  | .array items => (items.map fun item => weights.element + weights.shown item).sum
  | .object members => (members.map fun entry =>
      weights.member entry.1 entry.2 + weights.shown entry.2).sum
  | _ => 0
termination_by json => sizeOf json
decreasing_by
  · have smaller := sizeOf_lt_of_mem ‹_ ∈ items›
    simp only [Json.array.sizeOf_spec]
    omega
  · have smaller := sizeOf_snd_lt ‹_ ∈ members›
    simp only [Json.object.sizeOf_spec]
    omega

end Weights

def IsTag (key : Text) : Prop :=
  key ≠ ascii "<xmlattr>" ∧ key ≠ ascii "<xmlcomment>" ∧ key ≠ ascii "#comment" ∧
    key.head? ≠ some 64
deriving Decidable

def Written (node : Text × Ptree) : Prop :=
  node.1 = ascii "<xmlattr>" ∧ (node.2.children.map Prod.fst).Nodup ∨
  node.1 = ascii "<xmlcomment>" ∧ node.2.children = [] ∨ IsTag node.1

abbrev AttributesFirst (children : List (Text × Ptree)) : Prop :=
  children.Pairwise fun _ later => later.1 ≠ ascii "<xmlattr>"

/-- The trees that `read_xml` makes. -/
inductive Document : Ptree → Prop where
  | node {data children} (attributes : AttributesFirst children)
      (written : ∀ node ∈ children, Written node)
      (nested : ∀ node ∈ children, IsTag node.1 → Document node.2) :
      Document (.node data children)

def Ptree.parts (pt : Ptree) : List Ptree :=
  if pt.isArray then pt.children.map Prod.snd else [pt]

abbrev DistinctTags (children : List (Text × Ptree)) : Prop :=
  children.Pairwise fun earlier later => IsTag earlier.1 → earlier.1 ≠ later.1

/-- No two elements that become members of one object have the same tag. -/
inductive Separate : Ptree → Prop where
  | node {data children} (distinct : DistinctTags children)
      (nested : ∀ node ∈ children, IsTag node.1 → ∀ part ∈ node.2.parts, Separate part) :
      Separate (.node data children)

variable {data : Text} {children : List (Text × Ptree)} {node : Text × Ptree} {weights : Weights}

theorem separate_iff : Separate (.node data children) ↔ DistinctTags children ∧
    ∀ node ∈ children, IsTag node.1 → ∀ part ∈ node.2.parts, Separate part :=
  ⟨fun ⟨distinct, nested⟩ => ⟨distinct, nested⟩, fun both => .node both.1 both.2⟩

theorem not_attributes_of_isArray (attributes : AttributesFirst children)
    (isArray : (Ptree.node data children).isArray = true) :
    ∀ node ∈ children, node.1 ≠ ascii "<xmlattr>" := by
  obtain ⟨_, same⟩ := Bool.and_eq_true_iff.mp isArray
  match children with
  | first :: second :: rest =>
    obtain ⟨others, -⟩ := pairwise_cons.mp attributes
    refine forall_mem_cons.mpr ⟨?_, others⟩
    have last := others _ (getLast_mem (cons_ne_nil second rest))
    simp only [Ptree.children, head?_cons, getLast?_cons_cons, Option.map_some, beq_iff_eq,
      getLast?_eq_some_getLast (cons_ne_nil second rest), Option.some.injEq] at same
    rwa [same]

theorem assigned_tag (tag : IsTag node.1) (json : Json) :
    assigned node json = [(node.1, json)] := by
  rw [assigned, if_neg tag.1, if_neg tag.2.1]

namespace Weights

variable {shown contained : Nat} {kept : Prop}

def Agree (weights : Weights) (shown contained : Nat) (kept : Prop) : Prop :=
  shown ≤ contained ∧ (kept → shown = contained) ∧
    (shown = contained → 0 < weights.element → kept)

theorem Agree.trans {assigned : Nat} {nested : Prop}
    (first : weights.Agree shown assigned kept) (second : weights.Agree assigned contained nested) :
    weights.Agree shown contained (kept ∧ nested) := by
  obtain ⟨_, same, conversely⟩ := first
  obtain ⟨_, same', conversely'⟩ := second
  refine ⟨by omega, fun both => (same both.1).trans (same' both.2), fun equal positive => ?_⟩
  exact ⟨conversely (by omega) positive, conversely' (by omega) positive⟩

theorem Agree.add (agree : weights.Agree shown contained kept)
    (added : Nat) : weights.Agree (added + shown) (added + contained) kept := by
  obtain ⟨_, same, conversely⟩ := agree
  exact ⟨by omega, fun holds => by rw [same holds], fun equal => conversely (by omega)⟩

theorem agree_of_eq (equal : shown = contained)
    (holds : kept) : weights.Agree shown contained kept :=
  ⟨equal.le, fun _ => equal, fun _ _ => holds⟩

theorem agree_sum {Item : Type} {items : List Item} {shown contained : Item → Nat}
    {kept : Item → Prop}
    (each : ∀ item ∈ items, weights.Agree (shown item) (contained item) (kept item)) :
    weights.Agree (items.map shown).sum (items.map contained).sum (∀ item ∈ items, kept item) := by
  induction items with
  | nil => exact ⟨le_rfl, fun _ => rfl, fun _ _ => nofun⟩
  | cons _ _ ih =>
    obtain ⟨first, others⟩ := forall_mem_cons.mp each
    obtain ⟨_, same, conversely⟩ := first
    obtain ⟨_, same', conversely'⟩ := ih others
    rw [map_cons, map_cons, sum_cons, sum_cons, forall_mem_cons]
    refine ⟨by omega, fun both => ?_, fun equal positive => ?_⟩
    · rw [same both.1, same' both.2]
    · exact ⟨conversely (by omega) positive, conversely' (by omega) positive⟩

def entry (weights : Weights) (assignment : Text × Json) : Nat :=
  weights.member assignment.1 assignment.2 + weights.shown assignment.2

abbrev Unreplaced (weights : Weights) (assignments : Members) : Prop :=
  assignments.Pairwise fun earlier later => earlier.1 = later.1 → weights.entry earlier = 0

theorem shown_ofAssignments (weights : Weights) (assignments : Members) :
    weights.shown (ofAssignments assignments) ≤ (assignments.map weights.entry).sum ∧
    (weights.shown (ofAssignments assignments) = (assignments.map weights.entry).sum ↔
      weights.Unreplaced assignments) := by
  have total : _ ∧ (((OrderedMap.assignAll [] assignments).map weights.entry).sum = _ ↔ _) :=
    OrderedMap.sum_assignAll .nil weights.entry
  simp only [map_nil, sum_nil, Nat.zero_add, not_mem_nil, false_implies, implies_true,
    true_and] at total
  unfold ofAssignments
  split
  · next none => simp [isEmpty_iff.mp none, shown]
  · rw [shown]
    exact total

theorem entry_attr (name value : Text) :
    weights.entry (ascii "@" ++ name, .string value) = weights.attr name value := by
  have sign : ascii "@" = [64] := rfl
  simp [entry, member, shown, sign]

theorem entry_comment (value : Text) : weights.entry (ascii "#comment", .string value) = 0 := by
  have differs : (ascii "#comment").head? ≠ some 64 := by decide +kernel
  simp [entry, member, shown, differs]

theorem entry_tag {key : Text} (tag : IsTag key) (json : Json) :
    weights.entry (key, json) = weights.element + weights.shown json := by
  simp [entry, member, tag.2.2.1, tag.2.2.2]

theorem sum_assigned (written : Written node) (json : Json) :
    ((assigned node json).map weights.entry).sum =
      if node.1 = ascii "<xmlattr>" then
        (node.2.children.map fun attr => weights.attr attr.1 attr.2.data).sum
      else if node.1 = ascii "<xmlcomment>" then 0
      else weights.element + weights.shown json := by
  rw [assigned]
  split
  · rw [map_map]
    exact congrArg sum (map_congr_left fun attr _ => entry_attr attr.1 attr.2.data)
  · split
    · rw [map_singleton, sum_singleton, entry_comment]
    · rcases written with attr | comment | tag
      · exact absurd attr.1 ‹_›
      · exact absurd comment.1 ‹_›
      · rw [map_singleton, sum_singleton, entry_tag tag]

private theorem mem_assigned (weights : Weights) (written : Written node) {json : Json}
    {assignment : Text × Json} (member : assignment ∈ assigned node json) :
    node.1 = ascii "<xmlattr>" ∧ assignment.1.head? = some 64 ∨
    assignment.1 = ascii "#comment" ∧ weights.entry assignment = 0 ∨
    IsTag node.1 ∧ assignment.1 = node.1 := by
  rcases written with ⟨attr, -⟩ | ⟨comment, -⟩ | tag
  · rw [assigned, if_pos attr] at member
    obtain ⟨attr, -, rfl⟩ := mem_map.mp member
    exact .inl ⟨‹_›, rfl⟩
  · rw [assigned, comment] at member
    obtain rfl := mem_singleton.mp member
    exact .inr (.inl ⟨rfl, entry_comment _⟩)
  · rw [assigned_tag tag] at member
    obtain rfl := mem_singleton.mp member
    exact .inr (.inr ⟨tag, rfl⟩)

theorem unreplaced_assigned (json : Text × Ptree → Json) (attributes : AttributesFirst children)
    (written : ∀ node ∈ children, Written node) (distinct : DistinctTags children) :
    weights.Unreplaced (children.flatMap fun node => assigned node (json node)) := by
  refine pairwise_flatMap.mpr ⟨fun node member => ?_, (attributes.and distinct).imp_of_mem ?_⟩
  · rcases written node member with ⟨attr, names⟩ | ⟨comment, -⟩ | tag
    · rw [assigned, if_pos attr]
      refine pairwise_map.mpr ((pairwise_map.mp names).imp fun differs same => ?_)
      exact absurd (append_cancel_left same) differs
    · rw [assigned, comment]
      exact pairwise_singleton _ _
    · rw [assigned_tag tag]
      exact pairwise_singleton _ _
  · rintro first second inFirst inSecond ⟨notAttr, differs⟩ _ isEarlier _ isLater same
    have notSign : (ascii "#comment").head? ≠ some 64 := by decide +kernel
    -- Only two elements can have the same key and weigh something.
    rcases mem_assigned weights (written first inFirst) isEarlier with
      ⟨-, sign⟩ | ⟨-, nothing⟩ | ⟨tag, key⟩
    · rcases mem_assigned weights (written second inSecond) isLater with
        ⟨attr, -⟩ | ⟨comment, -⟩ | ⟨tag, key⟩
      · exact absurd attr notAttr
      · exact absurd (comment ▸ same ▸ sign) notSign
      · exact absurd (key ▸ same ▸ sign) tag.2.2.2
    · exact nothing
    · rcases mem_assigned weights (written second inSecond) isLater with
        ⟨attr, -⟩ | ⟨comment, -⟩ | ⟨-, key'⟩
      · exact absurd attr notAttr
      · exact absurd (key.symm.trans (same.trans comment)) tag.2.2.1
      · exact absurd (key.symm.trans (same.trans key')) (differs tag)

theorem distinctTags_of_unreplaced {json : Text × Ptree → Json} (positive : 0 < weights.element)
    (kept : weights.Unreplaced (children.flatMap fun node => assigned node (json node))) :
    DistinctTags children := by
  refine (pairwise_flatMap.mp kept).2.imp ?_
  intro _ _ between tag same
  rw [assigned_tag tag, assigned_tag (same ▸ tag)] at between
  have nothing := between _ (mem_singleton_self _) _ (mem_singleton_self _) same
  rw [entry_tag tag] at nothing
  omega

theorem agree_jsonArray (written : ∀ node ∈ children, Written node)
    (elements : ∀ node ∈ children, node.1 ≠ ascii "<xmlattr>")
    (each : ∀ node ∈ children, IsTag node.1 → weights.Agree (weights.shown (treetoJson node.2))
      (weights.contained false node.2) (Separate node.2)) :
    weights.Agree (weights.shown (jsonArray (.node data children)))
      (weights.contained true (.node data children))
      (∀ part ∈ children.map Prod.snd, Separate part) := by
  rw [jsonArray, shown, contained, map_map, forall_mem_map]
  refine agree_sum fun node member => ?_
  rw [Function.comp_apply, if_neg (elements node member)]
  rcases written node member with ⟨attr, -⟩ | ⟨comment, empty⟩ | tag
  · exact absurd attr (elements node member)
  · obtain ⟨_, ⟨_, children⟩⟩ := node
    obtain rfl : children = [] := empty
    rw [if_pos comment, if_pos rfl, treetoJson]
    exact agree_of_eq (by simp [ofAssignments, shown]) (.node .nil nofun)
  · rw [if_neg tag.2.1]
    exact (each node member tag).add _

theorem agree_ofAssignments (json : Text × Ptree → Json) (attributes : AttributesFirst children)
    (written : ∀ node ∈ children, Written node) :
    weights.Agree
      (weights.shown (ofAssignments (children.flatMap fun node => assigned node (json node))))
      (children.map fun node => ((assigned node (json node)).map weights.entry).sum).sum
      (DistinctTags children) := by
  have total : ((children.flatMap fun node => assigned node (json node)).map weights.entry).sum =
      (children.map fun node => ((assigned node (json node)).map weights.entry).sum).sum := by
    rw [map_flatMap, flatMap_def, sum_flatten, map_map]
    rfl
  obtain ⟨atMost, equal⟩ := shown_ofAssignments weights
    (children.flatMap fun node => assigned node (json node))
  rw [total] at atMost equal
  refine ⟨atMost, fun distinct => ?_, fun same positive => ?_⟩
  · exact equal.mpr (unreplaced_assigned json attributes written distinct)
  · exact distinctTags_of_unreplaced positive (equal.mp same)

theorem agree_treetoJson {pt : Ptree} (document : Document pt) :
    weights.Agree (weights.shown (treetoJson pt)) (weights.contained false pt) (Separate pt) ∧
    (pt.isArray = true → weights.Agree (weights.shown (jsonArray pt)) (weights.contained true pt)
      (∀ part ∈ pt.children.map Prod.snd, Separate part)) := by
  induction document with
  | @node _ _ attributes written _ ih =>
    refine ⟨?_, fun isArray => agree_jsonArray written
      (not_attributes_of_isArray attributes isArray) fun node member tag =>
        (ih node member tag).1⟩
    rw [treetoJson, contained, separate_iff]
    refine (agree_ofAssignments _ attributes written).trans (agree_sum fun node member => ?_)
    rw [sum_assigned (written node member)]
    rcases written node member with ⟨attr, -⟩ | ⟨comment, -⟩ | tag
    · rw [if_pos attr, if_pos attr]
      exact agree_of_eq rfl fun tag => absurd attr tag.1
    · have notAttr : node.1 ≠ ascii "<xmlattr>" := by rw [comment]; decide +kernel
      rw [if_neg notAttr, if_neg notAttr, if_pos comment, if_pos comment]
      exact agree_of_eq rfl fun tag => absurd comment tag.2.1
    · obtain ⟨single, array⟩ := ih node member tag
      rw [if_neg tag.1, if_neg tag.1, if_neg tag.2.1, if_neg tag.2.1]
      simp only [tag, true_implies, Ptree.parts, Bool.not_false, Bool.true_and]
      split
      · next isArray =>
        rw [isArray]
        exact (array isArray).add _
      · next notArray =>
        rw [forall_mem_singleton, Bool.eq_false_iff.mpr notArray]
        exact single.add _

end Weights

/-- Every element has its own value in the result, and every attribute occurs there
as often as in the document, exactly when no two elements share a key. -/
theorem treetoJson_lossless_iff {pt : Ptree} (document : Document pt) :
    Weights.elements.shown (treetoJson pt) = Weights.elements.contained false pt ∧
      (∀ pair, (Weights.occurrences pair).shown (treetoJson pt) =
        (Weights.occurrences pair).contained false pt) ↔
    Separate pt := by
  constructor
  · rintro ⟨elements, -⟩
    exact (Weights.agree_treetoJson document).1.2.2 elements Nat.one_pos
  · intro separate
    exact ⟨(Weights.agree_treetoJson document).1.2.1 separate,
      fun pair => (Weights.agree_treetoJson document).1.2.1 separate⟩

def ofElement (attrs : List (String × String)) (children : List (String × Ptree)) : Ptree :=
  .node [] ((if attrs.isEmpty then [] else [(ascii "<xmlattr>",
      .node [] (attrs.map fun attr => (ascii attr.1, .node (ascii attr.2) [])))]) ++
    children.map fun child => (ascii child.1, child.2))

def twoInterfaces (attrs : List (String × String)) : Ptree :=
  ofElement [] [("<xmlcomment>", .node (ascii "bus") []), ("node", ofElement attrs
    [("interface", ofElement [("name", "a")] []), ("interface", ofElement [("name", "b")] [])])]

private theorem document_leaf (name : String) : Document (ofElement [("name", name)] []) := by
  refine .node (pairwise_singleton _ _) (forall_mem_singleton.mpr (.inl ⟨rfl, nodup_singleton _⟩))
    (forall_mem_singleton.mpr fun tag => absurd rfl tag.1)

private theorem document_twoInterfaces : Document (twoInterfaces []) := by
  have tag : IsTag (ascii "node") ∧ IsTag (ascii "interface") := by decide +kernel
  refine .node (by decide +kernel) (forall_mem_cons.mpr ⟨.inr (.inl ⟨rfl, rfl⟩),
    forall_mem_singleton.mpr (.inr (.inr tag.1))⟩) (forall_mem_cons.mpr
      ⟨fun tag => absurd rfl tag.2.1, forall_mem_singleton.mpr fun _ => ?_⟩)
  refine .node (by decide +kernel) (forall_mem_cons.mpr ⟨.inr (.inr tag.2),
    forall_mem_singleton.mpr (.inr (.inr tag.2))⟩) (forall_mem_cons.mpr ⟨fun _ => document_leaf "a",
      forall_mem_singleton.mpr fun _ => document_leaf "b"⟩)

theorem treetoJson_lossless_iff_two :
    (Weights.occurrences (ascii "name", ascii "a")).shown (treetoJson (twoInterfaces [])) = 1 := by
  have leaf (name : String) : Separate (ofElement [("name", name)] []) :=
    .node (pairwise_singleton _ _) (forall_mem_singleton.mpr fun tag => absurd rfl tag.1)
  have separate : Separate (twoInterfaces []) := by
    refine .node (by decide +kernel) (forall_mem_cons.mpr
      ⟨fun tag => absurd rfl tag.2.1, forall_mem_singleton.mpr fun _ => ?_⟩)
    exact forall_mem_cons.mpr ⟨leaf "a", forall_mem_singleton.mpr (leaf "b")⟩
  rw [((treetoJson_lossless_iff document_twoInterfaces).mpr separate).2]
  decide +kernel

theorem first_interface_lost :
    (Weights.occurrences (ascii "name", ascii "a")).shown
      (treetoJson (twoInterfaces [("name", "/")])) = 0 ∧
    (Weights.occurrences (ascii "name", ascii "a")).contained false
      (twoInterfaces [("name", "/")]) = 1 := by
  decide +kernel

end Coroserver.Dbus.Xml
