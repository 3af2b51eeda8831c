import Coroserver.OrderedMap
import Coroserver.Utilities

/-! `JsonSerializer` keeps one JSON value and reads or patches it below a path of
member names. The members of an object are in the order of their names, as the
library that the program uses keeps them; `merge_patch` is its JSON merge patch. -/

namespace Coroserver

/-- A number is an integer or the bits of a floating point number. -/
inductive Json where
  | null
  | bool (value : Bool)
  | int (value : Int)
  | float (bits : UInt64)
  | string (text : String)
  | array (elements : List Json)
  | object (members : List (String × Json))

namespace Json

def members : Json → List (String × Json)
  | .object members => members
  | _ => []

def member? (json : Json) (key : String) : Option Json := json.members.lookup key

def eraseMember (members : List (String × Json)) (key : String) : List (String × Json) :=
  members.filter fun entry => entry.1 != key

def setMember (members : List (String × Json)) (key : String) (value : Json) :
    List (String × Json) :=
  OrderedMap.assign members key value

mutual

def mergePatch (target : Json) : Json → Json
  | .object patch => .object (mergeMembers target.members patch)
  | .null => .null
  | .bool value => .bool value
  | .int value => .int value
  | .float bits => .float bits
  | .string text => .string text
  | .array elements => .array elements

def mergeMembers (members : List (String × Json)) :
    List (String × Json) → List (String × Json)
  | [] => members
  | (key, .null) :: rest => mergeMembers (eraseMember members key) rest
  | (key, value) :: rest =>
    mergeMembers
      (setMember members key (mergePatch ((members.lookup key).getD .null) value)) rest

end

def ofStrings (values : List String) : Json := .array (values.map .string)

/-- The conversion to a string; `none` stands for its exception. -/
def toString? : Json → Option String
  | .string text => some text
  | _ => none

/-- The conversion to a vector of strings; `none` stands for its exception. -/
def toStrings? : Json → Option (List String)
  | .array elements => elements.mapM toString?
  | _ => none

def replaces : Json → Bool
  | .null | .object _ => false
  | .bool _ | .int _ | .float _ | .string _ | .array _ => true

end Json

namespace JsonSerializer

def keys (path : String) : List String := (split path.toList '/').map String.ofList

/-- `std::reduce` over random access iterators, as libstdc++ computes it: four items
are combined with each other before they are combined with what there is so far. -/
def reduce {Item : Type} (combine : Item → Item → Option Item) : Item → List Item → Option Item
  | init, first :: second :: third :: fourth :: rest => do
      let left ← combine first second
      let right ← combine third fourth
      let all ← combine left right
      let next ← combine init all
      reduce combine next rest
  | init, item :: rest => do
      let next ← combine init item
      reduce combine next rest
  | init, [] => some init

/-- The operation that `makeJson` reduces with. Only a string is converted to a key. -/
def wrap (sofar currentKey : Json) : Option Json :=
  currentKey.toString?.map fun key => .object [(key, sofar)]

/-- `none` stands for the exception of the conversion, and for the empty path, which has
no front. -/
def makeJson (key : String) (value : Json) : Option Json :=
  match (keys key).reverse with
  | [] => none
  | front :: others => reduce wrap (.object [(front, value)]) (others.map .string)

variable (jsonData : Json)

def getLeafNode (keyPath : String) : Option Json :=
  (keys keyPath).foldlM Json.member? jsonData

def serialize (key : String) (value : Json) : Option Json :=
  (makeJson key value).map jsonData.mergePatch

/-- Reads into a JSON value, which stays as it is if there is no leaf. -/
def deserialize (key : String) (value : Json) : Json :=
  match getLeafNode jsonData key with
  | some leaf => leaf
  | none => value

/-- The whole path is the name of one member here. -/
def erase (key : String) : Json :=
  if (jsonData.member? key).isSome then .object (Json.eraseMember jsonData.members key)
  else jsonData

end JsonSerializer

namespace Json

theorem toStrings?_ofStrings (values : List String) :
    (ofStrings values).toStrings? = some values := by
  simp only [ofStrings, toStrings?, List.mapM_map]
  induction values with
  | nil => rfl
  | cons => simp_all [toString?]

variable {value : Json}

theorem mergePatch_of_replaces (replacing : value.replaces = true) (target : Json) :
    target.mergePatch value = value := by
  cases value with
  | null | object => cases replacing
  | bool | int | float | string | array => simp [mergePatch]

theorem mergeMembers_cons_of_ne_null (present : value ≠ .null) (key : String)
    (members rest : List (String × Json)) :
    mergeMembers members ((key, value) :: rest) =
      mergeMembers
        (setMember members key (mergePatch ((members.lookup key).getD .null) value)) rest := by
  rw [mergeMembers]
  exact present

theorem member?_mergePatch_singleton (target : Json) (key : String) (present : value ≠ .null) :
    (target.mergePatch (.object [(key, value)])).member? key =
      some (((target.members.lookup key).getD .null).mergePatch value) := by
  rw [mergePatch, mergeMembers_cons_of_ne_null present, mergeMembers, member?, members, setMember]
  exact OrderedMap.lookup_assign_self _ _ _

end Json

namespace JsonSerializer

/-- The value below the objects of a path. -/
def nest (keys : List String) (value : Json) : Json :=
  keys.foldr (fun currentKey sofar => .object [(currentKey, sofar)]) value

private theorem reduce_wrap (init : Json) (keys : List String) :
    reduce wrap init (keys.map .string) =
      if keys.length < 4 then some (keys.foldl (fun sofar key => .object [(key, sofar)]) init)
      else none := by
  match keys with
  | [] | [_] | [_, _] | [_, _, _] => rfl
  | first :: second :: third :: fourth :: rest =>
    rw [if_neg (by simp)]
    rfl

theorem makeJson_eq {path : String} (present : keys path ≠ []) (value : Json) :
    makeJson path value =
      if (keys path).length ≤ 4 then some (nest (keys path) value) else none := by
  obtain ⟨front, others, reversed⟩ := List.exists_cons_of_ne_nil
    (mt List.reverse_eq_nil_iff.mp present)
  have split : keys path = (front :: others).reverse := by rw [← reversed, List.reverse_reverse]
  rw [makeJson, reversed, split, nest, List.foldr_reverse, List.length_reverse, List.length_cons,
    List.foldl_cons]
  dsimp only
  rw [reduce_wrap]
  rfl

theorem nest_ne_null (keys : List String) {value : Json} (replacing : value.replaces = true) :
    nest keys value ≠ .null := by
  cases keys with
  | nil =>
    rintro rfl
    cases replacing
  | cons => simp [nest]

theorem getLeafNode_serialize (jsonData : Json) {key : String} {value : Json}
    (present : keys key ≠ []) (few : (keys key).length ≤ 4) (replacing : value.replaces = true) :
    ∃ written, serialize jsonData key value = some written ∧
      getLeafNode written key = some value := by
  refine ⟨_, by rw [serialize, makeJson_eq present, if_pos few, Option.map_some], ?_⟩
  rw [getLeafNode]
  clear present few
  induction keys key generalizing jsonData with
  | nil => simp [nest, Json.mergePatch_of_replaces replacing]
  | cons first rest ih =>
    have present := nest_ne_null rest replacing
    have found := Json.member?_mergePatch_singleton jsonData first present
    rw [List.foldlM_cons, nest, List.foldr_cons, ← nest, found]
    exact ih _

end JsonSerializer

end Coroserver
