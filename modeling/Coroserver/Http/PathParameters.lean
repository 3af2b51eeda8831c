import Coroserver.Http.RouterProperties

/-! The parameters of the query, the wildcards of the route and its literal segments, with empty
values, are one list that a handler searches for the first entry with a name. -/

namespace Coroserver.Http

open List

def wildcardName (segment : Bytes) : Bytes := (segment.drop 1).dropLast

def pathParameter (s1 s2 : Bytes) : Bytes × Bytes :=
  if isWildcard s1 then (wildcardName s1, s2) else (s1, [])

def firstValue (params : List (Bytes × Bytes)) (name : Bytes) : Bytes :=
  ((params.find? fun p => p.1 == name).map Prod.snd).getD []

theorem HttpFunction.get_eq (func : HttpFunction) (name : Bytes) :
    func.get name = firstValue func.params name := by
  unfold get firstValue
  split
  · rename_i p found
    rw [found]
    split
    · rename_i empty
      exact (isEmpty_iff.mp empty).symm
    · rfl
  · rename_i absent
    rw [absent]
    rfl

variable {name segment : Bytes} {template : List Bytes} {index : Nat}

theorem firstValue_cons_of_ne {p : Bytes × Bytes} (differs : p.1 ≠ name)
    (params : List (Bytes × Bytes)) :
    firstValue (p :: params) name = firstValue params name := by
  simp [firstValue, differs]

theorem firstValue_cons_self (name value : Bytes) (params : List (Bytes × Bytes)) :
    firstValue ((name, value) :: params) name = value := by
  simp [firstValue]

theorem firstValue_path_of_absent
    (absent : ∀ segment ∈ template, isWildcard segment = true → wildcardName segment ≠ name)
    (path : List Bytes) :
    firstValue (List.zipWith pathParameter template path) name = [] := by
  induction template generalizing path with
  | nil => rfl
  | cons segment rest ih =>
    cases path with
    | nil => rfl
    | cons given others =>
      have later := ih (fun other member => absent other (mem_cons_of_mem _ member)) others
      have own := absent segment mem_cons_self
      rw [zipWith_cons_cons, pathParameter]
      split
      · rename_i wildcard
        rw [firstValue_cons_of_ne (own wildcard), later]
      · by_cases same : segment = name
        · rw [same, firstValue_cons_self]
        · rw [firstValue_cons_of_ne same, later]

variable {value target : Bytes}

theorem firstValue_path {path : List Bytes} (own : template[index]? = some segment)
    (wildcard : isWildcard segment = true) (given : path[index]? = some value)
    (distinct : ∀ earlier ∈ template.take index, isWildcard earlier = true →
      wildcardName earlier ≠ wildcardName segment) :
    firstValue (List.zipWith pathParameter template path) (wildcardName segment) = value ↔
      value = [] ∨ ∀ earlier ∈ template.take index, isWildcard earlier = false →
        earlier ≠ wildcardName segment := by
  induction template generalizing path index with
  | nil => cases own
  | cons first rest ih =>
    cases path with
    | nil => cases given
    | cons firstGiven others =>
      rw [zipWith_cons_cons]
      cases index with
      | zero =>
        cases own
        cases given
        rw [pathParameter, if_pos wildcard, firstValue_cons_self]
        simp
      | succ index =>
        rw [take_succ_cons, forall_mem_cons] at distinct
        rw [take_succ_cons, forall_mem_cons, pathParameter]
        have later := ih own given distinct.2
        split
        · rename_i isWild
          rw [firstValue_cons_of_ne (distinct.1 isWild), later]
          simp [isWild]
        · rename_i literal
          by_cases same : first = wildcardName segment
          · subst same
            rw [firstValue_cons_self]
            constructor
            · exact fun empty => .inl empty.symm
            · rintro (empty | ⟨free, -⟩)
              · exact empty.symm
              · exact absurd rfl (free (Bool.eq_false_iff.mpr literal))
          · rw [firstValue_cons_of_ne same, later]
            simp [same]

def withQuery (path : Bytes) : Option Bytes → Bytes
  | none => path
  | some query => path ++ question :: query

theorem pathOf_withQuery {path : Bytes} (free : question ∉ path)
    (query : Option Bytes) : pathOf (withQuery path query) = path := by
  cases query with
  | none => exact pathOf_eq_self free
  | some =>
    rw [withQuery, pathOf, takeWhile_ne_append free, takeWhile_cons_of_neg (by simp),
      append_nil]

/-- A segment of the request reaches the handler under the name of its wildcard. -/
def Reaches (query : List (Bytes × Bytes)) (template : List Bytes) (index : Nat)
    (name value : Bytes) : Prop :=
  match query.find? fun p => p.1 == name with
  | some p => p.2 = value
  | none => value = [] ∨ 0 < index ∧ ∀ earlier ∈ (template.take index).drop 1,
      isWildcard earlier = false → earlier ≠ name

theorem firstValue_append (query path : List (Bytes × Bytes)) (name : Bytes) :
    firstValue (query ++ path) name =
      match query.find? fun p => p.1 == name with
      | some p => p.2
      | none => firstValue path name := by
  unfold firstValue
  rw [find?_append]
  cases query.find? fun p => p.1 == name <;> rfl

def DistinctNames (template : List Bytes) : Prop :=
  template.Pairwise fun first second => isWildcard first = true → isWildcard second = true →
    wildcardName first ≠ wildcardName second

theorem DistinctNames.others (distinct : DistinctNames template)
    (own : template[index]? = some segment) (wildcard : isWildcard segment = true) :
    (∀ earlier ∈ template.take index, isWildcard earlier = true →
      wildcardName earlier ≠ wildcardName segment) ∧
    ∀ later ∈ template.drop (index + 1), isWildcard later = true →
      wildcardName later ≠ wildcardName segment := by
  obtain ⟨bound, rfl⟩ := List.getElem?_eq_some_iff.mp own
  have shape : template = template.take index ++ template[index] :: template.drop (index + 1) := by
    simp
  rw [DistinctNames, shape, pairwise_append] at distinct
  obtain ⟨-, after, across⟩ := distinct
  constructor
  · intro earlier member isWild
    exact across earlier member _ mem_cons_self isWild wildcard
  · intro later member isWild
    exact (rel_of_pairwise_cons after member wildcard isWild).symm

theorem extractParamsFromPath_params {func : HttpFunction} {template : Bytes}
    (sameLength : (split template slash).length = (split name slash).length) :
    (extractParamsFromPath func template name).params = func.params ++
      List.zipWith pathParameter ((split template slash).drop 1) ((split name slash).drop 1) := by
  rw [extractParamsFromPath, if_neg (by simp [sameLength])]
  rfl

theorem length_split_le_one (free : slash ∉ target) : (split target slash).length ≤ 1 := by
  rw [split]
  split
  · exact Nat.zero_le 1
  · rw [splitOn_eq_singleton free]
    exact Nat.le_refl 1

/-- A segment of a path stands where a route has a wildcard. -/
structure WildcardAt (template path : Bytes) (index : Nat) (segment value : Bytes) :
    Prop where
  own : (split template slash)[index]? = some segment
  wildcard : isWildcard segment = true
  given : (split path slash)[index]? = some value

private theorem get_extractParamsFromPath_iff {template : Bytes}
    (sameLength : (split template slash).length =
      (split (parseFunction target).name slash).length)
    (distinct : DistinctNames (split template slash))
    (place : WildcardAt template (pathOf target) index segment value) :
    (extractParamsFromPath (parseFunction target) template (parseFunction target).name).get
        (wildcardName segment) = value ↔
      Reaches (parseFunction target).params (split template slash) index (wildcardName segment)
        value := by
  obtain ⟨own, wildcard, given⟩ := place
  obtain ⟨earlier, later⟩ := distinct.others own wildcard
  rw [HttpFunction.get_eq, extractParamsFromPath_params sameLength, firstValue_append, Reaches]
  cases (parseFunction target).params.find? fun p => p.1 == wildcardName segment with
  | some p => exact Iff.rfl
  | none =>
    cases index with
    | zero =>
      simp only [firstValue_path_of_absent later, Nat.lt_irrefl, false_and, or_false]
      exact eq_comm
    | succ index =>
      have bound := (List.getElem?_eq_some_iff.mp own).1
      have inTarget : slash ∈ target := by
        by_contra free
        have name : (parseFunction target).name = target := by rw [parseFunction, if_neg free]
        have short := length_split_le_one free
        rw [name] at sameLength
        omega
      rw [parseFunction_name_of_mem inTarget]
      have ownDropped : ((split template slash).drop 1)[index]? = some segment := by
        rw [getElem?_drop, Nat.add_comm, own]
      have givenDropped : ((split (pathOf target) slash).drop 1)[index]? = some value := by
        rw [getElem?_drop, Nat.add_comm, given]
      have before : ((split template slash).take (index + 1)).drop 1 =
          ((split template slash).drop 1).take index := by
        rw [drop_take, Nat.add_sub_cancel]
      have others : ∀ other ∈ ((split template slash).drop 1).take index,
          isWildcard other = true → wildcardName other ≠ wildcardName segment :=
        fun other member => earlier other (mem_of_mem_drop (before ▸ member))
      simp only [firstValue_path ownDropped wildcard givenDropped others, before,
        Nat.succ_pos, true_and]

/-- A wildcard is found unless the query or a literal segment before it uses its name. -/
theorem HttpRouter.path_parameters_reach_handler_iff {Handler : Type}
    (router : HttpRouter Handler) {verb : Verb} {handler : Handler} {template path : Bytes}
    (free : question ∉ path) (query : Option Bytes)
    (distinct : DistinctNames (split template slash))
    (found : FlatMap.find RequestMapper.equal (router.handlerForVerb verb)
      ⟨(parseFunction (withQuery path query)).name, verb⟩ = some (⟨template, verb⟩, handler)) :
    ∃ httpfunc, router.processRequest (withQuery path query) verb = .handle handler httpfunc ∧
      ((∀ index segment value, WildcardAt template path index segment value →
          httpfunc.get (wildcardName segment) = value) ↔
        ∀ index segment value, WildcardAt template path index segment value →
          Reaches (parseFunction (withQuery path query)).params (split template slash) index
            (wildcardName segment) value) := by
  refine ⟨_, by simp only [processRequest, found]; rfl, ?_⟩
  have matched := find?_some found
  have sameLength := Forall₂.length_eq ((RequestMapper.equal_iff _ _).mp matched).2
  have samePath := pathOf_withQuery free query
  refine forall₃_congr fun index segment value => forall_congr' fun place => ?_
  exact get_extractParamsFromPath_iff sameLength distinct (samePath.symm ▸ place)

theorem HttpRouter.path_parameters_reach_handler_two_wildcards :
    ∃ httpfunc, (({} : HttpRouter Nat).addHandler
        ⟨ascii "/fans/\x7bid\x7d/\x7bsensor\x7d", .get⟩ 0).processRequest
        (withQuery (ascii "/fans/5/speed") (some (ascii "unit=rpm"))) .get =
          .handle 0 httpfunc ∧
      httpfunc.get (ascii "id") = ascii "5" ∧ httpfunc.get (ascii "sensor") = ascii "speed" := by
  have pieces : split (ascii "/fans/\x7bid\x7d/\x7bsensor\x7d") slash =
      [[], ascii "fans", ascii "\x7bid\x7d", ascii "\x7bsensor\x7d"] := by decide +kernel
  have given : split (ascii "/fans/5/speed") slash =
      [[], ascii "fans", ascii "5", ascii "speed"] := by decide +kernel
  have distinct : DistinctNames (split (ascii "/fans/\x7bid\x7d/\x7bsensor\x7d") slash) := by
    rw [pieces, DistinctNames]
    decide +kernel
  have registered : FlatMap.find RequestMapper.equal ((({} : HttpRouter Nat).addHandler
      ⟨ascii "/fans/\x7bid\x7d/\x7bsensor\x7d", .get⟩ 0).handlerForVerb .get)
      ⟨(parseFunction (withQuery (ascii "/fans/5/speed") (some (ascii "unit=rpm")))).name, .get⟩ =
      some (⟨ascii "/fans/\x7bid\x7d/\x7bsensor\x7d", .get⟩, 0) := by
    decide +kernel
  obtain ⟨httpfunc, handled, reach⟩ := path_parameters_reach_handler_iff _
    (by decide +kernel : question ∉ ascii "/fans/5/speed") (some (ascii "unit=rpm")) distinct
    registered
  have reached := reach.mpr (by
    rintro index _ _ ⟨own, wildcard, -⟩
    rw [pieces] at own ⊢
    match index, own with
    | 0, rfl | 1, rfl => cases wildcard
    | 2, rfl | 3, rfl => exact Or.inr (by decide +kernel))
  exact ⟨httpfunc, handled,
    reached 2 (ascii "\x7bid\x7d") (ascii "5") ⟨by rw [pieces]; rfl, by decide, by rw [given]; rfl⟩,
    reached 3 (ascii "\x7bsensor\x7d") (ascii "speed")
      ⟨by rw [pieces]; rfl, by decide, by rw [given]; rfl⟩⟩

theorem HttpRouter.path_parameter_shadowed :
    (∃ httpfunc, (({} : HttpRouter Nat).addHandler ⟨ascii "/id/\x7bid\x7d", .get⟩
        0).processRequest (ascii "/id/5") .get = .handle 0 httpfunc ∧
      httpfunc.get (ascii "id") = []) ∧
    ∃ httpfunc, (({} : HttpRouter Nat).addHandler ⟨ascii "/fans/\x7bid\x7d", .get⟩
        0).processRequest (ascii "/fans/5?id=7") .get = .handle 0 httpfunc ∧
      httpfunc.get (ascii "id") = ascii "7" :=
  ⟨⟨⟨ascii "/id/5", [(ascii "id", []), (ascii "id", ascii "5")]⟩, by decide +kernel⟩,
    ⟨ascii "/fans/5", [(ascii "id", ascii "7"), (ascii "fans", []), (ascii "id", ascii "5")]⟩,
    by decide +kernel⟩

end Coroserver.Http
