import Coroserver.Definedness
import Coroserver.Http.RouterProperties

/-! The comparison of segments and the extraction of parameters look at the first
and the last character of a segment of a route. Here these functions have no
result where they would look into an empty segment, and otherwise the result of
the functions without that check. -/

namespace Coroserver.Http

open DefinedIff List

def isWildcard? (s1 : Bytes) : Option Bool :=
  s1.head?.bind fun first =>
    if first == '\x7b'.toUInt8 then s1.getLast?.map (· == '\x7d'.toUInt8) else some false

def segmentMatches? (s1 s2 : Bytes) : Option Bool :=
  if s1 ≠ s2 then isWildcard? s1 else some true

/-- `operator==`; `transform` compares all segments before `all_of` looks at the
results. -/
def RequestMapper.equal? (first second : RequestMapper) : Option Bool :=
  let segs1 := split first.path slash
  let segs2 := split second.path slash
  if first.method = second.method ∧ segs1.length = segs2.length then
    ((segs1.zip segs2).mapM fun p => segmentMatches? p.1 p.2).map fun found => found.all id
  else some false

/-- The segments of a route that a path is compared with are empty only where
those of the path are. -/
def RequestMapper.Comparable (first second : RequestMapper) : Prop :=
  first.method = second.method ∧
      (split first.path slash).length = (split second.path slash).length →
    ∀ p ∈ (split first.path slash).zip (split second.path slash), p.1 = [] → p.2 = []

theorem isWildcard?_spec (segment : Bytes) :
    DefinedIff (isWildcard? segment) (segment ≠ []) (isWildcard segment) := by
  cases segment with
  | nil => exact ⟨fun differs => absurd rfl differs, fun _ => rfl⟩
  | cons first rest =>
    refine ⟨fun _ => ?_, fun empty => absurd (cons_ne_nil first rest) empty⟩
    rw [isWildcard?, isWildcard, head?_cons, Option.bind_some,
      getLast?_eq_some_getLast (cons_ne_nil first rest)]
    cases opened : first == '\x7b'.toUInt8 <;> simp [opened]

private theorem segmentMatches?_spec (s1 s2 : Bytes) :
    DefinedIff (segmentMatches? s1 s2) (s1 = [] → s2 = []) (segmentMatches s1 s2) := by
  have result : segmentMatches s1 s2 = if s1 ≠ s2 then isWildcard s1 else true := by
    by_cases same : s1 = s2 <;> simp [segmentMatches, same]
  rw [result]
  refine ((isWildcard?_spec s1).guard).congr ?_
  constructor
  · intro runs empty
    by_contra given
    exact runs (fun same => given (same ▸ empty)) empty
  · intro alike differs empty
    exact differs (empty.trans (alike empty).symm)

theorem RequestMapper.equal?_spec (first second : RequestMapper) :
    DefinedIff (first.equal? second) (first.Comparable second) (first.equal second) := by
  have segments := (mapM (fun p : Bytes × Bytes =>
    segmentMatches?_spec p.1 p.2) ((split first.path slash).zip (split second.path slash))).map
      fun found => found.all id
  have result : first.equal second = if first.method = second.method ∧
          (split first.path slash).length = (split second.path slash).length then
        (((split first.path slash).zip (split second.path slash)).map fun p =>
          segmentMatches p.1 p.2).all id
      else false := by
    rw [equal, ← map_uncurry_zip_eq_zipWith]
    split
    · rename_i alike
      simp only [alike.1, alike.2, beq_self_eq_true, Bool.and_self, Bool.true_and]
      rfl
    · rename_i differs
      rw [Bool.and_eq_false_iff]
      exact .inl (by simpa using differs)
  rw [result]
  exact segments.guard

theorem RequestMapper.comparable_of_equal {first second : RequestMapper}
    (matched : first.equal second = true) : first.Comparable second := by
  rintro - p member empty
  have pairs := (forall₂_iff_zip.mp ((equal_iff first second).mp matched).2).2 member
  have same : [] = p.2 := by simpa [segmentMatches, empty, isWildcard] using pairs
  exact same.symm

namespace FlatMap

section

variable {Key Value : Type} (equal? : Key → Key → Option Bool)

def find? : List (Key × Value) → Key → Option (Option (Key × Value))
  | [], _ => some none
  | entry :: rest, key =>
    (equal? entry.1 key).bind fun same => if same then some (some entry) else find? rest key

def assign? : List (Key × Value) → Key → Value → Option (List (Key × Value))
  | [], key, value => some [(key, value)]
  | entry :: rest, key, value =>
    (equal? entry.1 key).bind fun same =>
      if same then some ((entry.1, value) :: rest)
      else (assign? rest key value).map (entry :: ·)

variable {equal?} {equal : Key → Key → Bool} {comparable : Key → Key → Prop}

def Searchable (equal : Key → Key → Bool) (comparable : Key → Key → Prop)
    (map : List (Key × Value)) (key : Key) : Prop :=
  ∀ entry ∈ map.takeWhile fun entry => !equal entry.1 key, comparable entry.1 key

structure Compares (equal? : Key → Key → Option Bool) (comparable : Key → Key → Prop)
    (equal : Key → Key → Bool) : Prop where
  spec : ∀ stored key, DefinedIff (equal? stored key) (comparable stored key) (equal stored key)
  comparable_of_equal : ∀ stored key, equal stored key = true → comparable stored key

variable (compares : Compares equal? comparable equal)
include compares

theorem searchable_cons (entry : Key × Value) (rest : List (Key × Value)) (key : Key) :
    Searchable equal comparable (entry :: rest) key ↔
      comparable entry.1 key ∧
        (equal entry.1 key = false → Searchable equal comparable rest key) := by
  unfold Searchable
  cases same : equal entry.1 key with
  | true => simp [same, compares.comparable_of_equal _ _ same]
  | false => simp [same]

theorem find?_spec (map : List (Key × Value)) (key : Key) :
    DefinedIff (find? equal? map key) (Searchable equal comparable map key)
      (find equal map key) := by
  induction map with
  | nil => exact (returns none).congr (by simp [Searchable])
  | cons entry rest ih =>
    refine DefinedIff.congr ((compares.spec entry.1 key).bind ?_)
      (searchable_cons compares entry rest key).symm
    rw [find, find?_cons]
    cases equal entry.1 key with
    | true => exact (returns _).congr (by simp)
    | false => exact ih.congr (by simp)

theorem assign?_spec (map : List (Key × Value)) (key : Key) (value : Value) :
    DefinedIff (assign? equal? map key value) (Searchable equal comparable map key)
      (assign equal map key value) := by
  induction map with
  | nil => exact (returns _).congr (by simp [Searchable])
  | cons entry rest ih =>
    refine DefinedIff.congr ((compares.spec entry.1 key).bind ?_)
      (searchable_cons compares entry rest key).symm
    rw [assign]
    cases equal entry.1 key with
    | true => exact (returns _).congr (by simp)
    | false => exact (ih.map (entry :: ·)).congr (by simp)

end

end FlatMap

def extractParamsFromPath? (func : HttpFunction) (handlerfuncname pathfuncname : Bytes) :
    Option HttpFunction :=
  let segs1 := (split handlerfuncname slash).drop 1
  let segs2 := (split pathfuncname slash).drop 1
  if segs1.length = segs2.length then
    ((segs1.zip segs2).mapM fun p => (isWildcard? p.1).map fun wildcard =>
      if wildcard then ((p.1.drop 1).dropLast, p.2) else (p.1, [])).map fun added =>
        { func with params := func.params ++ added }
  else some func

theorem extractParamsFromPath?_spec (func : HttpFunction) (handlerfuncname pathfuncname : Bytes) :
    DefinedIff (extractParamsFromPath? func handlerfuncname pathfuncname)
      (((split handlerfuncname slash).drop 1).length = ((split pathfuncname slash).drop 1).length →
        ∀ segment ∈ (split handlerfuncname slash).drop 1, segment ≠ [])
      (extractParamsFromPath func handlerfuncname pathfuncname) := by
  have result : extractParamsFromPath func handlerfuncname pathfuncname =
      if ((split handlerfuncname slash).drop 1).length =
          ((split pathfuncname slash).drop 1).length then
        { func with
          params := func.params ++ (((split handlerfuncname slash).drop 1).zip
            ((split pathfuncname slash).drop 1)).map fun p =>
              if isWildcard p.1 then ((p.1.drop 1).dropLast, p.2) else (p.1, []) }
      else func := by
    rw [extractParamsFromPath, ← map_uncurry_zip_eq_zipWith, ite_not]
    rfl
  rw [result]
  refine DefinedIff.congr (DefinedIff.guard ((mapM
    (fun p : Bytes × Bytes => (isWildcard?_spec p.1).map _) _).map _)) ?_
  refine forall_congr' fun sameLength => ?_
  have segments := map_fst_zip (Nat.le_of_eq sameLength)
  rw [← segments, forall_mem_map, segments]

namespace HttpRouter

variable {Handler : Type} (router : HttpRouter Handler)

def addHandler? (mapper : RequestMapper) (h : Handler) : Option (HttpRouter Handler) :=
  (FlatMap.assign? RequestMapper.equal? (router.handlerForVerb mapper.method) mapper h).map
    fun handlers => router.setHandlers handlers mapper.method

def processRequest? (target : Bytes) (method : Verb) : Option (Dispatch Handler) :=
  let httpfunc := parseFunction target
  (FlatMap.find? RequestMapper.equal? (router.handlerForVerb method)
      ⟨httpfunc.name, method⟩).bind fun
    | some (mapper, handler) =>
      (extractParamsFromPath? httpfunc mapper.path httpfunc.name).map (.handle handler)
    | none =>
      match router.fallbackHandler with
      | some handler => some (.fallback handler httpfunc)
      | none => some (.notFound httpfunc.name)

def register? (registered : List (RequestMapper × Handler)) : Option (HttpRouter Handler) :=
  registered.foldlM (fun router entry => router.addHandler? entry.1 entry.2) router

def register (registered : List (RequestMapper × Handler)) : HttpRouter Handler :=
  registered.foldl (fun router entry => router.addHandler entry.1 entry.2) router

open RequestMapper

theorem compares_equal :
    FlatMap.Compares equal? Comparable equal :=
  ⟨equal?_spec, fun _ _ => comparable_of_equal⟩

/-- A key can be looked up among the handlers of its verb. -/
def Searchable (router : HttpRouter Handler) (mapper : RequestMapper) : Prop :=
  FlatMap.Searchable RequestMapper.equal RequestMapper.Comparable
    (router.handlerForVerb mapper.method) mapper

theorem addHandler?_spec (mapper : RequestMapper) (h : Handler) :
    DefinedIff (router.addHandler? mapper h) (router.Searchable mapper)
      (router.addHandler mapper h) :=
  (FlatMap.assign?_spec compares_equal _ mapper h).map _

/-- The route that is found for a request has no empty segment after its first. -/
def Extractable (target : Bytes) (method : Verb) : Prop :=
  ∀ entry, FlatMap.find RequestMapper.equal (router.handlerForVerb method)
      ⟨(parseFunction target).name, method⟩ = some entry →
    [] ∉ (split entry.1.path slash).drop 1

private theorem processRequest?_spec (target : Bytes) (method : Verb) :
    DefinedIff (router.processRequest? target method)
      (router.Searchable ⟨(parseFunction target).name, method⟩ ∧ router.Extractable target method)
      (router.processRequest target method) := by
  refine bind (FlatMap.find?_spec compares_equal _ _) ?_
  simp only [Extractable, processRequest]
  cases found : FlatMap.find equal (router.handlerForVerb method)
      ⟨(parseFunction target).name, method⟩ with
  | none =>
    cases router.fallbackHandler with
    | none | some => exact DefinedIff.congr (returns _) (by simp)
  | some entry =>
    have matched := find?_some found
    have sameLength := Forall₂.length_eq ((equal_iff _ _).mp matched).2
    refine ((extractParamsFromPath?_spec (parseFunction target) entry.1.path
      (parseFunction target).name).map (Dispatch.handle entry.2)).congr ?_
    constructor
    · rintro nonempty other same empty
      cases same
      exact nonempty (by simp [sameLength]) [] empty rfl
    · rintro nonempty - _ member rfl
      exact nonempty entry rfl member

private theorem routing_spec (fallbackHandler : Option Handler)
    (registered : List (RequestMapper × Handler)) (target : Bytes) (method : Verb) :
    DefinedIff
      ((({ fallbackHandler } : HttpRouter Handler).register? registered).bind
        (·.processRequest? target method))
      ((∀ before entry after, registered = before ++ entry :: after →
        (({ fallbackHandler } : HttpRouter Handler).register before).Searchable entry.1) ∧
      (({ fallbackHandler } : HttpRouter Handler).register registered).Searchable
        ⟨(parseFunction target).name, method⟩ ∧
      (({ fallbackHandler } : HttpRouter Handler).register registered).Extractable target method)
      ((({ fallbackHandler } : HttpRouter Handler).register registered).processRequest target
        method) := by
  have registration := foldlM (fun (router : HttpRouter Handler) entry =>
    router.addHandler?_spec entry.1 entry.2) registered { fallbackHandler }
  exact registration.bind (processRequest?_spec _ target method)

/-- No empty segment is indexed exactly if the routes and the request are compared
with routes that have empty segments only where they have, and the route found for the
request has none after the first. -/
theorem routing_indexes_nonempty_iff (fallbackHandler : Option Handler)
    (registered : List (RequestMapper × Handler)) (target : Bytes) (method : Verb) :
    ((({ fallbackHandler } : HttpRouter Handler).register? registered).bind
        (·.processRequest? target method)).isSome = true ↔
      (∀ before entry after, registered = before ++ entry :: after →
        (({ fallbackHandler } : HttpRouter Handler).register before).Searchable entry.1) ∧
      (({ fallbackHandler } : HttpRouter Handler).register registered).Searchable
        ⟨(parseFunction target).name, method⟩ ∧
      (({ fallbackHandler } : HttpRouter Handler).register registered).Extractable target
        method :=
  (routing_spec fallbackHandler registered target method).isSome_iff

theorem routing_indexes_empty_segment :
    (({} : HttpRouter Nat).register? [(⟨ascii "/", .get⟩, 0)]).bind
        (·.processRequest? (ascii "/") .get) = none ∧
    (({} : HttpRouter Nat).register? [(⟨ascii "/a", .get⟩, 0)]).bind
        (·.processRequest? (ascii "x/a") .get) = none := by
  decide +kernel

end HttpRouter

end Coroserver.Http
