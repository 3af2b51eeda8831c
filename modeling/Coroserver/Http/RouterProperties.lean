import Coroserver.Http.Router
import Mathlib.Data.List.Forall2
import Mathlib.Data.List.TakeWhile

/-! The comparison of paths is reflexive and transitive, so that a path shares its
entry with every path that is registered later and matches one of its
wildcards. -/

namespace Coroserver.Http

open FlatMap List

def pathOf (target : Bytes) : Bytes := target.takeWhile (· != question)

theorem question_not_mem_pathOf (target : Bytes) : question ∉ pathOf target := by
  intro member
  simpa using mem_takeWhile_imp member

theorem pathOf_eq_self {path : Bytes} (free : question ∉ path) : pathOf path = path := by
  simpa [pathOf] using takeWhile_ne_append free []

theorem parseFunction_name_of_mem {target : Bytes} (inTarget : slash ∈ target) :
    (parseFunction target).name = pathOf target := by
  have nonempty : target ≠ [] := ne_nil_of_mem inTarget
  obtain ⟨pieces, found⟩ := splitOn_eq_takeWhile_cons target question
  rw [parseFunction, if_pos inTarget, split, if_neg (by simpa using nonempty), found]
  cases pieces <;> rfl

theorem parseFunction_name {target : Bytes} (rooted : slash ∈ pathOf target) :
    (parseFunction target).name = pathOf target :=
  parseFunction_name_of_mem ((takeWhile_sublist _).subset rooted)

theorem segmentMatches_trans {first second third : Bytes}
    (left : segmentMatches first second = true) (right : segmentMatches second third = true) :
    segmentMatches first third = true := by
  simp only [segmentMatches, Bool.or_eq_true, beq_iff_eq] at left right ⊢
  rcases left with rfl | wildcard
  · exact right
  · exact .inr wildcard

def SegmentsMatch : List Bytes → List Bytes → Prop :=
  Forall₂ fun s1 s2 => segmentMatches s1 s2 = true

theorem segmentsMatch_trans {first second third : List Bytes}
    (left : SegmentsMatch first second) (right : SegmentsMatch second third) :
    SegmentsMatch first third := by
  induction left generalizing third with
  | nil => exact right
  | cons matched _ ih =>
    cases right with
    | cons matchedNext rest => exact .cons (segmentMatches_trans matched matchedNext) (ih rest)

theorem RequestMapper.equal_iff (first second : RequestMapper) :
    first.equal second = true ↔ first.method = second.method ∧
      SegmentsMatch (split first.path slash) (split second.path slash) := by
  simp only [equal, SegmentsMatch, forall₂_iff_zip, ← map_uncurry_zip_eq_zipWith,
    all_map, Bool.and_eq_true, beq_iff_eq, all_eq_true]
  constructor
  · rintro ⟨⟨sameMethod, sameLength⟩, matched⟩
    exact ⟨sameMethod, sameLength, fun {s1 s2} member => matched (s1, s2) member⟩
  · rintro ⟨sameMethod, sameLength, matched⟩
    exact ⟨⟨sameMethod, sameLength⟩, fun _ member => matched member⟩

theorem RequestMapper.equal_preordered : Preordered RequestMapper.equal where
  refl mapper := by
    rw [equal_iff]
    exact ⟨rfl, forall₂_same.mpr fun _ _ => by simp [segmentMatches]⟩
  trans first second third left right := by
    rw [equal_iff] at left right ⊢
    exact ⟨left.1.trans right.1, segmentsMatch_trans left.2 right.2⟩

namespace HttpRouter

variable {Handler : Type}

/-- A leading slash and no empty segment after it. -/
def wellFormed (path : Bytes) : Bool :=
  match split path slash with
  | [] :: segment :: others => (segment :: others).all fun segment => !segment.isEmpty
  | _ => false

theorem slash_mem_of_wellFormed {path : Bytes} (formed : wellFormed path = true) :
    slash ∈ path := by
  by_cases rooted : slash ∈ path
  · exact rooted
  · cases path with
    | nil => cases formed
    | cons => simp [wellFormed, split_of_not_mem (by simp) rooted] at formed

def firstMatch (verb : Verb) (registered : List (Bytes × Handler)) (path : Bytes) :
    Option Bytes :=
  (registered.map Prod.fst).find? fun pattern => RequestMapper.equal ⟨pattern, verb⟩ ⟨path, verb⟩

def writes (verb : Verb) (registered : List (Bytes × Handler)) :
    List (RequestMapper × Handler) :=
  registered.map fun entry => (⟨entry.1, verb⟩, entry.2)

private theorem owner_writes (verb : Verb) (registered : List (Bytes × Handler)) (path : Bytes) :
    owner RequestMapper.equal (writes verb registered) ⟨path, verb⟩ =
      (firstMatch verb registered path).map fun pattern => ⟨pattern, verb⟩ := by
  have keys : (writes verb registered).map Prod.fst =
      (registered.map Prod.fst).map fun pattern => (⟨pattern, verb⟩ : RequestMapper) := by
    simp [writes]
  rw [owner, keys, find?_map]
  rfl

theorem firstMatch_eq_iff (verb : Verb) (registered : List (Bytes × Handler)) (left right : Bytes) :
    owner RequestMapper.equal (writes verb registered) ⟨left, verb⟩ =
        owner RequestMapper.equal (writes verb registered) ⟨right, verb⟩ ↔
      firstMatch verb registered left = firstMatch verb registered right := by
  have injective : Function.Injective fun pattern => (⟨pattern, verb⟩ : RequestMapper) := by
    intro _ _ same
    exact (RequestMapper.mk.inj same).1
  rw [owner_writes, owner_writes]
  exact (Option.map_injective injective).eq_iff

theorem handlerForVerb_addHandlers (router : HttpRouter Handler) (verb : Verb)
    (registered : List (Bytes × Handler)) :
    (router.addHandlers verb registered).handlerForVerb verb =
      assignAll RequestMapper.equal (router.handlerForVerb verb) (writes verb registered) := by
  induction registered generalizing router with
  | nil => rfl
  | cons entry rest ih =>
    have added : (router.addHandler ⟨entry.1, verb⟩ entry.2).handlerForVerb verb =
        assign RequestMapper.equal (router.handlerForVerb verb) ⟨entry.1, verb⟩ entry.2 := by
      cases verb <;> rfl
    rw [addHandlers, foldl_cons, ← addHandlers, ih, added]
    rfl

private theorem processRequest_handle_iff (router : HttpRouter Handler) {target : Bytes}
    (rooted : slash ∈ pathOf target) (verb : Verb) (handler : Handler) :
    (∃ httpfunc, router.processRequest target verb = .handle handler httpfunc) ↔
      (find RequestMapper.equal (router.handlerForVerb verb) ⟨pathOf target, verb⟩).map
        Prod.snd = some handler := by
  simp only [processRequest, parseFunction_name rooted]
  cases found : find RequestMapper.equal (router.handlerForVerb verb) ⟨pathOf target, verb⟩ with
  | none => cases router.fallbackHandler <;> simp
  | some => simp

/-- Requests for the registered paths reach their handlers if and only if no path that
can be requested shares its first match with a path that is registered later. -/
theorem registered_handlers_reached_iff (fallbackHandler : Option Handler) (verb : Verb)
    {registered : List (Bytes × Handler)} (formed : ∀ entry ∈ registered, wellFormed entry.1 = true)
    (distinct : (registered.map Prod.snd).Nodup) :
    (∀ path handler, (path, handler) ∈ registered → ∀ target, pathOf target = path →
      ∃ httpfunc, (({ fallbackHandler } : HttpRouter Handler).addHandlers verb
        registered).processRequest target verb = .handle handler httpfunc) ↔
    registered.Pairwise fun earlier later => question ∉ earlier.1 →
      firstMatch verb registered earlier.1 ≠ firstMatch verb registered later.1 := by
  have distinctWrites : ((writes verb registered).map Prod.snd).Nodup := by
    simpa [writes, Function.comp_def] using distinct
  have reads := forall_find_iff RequestMapper.equal_preordered distinctWrites
    fun mapper => question ∉ mapper.path
  have stored := handlerForVerb_addHandlers ({ fallbackHandler } : HttpRouter Handler) verb
    registered
  have initial : ({ fallbackHandler } : HttpRouter Handler).handlerForVerb verb = [] := by
    cases verb <;> rfl
  rw [initial] at stored
  rw [show (writes verb registered).Pairwise _ ↔ _ from pairwise_map, ← stored] at reads
  simp only [ne_eq, firstMatch_eq_iff] at reads ⊢
  rw [← reads]
  constructor
  · intro reached write member free
    obtain ⟨entry, inRegistered, rfl⟩ := mem_map.mp member
    have same : pathOf entry.1 = entry.1 := pathOf_eq_self free
    have rooted := slash_mem_of_wellFormed (formed entry inRegistered)
    have handled := reached entry.1 entry.2 inRegistered entry.1 same
    rw [processRequest_handle_iff _ (same.symm ▸ rooted), same] at handled
    exact handled
  · rintro found path handler member target rfl
    have rooted := slash_mem_of_wellFormed (formed _ member)
    rw [processRequest_handle_iff _ rooted]
    exact found (⟨pathOf target, verb⟩, handler) (mem_map_of_mem member)
      (question_not_mem_pathOf target)

theorem registered_handlers_reached_wildcard_last :
    ∃ registered : List (Bytes × Nat),
      registered = [(ascii "/fans/main", 0), (ascii "/fans/\x7bid\x7d", 1)] ∧
      (∃ httpfunc, (({} : HttpRouter Nat).addHandlers .get registered).processRequest
        (ascii "/fans/main?unit=rpm") .get = .handle 0 httpfunc) ∧
      ∃ httpfunc, (({} : HttpRouter Nat).addHandlers .get registered).processRequest
        (ascii "/fans/\x7bid\x7d") .get = .handle 1 httpfunc := by
  refine ⟨_, rfl, ?_⟩
  have reached := (registered_handlers_reached_iff none .get (by decide) (by decide)).mpr
    (by decide : List.Pairwise _ [(ascii "/fans/main", 0), (ascii "/fans/\x7bid\x7d", 1)])
  exact ⟨reached (ascii "/fans/main") 0 (by simp) _ (by decide),
    reached (ascii "/fans/\x7bid\x7d") 1 (by simp) _ (by decide)⟩

theorem wildcard_handler_replaced :
    ∃ httpfunc, (({} : HttpRouter Nat).addHandlers .get
      [(ascii "/fans/\x7bid\x7d", 0), (ascii "/fans/main", 1)]).processRequest
      (ascii "/fans/\x7bid\x7d") .get = .handle 1 httpfunc :=
  ⟨_, rfl⟩

end HttpRouter

end Coroserver.Http
