import Coroserver.Dbus.GraphqlBridge

/-! `jsonAtPath` follows a path character by character. Here it is compared with
the lookup by the segments of the path, one after the other. -/

namespace Coroserver.Dbus.GraphqlBridge

open List
open GraphQL (Json Text)
def IsIndex (seg : Text) : Prop := seg ≠ [] ∧ ∀ c ∈ seg, isDigit c = true
deriving Decidable

def followSegment (cur : Json) (seg : Text) : Option Json :=
  match cur with
  | .array items => if IsIndex seg then items[decimal seg]? else none
  | .object _ => cur.member? seg
  | _ => none

def follow (root : Json) (segments : List Text) : Option Json :=
  segments.foldlM followSegment root

def TooLarge (cur : Json) (seg : Text) : Prop :=
  (∃ items, cur = .array items) ∧ IsIndex seg ∧ UInt64.size ≤ decimal seg

/-- An array is reached with an index that is too large. -/
def Overflows : Json → List Text → Prop
  | _, [] => False
  | cur, seg :: rest =>
    TooLarge cur seg ∨ ∃ next, followSegment cur seg = some next ∧ Overflows next rest

def Steps (cur : Json) (seg : Text) : Except Thrown (Option Json) → Prop
  | .error _ => TooLarge cur seg
  | .ok found => ¬TooLarge cur seg ∧ found = followSegment cur seg

theorem pathStep_spec (cur : Json) (seg : Text) : Steps cur seg (pathStep cur seg) := by
  have index : (!seg.isEmpty && seg.all isDigit) = true ↔ IsIndex seg := by
    simp [IsIndex]
  fun_cases pathStep cur seg
  case case1 items numeric small =>
    refine ⟨fun large => Nat.not_le_of_lt small large.2.2, ?_⟩
    rw [followSegment, if_pos (index.mp numeric)]
  case case2 items numeric large =>
    exact ⟨⟨items, rfl⟩, index.mp numeric, Nat.le_of_not_lt large⟩
  case case3 items notIndex =>
    rw [index] at notIndex
    refine ⟨fun large => notIndex large.2.1, ?_⟩
    rw [followSegment, if_neg notIndex]
  case case4 => exact ⟨by rintro ⟨⟨_, ⟨⟩⟩, -⟩, rfl⟩
  case case5 notArray notObject =>
    refine ⟨fun large => large.1.elim notArray, ?_⟩
    rw [followSegment]
    exacts [notArray, notObject]

def Follows (cur : Json) (segments : List Text) : Except Thrown (Option Json) → Prop
  | .error _ => Overflows cur segments
  | .ok found => ¬Overflows cur segments ∧
      ((∀ seg ∈ segments, seg ≠ []) → found = follow cur segments)

section

variable {cur next : Json} {seg : Text} {rest : List Text} {result : Except Thrown (Option Json)}

theorem Steps.follows (spec : Steps cur seg (.ok (some next))) (later : Follows next rest result) :
    Follows cur (seg :: rest) result := by
  obtain ⟨notLarge, found⟩ := spec
  have same : Overflows cur (seg :: rest) ↔ Overflows next rest := by
    simp [Overflows, notLarge, ← found]
  cases result with
  | error => exact same.mpr later
  | ok =>
    refine ⟨fun overflow => later.1 (same.mp overflow), fun nonempty => ?_⟩
    rw [later.2 fun other member => nonempty other (mem_cons_of_mem _ member), follow, follow,
      foldlM_cons, ← found]
    rfl

theorem Steps.stops (spec : Steps cur seg result) (stopped : ∀ next, result ≠ .ok (some next)) :
    Follows cur (seg :: rest) result := by
  cases result with
  | error => exact .inl spec
  | ok value =>
    cases value with
    | some next => exact absurd rfl (stopped next)
    | none =>
      obtain ⟨notLarge, found⟩ := spec
      refine ⟨by simp [Overflows, notLarge, ← found], fun _ => ?_⟩
      rw [follow, foldlM_cons, ← found]
      rfl

end

theorem modifyHead_nil_append (segments : List Text) :
    segments.modifyHead ([] ++ ·) = segments := by
  cases segments <;> rfl

private theorem pathLoop_spec (cur : Json) (seg rest : Text) :
    Follows cur ((rest.splitOn '.'.toUInt8).modifyHead (seg ++ ·)) (pathLoop cur seg rest) := by
  fun_induction pathLoop cur seg rest
  case case1 cur seg empty =>
    rw [isEmpty_iff.mp empty]
    exact ⟨by simp [Overflows, TooLarge, IsIndex],
      fun nonempty => absurd rfl (nonempty [] (by simp))⟩
  case case2 cur seg nonempty =>
    rw [splitOn_nil, modifyHead_cons, append_nil]
    by_cases found : ∃ next, pathStep cur seg = .ok (some next)
    · obtain ⟨next, stepped⟩ := found
      rw [stepped]
      exact (stepped ▸ pathStep_spec cur seg).follows ⟨id, fun _ => rfl⟩
    · exact (pathStep_spec cur seg).stops (not_exists.mp found)
  case case3 cur seg rest next stepped ih =>
    rw [splitOn_cons_eq_if_modifyHead, if_pos (beq_self_eq_true _), modifyHead_cons,
      append_nil]
    rw [modifyHead_nil_append] at ih
    exact (stepped ▸ pathStep_spec cur seg).follows ih
  case case4 cur seg rest stopped =>
    rw [splitOn_cons_eq_if_modifyHead, if_pos (beq_self_eq_true _), modifyHead_cons,
      append_nil]
    exact (pathStep_spec cur seg).stops stopped
  case case5 cur seg c rest other ih =>
    rw [splitOn_cons_eq_if_modifyHead, if_neg (by simpa using other),
      modifyHead_modifyHead]
    simp only [append_assoc] at ih
    exact ih

/-- The lookup is the one by segments, except that an index beyond
`unsigned long` makes `std::stoul` throw. -/
theorem jsonAtPath_follows_iff (root : Json) (dotPath : Text) :
    (∃ found, jsonAtPath root dotPath = .ok found ∧ ((∀ seg ∈ split dotPath '.'.toUInt8, seg ≠ []) →
          found = follow root (split dotPath '.'.toUInt8))) ↔
      ¬Overflows root (dotPath.splitOn '.'.toUInt8) := by
  have spec : Follows root (dotPath.splitOn '.'.toUInt8) (jsonAtPath root dotPath) := by
    have whole := pathLoop_spec root [] dotPath
    rwa [modifyHead_nil_append] at whole
  constructor
  · rintro ⟨found, returned, -⟩
    rw [returned] at spec
    exact spec.1
  · intro fits
    cases returned : jsonAtPath root dotPath with
    | error =>
      rw [returned] at spec
      exact absurd spec fits
    | ok found =>
      rw [returned] at spec
      refine ⟨found, rfl, ?_⟩
      by_cases empty : dotPath = []
      · subst empty
        cases returned
        exact fun _ => rfl
      · rw [split, if_neg (by simpa using empty)]
        exact spec.2

theorem jsonAtPath_throws :
    jsonAtPath (.array [.null]) (ascii "18446744073709551616") = .error .outOfRange := by
  rfl

end Coroserver.Dbus.GraphqlBridge
