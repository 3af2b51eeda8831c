import Mathlib.Data.List.Basic

/-! A computation that fails where the program would leave what its language
defines is compared with a total function: `DefinedIff` says where it has a
result, and that the result is the function's. The rules follow the way in
which computations are put together. -/

namespace Coroserver

variable {First Second : Type}

/-- A computation has the given result under a condition and none otherwise. -/
structure DefinedIff (computation : Option First) (condition : Prop) (result : First) : Prop where
  defined : condition → computation = some result
  undefined : ¬condition → computation = none

namespace DefinedIff

variable {computation : Option First} {condition : Prop} {result : First}

theorem returns (result : First) : DefinedIff (some result) True result :=
  ⟨fun _ => rfl, fun absurdity => absurd trivial absurdity⟩

theorem isSome_iff (spec : DefinedIff computation condition result) :
    computation.isSome = true ↔ condition := by
  by_cases holds : condition
  · simp [spec.defined holds, holds]
  · simp [spec.undefined holds, holds]

theorem congr {other : Prop} (spec : DefinedIff computation condition result)
    (same : condition ↔ other) : DefinedIff computation other result :=
  ⟨fun holds => spec.defined (same.mpr holds), fun fails => spec.undefined (mt same.mp fails)⟩

theorem map (spec : DefinedIff computation condition result) (change : First → Second) :
    DefinedIff (computation.map change) condition (change result) :=
  ⟨fun holds => by rw [spec.defined holds, Option.map_some],
    fun fails => by rw [spec.undefined fails, Option.map_none]⟩

theorem bind (spec : DefinedIff computation condition result) {next : First → Option Second}
    {later : Prop} {final : Second} (after : DefinedIff (next result) later final) :
    DefinedIff (computation.bind next) (condition ∧ later) final := by
  by_cases holds : condition
  · rw [spec.defined holds, Option.bind_some]
    exact after.congr (by simp [holds])
  · rw [spec.undefined holds]
    exact ⟨fun both => absurd both.1 holds, fun _ => rfl⟩

theorem guard {test : Prop} [Decidable test] {otherwise : First}
    (spec : DefinedIff computation condition result) :
    DefinedIff (if test then computation else some otherwise) (test → condition)
      (if test then result else otherwise) := by
  by_cases runs : test
  · simpa [runs] using spec
  · simpa [runs] using returns otherwise

theorem mapM {partialOf : First → Option Second} {condition : First → Prop} {total : First → Second}
    (spec : ∀ item, DefinedIff (partialOf item) (condition item) (total item))
    (items : List First) :
    DefinedIff (items.mapM partialOf) (∀ item ∈ items, condition item) (items.map total) := by
  induction items with
  | nil => exact (returns []).congr (by simp)
  | cons item rest ih =>
    rw [List.mapM_cons]
    exact congr (bind (spec item) (bind ih (returns _))) (by simp)

theorem foldlM {State Item : Type} {step : State → Item → Option State}
    {condition : State → Item → Prop} {total : State → Item → State}
    (spec : ∀ state item, DefinedIff (step state item) (condition state item) (total state item))
    (items : List Item) (state : State) :
    DefinedIff (items.foldlM step state) (∀ before item after, items = before ++ item :: after →
        condition (before.foldl total state) item) (items.foldl total state) := by
  induction items generalizing state with
  | nil => exact (returns state).congr (by simp)
  | cons first rest ih =>
    rw [List.foldlM_cons]
    refine ((spec state first).bind (ih (total state first))).congr ?_
    constructor
    · rintro ⟨now, later⟩ before item after position
      cases before with
      | nil =>
        cases position
        exact now
      | cons head before =>
        cases position
        exact later before item after rfl
    · intro every
      refine ⟨every [] first rest rfl, ?_⟩
      rintro before item after rfl
      exact every (first :: before) item after rfl

end DefinedIff

end Coroserver
