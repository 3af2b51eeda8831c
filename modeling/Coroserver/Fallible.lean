import Mathlib.Data.List.Forall2

/-! How a sequence of computations in `Except` succeeds or fails. -/

namespace Coroserver.Fallible

variable {Error First Second : Type} {computation : Except Error First}

variable {next : First → Except Error Second} {result : Second} {failure : Error}
  {change : First → Second}

theorem bind_eq_ok :
    computation.bind next = .ok result ↔
      ∃ middle, computation = .ok middle ∧ next middle = .ok result := by
  cases computation with
  | ok | error => simp [Except.bind]

theorem bind_eq_error :
    computation.bind next = .error failure ↔
      computation = .error failure ∨
        ∃ middle, computation = .ok middle ∧ next middle = .error failure := by
  cases computation with
  | ok | error => simp [Except.bind]

theorem map_eq_ok :
    computation.map change = .ok result ↔
      ∃ middle, computation = .ok middle ∧ change middle = result := by
  cases computation with
  | ok | error => simp [Except.map]

theorem map_eq_error : computation.map change = .error failure ↔ computation = .error failure := by
  cases computation with
  | ok | error => simp [Except.map]

section

variable {State Item : Type} {step : State → Item → Except Error State}

variable {state final : State}

theorem foldlM_cons_eq_ok {item : Item} {rest : List Item} :
    (item :: rest).foldlM step state = .ok final ↔
      ∃ middle, step state item = .ok middle ∧ rest.foldlM step middle = .ok final := by
  rw [List.foldlM_cons]
  exact bind_eq_ok

theorem foldlM_append_eq_ok {first second : List Item} :
    (first ++ second).foldlM step state = .ok final ↔
      ∃ middle, first.foldlM step state = .ok middle ∧ second.foldlM step middle = .ok final := by
  rw [List.foldlM_append]
  exact bind_eq_ok

theorem foldlM_total {items : List Item}
    (returns : ∀ before item rest middle, items = before ++ item :: rest →
      before.foldlM step state = .ok middle → ∃ next, step middle item = .ok next) :
    ∃ final, items.foldlM step state = .ok final := by
  induction items generalizing state with
  | nil => exact ⟨state, rfl⟩
  | cons item rest ih =>
    obtain ⟨next, first⟩ := returns [] item rest state rfl rfl
    obtain ⟨final, others⟩ := ih fun before other later middle split reached =>
      returns (item :: before) other later middle (congrArg (item :: ·) split)
        (foldlM_cons_eq_ok.mpr ⟨next, first, reached⟩)
    exact ⟨final, foldlM_cons_eq_ok.mpr ⟨next, first, others⟩⟩

theorem foldlM_preserves (invariant : State → Prop) {items : List Item}
    (keeps : ∀ state item next, invariant state → step state item = .ok next → invariant next)
    (start : invariant state) (folded : items.foldlM step state = .ok final) : invariant final := by
  induction items generalizing state with
  | nil =>
    cases folded
    exact start
  | cons item rest ih =>
    obtain ⟨middle, first, others⟩ := foldlM_cons_eq_ok.mp folded
    exact ih (keeps state item middle start first) others

end

section

variable {Item : Type} {f : Item → Except Error First}

variable {items : List Item}

variable {values : List First}

theorem mapM_eq_ok (succeed : items.map f = values.map .ok) : items.mapM f = .ok values := by
  induction items generalizing values with
  | nil =>
    cases values with
    | nil => rfl
    | cons => cases succeed
  | cons _ _ ih =>
    cases values with
    | nil => cases succeed
    | cons =>
      obtain ⟨first, others⟩ := List.cons.inj succeed
      rw [List.mapM_cons, first, ih others]
      rfl

theorem forall₂_of_mapM (mapped : items.mapM f = .ok values) :
    List.Forall₂ (fun item value => f item = .ok value) items values := by
  induction items generalizing values with
  | nil =>
    cases mapped
    exact .nil
  | cons _ _ ih =>
    rw [List.mapM_cons] at mapped
    obtain ⟨first, succeeded, rest⟩ := bind_eq_ok.mp mapped
    obtain ⟨_, later, returned⟩ := bind_eq_ok.mp rest
    cases returned
    exact .cons succeeded (ih later)

theorem mapM_eq_error {index : Nat} {item : Item} {failure : Error}
    (found : items[index]? = some item) (failed : f item = .error failure)
    (earlier : ∀ position < index, ∀ other, items[position]? = some other →
      ∃ value, f other = .ok value) : items.mapM f = .error failure := by
  induction items generalizing index with
  | nil => cases found
  | cons first items ih =>
    rw [List.mapM_cons]
    cases index with
    | zero =>
      obtain rfl := Option.some.inj found
      rw [failed]
      rfl
    | succ index =>
      obtain ⟨value, succeeded⟩ := earlier 0 (Nat.succ_pos index) first rfl
      have others := ih found fun position before other =>
        earlier (position + 1) (Nat.succ_lt_succ before) other
      rw [succeeded, others]
      rfl

theorem mapM_append (left right : List Item) :
    (left ++ right).mapM f =
      (left.mapM f).bind fun before => (right.mapM f).map (before ++ ·) := by
  rw [List.mapM_append]
  cases left.mapM f with
  | error => rfl
  | ok =>
    cases right.mapM f with
    | error | ok => rfl

end

end Coroserver.Fallible
