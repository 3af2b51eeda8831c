import Mathlib.Data.List.Basic

/-! A list is an interleaving of a family of lists when its elements can be
labelled with the members of the family they come from, each member's elements
in their own order. -/

namespace Coroserver

open List

variable {ι α : Type} [DecidableEq ι]

def Interleaves (merged : List α) (parts : ι → List α) : Prop :=
  ∃ labelled : List (ι × α), labelled.map Prod.snd = merged ∧
    ∀ i, (labelled.filter (·.1 = i)).map Prod.snd = parts i

namespace Interleaves

theorem nil : Interleaves [] (fun _ : ι => ([] : List α)) :=
  ⟨[], rfl, fun _ => rfl⟩

variable {merged : List α} {parts : ι → List α}

theorem append (interleaves : Interleaves merged parts) (i : ι) (taken : List α) :
    Interleaves (merged ++ taken) (Function.update parts i (parts i ++ taken)) := by
  obtain ⟨labelled, values, own⟩ := interleaves
  refine ⟨labelled ++ taken.map (Prod.mk i), ?_, fun j => ?_⟩
  · rw [map_append, values, map_map]
    simp [Function.comp_def]
  · rw [filter_append, map_append, own]
    by_cases same : j = i
    · subst same
      simp [filter_map, Function.comp_def]
    · have other : i ≠ j := fun equal => same equal.symm
      simp [filter_map, Function.comp_def, same, other]

theorem mem_part (interleaves : Interleaves merged parts) {a : α} (member : a ∈ merged) :
    ∃ i, a ∈ parts i := by
  obtain ⟨_, rfl, own⟩ := interleaves
  obtain ⟨⟨i, b⟩, listed, rfl⟩ := mem_map.mp member
  refine ⟨i, own i ▸ mem_map.mpr ⟨(i, b), ?_, rfl⟩⟩
  exact mem_filter.mpr ⟨listed, decide_eq_true rfl⟩

end Interleaves

end Coroserver
