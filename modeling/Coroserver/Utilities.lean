import Mathlib.Data.List.Basic

/-! Texts are lists over any type of characters: bytes for what comes from the
network and Unicode scalar values for what the program keeps in a `String`. -/

namespace Coroserver

open List

variable {α : Type} [DecidableEq α]

/-- The pieces between the occurrences of a character. `views::split` finds no
piece in an empty range, but an empty one after a trailing separator. -/
def split (input : List α) (c : α) : List (List α) :=
  if input.isEmpty then [] else input.splitOn c

theorem split_append_cons (left : List α) (c : α) (right : List α) :
    split (left ++ c :: right) c = left.splitOn c ++ right.splitOn c := by
  rw [split, if_neg (by simp), splitOn_append_cons_self]

variable {c : α}

theorem split_of_not_mem {input : List α} (nonempty : input ≠ []) (free : c ∉ input) :
    split input c = [input] := by
  rw [split, if_neg (by simpa using nonempty), splitOn_eq_singleton free]

theorem takeWhile_ne_append {left : List α} (free : c ∉ left) (right : List α) :
    (left ++ right).takeWhile (· != c) = left ++ right.takeWhile (· != c) := by
  refine takeWhile_append_of_pos ?_
  intro entry member
  exact bne_iff_ne.mpr fun same => free (same ▸ member)

theorem splitOn_eq_takeWhile_cons (input : List α) (c : α) :
    ∃ pieces, input.splitOn c = input.takeWhile (· != c) :: pieces := by
  induction input with
  | nil => exact ⟨[], splitOn_nil c⟩
  | cons first rest ih =>
    obtain ⟨pieces, split⟩ := ih
    rw [splitOn_cons_eq_if_modifyHead, split]
    by_cases separator : first = c
    · exact ⟨rest.takeWhile (· != c) :: pieces, by simp [separator]⟩
    · exact ⟨pieces, by simp [separator]⟩

theorem not_mem_and_subset_of_mem_splitOn {input piece : List α}
    (member : piece ∈ input.splitOn c) : c ∉ piece ∧ piece ⊆ input := by
  induction input generalizing piece with
  | nil => simp_all
  | cons first rest ih =>
    obtain ⟨_, split⟩ := splitOn_eq_takeWhile_cons rest c
    rw [splitOn_cons_eq_if_modifyHead, split] at member
    rw [split] at ih
    by_cases separator : first = c
    · simp only [separator, beq_self_eq_true, if_true, mem_cons] at member
      rcases member with rfl | later
      · exact ⟨not_mem_nil, nil_subset _⟩
      · obtain ⟨free, inRest⟩ := ih (mem_cons.mpr later)
        exact ⟨free, subset_cons_of_subset _ inRest⟩
    · simp only [beq_iff_eq, separator, if_false, modifyHead_cons, mem_cons] at member
      rcases member with rfl | later
      · obtain ⟨free, inRest⟩ := ih mem_cons_self
        exact ⟨by simp [Ne.symm separator, free], cons_subset_cons _ inRest⟩
      · obtain ⟨free, inRest⟩ := ih (mem_cons_of_mem _ later)
        exact ⟨free, subset_cons_of_subset _ inRest⟩

end Coroserver
