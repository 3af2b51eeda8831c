import Mathlib.Data.List.Basic

/-! A stream arrives as a list of segments, one for each read. This module has the
search for the first occurrence of a delimiter and the positions of a stream at
which a segment ends, over an arbitrary alphabet. -/

namespace Coroserver.Segmentation

open List

variable {α : Type}

def splitAfter [DecidableEq α] (delimiter : List α) : List α → Option (List α × List α)
  | [] => if delimiter.isPrefixOf [] then some (delimiter, []) else none
  | first :: rest =>
    if delimiter.isPrefixOf (first :: rest) then
      some (delimiter, (first :: rest).drop delimiter.length)
    else (splitAfter delimiter rest).map fun found => (first :: found.1, found.2)

section

variable [DecidableEq α] {delimiter buffer before after : List α}

theorem splitAfter_of_starts (delimiter after : List α) :
    splitAfter delimiter (delimiter ++ after) = some (delimiter, after) := by
  have starts : delimiter.isPrefixOf (delimiter ++ after) = true :=
    isPrefixOf_iff_prefix.mpr (prefix_append delimiter after)
  cases whole : delimiter ++ after with
  | nil =>
    obtain ⟨rfl, rfl⟩ := append_eq_nil_iff.mp whole
    rfl
  | cons =>
    rw [whole] at starts
    rw [splitAfter, if_pos starts, ← whole, drop_left]

theorem splitAfter_cons {first : α} {rest : List α} (notHere : ¬delimiter <+: first :: rest) :
    splitAfter delimiter (first :: rest) =
      (splitAfter delimiter rest).map fun found => (first :: found.1, found.2) := by
  rw [splitAfter, if_neg fun starts => notHere <| isPrefixOf_iff_prefix.mp starts]

@[elab_as_elim]
theorem splitAfter_induction {motive : List α → List α → Prop}
    (here : motive (delimiter ++ after) delimiter)
    (later : ∀ first rest inRest, ¬delimiter <+: first :: rest →
      splitAfter delimiter rest = some (inRest, after) → motive rest inRest →
        motive (first :: rest) (first :: inRest))
    (found : splitAfter delimiter buffer = some (before, after)) : motive buffer before := by
  induction buffer generalizing before with
  | nil =>
    rw [splitAfter] at found
    split at found
    · rename_i starts
      obtain rfl : delimiter = [] := prefix_nil.mp <| isPrefixOf_iff_prefix.mp starts
      cases found
      exact here
    · cases found
  | cons first rest ih =>
    by_cases starts : delimiter <+: first :: rest
    · obtain ⟨tail, whole⟩ := starts
      rw [← whole, splitAfter_of_starts] at found
      cases found
      exact whole ▸ here
    · rw [splitAfter_cons starts] at found
      obtain ⟨⟨inRest, left⟩, inner, shape⟩ := Option.map_eq_some_iff.mp found
      cases shape
      exact later first rest inRest starts inner (ih inner)

theorem splitAfter_eq_append (found : splitAfter delimiter buffer = some (before, after)) :
    buffer = before ++ after ∧ delimiter.length ≤ before.length := by
  refine splitAfter_induction ?_ ?_ found
  · exact ⟨rfl, Nat.le_refl _⟩
  · intro first _ _ _ _ ih
    refine ⟨congrArg (first :: ·) ih.1, ?_⟩
    rw [length_cons]
    exact Nat.le_succ_of_le ih.2

theorem splitAfter_append (found : splitAfter delimiter buffer = some (before, after))
    (more : List α) : splitAfter delimiter (buffer ++ more) = some (before, after ++ more) := by
  refine splitAfter_induction ?_ ?_ found
  · rw [append_assoc]
    exact splitAfter_of_starts delimiter (after ++ more)
  · intro first rest inRest notHere inner ih
    obtain ⟨whole, long⟩ := splitAfter_eq_append inner
    have stillNotHere : ¬delimiter <+: first :: (rest ++ more) := by
      intro starts
      refine notHere (prefix_of_prefix_length_le starts
        (prefix_append (first :: rest) more) ?_)
      rw [whole, length_cons, length_append]
      omega
    rw [cons_append, splitAfter_cons stillNotHere, ih]
    rfl

end

theorem splitAfter_append_of_not_mem [DecidableEq α] {first : α} {passed : List α}
    (absent : first ∉ passed) (others rest : List α) :
    splitAfter (first :: others) (passed ++ rest) =
      (splitAfter (first :: others) rest).map fun found => (passed ++ found.1, found.2) := by
  induction passed with
  | nil => simp
  | cons _ _ ih =>
    obtain ⟨notFirst, notLater⟩ := not_or.mp (mem_cons.not.mp absent)
    rw [cons_append, splitAfter, if_neg, ih notLater, Option.map_map]
    · rfl
    · simp [List.isPrefixOf, notFirst]

def EndsAt (segments : List (List α)) (position : Nat) : Prop :=
  ∃ count, (segments.take count).flatten.length = position

theorem endsAt_zero (segments : List (List α)) : EndsAt segments 0 := ⟨0, by simp⟩

theorem endsAt_append_iff (taken rest : List (List α)) (position : Nat) :
    EndsAt (taken ++ rest) (taken.flatten.length + position) ↔ EndsAt rest position := by
  constructor
  · rintro ⟨count, reached⟩
    by_cases within : taken.length ≤ count
    · refine ⟨count - taken.length, ?_⟩
      rw [take_append, take_of_length_le within, flatten_append,
        length_append] at reached
      omega
    · have early := Nat.le_of_lt (Nat.lt_of_not_le within)
      have bounded : (taken.take count).flatten.length ≤ taken.flatten.length := by
        have split := congrArg (fun segments => segments.flatten.length)
          (take_append_drop count taken)
        simp only [flatten_append, length_append] at split
        omega
      rw [take_append_of_le_length early] at reached
      have atStart : position = 0 := by omega
      exact atStart ▸ endsAt_zero rest
  · rintro ⟨count, reached⟩
    refine ⟨taken.length + count, ?_⟩
    rw [take_length_add_append, flatten_append, length_append, reached]

end Coroserver.Segmentation
