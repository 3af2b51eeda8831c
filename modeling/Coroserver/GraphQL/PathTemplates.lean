import Coroserver.GraphQL.Executor
import Mathlib.Data.List.Find

/-! `expandPath` replaces the placeholders of one argument after the other, in the
growing result. This is compared with one pass over the template that replaces
all of them. The two differ if the text of a value is read as part of a
placeholder. -/

namespace Coroserver.GraphQL

open List

def placeholderOf (name : Text) : Text := 123 :: name ++ [125]

def BraceFree (text : Text) : Prop := 123 ∉ text ∧ 125 ∉ text
deriving Decidable

/-- No placeholder of the name stands in the text or begins at its end. -/
def inert (name : Text) : Text → Bool
  | [] => true
  | c :: rest =>
    !((placeholderOf name).isPrefixOf (c :: rest) || (c :: rest).isPrefixOf (placeholderOf name)) &&
      inert name rest

/-- Words in braces, and between them text that is inert for all names. -/
inductive Braced (names : List Text) : Text → Prop where
  | nil : Braced names []
  | passed {text rest} (passes : ∀ name ∈ names, inert name text = true)
      (braced : Braced names rest) : Braced names (text ++ rest)
  | word {word rest} (braceFree : BraceFree word) (braced : Braced names rest) :
      Braced names (placeholderOf word ++ rest)

theorem inert_cons_iff {name rest : Text} {c : UInt8} : inert name (c :: rest) = true ↔
    (¬placeholderOf name <+: c :: rest ∧ ¬c :: rest <+: placeholderOf name) ∧
      inert name rest = true := by
  simp [inert, ← isPrefixOf_iff_prefix]

theorem inert_of_not_mem {text : Text} (unopened : 123 ∉ text) (name : Text) :
    inert name text = true := by
  induction text with
  | nil => rfl
  | cons c text ih =>
    obtain ⟨notOpening, unopened⟩ := not_or.mp (mt mem_cons.mpr unopened)
    refine inert_cons_iff.mpr ⟨⟨fun found => ?_, fun found => ?_⟩, ih unopened⟩
    · exact notOpening (cons_prefix_cons.mp found).1
    · exact notOpening (cons_prefix_cons.mp found).1.symm

theorem placeholder_prefix_iff {name word rest : Text} (name_free : BraceFree name)
    (word_free : BraceFree word) :
    (placeholderOf name).isPrefixOf (placeholderOf word ++ rest) = true ↔ name = word := by
  constructor
  · intro found
    obtain ⟨more, same⟩ := isPrefixOf_iff_prefix.mp found
    simp only [placeholderOf, cons_append, append_assoc, List.cons.injEq, true_and,
      nil_append] at same
    have ends : ∀ (text rest : Text), 125 ∉ text →
        (text ++ 125 :: rest).takeWhile (· ≠ 125) = text := by
      intro text rest absent
      rw [takeWhile_append_of_pos]
      · simp
      · intro byte member
        exact decide_eq_true fun same => absent (same ▸ member)
    rw [← ends name more name_free.2, same, ends word rest word_free.2]
  · rintro rfl
    exact isPrefixOf_iff_prefix.mpr (prefix_append _ _)

section

variable {name value rest : Text} {entries : List (Text × Text)}

theorem replaceFrom_skip (placeholder passed rest : Text) :
    replaceFrom placeholder value passed.length (passed ++ rest) =
      replaceFrom placeholder value 0 rest := by
  induction passed with
  | nil => rfl
  | cons _ _ ih => exact ih

theorem not_prefix_of_inert {text : Text} {c : UInt8} (passes : inert name (c :: text) = true) :
    ¬(placeholderOf name).isPrefixOf (c :: (text ++ rest)) = true := by
  intro found
  obtain ⟨apart, -⟩ := inert_cons_iff.mp passes
  have here : c :: text <+: c :: (text ++ rest) := prefix_append (c :: text) rest
  have starts := isPrefixOf_iff_prefix.mp found
  rcases prefix_or_prefix_of_prefix starts here with left | right
  · exact apart.1 left
  · exact apart.2 right

theorem replaceFrom_append {text : Text} (passes : inert name text = true) :
    replaceFrom (placeholderOf name) value 0 (text ++ rest) =
      text ++ replaceFrom (placeholderOf name) value 0 rest := by
  induction text with
  | nil => rfl
  | cons c text ih =>
    rw [cons_append, replaceFrom, if_neg (not_prefix_of_inert passes),
      ih (inert_cons_iff.mp passes).2, cons_append]

theorem replaceFrom_found :
    replaceFrom (placeholderOf name) value 0 (placeholderOf name ++ rest) =
      value ++ replaceFrom (placeholderOf name) value 0 rest := by
  have found : (placeholderOf name).isPrefixOf (placeholderOf name ++ rest) = true :=
    isPrefixOf_iff_prefix.mpr (prefix_append _ _)
  have skipped := @replaceFrom_skip value (placeholderOf name) (name ++ [125]) rest
  simp only [placeholderOf, cons_append] at found skipped ⊢
  rw [replaceFrom, if_pos found]
  exact congrArg (value ++ ·) skipped

theorem BraceFree.inert {word : Text} (word_free : BraceFree word) (name : Text) :
    GraphQL.inert name (word ++ [125]) = true :=
  inert_of_not_mem (by simp [word_free.1]) name

theorem replaceFrom_other {word : Text} (name_free : BraceFree name) (word_free : BraceFree word)
    (other : name ≠ word) :
    replaceFrom (placeholderOf name) value 0 (placeholderOf word ++ rest) =
      placeholderOf word ++ replaceFrom (placeholderOf name) value 0 rest := by
  have absent : ¬ (placeholderOf name).isPrefixOf (placeholderOf word ++ rest) = true :=
    fun found => other ((placeholder_prefix_iff name_free word_free).mp found)
  have passed := @replaceFrom_append name value rest _ (word_free.inert name)
  simp only [placeholderOf, cons_append] at absent passed ⊢
  rw [replaceFrom, if_neg absent, passed]

end

section

variable {entry : Text × Text} {entries : List (Text × Text)} {text : Text}

theorem Braced.replaceFrom (braced : Braced ((entry :: entries).map Prod.fst) text)
    (name_free : BraceFree entry.1) (passes : ∀ later ∈ entries, inert later.1 entry.2 = true) :
    Braced (entries.map Prod.fst)
      (GraphQL.replaceFrom (placeholderOf entry.1) entry.2 0 text) := by
  induction braced with
  | nil => exact .nil
  | passed inText _ ih =>
    obtain ⟨first, others⟩ := forall_mem_cons.mp inText
    rw [replaceFrom_append first]
    exact .passed others ih
  | @word word rest word_free _ ih =>
    by_cases same : entry.1 = word
    · subst same
      rw [replaceFrom_found]
      exact .passed (forall_mem_map.mpr passes) ih
    · rw [replaceFrom_other name_free word_free same]
      exact .word word_free ih

end

end Coroserver.GraphQL
