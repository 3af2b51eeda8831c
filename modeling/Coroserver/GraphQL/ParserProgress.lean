import Coroserver.Fallible
import Coroserver.GraphQL.Parser

/-! `Tokenizer::next` ends, and a token stands for at least one byte of the query. -/

namespace Coroserver.GraphQL

open List

def Impl.size (impl : Impl) : Nat :=
  impl.tokenizer.rest.length + if impl.current.type = .endOfInput then 0 else 1

theorem readStringFrom_spec {start position : Nat} {text result : Text} :
    readStringFrom start text position result ≠ .error .exhausted ∧
      ∀ token left, readStringFrom start text position result = .ok (token, left) →
        left.rest.length < text.length := by
  fun_induction readStringFrom start text position result with
  | case1 => exact ⟨nofun, nofun⟩
  | case2 =>
    refine ⟨nofun, ?_⟩
    intro _ _ same
    cases same
    exact Nat.lt_succ_self _
  | case3 => exact ⟨nofun, nofun⟩
  | case4 _ _ _ _ _ ih =>
    refine ⟨ih.1, ?_⟩
    intro token left same
    have shorter := ih.2 token left same
    simp only [length_cons]
    omega
  | case5 _ _ _ _ _ _ ih =>
    refine ⟨ih.1, ?_⟩
    intro token left same
    exact Nat.lt_succ_of_lt (ih.2 token left same)

private theorem digitsLength_pos {ch : UInt8} {rest : Text} (digit : isDigit ch = true) :
    0 < digitsLength (ch :: rest) := by
  rw [digitsLength, takeWhile_cons_of_pos digit]
  exact Nat.succ_pos _

theorem integerLength_pos {text : Text} (starts : startsNumber text = true) :
    0 < integerLength text := by
  cases text with
  | nil => cases starts
  | cons ch rest =>
    rw [integerLength, signLength]
    split
    · exact Nat.add_pos_left Nat.one_pos _
    · rename_i noSign
      have digit : isDigit ch = true := by
        simpa [startsNumber, mem_singleton.not.mp noSign] using starts
      exact Nat.add_pos_right 0 (digitsLength_pos digit)

private theorem size_le (left : Tokenizer) (token : Token) :
    Impl.size ⟨left, token⟩ ≤ left.rest.length + 1 := by
  unfold Impl.size
  split
  · exact Nat.le_succ _
  · exact Nat.le_refl _

theorem next_spec (tokenizer : Tokenizer) :
    tokenizer.next ≠ .error .exhausted ∧
      ∀ token left, tokenizer.next = .ok (token, left) →
        Impl.size ⟨left, token⟩ ≤ tokenizer.rest.length := by
  have skipped : tokenizer.skipIgnored.rest.length ≤ tokenizer.rest.length := by
    simp [Tokenizer.skipIgnored, Tokenizer.skip]
  have taken : ∀ type count, 0 < count → tokenizer.skipIgnored.rest ≠ [] → ∀ token left,
      (.ok (tokenizer.skipIgnored.take type count) : Except ParseError _) = .ok (token, left) →
        Impl.size ⟨left, token⟩ ≤ tokenizer.rest.length := by
    intro _ _ _ nonempty _ _ same
    cases same
    have remaining := length_pos_of_ne_nil nonempty
    refine Nat.le_trans (size_le _ _) (Nat.le_trans ?_ skipped)
    simp only [Tokenizer.skip, length_drop]
    omega
  fun_cases Tokenizer.next tokenizer with
  | case1 =>
    refine ⟨nofun, ?_⟩
    intro _ _ same
    cases same
    rw [Impl.size, if_pos rfl]
    exact skipped
  | case2 _ ch _ starts nameStarts =>
    have goesOn : continuesName ch = true := by rw [continuesName, nameStarts, Bool.true_or]
    refine ⟨nofun, taken _ _ ?_ (by rw [starts]; exact cons_ne_nil _ _)⟩
    rw [starts, takeWhile_cons_of_pos goesOn]
    exact Nat.succ_pos _
  | case3 _ _ _ starts _ numberStarts =>
    refine ⟨nofun, taken _ _ ?_ (by rw [starts]; exact cons_ne_nil _ _)⟩
    have positive := integerLength_pos numberStarts
    rw [← starts] at positive
    exact Nat.add_pos_left (Nat.add_pos_left positive _) _
  | case4 _ _ _ starts =>
    exact ⟨nofun, taken _ 1 Nat.one_pos (by rw [starts]; exact cons_ne_nil _ _)⟩
  | case5 ahead rest starts =>
    refine ⟨readStringFrom_spec.1, ?_⟩
    intro token left read
    have shorter := readStringFrom_spec.2 token left read
    have sized := size_le left token
    have whole : tokenizer.skipIgnored.rest.length = rest.length + 1 := congrArg List.length starts
    omega
  | case6 _ _ _ starts =>
    exact ⟨nofun, taken _ 3 (by decide) (by rw [starts]; exact cons_ne_nil _ _)⟩
  | case7 => exact ⟨nofun, nofun⟩

theorem Parser.current_bind {Result : Type} (continuation : Token → Parser Result) (impl : Impl) :
    (Parser.current >>= continuation) impl = continuation impl.current impl :=
  rfl

end Coroserver.GraphQL
