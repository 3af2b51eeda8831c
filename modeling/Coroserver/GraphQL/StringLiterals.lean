import Coroserver.GraphQL.TokenizerProperties

/-! How a text of Unicode characters may be written as a string literal, and what
`readString` returns for it. A character stands for itself, or is escaped by a
letter, or by its code point, which takes two escapes beyond the basic plane. The
default branch of `readString` reads `\u` as the letter `u`. -/

namespace Coroserver.GraphQL

open List

def utf8 (text : List Char) : Text := text.flatMap String.utf8EncodeChar

inductive SimpleEscape where
  | quote
  | backslash
  | slash
  | backspace
  | formFeed
  | newline
  | carriageReturn
  | tab

namespace SimpleEscape

def letter : SimpleEscape → UInt8
  | .quote => 34
  | .backslash => 92
  | .slash => 47
  | .backspace => 98
  | .formFeed => 102
  | .newline => 110
  | .carriageReturn => 114
  | .tab => 116

def char : SimpleEscape → Char
  | .quote => '"'
  | .backslash => '\\'
  | .slash => '/'
  | .backspace => Char.ofNat 8
  | .formFeed => Char.ofNat 12
  | .newline => '\n'
  | .carriageReturn => '\r'
  | .tab => '\t'

end SimpleEscape

def hexValue? (byte : UInt8) : Option Nat :=
  if isDigit byte then some (byte.toNat - 48)
  else if 65 ≤ byte ∧ byte ≤ 70 then some (byte.toNat - 55)
  else if 97 ≤ byte ∧ byte ≤ 102 then some (byte.toNat - 87)
  else none

def WritesCode (code : Nat) (written : Text) : Prop :=
  ∃ first second third fourth a b c d,
    written = [92, 117, first, second, third, fourth] ∧
    hexValue? first = some a ∧ hexValue? second = some b ∧ hexValue? third = some c ∧
    hexValue? fourth = some d ∧ code = ((a * 16 + b) * 16 + c) * 16 + d

/-- The ways to write a character; `coded` says whether it is written by its
code point. -/
inductive WritesChar : Char → Bool → Text → Prop where
  | plain {char} (notQuote : char ≠ '"') (notBackslash : char ≠ '\\') :
      WritesChar char false (String.utf8EncodeChar char)
  | escape (escape : SimpleEscape) : WritesChar escape.char false [92, escape.letter]
  | code {char written} (code : WritesCode char.toNat written) :
      WritesChar char true written
  | surrogates {char high low} (beyond : 0x10000 ≤ char.toNat)
      (high_code : WritesCode (0xd800 + (char.toNat - 0x10000) / 0x400) high)
      (low_code : WritesCode (0xdc00 + (char.toNat - 0x10000) % 0x400) low) :
      WritesChar char true (high ++ low)

/-- What stands between the quotes; `coded` says whether a character is written
by its code point. -/
inductive WritesText : List Char → Bool → Text → Prop where
  | nil : WritesText [] false []
  | cons {char text first coded written body} (char_written : WritesChar char first written)
      (text_written : WritesText text coded body) :
      WritesText (char :: text) (first || coded) (written ++ body)

variable {Escape : UInt8 → Text → Prop} {text body written : Text} {coded : Bool}

theorem Quoted.append {later rest : Text} (quoted : Quoted Escape text body)
    (others : Quoted Escape later rest) : Quoted Escape (text ++ later) (body ++ rest) := by
  induction quoted with
  | nil => exact others
  | literal notQuote notBackslash _ ih => exact .literal notQuote notBackslash ih
  | escape escaped _ ih =>
    rw [append_assoc]
    exact .escape escaped ih

theorem quoted_of_literals (literal : ∀ byte ∈ text, byte ≠ 34 ∧ byte ≠ 92) :
    Quoted Escape text text := by
  induction text with
  | nil => exact .nil
  | cons byte rest ih =>
    obtain ⟨notQuote, notBackslash⟩ := literal byte mem_cons_self
    exact .literal notQuote notBackslash
      (ih fun other later => literal other (mem_cons_of_mem _ later))

variable {char : Char} {byte : UInt8}

private theorem toNat_of_mem_utf8EncodeChar (member : byte ∈ String.utf8EncodeChar char) :
    byte.toNat = char.toNat ∨ 128 ≤ byte.toNat := by
  change byte.toNat = char.val.toNat ∨ 128 ≤ byte.toNat
  unfold String.utf8EncodeChar at member
  dsimp only at member
  split at member
  · rw [mem_singleton.mp member, UInt8.toNat_ofNat']
    omega
  · right
    have tails : ∀ value offset width : Nat, 128 ≤ offset → offset + width ≤ 256 → 0 < width →
        128 ≤ (UInt8.ofNat (value % width + offset)).toNat := by
      intro value _ _ _ _ positive
      have below := Nat.mod_lt value positive
      rw [UInt8.toNat_ofNat', Nat.mod_eq_of_lt (by omega)]
      omega
    split at member
    · simp only [mem_cons, not_mem_nil, or_false] at member
      rcases member with rfl | rfl <;> exact tails _ _ _ (by omega) (by omega) (by omega)
    · split at member
      · simp only [mem_cons, not_mem_nil, or_false] at member
        rcases member with rfl | rfl | rfl <;> exact tails _ _ _ (by omega) (by omega) (by omega)
      · simp only [mem_cons, not_mem_nil, or_false] at member
        rcases member with rfl | rfl | rfl | rfl <;>
          exact tails _ _ _ (by omega) (by omega) (by omega)

theorem literal_of_mem_utf8EncodeChar (notQuote : char ≠ '"') (notBackslash : char ≠ '\\')
    (member : byte ∈ String.utf8EncodeChar char) : byte ≠ 34 ∧ byte ≠ 92 := by
  have encoded := toNat_of_mem_utf8EncodeChar member
  refine ⟨?_, ?_⟩
  · rintro rfl
    refine notQuote (Char.toNat_inj.mp ?_)
    exact (encoded.resolve_right (by decide)).symm
  · rintro rfl
    refine notBackslash (Char.toNat_inj.mp ?_)
    exact (encoded.resolve_right (by decide)).symm

private theorem literal_of_hexValue? {value : Nat} (hex : hexValue? byte = some value) :
    byte ≠ 34 ∧ byte ≠ 92 := by
  refine ⟨?_, ?_⟩ <;>
  · rintro rfl
    cases hex

theorem quoted_of_writesCode {code : Nat} (writes : WritesCode code written) :
    ∃ read, read.length = 5 ∧ Quoted loopEscape read written := by
  obtain ⟨first, second, third, fourth, _, _, _, _, rfl, one, two, three, four, -⟩ := writes
  refine ⟨[117, first, second, third, fourth], rfl, ?_⟩
  have letter : loopEscape 117 [92, 117] := ⟨117, rfl, rfl⟩
  refine .escape letter (quoted_of_literals ?_)
  simp only [forall_mem_cons]
  exact ⟨literal_of_hexValue? one, literal_of_hexValue? two, literal_of_hexValue? three,
    literal_of_hexValue? four, by simp⟩

theorem SimpleEscape.utf8EncodeChar_eq (escape : SimpleEscape) :
    String.utf8EncodeChar escape.char = [unescape escape.letter] := by
  cases escape <;> decide

private theorem quoted_of_writesChar (writes : WritesChar char coded written) :
    ∃ read, Quoted loopEscape read written ∧
      if coded then (String.utf8EncodeChar char).length < read.length
      else read = String.utf8EncodeChar char := by
  have short : (String.utf8EncodeChar char).length ≤ 4 := by
    rw [String.length_utf8EncodeChar]
    exact char.utf8Size_le_four
  cases writes with
  | plain notQuote notBackslash =>
    refine ⟨_, quoted_of_literals fun byte member => ?_, rfl⟩
    exact literal_of_mem_utf8EncodeChar notQuote notBackslash member
  | escape escape =>
    refine ⟨_, ?_, rfl⟩
    have escaped : loopEscape (unescape escape.letter) [92, escape.letter] :=
      ⟨escape.letter, rfl, rfl⟩
    rw [escape.utf8EncodeChar_eq]
    exact .escape escaped .nil
  | code writes =>
    obtain ⟨read, _, quoted⟩ := quoted_of_writesCode writes
    exact ⟨read, quoted, by simp only [if_true]; omega⟩
  | surrogates _ high low =>
    obtain ⟨first, _, firstQuoted⟩ := quoted_of_writesCode high
    obtain ⟨second, _, secondQuoted⟩ := quoted_of_writesCode low
    refine ⟨first ++ second, firstQuoted.append secondQuoted, ?_⟩
    simp only [if_true, length_append]
    omega

theorem quoted_of_writesText {text : List Char} (writes : WritesText text coded body) :
    ∃ read, Quoted loopEscape read body ∧
      if coded then (utf8 text).length < read.length else read = utf8 text := by
  induction writes with
  | nil => exact ⟨[], .nil, rfl⟩
  | @cons char text first coded _ _ char_written _ ih =>
    obtain ⟨readFirst, quotedFirst, firstMeans⟩ := quoted_of_writesChar char_written
    obtain ⟨readLater, quotedLater, laterMeans⟩ := ih
    refine ⟨readFirst ++ readLater, quotedFirst.append quotedLater, ?_⟩
    have encoded : utf8 (char :: text) = String.utf8EncodeChar char ++ utf8 text := rfl
    rw [encoded, length_append, length_append]
    cases first with
    | false =>
      obtain rfl : readFirst = String.utf8EncodeChar char := firstMeans
      cases coded with
      | false => exact congrArg (_ ++ ·) laterMeans
      | true => exact Nat.add_lt_add_left laterMeans _
    | true =>
      have longer : (String.utf8EncodeChar char).length < readFirst.length := firstMeans
      cases coded with
      | false =>
        obtain rfl : readLater = utf8 text := laterMeans
        exact Nat.add_lt_add_right longer _
      | true => exact Nat.add_lt_add longer laterMeans

private theorem next_quote (text : Text) (position : Nat) :
    Tokenizer.next ⟨34 :: text, position⟩ = readStringFrom position text (position + 1) [] := by
  have starts : StartsToken (34 :: text) := ⟨by decide, by decide, by decide⟩
  have skipped := @skipIgnored_append [] (34 :: text) position .nil starts
  unfold Tokenizer.next
  rw [nil_append] at skipped
  rw [skipped]
  dsimp only
  rw [if_neg (by decide), if_neg (by simp [startsNumber, isDigit])]
  rfl

/-- A literal of any text, in any spelling, is read as the UTF-8 encoding of the
text up to its closing quote exactly if no character is written by its code
point. -/
theorem string_literal_read_iff {text : List Char} {coded : Bool} {body : Text}
    (writes : WritesText text coded body) (rest : Text) (position : Nat) :
    Tokenizer.next ⟨34 :: (body ++ 34 :: rest), position⟩ =
        .ok (⟨.string, utf8 text, position⟩, ⟨rest, position + body.length + 2⟩) ↔
      coded = false := by
  obtain ⟨read, quoted, means⟩ := quoted_of_writesText writes
  have behind : position + 1 + body.length + 1 = position + body.length + 2 := by omega
  rw [next_quote, readStringFrom_append quoted, nil_append, behind]
  cases coded with
  | false =>
    rw [show read = utf8 text from means]
    simp
  | true =>
    have longer : (utf8 text).length < read.length := means
    simp only [Except.ok.injEq, Prod.mk.injEq, Token.mk.injEq, true_and, and_true,
      Bool.true_eq_false, iff_false]
    intro same
    rw [same] at longer
    exact Nat.lt_irrefl _ longer

theorem string_literal_read_euro :
    Tokenizer.next ⟨[34, 97, 92, 34, 226, 130, 172, 34, 41], 5⟩ =
      .ok (⟨.string, utf8 ['a', '"', '€'], 5⟩, ⟨[41], 13⟩) := by
  have writes : WritesText ['a', '"', '€'] false [97, 92, 34, 226, 130, 172] :=
    .cons (.plain (by decide) (by decide)) (.cons (.escape .quote)
      (.cons (.plain (by decide) (by decide)) .nil))
  exact (string_literal_read_iff writes [41] 5).mpr rfl

theorem string_literal_code_read_as_letters :
    ∃ body, WritesText ['A'] true body ∧ Tokenizer.next ⟨34 :: (body ++ [34]), 0⟩ =
        .ok (⟨.string, ascii "u0041", 0⟩, ⟨[], 8⟩) ∧ utf8 ['A'] = ascii "A" := by
  have code : WritesCode ('A').toNat [92, 117, 48, 48, 52, 49] :=
    ⟨48, 48, 52, 49, 0, 0, 4, 1, rfl, rfl, rfl, rfl, rfl, rfl⟩
  exact ⟨_, .cons (.code code) .nil, by decide +kernel, by decide +kernel⟩

end Coroserver.GraphQL
