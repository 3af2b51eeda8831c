import Coroserver.GraphQL.Ast
import Coroserver.Http.Target

/-! `Parser::Tokenizer` of `graphql/parser.hpp`. The tokenizer is the part of the
query it has not read yet, with the position of its first byte. Bytes are
classified as in the C locale. -/

namespace Coroserver.GraphQL

inductive TokenType where
  | endOfInput
  | name
  | int
  | float
  | string
  | dollar
  | bang
  | colon
  | equals
  | atSign
  | spread
  | leftParen
  | rightParen
  | leftBrace
  | rightBrace
  | leftBracket
  | rightBracket
  | comma
deriving DecidableEq

structure Token where
  type : TokenType
  text : Text
  position : Nat
deriving DecidableEq

inductive ParseError where
  | runtimeError (message : Text)
  /-- A loop or a recursion of the model went beyond its bound. -/
  | exhausted
deriving DecidableEq

def decimal (number : Nat) : Text := ascii (toString number)

variable (byte : UInt8)

def isDigit : Bool := 48 ≤ byte && byte ≤ 57

def isAlpha : Bool :=
  (65 ≤ byte && byte ≤ 90) || (97 ≤ byte && byte ≤ 122)

def isSpace : Bool := byte = 32 || (9 ≤ byte && byte ≤ 13)

def isLineBreak : Bool := byte = 10 || byte = 13

def startsName : Bool := isAlpha byte || byte = 95

def continuesName : Bool := startsName byte || isDigit byte

structure Tokenizer where
  rest : Text
  position : Nat
deriving DecidableEq

/-- The number of bytes that `skipIgnored` passes over; within a comment these
are all bytes up to the line break, which is white space itself. -/
def ignoredLength (inComment : Bool) : Text → Nat
  | [] => 0
  | ch :: rest =>
    if inComment && !isLineBreak ch then ignoredLength true rest + 1
    else if isSpace ch || ch = 44 then ignoredLength false rest + 1
    else if ch = 35 then ignoredLength true rest + 1
    else 0

namespace Tokenizer

def skip (tokenizer : Tokenizer) (count : Nat) : Tokenizer :=
  ⟨tokenizer.rest.drop count, tokenizer.position + count⟩

def skipIgnored (tokenizer : Tokenizer) : Tokenizer :=
  tokenizer.skip (ignoredLength false tokenizer.rest)

def take (tokenizer : Tokenizer) (type : TokenType) (count : Nat) : Token × Tokenizer :=
  (⟨type, tokenizer.rest.take count, tokenizer.position⟩, tokenizer.skip count)

def readName (tokenizer : Tokenizer) : Token × Tokenizer :=
  tokenizer.take .name (tokenizer.rest.takeWhile continuesName).length

end Tokenizer

def digitsLength (text : Text) : Nat := (text.takeWhile isDigit).length

def signLength (signs : Text) : Text → Nat
  | ch :: _ => if ch ∈ signs then 1 else 0
  | [] => 0

def fractionLength : Text → Nat
  | 46 :: rest => if digitsLength rest = 0 then 0 else 1 + digitsLength rest
  | _ => 0

def exponentLength : Text → Nat
  | ch :: rest =>
    if ch = 101 || ch = 69 then
      1 + signLength [43, 45] rest + digitsLength (rest.drop (signLength [43, 45] rest))
    else 0
  | [] => 0

def integerLength (text : Text) : Nat :=
  signLength [45] text + digitsLength (text.drop (signLength [45] text))

def Tokenizer.readNumber (tokenizer : Tokenizer) : Token × Tokenizer :=
  let whole := integerLength tokenizer.rest
  let fraction := fractionLength (tokenizer.rest.drop whole)
  let exponent := exponentLength (tokenizer.rest.drop (whole + fraction))
  tokenizer.take (if fraction = 0 ∧ exponent = 0 then .int else .float)
    (whole + fraction + exponent)

/-- The byte that an escape stands for; other escapes stand for the escaped byte. -/
def unescape (escaped : UInt8) : UInt8 :=
  match escaped with
  | 98 => 8
  | 102 => 12
  | 110 => 10
  | 114 => 13
  | 116 => 9
  | other => other

def readStringFrom (start : Nat) : Text → Nat → Text → Except ParseError (Token × Tokenizer)
  | [], _, _ =>
    .error (.runtimeError (ascii "Unterminated string at position " ++ decimal start))
  | ch :: rest, position, result =>
    if ch = 34 then .ok (⟨.string, result, start⟩, ⟨rest, position + 1⟩)
    else if ch = 92 then
      match rest with
      | [] =>
        .error (.runtimeError
          (ascii "Unterminated escape sequence at position " ++ decimal (position + 1)))
      | escaped :: rest =>
        readStringFrom start rest (position + 2) (result ++ [unescape escaped])
    else readStringFrom start rest (position + 1) (result ++ [ch])

def punctuator? (ch : UInt8) : Option TokenType :=
  match ch with
  | 36 => some .dollar
  | 33 => some .bang
  | 58 => some .colon
  | 61 => some .equals
  | 64 => some .atSign
  | 40 => some .leftParen
  | 41 => some .rightParen
  | 123 => some .leftBrace
  | 125 => some .rightBrace
  | 91 => some .leftBracket
  | 93 => some .rightBracket
  | 44 => some .comma
  | _ => none

/-- Whether a number starts here: `peek(1)` is looked at behind a minus sign. -/
def startsNumber : Text → Bool
  | ch :: rest => isDigit ch || (ch = 45 && rest.head?.any isDigit)
  | [] => false

def Tokenizer.next (tokenizer : Tokenizer) : Except ParseError (Token × Tokenizer) :=
  let tokenizer := tokenizer.skipIgnored
  match tokenizer.rest with
  | [] => .ok (⟨.endOfInput, [], tokenizer.position⟩, tokenizer)
  | ch :: rest =>
    if startsName ch then .ok tokenizer.readName
    else if startsNumber (ch :: rest) then .ok tokenizer.readNumber
    else
      match punctuator? ch with
      | some type => .ok (tokenizer.take type 1)
      | none =>
        if ch = 34 then
          readStringFrom tokenizer.position rest (tokenizer.position + 1) []
        else if ch = 46 ∧ rest.take 2 = [46, 46] then .ok (tokenizer.take .spread 3)
        else
          .error (.runtimeError (ascii "Unexpected character '" ++ [ch] ++
            ascii "' at position " ++ decimal tokenizer.position))

end Coroserver.GraphQL
