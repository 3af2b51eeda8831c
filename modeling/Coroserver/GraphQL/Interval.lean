import Coroserver.GraphQL.Parser
import Mathlib.Data.List.TakeWhile

/-! `graphql_redfish_server.cpp` reads the poll interval from a parameter of the
request. The digits are checked up to the first NUL, and then the text is
given to `std::stoi`. No result stands for an exception. -/

namespace Coroserver.GraphQL

open GraphQL.Parser (magnitude)

def cString (str : Text) : Text := str.takeWhile (· != 0)

def afterSign : Text → Text
  | [] => []
  | c :: rest => if c = 45 ∨ c = 43 then rest else c :: rest

def signed (text digits : Text) : Int :=
  if text.head? = some 45 then -(magnitude digits : Int) else magnitude digits

def InInt (value : Int) : Prop := -2147483648 ≤ value ∧ value ≤ 2147483647
deriving Decidable

/-- White space may come first, and what follows the digits is ignored. -/
def stoi (str : Text) : Option Int :=
  let text := (cString str).dropWhile isSpace
  let digits := (afterSign text).takeWhile isDigit
  if digits ≠ [] ∧ InInt (signed text digits) then some (signed text digits) else none

def notAnInteger (paramName : Text) : Text :=
  ascii "Invalid '" ++ paramName ++ ascii "': must be an integer"

def parseIntString (str paramName : Text) : Option (Except Text Int) :=
  if str = [] then
    some (.error (ascii "Invalid '" ++ paramName ++ ascii "': value must not be empty"))
  else if afterSign (cString str) = [] then some (.error (notAnInteger paramName))
  else if (afterSign (cString str)).any (!isDigit ·) then some (.error (notAnInteger paramName))
  else (stoi str).map .ok

def kIntervalMinSecs : Int := 5
def kIntervalMaxSecs : Int := 300
def kIntervalDefaultSecs : Int := 5

def clamp (value : Int) : Int :=
  if value < kIntervalMinSecs then kIntervalMinSecs
  else if kIntervalMaxSecs < value then kIntervalMaxSecs else value

def parseInterval (intervalStr : Text) : Option (Except Text Int) :=
  if intervalStr = [] then some (.ok kIntervalDefaultSecs)
  else (parseIntString intervalStr (ascii "interval")).map (Except.map clamp)

def Denotes (text : Text) (value : Int) : Prop :=
  afterSign text ≠ [] ∧ (∀ c ∈ afterSign text, isDigit c = true) ∧
    value = signed text (afterSign text)

section

variable {text str : Text} {value : Int}

theorem Denotes.start (denotes : Denotes text value) :
    ∃ c rest, text = c :: rest ∧ (c = 45 ∨ c = 43 ∨ isDigit c = true) ∧
      ∀ d ∈ rest, isDigit d = true := by
  obtain ⟨nonempty, digits, -⟩ := denotes
  cases text with
  | nil => exact absurd rfl nonempty
  | cons c rest =>
    refine ⟨c, rest, rfl, ?_⟩
    by_cases sign : c = 45 ∨ c = 43
    · rw [afterSign, if_pos sign] at digits
      exact ⟨sign.imp_right .inl, digits⟩
    · rw [afterSign, if_neg sign] at digits
      obtain ⟨first, others⟩ := List.forall_mem_cons.mp digits
      exact ⟨.inr (.inr first), others⟩

theorem Denotes.nul_not_mem (denotes : Denotes text value) : 0 ∉ text := by
  obtain ⟨c, rest, rfl, first, others⟩ := denotes.start
  intro member
  rcases List.mem_cons.mp member with rfl | later
  · revert first
    decide
  · cases others 0 later

theorem cString_eq_self (free : 0 ∉ str) : cString str = str :=
  List.takeWhile_eq_self_iff.mpr fun _ member => bne_iff_ne.mpr (ne_of_mem_of_not_mem member free)

private theorem stoi_of_denotes (denotes : Denotes (cString str) value) :
    stoi str = if InInt value then some value else none := by
  have unspaced : (cString str).dropWhile isSpace = cString str := by
    obtain ⟨c, _, same, _, -⟩ := denotes.start
    have visible : isSpace c = false := by grind [isDigit, isSpace]
    rw [same, List.dropWhile_cons_of_neg (by simp [visible])]
  obtain ⟨nonempty, digits, rfl⟩ := denotes
  rw [stoi, unspaced, List.takeWhile_eq_self_iff.mpr digits]
  simp [nonempty]

theorem parseIntString_spec (str paramName : Text) :
    (∃ value, Denotes (cString str) value ∧
      parseIntString str paramName = if InInt value then some (.ok value) else none) ∨
    (∀ value, ¬Denotes (cString str) value) ∧
      ∃ message, parseIntString str paramName = some (.error message) := by
  fun_cases parseIntString str paramName
  case case1 empty =>
    subst empty
    exact .inr ⟨fun _ denotes => denotes.1 rfl, _, rfl⟩
  case case2 empty => exact .inr ⟨fun _ denotes => denotes.1 empty, _, rfl⟩
  case case3 nonempty other =>
    refine .inr ⟨fun _ denotes => ?_, _, rfl⟩
    obtain ⟨c, member, notDigit⟩ := List.any_eq_true.mp other
    rw [denotes.2.1 c member] at notDigit
    cases notDigit
  case case4 nonempty digits =>
    have denotes : Denotes (cString str) (signed (cString str) (afterSign (cString str))) :=
      ⟨nonempty, by simpa using digits, rfl⟩
    refine .inl ⟨_, denotes, ?_⟩
    rw [stoi_of_denotes denotes, apply_ite (Option.map _)]
    rfl

theorem clamp_eq (value : Int) : clamp value = max 5 (min value 300) := by
  simp only [clamp, kIntervalMinSecs, kIntervalMaxSecs]
  grind

end

/-- Neither function throws, and the integers are exactly the texts that are accepted. -/
structure ParsesExactly (str paramName : Text) : Prop where
  accepts : ∃ result, parseIntString str paramName = some result ∧
    ∀ value, result = .ok value ↔ Denotes str value ∧ InInt value
  clamps : ∃ result, parseInterval str = some result ∧
    ∀ value, Denotes str value → InInt value → result = .ok (max 5 (min value 300))

/-- The interval is read exactly if the digits fit an `int` and no NUL follows them. -/
theorem interval_parsed_iff (str paramName : Text) :
    ParsesExactly str paramName ↔
      ∀ value, Denotes (cString str) value → InInt value ∧ 0 ∉ str := by
  have known : ∀ value, Denotes str value → Denotes (cString str) value := by
    intro value denotes
    rwa [cString_eq_self denotes.nul_not_mem]
  constructor
  · intro exact value denotes
    obtain ⟨_, returned, accepts⟩ := exact.accepts
    rcases parseIntString_spec str paramName with ⟨other, same, parsed⟩ | ⟨never, -⟩
    · obtain rfl : value = other := denotes.2.2.trans same.2.2.symm
      rw [returned] at parsed
      split at parsed
      · cases parsed
        exact ⟨by assumption, ((accepts value).mp rfl).1.nul_not_mem⟩
      · cases parsed
    · exact absurd denotes (never value)
  · intro fine
    have parsed (name : Text) : ∃ result, parseIntString str name = some result ∧
        ∀ value, result = .ok value ↔ Denotes str value ∧ InInt value := by
      rcases parseIntString_spec str name with ⟨value, denotes, parsed⟩ | ⟨never, message, parsed⟩
      · obtain ⟨inInt, free⟩ := fine value denotes
        rw [cString_eq_self free] at denotes
        refine ⟨.ok value, parsed.trans (if_pos inInt), fun other => ⟨?_, ?_⟩⟩
        · rintro ⟨⟩
          exact ⟨denotes, inInt⟩
        · rintro ⟨same, -⟩
          rw [denotes.2.2, same.2.2]
      · refine ⟨.error message, parsed, fun value => iff_of_false nofun ?_⟩
        exact fun accepted => never value (known value accepted.1)
    refine ⟨parsed paramName, ?_⟩
    by_cases empty : str = []
    · subst empty
      exact ⟨_, rfl, fun _ denotes => absurd rfl denotes.1⟩
    · obtain ⟨result, returned, accepts⟩ := parsed (ascii "interval")
      refine ⟨result.map clamp, by rw [parseInterval, if_neg empty, returned]; rfl, ?_⟩
      intro value denotes inInt
      rw [(accepts value).mpr ⟨denotes, inInt⟩, ← clamp_eq]
      rfl

theorem interval_throws :
    parseIntString (ascii "99999999999") (ascii "interval") = none ∧
      parseInterval (ascii "99999999999") = none ∧
      parseIntString [49, 50, 0, 120] (ascii "interval") = some (.ok 12) ∧
      ¬∃ value, Denotes [49, 50, 0, 120] value := by
  refine ⟨by decide +kernel, by decide +kernel, by decide +kernel, ?_⟩
  rintro ⟨value, denotes⟩
  exact denotes.nul_not_mem (by decide)

end Coroserver.GraphQL
