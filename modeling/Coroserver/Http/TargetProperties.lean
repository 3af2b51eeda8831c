import Coroserver.Http.Target
import Mathlib.Data.List.TakeWhile

/-! The client writes keys and values as they are and the server decodes the values. -/

namespace Coroserver.Http

open List

def startsEscape : Bytes → Bool
  | c :: high :: low :: _ => c == percent && (hexByte high low).isSome
  | _ => false

def hasEscape : Bytes → Bool
  | [] => false
  | c :: rest => startsEscape (c :: rest) || hasEscape rest

theorem length_urlDecode_le (bytes : Bytes) : (urlDecode bytes).length ≤ bytes.length := by
  fun_induction urlDecode bytes with
  | case1 => exact Nat.le_refl _
  | case2 rest ih | case4 _ _ _ _ _ ih | case5 _ _ _ ih | case6 _ _ _ _ ih =>
    exact Nat.succ_le_succ ih
  | case3 =>
    simp only [length_cons]
    omega

private theorem cons_urlDecode_eq_iff {c : UInt8} {rest : Bytes} (notPlus : ¬c = plus)
    (noEscape : startsEscape (c :: rest) = false)
    (ih : urlDecode rest = rest ↔ plus ∉ rest ∧ hasEscape rest = false) :
    c :: urlDecode rest = c :: rest ↔ plus ∉ c :: rest ∧ hasEscape (c :: rest) = false := by
  rw [cons_inj_right, ih, hasEscape, noEscape, Bool.false_or, mem_cons, not_or]
  exact ⟨fun plain => ⟨⟨Ne.symm notPlus, plain.1⟩, plain.2⟩, fun plain => ⟨plain.1.2, plain.2⟩⟩

theorem urlDecode_eq_self_iff (bytes : Bytes) :
    urlDecode bytes = bytes ↔ plus ∉ bytes ∧ hasEscape bytes = false := by
  fun_induction urlDecode bytes with
  | case1 => simp [hasEscape]
  | case2 => simp [show space ≠ plus by decide]
  | case3 high low tail decoded known =>
    have shorter : decoded :: urlDecode tail ≠ percent :: high :: low :: tail := by
      intro same
      have sameLength := congrArg List.length same
      have bound := length_urlDecode_le tail
      simp only [length_cons] at sameLength
      omega
    simp [shorter, hasEscape, startsEscape, known]
  | case4 _ _ _ malformed notPlus ih =>
    exact cons_urlDecode_eq_iff notPlus (by simp [startsEscape, malformed]) ih
  | case5 rest short notPlus ih =>
    refine cons_urlDecode_eq_iff notPlus ?_ ih
    match rest, short with
    | [], _ | [_], _ => rfl
    | high :: low :: tail, short => exact (short high low tail rfl).elim
  | case6 c rest notPlus notPercent ih =>
    refine cons_urlDecode_eq_iff notPlus ?_ ih
    match rest with
    | [] | [_] => rfl
    | high :: low :: tail => simp [startsEscape, notPercent]

def isPlain (c : UInt8) : Bool := c != question && c != ampersand && c != equals

def separatorFree (bytes : Bytes) : Bool := bytes.all isPlain

theorem separatorFree_iff (bytes : Bytes) : separatorFree bytes = true ↔
    question ∉ bytes ∧ ampersand ∉ bytes ∧ equals ∉ bytes := by
  simp only [separatorFree, isPlain, all_eq_true, Bool.and_eq_true, bne_iff_ne, ne_eq]
  constructor
  · intro free
    exact ⟨fun member => (free _ member).1.1 rfl, fun member => (free _ member).1.2 rfl,
      fun member => (free _ member).2 rfl⟩
  · rintro ⟨noQuestion, noAmpersand, noEquals⟩ c member
    exact ⟨⟨fun same => noQuestion (same ▸ member), fun same => noAmpersand (same ▸ member)⟩,
      fun same => noEquals (same ▸ member)⟩

def parseParams (query : Bytes) : List (Bytes × Bytes) :=
  ((query.takeWhile (· != question)).splitOn ampersand).filterMap parseParameter

variable {key value : Bytes}

theorem parseParameter_entry (named : key ≠ []) (noEquals : equals ∉ key) (rest : Bytes) :
    parseParameter (key ++ equals :: rest) =
      some (key, urlDecode (rest.takeWhile (· != equals))) := by
  obtain ⟨_, found⟩ := splitOn_eq_takeWhile_cons rest equals
  rw [parseParameter, split_append_cons, splitOn_eq_singleton noEquals, found]
  simp [named]

theorem separatorFree_of_mem_parseParams {query : Bytes}
    (member : (key, value) ∈ parseParams query) : separatorFree key = true := by
  obtain ⟨piece, inPieces, parsed⟩ := mem_filterMap.mp member
  obtain ⟨noAmpersand, inQuery⟩ := not_mem_and_subset_of_mem_splitOn inPieces
  have noQuestion : question ∉ piece := by
    intro inPiece
    simpa using mem_takeWhile_imp (inQuery inPiece)
  simp only [parseParameter] at parsed
  split at parsed
  · rename_i name raw others pieces
    have inSplit : name ∈ piece.splitOn equals := by
      rw [split] at pieces
      split at pieces
      · cases pieces
      · simp [pieces]
    obtain ⟨noEquals, inPiece⟩ := not_mem_and_subset_of_mem_splitOn inSplit
    split at parsed
    · cases parsed
    · obtain ⟨rfl, -⟩ := Prod.mk.inj (Option.some.inj parsed)
      exact (separatorFree_iff name).mpr ⟨fun inName => noQuestion (inPiece inName),
        fun inName => noAmpersand (inPiece inName), noEquals⟩
  · cases parsed

theorem parseParams_entry (named : key ≠ []) (free : separatorFree key = true) (rest : Bytes) :
    ∃ others, parseParams (key ++ equals :: rest) =
      (key, urlDecode (rest.takeWhile isPlain)) :: others := by
  obtain ⟨noQuestion, noAmpersand, noEquals⟩ := (separatorFree_iff key).mp free
  have query : (key ++ equals :: rest).takeWhile (· != question) =
      key ++ equals :: rest.takeWhile (· != question) := by
    rw [takeWhile_ne_append noQuestion, takeWhile_cons_of_pos (by decide)]
  have piece : (key ++ equals :: rest.takeWhile (· != question)).takeWhile (· != ampersand) =
      key ++ equals :: (rest.takeWhile (· != question)).takeWhile (· != ampersand) := by
    rw [takeWhile_ne_append noAmpersand, takeWhile_cons_of_pos (by decide)]
  have value : ((rest.takeWhile (· != question)).takeWhile (· != ampersand)).takeWhile
      (· != equals) = rest.takeWhile isPlain := by
    rw [takeWhile_takeWhile, takeWhile_takeWhile]
    congr 1
    funext c
    rw [Bool.eq_iff_iff]
    simp only [isPlain, Bool.decide_and, Bool.decide_eq_true, Bool.and_eq_true]
    tauto
  obtain ⟨pieces, found⟩ := splitOn_eq_takeWhile_cons
    (key ++ equals :: rest.takeWhile (· != question)) ampersand
  refine ⟨pieces.filterMap parseParameter, ?_⟩
  rw [parseParams, query, found, piece, filterMap_cons, parseParameter_entry named noEquals,
    value]

private theorem parseParams_append {left : Bytes} (noQuestion : question ∉ left) (right : Bytes) :
    parseParams (left ++ ampersand :: right) =
      (left.splitOn ampersand).filterMap parseParameter ++ parseParams right := by
  rw [parseParams, takeWhile_ne_append noQuestion, takeWhile_cons_of_pos (by decide),
    splitOn_append_cons_self, filterMap_append]
  rfl

theorem parseParams_cons (named : key ≠ []) (freeKey : separatorFree key = true)
    (freeValue : separatorFree value = true) (rest : List (Bytes × Bytes)) :
    parseParams (key ++ equals :: (value ++ buildParams false rest)) =
      (key, urlDecode value) :: parseParams ((buildParams false rest).drop 1) := by
  obtain ⟨keyQuestion, keyAmpersand, keyEquals⟩ := (separatorFree_iff key).mp freeKey
  obtain ⟨valueQuestion, valueAmpersand, valueEquals⟩ := (separatorFree_iff value).mp freeValue
  have noQuestion : question ∉ key ++ equals :: value := by
    simp [keyQuestion, valueQuestion, show question ≠ equals by decide]
  have noAmpersand : ampersand ∉ key ++ equals :: value := by
    simp [keyAmpersand, valueAmpersand, show ampersand ≠ equals by decide]
  have entry : ((key ++ equals :: value).splitOn ampersand).filterMap parseParameter =
      [(key, urlDecode value)] := by
    have wholeValue := takeWhile_ne_append valueEquals []
    rw [append_nil, takeWhile_nil, append_nil] at wholeValue
    rw [splitOn_eq_singleton noAmpersand, filterMap_cons,
      parseParameter_entry named keyEquals, wholeValue]
    rfl
  cases rest with
  | nil =>
    have wholeEntry := takeWhile_ne_append noQuestion []
    rw [append_nil, takeWhile_nil, append_nil] at wholeEntry
    rw [buildParams, append_nil, parseParams, wholeEntry, entry]
    rfl
  | cons next others =>
    have shape : key ++ equals :: (value ++ buildParams false (next :: others)) =
        (key ++ equals :: value) ++ ampersand :: (buildParams false (next :: others)).drop 1 := by
      simp [buildParams]
    rw [shape, parseParams_append noQuestion, entry, singleton_append]

def Survives (entry : Bytes × Bytes) : Prop :=
  separatorFree entry.1 = true ∧ separatorFree entry.2 = true ∧ plus ∉ entry.2 ∧
    hasEscape entry.2 = false
deriving Decidable

private theorem separatorFree_of_urlDecode_eq {tail : Bytes}
    (same : urlDecode ((value ++ tail).takeWhile isPlain) = value) :
    separatorFree value = true := by
  have bound := length_urlDecode_le ((value ++ tail).takeWhile isPlain)
  rw [same, takeWhile_append] at bound
  split at bound
  · rename_i whole
    have kept := (takeWhile_sublist isPlain).eq_of_length whole
    exact all_eq_true.mpr (takeWhile_eq_self_iff.mp kept)
  · rename_i cut
    have shorter := (takeWhile_sublist isPlain : value.takeWhile isPlain <+ value).length_le
    omega

private theorem parseParams_eq_cons_iff (named : key ≠ []) (rest : List (Bytes × Bytes)) :
    parseParams (key ++ equals :: (value ++ buildParams false rest)) = (key, value) :: rest ↔
      Survives (key, value) ∧ parseParams ((buildParams false rest).drop 1) = rest := by
  constructor
  · intro agreed
    have freeKey : separatorFree key = true :=
      separatorFree_of_mem_parseParams (agreed ▸ mem_cons_self)
    obtain ⟨_, first⟩ := parseParams_entry named freeKey (value ++ buildParams false rest)
    have decoded := (Prod.mk.inj (List.cons.inj (first.symm.trans agreed)).1).2
    have freeValue := separatorFree_of_urlDecode_eq decoded
    rw [parseParams_cons named freeKey freeValue] at agreed
    obtain ⟨sameEntry, sameRest⟩ := List.cons.inj agreed
    have plain := (urlDecode_eq_self_iff value).mp (Prod.mk.inj sameEntry).2
    exact ⟨⟨freeKey, freeValue, plain⟩, sameRest⟩
  · rintro ⟨⟨freeKey, freeValue, plain⟩, sameRest⟩
    rw [parseParams_cons named freeKey freeValue, (urlDecode_eq_self_iff value).mpr plain, sameRest]

theorem parseParams_buildParams_iff {params : List (Bytes × Bytes)}
    (named : ∀ entry ∈ params, entry.1 ≠ []) :
    parseParams ((buildParams false params).drop 1) = params ↔
      ∀ entry ∈ params, Survives entry := by
  induction params with
  | nil => exact ⟨fun _ => forall_mem_nil _, fun _ => rfl⟩
  | cons entry rest ih =>
    obtain ⟨namedKey, namedRest⟩ := forall_mem_cons.mp named
    rw [forall_mem_cons, ← ih namedRest]
    exact parseParams_eq_cons_iff namedKey rest

theorem parseFunction_append {target : Bytes} (rooted : slash ∈ target)
    (noQuestion : question ∉ target) (query : Bytes) :
    parseFunction (target ++ question :: query) =
      { name := target, params := parseParams query } := by
  have inTarget : slash ∈ target ++ question :: query := mem_append_left _ rooted
  obtain ⟨_, found⟩ := splitOn_eq_takeWhile_cons query question
  rw [parseFunction, if_pos inTarget, split_append_cons, splitOn_eq_singleton noQuestion,
    found]
  simp only [singleton_append, HttpFunction.mk.injEq, true_and, parseParams]
  cases query.takeWhile (· != question) with
  | nil | cons => rfl

/-- A target is read back exactly if neither the separators nor the decoding touch its parameters.
-/
theorem parseFunction_buildTarget_iff {target : Bytes}
    {params : List (Bytes × Bytes)} (rooted : slash ∈ target)
    (noQuestion : question ∉ target) (named : ∀ entry ∈ params, entry.1 ≠ []) :
    parseFunction (buildTarget target params) = { name := target, params := params } ↔
      ∀ entry ∈ params, Survives entry := by
  rw [← parseParams_buildParams_iff named]
  cases params with
  | nil =>
    have nonempty : target ≠ [] := ne_nil_of_mem rooted
    rw [buildTarget, buildParams, append_nil, parseFunction, if_pos rooted,
      split_of_not_mem nonempty noQuestion]
    exact ⟨fun _ => rfl, fun _ => rfl⟩
  | cons =>
    rw [buildTarget, buildParams, if_pos rfl, parseFunction_append rooted noQuestion,
      HttpFunction.mk.injEq]
    exact ⟨fun same => same.2, fun same => ⟨rfl, same⟩⟩

theorem parseFunction_buildTarget_two_params :
    parseFunction (buildTarget (ascii "/fans") [(ascii "unit", ascii "100%"), (ascii "x+y", [])]) =
      { name := ascii "/fans", params := [(ascii "unit", ascii "100%"), (ascii "x+y", [])] } :=
  (parseFunction_buildTarget_iff (by decide) (by decide) (by decide)).mpr (by decide)

theorem parseFunction_buildTarget_altered :
    parseFunction (buildTarget (ascii "/fans") [(ascii "q", ascii "a+b&c=d")]) =
      { name := ascii "/fans", params := [(ascii "q", ascii "a b"), (ascii "c", ascii "d")] } := by
  decide +kernel

end Coroserver.Http
