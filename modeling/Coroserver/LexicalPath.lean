import Coroserver.Bytes
import Mathlib.Data.List.DropRight

/-! Paths as byte strings, without a file system behind them: their names, what is
left of `.` and `..`, and when one path lies inside another. A text that never
climbs above where it begins stays inside whatever it is appended to. -/

namespace Coroserver.LexicalPath

open List

def slash : UInt8 := '/'.toUInt8
def dot : Bytes := ['.'.toUInt8]
def dotDot : Bytes := ['.'.toUInt8, '.'.toUInt8]

def names (path : Bytes) : List Bytes :=
  (path.splitOn slash).filter fun name => name != [] && name != dot

def isAbsolute (path : Bytes) : Bool := path.head? == some slash

/-- Follow one name from a directory, given by its names from the inside out. -/
def enter (absolute : Bool) (directory : List Bytes) (name : Bytes) :
    List Bytes :=
  if name = dotDot then
    match directory with
    | [] => if absolute then [] else [dotDot]
    | last :: outer => if last = dotDot then dotDot :: directory else outer
  else name :: directory

def lexicallyNormal (path : Bytes) : List Bytes :=
  (names path).foldl (enter (isAbsolute path)) []

def Inside (root path : Bytes) : Prop :=
  isAbsolute path = isAbsolute root ∧
    ∃ below, lexicallyNormal path = below ++ lexicallyNormal root ∧ dotDot ∉ below

variable {path : Bytes} {depth : Nat}

theorem Inside.lexicallyNormal_suffix {root : Bytes} (inside : Inside root path) :
    lexicallyNormal root <:+ lexicallyNormal path := by
  obtain ⟨-, below, shape, -⟩ := inside
  exact ⟨below, shape.symm⟩

/-- The path without what follows its last slash and without the slashes before
it; the root directory keeps its slash. -/
def parentPath (path : Bytes) : Bytes :=
  let directory := path.rdropWhile (· != slash)
  let trimmed := directory.rdropWhile (· == slash)
  if trimmed.isEmpty then directory.take 1 else trimmed

theorem names_append_cons (left right : Bytes) :
    names (left ++ slash :: right) = names left ++ names right := by
  rw [names, splitOn_append_cons_self, filter_append]
  rfl

theorem names_cons (path : Bytes) : names (slash :: path) = names path :=
  names_append_cons [] path

theorem names_concat (path : Bytes) : names (path ++ [slash]) = names path := by
  rw [names_append_cons]
  exact append_nil _

def Joins (base text : Bytes) : Prop :=
  base.getLast? = some slash ∨ text.head? = some slash
deriving Decidable

theorem Joins.names_append {base text : Bytes} (joins : Joins base text) :
    names (base ++ text) = names base ++ names text := by
  obtain ends | begins := joins
  · obtain ⟨rest, rfl⟩ := getLast?_eq_some_iff.mp ends
    rw [append_assoc, singleton_append, names_append_cons, names_concat]
  · obtain ⟨rest, rfl⟩ := head?_eq_some_iff.mp begins
    rw [names_append_cons, names_cons]

theorem names_rdropWhile_slash (path : Bytes) :
    names (path.rdropWhile (· == slash)) = names path := by
  induction path using List.reverseRecOn with
  | nil => rfl
  | append_singleton rest c ih =>
    by_cases isSlash : c = slash
    · rw [rdropWhile_concat_pos _ _ _ (by simp [isSlash]), ih, isSlash, names_concat]
    · rw [rdropWhile_concat_neg _ _ _ (by simpa using isSlash)]

/-- Following the names never leaves the directory that the walk began in, with
`depth` names entered already. -/
def stays : Nat → List Bytes → Bool
  | _, [] => true
  | depth, name :: rest =>
    if name = dotDot then
      match depth with
      | 0 => false
      | depth + 1 => stays depth rest
    else stays (depth + 1) rest

@[simp] theorem stays_dotDot_zero (rest : List Bytes) :
    stays 0 (dotDot :: rest) = false := by
  simp [stays]

@[simp] theorem stays_dotDot_succ (depth : Nat) (rest : List Bytes) :
    stays (depth + 1) (dotDot :: rest) = stays depth rest := by
  simp [stays]

@[simp] theorem stays_name {name : Bytes} (enters : name ≠ dotDot) (depth : Nat)
    (rest : List Bytes) : stays depth (name :: rest) = stays (depth + 1) rest := by
  rw [stays.eq_def]
  simp [if_neg enters]

private theorem stays_succ {walk : List Bytes} (within : stays depth walk = true) :
    stays (depth + 1) walk = true := by
  fun_induction stays depth walk with
  | case1 => rfl
  | case2 => cases within
  | case3 _ _ ih => simpa using ih within
  | case4 _ _ _ enters ih => simpa [enters] using ih within

theorem stays_append {first second : List Bytes} (firstWithin : stays depth first = true)
    (secondWithin : stays 0 second = true) : stays depth (first ++ second) = true := by
  fun_induction stays depth first with
  | case1 depth =>
    induction depth with
    | zero => exact secondWithin
    | succ depth ih => exact stays_succ ih
  | case2 => cases firstWithin
  | case3 _ _ ih => simpa using ih firstWithin
  | case4 _ _ _ enters ih => simpa [enters] using ih firstWithin

theorem stays_of_append {first second : List Bytes}
    (within : stays depth (first ++ second) = true) : stays depth first = true := by
  fun_induction stays depth first with
  | case1 => rfl
  | case2 => simp at within
  | case3 _ _ ih => exact ih (by simpa using within)
  | case4 _ _ _ enters ih => exact ih (by simpa [enters] using within)

theorem foldl_enter_of_stays {absolute : Bool} {walk below directory : List Bytes}
    (within : stays below.length walk = true) (entered : dotDot ∉ below) :
    ∃ reached, walk.foldl (enter absolute) (below ++ directory) = reached ++ directory ∧
      dotDot ∉ reached := by
  induction walk generalizing below with
  | nil => exact ⟨below, rfl, entered⟩
  | cons name rest ih =>
    rw [foldl_cons]
    by_cases climbs : name = dotDot
    · subst climbs
      cases below with
      | nil => simp at within
      | cons last outer =>
        obtain ⟨notUp, others⟩ := not_or.mp (mem_cons.not.mp entered)
        have outside : enter absolute (last :: outer ++ directory) dotDot = outer ++ directory := by
          simp [enter, Ne.symm notUp]
        rw [length_cons, stays_dotDot_succ] at within
        rw [outside]
        exact ih within others
    · have inner : enter absolute (below ++ directory) name = (name :: below) ++ directory := by
        simp [enter, climbs]
      rw [stays_name climbs] at within
      rw [inner]
      refine ih within ?_
      exact fun member => (mem_cons.mp member).elim (fun same => climbs same.symm) entered

/-- The path goes on from the root without climbing above it. -/
structure Below (root path : Bytes) : Prop where
  rooted : path.head? = root.head?
  within : ∃ walk, names path = names root ++ walk ∧ stays 0 walk = true

structure Confined (base text : Bytes) : Prop where
  joins : Joins base text
  within : stays 0 (names text) = true

instance (base text : Bytes) : Decidable (Confined base text) :=
  decidable_of_iff (Joins base text ∧ stays 0 (names text) = true)
    ⟨fun both => ⟨both.1, both.2⟩, fun confined => ⟨confined.joins, confined.within⟩⟩

theorem Below.refl (root : Bytes) : Below root root := ⟨rfl, [], by simp, rfl⟩

theorem Below.inside {root : Bytes} (below : Below root path) : Inside root path := by
  obtain ⟨rooted, walk, shape, within⟩ := below
  have absolute : isAbsolute path = isAbsolute root := by rw [isAbsolute, isAbsolute, rooted]
  refine ⟨absolute, ?_⟩
  rw [lexicallyNormal, shape, foldl_append, absolute]
  exact @foldl_enter_of_stays _ _ [] _ within not_mem_nil

variable {root base text : Bytes}

theorem Below.append (below : Below root base) (nonempty : root ≠ [])
    (confined : Confined base text) : Below root (base ++ text) := by
  obtain ⟨rooted, walk, shape, within⟩ := below
  refine ⟨?_, walk ++ names text, ?_, stays_append within confined.within⟩
  · cases base with
    | nil =>
      cases root with
      | nil => exact absurd rfl nonempty
      | cons => cases rooted
    | cons => exact rooted
  · rw [confined.joins.names_append, shape, append_assoc]

def directoryPart (path : Bytes) : Bytes := path.rdropWhile (· != slash)

theorem head?_of_isPrefix {first whole : Bytes} (nonempty : first ≠ [])
    (starts : first <+: whole) : first.head? = whole.head? := by
  obtain ⟨rest, rfl⟩ := starts
  exact (head?_append_of_ne_nil _ nonempty).symm

theorem names_parentPath (path : Bytes) :
    names (parentPath path) = names (directoryPart path) := by
  have trimmed := names_rdropWhile_slash (directoryPart path)
  rw [parentPath]
  split
  · rename_i empty
    have allSlashes : ∀ c ∈ directoryPart path, (c == slash) = true :=
      rdropWhile_eq_nil_iff.mp (List.isEmpty_iff.mp empty)
    rw [← trimmed, rdropWhile_eq_nil_iff.mpr allSlashes]
    cases shape : directoryPart path with
    | nil => exact congrArg (fun part => names (part.take 1)) shape
    | cons c =>
      have isSlash : c = slash := by simpa using allSlashes c (by simp [shape])
      subst isSlash
      exact congrArg (fun part => names (part.take 1)) shape
  · exact trimmed

theorem head?_parentPath (path : Bytes) :
    (parentPath path).head? = (directoryPart path).head? := by
  rw [parentPath]
  split
  · exact head?_take.trans (if_neg (by decide))
  · rename_i nonempty
    exact head?_of_isPrefix (by simpa using nonempty) <| rdropWhile_prefix _ _

theorem getLast?_directoryPart (nonempty : directoryPart path ≠ []) :
    (directoryPart path).getLast? = some slash := by
  rw [getLast?_eq_some_getLast nonempty]
  have last : ¬ ((directoryPart path).getLast nonempty != slash) = true :=
    rdropWhile_last_not _ path nonempty
  simpa using last

theorem directoryPart_append (base text : Bytes) : directoryPart (base ++ text) =
    if slash ∈ text then base ++ directoryPart text else directoryPart base := by
  have found : (text.reverse.dropWhile (· != slash)).isEmpty = true ↔ slash ∉ text := by
    rw [List.isEmpty_iff, List.dropWhile_eq_nil_iff]
    simp only [List.mem_reverse, bne_iff_ne]
    exact ⟨fun others member => others slash member rfl, fun absent c member same =>
      absent (same ▸ member)⟩
  rw [directoryPart, List.rdropWhile, reverse_append, dropWhile_append]
  by_cases member : slash ∈ text
  · rw [if_neg (fun empty => found.mp empty member), if_pos member, reverse_append,
      reverse_reverse]
    rfl
  · rw [if_pos (found.mpr member), if_neg member]
    rfl

theorem Confined.directoryPart_append (confined : Confined base text) :
    ∃ inner, directoryPart (base ++ text) = base ++ inner ∧ (inner = [] ∨ Confined base inner) := by
  obtain ⟨joins, within⟩ := confined
  rw [LexicalPath.directoryPart_append]
  by_cases member : slash ∈ text
  · rw [if_pos member]
    have nonempty : directoryPart text ≠ [] := by
      intro empty
      simpa using rdropWhile_eq_nil_iff.mp empty slash member
    have shape : directoryPart text ++ text.rtakeWhile (· != slash) = text :=
      rdropWhile_append_rtakeWhile
    refine ⟨directoryPart text, rfl, .inr ⟨?_, ?_⟩⟩
    · refine joins.imp_right fun begins => ?_
      exact (head?_of_isPrefix nonempty <| rdropWhile_prefix _ text).trans begins
    · have ends : Joins (directoryPart text) (text.rtakeWhile (· != slash)) :=
        .inl (getLast?_directoryPart nonempty)
      rw [← shape] at within
      exact stays_of_append (ends.names_append ▸ within)
  · rw [if_neg member]
    obtain ends | begins := joins
    · refine ⟨[], ?_, .inl rfl⟩
      obtain ⟨rest, rfl⟩ := getLast?_eq_some_iff.mp ends
      rw [append_nil]
      exact rdropWhile_concat_neg _ _ _ (by simp)
    · exact absurd (mem_of_mem_head? begins) member

theorem Below.parentPath (below : Below root base) (nonempty : root ≠ [])
    (confined : Confined base text) : Below root (parentPath (base ++ text)) := by
  obtain ⟨inner, shape, stay⟩ := confined.directoryPart_append
  have directory : Below root (directoryPart (base ++ text)) := by
    rw [shape]
    obtain rfl | confinedInner := stay
    · rwa [append_nil]
    · exact below.append nonempty confinedInner
  exact ⟨(head?_parentPath _).trans directory.rooted,
    (names_parentPath (base ++ text)).symm ▸ directory.within⟩

end Coroserver.LexicalPath
