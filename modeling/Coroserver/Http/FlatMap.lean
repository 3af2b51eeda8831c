import Mathlib.Data.List.Induction

/-! `flat_map` is a vector of entries that is searched from its front, for reading and
writing, by comparing a stored key with the one that is looked for, in this order.
Here the comparison is any reflexive and transitive relation: several keys may share
one entry, which holds what was written last under any of them. -/

namespace Coroserver.Http.FlatMap

open List Option

variable {Key Value : Type} (equal : Key → Key → Bool)

def find (map : List (Key × Value)) (key : Key) : Option (Key × Value) :=
  map.find? fun entry => equal entry.1 key

def assign (map : List (Key × Value)) (key : Key) (value : Value) : List (Key × Value) :=
  match map with
  | [] => [(key, value)]
  | entry :: rest =>
    if equal entry.1 key then (entry.1, value) :: rest else entry :: assign rest key value

def assignAll (map writes : List (Key × Value)) : List (Key × Value) :=
  writes.foldl (fun map write => assign equal map write.1 write.2) map

def owner (writes : List (Key × Value)) (key : Key) : Option Key :=
  (writes.map Prod.fst).find? fun written => equal written key

def latest [DecidableEq Key] (writes : List (Key × Value)) (key : Key) : Option Value :=
  (writes.reverse.find? fun write => owner equal writes write.1 = some key).map Prod.snd

variable {equal}

/-- No key is equal to one that is stored after it. -/
def Separate (equal : Key → Key → Bool) (map : List (Key × Value)) : Prop :=
  map.Pairwise fun before after => equal before.1 after.1 = false

variable {map writes : List (Key × Value)} {key first : Key} {write : Key × Value}

theorem assign_of_find_eq_none (absent : find equal map key = none) (value : Value) :
    assign equal map key value = map ++ [(key, value)] := by
  induction map with
  | nil => rfl
  | cons entry rest ih =>
    simp only [find, find?_cons] at absent
    cases same : equal entry.1 key with
    | true => simp [same] at absent
    | false =>
      simp only [same] at absent
      simp [assign, same, Bool.false_eq_true, ih absent]

private theorem fst_of_mem_assign {value : Value} {entry : Key × Value}
    (member : entry ∈ assign equal map key value) :
    entry.1 = key ∨ ∃ stored ∈ map, entry.1 = stored.1 := by
  induction map with
  | nil =>
    simp only [assign, mem_singleton] at member
    exact .inl (congrArg Prod.fst member)
  | cons first rest ih =>
    rw [assign] at member
    split at member
    · rcases mem_cons.mp member with rfl | later
      · exact .inr ⟨first, mem_cons_self, rfl⟩
      · exact .inr ⟨entry, mem_cons_of_mem _ later, rfl⟩
    · rcases mem_cons.mp member with rfl | later
      · exact .inr ⟨_, mem_cons_self, rfl⟩
      · rcases ih later with same | ⟨stored, inRest, same⟩
        · exact .inl same
        · exact .inr ⟨stored, mem_cons_of_mem _ inRest, same⟩

theorem Separate.assign (separate : Separate equal map) (key : Key) (value : Value) :
    Separate equal (assign equal map key value) := by
  induction map with
  | nil => exact pairwise_singleton _ _
  | cons entry rest ih =>
    obtain ⟨different, others⟩ := pairwise_cons.mp separate
    rw [FlatMap.assign]
    split
    · exact pairwise_cons.mpr ⟨different, others⟩
    · rename_i unequal
      refine pairwise_cons.mpr ⟨?_, ih others⟩
      intro later member
      rcases fst_of_mem_assign member with same | ⟨stored, inRest, same⟩
      · simpa [same] using unequal
      · rw [same]
        exact different stored inRest

theorem Separate.assignAll (writes : List (Key × Value)) (separate : Separate equal map) :
    Separate equal (assignAll equal map writes) := by
  induction writes generalizing map with
  | nil => exact separate
  | cons write rest ih => exact ih (separate.assign write.1 write.2)

/-- What is asked of the comparison: it need not be symmetric. -/
structure Preordered (equal : Key → Key → Bool) : Prop where
  refl : ∀ key, equal key key = true
  trans : ∀ first second third, equal first second = true → equal second third = true →
    equal first third = true

theorem owner_append (writes : List (Key × Value)) (write : Key × Value) (key : Key) :
    owner equal (writes ++ [write]) key =
      (owner equal writes key).or (if equal write.1 key then some write.1 else none) := by
  simp only [owner, map_append, find?_append, map_cons, map_nil]
  congr 1
  cases same : equal write.1 key <;> simp [same]

theorem owner_append_of_isSome (owned : (owner equal writes key).isSome = true)
    (write : Key × Value) : owner equal (writes ++ [write]) key = owner equal writes key := by
  obtain ⟨first, found⟩ := isSome_iff_exists.mp owned
  rw [owner_append, found, some_or]

theorem find_assign [DecidableEq Key] (reflexive : ∀ key, equal key key = true)
    (separate : Separate equal map) {found : Key × Value}
    (present : find equal map key = some found) (value : Value) (other : Key) :
    find equal (assign equal map key value) other =
      (find equal map other).map fun entry =>
        if entry.1 = found.1 then (found.1, value) else entry := by
  induction map with
  | nil => cases present
  | cons entry rest ih =>
    obtain ⟨different, others⟩ := pairwise_cons.mp separate
    have distinct : ∀ later ∈ rest, later.1 ≠ entry.1 := by
      intro later member same
      have unequal := different later member
      rw [same, reflexive] at unequal
      cases unequal
    simp only [find, find?_cons, assign] at present ⊢
    cases same : equal entry.1 key with
    | true =>
      simp only [same, some.injEq] at present
      subst present
      cases read : equal entry.1 other with
      | true => simp [read]
      | false =>
        simp only [if_true, find?_cons, read]
        cases result : rest.find? fun entry => equal entry.1 other with
        | none => rfl
        | some later =>
          have member := mem_of_find?_eq_some result
          simp [distinct later member]
    | false =>
      simp only [same] at present
      have member := mem_of_find?_eq_some present
      simp only [Bool.false_eq_true, if_false, find?_cons]
      cases read : equal entry.1 other with
      | true => simp [(distinct found member).symm]
      | false => exact ih others present

private theorem pairwise_iff_forall_append {α : Type} {relation : α → α → Prop}
    (entries : List α) : entries.Pairwise relation ↔
      ∀ before entry after, entries = before ++ entry :: after →
        ∀ later ∈ after, relation entry later := by
  constructor
  · rintro pairwise _ _ _ rfl
    exact (pairwise_cons.mp (pairwise_append.mp pairwise).2.1).1
  · intro related
    induction entries with
    | nil => exact .nil
    | cons first rest ih =>
      refine .cons (related [] first rest rfl) (ih ?_)
      rintro before entry after rfl
      exact related (first :: before) entry after rfl

variable (preordered : Preordered equal)

include preordered

theorem owner_isSome (member : write ∈ writes) : (owner equal writes write.1).isSome = true := by
  rw [owner, find?_isSome]
  exact ⟨write.1, mem_map_of_mem member, preordered.refl write.1⟩

theorem owner_append_of_owned (owned : owner equal writes write.1 = some first) (key : Key) :
    owner equal (writes ++ [write]) key = owner equal writes key := by
  rw [owner_append]
  cases found : owner equal writes key with
  | some => exact some_or
  | none =>
    have unequal := find?_eq_none.mp found first (mem_of_find?_eq_some owned)
    have shared : equal first write.1 = true := by simpa using find?_some owned
    cases same : equal write.1 key with
    | false => rfl
    | true => exact absurd (preordered.trans _ _ _ shared same) unequal

theorem owner_owner (owned : owner equal writes key = some first) :
    owner equal writes first = some first := by
  obtain ⟨same, before, after, keys, earlier⟩ := find?_eq_some_iff_append.mp owned
  refine find?_eq_some_iff_append.mpr ⟨preordered.refl first, before, after, keys, ?_⟩
  intro written member
  have unequal := earlier written member
  cases equalFirst : equal written first with
  | false => rfl
  | true => simp [preordered.trans written first key equalFirst same] at unequal

variable [DecidableEq Key]

theorem latest_append (writes : List (Key × Value)) (write : Key × Value) (first : Key) :
    latest equal (writes ++ [write]) first =
      if owner equal (writes ++ [write]) write.1 = some first then some write.2
      else latest equal writes first := by
  have kept : ∀ earlier ∈ writes.reverse, (owner equal (writes ++ [write]) earlier.1 = some first) =
        (owner equal writes earlier.1 = some first) := by
    intro earlier member
    rw [owner_append_of_isSome (owner_isSome preordered (mem_reverse.mp member))]
  rw [latest, latest, reverse_append, reverse_singleton, singleton_append,
    find?_cons]
  by_cases same : owner equal (writes ++ [write]) write.1 = some first
  · simp [same]
  · simp only [same, decide_false, if_false]
    rw [← head?_filter, ← head?_filter]
    congr 2
    refine filter_congr ?_
    intro earlier member
    simp [kept earlier member]

theorem exists_latest (owned : owner equal writes key = some first) :
    ∃ value, latest equal writes first = some value := by
  obtain ⟨write, member, rfl⟩ := mem_map.mp (mem_of_find?_eq_some owned)
  have found : (writes.reverse.find? fun other =>
      owner equal writes other.1 = some write.1).isSome = true := by
    rw [find?_isSome]
    exact ⟨write, mem_reverse.mpr member, by simp [owner_owner preordered owned]⟩
  obtain ⟨result, selected⟩ := isSome_iff_exists.mp found
  exact ⟨result.2, by rw [latest, selected, map_some]⟩

private theorem find_assignAll (writes : List (Key × Value)) (key : Key) :
    find equal (assignAll equal [] writes) key =
      (owner equal writes key).bind fun first =>
        (latest equal writes first).map fun value => (first, value) := by
  induction writes using List.reverseRecOn generalizing key with
  | nil => rfl
  | append_singleton writes write ih =>
    have stored : assignAll equal [] (writes ++ [write]) =
        assign equal (assignAll equal [] writes) write.1 write.2 := by
      rw [assignAll, foldl_append]
      rfl
    rw [stored]
    cases owned : owner equal writes write.1 with
    | none =>
      have absent : find equal (assignAll equal [] writes) write.1 = none := by
        rw [ih, owned, bind_none]
      have own : owner equal (writes ++ [write]) write.1 = some write.1 := by
        simp [owner_append, owned, preordered.refl]
      rw [assign_of_find_eq_none absent, find, find?_append, ← find, ih]
      cases found : owner equal writes key with
      | some first =>
        obtain ⟨value, last⟩ := exists_latest preordered found
        have different : write.1 ≠ first := by
          rintro rfl
          rw [owner_owner preordered found] at owned
          cases owned
        rw [owner_append, found, some_or, bind_some, bind_some,
          latest_append preordered, own, if_neg (by simpa using different), last]
        rfl
      | none =>
        rw [owner_append, found]
        cases same : equal write.1 key with
        | true => simp [same, latest_append preordered, own]
        | false => simp [same]
    | some first =>
      obtain ⟨value, last⟩ := exists_latest preordered owned
      have present : find equal (assignAll equal [] writes) write.1 = some (first, value) := by
        rw [ih, owned, bind_some, last, map_some]
      have separate : Separate equal (assignAll equal [] writes) :=
        Separate.assignAll writes List.Pairwise.nil
      rw [find_assign preordered.refl separate present, ih, owner_append_of_owned preordered owned]
      cases found : owner equal writes key with
      | none => rfl
      | some other =>
        obtain ⟨_, lastOther⟩ := exists_latest preordered found
        rw [bind_some, bind_some, lastOther, latest_append preordered,
          owner_append_of_owned preordered owned, owned]
        by_cases same : first = other
        · simp [same]
        · simp [same, lastOther, Ne.symm same]

private theorem find_assignAll_eq_iff {before after : List (Key × Value)}
    (position : writes = before ++ write :: after) (distinct : (writes.map Prod.snd).Nodup) :
    (find equal (assignAll equal [] writes) write.1).map Prod.snd = some write.2 ↔
      ∀ later ∈ after, owner equal writes write.1 ≠ owner equal writes later.1 := by
  have member : write ∈ writes := by simp [position]
  obtain ⟨first, owned⟩ := isSome_iff_exists.mp (owner_isSome preordered member)
  have reversed : writes.reverse = after.reverse ++ write :: before.reverse := by
    simp [position]
  have others : ∀ later ∈ after, later.2 ≠ write.2 := by
    intro later inAfter same
    rw [position, map_append, map_cons] at distinct
    have fresh := (nodup_cons.mp (nodup_append.mp distinct).2.1).1
    exact fresh (same ▸ mem_map_of_mem inAfter)
  obtain ⟨value, last⟩ := exists_latest preordered owned
  rw [find_assignAll preordered, owned, bind_some, last]
  rw [latest, reversed, find?_append, find?_cons, owned] at last
  cases overwritten : after.reverse.find? fun other =>
      owner equal writes other.1 = some first with
  | some later =>
    have inAfter := mem_reverse.mp (mem_of_find?_eq_some overwritten)
    have shared : owner equal writes later.1 = some first := by
      simpa using find?_some overwritten
    simp only [overwritten, some_or, map_some, some.injEq] at last
    subst last
    constructor
    · intro same
      exact absurd (some.inj same) (others later inAfter)
    · intro separate
      exact absurd shared.symm (separate later inAfter)
  | none =>
    simp only [overwritten, decide_true, none_or, map_some, some.injEq] at last
    subst last
    refine ⟨fun _ => ?_, fun _ => rfl⟩
    intro later inAfter shared
    have unowned := find?_eq_none.mp overwritten later (mem_reverse.mpr inAfter)
    exact unowned (by simp [← shared])

theorem forall_find_iff (distinct : (writes.map Prod.snd).Nodup) (looked : Key → Prop) :
    (∀ write ∈ writes, looked write.1 →
      (find equal (assignAll equal [] writes) write.1).map Prod.snd = some write.2) ↔
    writes.Pairwise fun earlier later => looked earlier.1 →
      owner equal writes earlier.1 ≠ owner equal writes later.1 := by
  rw [pairwise_iff_forall_append]
  constructor
  · intro reads _ write _ position later inAfter isLooked
    have member : write ∈ writes := by simp [position]
    exact (find_assignAll_eq_iff preordered position distinct).mp (reads write member isLooked)
      later inAfter
  · intro separate write member isLooked
    obtain ⟨before, after, position⟩ := append_of_mem member
    refine (find_assignAll_eq_iff preordered position distinct).mpr ?_
    intro later inAfter
    exact separate before write after position later inAfter isLooked

end Coroserver.Http.FlatMap
