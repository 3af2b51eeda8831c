import Mathlib.Algebra.BigOperators.Ring.Nat

/-! A map whose entries are listed in the order of their keys, with one entry for
each key. Two maps with the same entries are then the same list, in whatever
order the entries were assigned. -/

namespace Coroserver.OrderedMap

open List

variable {Key Value : Type} [LT Key] [DecidableLT Key]

def assign (map : List (Key × Value)) (key : Key) (value : Value) : List (Key × Value) :=
  match map with
  | [] => [(key, value)]
  | entry :: rest =>
    if key < entry.1 then (key, value) :: entry :: rest
    else if entry.1 < key then entry :: assign rest key value
    else (key, value) :: rest

def assignAll (map writes : List (Key × Value)) : List (Key × Value) :=
  writes.foldl (fun map write => assign map write.1 write.2) map

def Ordered (map : List (Key × Value)) : Prop :=
  map.Pairwise fun before after => before.1 < after.1

variable {entry : Key × Value}

theorem eq_or_mem_of_mem_assign {map : List (Key × Value)} {key : Key} {value : Value}
    (member : entry ∈ assign map key value) : entry = (key, value) ∨ entry ∈ map := by
  induction map with
  | nil => exact .inl (mem_singleton.mp member)
  | cons first rest ih =>
    rw [assign] at member
    split at member
    · exact mem_cons.mp member
    · split at member
      · rcases mem_cons.mp member with rfl | later
        · exact .inr mem_cons_self
        · exact (ih later).imp_right (mem_cons_of_mem first)
      · exact (mem_cons.mp member).imp_right (mem_cons_of_mem first)

theorem mem_or_mem_of_mem_assignAll {map writes : List (Key × Value)}
    (member : entry ∈ assignAll map writes) : entry ∈ map ∨ entry ∈ writes := by
  induction writes generalizing map with
  | nil => exact .inl member
  | cons _ _ ih =>
    rcases ih member with inMap | later
    · rcases eq_or_mem_of_mem_assign inMap with rfl | before
      · exact .inr mem_cons_self
      · exact .inl before
    · exact .inr (mem_cons_of_mem _ later)

theorem mem_assign_self (map : List (Key × Value)) (key : Key) (value : Value) :
    (key, value) ∈ assign map key value := by
  induction map with
  | nil => exact mem_singleton_self _
  | cons _ _ ih =>
    rw [assign]
    split
    · exact mem_cons_self
    · split
      · exact mem_cons_of_mem _ ih
      · exact mem_cons_self

section

variable [LE Key] [Std.IsLinearOrder Key] [Std.LawfulOrderLT Key]

variable {map writes : List (Key × Value)}

variable {key : Key} {entry : Key × Value}

theorem mem_assign_of_ne (member : entry ∈ map) (different : entry.1 ≠ key) (value : Value) :
    entry ∈ assign map key value := by
  induction map with
  | nil => cases member
  | cons first rest ih =>
    rw [assign]
    split
    · exact mem_cons_of_mem _ member
    · rename_i notBefore
      split
      · rcases mem_cons.mp member with rfl | later
        · exact mem_cons_self
        · exact mem_cons_of_mem _ (ih later)
      · rename_i notAfter
        rcases mem_cons.mp member with rfl | later
        · rcases Std.lt_trichotomy entry.1 key with before | same | after
          · exact absurd before notAfter
          · exact absurd same different
          · exact absurd after notBefore
        · exact mem_cons_of_mem _ later

theorem Ordered.assign (ordered : Ordered map) (key : Key) (value : Value) :
    Ordered (assign map key value) := by
  induction map with
  | nil => exact pairwise_singleton _ _
  | cons first rest ih =>
    obtain ⟨below, others⟩ := pairwise_cons.mp ordered
    rw [OrderedMap.assign]
    split
    · rename_i before
      refine pairwise_cons.mpr ⟨?_, ordered⟩
      intro later member
      rcases mem_cons.mp member with rfl | inRest
      · exact before
      · exact Std.lt_trans before (below later inRest)
    · rename_i notBefore
      split
      · rename_i after
        refine pairwise_cons.mpr ⟨?_, ih others⟩
        intro later member
        rcases eq_or_mem_of_mem_assign member with rfl | inRest
        · exact after
        · exact below later inRest
      · rename_i notAfter
        refine pairwise_cons.mpr ⟨?_, others⟩
        intro later inRest
        rcases Std.lt_trichotomy key first.1 with before | rfl | after
        · exact absurd before notBefore
        · exact below later inRest
        · exact absurd after notAfter

theorem Ordered.assignAll (ordered : Ordered map) (writes : List (Key × Value)) :
    Ordered (assignAll map writes) := by
  induction writes generalizing map with
  | nil => exact ordered
  | cons write rest ih => exact ih (ordered.assign write.1 write.2)

private theorem mem_assignAll_of_ne (member : entry ∈ map)
    (different : ∀ write ∈ writes, entry.1 ≠ write.1) : entry ∈ assignAll map writes := by
  induction writes generalizing map with
  | nil => exact member
  | cons write rest ih =>
    obtain ⟨first, others⟩ := forall_mem_cons.mp different
    exact ih (mem_assign_of_ne member first write.2) others

theorem mem_assignAll (distinct : (writes.map Prod.fst).Nodup) {write : Key × Value}
    (member : write ∈ writes) : write ∈ assignAll map writes := by
  induction writes generalizing map with
  | nil => cases member
  | cons first rest ih =>
    rw [map_cons, nodup_cons] at distinct
    rcases mem_cons.mp member with rfl | later
    · have different : ∀ other ∈ rest, write.1 ≠ other.1 := by
        intro other inRest same
        exact distinct.1 (same ▸ mem_map_of_mem inRest)
      have kept : write ∈ assignAll (assign map write.1 write.2) rest :=
        mem_assignAll_of_ne (mem_assign_self map write.1 write.2) different
      exact kept
    · exact ih distinct.2 later

omit [DecidableLT Key] [Std.IsLinearOrder Key] in
theorem Ordered.nodup_keys {map : List (Key × Value)} (ordered : Ordered map) :
    (map.map Prod.fst).Nodup := by
  refine pairwise_map.mpr (ordered.imp ?_)
  intro _ _ below equal
  rw [equal] at below
  exact Std.lt_irrefl below

omit [DecidableLT Key] [Std.IsLinearOrder Key] in
theorem Ordered.nodup {map : List (Key × Value)} (ordered : Ordered map) : map.Nodup :=
  List.Pairwise.of_map Prod.fst (fun _ _ differs same => differs (congrArg Prod.fst same))
    ordered.nodup_keys

theorem Ordered.assign_perm [DecidableEq Key] (ordered : Ordered map) (key : Key) (value : Value) :
    (OrderedMap.assign map key value).Perm
      ((key, value) :: map.filter fun entry => entry.1 ≠ key) := by
  induction map with
  | nil => exact .refl _
  | cons first rest ih =>
    obtain ⟨below, others⟩ := pairwise_cons.mp ordered
    have kept (notBelow : ¬first.1 < key) : rest.filter (fun entry => entry.1 ≠ key) = rest := by
      refine filter_eq_self.mpr fun entry member => decide_eq_true ?_
      rintro rfl
      exact notBelow (below entry member)
    rw [OrderedMap.assign, filter_cons]
    rcases Std.lt_trichotomy key first.1 with before | rfl | after
    · rw [if_pos before, if_pos (decide_eq_true (Std.ne_of_lt before).symm),
        kept (Std.not_gt_of_lt before)]
    · rw [if_neg Std.lt_irrefl, if_neg Std.lt_irrefl, if_neg (by simp), kept Std.lt_irrefl]
    · rw [if_neg (Std.not_gt_of_lt after), if_pos after,
        if_pos (decide_eq_true (Std.ne_of_lt after))]
      exact ((ih others).cons _).trans (.swap _ _ _)

/-- What is assigned weighs at least what is kept, and more unless every entry that
a later one replaces has no weight. -/
theorem sum_assignAll [DecidableEq Key] (ordered : Ordered map) (weight : Key × Value → Nat) :
    ((assignAll map writes).map weight).sum ≤ (map.map weight).sum + (writes.map weight).sum ∧
    (((assignAll map writes).map weight).sum = (map.map weight).sum + (writes.map weight).sum ↔
      (∀ entry ∈ map, ∀ write ∈ writes, entry.1 = write.1 → weight entry = 0) ∧
        writes.Pairwise fun earlier later => earlier.1 = later.1 → weight earlier = 0) := by
  induction writes generalizing map with
  | nil => simp [assignAll]
  | cons write rest ih =>
    obtain ⟨key, value⟩ := write
    obtain ⟨atMost, equal⟩ := ih (ordered.assign key value)
    have added := ordered.assign_perm key value
    have kept := (added.map weight).sum_nat
    have parts := ((filter_append_perm (fun entry => entry.1 ≠ key) map).map weight).sum_nat
    rw [map_append, sum_append_nat] at parts
    rw [map_cons, sum_cons] at kept ⊢
    have replaced : ((map.filter fun entry => !decide (entry.1 ≠ key)).map weight).sum = 0 ↔
        ∀ entry ∈ map, entry.1 = key → weight entry = 0 := by
      rw [List.sum_eq_zero_iff_forall_eq_nat, forall_mem_map]
      simp
    have both : ((assignAll (assign map key value) rest).map weight).sum =
        (map.map weight).sum + (weight (key, value) + (rest.map weight).sum) ↔ _ ∧ _ :=
      ⟨fun same => ⟨replaced.mp (by omega), equal.mp (by omega)⟩, fun ⟨unweighted, later⟩ => by
        rw [equal.mpr later]
        have nothing := replaced.mpr unweighted
        omega⟩
    refine ⟨Nat.le_trans atMost (by omega), both.trans ?_⟩
    simp only [added.mem_iff, mem_cons, mem_filter, pairwise_cons]
    grind

omit [DecidableLT Key] in
theorem Ordered.eq_of_perm {first second : List (Key × Value)} (ordered : Ordered first)
    (orderedSecond : Ordered second) (same : first.Perm second) : first = second := by
  refine same.eq_of_pairwise ?_ ordered orderedSecond
  intro _ _ _ _ below above
  exact absurd (Std.lt_trans below above) Std.lt_irrefl

variable [BEq Key] [LawfulBEq Key]

omit [DecidableLT Key] [Std.IsLinearOrder Key] in
theorem Ordered.lookup_eq_some_iff {map : List (Key × Value)} (ordered : Ordered map) {key : Key}
    {value : Value} : map.lookup key = some value ↔ (key, value) ∈ map := by
  rw [List.lookup_eq_some_iff]
  constructor
  · rintro ⟨_, _, rfl, -⟩
    simp
  · intro member
    obtain ⟨before, after, rfl⟩ := append_of_mem member
    refine ⟨before, after, rfl, ?_⟩
    intro entry earlier
    have below := (pairwise_append.mp ordered).2.2 entry earlier _ mem_cons_self
    rw [bne_iff_ne]
    rintro rfl
    exact Std.lt_irrefl below

omit [Std.IsLinearOrder Key] in
theorem lookup_assign_self (map : List (Key × Value)) (key : Key) (value : Value) :
    (assign map key value).lookup key = some value := by
  induction map with
  | nil => simp [assign]
  | cons first rest ih =>
    rw [assign]
    split
    · simp
    · split
      · rename_i before
        have differs : key ≠ first.1 := by
          rintro rfl
          exact Std.lt_irrefl before
        rw [lookup_cons, beq_eq_false_iff_ne.mpr differs]
        exact ih
      · simp

theorem Ordered.lookup_assign [DecidableEq Key] (ordered : Ordered map) (key : Key) (value : Value)
    (other : Key) :
    (OrderedMap.assign map key value).lookup other =
      if other = key then some value else map.lookup other := by
  have orderedAfter := ordered.assign key value
  split
  · rename_i same
    rw [same]
    exact lookup_assign_self map key value
  · rename_i differs
    refine Option.ext fun found => ?_
    rw [orderedAfter.lookup_eq_some_iff, ordered.lookup_eq_some_iff]
    constructor
    · intro member
      rcases eq_or_mem_of_mem_assign member with written | kept
      · exact absurd (congrArg Prod.fst written) differs
      · exact kept
    · intro member
      exact mem_assign_of_ne member differs value

omit [DecidableLT Key] in
theorem Ordered.ext_lookup {first second : List (Key × Value)} (ordered : Ordered first)
    (orderedSecond : Ordered second) (same : ∀ key, first.lookup key = second.lookup key) :
    first = second := by
  refine ordered.eq_of_perm orderedSecond
    ((perm_ext_iff_of_nodup ordered.nodup orderedSecond.nodup).mpr ?_)
  rintro ⟨key, value⟩
  rw [← ordered.lookup_eq_some_iff, ← orderedSecond.lookup_eq_some_iff, same key]

end

end Coroserver.OrderedMap
