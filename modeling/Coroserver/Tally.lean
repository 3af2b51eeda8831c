import Mathlib.Data.List.AList

/-! Lists serve as tables indexed by position, association lists as tables indexed
by key. The laws here say how a count or a sum over a table changes when one
entry is replaced. -/

namespace Coroserver.Tally

open List

section Positions

variable {α : Type} {table : List α} {index : Nat} {old : α} (p : α → Bool)

theorem countP_set (present : table[index]? = some old) (new : α) :
    (table.set index new).countP p + (p old).toNat = table.countP p + (p new).toNat := by
  induction table generalizing index with
  | nil => simp at present
  | cons first rest ih =>
    cases index with
    | zero =>
      simp only [getElem?_cons_zero, Option.some.injEq] at present
      subst present
      simp only [set_cons_zero, countP_cons]
      cases p first <;> cases p new <;> simp
    | succ =>
      simp only [getElem?_cons_succ] at present
      have moved := ih present
      simp only [set_cons_succ, countP_cons]
      omega

theorem countP_pos (present : table[index]? = some old) (holds : p old = true) :
    0 < table.countP p :=
  countP_pos_iff.mpr ⟨old, mem_of_getElem? present, holds⟩

theorem countP_add (new : α) : (table ++ [new]).countP p = table.countP p + (p new).toNat := by
  rw [countP_append, countP_singleton]
  cases p new <;> rfl

theorem countP_map_eq (f : α → α) (kept : ∀ entry, p (f entry) = p entry) :
    (table.map f).countP p = table.countP p := by
  rw [countP_map]
  apply countP_congr
  intro entry _
  simp [kept]

theorem filterMap_set_perm {β : Type} (f : α → Option β) (present : table[index]? = some old)
    (new : α) : ((table.set index new).filterMap f ++ (f old).toList).Perm
      (table.filterMap f ++ (f new).toList) := by
  obtain ⟨inRange, rfl⟩ := List.getElem?_eq_some_iff.mp present
  have split : table = table.take index ++ table[index] :: table.drop (index + 1) := by
    simp
  have selected (entry : α) (rest : List α) :
      (entry :: rest).filterMap f = (f entry).toList ++ rest.filterMap f := by
    rw [filterMap_cons]
    cases f entry <;> rfl
  rw [set_eq_take_append_cons_drop, if_pos inRange]
  nth_rewrite 4 [split]
  simp only [filterMap_append, selected, append_assoc]
  refine List.Perm.append_left _ ?_
  exact perm_append_comm.trans
    ((append_assoc _ _ _).symm ▸ perm_append_comm_assoc _ _ _)

/-- Two stores in a row: what arrives goes into the first, and what leaves it
goes into the second. -/
theorem perm_append_move {total first second arrived next left : List α}
    (before : total.Perm (first ++ second)) (moved : (first ++ arrived).Perm (next ++ left)) :
    (total ++ arrived).Perm (next ++ (second ++ left)) := by
  calc (total ++ arrived).Perm (first ++ second ++ arrived) := before.append_right arrived
    _ = first ++ (second ++ arrived) := append_assoc _ _ _
    List.Perm _ (first ++ (arrived ++ second)) := perm_append_comm.append_left first
    _ = first ++ arrived ++ second := (append_assoc _ _ _).symm
    List.Perm _ (next ++ left ++ second) := moved.append_right second
    _ = next ++ (left ++ second) := append_assoc _ _ _
    List.Perm _ (next ++ (second ++ left)) := perm_append_comm.append_left next

theorem index_eq_of_countP_le_one {table : List α} (single : table.countP p ≤ 1)
    {left right : Nat} {first second : α} (atLeft : table[left]? = some first)
    (firstHolds : p first = true) (atRight : table[right]? = some second)
    (secondHolds : p second = true) : left = right := by
  induction table generalizing left right with
  | nil => simp at atLeft
  | cons entry rest ih =>
    rw [countP_cons] at single
    cases left with
    | zero =>
      cases right with
      | zero => rfl
      | succ =>
        obtain rfl : entry = first := by simpa using atLeft
        rw [getElem?_cons_succ] at atRight
        have later := countP_pos p atRight secondHolds
        simp only [firstHolds, if_true] at single
        omega
    | succ =>
      rw [getElem?_cons_succ] at atLeft
      have earlier := countP_pos p atLeft firstHolds
      cases right with
      | zero =>
        obtain rfl : entry = second := by simpa using atRight
        simp only [secondHolds, if_true] at single
        omega
      | succ =>
        rw [getElem?_cons_succ] at atRight
        exact congrArg Nat.succ (ih (by omega) atLeft atRight)

theorem countP_add_eq (q r : α → Bool) (table : List α)
    (split : ∀ entry, (p entry).toNat + (q entry).toNat = (r entry).toNat) :
    table.countP p + table.countP q = table.countP r := by
  induction table with
  | nil => rfl
  | cons entry =>
    have here := split entry
    simp only [countP_cons]
    revert here
    cases p entry <;> cases q entry <;> cases r entry <;> simp <;> omega

theorem countP_add_le (q r : α → Bool) (table : List α)
    (disjoint : ∀ entry, (p entry).toNat + (q entry).toNat ≤ (r entry).toNat) :
    table.countP p + table.countP q ≤ table.countP r := by
  induction table with
  | nil => exact Nat.le_refl 0
  | cons entry =>
    have here := disjoint entry
    simp only [countP_cons]
    revert here
    cases p entry <;> cases q entry <;> cases r entry <;> simp <;> omega

end Positions

section Keys

variable {κ β : Type} [DecidableEq κ]

def total (weight : β → Nat) (table : AList fun _ : κ => β) : Nat :=
  table.entries.foldr (fun entry sum => weight entry.2 + sum) 0

theorem foldr_kerase (weight : β → Nat) (key : κ) (entries : List (Sigma fun _ : κ => β)) :
    (entries.kerase key).foldr (fun entry sum => weight entry.2 + sum) 0 +
        ((entries.dlookup key).map weight).getD 0 =
      entries.foldr (fun entry sum => weight entry.2 + sum) 0 := by
  induction entries with
  | nil => simp
  | cons entry =>
    obtain ⟨entryKey, value⟩ := entry
    by_cases same : key = entryKey
    · subst same
      simp only [kerase_cons_eq, dlookup_cons_eq, Option.map_some, Option.getD_some,
        foldr_cons]
      omega
    · have differs : key ≠ (⟨entryKey, value⟩ : Sigma fun _ : κ => β).1 := same
      rw [kerase_cons_ne differs, dlookup_cons_ne _ _ differs]
      simp only [foldr_cons]
      omega

theorem total_insert (weight : β → Nat) (key : κ) (value : β) (table : AList fun _ : κ => β) :
    total weight (table.insert key value) + ((table.lookup key).map weight).getD 0 =
      total weight table + weight value := by
  have erased := foldr_kerase weight key table.entries
  simp only [total, AList.entries_insert, foldr_cons]
  simp only [AList.lookup]
  omega

theorem weight_le_total (weight : β → Nat) {key : κ} {value : β} {table : AList fun _ : κ => β}
    (found : table.lookup key = some value) : weight value ≤ total weight table := by
  have erased := foldr_kerase weight key table.entries
  rw [AList.lookup] at found
  rw [found] at erased
  simp only [Option.map_some, Option.getD_some] at erased
  simp only [total]
  omega

end Keys

end Coroserver.Tally
