import Coroserver.Event.Persistence
import Mathlib.Data.List.TakeWhile

/-! What `load` makes of the file that `store` has written. -/

namespace Coroserver.Event

open List

private theorem digit_bounds {c : Char} (digit : c.isDigit = true) :
    isspace c = false ∧ c ≠ '-' ∧ c ≠ '+' ∧ c ≠ ',' := by
  refine ⟨?_, ?_, ?_, ?_⟩
  · cases space : isspace c with
    | false => rfl
    | true =>
      simp only [isspace, contains_eq_mem, mem_cons, not_mem_nil, or_false,
        decide_eq_true_eq] at space
      rcases space with rfl | rfl | rfl | rfl | rfl | rfl <;> cases digit
  all_goals
    rintro rfl
    cases digit

theorem stoull_toString_nat (number : Nat) : stoull (toString number) =
    if number < UInt64.size then some (UInt64.ofNat number) else none := by
  have digits : ∀ c ∈ Nat.toDigits 10 number, c.isDigit = true :=
    fun c member => Nat.isDigit_of_mem_toDigits (by decide) (by decide) member
  have magnitude : stoull.magnitude (Nat.toDigits 10 number) =
      if number < UInt64.size then some (UInt64.ofNat number) else none := by
    have allDigits : (Nat.toDigits 10 number).takeWhile Char.isDigit =
        Nat.toDigits 10 number := takeWhile_eq_self_iff.mpr digits
    have nonempty : (Nat.toDigits 10 number).isEmpty = false := by
      simp [Nat.toDigits_ne_nil]
    simp [stoull.magnitude, allDigits, nonempty, Nat.ofDigitChars_ten_toDigits, Bool.false_eq_true]
  rw [stoull, Nat.toString_eq_ofList_toDigits, String.toList_ofList]
  obtain ⟨first, rest, cons⟩ := exists_cons_of_ne_nil
    (Nat.toDigits_ne_nil : Nat.toDigits 10 number ≠ [])
  obtain ⟨noSpace, noMinus, noPlus, _⟩ := digit_bounds (digits first (by simp [cons]))
  have kept : (Nat.toDigits 10 number).dropWhile isspace = Nat.toDigits 10 number := by
    rw [cons, dropWhile_cons_of_neg (by simp [noSpace])]
  rw [kept]
  split
  · rename_i tail minus
    exact absurd (List.cons.inj (cons.symm.trans minus)).1 noMinus
  · rename_i tail plus
    exact absurd (List.cons.inj (cons.symm.trans plus)).1 noPlus
  · exact magnitude

theorem stoull_toString (id : UInt64) : stoull (toString id.toNat) = some id := by
  rw [stoull_toString_nat, if_pos id.toNat_lt_size, UInt64.ofNat_toNat]

def Handler.queuedText : Handler → Option (UInt64 × String)
  | ⟨.sendEventHandler id _ event _, .spawned⟩ => some (id, event)
  | _ => none

namespace EventQueue

def beforeComma (text : String) : String := String.ofList (text.toList.takeWhile (· != ','))

theorem beforeComma_eq_self_iff (text : String) :
    beforeComma text = text ↔ ',' ∉ text.toList := by
  rw [beforeComma, ← String.toList_inj, String.toList_ofList, takeWhile_eq_self_iff]
  simp only [bne_iff_ne]
  exact ⟨fun free member => free ',' member rfl, fun free c member same => free (same ▸ member)⟩

variable (queue : EventQueue)

def reload (entry : UInt64 × String) : EventQueue :=
  queue.addEventWithId (beforeComma entry.2) entry.1

theorem loadEvent_entryText (entry : UInt64 × String) :
    queue.loadEvent (entryText entry) = some (queue.reload entry) := by
  have text : (entryText entry).toList =
      Nat.toDigits 10 entry.1.toNat ++ ',' :: entry.2.toList := by
    simp [entryText]
  have noComma : ',' ∉ Nat.toDigits 10 entry.1.toNat := by
    intro member
    have digit := Nat.isDigit_of_mem_toDigits (by decide) (by decide) member
    exact absurd rfl (digit_bounds digit).2.2.2
  obtain ⟨_, found⟩ := splitOn_eq_takeWhile_cons entry.2.toList ','
  rw [loadEvent, text, split_append_cons, splitOn_eq_singleton noComma, found]
  simp only [singleton_append, ← Nat.toString_eq_ofList_toDigits, stoull_toString,
    Option.map_some]
  rfl

variable (entries : List (UInt64 × String))

private theorem foldlM_loadEvent (queue : EventQueue) :
    (entries.map entryText).foldlM loadEvent queue = some (entries.foldl reload queue) := by
  induction entries generalizing queue with
  | nil => rfl
  | cons entry rest ih =>
    rw [map_cons, foldlM_cons, loadEvent_entryText, foldl_cons]
    exact ih (queue.reload entry)

theorem load_store (fresh : EventQueue) (jsonData : Json) :
    fresh.load (some (queue.store jsonData)) = some (queue.pending.foldl reload fresh) := by
  have isArray : (Json.ofStrings (queue.pending.map entryText)).replaces = true := rfl
  have keys : JsonSerializer.keys "events" = ["events"] := rfl
  obtain ⟨_, serialized, found⟩ := JsonSerializer.getLeafNode_serialize jsonData
    (keys ▸ cons_ne_nil _ _) (keys ▸ by decide) isArray
  simp only [load, store, serialized, Option.getD_some, found, Json.toStrings?_ofStrings]
  exact foldlM_loadEvent queue.pending fresh

theorem lookup_reload_of_not_mem (queue : EventQueue)
    {id : UInt64} (absent : id ∉ entries.map Prod.fst) :
    (entries.foldl reload queue).events.lookup id = queue.events.lookup id := by
  induction entries generalizing queue with
  | nil => rfl
  | cons _ _ ih =>
    simp only [map_cons, mem_cons, not_or] at absent
    rw [foldl_cons, ih _ absent.2]
    exact AList.lookup_insert_ne absent.1

theorem lookup_reload {entries : List (UInt64 × String)}
    (distinct : (entries.map Prod.fst).Nodup) (queue : EventQueue) {id : UInt64} {text : String}
    (member : (id, text) ∈ entries) :
    (entries.foldl reload queue).events.lookup id = some (beforeComma text) := by
  induction entries generalizing queue with
  | nil => simp at member
  | cons entry rest ih =>
    obtain ⟨fresh, others⟩ := nodup_cons.mp distinct
    rw [foldl_cons]
    rcases mem_cons.mp member with rfl | later
    · rw [lookup_reload_of_not_mem rest _ fresh]
      exact AList.lookup_insert _
    · exact ih others _ later

private theorem taskHandlers_addTask (queue : TaskQueue Handler) (handler : Handler) :
    (queue.addTask handler false).taskHandlers = queue.taskHandlers ++ [handler] := by
  simp only [TaskQueue.addTask]
  split <;> rfl

theorem queuedText_reload (queue : EventQueue) :
    (entries.foldl reload queue).taskQueue.taskHandlers.map Handler.queuedText =
      queue.taskQueue.taskHandlers.map Handler.queuedText ++
        entries.map fun entry => some (entry.1, beforeComma entry.2) := by
  induction entries generalizing queue with
  | nil => simp
  | cons entry rest ih =>
    have added : (queue.reload entry).taskQueue.taskHandlers.map Handler.queuedText =
        queue.taskQueue.taskHandlers.map Handler.queuedText ++
          [some (entry.1, beforeComma entry.2)] := by
      simp only [reload, addEventWithId, addTask, taskHandlers_addTask, map_append]
      rfl
    rw [foldl_cons, ih, added, append_assoc, map_cons]
    rfl

theorem mem_pending (id : UInt64) (text : String) :
    (id, text) ∈ queue.pending ↔ queue.events.lookup id = some text := by
  rw [pending, mem_mergeSort, mem_map, ← Option.mem_def, AList.mem_lookup_iff]
  constructor
  · rintro ⟨⟨_, _⟩, member, same⟩
    cases same
    exact member
  · intro member
    exact ⟨⟨id, text⟩, member, rfl⟩

theorem pending_nodup : (queue.pending.map Prod.fst).Nodup := by
  have sorted := (mergeSort_perm (queue.events.entries.map fun entry => (entry.1, entry.2))
    fun left right => decide (left.1 ≤ right.1)).map Prod.fst
  rw [pending, sorted.nodup_iff, map_map]
  exact queue.events.nodupKeys

/-- The number of an event survives its formatting, and of its text what precedes the first comma.
-/
theorem load_store_restores_iff (jsonData : Json) (endPoint : EndPoint)
    (maxConnections : Nat) (eventProviders : List String) :
    (∃ loaded, ({ create endPoint maxConnections with eventProviders } : EventQueue).load
        (some (queue.store jsonData)) = some loaded ∧
      (∀ id, loaded.events.lookup id = queue.events.lookup id) ∧
      loaded.taskQueue.taskHandlers.map Handler.queuedText = queue.pending.map some) ↔
    ∀ id text, queue.events.lookup id = some text → ',' ∉ text.toList := by
  rw [load_store]
  constructor
  · rintro ⟨_, same, restored, _⟩ id text present
    obtain rfl := Option.some.inj same
    have member := (queue.mem_pending id text).mpr present
    have truncated := restored id
    rw [lookup_reload queue.pending_nodup _ member, present] at truncated
    exact (beforeComma_eq_self_iff text).mp (Option.some.inj truncated)
  · intro free
    have whole : ∀ entry ∈ queue.pending, beforeComma entry.2 = entry.2 := by
      intro entry member
      have present := (queue.mem_pending entry.1 entry.2).mp member
      exact (beforeComma_eq_self_iff entry.2).mpr (free entry.1 entry.2 present)
    refine ⟨_, rfl, ?_, ?_⟩
    · intro id
      cases present : queue.events.lookup id with
      | none =>
        rw [lookup_reload_of_not_mem]
        · rfl
        · intro member
          obtain ⟨entry, inPending, rfl⟩ := mem_map.mp member
          simp [(queue.mem_pending entry.1 entry.2).mp inPending] at present
      | some text =>
        have member := (queue.mem_pending id text).mpr present
        rw [lookup_reload queue.pending_nodup _ member, whole _ member]
    · rw [queuedText_reload]
      refine map_congr_left ?_
      intro entry member
      rw [whole entry member]

theorem load_store_truncates :
    ∃ loaded, (create ⟨"host", "80"⟩ 1).load
        (some (({ create ⟨"host", "80"⟩ 1 with
          events := AList.singleton 7 "state:on,off" } : EventQueue).store .null)) = some loaded ∧
      loaded.events.lookup 7 = some "state:on" := by
  refine ⟨_, load_store _ _ _, ?_⟩
  exact lookup_reload (pending_nodup _) _ ((mem_pending _ 7 "state:on,off").mpr rfl)

end EventQueue

end Coroserver.Event
