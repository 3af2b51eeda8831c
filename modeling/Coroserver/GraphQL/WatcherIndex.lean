import Coroserver.GraphQL.Ast

/-! `ql_dbus_property_watcher.hpp` finds the subscription fields that a changed
property affects. Object, interface and property are joined into one key, and
an empty object or property of an entry stands for any. -/

namespace Coroserver.GraphQL

open List

structure DbusWatcher where
  dbusObject : Text
  dbusInterface : Text
  dbusProperty : Text
  graphqlFields : List Text

abbrev DbusWatcherIndex := Text → List Text

def watcherKey (object iface property : Text) : Text :=
  object ++ 0 :: (iface ++ 0 :: property)

def DbusWatcher.key (w : DbusWatcher) : Text :=
  watcherKey w.dbusObject w.dbusInterface w.dbusProperty

def pushField (key : Text) (idx : DbusWatcherIndex) (field : Text) : DbusWatcherIndex :=
  Function.update idx key (idx key ++ [field])

def buildDbusWatcherIndex (watchers : List DbusWatcher) : DbusWatcherIndex :=
  watchers.foldl (fun idx w => w.graphqlFields.foldl (pushField w.key) idx) fun _ => []

def resolveFields (index : DbusWatcherIndex) (object iface property : Text) : List Text :=
  index (watcherKey object iface property) ++ index (watcherKey object iface []) ++
    index (watcherKey [] iface property) ++ index (watcherKey [] iface [])

structure NulFree (object iface property : Text) : Prop where
  object : 0 ∉ object
  iface : 0 ∉ iface
  property : 0 ∉ property

theorem NulFree.splitOn_key {object iface property : Text} (free : NulFree object iface property) :
    (watcherKey object iface property).splitOn 0 = [object, iface, property] := by
  rw [watcherKey, splitOn_append_cons_self, splitOn_append_cons_self,
    splitOn_eq_singleton free.object, splitOn_eq_singleton free.iface,
    splitOn_eq_singleton free.property]
  rfl

private theorem pushFields_eq (fields : List Text) (key : Text) (idx : DbusWatcherIndex) :
    fields.foldl (pushField key) idx = Function.update idx key (idx key ++ fields) := by
  induction fields generalizing idx with
  | nil => simp
  | cons _ _ ih =>
    rw [foldl_cons, ih, pushField]
    simp

theorem mem_buildDbusWatcherIndex {watchers : List DbusWatcher} {key field : Text} :
    field ∈ buildDbusWatcherIndex watchers key ↔
      ∃ w ∈ watchers, w.key = key ∧ field ∈ w.graphqlFields := by
  have grows (idx : DbusWatcherIndex) :
      field ∈ watchers.foldl (fun idx w => w.graphqlFields.foldl (pushField w.key) idx) idx key ↔
        field ∈ idx key ∨ ∃ w ∈ watchers, w.key = key ∧ field ∈ w.graphqlFields := by
    induction watchers generalizing idx with
    | nil => simp
    | cons w _ ih =>
      rw [foldl_cons, ih, pushFields_eq]
      by_cases same : w.key = key
      · subst same
        simp [or_assoc]
      · simp [Function.update_of_ne (Ne.symm same), same]
  simpa [buildDbusWatcherIndex] using grows fun _ => []

section

variable {watchers : List DbusWatcher} {object iface property : Text}

private theorem mem_index_iff
    (entries : ∀ w ∈ watchers, NulFree w.dbusObject w.dbusInterface w.dbusProperty)
    (free : NulFree object iface property) {field : Text} :
    field ∈ buildDbusWatcherIndex watchers (watcherKey object iface property) ↔
      ∃ w ∈ watchers, w.dbusInterface = iface ∧ w.dbusObject = object ∧
        w.dbusProperty = property ∧ field ∈ w.graphqlFields := by
  rw [mem_buildDbusWatcherIndex]
  constructor
  · rintro ⟨w, member, same, listed⟩
    have parts := congrArg (List.splitOn 0) same
    rw [DbusWatcher.key, (entries w member).splitOn_key, free.splitOn_key] at parts
    obtain ⟨rfl, rfl, rfl, -⟩ := by simpa using parts
    exact ⟨w, member, rfl, rfl, rfl, listed⟩
  · rintro ⟨w, member, rfl, rfl, rfl, listed⟩
    exact ⟨w, member, rfl, listed⟩

/-- The index answers like a scan of the table. -/
theorem mem_resolveFields_iff
    (entries : ∀ w ∈ watchers, NulFree w.dbusObject w.dbusInterface w.dbusProperty)
    (free : NulFree object iface property) (field : Text) :
    field ∈ resolveFields (buildDbusWatcherIndex watchers) object iface property ↔
      ∃ w ∈ watchers, w.dbusInterface = iface ∧ (w.dbusObject = [] ∨ w.dbusObject = object) ∧
        (w.dbusProperty = [] ∨ w.dbusProperty = property) ∧ field ∈ w.graphqlFields := by
  have anyObject : NulFree [] iface property := ⟨by simp, free.iface, free.property⟩
  have anyProperty : NulFree object iface [] := ⟨free.object, free.iface, by simp⟩
  have any : NulFree [] iface [] := ⟨by simp, free.iface, by simp⟩
  simp only [resolveFields, mem_append, mem_index_iff entries free,
    mem_index_iff entries anyObject, mem_index_iff entries anyProperty, mem_index_iff entries any]
  constructor
  · rintro (((⟨w, member, found⟩ | ⟨w, member, found⟩) | ⟨w, member, found⟩) | ⟨w, member, found⟩)
      <;> exact ⟨w, member, found.1, by simp [found], by simp [found], found.2.2.2⟩
  · rintro ⟨w, member, sameIface, object | object, property | property, listed⟩
    · exact .inr ⟨w, member, sameIface, object, property, listed⟩
    · exact .inl (.inr ⟨w, member, sameIface, object, property, listed⟩)
    · exact .inl (.inl (.inr ⟨w, member, sameIface, object, property, listed⟩))
    · exact .inl (.inl (.inl ⟨w, member, sameIface, object, property, listed⟩))

end

theorem mem_resolveFields_any_object :
    [104] ∈ resolveFields (buildDbusWatcherIndex [⟨[], [83], [80], [[104]]⟩]) [47] [83] [80] := by
  refine (mem_resolveFields_iff (forall_mem_singleton.mpr ?_) ?_ _).mpr ?_
  · exact ⟨by decide, by decide, by decide⟩
  · exact ⟨by decide, by decide, by decide⟩
  · exact ⟨_, mem_singleton_self _, rfl, .inl rfl, .inr rfl, mem_singleton_self _⟩

end Coroserver.GraphQL
