import Coroserver.Dbus.Sync

/-! Every changed property is sent, not only the configured one, and the peer reads the fifth
piece of the event as the value. -/

namespace Coroserver.Dbus

open List

def SyncEntry.setProperty (entry : SyncEntry) (value : String) : SetProperty :=
  ⟨entry.service, entry.path, entry.interface, entry.property, value⟩

/-- One call with the signalled value if the property has changed, and none
otherwise. -/
def SyncEntry.Replicates (entry : SyncEntry) (events : List String)
    (changedProperties : List (String × String)) : Prop :=
  entry.replicate events changedProperties =
    match changedProperties.lookup entry.property with
    | some value => [some (entry.setProperty value)]
    | none => []

instance (entry : SyncEntry) (events : List String)
    (changedProperties : List (String × String)) :
    Decidable (entry.Replicates events changedProperties) := inferInstanceAs (Decidable (_ = _))

namespace SyncEntry

variable (entry : SyncEntry)

theorem propcallback_eq_nil_iff (events : List String) (changes : List (String × String)) :
    entry.propcallback events changes = [] ↔
      ∀ change ∈ changes, entry.changeEvent change ∈ events := by
  induction changes with
  | nil => simp [propcallback]
  | cons change rest ih =>
    rw [propcallback, forall_mem_cons]
    split
    · rename_i known
      exact ⟨fun none => ⟨contains_iff_mem.mp known, ih.mp none⟩, fun all => ih.mpr all.2⟩
    · rename_i unknown
      constructor
      · intro nothing
        cases nothing
      · intro all
        exact absurd (contains_iff_mem.mpr all.1) unknown

theorem propcallback_eq_singleton_iff (events : List String) (changes : List (String × String))
    (event : String) :
    entry.propcallback events changes = [event] ↔
      event ∉ events ∧ (∃ change ∈ changes, entry.changeEvent change = event) ∧
        ∀ change ∈ changes, entry.changeEvent change ∉ events →
          entry.changeEvent change = event := by
  induction changes with
  | nil => simp [propcallback]
  | cons change rest ih =>
    rw [propcallback]
    split
    · rename_i contained
      have known : entry.changeEvent change ∈ events := contains_iff_mem.mp contained
      rw [ih, forall_mem_cons]
      constructor
      · rintro ⟨fresh, ⟨sent, inRest, same⟩, only⟩
        exact ⟨fresh, ⟨sent, mem_cons_of_mem _ inRest, same⟩,
          fun unknown => absurd known unknown, only⟩
      · rintro ⟨fresh, ⟨sent, member, same⟩, -, only⟩
        obtain rfl | inRest := mem_cons.mp member
        · exact absurd (same ▸ known) fresh
        · exact ⟨fresh, ⟨sent, inRest, same⟩, only⟩
    · rename_i notContained
      have unknown : entry.changeEvent change ∉ events :=
        fun known => notContained (contains_iff_mem.mpr known)
      rw [List.cons.injEq, propcallback_eq_nil_iff, forall_mem_cons]
      constructor
      · rintro ⟨rfl, others⟩
        refine ⟨unknown, ⟨change, mem_cons_self, rfl⟩, fun _ => rfl, ?_⟩
        intro other inRest fresh
        obtain known | same := mem_append.mp (others other inRest)
        · exact absurd known fresh
        · exact mem_singleton.mp same
      · rintro ⟨-, -, first, only⟩
        obtain rfl := first unknown
        refine ⟨rfl, ?_⟩
        intro other inRest
        by_cases known : entry.changeEvent other ∈ events
        · exact mem_append_left _ known
        · exact mem_append_right _ (mem_singleton.mpr (only other inRest known))

end SyncEntry

def changePieces (change : String × String) : List (List Char) :=
  (change.1.toList ++ ':' :: change.2.toList).splitOn ':'

theorem dbusConsumer_eq_some_iff (event : String) (call : SetProperty) :
    dbusConsumer event = some call ↔ ∃ rest, (split event.toList ':').drop 1 =
      call.service.toList :: call.path.toList :: call.interface.toList :: call.property.toList ::
        call.value.toList :: rest := by
  rw [dbusConsumer]
  constructor
  · intro called
    split at called
    · rename_i service path interface property value rest pieces
      obtain rfl := Option.some.inj called
      exact ⟨rest, by simpa using pieces⟩
    · cases called
  · rintro ⟨rest, pieces⟩
    rw [pieces]
    simp

theorem headerText_append (text : String) : headerText (text ++ "\r\n\r\n") = text := by
  simp [headerText]

theorem colon_not_mem {text : String} {allowed : Char → Prop}
    (valid : ∀ c ∈ text.toList, isNameChar c = true ∨ allowed c) (excluded : ¬ allowed ':') :
    ':' ∉ text.toList := by
  intro member
  obtain name | other := valid ':' member
  · exact absurd name (by decide)
  · exact excluded other

namespace SyncEntry

variable (entry : SyncEntry)

private theorem pieces_changeEvent (change : String × String) :
    (split (headerText (entry.changeEvent change)).toList ':').drop 1 =
      entry.service.toList.splitOn ':' ++
        entry.path.toList :: entry.interface.toList :: changePieces change := by
  have path_free : ':' ∉ entry.path.toList := colon_not_mem entry.path_valid (by decide)
  have interface_free : ':' ∉ entry.interface.toList :=
    colon_not_mem entry.interface_valid (by decide)
  have text : (headerText (entry.changeEvent change)).toList =
      "PropertyChanged".toList ++ ':' :: (entry.service.toList ++ ':' :: (entry.path.toList ++
        ':' :: (entry.interface.toList ++
          ':' :: (change.1.toList ++ ':' :: change.2.toList)))) := by
    rw [changeEvent, Event.makeEventWithDelim, headerText_append]
    simp [Event.makeEvent]
  rw [text, split_append_cons, splitOn_eq_singleton (by decide),
    splitOn_append_cons_self, splitOn_append_cons_self, splitOn_append_cons_self,
    splitOn_eq_singleton path_free, splitOn_eq_singleton interface_free]
  rfl

theorem dbusConsumer_changeEvent_iff (change : String × String) (value : String) :
    dbusConsumer (headerText (entry.changeEvent change)) = some (entry.setProperty value) ↔
      ':' ∉ entry.service.toList ∧
        ∃ rest, changePieces change = entry.property.toList :: value.toList :: rest := by
  rw [dbusConsumer_eq_some_iff, pieces_changeEvent]
  constructor
  · rintro ⟨rest, pieces⟩
    have service_free : ':' ∉ entry.service.toList := by
      obtain ⟨_, first⟩ := splitOn_eq_takeWhile_cons entry.service.toList ':'
      have free := (not_mem_and_subset_of_mem_splitOn (first ▸ mem_cons_self)).1
      rw [first] at pieces
      have same : entry.service.toList.takeWhile (· != ':') = entry.service.toList :=
        (List.cons.inj pieces).1
      rwa [same] at free
    rw [splitOn_eq_singleton service_free] at pieces
    exact ⟨service_free, rest, by simpa [setProperty] using pieces⟩
  · rintro ⟨service_free, rest, pieces⟩
    rw [splitOn_eq_singleton service_free, pieces]
    exact ⟨rest, rfl⟩

/-- The changes whose events are not pending already are sent as one event. If
the property has changed, this event is split into it and its value, and the
service is not a unique name; otherwise there is none. -/
def SendsOnlyProperty (events : List String) (changedProperties : List (String × String)) : Prop :=
  match changedProperties.lookup entry.property with
  | some value => ':' ∉ entry.service.toList ∧
      ∃ change ∈ changedProperties, entry.changeEvent change ∉ events ∧
        (∀ other ∈ changedProperties, entry.changeEvent other ∉ events →
          entry.changeEvent other = entry.changeEvent change) ∧
        ∃ rest, changePieces change = entry.property.toList :: value.toList :: rest
  | none => ∀ change ∈ changedProperties, entry.changeEvent change ∈ events

/-- The configured property alone is set exactly if no other change is sent and neither the
service nor the value contains a colon. -/
theorem replicates_iff (events : List String) (changedProperties : List (String × String)) :
    entry.Replicates events changedProperties ↔
      entry.SendsOnlyProperty events changedProperties := by
  rw [Replicates, SendsOnlyProperty, replicate]
  cases changedProperties.lookup entry.property with
  | none => rw [map_eq_nil_iff, propcallback_eq_nil_iff]
  | some value =>
    simp only [map_eq_singleton_iff, propcallback_eq_singleton_iff]
    constructor
    · rintro ⟨event, ⟨fresh, ⟨change, member, rfl⟩, only⟩, called⟩
      obtain ⟨service_free, pieces⟩ := (entry.dbusConsumer_changeEvent_iff change value).mp called
      exact ⟨service_free, change, member, fresh, only, pieces⟩
    · rintro ⟨service_free, change, member, fresh, only, pieces⟩
      exact ⟨_, ⟨fresh, ⟨change, member, rfl⟩, only⟩,
        (entry.dbusConsumer_changeEvent_iff change value).mpr ⟨service_free, pieces⟩⟩

end SyncEntry

def sensorEntry : SyncEntry where
  service := "xyz.Sensor"
  path := "/xyz/sensor"
  interface := "xyz.Value"
  property := "State"
  service_valid := by simp [isNameChar]
  path_valid := by simp [isNameChar]
  interface_valid := by simp [isNameChar]
  property_valid := by simp [isNameChar]

example : sensorEntry.Replicates [] [("State", "on")] := by decide +kernel

theorem replicates_other_and_cut :
    sensorEntry.replicate [] [("Name", "a"), ("State", "12:30")] =
        [some ⟨"xyz.Sensor", "/xyz/sensor", "xyz.Value", "Name", "a"⟩,
          some ⟨"xyz.Sensor", "/xyz/sensor", "xyz.Value", "State", "12"⟩] ∧
      ¬ sensorEntry.Replicates [] [("Name", "a"), ("State", "12:30")] := by
  decide +kernel

end Coroserver.Dbus
