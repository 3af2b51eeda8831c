import Coroserver.Dbus.WatchPromiseProperties

/-! `DbusPropertyWatcher` notifies the value of its property in each
`PropertiesChanged` signal, and a default value if the property is not among the
changed ones. A message that cannot be read notifies nothing:
`MatchContext::callback` drops the exception. -/

namespace Coroserver.Dbus

inductive PropertyValue where
  | bool (value : Bool)
  | int32 (value : Int32)
  | string (value : String)
  | uint32 (value : UInt32)

inductive PropType where
  | bool
  | int32
  | string
  | uint32

abbrev PropType.Carrier : PropType → Type
  | .bool => Bool
  | .int32 => Int32
  | .string => String
  | .uint32 => UInt32

/-- `getDefaultValue` and `PropType{}`. -/
def PropType.getDefaultValue : (type : PropType) → type.Carrier
  | .bool => false
  | .int32 => 0
  | .string => ""
  | .uint32 => 0

def PropType.get? : (type : PropType) → PropertyValue → Option type.Carrier
  | .bool, .bool value => some value
  | .int32, .int32 value => some value
  | .string, .string value => some value
  | .uint32, .uint32 value => some value
  | _, _ => none

instance (type : PropType) : Inhabited type.Carrier := ⟨type.getDefaultValue⟩

abbrev PropertyMap := List (String × PropertyValue)

def ErrorCode.notFound : ErrorCode := .other 3
def ErrorCode.invalidArgument : ErrorCode := .other 22

def getPropertyFromMap (type : PropType) (ec : ErrorCode) (propMap : PropertyMap)
    (argname : String) : ErrorCode × type.Carrier :=
  if ec ≠ .success then (ec, type.getDefaultValue)
  else
    match propMap.lookup argname with
    | none => (.notFound, type.getDefaultValue)
    | some stored =>
      match type.get? stored with
      | none => (.invalidArgument, type.getDefaultValue)
      | some value => (ec, value)

def getPropertiesFromMap (type : PropType) (propMap : PropertyMap) (argname : String) :
    ErrorCode × type.Carrier :=
  getPropertyFromMap type .success propMap argname

structure PropertiesChanged where
  interfaceName : String
  changedProperties : PropertyMap
  invalidatedProperties : List String := []

structure DbusPropertyWatcher where
  type : PropType
  propName : String

namespace DbusPropertyWatcher

variable (watcher : DbusPropertyWatcher)

def handlePropertyChange (msg : PropertiesChanged) : Signal watcher.type.Carrier :=
  let (ec, value) := getPropertiesFromMap watcher.type msg.changedProperties watcher.propName
  if ec ≠ .success ∧ ec ≠ .notFound then .notifyChange ec watcher.type.getDefaultValue
  else .notifyChange .success value

/-- `MatchContext::callback`; there is no message if `msg.read` throws. -/
def callback (msg : Option PropertiesChanged) : Option (Signal watcher.type.Carrier) :=
  msg.map watcher.handlePropertyChange

def Holds (msg : PropertiesChanged) (value : watcher.type.Carrier) : Prop :=
  ∃ stored, msg.changedProperties.lookup watcher.propName = some stored ∧
    watcher.type.get? stored = some value

structure Genuine (watcher : DbusPropertyWatcher) (msg : Option PropertiesChanged) : Prop where
  value : ∀ value, watcher.callback msg = some (.notifyChange .success value) →
    ∃ read, msg = some read ∧ watcher.Holds read value
  silent : ∀ read, msg = some read → read.changedProperties.lookup watcher.propName = none →
    ∀ value, watcher.callback msg ≠ some (.notifyChange .success value)

variable {msg : PropertiesChanged}

theorem holds_of_handlePropertyChange {watcher : DbusPropertyWatcher} {stored : PropertyValue}
    (found : msg.changedProperties.lookup watcher.propName = some stored)
    {value : watcher.type.Carrier}
    (notified : watcher.handlePropertyChange msg = .notifyChange .success value) :
    watcher.Holds msg value := by
  cases typed : watcher.type.get? stored with
  | none =>
    simp [handlePropertyChange, getPropertiesFromMap, getPropertyFromMap, found, typed,
      ErrorCode.invalidArgument, ErrorCode.notFound] at notified
  | some read =>
    have same : read = value := by
      simpa [handlePropertyChange, getPropertiesFromMap, getPropertyFromMap, found, typed]
        using notified
    exact ⟨stored, found, by rw [typed, same]⟩

theorem genuine_iff {watcher : DbusPropertyWatcher} :
    watcher.Genuine (some msg) ↔ msg.changedProperties.lookup watcher.propName ≠ none := by
  constructor
  · intro genuine missing
    refine genuine.silent msg rfl missing watcher.type.getDefaultValue ?_
    simp [callback, handlePropertyChange, getPropertiesFromMap, getPropertyFromMap, missing]
  · intro present
    refine ⟨?_, ?_⟩
    · intro value notified
      obtain ⟨_, found⟩ := Option.ne_none_iff_exists'.mp present
      exact ⟨msg, rfl, holds_of_handlePropertyChange found (Option.some.inj notified)⟩
    · intro read same missing
      cases same
      exact absurd missing present

private theorem genuine_none : watcher.Genuine none := by
  refine ⟨?_, ?_⟩
  · intro value impossible
    cases impossible
  · intro read impossible
    cases impossible

/-- Every notification is a change of the property exactly if each signal that can be read has it.
-/
theorem notifications_genuine_iff (messages : List (Option PropertiesChanged)) :
    (∀ msg ∈ messages, watcher.Genuine msg) ↔
      ∀ msg, some msg ∈ messages → msg.changedProperties.lookup watcher.propName ≠ none := by
  constructor
  · intro genuine msg member
    exact genuine_iff.mp (genuine (some msg) member)
  · intro present msg member
    cases msg with
    | none => exact watcher.genuine_none
    | some msg => exact genuine_iff.mpr (present msg member)

theorem other_property_notified :
    ∃ (watcher : DbusPropertyWatcher) (msg : PropertiesChanged),
      msg.changedProperties.lookup watcher.propName = none ∧
      watcher.callback (some msg) = some (.notifyChange .success watcher.type.getDefaultValue) ∧
      ¬ watcher.Genuine (some msg) := by
  refine ⟨⟨.string, "IPAddress"⟩, ⟨"Ethernet", [("MTU", .uint32 1500)], []⟩, rfl, rfl, ?_⟩
  intro genuine
  exact genuine_iff.mp genuine rfl

end DbusPropertyWatcher

end Coroserver.Dbus
