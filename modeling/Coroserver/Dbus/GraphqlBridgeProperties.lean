import Mathlib
import Coroserver.Fallible
import Coroserver.Dbus.GraphqlBridge

/-! An event sets the properties of the objects that exist and posts the creation
of the others, so that an item that is new is mirrored with empty properties. -/

namespace Coroserver.Dbus.GraphqlBridge

open GraphQL (Json Text)
open Fallible List Function

def stringForm (library : Library) : Json → Text
  | .int value => ascii (toString value)
  | other => toStr library other

def fitsInt64 : Json → Prop
  | .int value => Int64.minValue.toInt ≤ value ∧ value ≤ Int64.maxValue.toInt
  | _ => True

private theorem toList_toString (value : Int) :
    (toString value).toList =
      if 0 ≤ value then Nat.toDigits 10 value.toNat
      else '-' :: Nat.toDigits 10 (-value).toNat := by
  rw [Int.toString_eq_repr, Int.repr_eq_if]
  split
  · rw [Nat.repr_eq_ofList_toDigits, String.toList_ofList]
  · simp [String.toList_append, Nat.repr_eq_ofList_toDigits]

private theorem toNat_toUInt8_of_mem_toString {value : Int} {c : Char}
    (member : c ∈ (toString value).toList) : c.toUInt8.toNat = c.toNat := by
  have digits : ∀ n : Nat, c ∈ Nat.toDigits 10 n → c.toNat < 128 := by
    intro n listed
    have digit := Nat.isDigit_of_mem_toDigits (by decide) (by decide) listed
    simp only [Char.isDigit, Bool.and_eq_true, decide_eq_true_eq, UInt32.le_iff_toNat_le] at digit
    exact Nat.lt_of_le_of_lt digit.2 (by decide)
  have small : c.toNat < 128 := by
    rw [toList_toString] at member
    split at member
    · exact digits _ member
    · obtain rfl | listed := mem_cons.mp member
      · decide
      · exact digits _ listed
  simp only [Char.toUInt8, UInt32.toNat_toUInt8, Char.toNat] at small ⊢
  omega

private theorem ascii_toString_inj {a b : Int} (same : ascii (toString a) = ascii (toString b)) :
    a = b := by
  have readBack : ∀ value : Int, (ascii (toString value)).map (fun byte => Char.ofNat byte.toNat) =
        (toString value).toList := by
    intro value
    rw [ascii, map_map]
    refine (map_congr_left ?_).trans (map_id _)
    intro c member
    rw [comp_apply, toNat_toUInt8_of_mem_toString member, Char.ofNat_toNat, id]
  apply Int.repr_injective
  apply String.toList_injective
  rw [← Int.toString_eq_repr, ← Int.toString_eq_repr, ← readBack a, ← readBack b, same]

theorem toStr_eq_stringForm_iff (library : Library) (value : Json) :
    toStr library value = stringForm library value ↔ fitsInt64 value := by
  cases value with
  | int value =>
    have range : Int64.minValue.toInt ≤ (Int64.ofInt value).toInt ∧
        (Int64.ofInt value).toInt ≤ Int64.maxValue.toInt :=
      ⟨Int64.minValue_le_toInt _, Int64.toInt_le _⟩
    constructor
    · intro same
      have wrapped := ascii_toString_inj same
      rwa [wrapped] at range
    · intro fits
      rw [toStr, Int64.toInt_ofInt_of_le fits.1 (Int.lt_of_le_of_lt fits.2 (by decide)), stringForm]
  | _ => exact iff_of_true rfl trivial

def resolved (payload : Json) (entries : List (Text × Text)) (name : Text) : List Json :=
  entries.filterMap fun entry =>
    if entry.2 = name then
      match jsonAtPath payload entry.1 with
      | .ok found => found
      | .error _ => none
    else none

theorem mem_resolved_iff {payload value : Json} {entries : List (Text × Text)} {name : Text} :
    value ∈ resolved payload entries name ↔
      ∃ jsonPath, (jsonPath, name) ∈ entries ∧ jsonAtPath payload jsonPath = .ok (some value) := by
  simp only [resolved, mem_filterMap, Prod.exists]
  constructor
  · rintro ⟨jsonPath, other, member, found⟩
    split at found
    · next same =>
        subst same
        cases looked : jsonAtPath payload jsonPath with
        | error => simp [looked] at found
        | ok =>
          simp only [looked] at found
          exact ⟨jsonPath, member, found ▸ looked⟩
    · cases found
  · rintro ⟨jsonPath, member, found⟩
    exact ⟨jsonPath, name, member, by simp [found]⟩

/-! ## Objects -/

namespace DbusObjectProxy

variable {library : Library} {payload : Json} {entries fieldMap : List (Text × Text)}
  {proxy updated : DbusObjectProxy}

structure Registered (fieldMap : List (Text × Text)) (proxy : DbusObjectProxy) : Prop where
  known : proxy.known = proxy.properties
  mapped : ∀ name ∈ fieldMap.map Prod.snd, ∃ value, proxy.known name = some value

theorem registered_create (fieldMap : List (Text × Text)) :
    Registered fieldMap (create fieldMap) where
  known := rfl
  mapped _ member := ⟨[], if_pos member⟩

variable {name : Text}

theorem Registered.assign_eq (registered : Registered fieldMap proxy)
    (mapped : name ∈ fieldMap.map Prod.snd) (strVal : Text) :
    proxy.assign name strVal =
      { properties := update proxy.properties name (some strVal)
        known := update proxy.known name (some strVal) } := by
  obtain ⟨old, known⟩ := registered.mapped name mapped
  simp only [assign, known]
  split
  · next same =>
      subst same
      obtain ⟨properties, values⟩ := proxy
      obtain rfl : values = properties := registered.known
      rw [← known, update_eq_self]
  · rfl

theorem Registered.assign (registered : Registered fieldMap proxy)
    (mapped : name ∈ fieldMap.map Prod.snd) (strVal : Text) :
    Registered fieldMap (proxy.assign name strVal) := by
  rw [registered.assign_eq mapped]
  constructor
  · rw [registered.known]
  · intro other member
    by_cases same : other = name
    · subst same
      exact ⟨strVal, update_self ..⟩
    · simpa only [update_of_ne same] using registered.mapped other member

theorem applyUpdate_total
    (returns : ∀ entry ∈ entries, ∃ found, jsonAtPath payload entry.1 = .ok found)
    (proxy : DbusObjectProxy) :
    ∃ updated, proxy.applyUpdate library payload entries = .ok updated := by
  induction entries generalizing proxy with
  | nil => exact ⟨proxy, rfl⟩
  | cons _ _ ih =>
    rw [forall_mem_cons] at returns
    obtain ⟨found, looked⟩ := returns.1
    cases found <;> simp only [applyUpdate, looked] <;> exact ih returns.2 _

theorem Registered.applyUpdate (registered : Registered fieldMap proxy)
    (listed : entries ⊆ fieldMap)
    (applied : proxy.applyUpdate library payload entries = .ok updated) :
    Registered fieldMap updated ∧
      (∀ entry ∈ entries, ∃ found, jsonAtPath payload entry.1 = .ok found) ∧
      ∀ name, updated.properties name =
        match (resolved payload entries name).getLast? with
        | some value => some (toStr library value)
        | none => proxy.properties name := by
  induction entries generalizing proxy with
  | nil =>
    cases applied
    exact ⟨registered, by simp, fun _ => rfl⟩
  | cons entry rest ih =>
    obtain ⟨jsonPath, propName⟩ := entry
    rw [cons_subset] at listed
    cases looked : jsonAtPath payload jsonPath with
    | error => simp [DbusObjectProxy.applyUpdate, looked] at applied
    | ok found =>
      cases found with
      | none =>
        simp only [DbusObjectProxy.applyUpdate, looked] at applied
        obtain ⟨kept, returns, values⟩ := ih registered listed.2 applied
        refine ⟨kept, forall_mem_cons.mpr ⟨⟨none, looked⟩, returns⟩, fun name => ?_⟩
        rw [values]
        simp [resolved, looked]
      | some value =>
        have mapped : propName ∈ fieldMap.map Prod.snd := mem_map.mpr ⟨_, listed.1, rfl⟩
        simp only [DbusObjectProxy.applyUpdate, looked] at applied
        obtain ⟨kept, returns, values⟩ := ih (registered.assign mapped _) listed.2 applied
        refine ⟨kept, forall_mem_cons.mpr ⟨⟨some value, looked⟩, returns⟩, ?_⟩
        intro name
        rw [values, registered.assign_eq mapped]
        by_cases same : propName = name
        · subst same
          have first : resolved payload ((jsonPath, propName) :: rest) propName =
              value :: resolved payload rest propName := by
            simp [resolved, looked]
          rw [first, getLast?_cons]
          cases (resolved payload rest propName).getLast? <;> simp
        · have skipped : resolved payload ((jsonPath, propName) :: rest) name =
              resolved payload rest name := by
            simp [resolved, same]
          have other : name ≠ propName := fun equal => same equal.symm
          simp [skipped, update_of_ne other]

end DbusObjectProxy

/-! ## The client -/

namespace SseSubscriptionClient

open DbusObjectProxy

variable {library : Library} {config : SubscriptionConfig}

def AllRegistered (config : SubscriptionConfig) (registry : DbusObjectRegistry) : Prop :=
  ∀ path proxy, registry path = some proxy → Registered config.fieldMap proxy

variable {registry created : DbusObjectRegistry} {listing after : Listing}
  {client next : SseSubscriptionClient}

theorem AllRegistered.update (all : AllRegistered config registry) {proxy : DbusObjectProxy}
    (registered : Registered config.fieldMap proxy) (path : Text) :
    AllRegistered config (update registry path (some proxy)) := by
  intro other found equal
  by_cases same : other = path
  · subst same
    rw [update_self] at equal
    cases equal
    exact registered
  · rw [update_of_ne same] at equal
    exact all other found equal

variable {item : Json} {posted : List Text}

theorem dispatchItem_eq_ok (dispatched : dispatchItem library config listing item = .ok after) :
    listing.registry (itemPath config item) = none ∧
        after = { listing with posted := listing.posted ++ [itemPath config item] } ∨
      ∃ proxy updated, listing.registry (itemPath config item) = some proxy ∧
        proxy.applyUpdate library item config.fieldMap = .ok updated ∧ after = { listing with
          registry := update listing.registry (itemPath config item) (some updated) } := by
  unfold dispatchItem at dispatched
  split at dispatched
  · next absent =>
      cases dispatched
      exact .inl ⟨absent, rfl⟩
  · next proxy found =>
      split at dispatched
      · cases dispatched
      · next updated applied =>
          cases dispatched
          exact .inr ⟨proxy, updated, found, applied, rfl⟩

theorem AllRegistered.dispatchItem (all : AllRegistered config listing.registry)
    (dispatched : dispatchItem library config listing item = .ok after) :
    AllRegistered config after.registry := by
  obtain ⟨_, rfl⟩ | ⟨proxy, updated, found, applied, rfl⟩ := dispatchItem_eq_ok dispatched
  · exact all
  · have kept := (all _ proxy found).applyUpdate (List.Subset.refl _) applied
    exact all.update kept.1 _

variable {items : List Json}

theorem AllRegistered.dispatchItems (all : AllRegistered config listing.registry)
    (dispatched : items.foldlM (SseSubscriptionClient.dispatchItem library config) listing =
      .ok after) : AllRegistered config after.registry :=
  foldlM_preserves (fun listing => AllRegistered config listing.registry)
    (fun _ _ _ kept first => kept.dispatchItem first) all dispatched

theorem dispatchItems_eq_ok
    (dispatched : items.foldlM (dispatchItem library config) listing = .ok after) (path : Text) :
    (path ∉ items.map (itemPath config) → after.registry path = listing.registry path) ∧
      (after.registry path = none ↔ listing.registry path = none) ∧
      (path ∈ after.posted ↔ path ∈ listing.posted ∨
        listing.registry path = none ∧ path ∈ items.map (itemPath config)) := by
  induction items generalizing listing with
  | nil =>
    cases dispatched
    simp
  | cons item rest ih =>
    obtain ⟨_, first, dispatched⟩ := foldlM_cons_eq_ok.mp dispatched
    have onward := ih dispatched
    obtain ⟨absent, rfl⟩ | ⟨proxy, updated, found, _, rfl⟩ := dispatchItem_eq_ok first
    · grind
    · by_cases same : path = itemPath config item
      · subst same
        simpa [found] using onward.2
      · simpa [same] using onward

theorem dispatchItems_existing {proxy : DbusObjectProxy}
    (distinct : (items.map (itemPath config)).Nodup)
    (dispatched : items.foldlM (dispatchItem library config) listing = .ok after)
    (member : item ∈ items) (found : listing.registry (itemPath config item) = some proxy) :
    ∃ updated, proxy.applyUpdate library item config.fieldMap = .ok updated ∧
      after.registry (itemPath config item) = some updated := by
  obtain ⟨_, _, rfl⟩ := append_of_mem member
  obtain ⟨_, earlier, dispatched⟩ := foldlM_append_eq_ok.mp dispatched
  obtain ⟨next, first, later⟩ := foldlM_cons_eq_ok.mp dispatched
  rw [map_append, map_cons, nodup_middle, nodup_cons, mem_append,
    not_or] at distinct
  rw [← (dispatchItems_eq_ok earlier _).1 distinct.1.1] at found
  rw [(dispatchItems_eq_ok later _).1 distinct.1.2]
  obtain ⟨absent, rfl⟩ | ⟨old, updated, known, applied, rfl⟩ := dispatchItem_eq_ok first
  · cases absent.symm.trans found
  · obtain rfl := Option.some.inj (known.symm.trans found)
    exact ⟨updated, applied, update_self ..⟩

theorem dispatchItems_total {listing : Listing} (distinct : (items.map (itemPath config)).Nodup)
    (returns : ∀ item ∈ items, ∀ proxy, listing.registry (itemPath config item) = some proxy →
      ∀ entry ∈ config.fieldMap, ∃ found, jsonAtPath item entry.1 = .ok found) :
    ∃ after, items.foldlM (dispatchItem library config) listing = .ok after := by
  refine foldlM_total fun before item rest middle split reached => ?_
  subst split
  rw [map_append, map_cons, nodup_middle, nodup_cons, mem_append,
    not_or] at distinct
  unfold dispatchItem
  split
  · exact ⟨_, rfl⟩
  · next proxy found =>
      rw [(dispatchItems_eq_ok reached _).1 distinct.1.1] at found
      obtain ⟨_, applied⟩ := applyUpdate_total (returns item (by simp) proxy found) proxy
      exact ⟨_, by rw [applied]⟩

theorem create_eq_ok {path : Text} (ran : create library config registry path = .ok created) :
    created = registry ∧ (registry path).isSome ∨
      created = update registry path (some (.create config.fieldMap)) ∧
        registry path = none ∧ library.accepts path = true := by
  unfold create at ran
  split at ran
  · next present =>
      cases ran
      exact .inl ⟨rfl, present⟩
  · next absent =>
      split at ran
      · next accepted =>
          cases ran
          exact .inr ⟨rfl, by simpa using absent, accepted⟩
      · cases ran

theorem AllRegistered.createAll (all : AllRegistered config registry)
    (ran : posted.foldlM (create library config) registry = .ok created) :
    AllRegistered config created := by
  apply foldlM_preserves (AllRegistered config) _ all ran
  intro _ path _ kept first
  obtain ⟨rfl, _⟩ | ⟨rfl, _, _⟩ := create_eq_ok first
  · exact kept
  · exact kept.update (registered_create _) path

theorem createAll_eq_ok (ran : posted.foldlM (create library config) registry = .ok created)
    (path : Text) :
    (∀ proxy, registry path = some proxy → created path = some proxy) ∧
      (registry path = none → path ∈ posted →
        library.accepts path = true ∧ created path = some (.create config.fieldMap)) := by
  induction posted generalizing registry with
  | nil =>
    cases ran
    exact ⟨fun _ found => found, fun _ member => absurd member not_mem_nil⟩
  | cons next rest ih =>
    obtain ⟨_, first, ran⟩ := foldlM_cons_eq_ok.mp ran
    have onward := ih ran
    obtain ⟨rfl, present⟩ | ⟨rfl, absent, accepted⟩ := create_eq_ok first
    · refine ⟨onward.1, fun missing member => onward.2 missing ?_⟩
      obtain rfl | later := mem_cons.mp member
      · simp [missing] at present
      · exact later
    · by_cases same : path = next
      · subst same
        rw [update_self] at onward
        exact ⟨fun proxy found => by simp [absent] at found, fun _ _ => ⟨accepted, onward.1 _ rfl⟩⟩
      · rw [update_of_ne same] at onward
        refine ⟨onward.1, fun missing member => onward.2 missing ?_⟩
        exact (mem_cons.mp member).resolve_left same

theorem createAll_total {posted : List Text} {registry : DbusObjectRegistry}
    (accepted : ∀ path ∈ posted, registry path = none → library.accepts path = true) :
    ∃ created, posted.foldlM (create library config) registry = .ok created := by
  refine foldlM_total fun before path rest middle split reached => ?_
  unfold create
  split
  · exact ⟨_, rfl⟩
  · next absent =>
      refine ⟨_, if_pos (accepted path (by simp [split]) ?_)⟩
      by_contra present
      obtain ⟨proxy, found⟩ := Option.ne_none_iff_exists'.mp present
      exact absent (by rw [(createAll_eq_ok reached path).1 proxy found, Option.isSome_some])

structure Listening (config : SubscriptionConfig) (client : SseSubscriptionClient)
    (registry : DbusObjectRegistry) : Prop where
  scalarProxy : client.scalarProxy = none
  listRegistry : client.listRegistry = some registry
  posted : client.posted = []
  registered : AllRegistered config registry

theorem dispatchPayloads_array (lists : List (List Json)) (client : SseSubscriptionClient)
    {registry : DbusObjectRegistry} (listening : client.listRegistry = some registry) :
    (lists.map Json.array).foldlM (dispatchPayload library config) client =
      match lists.flatten.foldlM (dispatchItem library config) ⟨registry, client.posted⟩ with
      | .error thrown => .error thrown
      | .ok listing =>
        .ok { client with listRegistry := some listing.registry, posted := listing.posted } := by
  induction lists generalizing client registry with
  | nil =>
    obtain ⟨_, _⟩ := client
    cases listening
    rfl
  | cons items rest ih =>
    rw [map_cons, foldlM_cons, flatten_cons, foldlM_append]
    simp only [dispatchPayload, listening]
    cases dispatched : items.foldlM (dispatchItem library config) ⟨registry, client.posted⟩ with
    | error => rfl
    | ok => exact ih _ rfl

def Dispatching (config : SubscriptionConfig) (client : SseSubscriptionClient) : Prop :=
  client.scalarProxy = none ∧
    ∃ registry, client.listRegistry = some registry ∧ AllRegistered config registry

theorem Dispatching.dispatchPayload {payload : Json} (dispatching : Dispatching config client)
    (dispatched : SseSubscriptionClient.dispatchPayload library config client payload = .ok next) :
    Dispatching config next := by
  obtain ⟨scalar, registry, list, all⟩ := dispatching
  cases payload with
  | array =>
    simp only [SseSubscriptionClient.dispatchPayload, list] at dispatched
    split at dispatched
    · cases dispatched
    · next listing listed =>
        cases dispatched
        exact ⟨scalar, listing.registry, rfl, all.dispatchItems listed⟩
  | _ =>
    simp only [SseSubscriptionClient.dispatchPayload, scalar] at dispatched
    cases dispatched
    exact ⟨scalar, registry, list, all⟩

theorem Dispatching.dispatchEvent {event : Option Json} {outcome : Except Text Unit}
    (dispatching : Dispatching config client)
    (dispatched : SseSubscriptionClient.dispatchEvent library config client event =
      .ok (next, outcome)) : Dispatching config next := by
  unfold SseSubscriptionClient.dispatchEvent at dispatched
  split at dispatched
  · cases dispatched
    exact dispatching
  · split at dispatched
    · cases dispatched
      exact dispatching
    · split at dispatched
      · split at dispatched
        · cases dispatched
        · next reached folded =>
            cases dispatched
            exact foldlM_preserves (Dispatching config)
              (fun _ _ _ kept first => kept.dispatchPayload first) dispatching folded
      · cases dispatched
        exact dispatching

theorem runPosted_listening (scalar : client.scalarProxy = none)
    (list : client.listRegistry = some registry) (all : AllRegistered config registry)
    (ran : client.runPosted library config = .ok next) :
    ∃ created, client.posted.foldlM (create library config) registry = .ok created ∧
      Listening config next created := by
  simp only [runPosted, list] at ran
  split at ran
  · cases ran
  · next created handlers =>
      cases ran
      exact ⟨created, handlers, scalar, rfl, rfl, all.createAll handlers⟩

theorem Listening.handle {event : Option Json} (listening : Listening config client registry)
    (handled : client.handle library config event = .ok next) :
    ∃ after, Listening config next after := by
  unfold SseSubscriptionClient.handle at handled
  split at handled
  · cases handled
  · next middle outcome dispatched =>
      have before : Dispatching config client :=
        ⟨listening.scalarProxy, registry, listening.listRegistry, listening.registered⟩
      obtain ⟨scalar, after, list, all⟩ := before.dispatchEvent dispatched
      obtain ⟨created, _, ready⟩ := runPosted_listening scalar list all handled
      exact ⟨created, ready⟩

theorem listening_start (config : SubscriptionConfig) :
    Listening config start fun _ => none where
  scalarProxy := rfl
  listRegistry := rfl
  posted := rfl
  registered _ _ found := by cases found

/-! ## Mirroring -/

/-- A well-formed list event: its data are lists of items, each with a string as
its `id`, no two with the same. -/
structure ListEvent (event : Json) (items : List (Text × Json)) : Prop where
  noErrors : event.member? (ascii "errors") = none
  data : ∃ (fields : List (Text × Json)) (lists : List (List Json)),
    event.member? (ascii "data") = some (.object fields) ∧
      fields.map Prod.snd = lists.map Json.array ∧ lists.flatten = items.map Prod.snd
  ids : ∀ entry ∈ items, entry.2.member? (ascii "id") = some (.string entry.1)
  distinct : (items.map Prod.fst).Nodup

def objectPath (config : SubscriptionConfig) (id : Text) : Text :=
  config.dbusPath ++ ascii "/" ++ id

def objectAt (client : SseSubscriptionClient) (path : Text) : Option DbusObjectProxy :=
  client.listRegistry.bind fun registry => registry path

def Mirrored (library : Library) (config : SubscriptionConfig) (client : SseSubscriptionClient)
    (id : Text) (item : Json) : Prop :=
  ∃ proxy, client.objectAt (objectPath config id) = some proxy ∧
    ∀ jsonPath propName value, (jsonPath, propName) ∈ config.fieldMap →
      jsonAtPath item jsonPath = .ok (some value) →
      proxy.properties propName = some (stringForm library value)

/-- An object that exists needs paths whose lookup returns, and for each property
values of one string form of which the last is not an integer beyond `int64_t`.
An object that is to be created has to be accepted, and only empty values. -/
def Ready (library : Library) (config : SubscriptionConfig) (client : SseSubscriptionClient)
    (id : Text) (item : Json) : Prop :=
  match client.objectAt (objectPath config id) with
  | some _ =>
    (∀ entry ∈ config.fieldMap, ∃ found, jsonAtPath item entry.1 = .ok found) ∧
      ∀ name last, (resolved item config.fieldMap name).getLast? = some last →
        fitsInt64 last ∧ ∀ value ∈ resolved item config.fieldMap name,
          stringForm library value = stringForm library last
  | none =>
    library.accepts (objectPath config id) = true ∧
      ∀ name, ∀ value ∈ resolved item config.fieldMap name, stringForm library value = []

theorem mirrors_update_iff {proxy updated : DbusObjectProxy} {item : Json}
    (registered : Registered config.fieldMap proxy)
    (applied : proxy.applyUpdate library item config.fieldMap = .ok updated) :
    (∀ jsonPath propName value, (jsonPath, propName) ∈ config.fieldMap →
        jsonAtPath item jsonPath = .ok (some value) →
        updated.properties propName = some (stringForm library value)) ↔
      ∀ name last, (resolved item config.fieldMap name).getLast? = some last →
        fitsInt64 last ∧ ∀ value ∈ resolved item config.fieldMap name,
          stringForm library value = stringForm library last := by
  obtain ⟨_, _, values⟩ := registered.applyUpdate (List.Subset.refl _) applied
  constructor
  · intro mirrors name last found
    have set : updated.properties name = some (toStr library last) := by rw [values, found]
    have all : ∀ value ∈ resolved item config.fieldMap name,
        toStr library last = stringForm library value := by
      intro value member
      obtain ⟨jsonPath, mapped, looked⟩ := mem_resolved_iff.mp member
      exact Option.some.inj (set.symm.trans (mirrors jsonPath name value mapped looked))
    have own := all last (mem_of_getLast? found)
    exact ⟨(toStr_eq_stringForm_iff library last).mp own, fun value member =>
      (all value member).symm.trans own⟩
  · intro agrees jsonPath propName value mapped looked
    have member : value ∈ resolved item config.fieldMap propName :=
      mem_resolved_iff.mpr ⟨jsonPath, mapped, looked⟩
    obtain ⟨last, found⟩ := Option.ne_none_iff_exists'.mp
      (mt getLast?_eq_none_iff.mp (ne_nil_of_mem member))
    obtain ⟨fits, same⟩ := agrees propName last found
    rw [values, found, same value member]
    exact congrArg some ((toStr_eq_stringForm_iff library last).mpr fits)

variable {client : SseSubscriptionClient} {registry : DbusObjectRegistry}

theorem Listening.objectAt_eq (listening : Listening config client registry) (path : Text) :
    client.objectAt path = registry path := by
  rw [objectAt, listening.listRegistry, Option.bind_some]

section

variable {event : Json} {items : List (Text × Json)} (listEvent : ListEvent event items)

include listEvent

theorem ListEvent.itemPath_eq (config : SubscriptionConfig) :
    ∀ entry ∈ items, itemPath config entry.2 = objectPath config entry.1 := by
  intro entry member
  rw [itemPath, listEvent.ids entry member]
  rfl

theorem ListEvent.distinct_paths (config : SubscriptionConfig) :
    ((items.map Prod.snd).map (itemPath config)).Nodup := by
  have same : (items.map Prod.snd).map (itemPath config) =
      (items.map Prod.fst).map (objectPath config) := by
    rw [map_map, map_map]
    exact map_congr_left (listEvent.itemPath_eq config)
  rw [same]
  exact listEvent.distinct.map fun _ _ equal => append_cancel_left equal

variable (listening : Listening config client registry)

include listening

theorem ListEvent.handle_eq :
    client.handle library config (some event) =
      match (items.map Prod.snd).foldlM (dispatchItem library config) ⟨registry, []⟩ with
      | .error thrown => .error thrown
      | .ok listing =>
        runPosted library config
          { listRegistry := some listing.registry, posted := listing.posted } := by
  obtain ⟨_, lists, data, arrays, flat⟩ := listEvent.data
  obtain ⟨_, _⟩ := client
  obtain ⟨rfl, rfl, rfl, _⟩ := listening
  have folded := @dispatchPayloads_array library config lists { listRegistry := some registry }
    registry rfl
  simp only [handle, dispatchEvent, listEvent.noErrors, data, arrays, folded, flat]
  cases (items.map Prod.snd).foldlM (dispatchItem library config) ⟨registry, []⟩ <;> rfl

theorem Listening.handle_listEvent {next : SseSubscriptionClient}
    (handled : client.handle library config (some event) = .ok next) :
    ∀ entry ∈ items,
      (∀ old, client.objectAt (objectPath config entry.1) = some old →
        ∃ updated, old.applyUpdate library entry.2 config.fieldMap = .ok updated ∧
          next.objectAt (objectPath config entry.1) = some updated) ∧
      (client.objectAt (objectPath config entry.1) = none →
        library.accepts (objectPath config entry.1) = true ∧
          next.objectAt (objectPath config entry.1) = some (.create config.fieldMap)) := by
  intro entry member
  rw [listEvent.handle_eq listening] at handled
  split at handled
  · cases handled
  · next listing looped =>
      obtain ⟨_, handlers, ready⟩ := runPosted_listening rfl rfl
        (AllRegistered.dispatchItems listening.registered looped) handled
      have listed : entry.2 ∈ items.map Prod.snd := mem_map_of_mem member
      have after := createAll_eq_ok handlers (itemPath config entry.2)
      rw [listening.objectAt_eq, ready.objectAt_eq, ← listEvent.itemPath_eq config entry member]
      constructor
      · intro old known
        obtain ⟨updated, applied, kept⟩ :=
          dispatchItems_existing (listEvent.distinct_paths config) looped listed known
        exact ⟨updated, applied, after.1 updated kept⟩
      · intro known
        obtain ⟨_, missing, posted⟩ := dispatchItems_eq_ok looped (itemPath config entry.2)
        exact after.2 (missing.mpr known)
          (posted.mpr (.inr ⟨known, mem_map_of_mem listed⟩))

theorem Listening.handle_total
    (returns : ∀ entry ∈ items, ∀ old, client.objectAt (objectPath config entry.1) = some old →
      ∀ field ∈ config.fieldMap, ∃ found, jsonAtPath entry.2 field.1 = .ok found)
    (accepted : ∀ entry ∈ items, client.objectAt (objectPath config entry.1) = none →
      library.accepts (objectPath config entry.1) = true) :
    ∃ next, client.handle library config (some event) = .ok next := by
  have paths := listEvent.itemPath_eq config
  rw [listEvent.handle_eq listening]
  obtain ⟨listing, looped⟩ := @dispatchItems_total library config (items.map Prod.snd)
    ⟨registry, []⟩ (listEvent.distinct_paths config) fun item listed proxy known => by
      obtain ⟨entry, member, rfl⟩ := mem_map.mp listed
      rw [paths entry member] at known
      exact returns entry member proxy ((listening.objectAt_eq _).trans known)
  obtain ⟨_, handlers⟩ := @createAll_total library config listing.posted listing.registry
    fun path posted _ => by
      obtain ⟨known, listed⟩ :=
        ((dispatchItems_eq_ok looped path).2.2.mp posted).resolve_left not_mem_nil
      rw [map_map] at listed
      obtain ⟨entry, member, rfl⟩ := mem_map.mp listed
      rw [comp_apply, paths entry member] at known ⊢
      exact accepted entry member ((listening.objectAt_eq _).trans known)
  simp only [looped, runPosted, handlers]
  exact ⟨_, rfl⟩

end

theorem mirrored_create_iff (library : Library) (config : SubscriptionConfig) (item : Json) :
    (∀ jsonPath propName value, (jsonPath, propName) ∈ config.fieldMap →
        jsonAtPath item jsonPath = .ok (some value) →
        (DbusObjectProxy.create config.fieldMap).properties propName =
          some (stringForm library value)) ↔
      ∀ name, ∀ value ∈ resolved item config.fieldMap name, stringForm library value = [] := by
  have blank : ∀ jsonPath propName, (jsonPath, propName) ∈ config.fieldMap →
      (DbusObjectProxy.create config.fieldMap).properties propName = some [] :=
    fun _ _ mapped => if_pos (mem_map_of_mem mapped)
  constructor
  · intro mirrors name value resolves
    obtain ⟨jsonPath, mapped, looked⟩ := mem_resolved_iff.mp resolves
    have shown := mirrors jsonPath name value mapped looked
    exact (Option.some.inj ((blank jsonPath name mapped).symm.trans shown)).symm
  · intro empty jsonPath propName value mapped looked
    rw [blank jsonPath propName mapped,
      empty propName value (mem_resolved_iff.mpr ⟨jsonPath, mapped, looked⟩)]

/-- A well-formed list event is mirrored for all of its items exactly when each of
them finds an object whose mapped values agree and fit, or is new with nothing but
empty values. -/
theorem mirror_follows_iff (library : Library) (config : SubscriptionConfig)
    (earlier : List (Option Json)) (client : SseSubscriptionClient)
    (handled : earlier.foldlM (handle library config) start = .ok client) (event : Json)
    (items : List (Text × Json)) (listEvent : ListEvent event items) :
    (∃ next, client.handle library config (some event) = .ok next ∧
        ∀ entry ∈ items, Mirrored library config next entry.1 entry.2) ↔
      ∀ entry ∈ items, Ready library config client entry.1 entry.2 := by
  obtain ⟨registry, listening⟩ := foldlM_preserves
    (fun client => ∃ registry, Listening config client registry)
    (fun _ _ _ ⟨_, ready⟩ first => ready.handle first) ⟨_, listening_start config⟩ handled
  constructor
  · rintro ⟨next, handled, mirrored⟩ entry member
    obtain ⟨existing, missing⟩ := listening.handle_listEvent listEvent handled entry member
    obtain ⟨proxy, found, values⟩ := mirrored entry member
    unfold Ready
    cases known : client.objectAt (objectPath config entry.1) with
    | some old =>
      obtain ⟨_, applied, kept⟩ := existing old known
      obtain rfl := Option.some.inj (kept.symm.trans found)
      have registered := listening.registered _ old ((listening.objectAt_eq _).symm.trans known)
      exact ⟨(registered.applyUpdate (List.Subset.refl _) applied).2.1,
        (mirrors_update_iff registered applied).mp values⟩
    | none =>
      obtain ⟨accepted, new⟩ := missing known
      obtain rfl := Option.some.inj (new.symm.trans found)
      exact ⟨accepted, (mirrored_create_iff library config entry.2).mp values⟩
  · intro ready
    have returned := listening.handle_total listEvent (fun entry member old known => by
        have item := ready entry member
        rw [Ready, known] at item
        exact item.1)
      (fun entry member known => by
        have item := ready entry member
        rw [Ready, known] at item
        exact item.1)
    obtain ⟨next, handled⟩ := returned
    refine ⟨next, handled, fun entry member => ?_⟩
    obtain ⟨existing, missing⟩ := listening.handle_listEvent listEvent handled entry member
    have item := ready entry member
    unfold Ready at item
    cases known : client.objectAt (objectPath config entry.1) with
    | some old =>
      rw [known] at item
      obtain ⟨updated, applied, kept⟩ := existing old known
      have registered := listening.registered _ old ((listening.objectAt_eq _).symm.trans known)
      exact ⟨updated, kept, (mirrors_update_iff registered applied).mpr item.2⟩
    | none =>
      rw [known] at item
      exact ⟨_, (missing known).2, (mirrored_create_iff library config entry.2).mpr item.2⟩

def lenientLibrary : Library where
  floatToString text := text
  dump _ := []
  accepts _ := true

def chassisConfig : SubscriptionConfig where
  dbusPath := ascii "/chassis"
  fieldMap := [(ascii "name", ascii "Name")]

def chassisItem : Json :=
  .object [(ascii "id", .string (ascii "1")), (ascii "name", .string (ascii "Rack"))]

def chassisEvent : Json :=
  .object [(ascii "data", .object [(ascii "chassis", .array [chassisItem])])]

theorem listEvent_chassisEvent : ListEvent chassisEvent [(ascii "1", chassisItem)] where
  noErrors := by decide +kernel
  data := ⟨_, [[chassisItem]], rfl, rfl, rfl⟩
  ids := by
    intro entry member
    rw [mem_singleton.mp member]
    rfl
  distinct := nodup_singleton _

def chassisClient : SseSubscriptionClient where
  listRegistry := some (update (fun _ => none) (ascii "/chassis/1")
    (some (.create chassisConfig.fieldMap)))

theorem mirror_follows_second_event :
    ∃ next, chassisClient.handle lenientLibrary chassisConfig (some chassisEvent) = .ok next ∧
      ∀ entry ∈ [(ascii "1", chassisItem)],
        Mirrored lenientLibrary chassisConfig next entry.1 entry.2 := by
  refine (mirror_follows_iff lenientLibrary chassisConfig [some chassisEvent] chassisClient
    rfl chassisEvent _ listEvent_chassisEvent).mpr ?_
  intro entry member
  rw [mem_singleton.mp member]
  have looked : jsonAtPath chassisItem (ascii "name") = .ok (some (.string (ascii "Rack"))) := rfl
  have found : chassisClient.objectAt (objectPath chassisConfig (ascii "1")) =
      some (.create chassisConfig.fieldMap) := rfl
  simp only [Ready, found]
  constructor
  · intro field mapped
    rw [mem_singleton.mp mapped]
    exact ⟨_, looked⟩
  · intro name last resolves
    have only : ∀ value ∈ resolved chassisItem chassisConfig.fieldMap name,
        value = .string (ascii "Rack") := by
      intro value member
      obtain ⟨_, mapped, other⟩ := mem_resolved_iff.mp member
      cases mem_singleton.mp mapped
      cases other.symm.trans looked
      rfl
    obtain rfl := only last (mem_of_getLast? resolves)
    exact ⟨trivial, fun value member => by rw [only value member]⟩

theorem first_event_not_mirrored :
    ListEvent chassisEvent [(ascii "1", chassisItem)] ∧
      ∃ next, start.handle lenientLibrary chassisConfig (some chassisEvent) = .ok next ∧
        ∃ proxy, next.objectAt (objectPath chassisConfig (ascii "1")) = some proxy ∧
          jsonAtPath chassisItem (ascii "name") = .ok (some (.string (ascii "Rack"))) ∧
          proxy.properties (ascii "Name") = some [] ∧
          ¬ Mirrored lenientLibrary chassisConfig next (ascii "1") chassisItem := by
  refine ⟨listEvent_chassisEvent, chassisClient, rfl, _, rfl, rfl, rfl, ?_⟩
  rintro ⟨proxy, found, values⟩
  have shown := values _ _ (.string (ascii "Rack")) (mem_singleton_self _) rfl
  cases found
  exact absurd shown (by decide)

end SseSubscriptionClient

end Coroserver.Dbus.GraphqlBridge
