import Coroserver.GraphQL.SubscriptionDelivery
import Coroserver.Http.SubscriptionProperties

/-! A key is the query, the dump of the variables and the key of the trigger with
bars between them. The query and the strings of the dump may hold bars, too. The
dump starts at a certain place all the same: a bar of compact JSON stands in a
string, and what follows it would be read with inside and outside exchanged. -/

namespace Coroserver.GraphQL

open List
open SubscriptionExecutor (prepare statusSchema)

inductive StringBody : Text → Prop where
  | nil : StringBody []
  | plain {c rest} : c ≠ 34 → c ≠ 92 → StringBody rest → StringBody (c :: rest)
  | escape (c : UInt8) {rest} : StringBody rest → StringBody (92 :: c :: rest)

def quoted (body : Text) : Text := 34 :: (body ++ [34])

/-- JSON without white space; any text of their characters counts as a number. -/
inductive CompactJson : Text → Prop where
  | word {text : Text} : text ∈ [ascii "null", ascii "true", ascii "false"] → CompactJson text
  | number {text} : (∀ c ∈ text, c ∈ ascii "+-.0123456789Ee") → CompactJson text
  | string {body} : StringBody body → CompactJson (quoted body)
  | array {items : List Text} :
      (∀ item ∈ items, CompactJson item) → CompactJson (91 :: ([44].intercalate items ++ [93]))
  | object {members : List (Text × Text)} :
      (∀ member ∈ members, StringBody member.1) → (∀ member ∈ members, CompactJson member.2) →
      CompactJson (123 :: ([44].intercalate
        (members.map fun member => quoted member.1 ++ 58 :: member.2) ++ [125]))

inductive Quoting where
  | outside
  | inside
  | escaped

namespace Quoting

def next : Quoting → UInt8 → Option Quoting
  | .outside, c =>
    if c = 34 then some .inside else if c = 92 ∨ c = 124 then none else some .outside
  | .inside, c =>
    if c = 34 then some .outside else if c = 92 then some .escaped else some .inside
  | .escaped, _ => some .inside

def Opposed (first second : Quoting) : Prop :=
  first = .outside ∧ second = .inside ∨ first = .inside ∧ second = .outside

variable {first second firstEnd secondEnd : Quoting}

theorem Opposed.next {c : UInt8} (opposed : Opposed first second)
    (moved : first.next c = some firstEnd) (movedSecond : second.next c = some secondEnd) :
    Opposed firstEnd secondEnd := by
  obtain ⟨rfl, rfl⟩ | ⟨rfl, rfl⟩ := opposed
  · grind [Quoting.next, Opposed]
  · grind [Quoting.next, Opposed]

theorem Opposed.foldlM {text : Text} (opposed : Opposed first second)
    (scanned : text.foldlM Quoting.next first = some firstEnd)
    (scannedSecond : text.foldlM Quoting.next second = some secondEnd) :
    Opposed firstEnd secondEnd := by
  induction text generalizing first second with
  | nil =>
    cases scanned
    cases scannedSecond
    exact opposed
  | cons c rest ih =>
    obtain ⟨_, moved, later⟩ := Option.bind_eq_some_iff.mp scanned
    obtain ⟨other, movedSecond, laterSecond⟩ := Option.bind_eq_some_iff.mp scannedSecond
    exact ih (opposed.next moved movedSecond) later laterSecond

end Quoting

def Balanced (text : Text) : Prop := text.foldlM Quoting.next .outside = some .outside

section

variable {text tail : Text}

theorem Balanced.append (balanced : Balanced text) (later : Balanced tail) :
    Balanced (text ++ tail) := by
  rw [Balanced, foldlM_append, balanced]
  exact later

theorem balanced_of_plain (plain : ∀ c ∈ text, c ∉ ([34, 92, 124] : Text)) : Balanced text := by
  induction text with
  | nil => rfl
  | cons c rest ih =>
    obtain ⟨here, later⟩ := forall_mem_cons.mp plain
    have kept : Quoting.next .outside c = some .outside := by grind [Quoting.next]
    rw [Balanced, foldlM_cons, kept]
    exact ih later

theorem StringBody.balanced_quoted (body : StringBody text) : Balanced (quoted text) := by
  have inner : text.foldlM Quoting.next .inside = some .inside := by
    induction body with
    | nil => rfl
    | plain notQuote notBackslash _ ih =>
      rw [foldlM_cons, Quoting.next, if_neg notQuote, if_neg notBackslash]
      exact ih
    | escape c _ ih => exact ih
  rw [Balanced, quoted, foldlM_cons]
  change (text ++ [34]).foldlM Quoting.next .inside = _
  rw [foldlM_append, inner]
  rfl

private theorem balanced_intercalate {items : List Text} (each : ∀ item ∈ items, Balanced item) :
    Balanced ([44].intercalate items) := by
  induction items with
  | nil => rfl
  | cons item rest ih =>
    obtain ⟨here, later⟩ := forall_mem_cons.mp each
    cases rest with
    | nil => simpa [List.intercalate] using here
    | cons =>
      have comma : Balanced [44] := rfl
      simpa [List.intercalate] using here.append (comma.append (ih later))

theorem CompactJson.balanced (json : CompactJson text) : Balanced text := by
  have opens (c : UInt8) (plain : c ∉ ([34, 92, 124] : Text)) : Balanced [c] :=
    balanced_of_plain (forall_mem_singleton.mpr plain)
  induction json with
  | word listed =>
    refine balanced_of_plain ?_
    revert listed
    decide +kernel +revert
  | number numeric =>
    have plain : ∀ c ∈ ascii "+-.0123456789Ee", c ∉ ([34, 92, 124] : Text) := by
      decide +kernel
    exact balanced_of_plain fun c member => plain c (numeric c member)
  | string body => exact body.balanced_quoted
  | array _ each =>
    exact ((opens 91 (by decide)).append (balanced_intercalate each)).append (opens 93 (by decide))
  | object names _ each =>
    refine ((opens 123 (by decide)).append (balanced_intercalate ?_)).append
      (opens 125 (by decide))
    intro entry written
    obtain ⟨member, listed, rfl⟩ := mem_map.mp written
    exact (names member listed).balanced_quoted.append
      ((opens 58 (by decide)).append (each member listed))

theorem Balanced.ne_append_bar {before : Text} (balanced : Balanced text)
    (later : Balanced tail) : text ≠ before ++ 124 :: tail := by
  rintro rfl
  rw [Balanced, foldlM_append] at balanced
  obtain ⟨quoting, -, rest⟩ := Option.bind_eq_some_iff.mp balanced
  obtain ⟨entered, atBar, scanned⟩ := Option.bind_eq_some_iff.mp rest
  have inside : entered = .inside := by
    cases quoting <;> simp_all [Quoting.next]
  rw [inside] at scanned
  have opposed := Quoting.Opposed.foldlM (.inl ⟨rfl, rfl⟩) later scanned
  simp [Quoting.Opposed] at opposed

theorem eq_of_bars {Tail : Text → Prop} {first second other : Text}
    (apart : ∀ {text tail before}, Tail text → Tail tail → text ≠ before ++ 124 :: tail)
    (ends : Tail tail) (endsOther : Tail other)
    (same : first ++ 124 :: tail = second ++ 124 :: other) : first = second ∧ tail = other := by
  obtain ⟨more, rfl, rest⟩ | ⟨more, rfl, rest⟩ := append_eq_append_iff.mp same
  · cases more with
    | nil => simpa using rest
    | cons => exact absurd (List.cons.inj rest).2 (apart ends endsOther)
  · cases more with
    | nil => simpa using rest.symm
    | cons => exact absurd (List.cons.inj rest).2 (apart endsOther ends)

theorem bar_not_mem_triggerKey (trigger : SubscriptionTrigger) : 124 ∉ trigger.triggerKey := by
  cases trigger with
  | timer =>
    intro member
    cases Http.isUnreserved_of_mem_decimal member
  | event => exact (by decide : 124 ∉ ascii "event")

end

section

variable {stod : Text → Bool} {dump : Members → Option Text}
  {schema : TypedSchema} {query otherQuery : Text} {vars otherVars : Members}
  {trigger otherTrigger : SubscriptionTrigger} {request other : SubscriptionRequest}

private theorem key_of_prepare
    (prepared : prepare stod dump schema query vars trigger = some request) :
    ∃ dumped, dump request.mergedVariables = some dumped ∧
      request.key = (query ++ 124 :: dumped) ++ 124 :: trigger.triggerKey := by
  simp only [prepare, Option.bind_eq_bind, Option.bind_eq_some_iff] at prepared
  obtain ⟨_, _, _, _, _, _, dumped, found, ⟨⟩⟩ := prepared
  refine ⟨dumped, found, ?_⟩
  simp only [append_assoc]
  rfl

/-- Calls that share a session agree in their query, their variables and the key
of their trigger. -/
theorem shared_session_identical
    (compact : ∀ members text, dump members = some text → CompactJson text)
    (injective : ∀ members others text, dump members = some text → dump others = some text →
      members = others)
    (prepared : prepare stod dump schema query vars trigger = some request)
    (preparedOther : prepare stod dump schema otherQuery otherVars otherTrigger = some other)
    (same : request.key = other.key) :
    query = otherQuery ∧ request.mergedVariables = other.mergedVariables ∧
      trigger.triggerKey = otherTrigger.triggerKey := by
  obtain ⟨_, found, key⟩ := key_of_prepare prepared
  obtain ⟨_, foundOther, keyOther⟩ := key_of_prepare preparedOther
  rw [key, keyOther] at same
  have apart : ∀ {text tail before : Text}, 124 ∉ text → 124 ∉ tail →
      text ≠ before ++ 124 :: tail := by
    rintro _ tail before free - rfl
    exact free (mem_append_right before mem_cons_self)
  obtain ⟨front, triggers⟩ := eq_of_bars apart (bar_not_mem_triggerKey trigger)
    (bar_not_mem_triggerKey otherTrigger) same
  obtain ⟨queries, rfl⟩ := eq_of_bars Balanced.ne_append_bar (compact _ _ found).balanced
    (compact _ _ foundOther).balanced front
  exact ⟨queries, injective _ _ _ found foundOther, triggers⟩

end

def noVariablesDump : Members → Option Text
  | [] => some (ascii "\x7b\x7d")
  | _ => none

theorem shared_session_identical_status :
    ∃ request other, prepare (fun _ => true) noVariablesDump statusSchema
        (ascii "subscription\x7bstatus\x7d") [] (.event true false) = some request ∧
      prepare (fun _ => true) noVariablesDump statusSchema
        (ascii "subscription\x7bstatus\x7d") [] (.event false false) = some other ∧
      request.key = other.key ∧ request.mergedVariables = other.mergedVariables := by
  have keys : ∀ pending, (prepare (fun _ => true) noVariablesDump statusSchema
      (ascii "subscription\x7bstatus\x7d") [] (.event pending false)).map
        SubscriptionRequest.key = some (ascii "subscription\x7bstatus\x7d|\x7b\x7d|event") := by
    decide +kernel
  obtain ⟨request, prepared, key⟩ := Option.map_eq_some_iff.mp (keys true)
  obtain ⟨other, preparedOther, keyOther⟩ := Option.map_eq_some_iff.mp (keys false)
  have same := key.trans keyOther.symm
  refine ⟨request, other, prepared, preparedOther, same, ?_⟩
  refine (shared_session_identical ?_ ?_ prepared preparedOther same).2.1
  · rintro (_ | _) text ⟨⟩
    exact @CompactJson.object [] nofun nofun
  · rintro (_ | _) (_ | _) text first second
    · rfl
    · cases second
    · cases first
    · cases first

end Coroserver.GraphQL
