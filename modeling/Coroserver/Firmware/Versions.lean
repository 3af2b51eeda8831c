import Coroserver.Firmware.Downloader
import Mathlib.Data.List.Forall2
import Mathlib.Data.Prod.Lex
import Mathlib.Data.Set.Function

/-! How the versions of images are compared to select one for a download, and how
they become components of object paths. Integers that `sscanf` reads are in range. -/

namespace Coroserver.Firmware

open List

def isSpace (c : UInt8) : Bool := c == 32 || decide (9 ≤ c ∧ c ≤ 13)

def isDigit (c : UInt8) : Bool := decide (48 ≤ c ∧ c ≤ 57)

def scanDigits (text : Bytes) : Option (Int × Bytes) :=
  match text.takeWhile isDigit with
  | [] => none
  | digits =>
    some (digits.foldl (fun value c => 10 * value + (c.toNat - 48)) 0, text.dropWhile isDigit)

def scanInteger (text : Bytes) : Option (Int × Bytes) :=
  match text.dropWhile isSpace with
  | 45 :: rest => (scanDigits rest).map fun (value, left) => (-value, left)
  | 43 :: rest => scanDigits rest
  | rest => scanDigits rest

/-- The integers that `sscanf` assigns for so many conversions with `.` between. -/
def scanIntegers : Nat → Bytes → List Int
  | 0, _ => []
  | count + 1, text =>
    match scanInteger text with
    | none => []
    | some (value, 46 :: rest) => value :: scanIntegers count rest
    | some (value, _) => [value]

def parseVersion (ver : Bytes) : Int ×ₗ Int ×ₗ Int :=
  let numbers := scanIntegers 3 ver
  toLex (numbers.getD 0 0, toLex (numbers.getD 1 0, numbers.getD 2 0))

def isNewerThan (candidate current : Bytes) : Bool :=
  decide (parseVersion candidate > parseVersion current)

structure AppConfig where
  allowedVersions : List Bytes
  deniedVersions : List Bytes

def isAllowedVersion (candidate : Bytes) (cfg : AppConfig) : Bool :=
  if !cfg.deniedVersions.isEmpty && cfg.deniedVersions.contains candidate then false
  else if !cfg.allowedVersions.isEmpty && !cfg.allowedVersions.contains candidate then false
  else true

/-- `std::ranges::max_element`, which keeps the first of equal elements. -/
def maxElement {Item : Type} (less : Item → Item → Bool) (largest : Item) : List Item → Item
  | [] => largest
  | item :: rest => maxElement less (if less largest item then item else largest) rest

def eligible (currentVer : Bytes) (cfg : AppConfig) (entry : FirmwareEntry) : Bool :=
  isNewerThan entry.version currentVer && isAllowedVersion entry.version cfg

def selectCandidates (catalogue : List FirmwareEntry) (currentVer : Bytes)
    (cfg : AppConfig) : List FirmwareEntry :=
  match catalogue.filter (eligible currentVer cfg) with
  | [] => []
  | first :: rest =>
    [maxElement (fun a b => decide (parseVersion a.version < parseVersion b.version)) first rest]

theorem maxElement_spec {Item Value : Type} [LinearOrder Value] {value : Item → Value}
    {largest best : Item} {items : List Item}
    (found : maxElement (fun a b => decide (value a < value b)) largest items = best) :
    best ∈ largest :: items ∧ ∀ item ∈ largest :: items, value item ≤ value best := by
  induction items generalizing largest with
  | nil => simp_all [maxElement]
  | cons next items ih =>
    obtain ⟨member, greatest⟩ := ih found
    by_cases newer : value largest < value next
    · simp only [newer, decide_true, if_true] at member greatest
      refine ⟨mem_cons_of_mem _ member, forall_mem_cons.mpr ⟨?_, greatest⟩⟩
      exact newer.le.trans (greatest next mem_cons_self)
    · simp only [newer, decide_false, Bool.false_eq_true, if_false] at member greatest
      obtain ⟨first, others⟩ := forall_mem_cons.mp greatest
      refine ⟨mem_cons.mpr ((mem_cons.mp member).imp_right (mem_cons_of_mem _)), ?_⟩
      exact forall_mem_cons.mpr ⟨first, forall_mem_cons.mpr ⟨(not_lt.mp newer).trans first, others⟩⟩

theorem not_denied {candidate : Bytes} {cfg : AppConfig}
    (allowed : isAllowedVersion candidate cfg = true) : candidate ∉ cfg.deniedVersions := by
  intro denied
  have listed : cfg.deniedVersions.isEmpty = false := by
    simpa using ne_nil_of_mem denied
  simp [isAllowedVersion, listed, denied] at allowed

theorem eligible_iff {currentVer : Bytes} {cfg : AppConfig} {entry : FirmwareEntry} :
    eligible currentVer cfg entry = true ↔ parseVersion currentVer < parseVersion entry.version ∧
      isAllowedVersion entry.version cfg = true := by
  rw [eligible, isNewerThan, Bool.and_eq_true, decide_eq_true_iff, gt_iff_lt]

/-- At most one entry is selected, a newer and permitted one that no other is newer than,
and none only if no entry is newer and permitted. -/
theorem newest_eligible_selected (catalogue : List FirmwareEntry) (currentVer : Bytes)
    (cfg : AppConfig) :
    (selectCandidates catalogue currentVer cfg).length ≤ 1 ∧
      (selectCandidates catalogue currentVer cfg = [] ↔
        ∀ entry ∈ catalogue, ¬(parseVersion currentVer < parseVersion entry.version ∧
          isAllowedVersion entry.version cfg = true)) ∧
      ∀ best ∈ selectCandidates catalogue currentVer cfg,
        (best ∈ catalogue ∧ parseVersion currentVer < parseVersion best.version ∧
            isAllowedVersion best.version cfg = true) ∧
          (∀ entry ∈ catalogue, parseVersion currentVer < parseVersion entry.version →
            isAllowedVersion entry.version cfg = true →
            parseVersion entry.version ≤ parseVersion best.version) ∧
          best.version ∉ cfg.deniedVersions := by
  unfold selectCandidates
  split
  · next none => simpa [filter_eq_nil_iff, eligible_iff] using none
  · next first rest candidates =>
    refine ⟨Nat.le_refl 1, ?_, ?_⟩
    · refine iff_of_false (cons_ne_nil _ _) fun none => ?_
      have member : first ∈ catalogue.filter (eligible currentVer cfg) := candidates ▸ mem_cons_self
      obtain ⟨listed, isEligible⟩ := mem_filter.mp member
      exact none first listed (eligible_iff.mp isEligible)
    · intro best selected
      obtain ⟨member, greatest⟩ := maxElement_spec (mem_singleton.mp selected).symm
      rw [← candidates] at member greatest
      obtain ⟨listed, isEligible⟩ := mem_filter.mp member
      obtain ⟨newer, allowed⟩ := eligible_iff.mp isEligible
      refine ⟨⟨listed, newer, allowed⟩, fun entry present newer allowed => ?_, not_denied allowed⟩
      exact greatest entry (mem_filter.mpr ⟨present, eligible_iff.mpr ⟨newer, allowed⟩⟩)

/-- Once the selected image is installed, the next check selects nothing. -/
theorem nothing_newer_than_selected {catalogue : List FirmwareEntry} {currentVer : Bytes}
    {cfg : AppConfig} {best : FirmwareEntry}
    (selected : best ∈ selectCandidates catalogue currentVer cfg) :
    selectCandidates catalogue best.version cfg = [] := by
  unfold selectCandidates at selected
  split at selected
  · next none => exact absurd selected not_mem_nil
  · next first rest candidates =>
    obtain ⟨member, greatest⟩ := maxElement_spec (mem_singleton.mp selected).symm
    rw [← candidates] at member greatest
    have none : catalogue.filter (eligible best.version cfg) = [] := by
      refine filter_eq_nil_iff.mpr fun entry listed newer => ?_
      simp only [eligible_iff, mem_filter] at *
      exact (greatest entry ⟨listed, member.2.1.trans newer.1, newer.2⟩).not_gt newer.1
    rw [selectCandidates, none]

theorem nothing_newer_than_second :
    selectCandidates [⟨[49], [], []⟩, ⟨[50], [], []⟩] [50] ⟨[], []⟩ = [] :=
  nothing_newer_than_selected
    (show ⟨[50], [], []⟩ ∈ selectCandidates [⟨[49], [], []⟩, _] [48] ⟨[], []⟩ by decide +kernel)

def sanitise (version : Bytes) : Bytes := version.map fun c => if c = 46 then 95 else c

def componentByte (c : UInt8) : Bool :=
  isDigit c || decide (65 ≤ c ∧ c ≤ 90) || decide (97 ≤ c ∧ c ≤ 122) || c == 95

def IsVersion (version : Bytes) : Prop :=
  version ≠ [] ∧ ∀ c ∈ version, componentByte c = true ∨ c = 46 ∨ c = 45

def IsComponent (component : Bytes) : Prop :=
  component ≠ [] ∧ ∀ c ∈ component, componentByte c = true

def Confused (a b : UInt8) : Prop := a = b ∨ (a = 46 ∨ a = 95) ∧ (b = 46 ∨ b = 95)

theorem sanitise_eq_iff (version other : Bytes) :
    sanitise version = sanitise other ↔ Forall₂ Confused version other := by
  have byte (c d : UInt8) :
      (if c = 46 then 95 else c) = (if d = 46 then 95 else d) ↔ Confused c d := by
    grind [Confused]
  rw [← forall₂_eq_eq_eq, sanitise, sanitise, forall₂_map_left_iff, forall₂_map_right_iff]
  simp [byte]

private theorem isComponent_sanitise_iff {version : Bytes} (valid : IsVersion version) :
    IsComponent (sanitise version) ↔ 45 ∉ version := by
  simp only [IsComponent, sanitise, ne_eq, map_eq_nil_iff, forall_mem_map, valid.1, not_false_iff,
    true_and]
  constructor
  · intro component dash
    have refused := component 45 dash
    cases refused
  · intro dashless c member
    split
    · rfl
    · next other =>
      rcases valid.2 c member with allowed | period | rfl
      · exact allowed
      · exact absurd period other
      · exact absurd member dashless

/-- The components are valid exactly if no version has a `-`, and distinct exactly
if no two versions differ only in `.` and `_`. -/
theorem components_valid_iff {versions : Set Bytes}
    (valid : ∀ version ∈ versions, IsVersion version) :
    (∀ version ∈ versions, IsComponent (sanitise version)) ∧ versions.InjOn sanitise ↔
      (∀ version ∈ versions, 45 ∉ version) ∧
        ∀ version ∈ versions, ∀ other ∈ versions, Forall₂ Confused version other →
          version = other := by
  refine and_congr (forall₂_congr fun version member =>
    isComponent_sanitise_iff (valid version member)) ?_
  simp [Set.InjOn, sanitise_eq_iff]

theorem components_valid_iff_plain :
    (∀ version ∈ ({[49, 46, 48], [49, 46, 49]} : Set Bytes), IsComponent (sanitise version)) ∧
      Set.InjOn sanitise {[49, 46, 48], [49, 46, 49]} := by
  have valid : ∀ version ∈ ({[49, 46, 48], [49, 46, 49]} : Set Bytes), IsVersion version := by
    rintro _ (rfl | rfl) <;> exact ⟨nofun, by decide +kernel⟩
  refine (components_valid_iff valid).mpr ⟨?_, ?_⟩
  · rintro _ (rfl | rfl) <;> decide
  · rintro _ (rfl | rfl) _ (rfl | rfl) confused <;> simp [Confused] at confused ⊢

theorem components_invalid :
    ¬IsComponent (sanitise [49, 45, 48]) ∧ sanitise [49, 46, 48] = sanitise [49, 95, 48] :=
  ⟨fun component => (nomatch component.2 45 (by decide)), rfl⟩

end Coroserver.Firmware
