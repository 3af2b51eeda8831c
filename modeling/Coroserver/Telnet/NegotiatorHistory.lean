import Coroserver.Telnet.NegotiatorProperties

/-! Histories of `request` and `handle` calls, with every message emitted. -/

namespace Coroserver.Telnet

open Handshake (Endpoint)

inductive Input where
  | request (verb option : UInt8)
  | handle (message : Negotiation)

structure History where
  negotiator : Negotiator
  emitted : List Negotiation := []

namespace History

def record (h : History) (result : Negotiator × Bytes) : History :=
  ⟨result.1, h.emitted ++ transmitted result.2⟩

def step (h : History) : Input → History
  | .request verb option => h.record (h.negotiator.request verb option)
  | .handle message => h.record (h.negotiator.handle message)

def run (policy : Policy) (inputs : List Input) : History :=
  inputs.foldl step ⟨{ policy := policy }, []⟩

end History

def lastAnnounced (role : Role) (option : UInt8) (emitted : List Negotiation) :
    Option Negotiation :=
  (emitted.filter fun message => message.option == option &&
    (message.verb == role.verb true || message.verb == role.verb false)).getLast?

/-- What is enabled was announced: the last WILL/WONT for an option we perform
is WILL, and the last DO/DONT for an option the peer performs is DO. -/
def History.Truthful (h : History) : Prop :=
  ∀ option,
    (h.negotiator.localEnabled option = true →
      lastAnnounced .us option h.emitted = some ⟨Cmd.will, option⟩) ∧
    (h.negotiator.remoteEnabled option = true →
      lastAnnounced .him option h.emitted = some ⟨Cmd.doo, option⟩)

/-- The peer asks for an option that is already enabled, but that the policy
does not accept. -/
def Negotiator.RefusesEnabled (n : Negotiator) : Input → Prop
  | .request _ _ => False
  | .handle message =>
    (message.verb = Cmd.doo ∧ n.localEnabled message.option = true ∧
      n.policy.localOptions message.option = false) ∨
    (message.verb = Cmd.will ∧ n.remoteEnabled message.option = true ∧
      n.policy.remoteOptions message.option = false)

theorem lastAnnounced_append_same (role : Role) (option : UInt8) (emitted : List Negotiation)
    (signal : Bool) :
    lastAnnounced role option (emitted ++ [role.message option signal]) =
      some (role.message option signal) := by
  cases signal <;> simp [lastAnnounced, Role.message]

theorem lastAnnounced_append_other {role otherRole : Role} {option otherOption : UInt8}
    (different : (otherRole, otherOption) ≠ (role, option)) (emitted : List Negotiation)
    (signals : List Bool) :
    lastAnnounced otherRole otherOption (emitted ++ signals.map (role.message option)) =
      lastAnnounced otherRole otherOption emitted := by
  have skipped : (signals.map (role.message option)).filter (fun message =>
      message.option == otherOption && (message.verb == otherRole.verb true ||
        message.verb == otherRole.verb false)) = [] := by
    rw [List.filter_eq_nil_iff]
    intro message sent
    obtain ⟨_, -, rfl⟩ := List.mem_map.mp sent
    simp only [Role.message, Bool.and_eq_true, beq_iff_eq, Bool.or_eq_true, not_and, not_or]
    intro sameOption
    constructor <;> exact fun sameVerb => different (by rw [(Role.verb_inj sameVerb).1, sameOption])
  rw [lastAnnounced, List.filter_append, skipped, List.append_nil, lastAnnounced]

theorem History.step_cases (h : History) (input : Input) :
    h.step input = h ∨
    ∃ role option signal,
      (input = .request (role.verb signal) option ∧
        h.negotiator.Moves role option (fun e => e.ask signal)
          (h.negotiator.request (role.verb signal) option)) ∨
      (input = .handle (role.opposite.message option signal) ∧ h.negotiator.Moves role option
          (fun e => e.answer (h.negotiator.accepts role option) signal)
          (h.negotiator.handle (role.opposite.message option signal))) := by
  cases input with
  | request verb option =>
    by_cases known : ∃ (role : Role) (signal : Bool), verb = role.verb signal
    · obtain ⟨role, signal, rfl⟩ := known
      exact .inr ⟨role, option, signal, .inl ⟨rfl, h.negotiator.request_moves role signal option⟩⟩
    · push Not at known
      left
      simp [History.step, History.record, h.negotiator.request_other option known, transmitted_nil]
  | handle message =>
    by_cases known : ∃ (role : Role) (signal : Bool), message.verb = role.verb signal
    · obtain ⟨role, signal, announced⟩ := known
      have shape : message = role.opposite.opposite.message message.option signal := by
        rw [Role.opposite_opposite, Role.message, ← announced]
      refine .inr ⟨role.opposite, message.option, signal, .inr ⟨by rw [← shape], ?_⟩⟩
      exact h.negotiator.handle_moves role.opposite signal message.option
    · push Not at known
      left
      simp [History.step, History.record, h.negotiator.handle_other known, transmitted_nil]

def History.Exclusive (h : History) : Prop :=
  ∀ role option, (h.negotiator.entry role option).enabled = true →
    (h.negotiator.entry role option).pending = false

def History.Announced (h : History) : Prop :=
  ∀ role option, ((h.negotiator.entry role option).enabled = true ∨
      (h.negotiator.entry role option).pending = true) →
    lastAnnounced role option h.emitted = some (role.message option true)

section RecordedMove

variable {h : History} {role : Role} {option : UInt8}
  {move : Endpoint → Endpoint × Option Bool} {result : Negotiator × Bytes}

theorem History.record_exclusive (exclusive : h.Exclusive)
    (moves : h.negotiator.Moves role option move result)
    (keeps : ∀ e : Endpoint, (e.on = true → e.waiting = false) →
      (move e).1.on = true → (move e).1.waiting = false) : (h.record result).Exclusive := by
  intro otherRole otherOption enabled
  by_cases same : (otherRole, otherOption) = (role, option)
  · obtain ⟨rfl, rfl⟩ := Prod.mk.inj same
    have moved := moves.moved
    have kept := keeps (h.negotiator.entry otherRole otherOption).endpoint
      (exclusive otherRole otherOption)
    rw [← moved] at kept
    exact kept enabled
  · have kept := moves.kept _ _ same
    simp only [History.record] at enabled ⊢
    rw [kept] at enabled ⊢
    exact exclusive _ _ enabled

theorem History.record_announced (announced : h.Announced)
    (moves : h.negotiator.Moves role option move result)
    (keeps : ∀ e : Endpoint, e = (h.negotiator.entry role option).endpoint →
      ((move e).1.on = true ∨ (move e).1.waiting = true) →
      (move e).2 = some true ∨ ((move e).2 = none ∧ (e.on = true ∨ e.waiting = true))) :
    (h.record result).Announced := by
  intro otherRole otherOption active
  by_cases same : (otherRole, otherOption) = (role, option)
  · obtain ⟨rfl, rfl⟩ := Prod.mk.inj same
    have after : (move (h.negotiator.entry otherRole otherOption).endpoint).1.on = true ∨
        (move (h.negotiator.entry otherRole otherOption).endpoint).1.waiting = true := by
      rw [← moves.moved]
      exact active
    simp only [History.record, moves.sent]
    rcases keeps _ rfl after with announces | ⟨silent, before⟩
    · simpa [announces] using lastAnnounced_append_same otherRole otherOption h.emitted true
    · simpa [silent] using announced otherRole otherOption before
  · have kept := moves.kept _ _ same
    simp only [History.record] at active ⊢
    rw [kept] at active
    rw [moves.sent, lastAnnounced_append_other same]
    exact announced _ _ active

end RecordedMove

theorem History.Exclusive.step {h : History} (exclusive : h.Exclusive) (input : Input) :
    (h.step input).Exclusive := by
  rcases h.step_cases input with ignored | ⟨role, option, signal, asked | answered⟩
  · rw [ignored]
    exact exclusive
  · obtain ⟨rfl, moves⟩ := asked
    refine History.record_exclusive exclusive moves ?_
    rintro ⟨on, waiting⟩
    cases signal <;> cases on <;> cases waiting <;> simp [Endpoint.ask]
  · obtain ⟨rfl, moves⟩ := answered
    refine History.record_exclusive exclusive moves ?_
    rintro ⟨on, waiting⟩
    cases signal <;> cases on <;> cases waiting <;>
      cases h.negotiator.accepts role option <;> simp [Endpoint.answer]

open Negotiator

theorem Negotiator.refusesEnabled_iff (n : Negotiator) (role : Role) (option : UInt8)
    (signal : Bool) :
    n.RefusesEnabled (.handle (role.opposite.message option signal)) ↔
      signal = true ∧ (n.entry role option).enabled = true ∧ n.accepts role option = false := by
  cases role <;> cases signal <;>
    simp [RefusesEnabled, Role.opposite, Role.message, Role.verb, entry,
      accepts, localEnabled, remoteEnabled, Cmd.doo, Cmd.will,
      Cmd.dont, Cmd.wont]

variable {input : Input}

theorem Negotiator.RefusesEnabled.shape {n : Negotiator} (refuses : n.RefusesEnabled input) :
    ∃ role option, input = .handle (Role.message (Role.opposite role) option true) ∧
      (n.entry role option).enabled = true ∧ n.accepts role option = false := by
  cases input with
  | request => exact refuses.elim
  | handle message =>
    obtain ⟨verb, option⟩ := message
    rcases refuses with ⟨verbIs, enabled, refused⟩ | ⟨verbIs, enabled, refused⟩
    · have isDo : verb = Cmd.doo := verbIs
      exact ⟨.us, option, by rw [isDo]; rfl, enabled, refused⟩
    · have isWill : verb = Cmd.will := verbIs
      exact ⟨.him, option, by rw [isWill]; rfl, enabled, refused⟩

theorem History.Announced.step {h : History} (exclusive : h.Exclusive) (announced : h.Announced)
    (honest : ¬ h.negotiator.RefusesEnabled input) : (h.step input).Announced := by
  rcases h.step_cases input with ignored | ⟨role, option, signal, asked | answered⟩
  · rw [ignored]
    exact announced
  · obtain ⟨rfl, moves⟩ := asked
    refine History.record_announced announced moves ?_
    rintro ⟨on, waiting⟩ -
    cases signal <;> cases on <;> cases waiting <;> simp [Endpoint.ask]
  · obtain ⟨rfl, moves⟩ := answered
    rw [refusesEnabled_iff] at honest
    refine History.record_announced announced moves ?_
    rintro e rfl
    have disjoint := exclusive role option
    generalize h.negotiator.accepts role option = accepts at honest ⊢
    generalize h.negotiator.entry role option = s at honest disjoint ⊢
    rcases s with ⟨enabled, pending⟩
    cases signal <;> cases enabled <;> cases pending <;> cases accepts <;>
      simp_all [Endpoint.answer, OptionState.endpoint]

theorem History.Announced.truthful {h : History} (announced : h.Announced) : h.Truthful :=
  fun option => ⟨fun enabled => announced .us option (.inl enabled),
    fun enabled => announced .him option (.inl enabled)⟩

theorem History.Truthful.announced {h : History} (truthful : h.Truthful) (role : Role)
    {option : UInt8} (enabled : (h.negotiator.entry role option).enabled = true) :
    lastAnnounced role option h.emitted = some (role.message option true) := by
  cases role with
  | us => exact (truthful option).1 enabled
  | him => exact (truthful option).2 enabled

theorem History.Exclusive.not_truthful_step {h : History} (exclusive : h.Exclusive)
    (refuses : h.negotiator.RefusesEnabled input) : ¬ (h.step input).Truthful := by
  obtain ⟨role, option, rfl, enabled, refused⟩ := refuses.shape
  have moves := h.negotiator.handle_moves role true option
  have refusal : (h.negotiator.entry role option).endpoint.answer
      (h.negotiator.accepts role option) true =
      ((h.negotiator.entry role option).endpoint, some false) := by
    simp [Endpoint.answer, exclusive role option enabled, refused]
  have unchanged := moves.moved
  have told := moves.sent
  simp only [refusal] at unchanged told
  have stillEnabled : ((h.step (.handle (role.opposite.message option true))).negotiator.entry
      role option).enabled = true := by
    have sameEnabled := congrArg Endpoint.on unchanged
    exact sameEnabled.trans enabled
  intro truthful
  have announced := truthful.announced role stillEnabled
  have ended : lastAnnounced role option
      (h.step (.handle (role.opposite.message option true))).emitted =
      some (role.message option false) := by
    simp only [History.step, History.record, told, Option.toList_some, List.map_cons, List.map_nil]
    exact lastAnnounced_append_same role option h.emitted false
  rw [ended, Option.some.injEq] at announced
  exact absurd (Role.verb_inj (congrArg Negotiation.verb announced)).2 (by simp)

variable (policy : Policy) (inputs : List Input)

theorem History.run_append_singleton (input : Input) :
    History.run policy (inputs ++ [input]) = (History.run policy inputs).step input := by
  simp [History.run]

theorem History.run_exclusive : (History.run policy inputs).Exclusive := by
  induction inputs using List.reverseRecOn with
  | nil => intro role option; cases role <;> simp [History.run, entry]
  | append_singleton _ input ih =>
    rw [History.run_append_singleton]
    exact ih.step input

theorem History.run_announced (honest : ∀ earlier input later, inputs = earlier ++ input :: later →
      ¬ (History.run policy earlier).negotiator.RefusesEnabled input) :
    (History.run policy inputs).Announced := by
  induction inputs using List.reverseRecOn with
  | nil => intro role option; cases role <;> simp [History.run, entry]
  | append_singleton earlier input ih =>
    rw [History.run_append_singleton]
    refine History.Announced.step (History.run_exclusive policy earlier) (ih ?_)
      (honest earlier input [] rfl)
    intro before taken after split
    exact honest before taken (after ++ [input]) (by simp [split])

/-- An enabled option is one that was announced last, unless the peer repeats its request for an
option that is enabled although the policy refuses it. -/
theorem negotiator_truthful_iff :
    (∀ earlier later, inputs = earlier ++ later → (History.run policy earlier).Truthful) ↔
      ∀ earlier input later, inputs = earlier ++ input :: later →
        ¬ (History.run policy earlier).negotiator.RefusesEnabled input := by
  constructor
  · intro truthful earlier input later split refuses
    have after := truthful (earlier ++ [input]) later (by simp [split])
    rw [History.run_append_singleton] at after
    exact (History.run_exclusive policy earlier).not_truthful_step refuses after
  · intro honest earlier later split
    refine (History.run_announced policy earlier ?_).truthful
    intro before taken after inside
    exact honest before taken (after ++ later) (by simp [split, inside])

theorem negotiator_refuses_enabled_option :
    ¬ (History.run ⟨fun _ => false, fun _ => false⟩
      [.request Cmd.will 1, .handle ⟨Cmd.doo, 1⟩, .handle ⟨Cmd.doo, 1⟩]).Truthful := by
  intro truthful
  exact absurd ((truthful 1).1 (by decide)) (by decide)

end Coroserver.Telnet
