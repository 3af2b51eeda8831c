import Coroserver.HandshakeTermination
import Coroserver.Telnet.Link
import Mathlib.Algebra.Order.BigOperators.Group.Finset
import Mathlib.Data.Fintype.Prod

/-! Both results are read off the handshakes of the link. -/

namespace Coroserver.Telnet

open Machine
open Handshake (Exchange Consistent Orderly willing consistent_initial orderly_initial)

namespace Link

def Intelligible (link : Link) : Prop :=
  ∀ side, ∀ message ∈ link.inbox side, ∃ (role : Role) (option : UInt8) (signal : Bool),
    message = role.message option signal

variable (policies : Side → Policy)

theorem intelligible_connect : (connect policies).Intelligible := by
  intro _ _ queued
  simp [connect] at queued

variable {link next : Link} {side performer : Side} {role : Role} {option : UInt8}
  {event : LinkEvent} {target : Exchange}

variable {rest : List Negotiation} {signal : Bool}

theorem Intelligible.withInbox (intelligible : link.Intelligible) {message : Negotiation}
    (queued : link.inbox side = message :: rest) : (link.withInbox side rest).Intelligible := by
  intro owner other inFlight
  by_cases mine : owner = side
  · subst mine
    simp only [Link.withInbox, Function.update_self] at inFlight
    exact intelligible owner other (by simp [queued, inFlight])
  · simp only [Link.withInbox, Function.update_of_ne mine] at inFlight
    exact intelligible owner other inFlight

theorem Intelligible.send (intelligible : link.Intelligible) {result : Negotiator × Bytes}
    {move : Handshake.Endpoint → Handshake.Endpoint × Option Bool}
    (moves : (link.party side).Moves role option move result) :
    (link.send side result).Intelligible := by
  intro owner message inFlight
  by_cases peer : owner = side.other
  · subst peer
    simp only [Link.send, Function.update_self, moves.sent, List.mem_append, List.mem_map]
      at inFlight
    rcases inFlight with earlier | ⟨signal, -, rfl⟩
    · exact intelligible _ message earlier
    · exact ⟨role, option, signal, rfl⟩
  · simp only [Link.send, Function.update_of_ne peer] at inFlight
    exact intelligible owner message inFlight

inductive Effect (link next : Link) : LinkEvent → Prop where
  | asked {side : Side} {option : UInt8} (role : Role) (signal : Bool)
      (advances : link.Advances next (role.performer side) option
        (role.ask (link.exchange (role.performer side) option) signal)) :
      Effect link next (.request side (role.verb signal) option)
  | ignored {side verb option} (unchanged : next = link) :
      Effect link next (.request side verb option)
  | delivered {side : Side} (role : Role) (option : UInt8) {target : Exchange}
      (taken : role.deliver (link.consent (role.performer side) option)
        (link.exchange (role.performer side) option) = some target)
      (advances : link.Advances next (role.performer side) option target) :
      Effect link next (.deliver side)

private theorem send_nothing (link : Link) (side : Side) :
    link.send side (link.party side, []) = link := by
  simp [Link.send, transmitted_nil]

theorem step_request_effect (intelligible : link.Intelligible) (side : Side) (verb option : UInt8) :
    let next := link.send side ((link.party side).request verb option)
    next.Intelligible ∧ link.Effect next (.request side verb option) := by
  intro next
  by_cases known : ∃ (role : Role) (signal : Bool), verb = role.verb signal
  · obtain ⟨role, signal, rfl⟩ := known
    exact ⟨intelligible.send ((link.party side).request_moves role signal option),
      .asked role signal (link.request_advances side role signal option)⟩
  · push Not at known
    have unchanged : next = link := by
      simp [next, (link.party side).request_other option known, send_nothing]
    exact ⟨unchanged ▸ intelligible, .ignored unchanged⟩

theorem step_effect (intelligible : link.Intelligible) (stepped : link.step event = some next) :
    next.Intelligible ∧ link.Effect next event := by
  cases event with
  | request side verb option =>
    simp only [step, Option.some.injEq] at stepped
    subst stepped
    exact step_request_effect intelligible side verb option
  | deliver side =>
    cases queued : link.inbox side with
    | nil => simp [step, queued] at stepped
    | cons message =>
      simp only [step, queued, Option.some.injEq] at stepped
      subst stepped
      obtain ⟨sender, option, signal, rfl⟩ := intelligible side message (by simp [queued])
      obtain ⟨role, rfl⟩ : ∃ role : Role, sender = role.opposite :=
        ⟨sender.opposite, sender.opposite_opposite.symm⟩
      obtain ⟨_, taken, advances⟩ := deliver_advances queued
      exact ⟨(intelligible.withInbox queued).send
        ((link.party side).handle_moves role signal option),
        .delivered role option taken advances⟩

theorem Advances.consent_eq (advances : link.Advances next performer option target) :
    next.consent = link.consent := by
  funext owner about
  simp [consent, advances.policies]

theorem Effect.consent_eq (effect : link.Effect next event) : next.consent = link.consent := by
  cases effect with
  | asked _ _ advances => exact advances.consent_eq
  | ignored unchanged => rw [unchanged]
  | delivered _ _ _ advances => exact advances.consent_eq

theorem Advances.lift (advances : link.Advances next performer option target)
    (property : Side → UInt8 → Exchange → Prop)
    (all : ∀ owner about, property owner about (link.exchange owner about))
    (moved : property performer option target) (owner : Side) (about : UInt8) :
    property owner about (next.exchange owner about) := by
  by_cases same : (owner, about) = (performer, option)
  · obtain ⟨rfl, rfl⟩ := Prod.mk.inj same
    rw [advances.moved]
    exact moved
  · rw [advances.kept owner about same]
    exact all owner about

structure Coherent (link : Link) : Prop where
  intelligible : link.Intelligible
  consistent : ∀ performer option, Consistent (link.exchange performer option)

theorem coherent_connect : (connect policies).Coherent :=
  ⟨intelligible_connect policies, fun _ _ => consistent_initial⟩

theorem Coherent.step (coherent : link.Coherent) (stepped : link.step event = some next) :
    next.Coherent := by
  obtain ⟨intelligible, effect⟩ := step_effect coherent.intelligible stepped
  refine ⟨intelligible, ?_⟩
  cases effect with
  | @asked side option role signal advances =>
    refine advances.lift (fun _ _ => Consistent) coherent.consistent ?_
    have before := coherent.consistent (role.performer side) option
    cases role with
    | us => exact before.askNear signal
    | him => exact before.askFar signal
  | ignored unchanged => exact unchanged ▸ coherent.consistent
  | @delivered side role option _ taken advances =>
    refine advances.lift (fun _ _ => Consistent) coherent.consistent ?_
    have before := coherent.consistent (role.performer side) option
    cases role with
    | us => exact before.deliverNear taken
    | him => exact before.deliverFar taken

/-- The ends agree in every state with empty channels. -/
theorem agreement_at_quiescence {policies : Side → Policy} {events : List LinkEvent} {link : Link}
    (executed : exec Link.step (connect policies) events = some link)
    (quiet : ∀ side, link.inbox side = []) (side : Side) (option : UInt8) :
    (link.party side).localEnabled option = (link.party side.other).remoteEnabled option ∧
      ((link.party side).us option).pending = false ∧
      ((link.party side).him option).pending = false := by
  have coherent : link.Coherent :=
    (run_of_exec executed).preserves (coherent_connect policies)
      fun _ _ _ before _ stepped => before.step stepped
  have silent : ∀ owner, (link.exchange owner option).toNear = [] ∧
      (link.exchange owner option).toFar = [] := fun owner => by
    simp [exchange, quiet, signals]
  obtain ⟨sameSwitch, usIdle, -⟩ :=
    (coherent.consistent side option).agree (silent side).1 (silent side).2
  obtain ⟨-, -, himIdle⟩ :=
    (coherent.consistent side.other option).agree (silent side.other).1 (silent side.other).2
  refine ⟨sameSwitch, usIdle, ?_⟩
  simpa [exchange] using himIdle

theorem agreement_after_answered_offer :
    ∃ link, exec Link.step (connect fun _ => ⟨fun _ => true, fun _ => true⟩)
        [.request .a Cmd.will 1, .deliver .b, .deliver .a] = some link ∧
      (link.party .a).localEnabled 1 = true ∧ (link.party .b).remoteEnabled 1 = true := by
  refine exists_exec_and ⟨_, rfl, by decide⟩ fun link executed on => ?_
  have quiet : ∀ side, link.inbox side = [] := by
    cases Option.some.inj executed
    exact fun side => by cases side <;> rfl
  exact (agreement_at_quiescence executed quiet .a 1).1 ▸ on

/-- Withdrawals that cannot start an endless exchange. -/
def OrderlyRequest (link : Link) : LinkEvent → Prop
  | .request side verb option =>
    (verb = Cmd.wont → link.consent side option = willing →
      (link.exchange side option).OrderlyNear false) ∧
    (verb = Cmd.dont → link.consent side.other option = willing →
      (link.exchange side.other option).OrderlyFar false)
  | .deliver _ => True

instance (link : Link) (event : LinkEvent) : Decidable (link.OrderlyRequest event) := by
  cases event <;> unfold OrderlyRequest <;> infer_instance

structure Settling (link : Link) : Prop where
  intelligible : link.Intelligible
  orderly : ∀ performer option,
    Orderly (link.consent performer option) (link.exchange performer option)

theorem settling_connect : (connect policies).Settling :=
  ⟨intelligible_connect policies, fun _ _ => orderly_initial _⟩

theorem OrderlyRequest.admitted
    (orderly : link.OrderlyRequest (.request side (role.verb signal) option))
    (both : link.consent (role.performer side) option = willing) :
    match role with
    | .us => (link.exchange (role.performer side) option).OrderlyNear signal
    | .him => (link.exchange (role.performer side) option).OrderlyFar signal := by
  cases signal with
  | true => cases role <;> exact .inl rfl
  | false =>
    cases role with
    | us => exact orderly.1 rfl both
    | him => exact orderly.2 rfl both

theorem Settling.step (settling : link.Settling) (admitted : link.OrderlyRequest event)
    (stepped : link.step event = some next) : next.Settling := by
  obtain ⟨intelligible, effect⟩ := step_effect settling.intelligible stepped
  refine ⟨intelligible, ?_⟩
  rw [effect.consent_eq]
  cases effect with
  | @asked side option role _ advances =>
    refine advances.lift (fun owner about => Orderly (link.consent owner about)) settling.orderly ?_
    have before := settling.orderly (role.performer side) option
    cases role with
    | us => exact before.askNear fun both => admitted.admitted both
    | him => exact before.askFar fun both => admitted.admitted both
  | ignored unchanged => exact unchanged ▸ settling.orderly
  | @delivered side role option _ taken advances =>
    refine advances.lift (fun owner about => Orderly (link.consent owner about)) settling.orderly ?_
    have before := settling.orderly (role.performer side) option
    cases role with
    | us => exact (before.deliverNear taken).1
    | him => exact (before.deliverFar taken).1

instance : Fintype Side := ⟨{.a, .b}, fun side => by cases side <;> simp⟩

def weight (link : Link) : Nat :=
  ∑ index : Side × Fin 256,
    (link.exchange index.1 (UInt8.ofFin index.2)).weight
      (link.consent index.1 (UInt8.ofFin index.2))

theorem Advances.weight_lt (advances : link.Advances next performer option target)
    (lighter : target.weight (link.consent performer option) <
      (link.exchange performer option).weight (link.consent performer option)) :
    next.weight < link.weight := by
  unfold Link.weight
  rw [advances.consent_eq]
  refine Finset.sum_lt_sum (fun index _ => ?_) ⟨(performer, option.toFin), Finset.mem_univ _, ?_⟩
  · refine advances.lift (fun owner about moved =>
      moved.weight (link.consent owner about) ≤
        (link.exchange owner about).weight (link.consent owner about))
      (fun _ _ => le_rfl) lighter.le _ _
  · simpa [advances.moved] using lighter

theorem Settling.deliver (settling : link.Settling)
    (stepped : link.step (.deliver side) = some next) : next.weight < link.weight := by
  obtain ⟨-, effect⟩ := step_effect settling.intelligible stepped
  cases effect with
  | delivered role option taken advances =>
    have before := settling.orderly (role.performer side) option
    refine advances.weight_lt ?_
    cases role with
    | us => exact (before.deliverNear taken).2
    | him => exact (before.deliverFar taken).2

def OnlyDelivers (_ : Link) (event : LinkEvent) : Prop := ∃ side, event = .deliver side

/-- Negotiation settles if every withdrawal of an option is orderly: two willing ends can
otherwise chase each other's messages for ever. -/
theorem negotiation_settles {policies : Side → Policy} {events : List LinkEvent} {link : Link}
    (run : Run Link.step OrderlyRequest (connect policies) events link) :
    ∃ bound, ∀ deliveries final,
      Run Link.step OnlyDelivers link deliveries final → deliveries.length ≤ bound := by
  have settling : link.Settling := run.preserves (settling_connect policies)
      fun _ _ _ before admitted stepped => before.step admitted stepped
  refine ⟨link.weight, fun deliveries final delivered => ?_⟩
  have bounded : deliveries.length + final.weight ≤ link.weight := by
    refine delivered.length_le settling ?_
    rintro before _ _ reached ⟨side, rfl⟩ stepped
    have admitted : before.OrderlyRequest (.deliver side) := trivial
    exact ⟨reached.step admitted stepped, reached.deliver stepped⟩
  omega

theorem negotiation_settles_after_withdrawal :
    ∃ link bound, exec Link.step (connect fun _ => ⟨fun _ => true, fun _ => true⟩)
        [.request .a Cmd.will 1, .deliver .b, .deliver .a, .request .a Cmd.wont 1] = some link ∧
      link.inbox .b ≠ [] ∧ ∀ deliveries final,
        Run Link.step OnlyDelivers link deliveries final → deliveries.length ≤ bound := by
  obtain ⟨link, run, inFlight⟩ : ∃ link, Run Link.step OrderlyRequest
          (connect fun _ => ⟨fun _ => true, fun _ => true⟩)
          [.request .a Cmd.will 1, .deliver .b, .deliver .a, .request .a Cmd.wont 1] link ∧
        link.inbox .b ≠ [] :=
    ⟨_, .next (by decide) rfl (.next (by decide) rfl (.next (by decide) rfl
      (.next (by decide) rfl .done))), by decide⟩
  obtain ⟨bound, settles⟩ := negotiation_settles run
  exact ⟨link, bound, run.exec_eq, inFlight, settles⟩

/-- A switch-on and a switch-off of one option are in flight to a side that
accepts it, and neither end has it switched on. -/
structure Circulating (option : UInt8) (side : Side) (role : Role) (link : Link) : Prop where
  accepts : (link.party side).accepts role option = true
  peerAccepts : (link.party side.other).accepts role.opposite option = true
  off : ((link.party side).entry role option).endpoint = {}
  peerOff : ((link.party side.other).entry role.opposite option).endpoint = {}
  queued : link.inbox side =
    [role.opposite.message option true, role.opposite.message option false]
  peerQueued : link.inbox side.other = []

theorem deliver_head (queued : link.inbox side = role.opposite.message option signal :: rest) :
    ∃ next, link.step (.deliver side) = some next ∧ next.inbox side = rest ∧
      next.party side.other = link.party side.other ∧
      (next.party side).policy = (link.party side).policy ∧
      let answered := ((link.party side).entry role option).endpoint.answer
        ((link.party side).accepts role option) signal
      ((next.party side).entry role option).endpoint = answered.1 ∧ next.inbox side.other =
          link.inbox side.other ++ answered.2.toList.map (role.message option) := by
  have moves := (link.party side).handle_moves role signal option
  refine ⟨(link.withInbox side rest).send side
    ((link.party side).handle (role.opposite.message option signal)), ?_, ?_, ?_, ?_, ?_, ?_⟩
  · simp [step, queued]
  · simp [send, withInbox, side.other_ne.symm]
  · simp [send, withInbox, side.other_ne]
  · simpa [send] using moves.policy
  · simpa [send] using moves.moved
  · simpa [send, withInbox, side.other_ne] using moves.sent

theorem accepts_congr {left right : Negotiator} (same : left.policy = right.policy) (role : Role)
    (option : UInt8) : left.accepts role option = right.accepts role option := by
  cases role <;> simp [Negotiator.accepts, same]

theorem Circulating.turn (circulating : link.Circulating option side role) :
    ∃ next, Run Link.step OnlyDelivers link [.deliver side, .deliver side] next ∧
      next.Circulating option side.other role.opposite := by
  obtain ⟨middle, firstStep, middleInbox, middlePeer, middlePolicy, middleEntry, middleSent⟩ :=
    deliver_head circulating.queued
  obtain ⟨final, secondStep, finalInbox, finalPeer, finalPolicy, finalEntry, finalSent⟩ :=
    deliver_head middleInbox
  have turnedOn : ((middle.party side).entry role option).endpoint = ⟨true, false⟩ := by
    rw [middleEntry, circulating.off, circulating.accepts]
    rfl
  have samePolicy := finalPolicy.trans middlePolicy
  have samePeer := finalPeer.trans middlePeer
  refine ⟨final, .next ⟨side, rfl⟩ firstStep (.next ⟨side, rfl⟩ secondStep .done), ?_⟩
  constructor
  · rw [samePeer]
    exact circulating.peerAccepts
  · rw [Side.other_other, Role.opposite_opposite, accepts_congr samePolicy]
    exact circulating.accepts
  · rw [samePeer]
    exact circulating.peerOff
  · rw [Side.other_other, Role.opposite_opposite, finalEntry, turnedOn]
    rfl
  · rw [finalSent, middleSent, circulating.peerQueued, circulating.off, circulating.accepts,
      turnedOn, Role.opposite_opposite]
    rfl
  · rw [Side.other_other, finalInbox]

theorem Circulating.forever (circulating : link.Circulating option side role) (turns : Nat) :
    ∃ deliveries final, Run Link.step OnlyDelivers link deliveries final ∧
      turns ≤ deliveries.length := by
  induction turns generalizing side role link with
  | zero => exact ⟨[], link, .done, Nat.zero_le _⟩
  | succ turns ih =>
    obtain ⟨_, turn, circulates⟩ := circulating.turn
    obtain ⟨_, final, run, _⟩ := ih circulates
    refine ⟨_, final, turn.append run, ?_⟩
    simp only [List.length_append, List.length_cons, List.length_nil]
    omega

theorem withdrawn_offer_circulates :
    ∃ link, exec Link.step (connect fun _ => ⟨fun _ => true, fun _ => true⟩)
        [.request .a Cmd.will 1, .request .a Cmd.wont 1] = some link ∧
      ¬ ∃ bound, ∀ deliveries final,
        Run Link.step OnlyDelivers link deliveries final → deliveries.length ≤ bound := by
  obtain ⟨link, executed, circulating⟩ :
      ∃ link, exec Link.step (connect fun _ => ⟨fun _ => true, fun _ => true⟩)
          [.request .a Cmd.will 1, .request .a Cmd.wont 1] = some link ∧
        link.Circulating 1 .b .him :=
    ⟨_, rfl, ⟨by decide, by decide, by decide, by decide, by decide, by decide⟩⟩
  refine ⟨link, executed, ?_⟩
  rintro ⟨bound, settles⟩
  obtain ⟨deliveries, final, run, long⟩ := circulating.forever (bound + 1)
  exact absurd (settles deliveries final run) (by omega)

end Link

end Coroserver.Telnet
