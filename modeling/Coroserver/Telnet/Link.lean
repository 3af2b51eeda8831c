import Coroserver.Machine
import Coroserver.Telnet.NegotiatorProperties

/-! Both ends of a telnet connection with a first-in first-out channel in each
direction. Every non-empty result of `request` or `handle` is sent to the peer
and later delivered to its `handle`. The link is a product of handshakes: one
for each option and each end that may perform it. -/

namespace Coroserver.Telnet

open Function
open Handshake (Endpoint Exchange Consent)

inductive Side where
  | a
  | b
deriving DecidableEq

def Side.other : Side → Side
  | .a => .b
  | .b => .a

@[simp] theorem Side.other_other (side : Side) : side.other.other = side := by
  cases side <;> rfl

theorem Side.other_ne (side : Side) : side.other ≠ side := by
  cases side <;> decide

theorem Side.eq_other_of_ne {left right : Side} (different : left ≠ right) :
    left = right.other := by
  cases left <;> cases right <;> simp_all [Side.other]

structure Link where
  party : Side → Negotiator
  inbox : Side → List Negotiation

inductive LinkEvent where
  | request (side : Side) (verb option : UInt8)
  | deliver (side : Side)

namespace Link

def connect (policies : Side → Policy) : Link :=
  ⟨fun side => { policy := policies side }, fun _ => []⟩

def withInbox (link : Link) (side : Side) (messages : List Negotiation) : Link :=
  { link with inbox := update link.inbox side messages }

def send (link : Link) (side : Side) (result : Negotiator × Bytes) : Link where
  party := update link.party side result.1
  inbox := update link.inbox side.other
    (link.inbox side.other ++ transmitted result.2)

def step (link : Link) : LinkEvent → Option Link
  | .request side verb option => some (link.send side ((link.party side).request verb option))
  | .deliver side =>
    match link.inbox side with
    | [] => none
    | message :: rest =>
      some ((link.withInbox side rest).send side ((link.party side).handle message))

end Link

def Negotiation.signal? (role : Role) (option : UInt8) (message : Negotiation) : Option Bool :=
  if message = role.message option true then some true
  else if message = role.message option false then some false
  else none

def signals (role : Role) (option : UInt8) (messages : List Negotiation) : List Bool :=
  messages.filterMap (Negotiation.signal? role option)

open Negotiation

theorem Role.message_inj {left right : Role} {first second : UInt8} {one two : Bool}
    (same : left.message first one = right.message second two) :
    left = right ∧ first = second ∧ one = two := by
  obtain ⟨sameVerb, sameOption⟩ := mk.inj same
  obtain ⟨sameRole, sameSignal⟩ := Role.verb_inj sameVerb
  exact ⟨sameRole, sameOption, sameSignal⟩

@[simp] theorem signal?_message (role : Role) (option : UInt8) (signal : Bool) :
    signal? role option (role.message option signal) = some signal := by
  cases signal with
  | true => simp [signal?]
  | false =>
    have differs : role.message option false ≠ role.message option true :=
      fun same => absurd (Role.message_inj same).2.2 (by decide)
    simp [signal?, differs]

variable {role otherRole : Role} {otherOption : UInt8}

theorem signal?_other {option : UInt8} (different : (otherRole, otherOption) ≠ (role, option))
    (signal : Bool) : signal? otherRole otherOption (role.message option signal) = none := by
  have differs : ∀ candidate,
      role.message option signal ≠ otherRole.message otherOption candidate := by
    intro _ same
    obtain ⟨sameRole, sameOption, -⟩ := Role.message_inj same
    exact different (by rw [sameRole, sameOption])
  simp [signal?, differs]

theorem signals_append (role : Role) (option : UInt8) (left right : List Negotiation) :
    signals role option (left ++ right) = signals role option left ++ signals role option right :=
  List.filterMap_append

@[simp] theorem signals_map_message (role : Role) (option : UInt8) (values : List Bool) :
    signals role option (values.map (role.message option)) = values := by
  induction values with
  | nil => rfl
  | cons _ _ ih =>
    simp only [signals, List.map_cons, List.filterMap_cons, signal?_message] at ih ⊢
    rw [ih]

theorem signals_map_other {option : UInt8} (different : (otherRole, otherOption) ≠ (role, option))
    (values : List Bool) :
    signals otherRole otherOption (values.map (role.message option)) = [] := by
  simp only [signals, List.filterMap_eq_nil_iff, List.mem_map]
  rintro _ ⟨value, -, rfl⟩
  exact signal?_other different value

namespace Link

def exchange (link : Link) (performer : Side) (option : UInt8) : Exchange where
  near := ((link.party performer).us option).endpoint
  far := ((link.party performer.other).him option).endpoint
  toNear := signals .him option (link.inbox performer)
  toFar := signals .us option (link.inbox performer.other)

def consent (link : Link) (performer : Side) (option : UInt8) : Consent where
  near := (link.party performer).policy.localOptions option
  far := (link.party performer.other).policy.remoteOptions option

end Link

namespace Role

/-- The side that performs an option, seen from the table its entry is in. -/
def performer : Role → Side → Side
  | .us, side => side
  | .him, side => side.other

/-- Entries of our own table are near ends, those of the peer's far ends. -/
def ask : Role → Exchange → Bool → Exchange
  | .us => Exchange.askNear
  | .him => Exchange.askFar

def deliver : Role → Consent → Exchange → Option Exchange
  | .us => Exchange.deliverNear
  | .him => Exchange.deliverFar

end Role

structure Link.Advances (link next : Link) (performer : Side) (option : UInt8)
    (target : Exchange) : Prop where
  policies : ∀ side, (next.party side).policy = (link.party side).policy
  moved : next.exchange performer option = target
  kept : ∀ otherPerformer otherOption, (otherPerformer, otherOption) ≠ (performer, option) →
    next.exchange otherPerformer otherOption = link.exchange otherPerformer otherOption

section Send

variable {link : Link} {side : Side} {option : UInt8}
  {move : Endpoint → Endpoint × Option Bool} {result : Negotiator × Bytes}

open Link

variable {role : Role}

theorem Link.send_policies (moves : (link.party side).Moves role option move result)
    (owner : Side) : ((link.send side result).party owner).policy = (link.party owner).policy := by
  by_cases mine : owner = side
  · subst mine
    simpa [send] using moves.policy
  · simp [send, mine]

theorem Link.send_exchange_us
    (moves : (link.party side).Moves .us option move result) :
    (link.send side result).exchange side option =
      { link.exchange side option with
        near := (move (link.exchange side option).near).1
        toFar := (link.exchange side option).toFar ++
          (move (link.exchange side option).near).2.toList } := by
  have moved := moves.moved
  simp only [Negotiator.entry] at moved
  simp only [exchange, send, update_self,
    update_of_ne side.other_ne, update_of_ne side.other_ne.symm,
    signals_append, moves.sent, signals_map_message, moved]
  rfl

theorem Link.send_exchange_him
    (moves : (link.party side).Moves .him option move result) :
    (link.send side result).exchange side.other option =
      { link.exchange side.other option with
        far := (move (link.exchange side.other option).far).1
        toNear := (link.exchange side.other option).toNear ++
          (move (link.exchange side.other option).far).2.toList } := by
  have moved := moves.moved
  simp only [Negotiator.entry] at moved
  simp only [exchange, send, Side.other_other, update_self,
    update_of_ne side.other_ne, update_of_ne side.other_ne.symm,
    signals_append, moves.sent, signals_map_message, moved]
  rfl

theorem Link.send_exchange_other (moves : (link.party side).Moves role option move result)
    {performer : Side} {otherOption : UInt8}
    (different : (performer, otherOption) ≠ (role.performer side, option)) :
    (link.send side result).exchange performer otherOption =
      link.exchange performer otherOption := by
  have otherEntry : ∀ other : Role, other.performer side = performer →
      (other, otherOption) ≠ (role, option) := by
    intro other performs same
    obtain ⟨rfl, rfl⟩ := Prod.mk.inj same
    exact different (by rw [performs])
  by_cases mine : performer = side
  · subst mine
    have keptUs := moves.kept .us otherOption (otherEntry .us rfl)
    have silent := signals_map_other (otherEntry .us rfl)
      (move ((link.party performer).entry role option).endpoint).2.toList
    simp only [Negotiator.entry] at keptUs
    simp only [exchange, send, update_self,
      update_of_ne performer.other_ne, update_of_ne performer.other_ne.symm,
      signals_append, moves.sent, silent, List.append_nil, keptUs]
  · obtain rfl := Side.eq_other_of_ne mine
    have keptHim := moves.kept .him otherOption (otherEntry .him rfl)
    have silent := signals_map_other (otherEntry .him rfl)
      (move ((link.party side).entry role option).endpoint).2.toList
    simp only [Negotiator.entry] at keptHim
    simp only [exchange, send, Side.other_other, update_self,
      update_of_ne side.other_ne, update_of_ne side.other_ne.symm,
      signals_append, moves.sent, silent, List.append_nil, keptHim]

end Send

namespace Link

theorem request_advances (link : Link) (side : Side) (role : Role) (signal : Bool)
    (option : UInt8) :
    link.Advances (link.send side ((link.party side).request (role.verb signal) option))
      (role.performer side) option
      (role.ask (link.exchange (role.performer side) option) signal) where
  policies := send_policies ((link.party side).request_moves role signal option)
  moved := by
    cases role with
    | us => exact send_exchange_us ((link.party side).request_moves .us signal option)
    | him => exact send_exchange_him ((link.party side).request_moves .him signal option)
  kept := fun _ _ different =>
    send_exchange_other ((link.party side).request_moves role signal option) different

variable {link : Link} {side : Side} {option : UInt8} {signal : Bool} {rest : List Negotiation}

theorem withInbox_exchange_us
    (queued : link.inbox side = Role.him.message option signal :: rest) :
    link.exchange side option =
      { (link.withInbox side rest).exchange side option with
        toNear := signal :: ((link.withInbox side rest).exchange side option).toNear } := by
  simp [exchange, withInbox, queued, signals, side.other_ne]

theorem withInbox_exchange_him
    (queued : link.inbox side = Role.us.message option signal :: rest) :
    link.exchange side.other option =
      { (link.withInbox side rest).exchange side.other option with
        toFar := signal :: ((link.withInbox side rest).exchange side.other option).toFar } := by
  simp [exchange, withInbox, queued, signals, side.other_ne]

variable {role : Role}

private theorem withInbox_exchange_other
    (queued : link.inbox side = role.opposite.message option signal :: rest) {performer : Side}
    {otherOption : UInt8} (different : (performer, otherOption) ≠ (role.performer side, option)) :
    (link.withInbox side rest).exchange performer otherOption =
      link.exchange performer otherOption := by
  have otherEntry : ∀ other : Role, other.performer side = performer →
      (other.opposite, otherOption) ≠ (role.opposite, option) := by
    intro other performs same
    obtain ⟨sameRole, rfl⟩ := Prod.mk.inj same
    have sameEntry : other = role := by simpa using congrArg Role.opposite sameRole
    exact different (by rw [← performs, sameEntry])
  by_cases mine : performer = side
  · subst mine
    have silent : signal? .him otherOption (role.opposite.message option signal) =
        none := signal?_other (otherEntry .us rfl) signal
    simp [exchange, withInbox, queued, signals, performer.other_ne, silent]
  · obtain rfl := Side.eq_other_of_ne mine
    have silent : signal? .us otherOption (role.opposite.message option signal) =
        none := signal?_other (otherEntry .him rfl) signal
    simp [exchange, withInbox, queued, signals, side.other_ne, silent]

theorem deliver_advances (queued : link.inbox side = role.opposite.message option signal :: rest) :
    ∃ target, role.deliver (link.consent (role.performer side) option)
        (link.exchange (role.performer side) option) = some target ∧
      link.Advances ((link.withInbox side rest).send side
        ((link.party side).handle (role.opposite.message option signal)))
        (role.performer side) option target := by
  have moves : ((link.withInbox side rest).party side).Moves role option
      (fun e => e.answer ((link.party side).accepts role option) signal)
      ((link.party side).handle (role.opposite.message option signal)) :=
    (link.party side).handle_moves role signal option
  have kept : ∀ performer otherOption,
      (performer, otherOption) ≠ (role.performer side, option) → _ = _ :=
    fun performer otherOption different =>
      (send_exchange_other moves different).trans (withInbox_exchange_other queued different)
  cases role with
  | us =>
    refine ⟨_, ?_, send_policies moves, rfl, kept⟩
    rw [Role.performer, withInbox_exchange_us queued, send_exchange_us moves]
    rfl
  | him =>
    refine ⟨_, ?_, send_policies moves, rfl, kept⟩
    rw [Role.performer, withInbox_exchange_him queued, send_exchange_him moves]
    simp only [Role.deliver, consent, Side.other_other]
    rfl

end Link

end Coroserver.Telnet
