import Coroserver.Handshake
import Coroserver.Telnet.Negotiator
import Coroserver.Telnet.ProtocolProperties

/-! Each of the two option tables holds one handshake endpoint per option.
`request` and `handle` act on exactly one endpoint and send exactly what that
endpoint sends. -/

namespace Coroserver.Telnet

open Handshake (Endpoint)

/-- Which table an entry belongs to: what we perform, or what the peer performs. -/
inductive Role where
  | us
  | him
deriving DecidableEq

namespace Role

def opposite : Role → Role
  | .us => .him
  | .him => .us

def verb : Role → Bool → UInt8
  | .us, true => Cmd.will
  | .us, false => Cmd.wont
  | .him, true => Cmd.doo
  | .him, false => Cmd.dont

@[simp] theorem opposite_opposite (role : Role) : role.opposite.opposite = role := by
  cases role <;> rfl

theorem verb_inj {left right : Role} {first second : Bool}
    (same : left.verb first = right.verb second) : left = right ∧ first = second := by
  cases left <;> cases right <;> cases first <;> cases second <;> first
    | exact ⟨rfl, rfl⟩
    | exact absurd same (by decide)

end Role

def Role.message (role : Role) (option : UInt8) (signal : Bool) : Negotiation :=
  ⟨role.verb signal, option⟩

theorem transmitted_nil : transmitted [] = [] := rfl

theorem transmitted_negotiation (role : Role) (option : UInt8) (signal : Bool) :
    transmitted (negotiation (role.verb signal) option) = [role.message option signal] := by
  rw [transmitted, Decoder.feed_negotiation (.inl rfl) {} option
    (by cases role <;> cases signal <;> decide)]
  rfl

def OptionState.endpoint (s : OptionState) : Endpoint := ⟨s.enabled, s.pending⟩

@[simp] theorem OptionState.endpoint_waiting (s : OptionState) :
    s.endpoint.waiting = s.pending := rfl

def Realizes (role : Role) (option : UInt8) (result : OptionState × Bytes)
    (abstract : Endpoint × Option Bool) : Prop :=
  result.1.endpoint = abstract.1 ∧
    transmitted result.2 = abstract.2.toList.map (role.message option)

section

variable (s : OptionState) (role : Role) (option : UInt8) (signal : Bool)

theorem OptionState.request_realizes :
    Realizes role option (cond signal (s.requestEnable (role.verb true) option)
      (s.requestDisable (role.verb false) option)) (s.endpoint.ask signal) := by
  rcases s with ⟨enabled, pending⟩
  cases signal <;> cases enabled <;> cases pending <;>
    simp [Realizes, requestEnable, requestDisable, endpoint, Endpoint.ask, transmitted_nil,
      transmitted_negotiation]

theorem OptionState.on_realizes (accepted : Bool) :
    Realizes role option (cond signal
      (s.onEnable accepted (role.verb true) (role.verb false) option)
      (s.onDisable (role.verb false) option)) (s.endpoint.answer accepted signal) := by
  rcases s with ⟨enabled, pending⟩
  cases signal <;> cases enabled <;> cases pending <;> cases accepted <;>
    simp [Realizes, onEnable, onDisable, endpoint, Endpoint.answer, transmitted_nil,
      transmitted_negotiation]

end

namespace Negotiator

def entry (n : Negotiator) : Role → UInt8 → OptionState
  | .us => n.us
  | .him => n.him

def accepts (n : Negotiator) : Role → UInt8 → Bool
  | .us => n.policy.localOptions
  | .him => n.policy.remoteOptions

def update (n : Negotiator) : Role → UInt8 → OptionState × Bytes → Negotiator × Bytes
  | .us => n.updateUs
  | .him => n.updateHim

structure Moves (n : Negotiator) (role : Role) (option : UInt8)
    (move : Endpoint → Endpoint × Option Bool) (result : Negotiator × Bytes) : Prop where
  policy : result.1.policy = n.policy
  moved : (result.1.entry role option).endpoint = (move (n.entry role option).endpoint).1
  kept : ∀ otherRole otherOption, (otherRole, otherOption) ≠ (role, option) →
    result.1.entry otherRole otherOption = n.entry otherRole otherOption
  sent : transmitted result.2 =
    (move (n.entry role option).endpoint).2.toList.map (role.message option)

variable {move : Endpoint → Endpoint × Option Bool} {result : OptionState × Bytes}

section

variable (n : Negotiator)

include n

theorem moves_update (role : Role) (option : UInt8)
    (realizes : Realizes role option result (move (n.entry role option).endpoint)) :
    n.Moves role option move (n.update role option result) := by
  cases role with
  | us | him =>
    refine ⟨rfl, by simpa [update, updateUs, updateHim, entry] using realizes.1, ?_, realizes.2⟩
    intro otherRole _ _
    cases otherRole with
    | us | him => simp_all [update, updateUs, updateHim, entry]

theorem request_moves (role : Role) (signal : Bool) (option : UInt8) :
    n.Moves role option (fun e => e.ask signal) (n.request (role.verb signal) option) := by
  have realizes := (n.entry role option).request_realizes role option signal
  cases role <;> cases signal <;> exact n.moves_update _ option realizes

theorem handle_moves (role : Role) (signal : Bool) (option : UInt8) :
    n.Moves role option (fun e => e.answer (n.accepts role option) signal)
      (n.handle (role.opposite.message option signal)) := by
  have realizes := (n.entry role option).on_realizes role option signal (n.accepts role option)
  cases role <;> cases signal <;> exact n.moves_update _ option realizes

theorem request_other {verb : UInt8} (option : UInt8)
    (unknown : ∀ (role : Role) (signal : Bool), verb ≠ role.verb signal) :
    n.request verb option = (n, []) := by
  simp [request, show verb ≠ Cmd.will from unknown .us true,
    show verb ≠ Cmd.wont from unknown .us false, show verb ≠ Cmd.doo from unknown .him true,
    show verb ≠ Cmd.dont from unknown .him false]

theorem handle_other {message : Negotiation}
    (unknown : ∀ (role : Role) (signal : Bool), message.verb ≠ role.verb signal) :
    n.handle message = (n, []) := by
  simp [handle, show message.verb ≠ Cmd.will from unknown .us true,
    show message.verb ≠ Cmd.wont from unknown .us false,
    show message.verb ≠ Cmd.doo from unknown .him true,
    show message.verb ≠ Cmd.dont from unknown .him false]

end

end Negotiator

end Coroserver.Telnet
