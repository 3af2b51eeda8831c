import Coroserver.Telnet.Protocol

/-! `Negotiator` of `include/telnet_protocol.hpp`. Requests and replies are the
byte strings the source returns; an empty string means nothing is sent. The
256-entry tables are functions of the option byte. -/

namespace Coroserver.Telnet

structure Policy where
  localOptions : UInt8 → Bool
  remoteOptions : UInt8 → Bool

structure OptionState where
  enabled : Bool := false
  pending : Bool := false

namespace OptionState

variable (s : OptionState)

def requestEnable (verb option : UInt8) : OptionState × Bytes :=
  if s.enabled || s.pending then (s, [])
  else ({ s with pending := true }, negotiation verb option)

def requestDisable (verb option : UInt8) : OptionState × Bytes :=
  if !s.enabled && !s.pending then (s, [])
  else ({ enabled := false, pending := false }, negotiation verb option)

def onEnable (accepted : Bool) (acceptVerb refuseVerb option : UInt8) : OptionState × Bytes :=
  if s.pending then
    ({ enabled := true, pending := false }, [])
  else if !accepted then (s, negotiation refuseVerb option)
  else if s.enabled then (s, [])
  else ({ s with enabled := true }, negotiation acceptVerb option)

def onDisable (verb option : UInt8) : OptionState × Bytes :=
  if s.enabled then ({ s with enabled := false }, negotiation verb option)
  else
    ({ s with pending := false }, [])

end OptionState

structure Negotiator where
  policy : Policy
  us : UInt8 → OptionState := fun _ => {}
  him : UInt8 → OptionState := fun _ => {}

namespace Negotiator

variable (n : Negotiator) (option : UInt8)

def updateUs (result : OptionState × Bytes) : Negotiator × Bytes :=
  ({ n with us := Function.update n.us option result.1 }, result.2)

def updateHim (result : OptionState × Bytes) : Negotiator × Bytes :=
  ({ n with him := Function.update n.him option result.1 }, result.2)

def request (verb option : UInt8) : Negotiator × Bytes :=
  if verb = Cmd.will then
    n.updateUs option ((n.us option).requestEnable Cmd.will option)
  else if verb = Cmd.wont then
    n.updateUs option ((n.us option).requestDisable Cmd.wont option)
  else if verb = Cmd.doo then
    n.updateHim option ((n.him option).requestEnable Cmd.doo option)
  else if verb = Cmd.dont then
    n.updateHim option ((n.him option).requestDisable Cmd.dont option)
  else (n, [])

def handle (message : Negotiation) : Negotiator × Bytes :=
  if message.verb = Cmd.doo then
    n.updateUs message.option ((n.us message.option).onEnable
      (n.policy.localOptions message.option) Cmd.will Cmd.wont message.option)
  else if message.verb = Cmd.dont then
    n.updateUs message.option ((n.us message.option).onDisable Cmd.wont message.option)
  else if message.verb = Cmd.will then
    n.updateHim message.option ((n.him message.option).onEnable
      (n.policy.remoteOptions message.option) Cmd.doo Cmd.dont message.option)
  else if message.verb = Cmd.wont then
    n.updateHim message.option ((n.him message.option).onDisable Cmd.dont message.option)
  else (n, [])

def localEnabled : Bool := (n.us option).enabled

def remoteEnabled : Bool := (n.him option).enabled

end Negotiator

/-- The negotiations the peer's decoder finds in a returned byte string. -/
def transmitted (bytes : Bytes) : List Negotiation :=
  (Decoder.feed {} {} bytes).2.events.filterMap fun event =>
    match event with
    | .negotiation value => some value
    | _ => none

end Coroserver.Telnet
