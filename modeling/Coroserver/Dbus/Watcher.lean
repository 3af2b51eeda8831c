import Coroserver.Machine

/-! `DbusWatcher::watch` waits for a value that `notifyChange` or `cancelWatch`
hands to its handler, and awaits the callback with it. Setting the values
resumes the loop at once. The timer of a finite timeout acts through
`cancelWatch`. -/

namespace Coroserver.Dbus

variable {Value : Type}

inductive ErrorCode where
  | success
  | operationAborted
  | timedOut
  | noSuchDevice
  | other (value : Nat)
deriving DecidableEq

/-- What `watch` is suspended on: the handler, a callback for a change, or the
callback before its end. The handler is set exactly while it is waited for. -/
inductive WatchPhase where
  | waiting
  | delivering
  | closing
  | ended
deriving DecidableEq

inductive Timer where
  | unarmed
  | armed
  | fired
  | cancelled
deriving DecidableEq

structure Invocation (Value : Type) where
  ec : ErrorCode
  value : Option Value

structure Watch (Value : Type) where
  phase : WatchPhase := .waiting
  timer : Timer
  /-- A history that no operation reads: the calls of the callback since the timer
  fired. -/
  late : List (Invocation Value) := []

inductive WatchEvent (Value : Type) where
  | notifyChange (ec : ErrorCode) (value : Value)
  | callbackReturns (result : Bool)
  | timerFires

namespace Watch

/-- `watch` up to its first suspension. No timeout stands for
`duration::max()`. -/
def watch (timeout : Option Nat) : Watch Value :=
  { timer := if timeout.isSome then .armed else .unarmed }

variable (w : Watch Value)

def invoke (ec : ErrorCode) (value : Option Value) (phase : WatchPhase) : Watch Value :=
  { w with phase, late := if w.timer = .fired then w.late ++ [⟨ec, value⟩] else w.late }

/-- The loop from the values that the handler is called with to its next
suspension. -/
def setValues (ec : ErrorCode) (value : Value) : Watch Value :=
  match ec with
  | .success => w.invoke ec (some value) .delivering
  | .operationAborted => w.invoke .timedOut none .closing
  | .noSuchDevice => w
  | .timedOut | .other _ => w.invoke ec none .closing

def callHandler (ec : ErrorCode) (value : Value) : Watch Value :=
  if w.phase = .waiting then w.setValues ec value else w

def finish : Watch Value :=
  { w with phase := .ended, timer := if w.timer = .armed then .cancelled else w.timer }

/-- A callback without a result goes on as one that returns `true`. -/
def step [Inhabited Value] (w : Watch Value) : WatchEvent Value → Option (Watch Value)
  | .notifyChange ec value => some (w.callHandler ec value)
  | .callbackReturns result =>
    match w.phase with
    | .delivering => some (if result then { w with phase := .waiting } else w.finish)
    | .closing => some w.finish
    | .waiting | .ended => none
  | .timerFires =>
    if w.timer = .armed then
      some ({ w with timer := .fired }.callHandler .operationAborted default)
    else none

end Watch

end Coroserver.Dbus
