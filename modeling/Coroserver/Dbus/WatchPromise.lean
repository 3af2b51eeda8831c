import Coroserver.Dbus.Watcher

/-! A `DbusWatcher` over several calls of `watch` and `watchOnce`, one at a time.
Every arming makes a promise that the handler completes; the coroutine that
awaits it is resumed some time later. Promises are numbered in the order in
which they are made, and a `std::function` that has been moved from is empty. -/

namespace Coroserver.Dbus

variable {Value : Type}

inductive WatchTask (Value : Type) where
  | idle
  /-- `co_await h()` in `watchOnce` or in the loop of `watch`. -/
  | awaiting (once : Bool) (promise : Nat)
  | completed (once : Bool) (ec : ErrorCode) (value : Value)
  /-- A callback for a change, and the one before the end of the loop. -/
  | delivering
  | closing

inductive Signal (Value : Type) where
  | notifyChange (ec : ErrorCode) (value : Value)
  | cancelWatch

structure Watcher (Value : Type) where
  propHandler : Option Nat := none
  promises : Nat := 0
  task : WatchTask Value := .idle
  timerArmed : Bool := false
  /-- Timers that have expired and whose handlers have not run. -/
  expired : Nat := 0
  /-- From here on a history that no operation reads: the calls of `setValues` by promise, the calls
  of the handler's sources since the last arming, the first of these and the result for
  each `watchOnce` that has returned, and the values that were notified and passed on.
  -/
  setValuesCalls : List Nat := []
  sinceArming : List (Signal Value) := []
  returns : List (Option (Signal Value) × Option Value) := []
  notified : List Value := []
  passed : List Value := []

inductive WatcherEvent (Value : Type) where
  | watch (timeout : Option Nat)
  | watchOnce
  | signal (signal : Signal Value)
  | timerExpires
  | timerHandler
  | resume
  | callbackReturns (result : Bool)

namespace Watcher

variable (w : Watcher Value)

def isIdle : Bool :=
  match w.task with
  | .idle => true
  | .awaiting _ _ | .completed _ _ _ | .delivering | .closing => false

def arm (once : Bool) : Watcher Value :=
  { w with
    propHandler := some w.promises
    promises := w.promises + 1
    task := .awaiting once w.promises
    sinceArming := [] }

def setValues (promise : Nat) (ec : ErrorCode) (value : Value) : Watcher Value :=
  let called := { w with setValuesCalls := w.setValuesCalls ++ [promise] }
  match w.task with
  | .awaiting once awaited =>
    if awaited = promise then { called with task := .completed once ec value } else called
  | .idle | .completed _ _ _ | .delivering | .closing => called

variable (ec : ErrorCode) (value : Value)

def callHandler : Watcher Value :=
  match w.propHandler with
  | none => w
  | some promise => { w with propHandler := none }.setValues promise ec value

def notifyChange : Watcher Value :=
  w.callHandler ec value

def cancelWatch [Inhabited Value] (w : Watcher Value) : Watcher Value :=
  w.callHandler .operationAborted default

def receive [Inhabited Value] (w : Watcher Value) : Signal Value → Watcher Value
  | .notifyChange ec value => w.notifyChange ec value
  | .cancelWatch => w.cancelWatch

def signalled [Inhabited Value] (w : Watcher Value) (signal : Signal Value) : Watcher Value :=
  let next := w.receive signal
  { next with
    sinceArming := w.sinceArming ++ [signal]
    notified := match signal with
      | .notifyChange _ value => w.notified ++ [value]
      | .cancelWatch => w.notified }

def finish : Watcher Value :=
  { w with task := .idle, timerArmed := false }

def onceResult : Option Value :=
  if ec = .success then some value else none

def resumeOnce : Watcher Value :=
  { w with
    task := .idle
    timerArmed := false
    propHandler := none
    returns := w.returns ++ [(w.sinceArming.head?, onceResult ec value)] }

def resumeLoop : Watcher Value :=
  match ec with
  | .success => { w with task := .delivering, passed := w.passed ++ [value] }
  | .operationAborted => { w with task := .closing }
  | .noSuchDevice => w.arm false
  | .timedOut | .other _ => { w with propHandler := none, task := .closing }

def step [Inhabited Value] (w : Watcher Value) : WatcherEvent Value → Option (Watcher Value)
  | .watch timeout =>
    if w.isIdle then some ({ w with timerArmed := timeout.isSome }.arm false) else none
  | .watchOnce => if w.isIdle then some ({ w with timerArmed := true }.arm true) else none
  | .signal signal => some (w.signalled signal)
  | .timerExpires =>
    if w.timerArmed then some { w with timerArmed := false, expired := w.expired + 1 } else none
  | .timerHandler =>
    match w.expired with
    | 0 => none
    | expired + 1 => some ({ w with expired }.signalled .cancelWatch)
  | .resume =>
    match w.task with
    | .completed true ec value => some (w.resumeOnce ec value)
    | .completed false ec value => some (w.resumeLoop ec value)
    | .idle | .awaiting _ _ | .delivering | .closing => none
  | .callbackReturns result =>
    match w.task with
    | .delivering => some (if result then w.arm false else w.finish)
    | .closing => some w.finish
    | .idle | .awaiting _ _ | .completed _ _ _ => none

end Watcher

end Coroserver.Dbus
