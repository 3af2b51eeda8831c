import Coroserver.Dbus.WatchPromiseProperties

/-! The calls of `watch` and `watchOnce` on one `DbusWatcher`, with the owners of
their timers. The handler of `startTimeout` holds the watcher and not the call
that started the timer. If a timer has expired, `cancel()` does not take its
handler back, and the handlers that are queued run in any order. -/

namespace Coroserver.Dbus

open Machine

variable {Value : Type}

inductive AbortCause where
  | timer (call : Nat)
  | cancelWatch

structure TimedWatcher (Value : Type) where
  watcher : Watcher Value := {}
  calls : Nat := 0
  /-- The calls whose timers have expired and whose handlers have not run. -/
  queued : List Nat := []
  /-- From here on a history that no operation reads: the calls that were completed with
  `operation_aborted`, with the cause. -/
  aborted : List (Nat × AbortCause) := []

inductive TimedEvent (Value : Type) where
  | watch (timeout : Option Nat)
  | watchOnce
  | notifyChange (ec : ErrorCode) (value : Value)
  | cancelWatch
  | timerExpires
  | timerHandler (position : Nat)
  | resume
  | callbackReturns (result : Bool)

def WatchTask.isAborted : WatchTask Value → Bool
  | .completed _ .operationAborted _ => true
  | _ => false

def TimedEvent.plain : TimedEvent Value → WatcherEvent Value
  | .watch timeout => .watch timeout
  | .watchOnce => .watchOnce
  | .notifyChange ec value => .signal (.notifyChange ec value)
  | .cancelWatch => .signal .cancelWatch
  | .timerExpires => .timerExpires
  | .timerHandler _ => .timerHandler
  | .resume => .resume
  | .callbackReturns result => .callbackReturns result

namespace TimedWatcher

variable (w : TimedWatcher Value)

/-- A signal of the bus is notified with a success or with what
`getPropertyFromMap` reports, and only queued handlers run. -/
def possible : TimedEvent Value → Bool
  | .notifyChange ec _ => ec ≠ .operationAborted
  | .timerHandler position => position < w.queued.length
  | .watch _ | .watchOnce | .cancelWatch | .timerExpires | .resume | .callbackReturns _ => true

def cause? : TimedEvent Value → Option AbortCause
  | .cancelWatch => some .cancelWatch
  | .timerHandler position => w.queued[position]?.map .timer
  | .watch _ | .watchOnce | .notifyChange _ _ | .timerExpires | .resume
  | .callbackReturns _ => none

def queuedAfter : TimedEvent Value → List Nat
  | .timerExpires => w.queued ++ [w.calls]
  | .timerHandler position => w.queued.eraseIdx position
  | .watch _ | .watchOnce | .notifyChange _ _ | .cancelWatch | .resume
  | .callbackReturns _ => w.queued

def callsAfter : TimedEvent Value → Nat
  | .watch _ | .watchOnce => w.calls + 1
  | .notifyChange _ _ | .cancelWatch | .timerExpires | .timerHandler _ | .resume
  | .callbackReturns _ => w.calls

/-- A call that is completed with `operation_aborted` is recorded with its cause. -/
def abortedAfter (event : TimedEvent Value) (watcher : Watcher Value) : List (Nat × AbortCause) :=
  match w.cause? event with
  | none => w.aborted
  | some cause =>
    if watcher.task.isAborted && !w.watcher.task.isAborted then w.aborted ++ [(w.calls, cause)]
    else w.aborted

def step [Inhabited Value] (w : TimedWatcher Value) (event : TimedEvent Value) :
    Option (TimedWatcher Value) :=
  if w.possible event then
    (w.watcher.step event.plain).map fun watcher =>
      { watcher
        calls := w.callsAfter event
        queued := w.queuedAfter event
        aborted := w.abortedAfter event watcher }
  else none

def Owned (aborted : List (Nat × AbortCause)) : Prop :=
  ∀ entry ∈ aborted, entry.2 = .timer entry.1 ∨ entry.2 = .cancelWatch

/-- A queued handler of an earlier call runs only while no handler is set, that
is while the call in progress does not wait. -/
def Admitted : TimedEvent Value → Prop
  | .timerHandler position => w.queued[position]? = some w.calls ∨ w.watcher.propHandler = none
  | .watch _ | .watchOnce | .notifyChange _ _ | .cancelWatch | .timerExpires | .resume
  | .callbackReturns _ => True

instance (w : TimedWatcher Value) (event : TimedEvent Value) : Decidable (w.Admitted event) :=
  match event with
  | .timerHandler _ => inferInstanceAs (Decidable (_ ∨ _))
  | .watch _ | .watchOnce | .notifyChange _ _ | .cancelWatch | .timerExpires | .resume
  | .callbackReturns _ => instDecidableTrue

section

variable [Inhabited Value] {w next : TimedWatcher Value}

theorem exists_watcherStep {event : TimedEvent Value} (stepped : w.step event = some next) :
    w.possible event = true ∧ w.watcher.step event.plain = some next.watcher ∧
      next.aborted = w.abortedAfter event next.watcher := by
  obtain ⟨possible, taken⟩ := Option.ite_none_right_eq_some.mp stepped
  obtain ⟨_, plain, rfl⟩ := Option.map_eq_some_iff.mp taken
  exact ⟨possible, plain, rfl⟩

theorem isAborted_cancelWatch {watcher : Watcher Value} (disciplined : watcher.Disciplined) :
    ((watcher.signalled .cancelWatch).task.isAborted && !watcher.task.isAborted) =
      watcher.propHandler.isSome := by
  cases handler : watcher.propHandler with
  | none =>
    have same : (watcher.signalled .cancelWatch).task = watcher.task := by
      simp [Watcher.signalled, Watcher.receive_of_empty handler]
    rw [same, Bool.and_not_self]
    rfl
  | some promise =>
    obtain ⟨-, -, ⟨once, awaits⟩, -⟩ := disciplined.armed promise handler
    simp [Watcher.signalled, Watcher.receive, Watcher.cancelWatch, Watcher.callHandler,
      Watcher.setValues, handler, awaits, WatchTask.isAborted]

theorem owned_append {aborted : List (Nat × AbortCause)} {entry : Nat × AbortCause} :
    Owned (aborted ++ [entry]) ↔
      Owned aborted ∧ (entry.2 = .timer entry.1 ∨ entry.2 = .cancelWatch) := by
  unfold Owned
  rw [List.forall_mem_append, List.forall_mem_singleton]

private theorem exists_signalled_of_timerHandler {watcher after : Watcher Value}
    (stepped : watcher.step .timerHandler = some after) :
    ∃ expired, after = ({ watcher with expired } : Watcher Value).signalled .cancelWatch := by
  simp only [Watcher.step] at stepped
  split at stepped
  · cases stepped
  · exact ⟨_, (Option.some.inj stepped).symm⟩

private theorem owned_step_iff {event : TimedEvent Value} (disciplined : w.watcher.Disciplined)
    (stepped : w.step event = some next) :
    Owned next.aborted ↔ Owned w.aborted ∧ w.Admitted event := by
  obtain ⟨possible, plain, recorded⟩ := exists_watcherStep stepped
  rw [recorded]
  cases event with
  | cancelWatch =>
    simp only [abortedAfter, cause?, Admitted, and_true]
    split
    · simp [owned_append]
    · exact Iff.rfl
  | timerHandler =>
    obtain ⟨expired, after⟩ := exists_signalled_of_timerHandler plain
    have completes : (next.watcher.task.isAborted && !w.watcher.task.isAborted) =
        w.watcher.propHandler.isSome := by
      rw [after]
      exact isAborted_cancelWatch (disciplined.withTimers w.watcher.timerArmed expired)
    have queued := List.getElem?_eq_getElem (of_decide_eq_true possible)
    simp only [abortedAfter, cause?, Admitted, queued, completes, Option.map_some,
      Option.some.injEq]
    cases handler : w.watcher.propHandler with
    | none => simp
    | some => simp [owned_append]
  | _ => exact (and_iff_left trivial).symm

private theorem owned_run_iff {events : List (TimedEvent Value)} {final : TimedWatcher Value}
    (disciplined : w.watcher.Disciplined) (executed : exec step w events = some final) :
    Owned final.aborted ↔ Owned w.aborted ∧ Run step Admitted w events final := by
  induction events generalizing w with
  | nil =>
    cases executed
    exact ⟨fun owned => ⟨owned, .done⟩, And.left⟩
  | cons event rest ih =>
    rw [exec] at executed
    split at executed
    · cases executed
    · rename_i middle stepped
      have kept := disciplined.step (exists_watcherStep stepped).2.1
      rw [ih kept executed, owned_step_iff disciplined stepped]
      constructor
      · rintro ⟨⟨owned, admitted⟩, run⟩
        exact ⟨owned, .next admitted stepped run⟩
      · rintro ⟨owned, run⟩
        cases run with
        | next admitted steppedAgain run =>
          obtain rfl := Option.some.inj (stepped.symm.trans steppedAgain)
          exact ⟨⟨owned, admitted⟩, run⟩

/-- Every call completed with `operation_aborted` is so by its own timer or by a
`cancelWatch` from outside exactly if no queued handler of an earlier call finds a
handler that is set. -/
theorem aborted_by_own_timer_iff {events : List (TimedEvent Value)} {final : TimedWatcher Value}
    (executed : exec step {} events = some final) :
    Owned final.aborted ↔ Run step Admitted {} events final := by
  have nothing : Owned ({} : TimedWatcher Value).aborted := by
    intro entry member
    cases member
  rw [owned_run_iff .initial executed, and_iff_right nothing]

end

theorem aborted_by_own_timer_during_callback :
    ∃ final : TimedWatcher Nat, exec step {}
        [.watchOnce, .timerExpires, .notifyChange .success 1, .resume, .watch (some 5),
          .notifyChange .success 2, .resume, .timerHandler 0, .callbackReturns true, .timerExpires,
          .timerHandler 0] = some final ∧
      final.aborted = [(2, .timer 2)] ∧ Owned final.aborted := by
  refine exists_exec_and ⟨_, rfl, rfl⟩ fun final executed _ => ?_
  exact (aborted_by_own_timer_iff executed).mpr (run_of_within (by decide) executed)

/-- The timer of a `watchOnce` expires, and a change completes it before the
handler of the timer runs. The handler then ends the next `watchOnce`. -/
theorem aborted_by_earlier_timer :
    ∃ final : TimedWatcher Nat, exec step {}
        [.watchOnce, .timerExpires, .notifyChange .success 1, .resume, .watchOnce,
          .timerHandler 0] = some final ∧
      final.aborted = [(2, .timer 1)] ∧ ¬ Owned final.aborted := by
  refine ⟨_, rfl, rfl, ?_⟩
  intro owned
  have entry := owned (2, .timer 1) List.mem_cons_self
  simp at entry

end TimedWatcher

end Coroserver.Dbus
