import Coroserver.Dbus.WatchPromise
import Mathlib.Data.List.Nodup

/-! The handler is set exactly while its promise is awaited, and it is moved out before it is
called. -/

namespace Coroserver.Dbus

open List Machine

variable {Value : Type}

/-- What a `watchOnce` returns for a signal: the value of a successful change, and
nothing for an error or a cancellation. -/
def Signal.result : Signal Value → Option Value
  | .notifyChange .success value => some value
  | .notifyChange .operationAborted _ | .notifyChange .timedOut _
  | .notifyChange .noSuchDevice _ | .notifyChange (.other _) _ | .cancelWatch => none

namespace Watcher

theorem onceResult_eq_result (ec : ErrorCode) (value : Value) :
    onceResult ec value = (Signal.notifyChange ec value).result := by
  cases ec <;> rfl

structure Disciplined (w : Watcher Value) : Prop where
  made : ∀ promise ∈ w.setValuesCalls, promise < w.promises
  single : w.setValuesCalls.Nodup
  armed : ∀ promise, w.propHandler = some promise →
    promise < w.promises ∧ promise ∉ w.setValuesCalls ∧
      (∃ once, w.task = .awaiting once promise) ∧ w.sinceArming = []
  awaited : ∀ once promise, w.task = .awaiting once promise → w.propHandler = some promise
  first : ∀ once ec value, w.task = .completed once ec value →
    ∃ signal, w.sinceArming.head? = some signal ∧ signal.result = onceResult ec value
  returned : ∀ entry ∈ w.returns, ∃ signal, entry.1 = some signal ∧ entry.2 = signal.result

namespace Disciplined

variable {w next : Watcher Value}

theorem initial : Disciplined ({} : Watcher Value) := by
  refine ⟨?_, nodup_nil, ?_, ?_, ?_, ?_⟩
  · intro promise member
    cases member
  · intro promise handler
    cases handler
  · intro _ _ awaits
    cases awaits
  · intro _ _ _ completed
    cases completed
  · intro entry member
    cases member

section

variable (disciplined : w.Disciplined)

include disciplined

theorem propHandler_eq_none (elsewhere : ∀ once promise, w.task ≠ .awaiting once promise) :
    w.propHandler = none := by
  cases handler : w.propHandler with
  | none => rfl
  | some promise =>
    obtain ⟨-, -, ⟨once, awaits⟩, -⟩ := disciplined.armed promise handler
    exact absurd awaits (elsewhere once promise)

theorem arm (once : Bool) : (w.arm once).Disciplined := by
  refine ⟨?_, disciplined.single, ?_, ?_, ?_, disciplined.returned⟩
  · intro promise member
    exact Nat.lt_succ_of_lt (disciplined.made promise member)
  · intro promise handler
    obtain rfl := Option.some.inj handler
    refine ⟨Nat.lt_succ_self _, ?_, ⟨once, rfl⟩, rfl⟩
    exact fun member => Nat.lt_irrefl _ (disciplined.made _ member)
  · intro _ _ awaits
    cases awaits
    rfl
  · intro _ _ _ completed
    cases completed

theorem withTimers (timerArmed : Bool) (expired : Nat) :
    Disciplined { w with timerArmed, expired } :=
  ⟨disciplined.made, disciplined.single, disciplined.armed, disciplined.awaited,
    disciplined.first, disciplined.returned⟩

theorem proceed (task : WatchTask Value) (later : ∀ once promise, task ≠ .awaiting once promise)
    (settled : ∀ once ec value, task ≠ .completed once ec value) (timerArmed : Bool)
    (passed : List Value) :
    Disciplined { w with task, timerArmed, passed, propHandler := none } := by
  refine ⟨disciplined.made, disciplined.single, ?_, ?_, ?_, disciplined.returned⟩
  · intro promise handler
    cases handler
  · intro once promise awaits
    exact absurd awaits (later once promise)
  · intro once ec value completed
    exact absurd completed (settled once ec value)

theorem resumeOnce {ec : ErrorCode} {value : Value}
    (completed : w.task = .completed true ec value) : (w.resumeOnce ec value).Disciplined := by
  refine ⟨disciplined.made, disciplined.single, ?_, ?_, ?_, ?_⟩
  · intro promise handler
    cases handler
  · intro _ _ awaits
    cases awaits
  · intro _ _ _ other
    cases other
  · refine forall_mem_append.mpr ⟨disciplined.returned, forall_mem_singleton.mpr ?_⟩
    obtain ⟨signal, head, result⟩ := disciplined.first _ _ _ completed
    exact ⟨signal, head, result.symm⟩

theorem finish (elsewhere : ∀ once promise, w.task ≠ .awaiting once promise) :
    w.finish.Disciplined := by
  have handler := disciplined.propHandler_eq_none elsewhere
  have ended := disciplined.proceed .idle (by simp) (by simp) false w.passed
  rw [← handler] at ended
  exact ended

theorem resumeLoop (elsewhere : ∀ once promise, w.task ≠ .awaiting once promise) (ec : ErrorCode)
    (value : Value) : (w.resumeLoop ec value).Disciplined := by
  have handler := disciplined.propHandler_eq_none elsewhere
  have proceeds : ∀ (task : WatchTask Value) (passed : List Value),
      (∀ once promise, task ≠ .awaiting once promise) →
      (∀ once ec value, task ≠ .completed once ec value) →
      Disciplined { w with task, passed } := by
    intro task passed later settled
    have next := disciplined.proceed task later settled w.timerArmed passed
    rw [← handler] at next
    exact next
  cases ec with
  | success => exact proceeds .delivering _ (by simp) (by simp)
  | operationAborted => exact proceeds .closing _ (by simp) (by simp)
  | noSuchDevice => exact disciplined.arm false
  | timedOut | other => exact disciplined.proceed .closing (by simp) (by simp) _ _

end

end Disciplined

section

variable [Inhabited Value] {w next : Watcher Value}

theorem receive_of_empty (empty : w.propHandler = none) (signal : Signal Value) :
    w.receive signal = w := by
  cases signal with
  | notifyChange => simp [receive, notifyChange, callHandler, empty]
  | cancelWatch => simp [receive, cancelWatch, callHandler, empty]

theorem receive_of_armed {promise : Nat} {once : Bool} (armed : w.propHandler = some promise)
    (awaits : w.task = .awaiting once promise) (signal : Signal Value) :
    ∃ ec value, signal.result = onceResult ec value ∧ w.receive signal = { w with
        propHandler := none
        task := .completed once ec value
        setValuesCalls := w.setValuesCalls ++ [promise] } := by
  cases signal with
  | notifyChange ec value =>
    exact ⟨ec, value, (onceResult_eq_result ec value).symm, by
      simp [receive, notifyChange, callHandler, setValues, armed, awaits]⟩
  | cancelWatch =>
    exact ⟨.operationAborted, default, by simp [Signal.result, onceResult], by
      simp [receive, cancelWatch, callHandler, setValues, armed, awaits]⟩

theorem Disciplined.signalled (disciplined : w.Disciplined) (signal : Signal Value) :
    (w.signalled signal).Disciplined := by
  cases handler : w.propHandler with
  | none =>
    unfold Watcher.signalled
    rw [receive_of_empty handler]
    refine ⟨disciplined.made, disciplined.single, ?_, disciplined.awaited, ?_, disciplined.returned⟩
    · intro promise armed
      rw [handler] at armed
      cases armed
    · intro once ec value completed
      obtain ⟨first, head, result⟩ := disciplined.first once ec value completed
      refine ⟨first, ?_, result⟩
      rw [head?_append, head]
      rfl
  | some promise =>
    obtain ⟨made, fresh, ⟨once, awaits⟩, nothing⟩ := disciplined.armed promise handler
    obtain ⟨ec, value, result, received⟩ := receive_of_armed handler awaits signal
    unfold Watcher.signalled
    rw [received]
    refine ⟨?_, ?_, ?_, ?_, ?_, disciplined.returned⟩
    · exact forall_mem_append.mpr ⟨disciplined.made, forall_mem_singleton.mpr made⟩
    · exact nodup_append.mpr ⟨disciplined.single, nodup_singleton _, fun earlier member
        last isLast same => fresh (mem_singleton.mp isLast ▸ same ▸ member)⟩
    · intro other armed
      cases armed
    · intro _ _ still
      cases still
    · intro _ _ _ completed
      cases completed
      exact ⟨signal, by simp [nothing], result⟩

theorem Disciplined.step {event : WatcherEvent Value} (disciplined : w.Disciplined)
    (stepped : w.step event = some next) : next.Disciplined := by
  revert stepped
  fun_cases Watcher.step w event
  all_goals rintro ⟨⟩
  case case1 timeout => exact (disciplined.withTimers _ w.expired).arm false
  case case3 => exact (disciplined.withTimers _ w.expired).arm true
  case case5 signal => exact disciplined.signalled signal
  case case6 => exact disciplined.withTimers false _
  case case9 expired _ => exact (disciplined.withTimers w.timerArmed expired).signalled .cancelWatch
  case case10 ec value completed => exact disciplined.resumeOnce completed
  case case11 ec value completed => exact disciplined.resumeLoop (by simp [completed]) ec value
  case case16 result delivering =>
    split
    · exact disciplined.arm false
    · exact disciplined.finish (by simp [delivering])
  case case17 result closing => exact disciplined.finish (by simp [closing])

/-- Each promise is completed at most once, a `watchOnce` returns what its first
signal brought, and without a coroutine on the watcher no signal has an effect. -/
structure CompletesOnce (w : Watcher Value) : Prop where
  once : ∀ promise, w.setValuesCalls.count promise ≤ 1
  returns : ∀ entry ∈ w.returns, ∃ signal, entry.1 = some signal ∧ entry.2 = signal.result
  quiet : w.task = .idle → w.propHandler = none ∧ ∀ signal, w.receive signal = w

/-- No promise is completed twice, and the first signal decides what `watchOnce` returns. -/
theorem completesOnce_of_run {events : List (WatcherEvent Value)} {final : Watcher Value}
    (executed : exec step {} events = some final) : final.CompletesOnce := by
  have disciplined : final.Disciplined := (run_of_exec executed).preserves .initial
    fun _ _ _ before _ stepped => before.step stepped
  refine ⟨?_, disciplined.returned, ?_⟩
  · exact nodup_iff_count_le_one.mp disciplined.single
  · intro idle
    have empty := disciplined.propHandler_eq_none (by simp [idle])
    exact ⟨empty, receive_of_empty empty⟩

theorem completesOnce_two_signals :
    ∃ final : Watcher Nat, exec step {}
        [.watchOnce, .signal (.notifyChange .success 42), .signal (.notifyChange .success 99),
          .timerExpires, .timerHandler, .resume, .signal (.notifyChange .success 7),
          .watchOnce, .signal (.notifyChange .timedOut 9), .resume] =
        some final ∧ final.returns = [(some (.notifyChange .success 42), some 42),
        (some (.notifyChange .timedOut 9), none)] ∧ final.CompletesOnce := by
  refine exists_exec_and ⟨_, rfl, rfl⟩ fun final executed _ => ?_
  exact completesOnce_of_run executed

/-- The events of one `watch` without a timeout whose callback asks to go on,
with successful changes only. -/
def Continuing : WatcherEvent Value → Prop
  | .signal (.notifyChange ec _) => ec = .success
  | .callbackReturns result => result = true
  | .resume => True
  | .watch _ | .watchOnce | .signal .cancelWatch | .timerExpires | .timerHandler => False

/-- A change that finds no handler repeats the value of the one before it. -/
def Heard (w : Watcher Value) : WatcherEvent Value → Prop
  | .signal (.notifyChange _ value) =>
    w.propHandler.isSome = true ∨ w.notified.getLast? = some value
  | .watch _ | .watchOnce | .signal .cancelWatch | .timerExpires | .timerHandler | .resume
  | .callbackReturns _ => True

def Admitted (w : Watcher Value) (event : WatcherEvent Value) : Prop :=
  Continuing event ∧ w.Heard event

instance [DecidableEq Value] (w : Watcher Value) (event : WatcherEvent Value) :
    Decidable (w.Admitted event) :=
  match event with
  | .signal (.notifyChange _ _) => inferInstanceAs (Decidable (_ = _ ∧ (_ = _ ∨ _ = _)))
  | .callbackReturns _ => inferInstanceAs (Decidable (_ = _ ∧ True))
  | .resume => inferInstanceAs (Decidable (True ∧ True))
  | .watch _ | .watchOnce | .signal .cancelWatch | .timerExpires | .timerHandler =>
    inferInstanceAs (Decidable (False ∧ True))

def Current (w : Watcher Value) : Prop :=
  match w.task with
  | .awaiting false promise =>
    w.propHandler = some promise ∧ w.passed.getLast? = w.notified.getLast?
  | .completed false .success value =>
    w.propHandler = none ∧ w.notified.getLast? = some value
  | .delivering => w.propHandler = none ∧ w.passed.getLast? = w.notified.getLast?
  | _ => False

theorem Current.notifyChange (current : w.Current) {value : Value}
    (heard : w.Heard (.signal (.notifyChange .success value))) :
    (w.signalled (.notifyChange .success value)).Current := by
  unfold Current at current
  split at current
  · rename_i promise awaits
    obtain ⟨armed, -⟩ := current
    simp [Current, signalled, receive, Watcher.notifyChange, callHandler, setValues, armed, awaits]
  · rename_i delivered completed
    obtain ⟨empty, last⟩ := current
    have same : w.notified.getLast? = some value := heard.resolve_left (by simp [empty])
    have repeated : delivered = value := Option.some.inj (last.symm.trans same)
    simp [Current, signalled, receive_of_empty empty, completed, empty, repeated]
  · rename_i delivering
    obtain ⟨empty, last⟩ := current
    have same : w.notified.getLast? = some value := heard.resolve_left (by simp [empty])
    simp [Current, signalled, receive_of_empty empty, delivering, empty, last, same]
  · exact current.elim

theorem Current.step {event : WatcherEvent Value} (current : w.Current)
    (admitted : w.Admitted event) (stepped : w.step event = some next) : next.Current := by
  obtain ⟨continuing, heard⟩ := admitted
  cases event with
  | watch | watchOnce | timerExpires | timerHandler => exact continuing.elim
  | signal signal =>
    cases signal with
    | cancelWatch => exact continuing.elim
    | notifyChange ec =>
      obtain rfl : ec = .success := continuing
      obtain rfl := Option.some.inj stepped
      exact current.notifyChange heard
  | resume =>
    unfold Current at current
    split at current
    · rename_i promise awaits
      simp [Watcher.step, awaits] at stepped
    · rename_i value completed
      simp only [Watcher.step, completed, Option.some.injEq] at stepped
      subst stepped
      obtain ⟨empty, last⟩ := current
      simp [Current, resumeLoop, empty, last]
    · rename_i delivering
      simp [Watcher.step, delivering] at stepped
    · exact current.elim
  | callbackReturns result =>
    obtain rfl : result = true := continuing
    unfold Current at current
    split at current
    · rename_i promise awaits
      simp [Watcher.step, awaits] at stepped
    · rename_i value completed
      simp [Watcher.step, completed] at stepped
    · rename_i delivering
      simp only [Watcher.step, delivering, if_true, Option.some.injEq] at stepped
      subst stepped
      exact ⟨rfl, current.2⟩
    · exact current.elim

/-- The last change has been passed on when the loop waits, unless one was notified while a
callback was suspended. -/
theorem lastChange_seen {events : List (WatcherEvent Value)} {final : Watcher Value}
    (run : Run step Admitted (arm {} false) events final) {promise : Nat}
    (waits : final.task = .awaiting false promise) :
    final.passed.getLast? = final.notified.getLast? := by
  have current : final.Current := run.preserves ⟨rfl, rfl⟩
    fun _ _ _ before admitted stepped => before.step admitted stepped
  rw [Current, waits] at current
  exact current.2

end

theorem lastChange_seen_repeated :
    ∃ final : Watcher Nat, exec step (arm {} false)
        [.signal (.notifyChange .success 1), .signal (.notifyChange .success 1), .resume,
          .signal (.notifyChange .success 1), .callbackReturns true,
          .signal (.notifyChange .success 2), .resume, .callbackReturns true] = some final ∧
      final.task = .awaiting false 2 ∧ final.passed.getLast? = final.notified.getLast? := by
  refine exists_exec_and ⟨_, rfl, rfl⟩ fun final executed waits => ?_
  exact lastChange_seen (run_of_within (by decide) executed) waits

theorem lastChange_lost :
    ∃ final : Watcher Nat, exec step (arm {} false)
        [.signal (.notifyChange .success 1), .resume, .signal (.notifyChange .success 2),
          .callbackReturns true] = some final ∧
      final.task = .awaiting false 1 ∧ final.passed.getLast? = some 1 ∧
      final.notified.getLast? = some 2 :=
  ⟨_, rfl, rfl, rfl, rfl⟩

end Watcher

namespace Watch

/-- The watcher is where the loop of `watch` is; no completion is pending. -/
@[mk_iff] structure Tracks (w : Watch Value) (watcher : Watcher Value) : Prop where
  task : match w.phase with
    | .waiting => ∃ promise, watcher.task = .awaiting false promise ∧
        watcher.propHandler = some promise
    | .delivering => watcher.task = .delivering ∧ watcher.propHandler = none
    | .closing => watcher.task = .closing ∧ watcher.propHandler = none
    | .ended => watcher.task = .idle ∧ watcher.propHandler = none
  timer : watcher.timerArmed = decide (w.timer = .armed)
  expired : watcher.expired = 0

/-- The events of the watcher behind an event of the loop: what the handler has
received is resumed at once, and the handler of a timer runs when it expires. -/
def watcherEvents (w : Watch Value) (event : WatchEvent Value) : List (WatcherEvent Value) :=
  let resumption := if w.phase = .waiting then [.resume] else []
  match event with
  | .notifyChange ec value => .signal (.notifyChange ec value) :: resumption
  | .callbackReturns result => [.callbackReturns result]
  | .timerFires => .timerExpires :: .timerHandler :: resumption

section

variable [Inhabited Value] {w next : Watch Value} {watcher : Watcher Value}

attribute [local simp] tracks_iff watcherEvents exec Watcher.step Watcher.signalled
  Watcher.receive Watcher.callHandler Watcher.setValues Watcher.resumeLoop callHandler setValues
  invoke in
theorem Tracks.step {event : WatchEvent Value} (tracks : w.Tracks watcher)
    (stepped : w.step event = some next) :
    ∃ later, exec Watcher.step watcher (w.watcherEvents event) = some later ∧
      next.Tracks later := by
  obtain ⟨_, _⟩ := watcher
  obtain ⟨phase, timer, late⟩ := w
  obtain ⟨position, rfl, rfl⟩ := tracks
  cases event with
  | notifyChange ec =>
    obtain rfl := Option.some.inj stepped
    cases phase with
    | waiting =>
      obtain ⟨_, rfl, rfl⟩ := position
      cases ec <;> simp [Watcher.notifyChange, Watcher.arm]
    | delivering | closing | ended =>
      obtain ⟨rfl, rfl⟩ := position
      exact ⟨_, rfl, ⟨rfl, rfl⟩, rfl, rfl⟩
  | callbackReturns result =>
    cases phase with
    | waiting | ended => cases stepped
    | delivering =>
      obtain ⟨rfl, rfl⟩ := position
      cases result <;> cases stepped
      · exact ⟨_, rfl, ⟨rfl, rfl⟩, by cases timer <;> rfl, rfl⟩
      · exact ⟨_, rfl, ⟨_, rfl, rfl⟩, rfl, rfl⟩
    | closing =>
      obtain ⟨rfl, rfl⟩ := position
      cases stepped
      exact ⟨_, rfl, ⟨rfl, rfl⟩, by cases timer <;> rfl, rfl⟩
  | timerFires =>
    obtain ⟨⟨⟩, ⟨⟩⟩ := Option.ite_none_right_eq_some.mp stepped
    cases phase with
    | waiting =>
      obtain ⟨_, rfl, rfl⟩ := position
      simp [Watcher.cancelWatch]
    | delivering | closing | ended =>
      obtain ⟨rfl, rfl⟩ := position
      exact ⟨_, rfl, ⟨rfl, rfl⟩, rfl, rfl⟩

/-- Every run of the loop is a run of the watcher. -/
theorem watcher_runs_watch {timeout : Option Nat} {events : List (WatchEvent Value)}
    {final : Watch Value} (executed : exec step (watch timeout) events = some final) :
    ∃ taken watcher, exec Watcher.step {} (.watch timeout :: taken) = some watcher ∧
      final.Tracks watcher := by
  have started : (watch timeout : Watch Value).Tracks
      (({ timerArmed := timeout.isSome } : Watcher Value).arm false) := by
    refine ⟨⟨0, rfl, rfl⟩, ?_, rfl⟩
    cases timeout <;> rfl
  exact exec_of_simulation (fun _ _ _ _ tracks stepped => tracks.step stepped) started executed

end

end Watch

end Coroserver.Dbus
