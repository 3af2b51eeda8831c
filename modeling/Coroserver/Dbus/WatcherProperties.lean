import Coroserver.Dbus.Watcher

/-! The timer fires once and finds the handler only while the loop waits for it. -/

namespace Coroserver.Dbus.Watch

open Machine

variable {Value : Type}

def ReportsTimeout (late : List (Invocation Value)) : Prop :=
  ∃ delivered : List (Invocation Value), delivered.length ≤ 1 ∧
    (∀ call ∈ delivered, call.ec = .success) ∧ late = delivered ++ [⟨.timedOut, none⟩]

/-- Once the timer has fired, the loop ends with the timeout reported if only
the callbacks return, whatever their results: no further signal is needed. -/
def EndsAtTimeout [Inhabited Value] (w : Watch Value) : Prop :=
  w.timer = .fired → ∀ results : Nat → Bool, ∃ count final,
    exec step w ((List.range count).map fun i => .callbackReturns (results i)) =
        some final ∧
      final.phase = .ended ∧ ReportsTimeout final.late

/-- The timer fires while the loop waits. -/
def Admitted (w : Watch Value) : WatchEvent Value → Prop
  | .timerFires => w.phase = .waiting
  | .notifyChange _ _ | .callbackReturns _ => True

instance (w : Watch Value) (event : WatchEvent Value) : Decidable (w.Admitted event) :=
  match event with
  | .timerFires => inferInstanceAs (Decidable (_ = _))
  | .notifyChange _ _ | .callbackReturns _ => instDecidableTrue

structure Sound (w : Watch Value) : Prop where
  early : w.timer ≠ .fired → w.late = []
  reports : w.timer = .fired →
    (w.phase = .closing ∨ w.phase = .ended) ∧ w.late = [⟨.timedOut, none⟩]

theorem sound_watch (timeout : Option Nat) : (watch timeout : Watch Value).Sound := by
  refine ⟨fun _ => rfl, ?_⟩
  intro fired
  cases timeout <;> cases fired

variable {w : Watch Value}

theorem Sound.endsAtTimeout [Inhabited Value] (sound : w.Sound) : w.EndsAtTimeout := by
  intro fired results
  obtain ⟨phase, late⟩ := sound.reports fired
  have reported : ReportsTimeout w.late := ⟨[], by simp, by simp, late⟩
  obtain closing | ended := phase
  · refine ⟨1, w.finish, ?_, rfl, reported⟩
    simp [exec, step, closing]
  · exact ⟨0, w, rfl, ended, reported⟩

theorem callHandler_of_not_fired (pending : w.timer ≠ .fired) (ec : ErrorCode) (value : Value) :
    ∃ phase, w.callHandler ec value = { w with phase } := by
  rw [callHandler]
  split
  · cases ec <;> simp only [setValues, invoke, if_neg pending]
    case noSuchDevice => exact ⟨w.phase, rfl⟩
    all_goals exact ⟨_, rfl⟩
  · exact ⟨w.phase, rfl⟩

theorem Sound.phase_ne_waiting (sound : w.Sound) (fired : w.timer = .fired) :
    w.phase ≠ .waiting := by
  obtain closing | ended := (sound.reports fired).1
  · simp [closing]
  · simp [ended]

theorem Sound.callHandler (sound : w.Sound) (ec : ErrorCode) (value : Value) :
    (w.callHandler ec value).Sound := by
  by_cases fired : w.timer = .fired
  · rw [Watch.callHandler, if_neg (sound.phase_ne_waiting fired)]
    exact sound
  · obtain ⟨phase, changed⟩ := callHandler_of_not_fired fired ec value
    rw [changed]
    exact ⟨sound.early, fun expired => absurd expired fired⟩

theorem Sound.finish (sound : w.Sound) : w.finish.Sound := by
  obtain ⟨_, timer, _⟩ := w
  cases timer with
  | unarmed | armed | cancelled =>
    exact ⟨fun _ => sound.early (by simp), fun fired => by cases fired⟩
  | fired =>
    exact ⟨fun pending => absurd rfl pending, fun _ => ⟨.inr rfl, (sound.reports rfl).2⟩⟩

section

variable [Inhabited Value]

variable {w next : Watch Value}

theorem step_callbackReturns {result : Bool}
    (stepped : w.step (.callbackReturns result) = some next) :
    (w.phase = .delivering ∧ next = { w with phase := .waiting }) ∨ next = w.finish := by
  cases phaseIs : w.phase with
  | delivering =>
    simp only [step, phaseIs, Option.some.injEq] at stepped
    subst stepped
    split
    · exact .inl ⟨rfl, rfl⟩
    · exact .inr rfl
  | closing =>
    simp only [step, phaseIs, Option.some.injEq] at stepped
    exact .inr stepped.symm
  | waiting | ended => simp [step, phaseIs] at stepped

theorem Sound.step {event : WatchEvent Value} (sound : w.Sound) (admitted : w.Admitted event)
    (stepped : w.step event = some next) : next.Sound := by
  cases event with
  | notifyChange ec value =>
    obtain rfl := Option.some.inj stepped
    exact sound.callHandler ec value
  | callbackReturns =>
    obtain ⟨delivering, rfl⟩ | rfl := step_callbackReturns stepped
    · refine ⟨sound.early, ?_⟩
      intro fired
      obtain closing | ended := (sound.reports fired).1
      · simp [closing] at delivering
      · simp [ended] at delivering
    · exact sound.finish
  | timerFires =>
    obtain ⟨armed, ⟨⟩⟩ := Option.ite_none_right_eq_some.mp stepped
    have waits : w.phase = .waiting := admitted
    have nothing : w.late = [] := sound.early (by simp [armed])
    rw [Watch.callHandler, if_pos waits]
    refine ⟨fun pending => absurd rfl pending, fun _ => ⟨.inl rfl, ?_⟩⟩
    simp [setValues, invoke, nothing]

private theorem late_of_callbackReturns {result : Bool}
    (stepped : w.step (.callbackReturns result) = some next) : next.late = w.late := by
  obtain ⟨-, rfl⟩ | rfl := step_callbackReturns stepped
  · rfl
  · rfl

theorem late_of_returns {final : Watch Value} {rounds : List Nat} {results : Nat → Bool}
    (executed : exec step w (rounds.map fun i => .callbackReturns (results i)) =
      some final) : final.late = w.late := by
  induction rounds generalizing w with
  | nil => exact congrArg late (Option.some.inj executed).symm
  | cons round rest ih =>
    rw [List.map_cons, exec] at executed
    split at executed
    · cases executed
    · rename_i next stepped
      rw [ih executed, late_of_callbackReturns stepped]

private theorem endsAtTimeout_iff_admitted {event : WatchEvent Value} (sound : w.Sound)
    (stepped : w.step event = some next) : next.EndsAtTimeout ↔ w.Admitted event := by
  refine ⟨?_, fun admitted => (sound.step admitted stepped).endsAtTimeout⟩
  cases event with
  | notifyChange | callbackReturns => exact fun _ => trivial
  | timerFires =>
    intro ends
    obtain ⟨armed, ⟨⟩⟩ := Option.ite_none_right_eq_some.mp stepped
    by_contra late
    have busy : w.phase ≠ .waiting := late
    rw [Watch.callHandler, if_neg busy] at ends
    obtain ⟨_, _, executed, -, _, -, -, reported⟩ := ends rfl fun _ => true
    have nothing : w.late = [] := sound.early (by simp [armed])
    rw [late_of_returns executed, nothing] at reported
    simp at reported

/-- An expiry is lost exactly if it comes during a callback: the loop then waits for signals with
no timer left. -/
theorem watch_endsAtTimeout_iff (timeout : Nat) {events : List (WatchEvent Value)}
    {final : Watch Value} (executed : exec step (watch (some timeout)) events = some final) :
    Along step (fun _ _ next => next.EndsAtTimeout) (watch (some timeout)) events ↔
      Run step Admitted (watch (some timeout)) events final :=
  along_iff_run Sound (sound_watch _) executed
    (fun _ _ _ sound admitted stepped => sound.step admitted stepped)
    fun _ _ _ sound stepped => endsAtTimeout_iff_admitted sound stepped

end

theorem watch_endsAtTimeout_between_changes :
    Along step (fun _ _ next => next.EndsAtTimeout) (watch (some 5))
      [.notifyChange .success true, .callbackReturns true, .timerFires,
        .notifyChange .success false] := by
  refine (exists_run_of_within ?_).elim fun final run =>
    (watch_endsAtTimeout_iff 5 run.exec_eq).mpr run
  decide

theorem watch_misses_timeout :
    ∃ w : Watch Bool, exec step (watch (some 5))
        [.notifyChange .success true, .timerFires, .callbackReturns true] = some w ∧
      w.timer = .fired ∧ w.phase = .waiting ∧ w.late = [] ∧ ¬ w.EndsAtTimeout ∧
      exec step w [.notifyChange .success false, .callbackReturns true] =
        some { w with late := [⟨.success, some false⟩] } := by
  refine ⟨⟨.waiting, .fired, []⟩, rfl, rfl, rfl, rfl, ?_, rfl⟩
  intro ends
  obtain ⟨_, _, executed, -, _, -, -, reported⟩ := ends rfl fun _ => true
  rw [late_of_returns executed] at reported
  simp at reported

end Coroserver.Dbus.Watch
