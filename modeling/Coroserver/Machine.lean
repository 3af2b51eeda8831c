import Mathlib.Data.List.Basic

/-! A machine is a partial step function on events. A run lists the events that were
taken, and each of its steps may be restricted by an admission predicate on the
state before the step. -/

namespace Coroserver.Machine

variable {State Event : Type}

/-- Execute a list of events; a step that is not enabled stops the run. -/
def exec (step : State → Event → Option State) : State → List Event → Option State
  | state, [] => some state
  | state, event :: rest =>
    match step state event with
    | none => none
    | some next => exec step next rest

/-- Runs in which the admission predicate holds before every step. -/
inductive Run (step : State → Event → Option State) (admits : State → Event → Prop) :
    State → List Event → State → Prop where
  | done {state} : Run step admits state [] state
  | next {state middle final event rest} :
      admits state event → step state event = some middle →
      Run step admits middle rest final → Run step admits state (event :: rest) final

def Along (step : State → Event → Option State) (good : State → Event → State → Prop) :
    State → List Event → Prop
  | _, [] => True
  | state, event :: rest =>
    match step state event with
    | none => True
    | some next => good state event next ∧ Along step good next rest

def anyStep (_ : State) (_ : Event) : Prop := True

variable {step : State → Event → Option State} {admits : State → Event → Prop}

variable {state final : State} {events : List Event}

theorem run_of_exec_of_forall {allowed : Event → Prop} (all : ∀ event ∈ events, allowed event)
    (executed : exec step state events = some final) :
    Run step (fun _ event => allowed event) state events final := by
  induction events generalizing state with
  | nil =>
    simp only [exec, Option.some.injEq] at executed
    exact executed ▸ .done
  | cons event rest ih =>
    cases stepped : step state event with
    | none => simp [exec, stepped] at executed
    | some =>
      simp only [exec, stepped] at executed
      exact .next (all event (by simp)) stepped
        (ih (fun other later => all other (by simp [later])) executed)

theorem Run.restrict {allowed : Event → Prop} (run : Run step admits state events final)
    (all : ∀ event ∈ events, allowed event) :
    Run step (fun state event => admits state event ∧ allowed event) state events final := by
  induction run with
  | done => exact .done
  | next admitted stepped _ ih =>
    exact .next ⟨admitted, all _ List.mem_cons_self⟩ stepped
      (ih fun event later => all event (List.mem_cons_of_mem _ later))

theorem run_of_exec (executed : exec step state events = some final) :
    Run step anyStep state events final :=
  run_of_exec_of_forall (fun _ _ => trivial) executed

def within (step : State → Event → Option State) (admits : State → Event → Prop)
    [∀ state event, Decidable (admits state event)] : State → List Event → Bool
  | _, [] => true
  | state, event :: rest =>
    match step state event with
    | none => false
    | some next => decide (admits state event) && within step admits next rest

theorem exists_run_of_within [∀ state event, Decidable (admits state event)]
    (checked : within step admits state events = true) :
    ∃ final, Run step admits state events final := by
  induction events generalizing state with
  | nil => exact ⟨state, .done⟩
  | cons event rest ih =>
    cases stepped : step state event with
    | none => simp [within, stepped] at checked
    | some =>
      simp only [within, stepped, Bool.and_eq_true, decide_eq_true_eq] at checked
      obtain ⟨final, run⟩ := ih checked.2
      exact ⟨final, .next checked.1 stepped run⟩

theorem Run.exec_eq (run : Run step admits state events final) :
    exec step state events = some final := by
  induction run with
  | done => rfl
  | next _ stepped _ ih => simpa only [exec, stepped] using ih

theorem run_of_within [∀ state event, Decidable (admits state event)]
    (checked : within step admits state events = true)
    (executed : exec step state events = some final) : Run step admits state events final := by
  obtain ⟨last, run⟩ := exists_run_of_within checked
  obtain rfl := Option.some.inj (run.exec_eq.symm.trans executed)
  exact run

theorem exists_exec_and {found implied : State → Prop}
    (executed : ∃ final, exec step state events = some final ∧ found final)
    (result : ∀ final, exec step state events = some final → found final → implied final) :
    ∃ final, exec step state events = some final ∧ found final ∧ implied final := by
  obtain ⟨final, executed, found⟩ := executed
  exact ⟨final, executed, found, result final executed found⟩

theorem Run.append {middle : State} {left right : List Event}
    (first : Run step admits state left middle) (second : Run step admits middle right final) :
    Run step admits state (left ++ right) final := by
  induction first with
  | done => exact second
  | next admitted stepped _ ih => exact .next admitted stepped (ih second)

theorem Run.preserves {invariant : State → Prop} {state final : State} {events : List Event}
    (run : Run step admits state events final) (start : invariant state)
    (keeps : ∀ state event next, invariant state → admits state event →
      step state event = some next → invariant next) : invariant final := by
  induction run with
  | done => exact start
  | next admitted stepped _ ih => exact ih (keeps _ _ _ start admitted stepped)

/-- A machine simulates another if it can follow each step by steps of its own. -/
theorem exec_of_simulation {Concrete Action : Type} {move : Concrete → Action → Option Concrete}
    {relates : State → Concrete → Prop} {actions : State → Event → List Action}
    (follows : ∀ state event next concrete, relates state concrete → step state event = some next →
        ∃ later, exec move concrete (actions state event) = some later ∧ relates next later)
    {concrete : Concrete} (related : relates state concrete)
    (executed : exec step state events = some final) :
    ∃ taken later, exec move concrete taken = some later ∧ relates final later := by
  induction events generalizing state concrete with
  | nil =>
    obtain rfl := Option.some.inj executed
    exact ⟨[], concrete, rfl, related⟩
  | cons event rest ih =>
    cases stepped : step state event with
    | none => simp [exec, stepped] at executed
    | some next =>
      simp only [exec, stepped] at executed
      obtain ⟨_, first, relatedNext⟩ := follows state event next concrete related stepped
      obtain ⟨taken, later, second, relatedFinal⟩ := ih relatedNext executed
      exact ⟨_, later, ((run_of_exec first).append (run_of_exec second)).exec_eq, relatedFinal⟩

theorem along_iff_run (invariant : State → Prop) {good : State → Event → State → Prop}
    (start : invariant state) (executed : exec step state events = some final)
    (keeps : ∀ state event next, invariant state → admits state event →
      step state event = some next → invariant next)
    (agrees : ∀ state event next, invariant state → step state event = some next →
      (good state event next ↔ admits state event)) :
    Along step good state events ↔ Run step admits state events final := by
  induction events generalizing state with
  | nil =>
    simp only [exec, Option.some.injEq] at executed
    subst executed
    exact ⟨fun _ => .done, fun _ => trivial⟩
  | cons event rest ih =>
    cases stepped : step state event with
    | none => simp [exec, stepped] at executed
    | some next =>
      simp only [exec, stepped] at executed
      simp only [Along, stepped]
      constructor
      · intro along
        have admitted := (agrees state event next start stepped).mp along.1
        have kept := keeps state event next start admitted stepped
        exact .next admitted stepped ((ih kept executed).mp along.2)
      · intro run
        cases run with
        | next admitted steppedAgain others =>
          obtain rfl := Option.some.inj (stepped.symm.trans steppedAgain)
          have kept := keeps state event next start admitted stepped
          exact ⟨(agrees state event next start stepped).mpr admitted,
            (ih kept executed).mpr others⟩

/-- A measure that every step of an invariant region decreases bounds the
length of the runs that start there. -/
theorem Run.length_le {invariant : State → Prop} {measure : State → Nat}
    {state final : State} {events : List Event}
    (run : Run step admits state events final) (start : invariant state)
    (keeps : ∀ state event next, invariant state → admits state event →
      step state event = some next → invariant next ∧ measure next < measure state) :
    events.length + measure final ≤ measure state := by
  induction run with
  | done => simp
  | next admitted stepped _ ih =>
    obtain ⟨kept, _⟩ := keeps _ _ _ start admitted stepped
    have remaining := ih kept
    simp only [List.length_cons]
    omega

end Coroserver.Machine
