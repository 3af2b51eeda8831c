import Mathlib.Data.List.Forall2

/-! A traced computation tells what it does besides its result: its steps, the
functions it calls and the turns of its loops, each with what is done inside. `Spends`
bounds the steps by a measure of the state. -/

namespace Coroserver.Tracing

open List

/-- What is traced, and what the computations work on. -/
structure Signature where
  Step : Type
  Function : Type
  Loop : Type
  State : Type
  Error : Type

variable {sig : Signature} {First Second Item : Type}

inductive Activity (sig : Signature) where
  | step (step : sig.Step)
  | call (function : sig.Function) (body : List (Activity sig))
  /-- A turn is completed if the loop goes back to its condition. -/
  | turn (loop : sig.Loop) (completed : Bool) (body : List (Activity sig))

abbrev Trace (sig : Signature) := List (Activity sig)

mutual

def steps : Trace sig → List sig.Step
  | [] => []
  | first :: rest => first.steps ++ steps rest

def Activity.steps : Activity sig → List sig.Step
  | .step step => [step]
  | .call _ body => Tracing.steps body
  | .turn _ _ body => Tracing.steps body

end

structure Turn (sig : Signature) where
  loop : sig.Loop
  completed : Bool
  body : Trace sig

mutual

def turns : Trace sig → List (Turn sig)
  | [] => []
  | first :: rest => first.turns ++ turns rest

def Activity.turns : Activity sig → List (Turn sig)
  | .step _ => []
  | .call _ body => Tracing.turns body
  | .turn loop completed body => ⟨loop, completed, body⟩ :: Tracing.turns body

end

mutual

/-- The largest number of calls that are active at one time. -/
def nested : Trace sig → Nat
  | [] => 0
  | first :: rest => max first.nested (nested rest)

def Activity.nested : Activity sig → Nat
  | .step _ => 0
  | .call _ body => Tracing.nested body + 1
  | .turn _ _ body => Tracing.nested body

end

section

variable (trace other : Trace sig)

theorem steps_append : steps (trace ++ other) = steps trace ++ steps other := by
  induction trace with
  | nil => rfl
  | cons _ _ ih => rw [cons_append, steps, steps, ih, append_assoc]

theorem turns_append : turns (trace ++ other) = turns trace ++ turns other := by
  induction trace with
  | nil => rfl
  | cons _ _ ih => rw [cons_append, turns, turns, ih, append_assoc]

theorem nested_append : nested (trace ++ other) = max (nested trace) (nested other) := by
  induction trace with
  | nil => simp [nested]
  | cons _ _ ih => rw [cons_append, nested, nested, ih, Nat.max_assoc]

theorem steps_call (function : sig.Function) : steps [.call function trace] = steps trace := by
  simp [steps, Activity.steps]

theorem steps_turn (loop : sig.Loop) (completed : Bool) :
    steps [.turn loop completed trace] = steps trace := by
  simp [steps, Activity.steps]

theorem turns_call (function : sig.Function) : turns [.call function trace] = turns trace := by
  simp [turns, Activity.turns]

theorem turns_turn (loop : sig.Loop) (completed : Bool) :
    turns [.turn loop completed trace] = ⟨loop, completed, trace⟩ :: turns trace := by
  simp [turns, Activity.turns]

theorem nested_call (function : sig.Function) :
    nested [.call function trace] = nested trace + 1 := by
  simp [nested, Activity.nested]

theorem nested_turn (loop : sig.Loop) (completed : Bool) :
    nested [.turn loop completed trace] = nested trace := by
  simp [nested, Activity.nested]

end

abbrev Outcome (sig : Signature) (Result : Type) :=
  Trace sig × Except sig.Error (Result × sig.State)

def Traced (sig : Signature) (Result : Type) :=
  sig.State → Outcome sig Result

def Outcome.after (before : Trace sig) (outcome : Outcome sig First) : Outcome sig First :=
  (before ++ outcome.1, outcome.2)

def Outcome.bind (outcome : Outcome sig First) (continuation : First → Traced sig Second) :
    Outcome sig Second :=
  match outcome.2 with
  | .error failure => (outcome.1, .error failure)
  | .ok (value, next) => (continuation value next).after outcome.1

instance : Monad (Traced sig) where
  pure value := fun state => ([], .ok (value, state))
  bind computation continuation := fun state => (computation state).bind continuation

namespace Traced

def inspect : Traced sig sig.State := fun state => ([], .ok (state, state))

def fail (failure : sig.Error) : Traced sig First :=
  fun _ => ([], .error failure)

def call (function : sig.Function) (computation : Traced sig First) :
    Traced sig First := fun state =>
  ([.call function (computation state).1], (computation state).2)

def turn (loop : sig.Loop) (computation : Traced sig First) : Traced sig First := fun state =>
  ([.turn loop (computation state).2.isOk (computation state).1], (computation state).2)

def repeatWhile (gaveUp : sig.Error) (loop : sig.Loop) (continues : sig.State → Bool)
    (item : Traced sig (List Item)) : Nat → Traced sig (List Item)
  | 0 => fail gaveUp
  | bound + 1 => do
      let state ← inspect
      if continues state then
        let first ← turn loop item
        let others ← repeatWhile gaveUp loop continues item bound
        pure (first ++ others) else pure []

end Traced

open Traced

section

variable {outcome : Outcome sig First}
  {continuation : First → Traced sig Second}

theorem Outcome.bind_result {value : First} {next : sig.State}
    (succeeded : outcome.2 = .ok (value, next)) :
    (outcome.bind continuation).2 = (continuation value next).2 := by
  rw [Outcome.bind, succeeded]
  rfl

theorem Outcome.of_bind_ok {value : Second} {last : sig.State}
    (succeeded : (outcome.bind continuation).2 = .ok (value, last)) :
    ∃ first next, outcome.2 = .ok (first, next) ∧
      (continuation first next).2 = .ok (value, last) := by
  obtain ⟨before, failure | ⟨first, next⟩⟩ := outcome
  · cases succeeded
  · exact ⟨first, next, rfl, succeeded⟩

variable {gaveUp : sig.Error} {loop : sig.Loop} {continues : sig.State → Bool}
  {state : sig.State} {bound : Nat} {item : Traced sig (List Item)}

theorem repeatWhile_of_not_continues (stops : continues state = false) :
    repeatWhile gaveUp loop continues item (bound + 1) state = ([], .ok ([], state)) := by
  change Outcome.after [] ((if continues state then _ else _ :
    Traced sig (List Item)) state) = _
  rw [stops]
  rfl

theorem repeatWhile_of_continues (goes : continues state = true) :
    repeatWhile gaveUp loop continues item (bound + 1) state = (do
        let first ← turn loop item
        let others ← repeatWhile gaveUp loop continues item bound
        pure (first ++ others) : Traced sig (List Item)) state := by
  change Outcome.after [] ((if continues state then _ else _ :
    Traced sig (List Item)) state) = _
  rw [goes]
  rfl

end

section

variable {outcome : Outcome sig First}
  {continuation : First → Traced sig Second}

theorem nested_of_call (function : sig.Function)
    (computation : Traced sig First) (state : sig.State) :
    nested (Traced.call function computation state).1 = nested (computation state).1 + 1 :=
  nested_call _ function

theorem nested_le_bind : nested outcome.1 ≤ nested (outcome.bind continuation).1 := by
  unfold Outcome.bind
  split
  · exact Nat.le_refl _
  · rw [Outcome.after, nested_append]
    exact Nat.le_max_left _ _

theorem nested_le_bind_of_ok {value : First} {next : sig.State}
    (succeeded : outcome.2 = .ok (value, next)) : nested (continuation value next).1 ≤
      nested (outcome.bind continuation).1 := by
  unfold Outcome.bind
  rw [succeeded]
  change _ ≤ nested (outcome.1 ++ (continuation value next).1)
  rw [nested_append]
  exact Nat.le_max_right _ _

theorem nested_le_repeatWhile {item : Traced sig (List Item)} {continues : sig.State → Bool}
    {state : sig.State} (goes : continues state = true) (gaveUp : sig.Error) (loop : sig.Loop)
    (bound : Nat) : nested (item state).1 ≤
      nested (repeatWhile gaveUp loop continues item (bound + 1) state).1 := by
  have turned : nested (item state).1 = nested (Traced.turn loop item state).1 :=
    (nested_turn _ loop _).symm
  rw [turned, repeatWhile_of_continues goes]
  exact nested_le_bind

end

/-- What a computation has to spend: its steps are to be proper, each takes
something from the measure of the state, and it is not to give up. -/
structure Budget (sig : Signature) where
  size : sig.State → Nat
  proper : sig.Step → Prop
  gaveUp : sig.Error

/-- A computation that stays within a budget. -/
structure Spends (budget : Budget sig) (least bound : Nat) (state : sig.State)
    (outcome : Outcome sig First) : Prop where
  proper_steps : ∀ step ∈ steps outcome.1, budget.proper step
  steps_le : (steps outcome.1).length ≤ budget.size state
  left_le : ∀ value next, outcome.2 = .ok (value, next) →
    least ≤ (steps outcome.1).length ∧
      (steps outcome.1).length + budget.size next ≤ budget.size state
  turns : ∀ turn ∈ turns outcome.1,
    if turn.completed then ∃ step ∈ steps turn.body, budget.proper step
    else ∃ failure, outcome.2 = .error failure
  finishes : budget.size state < bound → outcome.2 ≠ .error budget.gaveUp

section

variable {budget : Budget sig} {least bound : Nat} {state : sig.State}
  {outcome : Outcome sig First}
  {continuation : First → Traced sig Second}

theorem spends_pure (value : First) : Spends budget 0 bound state
      ((pure value : Traced sig First) state) where
  proper_steps := nofun
  steps_le := Nat.zero_le _
  left_le := by
    intro _ _ same
    cases same
    exact ⟨Nat.le_refl _, Nat.le_of_eq (Nat.zero_add _)⟩
  turns := nofun
  finishes := nofun

theorem spends_fail {failure : sig.Error}
    (proper_failure : budget.size state < bound → failure ≠ budget.gaveUp) :
    Spends budget least bound state ((fail failure : Traced sig First) state) where
  proper_steps := nofun
  steps_le := Nat.zero_le _
  left_le := nofun
  turns := nofun
  finishes within same := proper_failure within (Except.error.inj same)

theorem Spends.mono (spends : Spends budget least bound state outcome)
    {fewer smaller : Nat} (fewer_le : fewer ≤ least) (smaller_le : smaller ≤ bound) :
    Spends budget fewer smaller state outcome where
  proper_steps := spends.proper_steps
  steps_le := spends.steps_le
  left_le value next same :=
    ⟨Nat.le_trans fewer_le (spends.left_le value next same).1, (spends.left_le value next same).2⟩
  turns := spends.turns
  finishes within := spends.finishes (Nat.lt_of_lt_of_le within smaller_le)

theorem Spends.any (spends : Spends budget least bound state outcome) :
    Spends budget 0 bound state outcome :=
  spends.mono (Nat.zero_le _) (Nat.le_refl _)

theorem Spends.after {before : Trace sig} {first second inner : Nat} {value : First}
    {next : sig.State} {outcome : Outcome sig Second} (spends : Spends budget first bound state
      (before, (.ok (value, next) : Except sig.Error (First × sig.State))))
    (later : Spends budget second inner next outcome) (enough : bound ≤ inner + first) :
    Spends budget (first + second) bound state (outcome.after before) := by
  obtain ⟨taken, left⟩ := spends.left_le value next rfl
  refine ⟨?_, ?_, ?_, ?_, fun within => later.finishes (by omega)⟩
  · rw [Outcome.after, steps_append]
    exact forall_mem_append.mpr ⟨spends.proper_steps, later.proper_steps⟩
  · have more := later.steps_le
    rw [Outcome.after, steps_append, length_append]
    exact Nat.le_trans (Nat.add_le_add_left more _) left
  · intro result last same
    obtain ⟨more, rest⟩ := later.left_le result last same
    rw [Outcome.after, steps_append, length_append, Nat.add_assoc]
    exact ⟨Nat.add_le_add taken more, Nat.le_trans (Nat.add_le_add_left rest _) left⟩
  · intro turn member
    rw [Outcome.after, turns_append] at member
    rcases mem_append.mp member with earlier | afterwards
    · have kept := spends.turns turn earlier
      split at kept
      · rename_i completed
        rwa [if_pos completed]
      · obtain ⟨_, impossible⟩ := kept
        cases impossible
    · exact later.turns turn afterwards

theorem Spends.bind {first second inner : Nat} (spends : Spends budget first bound state outcome)
    (later : ∀ value next, Spends budget second inner next (continuation value next))
    (enough : bound ≤ inner + first) :
    Spends budget (first + second) bound state (outcome.bind continuation) := by
  obtain ⟨before, failure | ⟨value, next⟩⟩ := outcome
  · refine ⟨spends.proper_steps, spends.steps_le, nofun, ?_, ?_⟩
    · intro turn member
      have kept := spends.turns turn member
      split at kept
      · rename_i completed
        rwa [if_pos completed]
      · rename_i abandoned
        rw [if_neg abandoned]
        exact ⟨failure, rfl⟩
    · intro within same
      exact spends.finishes within (congrArg Except.error (Except.error.inj same))
  · exact spends.after (later value next) enough

theorem Spends.bind_any (spends : Spends budget least bound state outcome)
    (later : ∀ value next, Spends budget 0 bound next (continuation value next)) :
    Spends budget least bound state (outcome.bind continuation) :=
  spends.bind later (Nat.le_add_right _ _)

theorem Spends.bind_inner (spends : Spends budget 1 (bound + 1) state outcome)
    (later : ∀ value next, Spends budget 0 bound next (continuation value next)) :
    Spends budget 1 (bound + 1) state (outcome.bind continuation) :=
  spends.bind later (Nat.le_refl _)

theorem Spends.any_bind (spends : Spends budget 0 bound state outcome)
    (later : ∀ value next, Spends budget least bound next (continuation value next)) :
    Spends budget least bound state (outcome.bind continuation) := by
  rw [← Nat.zero_add least]
  exact spends.bind later (Nat.le_refl _)

theorem Spends.call {computation : Traced sig First}
    (spends : Spends budget least bound state (computation state)) (function : sig.Function) :
    Spends budget least bound state (Traced.call function computation state) := by
  obtain ⟨_, _, _, _, finishes⟩ := spends
  refine ⟨?_, ?_, ?_, ?_, finishes⟩ <;>
    simpa only [Traced.call, steps_call, turns_call]

theorem Spends.turn {computation : Traced sig First}
    (spends : Spends budget 1 bound state (computation state)) (loop : sig.Loop) :
    Spends budget 1 bound state (Traced.turn loop computation state) := by
  obtain ⟨properSteps, _, left_le, kept, finishes⟩ := spends
  refine ⟨?_, ?_, ?_, ?_, finishes⟩
  · simpa only [Traced.turn, steps_turn]
  · simpa only [Traced.turn, steps_turn]
  · simpa only [Traced.turn, steps_turn]
  · intro turn member
    rw [Traced.turn, turns_turn] at member
    rcases mem_cons.mp member with rfl | inside
    · cases ended : (computation state).2 with
      | error failure => exact ⟨failure, ended⟩
      | ok pair =>
        have taken := (left_le pair.1 pair.2 ended).1
        obtain ⟨step, member⟩ := exists_mem_of_length_pos taken
        exact ⟨step, member, properSteps step member⟩
    · exact kept turn inside

theorem spends_repeatWhile {item : Traced sig (List Item)}
    {continues : sig.State → Bool} {limit : Nat} (spends : ∀ state, continues state = true →
      Spends budget 1 limit state (item state)) (loop : sig.Loop) (within : bound ≤ limit) :
    Spends budget 0 bound state (repeatWhile budget.gaveUp loop continues item bound state) := by
  induction bound generalizing state with
  | zero => exact spends_fail nofun
  | succ bound ih =>
    cases goes : continues state with
    | true =>
      rw [repeatWhile_of_continues goes]
      have turned := ((spends state goes).mono (Nat.le_refl 1) within).turn loop
      refine (turned.bind_inner fun first next => ?_).any
      exact (ih (Nat.le_of_succ_le within)).bind_any fun others last => spends_pure _
    | false =>
      rw [repeatWhile_of_not_continues goes]
      exact spends_pure []

end

end Coroserver.Tracing
