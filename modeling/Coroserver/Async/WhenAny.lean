import Coroserver.Async.WhenAll

/-! The overloads for a pack of factories, a vector of factories and a vector of
awaitables, each without and with values. Like `when_all` they start where the
tasks have been spawned and the coroutine waits on the timer of its barrier. -/

namespace Coroserver.Async

open ForkJoin

structure RaceBarrier where
  remaining : Nat
  completed : Bool := false
  /-- The stop source, which only the tasks read. -/
  stopRequested : Bool := false

def RaceBarrier.completionHandler (barrier : RaceBarrier) : RaceBarrier × Bool :=
  let stopped := if barrier.completed then barrier
    else { barrier with completed := true, stopRequested := true }
  let remaining := decrement stopped.remaining
  ({ stopped with remaining }, remaining == 0)

/-- How `when_any` ends. To read a slot outside the vector or to dereference an
empty `std::optional` is undefined. -/
inductive Raced (Result Error : Type) where
  | returned (result : Result)
  | rethrown (error : Error)
  | runtimeError (what : String)
  | invalidArgument (what : String)
  | undefined

variable {n : Nat} {Value : Fin n → Type} {Error : Type}

structure Race (n : Nat) (Error : Type) where
  errors : Fin n → Option Error := fun _ => none
  completedIndex : Nat := n

structure ValueRace (Value : Fin n → Type) (Error : Type) extends Race n Error where
  values : (task : Fin n) → Option (Value task) := fun _ => none

namespace Race

/-- `completed_index.compare_exchange_strong(expected, I)`, where `n` is expected. -/
def win (race : Race n Error) (task : Fin n) : Race n Error :=
  { race with
    completedIndex := if race.completedIndex = n then task.val else race.completedIndex }

def fail (race : Race n Error) (task : Fin n) (error : Error) : Race n Error :=
  { race with errors := Function.update race.errors task (some error) }

def winnerError (race : Race n Error) : Option Error :=
  if bound : race.completedIndex < n then race.errors ⟨race.completedIndex, bound⟩ else none

end Race

namespace ValueRace

def store (race : ValueRace Value Error) (task : Fin n) (value : Value task) :
    ValueRace Value Error :=
  { race with values := Function.update race.values task (some value) }

def winnerValue (race : ValueRace Value Error) : Option ((task : Fin n) × Value task) :=
  if bound : race.completedIndex < n then
    (race.values ⟨race.completedIndex, bound⟩).map fun value => ⟨_, value⟩
  else none

end ValueRace

def launchAnyVoidFactory (race : Race n Error) (task : Fin n) : Except Error Unit → Race n Error
  | .ok _ => race.win task
  | .error error => race.fail task error

def launchAnyValueFactory (race : ValueRace Value Error) (task : Fin n) :
    Except Error (Value task) → ValueRace Value Error
  | .ok value => { race.store task value with toRace := race.toRace.win task }
  | .error error => { race with toRace := race.toRace.fail task error }

/-- The end of a task of the overload for awaitables, which ignores
`operation_aborted`. -/
def launchAwaitable (aborted : Error → Bool) (race : Race n Error) (task : Fin n) :
    Except Error Unit → Race n Error
  | .ok _ => race.win task
  | .error error => if aborted error then race else race.fail task error

def launchValueAwaitable (aborted : Error → Bool) (race : ValueRace Value Error)
    (task : Fin n) : Except Error (Value task) → ValueRace Value Error
  | .ok value => { race.store task value with toRace := race.toRace.win task }
  | .error error =>
    if aborted error then race else { race with toRace := race.toRace.fail task error }

def Race.finish (race : Race n Error) : Raced Nat Error :=
  match race.winnerError with
  | some error => .rethrown error
  | none => .returned race.completedIndex

def ValueRace.finish (missing : Raced ((task : Fin n) × Value task) Error)
    (race : ValueRace Value Error) : Raced ((task : Fin n) × Value task) Error :=
  match race.winnerError with
  | some error => .rethrown error
  | none =>
    match race.winnerValue with
    | some result => .returned result
    | none => missing

def whenAnyVoidImpl (n : Nat) (Error : Type) :
    Program (fun _ : Fin n => Except Error Unit) (Race n Error) RaceBarrier (Raced Nat Error) where
  leave := launchAnyVoidFactory
  completionHandler := RaceBarrier.completionHandler
  finish := Race.finish

def whenAnyValueImpl (Value : Fin n → Type) (Error : Type) :
    Program (fun task => Except Error (Value task)) (ValueRace Value Error) RaceBarrier
      (Raced ((task : Fin n) × Value task) Error) where
  leave := launchAnyValueFactory
  completionHandler := RaceBarrier.completionHandler
  finish := ValueRace.finish (.runtimeError "Winner task did not produce a value")

def whenAnyAwaitableVoidImpl (n : Nat) (aborted : Error → Bool) :
    Program (fun _ : Fin n => Except Error Unit) (Race n Error) RaceBarrier (Raced Nat Error) where
  leave := launchAwaitable aborted
  completionHandler := RaceBarrier.completionHandler
  finish := Race.finish

/-- The overload for awaitables with values, which dereferences the slot of the
winner without a check. -/
def whenAnyAwaitableImpl (n : Nat) (Element : Type) (aborted : Error → Bool) :
    Program (fun _ : Fin n => Except Error Element) (ValueRace (fun _ : Fin n => Element) Error)
      RaceBarrier (Raced ((_ : Fin n) × Element) Error) where
  leave := launchValueAwaitable aborted
  completionHandler := RaceBarrier.completionHandler
  finish := ValueRace.finish .undefined

section Start

variable {Outcome : Fin n → Type} {State Result : Type}

def startRace (state : State) : Group Outcome State RaceBarrier (Raced Result Error) :=
  launch state { remaining := n }

def startVector (what : String) (state : State) :
    Group Outcome State RaceBarrier (Raced Result Error) :=
  let group : Group Outcome State RaceBarrier (Raced Result Error) := startRace state
  if n = 0 then { group with waiter := .resumed (.invalidArgument what) } else group

end Start

def whenAnyTupleVoid (n : Nat) (Error : Type) :
    Group (fun _ : Fin n => Except Error Unit) (Race n Error) RaceBarrier (Raced Nat Error) :=
  startRace {}

def whenAnyTuple (Value : Fin n → Type) (Error : Type) :
    Group (fun task => Except Error (Value task)) (ValueRace Value Error) RaceBarrier
      (Raced ((task : Fin n) × Value task) Error) :=
  startRace {}

def whenAnyVectorVoid (n : Nat) (Error : Type) :
    Group (fun _ : Fin n => Except Error Unit) (Race n Error) RaceBarrier (Raced Nat Error) :=
  startVector "when_any requires at least one factory" {}

def whenAnyVector (n : Nat) (Element Error : Type) :
    Group (fun _ : Fin n => Except Error Element) (ValueRace (fun _ : Fin n => Element) Error)
      RaceBarrier (Raced ((_ : Fin n) × Element) Error) :=
  startVector "when_any requires at least one factory" {}

def whenAnyAwaitableVoid (n : Nat) (Error : Type) :
    Group (fun _ : Fin n => Except Error Unit) (Race n Error) RaceBarrier (Raced Nat Error) :=
  startVector "when_any requires at least one awaitable" {}

def whenAnyAwaitable (n : Nat) (Element Error : Type) :
    Group (fun _ : Fin n => Except Error Element) (ValueRace (fun _ : Fin n => Element) Error)
      RaceBarrier (Raced ((_ : Fin n) × Element) Error) :=
  startVector "when_any requires at least one awaitable" {}

end Coroserver.Async
