import Coroserver.ForkJoin

/-! The four overloads as programs of a coroutine that waits for a group of tasks,
from where it waits on the timer of its barrier: on one thread, no task runs before
that. The tasks are numbered from 0, and their value types may differ. -/

namespace Coroserver.Async

open ForkJoin

/-- `--count`, on a `std::size_t`. -/
def decrement (count : Nat) : Nat := if count = 0 then UInt64.size - 1 else count - 1

structure TaskBarrier where
  remaining : Nat

def TaskBarrier.completionHandler (barrier : TaskBarrier) : TaskBarrier × Bool :=
  let remaining := decrement barrier.remaining
  ({ remaining }, remaining == 0)

/-- How `when_all` ends. To dereference an empty `std::optional` is undefined. -/
inductive Completion (Value Error : Type) where
  | returned (value : Value)
  | rethrown (error : Error)
  | undefined

variable {n : Nat} {Value : Fin n → Type} {Error : Type}

structure Slots (Value : Fin n → Type) (Error : Type) where
  values : (task : Fin n) → Option (Value task) := fun _ => none
  errors : Fin n → Option Error := fun _ => none

def launchVoidTask (errors : Fin n → Option Error) (task : Fin n) :
    Except Error Unit → Fin n → Option Error
  | .ok _ => errors
  | .error error => Function.update errors task (some error)

def launchValueTask (slots : Slots Value Error) (task : Fin n) :
    Except Error (Value task) → Slots Value Error
  | .ok value => { slots with values := Function.update slots.values task (some value) }
  | .error error => { slots with errors := Function.update slots.errors task (some error) }

def checkAndRethrowErrors (errors : Fin n → Option Error) : Option Error :=
  Fin.findSome? errors

def dereference {Element : Type} : List (Option Element) → Option (List Element)
  | [] => some []
  | none :: _ => none
  | some value :: rest => (dereference rest).map (value :: ·)

def whenAllVoidImpl (n : Nat) (Error : Type) :
    Program (fun _ : Fin n => Except Error Unit) (Fin n → Option Error) TaskBarrier
      (Completion Unit Error) where
  leave := launchVoidTask
  completionHandler := TaskBarrier.completionHandler
  finish errors :=
    match checkAndRethrowErrors errors with
    | some error => .rethrown error
    | none => .returned ()

def whenAllValueImpl (Value : Fin n → Type) (Error : Type) :
    Program (fun task => Except Error (Value task)) (Slots Value Error) TaskBarrier
      (Completion ((task : Fin n) → Value task) Error) where
  leave := launchValueTask
  completionHandler := TaskBarrier.completionHandler
  finish slots :=
    match checkAndRethrowErrors slots.errors with
    | some error => .rethrown error
    | none =>
      if present : ∀ task, (slots.values task).isSome = true then
        .returned fun task => (slots.values task).get (present task)
      else .undefined

/-- The overload for a vector of values; that for a vector without values is
`whenAllVoidImpl`. -/
def whenAllVectorImpl (n : Nat) (Element Error : Type) :
    Program (fun _ : Fin n => Except Error Element) (Slots (fun _ : Fin n => Element) Error)
      TaskBarrier (Completion (List Element) Error) where
  leave := launchValueTask
  completionHandler := TaskBarrier.completionHandler
  finish slots :=
    match checkAndRethrowErrors slots.errors with
    | some error => .rethrown error
    | none =>
      match dereference (List.ofFn slots.values) with
      | some values => .returned values
      | none => .undefined

def whenAllTupleVoid (n : Nat) (Error : Type) :
    Group (fun _ : Fin n => Except Error Unit) (Fin n → Option Error) TaskBarrier
      (Completion Unit Error) :=
  launch (fun _ => none) { remaining := n }

def whenAllTuple (Value : Fin n → Type) (Error : Type) :
    Group (fun task => Except Error (Value task)) (Slots Value Error) TaskBarrier
      (Completion ((task : Fin n) → Value task) Error) :=
  launch {} { remaining := n }

def whenAllVectorVoid (n : Nat) (Error : Type) :
    Group (fun _ : Fin n => Except Error Unit) (Fin n → Option Error) TaskBarrier
      (Completion Unit Error) :=
  let group := launch (fun _ => none) { remaining := n }
  if n = 0 then { group with waiter := .resumed (.returned ()) } else group

def whenAllVector (n : Nat) (Element Error : Type) :
    Group (fun _ : Fin n => Except Error Element) (Slots (fun _ : Fin n => Element) Error)
      TaskBarrier (Completion (List Element) Error) :=
  let group := launch {} { remaining := n }
  if n = 0 then { group with waiter := .resumed (.returned []) } else group

end Coroserver.Async
