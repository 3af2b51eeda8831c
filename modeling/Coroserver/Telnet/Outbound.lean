import Coroserver.Bytes
import Coroserver.Machine

/-! `send` of the telnet server and client. Every call appends its argument to
`outQueue_`; a call that finds no writer becomes the writer and hands chunks to
`async_write` until the queue is empty or a write fails. A call is suspended only in
`async_write`, so the suspended writers are listed with the chunk each of them has
in flight. -/

namespace Coroserver.Telnet

open Machine

structure Outbound (Coroutine : Type) where
  outQueue : Bytes := []
  writing : Bool := false
  inFlight : List (Coroutine × Bytes) := []
  arguments : List Bytes := []
  handed : List Bytes := []

inductive OutboundEvent (Coroutine : Type) where
  | send (caller : Coroutine) (data : Bytes)
  /-- `async_write` of a suspended writer completes. -/
  | written (writer : Coroutine) (failed : Bool)

namespace Outbound

variable {Coroutine : Type}

/-- The loop of the writer up to its next suspension; the result is what `send`
returns, if it returns. -/
def drain (out : Outbound Coroutine) (writer : Coroutine) (failed : Bool) :
    Outbound Coroutine × Option Bool :=
  if out.outQueue ≠ [] ∧ failed = false then
    ({ out with
        outQueue := []
        inFlight := out.inFlight ++ [(writer, out.outQueue)]
        handed := out.handed ++ [out.outQueue] }, none)
  else
    ({ out with outQueue := [], writing := false }, some (!failed))

def enqueue (out : Outbound Coroutine) (data : Bytes) : Outbound Coroutine :=
  { out with outQueue := out.outQueue ++ data, arguments := out.arguments ++ [data] }

def becomeWriter (out : Outbound Coroutine) : Outbound Coroutine :=
  { out with writing := true }

def send (out : Outbound Coroutine) (caller : Coroutine) (data : Bytes) :
    Outbound Coroutine × Option Bool :=
  if out.writing then
    (out.enqueue data, some true)
  else
    (out.enqueue data).becomeWriter.drain caller false

variable [DecidableEq Coroutine]

def resume (out : Outbound Coroutine) (entry : Coroutine × Bytes) : Outbound Coroutine :=
  { out with inFlight := out.inFlight.erase entry }

def written (out : Outbound Coroutine) (writer : Coroutine) (failed : Bool) :
    Option (Outbound Coroutine × Option Bool) :=
  match out.inFlight.find? (fun entry => entry.1 = writer) with
  | none => none
  | some entry => some ((out.resume entry).drain writer failed)

def step (out : Outbound Coroutine) : OutboundEvent Coroutine → Option (Outbound Coroutine)
  | .send caller data => some (out.send caller data).1
  | .written writer failed => (out.written writer failed).map Prod.fst

variable {out next : Outbound Coroutine}

theorem exists_of_step_written {writer : Coroutine} {failed : Bool}
    (stepped : out.step (.written writer failed) = some next) :
    ∃ entry ∈ out.inFlight, next = ((out.resume entry).drain writer failed).1 := by
  simp only [step, written] at stepped
  split at stepped
  · cases stepped
  · rename_i entry found
    exact ⟨entry, List.mem_of_find?_eq_some found, (Option.some.inj stepped).symm⟩

def SingleWriter (out : Outbound Coroutine) : Prop :=
  if out.writing then out.inFlight.length = 1 else out.inFlight = [] ∧ out.outQueue = []

omit [DecidableEq Coroutine] in
theorem SingleWriter.drain {out : Outbound Coroutine} (writing : out.writing = true)
    (free : out.inFlight = []) (writer : Coroutine) (failed : Bool) :
    (out.drain writer failed).1.SingleWriter := by
  unfold Outbound.drain
  split
  · simp [SingleWriter, writing, free]
  · simp [SingleWriter, free]

theorem SingleWriter.step {event : OutboundEvent Coroutine} (single : out.SingleWriter)
    (stepped : out.step event = some next) : next.SingleWriter := by
  unfold SingleWriter at single
  cases event with
  | send caller data =>
    obtain rfl := Option.some.inj stepped
    by_cases writing : out.writing = true
    · rw [if_pos writing] at single
      simpa [Outbound.send, writing, SingleWriter, enqueue] using single
    · rw [if_neg writing] at single
      rw [Outbound.send, if_neg writing]
      have claimed : (out.enqueue data).becomeWriter.writing = true := rfl
      exact .drain claimed single.1 caller false
  | written writer failed =>
    obtain ⟨entry, member, rfl⟩ := exists_of_step_written stepped
    have writing : out.writing = true := by
      by_contra idle
      rw [if_neg idle] at single
      simp [single.1] at member
    rw [if_pos writing] at single
    obtain ⟨only, alone⟩ := List.length_eq_one_iff.mp single
    have same : entry = only := by simpa [alone] using member
    have free : (out.resume entry).inFlight = [] := by simp [resume, alone, same]
    have still : (out.resume entry).writing = true := writing
    exact .drain still free writer failed

def Succeeds (_ : Outbound Coroutine) : OutboundEvent Coroutine → Prop
  | .send _ _ => True
  | .written _ failed => failed = false

instance (out : Outbound Coroutine) (event : OutboundEvent Coroutine) :
    Decidable (out.Succeeds event) :=
  match event with
  | .send _ _ => instDecidableTrue
  | .written _ failed => inferInstanceAs (Decidable (failed = false))

def Faithful (out : Outbound Coroutine) : Prop :=
  out.handed.flatten ++ out.outQueue = out.arguments.flatten

omit [DecidableEq Coroutine] in
theorem Faithful.drain {out : Outbound Coroutine} (faithful : out.Faithful) (writer : Coroutine) :
    (out.drain writer false).1.Faithful := by
  unfold Faithful at faithful
  unfold Outbound.drain
  split
  · simpa [Faithful] using faithful
  · rename_i drained
    have empty : out.outQueue = [] := by
      by_contra pending
      exact drained ⟨pending, rfl⟩
    simpa [Faithful, empty] using faithful

theorem Faithful.step {event : OutboundEvent Coroutine} (faithful : out.Faithful)
    (succeeds : out.Succeeds event) (stepped : out.step event = some next) : next.Faithful := by
  cases event with
  | send caller data =>
    obtain rfl := Option.some.inj stepped
    have queued : (out.enqueue data).Faithful := by
      unfold Faithful at faithful
      simp [Faithful, enqueue, ← faithful]
    unfold Outbound.send
    split
    · exact queued
    · have claimed : (out.enqueue data).becomeWriter.Faithful := queued
      exact claimed.drain caller
  | written writer failed =>
    obtain rfl : failed = false := succeeds
    obtain ⟨entry, -, rfl⟩ := exists_of_step_written stepped
    have resumed : (out.resume entry).Faithful := faithful
    exact resumed.drain writer

/-- Unless a write fails, the bytes handed to `async_write` followed by the queued
ones are the arguments of `send` in call order, and at most one write is in flight. -/
theorem serialised_of_run {events : List (OutboundEvent Coroutine)}
    {final : Outbound Coroutine} (run : Run step Succeeds {} events final) :
    final.handed.flatten ++ final.outQueue = final.arguments.flatten ∧ final.inFlight.length ≤ 1 ∧
      (final.inFlight = [] →
        final.outQueue = [] ∧ final.handed.flatten = final.arguments.flatten) := by
  have faithful : final.Faithful :=
    run.preserves rfl fun _ _ _ before succeeds stepped => before.step succeeds stepped
  have single : final.SingleWriter :=
    run.preserves ⟨rfl, rfl⟩ fun _ _ _ before _ stepped => before.step stepped
  unfold Faithful at faithful
  unfold SingleWriter at single
  split at single
  · refine ⟨faithful, Nat.le_of_eq single, fun free => ?_⟩
    simp [free] at single
  · refine ⟨faithful, by simp [single.1], fun _ => ⟨single.2, ?_⟩⟩
    simpa [single.2] using faithful

theorem serialised_of_run_three_sends :
    ∃ final : Outbound Nat, exec step {}
        [.send 0 [1, 2], .send 1 [3], .send 2 [4, 5], .written 0 false, .written 0 false] =
        some final ∧ final.handed = [[1, 2], [3, 4, 5]] ∧ final.inFlight = [] ∧
      final.outQueue = [] ∧ final.handed.flatten = final.arguments.flatten := by
  refine exists_exec_and ⟨_, rfl, rfl⟩ fun final executed _ => ?_
  have free : final.inFlight = [] := by
    cases Option.some.inj executed
    rfl
  exact ⟨free, (serialised_of_run (run_of_within (by decide) executed)).2.2 free⟩

end Outbound

end Coroserver.Telnet
