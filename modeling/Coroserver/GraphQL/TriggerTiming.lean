import Coroserver.GraphQL.Subscription
import Mathlib.Logic.Function.Iterate

/-! One trigger on a discrete clock and the coroutine that calls its `wait`. What
becomes of a trigger that nobody fires or cancels any more is the iteration of
`proceed`. -/

namespace Coroserver.GraphQL

open Machine List

def SubscriptionTrigger.period (windowMs : Int) : SubscriptionTrigger → Int
  | .timer interval => interval
  | .event _ _ => windowMs

structure TimedTrigger where
  trigger : SubscriptionTrigger
  wait : Option TriggerWait := none
  now : Nat := 0
  /-- When the timer expires that the wait in progress is on. -/
  deadline : Nat := 0
  /-- From here on a history that no operation reads: `cancel` has been called, a `fire` since the
  last wait that returned `true`, a `fire` in a window, and what the waits returned at
  which times. -/
  cancels : Bool := false
  owed : Bool := false
  absorbed : Bool := false
  completed : List (Nat × Bool) := []

inductive TriggerEvent where
  | tick
  | call
  | fire
  | cancel
  /-- The timer of a `TimerTrigger` expires; its handler is queued. -/
  | expired
  | resume
deriving DecidableEq

namespace TimedTrigger

def complete (timed : TimedTrigger) (result : Bool) : TimedTrigger :=
  { timed with
    wait := none
    owed := timed.owed && !result
    completed := timed.completed ++ [(timed.now, result)] }

def step (windowMs : Int) (timed : TimedTrigger) : TriggerEvent → Option TimedTrigger
  | .tick => some { timed with now := timed.now + 1 }
  | .call =>
    match timed.wait with
    | none => some
        { timed with
          trigger := timed.trigger.wait.1
          wait := some timed.trigger.wait.2
          deadline := timed.now + (timed.trigger.period windowMs).toNat }
    | some _ => none
  | .fire => some
      { timed with
        trigger := timed.trigger.fire
        wait := timed.wait.map .wake
        owed := true
        absorbed := timed.absorbed || timed.wait == some .window }
  | .cancel => some
      { timed with
        trigger := timed.trigger.cancel
        wait := timed.wait.map .abort
        cancels := true }
  | .expired =>
    match timed.wait with
    | some (.timer none) =>
      if timed.deadline ≤ timed.now then some { timed with wait := some (.timer (some true)) }
      else none
    | _ => none
  | .resume =>
    match timed.wait with
    | some (.timer (some result)) => some (timed.complete result)
    | some (.sleeping true) =>
      if timed.trigger.cancelled then some (timed.complete false)
      else some
        { timed with
          trigger := timed.trigger.clear
          wait := some .window
          deadline := timed.now + windowMs.toNat }
    | some .window =>
      if timed.deadline ≤ timed.now then some (timed.complete !timed.trigger.cancelled) else none
    | _ => none

def quietEvents : List TriggerEvent := [.resume, .expired, .call, .tick]

/-- The loop calls `wait` right after each return, and time passes only when no
coroutine can go on. -/
def proceed (windowMs : Int) (timed : TimedTrigger) : TimedTrigger :=
  (quietEvents.findSome? (timed.step windowMs)).getD timed

/-- Left alone, the wait in progress or else the next one returns the result. -/
def Completes (windowMs : Int) (timed : TimedTrigger) (result : Bool) : Prop :=
  ∃ steps time later,
    ((proceed windowMs)^[steps] timed).completed = timed.completed ++ (time, result) :: later

def fate (timed : TimedTrigger) : Option Bool :=
  match timed.wait.getD timed.trigger.wait.2 with
  | .timer none => some true
  | .timer (some result) => some result
  | .sleeping false => none
  | .sleeping true | .window => some (!timed.trigger.cancelled)

def rank (windowMs : Int) (timed : TimedTrigger) : Nat :=
  match timed.wait with
  | none => (timed.trigger.period windowMs).toNat + 3
  | some (.timer none) => timed.deadline - timed.now + 2
  | some (.sleeping _) => windowMs.toNat + 2
  | some (.timer (some _)) | some .window => timed.deadline - timed.now + 1

attribute [local simp] SubscriptionTrigger.wait SubscriptionTrigger.cancelled
  SubscriptionTrigger.clear SubscriptionTrigger.fire SubscriptionTrigger.cancel
  SubscriptionTrigger.period TriggerWait.wake TriggerWait.abort complete

variable {windowMs : Int} {timed next : TimedTrigger} {result : Bool}

theorem proceed_cases (windowMs : Int) (timed : TimedTrigger) :
    (timed.proceed windowMs).completed = timed.completed ∧
        (timed.proceed windowMs).fate = timed.fate ∧
        (timed.fate ≠ none → (timed.proceed windowMs).rank windowMs < timed.rank windowMs) ∨
      ∃ time result, timed.fate = some result ∧
        (timed.proceed windowMs).completed = timed.completed ++ [(time, result)] := by
  obtain ⟨trigger, wait, now, deadline, _⟩ := timed
  rcases trigger with interval | ⟨_ | _, _ | _⟩ <;>
    rcases wait with _ | (_ | _) | (_ | _) | _ <;>
    by_cases due : deadline ≤ now <;>
    simp [proceed, quietEvents, findSome?_cons, step, fate, rank, due] <;> omega

theorem iterate_proceed (windowMs : Int) (timed : TimedTrigger) (steps : Nat) :
    ((proceed windowMs)^[steps] timed).completed = timed.completed ∨
      ∃ time result later, timed.fate = some result ∧ ((proceed windowMs)^[steps] timed).completed =
          timed.completed ++ (time, result) :: later := by
  induction steps generalizing timed with
  | zero => exact .inl rfl
  | succ steps ih =>
    rw [Function.iterate_succ_apply]
    have later := ih (timed.proceed windowMs)
    rcases proceed_cases windowMs timed with ⟨same, fate, _⟩ | ⟨time, result, fate, grown⟩
    · rwa [same, fate] at later
    · rw [grown] at later
      rcases later with none | ⟨_, _, _, _, more⟩
      · exact .inr ⟨time, result, [], fate, none⟩
      · exact .inr ⟨time, result, _, fate, more.trans (append_assoc ..)⟩

theorem completes_of_fate (fate : timed.fate = some result) :
    timed.Completes windowMs result := by
  induction measured : timed.rank windowMs using Nat.strongRecOn generalizing timed with
  | _ _ ih =>
    rcases proceed_cases windowMs timed with ⟨same, kept, decreased⟩ | ⟨time, other, found, grown⟩
    · obtain ⟨steps, _⟩ :=
        ih _ (measured ▸ decreased (by simp [fate])) (kept.trans fate) rfl
      exact ⟨steps + 1, by rwa [Function.iterate_succ_apply, ← same]⟩
    · obtain rfl := Option.some.inj (found.symm.trans fate)
      exact ⟨1, time, [], grown⟩

theorem completes_iff : timed.Completes windowMs result ↔ timed.fate = some result := by
  refine ⟨fun ⟨steps, time, later, completed⟩ => ?_, completes_of_fate⟩
  rcases iterate_proceed windowMs timed steps with same | ⟨_, other, _, fate, grown⟩
  · simp [completed] at same
  · simp only [completed, append_cancel_left_eq, List.cons.injEq, Prod.mk.injEq] at grown
    rw [fate, grown.1.2]

def Stops (windowMs : Int) (timed : TimedTrigger) : Prop :=
  timed.cancels = true → timed.wait ≠ none → timed.Completes windowMs false

/-- No timer has expired whose wait is to be stopped, and after that only an
`EventTrigger` that has been fired is waited on. -/
def Stoppable (timed : TimedTrigger) : TriggerEvent → Prop
  | .cancel => timed.wait ≠ some (.timer (some true))
  | .call => timed.cancels = true → ∃ cancelled, timed.trigger = .event true cancelled
  | .tick | .fire | .expired | .resume => True

def Consistent (timed : TimedTrigger) : Prop :=
  match timed.trigger, timed.wait with
  | .timer _, none | .timer _, some (.timer _) => True
  | .event _ cancelled, none | .event _ cancelled, some (.sleeping _)
  | .event _ cancelled, some .window => cancelled = timed.cancels
  | _, _ => False

theorem Consistent.step {event : TriggerEvent} (consistent : timed.Consistent)
    (stops : timed.Stops windowMs) (stepped : timed.step windowMs event = some next) :
    next.Consistent ∧ (next.Stops windowMs ↔ timed.Stoppable event) := by
  simp only [Stops, completes_iff] at stops ⊢
  revert stepped
  fun_cases TimedTrigger.step windowMs timed event <;> intro stepped <;> try cases stepped
  all_goals
    obtain ⟨_ | ⟨_ | _, _⟩, _ | ⟨_ | _⟩ | _, _⟩ := timed <;>
      simp_all [Consistent, Stoppable, fate]

/-- The coroutine that calls `wait` is the loop of a session. -/
def WaitedOnBy (timed : TimedTrigger) (session : SubscriptionSession) : Prop :=
  timed.trigger = session.trigger ∧ timed.wait.map .waiting = some session.loop

theorem Stops.finishes {session : SubscriptionSession} (stops : timed.Stops windowMs)
    (cancelled : timed.cancels = true) (waited : timed.WaitedOnBy session) (schema : TypedSchema) :
    session.step schema .waitReturned = some session.stop := by
  obtain ⟨sameTrigger, sameWait⟩ := waited
  obtain ⟨wait, waiting, loop⟩ := Option.map_eq_some_iff.mp sameWait
  have fate := completes_iff.mp (stops cancelled (by simp [waiting]))
  rw [TimedTrigger.fate, waiting, sameTrigger] at fate
  rw [SubscriptionSession.step, ← loop]
  rcases wait with (_ | _) | (_ | _) | _ <;> simp_all [SubscriptionSession.waitReturned]

/-- After a `cancel` each wait in progress returns `false` exactly in the runs that keep
`Stoppable`, and a loop that waits has nothing left to do then but to end. -/
theorem cancelled_waits_stop_iff (windowMs : Int) {trigger : SubscriptionTrigger}
    (fresh : trigger.cancelled = false) {events : List TriggerEvent} {final : TimedTrigger}
    (executed : exec (step windowMs) { trigger } events = some final) :
    (Along (step windowMs) (fun _ _ next => next.Stops windowMs) { trigger } events ↔
      Run (step windowMs) Stoppable { trigger } events final) ∧
    (Run (step windowMs) Stoppable { trigger } events final → final.cancels = true →
      ∀ schema session, final.WaitedOnBy session →
        session.step schema .waitReturned = some session.stop) := by
  have initial : ({ trigger } : TimedTrigger).Consistent ∧
      ({ trigger } : TimedTrigger).Stops windowMs := by
    cases trigger <;> simp_all [Consistent, Stops]
  have kept : ∀ (timed : TimedTrigger) event next, timed.Consistent ∧ timed.Stops windowMs →
      timed.Stoppable event → timed.step windowMs event = some next →
      next.Consistent ∧ next.Stops windowMs :=
    fun _ _ _ good admitted stepped =>
      (good.1.step good.2 stepped).imp_right fun stops => stops.mpr admitted
  exact ⟨along_iff_run _ initial executed kept
      fun _ _ _ good stepped => (good.1.step good.2 stepped).2,
    fun run cancelled schema _ waited =>
      (run.preserves initial kept).2.finishes cancelled waited schema⟩

theorem cancelled_wait_stops_asleep :
    Along (step 2) (fun _ _ next => next.Stops 2) { trigger := .event false false }
        [.call, .cancel] ∧
      ∀ schema, SubscriptionSession.step schema
          { trigger := .event false true, loop := .waiting (.sleeping true) } .waitReturned =
        some { trigger := .event false true } :=
  have stoppable := .next (by simp [Stoppable]) rfl (.next (by simp [Stoppable]) rfl .done)
  have stopped := cancelled_waits_stop_iff 2 rfl rfl
  ⟨stopped.1.mpr stoppable, fun schema => stopped.2 stoppable rfl schema _ ⟨rfl, rfl⟩⟩

theorem cancelled_waits_go_on :
    (∃ final, exec (step 2) { trigger := .event false false } [.cancel, .call] = some final ∧
        final.cancels = true ∧ ∀ result, ¬ final.Completes 2 result) ∧
      ∃ final, exec (step 2) { trigger := .timer 3 } [.cancel, .call] = some final ∧
        final.cancels = true ∧ final.Completes 2 true :=
  ⟨⟨_, rfl, rfl, fun _ => by simp [completes_iff, fate]⟩, _, rfl, rfl, completes_of_fate rfl⟩

structure Uncancelled (windowMs : Int) (timed : TimedTrigger) : Prop where
  event : ∃ pending, timed.trigger = .event pending false
  wait : ∀ result, timed.wait ≠ some (.timer result)
  owed : timed.owed = true → timed.fate = some true
  returned : ∀ completion ∈ timed.completed, completion.2 = true ∧ completion.1 ≤ timed.now
  paced : timed.completed.Pairwise fun earlier later => earlier.1 + windowMs ≤ later.1
  window : timed.wait = some .window →
    ∀ completion ∈ timed.completed, completion.1 + windowMs ≤ timed.deadline

/-- The waits that will still return when nobody fires any more. -/
def due (timed : TimedTrigger) : Nat :=
  match timed.trigger, timed.wait with
  | .event pending _, none => pending.toNat
  | .event _ _, some (.sleeping woken) => woken.toNat
  | .event pending _, some .window => 1 + pending.toNat
  | _, _ => 0

def total (timed : TimedTrigger) : Nat := timed.completed.length + timed.due

theorem Uncancelled.step {event : TriggerEvent} (uncancelled : timed.Uncancelled windowMs)
    (alive : event ≠ .cancel) (stepped : timed.step windowMs event = some next) :
    next.Uncancelled windowMs ∧ (event ≠ .fire → next.total = timed.total) := by
  obtain ⟨⟨pending, kind⟩, wait, owed, returned, paced, window⟩ := uncancelled
  have armed : ∀ completion ∈ timed.completed,
      completion.1 + windowMs ≤ ((timed.now + windowMs.toNat : Nat) : Int) := by
    intro completion member
    have := (returned completion member).2
    omega
  obtain ⟨_, shape, now, _⟩ := timed
  cases kind
  cases event with
  | cancel => exact absurd rfl alive
  | tick =>
    cases stepped
    exact ⟨⟨⟨_, rfl⟩, wait, owed, fun _ member => (returned _ member).imp_right Nat.le_succ_of_le,
      paced, window⟩, fun _ => rfl⟩
  | expired =>
    rcases shape with _ | _ | _ | _ <;> simp [TimedTrigger.step] at wait stepped
  | call =>
    rcases shape with _ | _
    · cases stepped
      cases pending
      · exact ⟨⟨⟨_, rfl⟩, by simp, owed, returned, paced, by simp⟩, fun _ => rfl⟩
      · exact ⟨⟨⟨_, rfl⟩, by simp, owed, returned, paced, fun _ => armed⟩, fun _ => rfl⟩
    · simp [TimedTrigger.step] at stepped
  | fire =>
    cases stepped
    rcases shape with _ | result | _ | _
    · exact ⟨⟨⟨_, rfl⟩, by simp, fun _ => rfl, returned, paced, by simp⟩, by simp⟩
    · exact absurd rfl (wait result)
    · exact ⟨⟨⟨_, rfl⟩, by simp, fun _ => rfl, returned, paced, by simp⟩, by simp⟩
    · exact ⟨⟨⟨_, rfl⟩, by simp, fun _ => rfl, returned, paced, window⟩, by simp⟩
  | resume =>
    rcases shape with _ | result | ⟨_ | _⟩ | _
    · simp [TimedTrigger.step] at stepped
    · exact absurd rfl (wait result)
    · simp [TimedTrigger.step] at stepped
    · cases stepped
      exact ⟨⟨⟨_, rfl⟩, by simp, fun _ => rfl, returned, paced, fun _ => armed⟩, fun _ => rfl⟩
    · simp only [TimedTrigger.step] at stepped
      split at stepped
      · rename_i reached
        cases stepped
        refine ⟨⟨⟨_, rfl⟩, by simp, by simp, ?_, ?_, by simp⟩, fun _ => ?_⟩
        · exact forall_mem_append.mpr ⟨returned, by simp⟩
        · refine pairwise_append.mpr ⟨paced, pairwise_singleton .., ?_⟩
          intro completion member last lastMember
          obtain rfl := mem_singleton.mp lastMember
          exact Int.le_trans (window rfl completion member) (Int.ofNat_le.mpr reached)
        · simp only [complete, total, due, length_append, length_singleton]
          omega
      · cases stepped

theorem Uncancelled.fate_cases (uncancelled : timed.Uncancelled windowMs) :
    timed.fate = some true ∧
        (timed.trigger = .event true false ∨ timed.wait = some (.sleeping true) ∨
          timed.wait = some .window) ∨ timed.fate = none ∧ timed.due = 0 := by
  obtain ⟨⟨pending, kind⟩, wait, _⟩ := uncancelled
  obtain ⟨_, shape, _⟩ := timed
  cases kind
  rcases shape with _ | result | ⟨_ | _⟩ | _
  · cases pending
    · exact .inr ⟨rfl, rfl⟩
    · exact .inl ⟨rfl, .inl rfl⟩
  · exact absurd rfl (wait result)
  · exact .inr ⟨rfl, rfl⟩
  · exact .inl ⟨rfl, .inr (.inl rfl)⟩
  · exact .inl ⟨rfl, .inr (.inr rfl)⟩

/-- A fire is followed by a wait that returns `true`, and such returns are a window apart. -/
theorem fire_not_lost (windowMs : Int) {events : List TriggerEvent} {final : TimedTrigger}
    (run : Run (step windowMs) (fun _ event => event ≠ .cancel) { trigger := .event false false }
      events final) :
    (final.owed = true → (final.trigger = .event true false ∨ final.wait = some (.sleeping true) ∨
        final.wait = some .window) ∧ final.Completes windowMs true) ∧
      final.completed.Pairwise fun earlier later => earlier.1 + windowMs ≤ later.1 := by
  have uncancelled : final.Uncancelled windowMs :=
    run.preserves ⟨⟨_, rfl⟩, by simp, by simp, by simp, .nil, by simp⟩
      fun _ _ _ kept alive stepped => (kept.step alive stepped).1
  refine ⟨fun owed => ?_, uncancelled.paced⟩
  have fate := uncancelled.owed owed
  rcases uncancelled.fate_cases with ⟨_, position⟩ | ⟨lost, _⟩
  · exact ⟨position, completes_of_fate fate⟩
  · simp [lost] at fate

theorem fire_not_lost_before_wait :
    ∃ final, Run (step 2) (fun _ event => event ≠ .cancel) { trigger := .event false false }
      [.fire] final ∧ final.owed = true ∧ final.Completes 2 true :=
  have run := .next (by simp) rfl .done
  ⟨_, run, rfl, ((fire_not_lost 2 run).1 rfl).2⟩

private theorem exists_step_proceed (windowMs : Int) (timed : TimedTrigger) :
    ∃ event ∈ quietEvents, timed.step windowMs event = some (timed.proceed windowMs) := by
  unfold proceed
  cases found : quietEvents.findSome? (timed.step windowMs) with
  | some => exact exists_of_findSome?_eq_some found
  | none => simp [quietEvents, step] at found

theorem Uncancelled.iterate (uncancelled : timed.Uncancelled windowMs) (steps : Nat) :
    ((proceed windowMs)^[steps] timed).Uncancelled windowMs ∧
      ((proceed windowMs)^[steps] timed).total = timed.total := by
  induction steps with
  | zero => exact ⟨uncancelled, rfl⟩
  | succ steps ih =>
    rw [Function.iterate_succ_apply']
    obtain ⟨event, quiet, stepped⟩ :=
      exists_step_proceed windowMs ((proceed windowMs)^[steps] timed)
    have kept := ih.1.step (by rintro rfl; simp [quietEvents] at quiet) stepped
    exact ⟨kept.1, (kept.2 (by rintro rfl; simp [quietEvents] at quiet)).trans ih.2⟩

theorem Uncancelled.exists_length_eq (uncancelled : timed.Uncancelled windowMs) :
    ∃ steps, ((proceed windowMs)^[steps] timed).completed.length = timed.total := by
  induction left : timed.due using Nat.strongRecOn generalizing timed with
  | _ _ ih =>
    subst left
    rcases uncancelled.fate_cases with ⟨fate, _⟩ | ⟨_, none⟩
    · have completes : timed.Completes windowMs true := completes_of_fate fate
      obtain ⟨first, _, _, returned⟩ := completes
      obtain ⟨kept, same⟩ := uncancelled.iterate first
      have longer := congrArg List.length returned
      simp only [total, length_append, length_cons] at same longer
      obtain ⟨steps, reached⟩ := ih _ (by omega) kept rfl
      exact ⟨steps + first, by rw [Function.iterate_add_apply, reached, total, same, total]⟩
    · exact ⟨0, by simp [total, none]⟩

def asleep (now : Nat) : TimedTrigger :=
  { trigger := .event false false, wait := some (.sleeping false), now }

/-- The loop calls `wait` right after each return, and no `fire` comes after the
window of the first one. -/
def Burst (timed : TimedTrigger) (event : TriggerEvent) : Prop :=
  event ≠ .cancel ∧ (event = .fire → timed.completed = []) ∧ (timed.wait = none → event = .call)

structure Collecting (windowMs : Int) (timed : TimedTrigger) : Prop where
  uncancelled : timed.Uncancelled windowMs
  total : timed.total = 1 + timed.absorbed.toNat
  collecting : timed.completed = [] →
    timed.wait = some (.sleeping true) ∨ timed.wait = some .window

theorem Collecting.step {event : TriggerEvent} (collecting : timed.Collecting windowMs)
    (burst : timed.Burst event) (stepped : timed.step windowMs event = some next) :
    next.Collecting windowMs := by
  obtain ⟨uncancelled, total, collecting⟩ := collecting
  obtain ⟨kept, same⟩ := uncancelled.step burst.1 stepped
  by_cases fired : event = .fire
  · obtain ⟨⟨_, kind⟩, _⟩ := uncancelled
    have empty := burst.2.1 fired
    have shape := collecting empty
    obtain ⟨_, _, _, _, _, _, absorbed, _⟩ := timed
    subst fired
    cases kind
    cases empty
    cases stepped
    rcases shape with ⟨⟨⟩⟩ | ⟨⟨⟩⟩
    · cases absorbed
      · exact ⟨kept, rfl, fun _ => .inl rfl⟩
      · simp [TimedTrigger.total, due] at total
    · exact ⟨kept, by cases absorbed <;> rfl, fun _ => .inr rfl⟩
  · have unchanged := (same fired).trans total
    clear same total uncancelled
    revert stepped
    fun_cases TimedTrigger.step windowMs timed event <;> intro stepped <;> cases stepped
    all_goals refine ⟨kept, ?_, ?_⟩
    all_goals first | exact unchanged | simp_all [Burst]

/-- A burst of fires is fetched exactly once if and only if none of them comes in a window. -/
theorem burst_fetched_once_iff (windowMs : Int) (now : Nat) {events : List TriggerEvent}
    {final : TimedTrigger} (run : Run (step windowMs) Burst (asleep now) (.fire :: events) final) :
    ((∀ steps, ((proceed windowMs)^[steps] final).completed.length ≤ 1) ∧
        ∃ steps time, ((proceed windowMs)^[steps] final).completed = [(time, true)]) ↔
      final.absorbed = false := by
  have collecting : final.Collecting windowMs := by
    cases run with
    | next _ stepped rest =>
      cases stepped
      exact rest.preserves ⟨⟨⟨_, rfl⟩, by simp [asleep], by simp [asleep, fate], by simp [asleep],
        .nil, by simp [asleep]⟩, rfl, fun _ => .inl rfl⟩
        fun _ _ _ kept burst stepped => kept.step burst stepped
  obtain ⟨uncancelled, total, _⟩ := collecting
  obtain ⟨steps, reached⟩ := uncancelled.exists_length_eq
  rw [total] at reached
  constructor
  · rintro ⟨once, _⟩
    have bounded := once steps
    cases absorbed : final.absorbed
    · rfl
    · simp [reached, absorbed] at bounded
  · intro absorbed
    refine ⟨fun steps => ?_, steps, ?_⟩
    · have same := (uncancelled.iterate steps).2
      simp only [total, absorbed, Bool.toNat_false] at same
      exact Nat.le_trans (Nat.le_add_right ..) (Nat.le_of_eq same)
    · obtain ⟨completion, only⟩ := length_eq_one_iff.mp (by simpa [absorbed] using reached)
      have returned := ((uncancelled.iterate steps).1.returned completion (by simp [only])).1
      exact ⟨completion.1, by rw [only, ← returned]⟩

theorem burst_fetched_once_twice_fired :
    ∃ final, Run (step 2) Burst (asleep 0) [.fire, .fire, .resume] final ∧
      ∃ steps time, ((proceed 2)^[steps] final).completed = [(time, true)] :=
  have run := .next (by simp [Burst, asleep]) rfl
    (.next (by simp [Burst, asleep]) rfl (.next (by simp [Burst, asleep]) rfl .done))
  ⟨_, run, ((burst_fetched_once_iff 2 0 run).mpr rfl).2⟩

theorem burst_fetched_twice :
    ∃ final, exec (step 2) (asleep 0) [.fire, .resume, .fire] = some final ∧
      ((proceed 2)^[9] final).completed = [(2, true), (4, true)] :=
  ⟨_, rfl, by decide⟩

end TimedTrigger

end Coroserver.GraphQL
