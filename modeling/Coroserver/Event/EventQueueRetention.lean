import Coroserver.Event.EventQueue
import Coroserver.Event.TaskQueueProperties
import Coroserver.Machine

/-! Events are identified by the reading of the clock at which they were added, and texts that
mention a barrier are not kept at all. -/

namespace Coroserver.Event

def Stage.active : Stage → Bool
  | .readingDone | .returning _ => false
  | _ => true

namespace EventQueue

/-- What a step can do: a call from outside, a step of the task queue that
brings no task and ends none that may still send, or a segment of a handler. -/
inductive Transition (queue : EventQueue) : EventQueueEvent → EventQueue → Prop where
  | addEventProvider (eventId : String) :
      Transition queue (.addEventProvider eventId)
        { queue with eventProviders := queue.eventProviders ++ [eventId] }
  | addEvent (event : String) (now : UInt64) :
      Transition queue (.addEvent event now) (queue.addEvent event now)
  | barrier {event text} :
      barriers.contains text = true → Transition queue event (queue.addEvent text 0)
  | scheduled {event taskEvent taskQueue} :
      queue.taskQueue.step taskEvent = some taskQueue → taskEvent.brings = none →
      (∀ handler, queue.taskQueue.removes taskEvent = some handler →
        handler.stage.active = false) →
      Transition queue event { queue with taskQueue }
  | resumed {coroutine now taskQueue} :
      queue.taskQueue.step (.resume coroutine) = some taskQueue →
      Transition queue (.resume coroutine now)
        (({ queue with taskQueue } : EventQueue).startHandler coroutine now)
  | proceeded {coroutine client origin id provider event stage outcome now next} :
      queue.taskQueue.coroutines[coroutine]? =
        some (.handleTask ⟨.sendEventHandler id provider event origin, stage⟩ client true) →
      queue.sendEventHandler coroutine client id provider event origin now stage outcome =
        some next →
      Transition queue (.proceed coroutine outcome now) next

variable {queue next : EventQueue}

theorem transition_of_step {event : EventQueueEvent} (stepped : queue.step event = some next) :
    Transition queue event next := by
  revert stepped
  fun_cases step
  case case10 present => exact fun proceeded => .proceeded present proceeded
  all_goals rintro ⟨⟩
  case case1 => exact .addEventProvider _
  case case2 endPoint =>
    have taken : queue.taskQueue.step (.setEndPoint endPoint) =
        some (queue.taskQueue.setEndPoint endPoint) := rfl
    exact .scheduled taken rfl (fun _ removed => by cases removed)
  case case3 => exact .addEvent _ _
  case case4 | case5 => exact .barrier (by decide)
  case case7 taken => exact .resumed taken
  case case9 taken | case16 taken =>
    exact .scheduled taken rfl (fun _ removed => by cases removed)
  case case13 present _ taken =>
    refine .scheduled taken rfl ?_
    intro handler removed
    simp only [TaskQueue.removes, present, Option.some.injEq] at removed
    exact removed ▸ rfl

end EventQueue

open TaskQueue List Machine

private theorem entry_of_append {α : Type} {list : List α} {last entry : α} {index : Nat}
    (found : (list ++ [last])[index]? = some entry) :
    list[index]? = some entry ∨ index = list.length ∧ entry = last := by
  rcases Nat.lt_or_ge index list.length with old | new
  · exact .inl (List.getElem?_append_left old ▸ found)
  · rw [getElem?_append_right new, getElem?_singleton] at found
    split at found
    · rename_i isLast
      exact .inr ⟨Nat.le_antisymm (Nat.sub_eq_zero_iff_le.mp isLast) new,
        (Option.some.inj found).symm⟩
    · cases found

theorem Stage.active_spawned : Stage.spawned.active = true := rfl

namespace Handler

def sends (origin : Nat) (handler : Handler) : Bool :=
  match handler.call with
  | .sendEventHandler _ _ _ own => own == origin && handler.stage.active
  | .barrierHandler _ => false

/-- The handler does not have the id and the text of the event it is made for. -/
def foreign (added : List (Option UInt64 × String)) (handler : Handler) : Bool :=
  match handler.call with
  | .sendEventHandler id _ event own => added[own]? != some (some id, event)
  | .barrierHandler _ => false

variable {handler : Handler}

theorem sends_inactive (inactive : handler.stage.active = false) (origin : Nat) :
    handler.sends origin = false := by
  unfold sends
  split
  · simp [inactive]
  · rfl

variable {added : List (Option UInt64 × String)}

theorem foreign_of_sends_next (sending : handler.sends added.length = true) :
    handler.foreign added = true := by
  unfold sends at sending
  split at sending
  · rename_i id provider event own isSend
    simp only [Bool.and_eq_true, beq_iff_eq] at sending
    simp [foreign, isSend, sending.1]
  · cases sending

theorem foreign_append {entry : Option UInt64 × String}
    (isForeign : handler.foreign (added ++ [entry]) = true) : handler.foreign added = true := by
  unfold foreign at isForeign ⊢
  split at isForeign
  · rename_i id provider event own isSend
    simp only [bne_iff_ne, ne_eq] at isForeign ⊢
    intro found
    obtain ⟨inRange, _⟩ := List.getElem?_eq_some_iff.mp found
    exact isForeign (by rw [List.getElem?_append_left inRange, found])
  · cases isForeign

end Handler

open Handler

namespace EventQueue

/-- Every event that was added and is not settled is in `events`, under an id
of its own and with its text. Every write has the text of its event. -/
structure Stored (queue : EventQueue) : Prop where
  stored : ∀ origin id text, queue.added[origin]? = some (id, text) → origin ∉ queue.settled →
    ∃ own, id = some own ∧ queue.events.lookup own = some text
  own : ∀ left right id leftText rightText, queue.added[left]? = some (some id, leftText) →
    queue.added[right]? = some (some id, rightText) → left ∉ queue.settled →
    right ∉ queue.settled → left = right
  written : ∀ write ∈ queue.writes, ∃ id, queue.added[write.1]? = some (id, write.2)

/-- Moreover one send of every such event is queued or running. -/
structure Keeps (queue : EventQueue) : Prop extends Stored queue where
  sending : ∀ origin < queue.added.length, origin ∉ queue.settled →
    queue.taskQueue.live (sends origin) = 1

structure Kept (queue : EventQueue) : Prop extends Stored queue where
  known : ∀ origin ∈ queue.settled, origin < queue.added.length
  genuine : queue.taskQueue.live (foreign queue.added) = 0
  accounted : ∀ origin < queue.added.length,
    queue.taskQueue.live (sends origin) + queue.settled.count origin = 1

theorem kept_create (endPoint : EndPoint) (maxConnections : Nat) :
    (create endPoint maxConnections).Kept where
  stored := by simp [create]
  own := by simp [create]
  written := by simp [create]
  known := by simp [create]
  genuine := rfl
  accounted := fun _ inRange => absurd inRange (Nat.not_lt_zero _)

namespace Kept

variable {queue : EventQueue} (kept : queue.Kept)

include kept

theorem keeps : queue.Keeps where
  toStored := kept.toStored
  sending := by
    intro origin inRange unsettled
    have total := kept.accounted origin inRange
    rwa [count_eq_zero_of_not_mem unsettled, Nat.add_zero] at total

theorem withTaskQueue {taskQueue : TaskQueue Handler}
    (sameSends : ∀ origin, taskQueue.live (sends origin) = queue.taskQueue.live (sends origin))
    (genuine : taskQueue.live (foreign queue.added) ≤ queue.taskQueue.live (foreign queue.added)) :
    ({ queue with taskQueue } : EventQueue).Kept where
  stored := kept.stored
  own := kept.own
  written := kept.written
  known := kept.known
  genuine := Nat.eq_zero_of_le_zero (kept.genuine ▸ genuine)
  accounted := fun origin inRange => (sameSends origin).symm ▸ kept.accounted origin inRange

section Handling

variable {coroutine client origin : Nat} {id : UInt64} {provider event : String}
  {stage next : Stage} (present : queue.taskQueue.coroutines[coroutine]? =
    some (.handleTask ⟨.sendEventHandler id provider event origin, stage⟩ client true))

include present

theorem added_of_handler : queue.added[origin]? = some (some id, event) := by
  by_contra differs
  have isForeign : foreign queue.added ⟨.sendEventHandler id provider event origin, stage⟩ =
      true := by
    simpa [foreign] using differs
  have positive := live_pos present isForeign
  have none := kept.genuine
  omega

theorem unsettled_of_active (active : stage.active = true) : origin ∉ queue.settled := by
  have sending : sends origin ⟨.sendEventHandler id provider event origin, stage⟩ = true := by
    simp [sends, active]
  have positive := live_pos present sending
  obtain ⟨inRange, _⟩ := List.getElem?_eq_some_iff.mp (kept.added_of_handler present)
  have total := kept.accounted origin inRange
  exact count_eq_zero.mp (by omega)

theorem moveTo (sameActive : next.active = stage.active) :
    (queue.setHandler coroutine client
      ⟨.sendEventHandler id provider event origin, next⟩).Kept := by
  have moved := live_setCoroutine present
    (.handleTask ⟨.sendEventHandler id provider event origin, next⟩ client true)
  refine kept.withTaskQueue ?_ ?_
  · intro other
    have counts := moved (sends other)
    simp only [Coroutine.holds, sends, sameActive] at counts
    exact Nat.add_right_cancel counts
  · exact Nat.le_of_eq (Nat.add_right_cancel (moved (foreign queue.added)))

variable {events : AList fun _ : UInt64 => String}

theorem settle (active : stage.active = true) (inactive : next.active = false)
    (elsewhere : ∀ other, other ≠ id → events.lookup other = queue.events.lookup other) :
    ({ queue.setHandler coroutine client ⟨.sendEventHandler id provider event origin, next⟩ with
      events, settled := queue.settled ++ [origin] } : EventQueue).Kept := by
  have wasAdded := kept.added_of_handler present
  have wasUnsettled := kept.unsettled_of_active present active
  have moved := live_setCoroutine present
    (.handleTask ⟨.sendEventHandler id provider event origin, next⟩ client true)
  have still : ∀ {other}, other ∉ queue.settled ++ [origin] →
      other ∉ queue.settled ∧ other ≠ origin := by
    intro other absent
    simpa using absent
  refine ⟨⟨?_, ?_, kept.written⟩, ?_, ?_, ?_⟩
  · intro other otherId text otherAdded unsettled
    obtain ⟨beforeUnsettled, differs⟩ := still unsettled
    obtain ⟨own, rfl, found⟩ := kept.stored other otherId text otherAdded beforeUnsettled
    refine ⟨own, rfl, ?_⟩
    rw [← found]
    refine elsewhere own fun sameId => differs ?_
    subst sameId
    exact kept.own other origin own text event otherAdded wasAdded beforeUnsettled wasUnsettled
  · intro left right otherId leftText rightText atLeft atRight leftUnsettled rightUnsettled
    exact kept.own left right otherId leftText rightText atLeft atRight (still leftUnsettled).1
      (still rightUnsettled).1
  · refine forall_mem_append.mpr ⟨kept.known, forall_mem_singleton.mpr ?_⟩
    exact (List.getElem?_eq_some_iff.mp wasAdded).1
  · have counts := moved (foreign queue.added)
    have same := Nat.add_right_cancel counts
    exact same.trans kept.genuine
  · intro other inRange
    have counts := moved (sends other)
    have total := kept.accounted other inRange
    simp only [Coroutine.holds, sends, active, inactive, Bool.and_true, Bool.and_false,
      Bool.toNat_false, Nat.add_zero] at counts
    simp only [count_append, count_singleton]
    cases same : origin == other with
    | false =>
      simp only [same, Bool.toNat_false, Nat.add_zero] at counts
      simpa [same, setHandler, counts] using total
    | true =>
      simp only [same, Bool.toNat_true] at counts
      simp only [setHandler, if_true]
      omega

private theorem requeue (active : stage.active = true) (inactive : next.active = false)
    (everywhere : ∀ other, events.lookup other = queue.events.lookup other) :
    (({ queue.setHandler coroutine client ⟨.sendEventHandler id provider event origin, next⟩ with
      events } : EventQueue).addTask (.sendEventHandler id provider event origin) true).Kept := by
  have wasAdded := kept.added_of_handler present
  have moved := live_setCoroutine present
    (.handleTask ⟨.sendEventHandler id provider event origin, next⟩ client true)
  have queued := live_addTask (queue.taskQueue.setCoroutine coroutine
    (.handleTask ⟨.sendEventHandler id provider event origin, next⟩ client true))
    ⟨.sendEventHandler id provider event origin, .spawned⟩ true
  refine ⟨⟨?_, kept.own, kept.written⟩, kept.known, ?_, ?_⟩
  · intro other otherId text otherAdded unsettled
    obtain ⟨own, rfl, found⟩ := kept.stored other otherId text otherAdded unsettled
    exact ⟨own, rfl, (everywhere own).trans found⟩
  · have notForeign : foreign queue.added ⟨.sendEventHandler id provider event origin, .spawned⟩ =
        false := by
      simp [foreign, wasAdded]
    have counts := queued (foreign queue.added)
    rw [notForeign, Nat.add_right_cancel (moved (foreign queue.added)), kept.genuine] at counts
    exact counts
  · intro other inRange
    have before := moved (sends other)
    have after := queued (sends other)
    simp only [Coroutine.holds, sends, active, inactive, Stage.active_spawned, Bool.and_true,
      Bool.and_false, Bool.toNat_false, Nat.add_zero] at before after
    exact (after.trans before).symm ▸ kept.accounted other inRange

theorem resend (active : stage.active = true) (now : UInt64) :
    ((queue.setHandler coroutine client
      ⟨.sendEventHandler id provider event origin, .returning true⟩).resendEvent id provider origin
        now).Kept := by
  have wasAdded := kept.added_of_handler present
  have wasUnsettled := kept.unsettled_of_active present active
  obtain ⟨own, sameId, found⟩ := kept.stored origin (some id) event wasAdded wasUnsettled
  cases sameId
  have text : ((queue.setHandler coroutine client
      ⟨.sendEventHandler id provider event origin, .returning true⟩).events.lookup id).getD "" =
        event := by
    simp [setHandler, found]
  simp only [resendEvent, text]
  split
  · refine kept.settle present active rfl ?_
    intro other differs
    exact (AList.lookup_erase_ne differs).trans (AList.lookup_insert_ne differs)
  · refine kept.requeue present active rfl ?_
    intro other
    by_cases same : other = id
    · subst same
      exact (AList.lookup_insert _).trans found.symm
    · exact AList.lookup_insert_ne same

end Handling

theorem start (coroutine : Nat) (now : UInt64) :
    (queue.startHandler coroutine now).Kept := by
  unfold startHandler
  split
  · rename_i id provider event origin client present
    have moved : (queue.setHandler coroutine client
        ⟨.sendEventHandler id provider event origin, .writing⟩).Kept := kept.moveTo present rfl
    refine ⟨⟨moved.stored, moved.own, ?_⟩, moved.known, moved.genuine, moved.accounted⟩
    refine forall_mem_append.mpr ⟨kept.written, forall_mem_singleton.mpr ?_⟩
    exact ⟨some id, kept.added_of_handler present⟩
  · rename_i event client present
    have counts := live_setCoroutine present
      (.handleTask ⟨.barrierHandler event, .returning false⟩ client true)
    have moved := kept.withTaskQueue (fun other => counts (sends other))
      (Nat.le_of_eq (counts (foreign queue.added)))
    exact ⟨⟨moved.stored, moved.own, moved.written⟩, moved.known, moved.genuine, moved.accounted⟩
  · exact kept

theorem addBarrier (event : String) :
    (queue.addTask (.barrierHandler event) false).Kept := by
  have counts := live_addTask queue.taskQueue ⟨.barrierHandler event, .spawned⟩ false
  exact kept.withTaskQueue (fun other => counts (sends other))
    (Nat.le_of_eq (counts (foreign queue.added)))

theorem next_unsettled : queue.added.length ∉ queue.settled :=
  fun isSettled => Nat.lt_irrefl _ (kept.known _ isSettled)

private theorem no_send_next : queue.taskQueue.live (sends queue.added.length) = 0 := by
  have fewer : queue.taskQueue.live (sends queue.added.length) ≤
      queue.taskQueue.live (foreign queue.added) :=
    queue.taskQueue.live_mono fun _ => foreign_of_sends_next
  exact Nat.le_zero.mp (Nat.le_trans fewer (Nat.le_of_eq kept.genuine))

theorem addEventWithId (event : String) {id : UInt64}
    (fresh : ∀ origin text, queue.added[origin]? = some (some id, text) →
      origin ∈ queue.settled) : (queue.addEventWithId event id).Kept := by
  have counts := live_addTask queue.taskQueue
    ⟨.sendEventHandler id (queue.providerOf event) event queue.added.length, .spawned⟩ false
  refine ⟨⟨?_, ?_, ?_⟩, ?_, ?_, ?_⟩
  · intro origin otherId text wasAdded unsettled
    rcases entry_of_append wasAdded with before | ⟨rfl, isNew⟩
    · obtain ⟨own, rfl, found⟩ := kept.stored origin otherId text before unsettled
      have differs : own ≠ id := by
        rintro rfl
        exact unsettled (fresh origin text before)
      exact ⟨own, rfl, (AList.lookup_insert_ne differs).trans found⟩
    · cases isNew
      exact ⟨id, rfl, AList.lookup_insert _⟩
  · intro left right otherId leftText rightText atLeft atRight leftUnsettled rightUnsettled
    rcases entry_of_append atLeft with leftBefore | ⟨rfl, leftNew⟩
    · rcases entry_of_append atRight with rightBefore | ⟨rfl, rightNew⟩
      · exact kept.own left right otherId leftText rightText leftBefore rightBefore leftUnsettled
          rightUnsettled
      · cases rightNew
        exact absurd (fresh left leftText leftBefore) leftUnsettled
    · rcases entry_of_append atRight with rightBefore | ⟨rfl, _⟩
      · cases leftNew
        exact absurd (fresh right rightText rightBefore) rightUnsettled
      · rfl
  · intro write isWritten
    obtain ⟨writeId, found⟩ := kept.written write isWritten
    obtain ⟨inRange, _⟩ := List.getElem?_eq_some_iff.mp found
    exact ⟨writeId, (List.getElem?_append_left inRange).trans found⟩
  · intro origin isSettled
    have inRange := kept.known origin isSettled
    exact Nat.lt_of_lt_of_le inRange (by simp [EventQueue.addEventWithId, addTask])
  · have notForeign : foreign (queue.added ++ [(some id, event)])
        ⟨.sendEventHandler id (queue.providerOf event) event queue.added.length, .spawned⟩ =
          false := by
      simp [foreign]
    have fewer : queue.taskQueue.live (foreign (queue.added ++ [(some id, event)])) ≤
        queue.taskQueue.live (foreign queue.added) :=
      queue.taskQueue.live_mono fun _ => foreign_append
    have total := counts (foreign (queue.added ++ [(some id, event)]))
    rw [notForeign, Nat.le_zero.mp (Nat.le_trans fewer (Nat.le_of_eq kept.genuine))] at total
    exact total
  · intro origin inRange
    have total := counts (sends origin)
    simp only [sends, Stage.active_spawned, Bool.and_true] at total
    rcases Nat.lt_or_ge origin queue.added.length with old | new
    · have differs : (queue.added.length == origin) = false := beq_false_of_ne (Nat.ne_of_gt old)
      rw [differs] at total
      exact total.symm ▸ kept.accounted origin old
    · have isNext : origin = queue.added.length := by
        simp only [EventQueue.addEventWithId, addTask, length_append, length_singleton]
          at inRange
        omega
      subst isNext
      rw [kept.no_send_next, beq_self_eq_true] at total
      have unsettled := count_eq_zero_of_not_mem kept.next_unsettled
      exact congr (congrArg Nat.add total) unsettled

end Kept

/-- No event that was added at this reading is still to be settled. -/
def fresh (queue : EventQueue) (now : UInt64) : Bool :=
  queue.added.zipIdx.all fun entry => entry.1.1 != some now || queue.settled.contains entry.2

/-- Events are added at fresh readings, and only barriers mention a barrier. -/
def admits (queue : EventQueue) : EventQueueEvent → Bool
  | .addEvent event now =>
    barriers.contains event || (!mentionsBarrier event && queue.fresh now)
  | _ => true

def Admitted (queue : EventQueue) (event : EventQueueEvent) : Prop := queue.admits event = true
deriving Decidable

theorem fresh_iff {queue : EventQueue} {now : UInt64} :
    queue.fresh now = true ↔ ∀ origin text, queue.added[origin]? = some (some now, text) →
      origin ∈ queue.settled := by
  simp only [fresh, all_eq_true, Bool.or_eq_true, bne_iff_ne, ne_eq, contains_iff_mem]
  constructor
  · intro checked _ _ wasAdded
    have present := mk_mem_zipIdx_iff_getElem?.mpr wasAdded
    rcases checked _ present with differs | isSettled
    · exact absurd rfl differs
    · exact isSettled
  · intro settled entry present
    obtain ⟨⟨id, text⟩, origin⟩ := entry
    by_cases same : id = some now
    · subst same
      exact .inr (settled origin text (mk_mem_zipIdx_iff_getElem?.mp present))
    · exact .inl same

theorem mentionsBarrier_of_barrier {event : String} (isBarrier : barriers.contains event = true) :
    mentionsBarrier event = true := by
  have oneOf : event = makeEvent "Barrier" "Begin" ∨ event = makeEvent "Barrier" "End" := by
    simpa [barriers] using isBarrier
  rcases oneOf with rfl | rfl <;> decide

namespace Kept

variable {queue : EventQueue} (kept : queue.Kept)

include kept

theorem addEvent_barrier {event : String} (isBarrier : barriers.contains event = true)
    (now : UInt64) : (queue.addEvent event now).Kept := by
  simp only [addEvent, mentionsBarrier_of_barrier isBarrier, isBarrier, if_true]
  exact kept.addBarrier event

theorem sendEventHandler {next : EventQueue} {coroutine client origin : Nat}
    {id : UInt64} {provider event : String} {stage : Stage} {outcome : Outcome} {now : UInt64}
    (present : queue.taskQueue.coroutines[coroutine]? =
      some (.handleTask ⟨.sendEventHandler id provider event origin, stage⟩ client true))
    (proceeded : queue.sendEventHandler coroutine client id provider event origin now stage
      outcome = some next) : next.Kept := by
  have settled : ∀ {after : Stage}, stage.active = true → after.active = false →
      (EventQueue.sendEventHandler.settle queue coroutine client id provider event origin
        after).Kept := by
    intro after active inactive
    exact kept.settle present active inactive fun _ differs => AList.lookup_erase_ne differs
  unfold EventQueue.sendEventHandler at proceeded
  split at proceeded
  · cases proceeded
    exact kept.moveTo present rfl
  · split at proceeded
    · cases proceeded
      exact settled rfl rfl
    · cases proceeded
      exact kept.moveTo present rfl
  · cases proceeded
    exact settled rfl rfl
  · cases proceeded
    exact kept.resend present rfl now
  · cases proceeded
    exact kept.resend present rfl now
  · cases proceeded
    exact kept.resend present rfl now
  · cases proceeded
    exact kept.moveTo present rfl
  · cases proceeded

private theorem taskQueue_step {taskQueue : TaskQueue Handler} {event : TaskQueueEvent Handler}
    (stepped : queue.taskQueue.step event = some taskQueue) (bringsNone : event.brings = none)
    (returns : ∀ handler, queue.taskQueue.removes event = some handler →
      handler.stage.active = false) : ({ queue with taskQueue } : EventQueue).Kept := by
  have moved := live_step stepped
  simp only [bringsNone] at moved
  refine kept.withTaskQueue ?_ ?_
  · intro origin
    have counts := moved (sends origin)
    cases removed : queue.taskQueue.removes event with
    | none => exact (removed ▸ counts : _)
    | some handler =>
      rw [removed, Option.any_some, sends_inactive (returns handler removed)] at counts
      exact counts
  · exact Nat.le_of_add_right_le (Nat.le_of_eq (moved (foreign queue.added)))

theorem step {next : EventQueue} {event : EventQueueEvent}
    (admitted : queue.Admitted event) (stepped : queue.step event = some next) : next.Kept := by
  cases transition_of_step stepped with
  | addEventProvider =>
    exact ⟨⟨kept.stored, kept.own, kept.written⟩, kept.known, kept.genuine, kept.accounted⟩
  | addEvent event now =>
    simp only [Admitted, admits, Bool.or_eq_true, Bool.and_eq_true, Bool.not_eq_true'] at admitted
    rcases admitted with isBarrier | ⟨noBarrier, isFresh⟩
    · exact kept.addEvent_barrier isBarrier now
    · simp only [addEvent, noBarrier, Bool.false_eq_true, if_false]
      exact kept.addEventWithId event (fresh_iff.mp isFresh)
  | barrier isBarrier => exact kept.addEvent_barrier isBarrier 0
  | scheduled taken bringsNone returns => exact kept.taskQueue_step taken bringsNone returns
  | @resumed coroutine now _ taken =>
    have resumed := kept.taskQueue_step taken rfl (fun _ removed => by cases removed)
    exact resumed.start coroutine now
  | proceeded present proceeded => exact kept.sendEventHandler present proceeded

theorem admitted_of_keeps {next : EventQueue} {event : EventQueueEvent}
    (stepped : queue.step event = some next) (keeps : next.Keeps) : queue.Admitted event := by
  cases event with
  | addEvent event now =>
    cases stepped
    simp only [Admitted, admits, Bool.or_eq_true, Bool.and_eq_true, Bool.not_eq_true']
    cases isBarrier : barriers.contains event with
    | true => exact .inl rfl
    | false =>
      refine .inr ?_
      cases mentions : mentionsBarrier event with
      | true =>
        simp only [addEvent, mentions, isBarrier, if_true, Bool.false_eq_true, if_false] at keeps
        obtain ⟨own, noId, _⟩ := keeps.stored queue.added.length none event
          getElem?_concat_length kept.next_unsettled
        cases noId
      | false =>
        refine ⟨rfl, fresh_iff.mpr ?_⟩
        simp only [addEvent, mentions, Bool.false_eq_true, if_false] at keeps
        intro origin text wasAdded
        by_contra unsettled
        obtain ⟨inRange, _⟩ := List.getElem?_eq_some_iff.mp wasAdded
        have same := keeps.own origin queue.added.length now text event
          ((List.getElem?_append_left inRange).trans wasAdded)
          getElem?_concat_length unsettled kept.next_unsettled
        omega
  | _ => rfl

end Kept

/-- Events are kept, and sent again with their own texts, exactly if none is added at the reading
of another one that is still to be acknowledged, and none but a barrier mentions one. -/
theorem events_kept_iff (endPoint : EndPoint) (maxConnections : Nat)
    {events : List EventQueueEvent} {final : EventQueue}
    (executed : exec step (create endPoint maxConnections) events = some final) :
    Along step (fun _ _ next => next.Keeps) (create endPoint maxConnections) events ↔
      Run step Admitted (create endPoint maxConnections) events final := by
  refine along_iff_run Kept (kept_create endPoint maxConnections) executed ?_ ?_
  · intro _ _ _ kept admitted stepped
    exact kept.step admitted stepped
  · intro _ _ _ kept stepped
    constructor
    · intro keeps
      exact kept.admitted_of_keeps stepped keeps
    · intro admitted
      exact (kept.step admitted stepped).keeps

theorem events_kept_after_resend :
    Along step (fun _ _ next => next.Keeps) (create ⟨"host", "80"⟩ 1)
      [.addEvent "first" 5, .beginBarrier, .resume 0 5, .connected 0 false, .resume 1 5,
        .proceed 1 .failed 5, .returned 1, .resume 2 5, .connected 2 false, .resume 3 5,
        .proceed 3 .succeeded 5, .proceed 3 (.header "Done") 5, .addEvent "second" 5] := by
  refine (exists_run_of_within ?_).elim fun final run =>
    (events_kept_iff _ _ run.exec_eq).mpr run
  decide

/-- Of two events added at the same reading, the text of the first is lost, its
acknowledgement removes the second, and the second is sent again without its text. -/
theorem event_resent_without_text :
    (∃ queue, exec step (create ⟨"host", "80"⟩ 1)
        [.addEvent "first" 5, .addEvent "second" 5, .resume 0 5, .connected 0 false, .resume 1 5,
          .proceed 1 .succeeded 5, .proceed 1 (.header "Done") 5, .returned 1, .resume 2 5,
          .proceed 2 .failed 6, .returned 2, .resume 3 6, .connected 3 false, .resume 5 6] =
          some queue ∧ queue.added = [(some 5, "first"), (some 5, "second")] ∧
      queue.writes = [(0, "first"), (1, "second"), (1, "")]) ∧
    (∃ queue, exec step (create ⟨"host", "80"⟩ 1) [.addEvent "Barrier removed" 5] =
        some queue ∧
      queue.added = [(none, "Barrier removed")] ∧ queue.settled = [] ∧ queue.events.keys = []) :=
  ⟨⟨_, rfl, by decide, by decide⟩, ⟨_, rfl, by decide, by decide, by decide⟩⟩

end EventQueue

end Coroserver.Event
