import Coroserver.Event.EventQueueRetention
import Coroserver.EventBroker.FileSync

/-! A notification is dropped while an equal event is pending, also if the content for that event
has been sent already. -/

namespace Coroserver.EventBroker

open Event List Machine

namespace FileSync

variable {Content : Type} {sync next : FileSync Content}

def Synced (sync : FileSync Content) : Prop :=
  sync.outstanding = 0 → sync.queue.eventExists sync.event = false → sync.peer = sync.content

def Unfetched (sync : FileSync Content) : Prop :=
  ∃ origin < sync.queue.added.length, origin ∉ sync.fetched

instance (sync : FileSync Content) : Decidable sync.Unfetched :=
  inferInstanceAs (Decidable (∃ _ < _, _))

/-- The path mentions no barrier. A notification that finds the event pending
finds it unfetched, or it tells nothing new, or it is not the last one. -/
def Admitted (sync : FileSync Content) : FileSyncEvent Content → Prop
  | .modified _ => mentionsBarrier sync.event = false ∧
      (sync.queue.eventExists sync.event = true →
        sync.Unfetched ∨ sync.peer = sync.content ∨ 1 < sync.outstanding)
  | .change _ | .queued _ | .fetch _ => True

instance [DecidableEq Content] (sync : FileSync Content) (event : FileSyncEvent Content) :
    Decidable (sync.Admitted event) :=
  match event with
  | .modified _ => inferInstanceAs (Decidable (_ ∧ (_ → _)))
  | .change _ | .queued _ | .fetch _ => instDecidableTrue

variable {queue : EventQueue} {origin : Nat}

variable {id now : UInt64} {event text : String}

theorem eventExists_of_lookup (found : queue.events.lookup id = some event) :
    queue.eventExists event = true :=
  any_eq_true.mpr ⟨⟨id, event⟩, AList.mem_lookup_iff.mp found, beq_self_eq_true _⟩

/-- All events are modifications of the file, and those that have been removed
have been fetched. If the peer is behind, a notification or a fetch is to come. -/
structure Sound (sync : FileSync Content) : Prop where
  kept : sync.queue.Kept
  own : ∀ (origin : Nat) (id : Option UInt64) (text : String),
    sync.queue.added[origin]? = some (id, text) → text = sync.event
  served : ∀ origin ∈ sync.queue.settled, origin ∈ sync.fetched
  known : ∀ origin ∈ sync.fetched, origin < sync.queue.added.length
  current : sync.peer = sync.content ∨ 0 < sync.outstanding ∨ sync.Unfetched

theorem sound_create (path : String) (endPoint : EndPoint) (maxConnections : Nat)
    (content : Content) : (create path endPoint maxConnections content).Sound := by
  have kept := EventQueue.kept_create endPoint maxConnections
  refine ⟨⟨⟨kept.stored, kept.own, kept.written⟩, kept.known, kept.genuine, kept.accounted⟩,
    ?_, ?_, ?_, .inl rfl⟩
  · intro _ _ _ added
    simp [create, EventQueue.create] at added
  · intro origin settled
    simp [create, EventQueue.create] at settled
  · intro origin fetched
    cases fetched

theorem Sound.eventExists_of_unsettled (sound : sync.Sound) {id : Option UInt64}
    (added : sync.queue.added[origin]? = some (id, text))
    (unsettled : origin ∉ sync.queue.settled) : sync.queue.eventExists sync.event = true := by
  obtain ⟨own, -, stored⟩ := sound.kept.stored origin id text added unsettled
  rw [← sound.own origin id text added]
  exact eventExists_of_lookup stored

theorem Sound.synced (sound : sync.Sound) : sync.Synced := by
  intro handled idle
  obtain current | more | ⟨origin, inRange, notFetched⟩ := sound.current
  · exact current
  · omega
  · have unsettled : origin ∉ sync.queue.settled :=
      fun settled => notFetched (sound.served origin settled)
    have pending := sound.eventExists_of_unsettled (getElem?_eq_getElem inRange) unsettled
    rw [idle] at pending
    cases pending

structure Quiet (sync : FileSync Content) (queue : EventQueue) : Prop where
  added : queue.added = sync.queue.added
  settled : ∀ origin ∈ queue.settled, origin ∈ sync.queue.settled ∨ origin ∈ sync.fetched

theorem Quiet.of_eq (added : queue.added = sync.queue.added)
    (settled : queue.settled = sync.queue.settled) : sync.Quiet queue :=
  ⟨added, fun _ member => .inl (settled ▸ member)⟩

theorem quiet_startHandler (quiet : sync.Quiet queue) (coroutine : Nat) (now : UInt64) :
    sync.Quiet (queue.startHandler coroutine now) := by
  unfold EventQueue.startHandler
  split
  · exact ⟨quiet.added, quiet.settled⟩
  · exact ⟨quiet.added, quiet.settled⟩
  · exact quiet

theorem quiet_barrier (isBarrier : EventQueue.barriers.contains text = true) (now : UInt64) :
    sync.Quiet (sync.queue.addEvent text now) := by
  simp only [EventQueue.addEvent, EventQueue.mentionsBarrier_of_barrier isBarrier, isBarrier,
    if_true]
  exact .of_eq rfl rfl

theorem quiet_sendEventHandler {coroutine client : Nat} {provider : String} {stage : Stage}
    {outcome : Outcome} (present : sync.queue.taskQueue.coroutines[coroutine]? =
      some (.handleTask ⟨.sendEventHandler id provider event origin, stage⟩ client true))
    (allowed : sync.allows (.proceed coroutine outcome now) = true)
    (proceeded : sync.queue.sendEventHandler coroutine client id provider event origin now stage
      outcome = some queue) : sync.Quiet queue := by
  unfold EventQueue.sendEventHandler at proceeded
  split at proceeded
  · cases proceeded
    exact .of_eq rfl rfl
  · rename_i text
    have answered : text = sync.request := by simpa [allows] using allowed
    have notDone : text ≠ done := by
      intro isDone
      have first := congrArg (fun reply : String => reply.toList.head?) (answered.symm.trans isDone)
      simp [request, done] at first
    rw [if_neg notDone] at proceeded
    cases proceeded
    exact .of_eq rfl rfl
  · cases proceeded
    simp only [allows, present, contains_iff_mem] at allowed
    refine ⟨rfl, ?_⟩
    intro other settled
    obtain earlier | last := mem_append.mp settled
    · exact .inl earlier
    · exact .inr (mem_singleton.mp last ▸ allowed)
  · cases allowed
  · cases allowed
  · cases allowed
  · cases proceeded
    exact .of_eq rfl rfl
  · cases proceeded

variable {event : EventQueueEvent}

theorem quiet_step (allowed : sync.allows event = true)
    (stepped : sync.queue.step event = some queue) : sync.Quiet queue := by
  cases EventQueue.transition_of_step stepped with
  | addEventProvider => exact .of_eq rfl rfl
  | addEvent => cases allowed
  | barrier isBarrier => exact quiet_barrier isBarrier 0
  | scheduled => exact .of_eq rfl rfl
  | @resumed coroutine now taskQueue =>
    have scheduled : sync.Quiet { sync.queue with taskQueue } := .of_eq rfl rfl
    exact quiet_startHandler scheduled coroutine now
  | proceeded present proceeded => exact quiet_sendEventHandler present allowed proceeded

theorem admitted_of_allows (allowed : sync.allows event = true) : sync.queue.Admitted event := by
  cases event with
  | addEvent => cases allowed
  | _ => rfl

theorem Sound.queued (sound : sync.Sound) {queue : EventQueue}
    (allowed : sync.allows event = true) (stepped : sync.queue.step event = some queue) :
    ({ sync with queue } : FileSync Content).Sound := by
  obtain ⟨added, settled⟩ := quiet_step allowed stepped
  refine ⟨sound.kept.step (admitted_of_allows allowed) stepped, ?_, ?_, ?_, ?_⟩
  · rw [added]
    exact sound.own
  · intro origin isSettled
    obtain earlier | fetched := settled origin isSettled
    · exact sound.served origin earlier
    · exact fetched
  · rw [added]
    exact sound.known
  · simpa only [Unfetched, added] using sound.current

theorem Sound.addEvent (sound : sync.Sound) (noBarrier : mentionsBarrier sync.event = false)
    (absent : sync.queue.eventExists sync.event = false) (now : UInt64) (outstanding : Nat) :
    ({ sync with outstanding, queue := sync.queue.addEvent sync.event now } :
      FileSync Content).Sound := by
  have fresh : ∀ (origin : Nat) (text : String),
      sync.queue.added[origin]? = some (some now, text) → origin ∈ sync.queue.settled := by
    intro _ _ added
    by_contra unsettled
    rw [sound.eventExists_of_unsettled added unsettled] at absent
    cases absent
  have added : sync.queue.addEvent sync.event now = sync.queue.addEventWithId sync.event now := by
    simp [EventQueue.addEvent, noBarrier]
  rw [added]
  refine ⟨sound.kept.addEventWithId sync.event fresh, ?_, sound.served, ?_, ?_⟩
  · intro origin id text found
    obtain before | last := mem_append.mp (mem_of_getElem? found)
    · obtain ⟨position, inRange⟩ := mem_iff_getElem?.mp before
      exact sound.own position id text inRange
    · exact congrArg Prod.snd (mem_singleton.mp last)
  · intro origin fetched
    exact Nat.lt_of_lt_of_le (sound.known origin fetched) (by simp [EventQueue.addEventWithId,
      EventQueue.addTask])
  · refine .inr (.inr ⟨sync.queue.added.length, ?_, ?_⟩)
    · simp [EventQueue.addEventWithId, EventQueue.addTask]
    · intro fetched
      exact Nat.lt_irrefl _ (sound.known _ fetched)

theorem Sound.modified (sound : sync.Sound) {outstanding : Nat}
    (waiting : sync.outstanding = outstanding + 1) (admitted : sync.Admitted (.modified now)) :
    (({ sync with outstanding } : FileSync Content).modified now).Sound := by
  obtain ⟨noBarrier, finds⟩ := admitted
  rw [FileSync.modified]
  split
  · rename_i pending
    refine ⟨sound.kept, sound.own, sound.served, sound.known, ?_⟩
    obtain unfetched | same | more := finds pending
    · exact .inr (.inr unfetched)
    · exact .inl same
    · exact .inr (.inl (by simp only; omega))
  · rename_i absent
    exact sound.addEvent noBarrier (Bool.eq_false_iff.mpr absent) now outstanding

theorem Sound.provide (sound : sync.Sound) {header : String}
    (added : origin < sync.queue.added.length) (provided : sync.provide origin header = some next) :
    next.Sound := by
  obtain ⟨-, ⟨⟩⟩ := Option.ite_none_right_eq_some.mp provided
  refine ⟨sound.kept, sound.own, ?_, ?_, .inl rfl⟩
  · intro other settled
    exact mem_append_left _ (sound.served other settled)
  · exact forall_mem_append.mpr ⟨sound.known, forall_mem_singleton.mpr added⟩

theorem Sound.step {event : FileSyncEvent Content} (sound : sync.Sound)
    (admitted : sync.Admitted event) (stepped : sync.step event = some next) : next.Sound := by
  revert stepped
  fun_cases FileSync.step
  case case4 allowed =>
    intro taken
    obtain ⟨queue, stepped, rfl⟩ := Option.map_eq_some_iff.mp taken
    exact sound.queued allowed stepped
  case case7 present _ =>
    obtain ⟨inRange, -⟩ := List.getElem?_eq_some_iff.mp (sound.kept.added_of_handler present)
    exact sound.provide inRange
  all_goals rintro ⟨⟩
  case case1 =>
    exact ⟨sound.kept, sound.own, sound.served, sound.known, .inr (.inl (Nat.succ_pos _))⟩
  case case3 waiting => exact sound.modified waiting admitted

/-- No update is lost if every dropped notification finds an event that is still to be fetched. -/
theorem update_not_lost {path : String} {endPoint : EndPoint} {maxConnections : Nat}
    {content : Content} {events : List (FileSyncEvent Content)} {final : FileSync Content}
    (run : Run step Admitted (create path endPoint maxConnections content) events final) :
    final.Synced := by
  have sound : final.Sound := run.preserves (sound_create path endPoint maxConnections content)
      fun _ _ _ before admitted stepped => before.step admitted stepped
  exact sound.synced

theorem update_not_lost_before_fetch :
    ∃ final : FileSync Nat, exec step (create "/etc/a" ⟨"host", "80"⟩ 1 0)
        [.change 1, .modified 5, .queued (.resume 0 5), .queued (.connected 0 false),
          .queued (.resume 1 5), .queued (.proceed 1 .succeeded 5), .change 2, .modified 6,
          .queued (.proceed 1 (.header "Fetch:/etc/a") 6), .fetch 1,
          .queued (.proceed 1 .succeeded 6), .queued (.proceed 1 .succeeded 6),
          .queued (.returned 1)] = some final ∧ final.Synced := by
  refine Exists.imp (fun final run => ⟨run.exec_eq, update_not_lost run⟩)
    (exists_run_of_within ?_)
  decide

/-- A change between the fetch and the removal of the event: its notification is
dropped and the peer keeps the earlier content. -/
theorem update_lost :
    (∃ final : FileSync Nat, exec step (create "/etc/a" ⟨"host", "80"⟩ 1 0)
        [.change 1, .modified 5, .queued (.resume 0 5), .queued (.connected 0 false),
          .queued (.resume 1 5), .queued (.proceed 1 .succeeded 5),
          .queued (.proceed 1 (.header "Fetch:/etc/a") 5), .fetch 1, .change 2, .modified 6,
          .queued (.proceed 1 .succeeded 6)] = some final ∧
      final.outstanding = 0 ∧ final.queue.eventExists final.event = false ∧
      final.peer = 1 ∧ final.content = 2) ∧
    ∃ final : FileSync Nat, exec step (create "/etc/Barrier" ⟨"host", "80"⟩ 1 0)
        [.change 1, .modified 5] = some final ∧
      final.outstanding = 0 ∧ final.queue.eventExists final.event = false ∧
      final.peer = 0 ∧ final.content = 1 :=
  ⟨⟨_, rfl, by decide, by decide, by decide, by decide⟩,
    ⟨_, rfl, by decide, by decide, by decide, by decide⟩⟩

end FileSync

end Coroserver.EventBroker
