import Coroserver.GraphQL.Subscription
import Mathlib.Data.List.Nodup

/-! The range-for of a broadcast is suspended in every callback, and nothing keeps another
coroutine from changing the vector. A replay adds an entry for a subscriber of later ticks only.
-/

namespace Coroserver.GraphQL

open List Machine Option
structure Books (subscribers : List Nat) (next ticks : Nat) (delivered replays : List (Nat × Nat))
    (broadcasts : List Broadcast) : Prop where
  nodup : subscribers.Nodup
  below : ∀ id ∈ subscribers, id < next
  entries : ∀ entry ∈ delivered ++ replays, entry.1 ≤ ticks ∧ entry.2 < next
  distinct : (delivered ++ replays).Nodup
  reached : ∀ broadcast ∈ broadcasts, ∀ id ∈ broadcast.before, (broadcast.tick, id) ∈ delivered

structure Calling (subscribers : List Nat) (ticks : Nat) (delivered replays : List (Nat × Nat))
    (audience called rest : List Nat) : Prop where
  intact : subscribers = audience
  split : audience = called ++ rest
  reached : ∀ id ∈ called, (ticks, id) ∈ delivered
  only : ∀ id, (ticks, id) ∈ delivered ++ replays → id ∈ called

section

variable {subscribers fewer : List Nat} {next later ticks more tick id : Nat}
  {delivered replays delivered' replays' : List (Nat × Nat)} {broadcasts : List Broadcast}
  {entry : Nat × Nat}

theorem books_nil (next ticks : Nat) : Books [] next ticks [] [] [] where
  nodup := nodup_nil
  below _ member := absurd member not_mem_nil
  entries _ member := absurd member not_mem_nil
  distinct := nodup_nil
  reached _ member := absurd member not_mem_nil

section

variable (books : Books subscribers next ticks delivered replays broadcasts)

include books

theorem Books.mono (sublist : fewer.Sublist subscribers) (nextLe : next ≤ later)
    (ticksLe : ticks ≤ more) :
    Books fewer later more delivered replays broadcasts where
  nodup := books.nodup.sublist sublist
  below id member := Nat.lt_of_lt_of_le (books.below id (sublist.subset member)) nextLe
  entries entry member :=
    ⟨Nat.le_trans (books.entries entry member).1 ticksLe,
      Nat.lt_of_lt_of_le (books.entries entry member).2 nextLe⟩
  distinct := books.distinct
  reached := books.reached

theorem Books.subscribe :
    Books (subscribers ++ [next]) (next + 1) ticks delivered replays broadcasts := by
  have grown := books.mono (List.Sublist.refl _) (Nat.le_succ next) (Nat.le_refl ticks)
  have fresh : next ∉ subscribers := fun member => Nat.lt_irrefl _ (books.below next member)
  refine ⟨?_, ?_, grown.entries, grown.distinct, grown.reached⟩
  · exact nodup_append_comm.mp (nodup_cons.mpr ⟨fresh, books.nodup⟩)
  · refine forall_mem_append.mpr ⟨grown.below, forall_mem_singleton.mpr ?_⟩
    exact Nat.lt_succ_self next

theorem Books.record (entries : (delivered' ++ replays').Perm (entry :: (delivered ++ replays)))
    (kept : delivered ⊆ delivered') (fresh : entry ∉ delivered ++ replays)
    (tickLe : entry.1 ≤ ticks) (idLt : entry.2 < next) :
    Books subscribers next ticks delivered' replays' broadcasts where
  nodup := books.nodup
  below := books.below
  entries other member := by
    obtain rfl | earlier := mem_cons.mp (entries.mem_iff.mp member)
    · exact ⟨tickLe, idLt⟩
    · exact books.entries other earlier
  distinct := entries.nodup_iff.mpr (nodup_cons.mpr ⟨fresh, books.distinct⟩)
  reached broadcast member id called := kept (books.reached broadcast member id called)

end

theorem perm_of_replayed (member : entry ∈ replays) :
    ((delivered ++ [entry]) ++ replays.erase entry).Perm (delivered ++ replays) := by
  rw [append_assoc, singleton_append]
  exact (perm_cons_erase member).symm.append_left delivered

theorem Books.replayed (books : Books subscribers next ticks delivered replays broadcasts)
    (member : entry ∈ replays) :
    Books subscribers next ticks (delivered ++ [entry]) (replays.erase entry) broadcasts where
  nodup := books.nodup
  below := books.below
  entries other present := books.entries other ((perm_of_replayed member).mem_iff.mp present)
  distinct := (perm_of_replayed member).nodup_iff.mpr books.distinct
  reached broadcast ended id called :=
    mem_append_left _ (books.reached broadcast ended id called)

variable {audience called rest : List Nat}

theorem Calling.replayed
    (calling : Calling subscribers ticks delivered replays audience called rest)
    (member : entry ∈ replays) :
    Calling subscribers ticks (delivered ++ [entry]) (replays.erase entry) audience called
      rest where
  intact := calling.intact
  split := calling.split
  reached id present := mem_append_left _ (calling.reached id present)
  only id present := calling.only id ((perm_of_replayed member).mem_iff.mp present)

theorem Books.calling (books : Books subscribers next ticks delivered replays broadcasts) :
    Calling subscribers (ticks + 1) delivered replays subscribers [] subscribers where
  intact := rfl
  split := rfl
  reached _ present := absurd present not_mem_nil
  only _ present := absurd (books.entries _ present).1 (Nat.not_succ_le_self ticks)

theorem perm_of_called :
    ((delivered ++ [entry]) ++ replays).Perm (entry :: (delivered ++ replays)) := by
  rw [append_assoc, singleton_append]
  exact perm_middle

theorem Calling.advance
    (calling : Calling subscribers ticks delivered replays audience called (id :: rest)) :
    Calling subscribers ticks (delivered ++ [(ticks, id)]) replays audience (called ++ [id])
      rest where
  intact := calling.intact
  split := by rw [calling.split, append_assoc, singleton_append]
  reached other present := by
    obtain earlier | last := mem_append.mp present
    · exact mem_append_left _ (calling.reached other earlier)
    · obtain rfl := mem_singleton.mp last
      exact mem_append_right _ mem_cons_self
  only other present := by
    obtain same | earlier := mem_cons.mp (perm_of_called.mem_iff.mp present)
    · obtain ⟨-, rfl⟩ := Prod.mk.inj same
      exact mem_append_right _ mem_cons_self
    · exact mem_append_left _ (calling.only other earlier)

theorem Books.call (books : Books subscribers next ticks delivered replays broadcasts)
    (calling : Calling subscribers ticks delivered replays audience called (id :: rest)) :
    Books subscribers next ticks (delivered ++ [(ticks, id)]) replays broadcasts := by
  have listed : subscribers = called ++ id :: rest := calling.intact.trans calling.split
  have apart : id ∉ called := by
    have nodup := listed ▸ books.nodup
    exact fun member => (nodup_append.mp nodup).2.2 id member id mem_cons_self rfl
  have member : id ∈ subscribers := listed ▸ mem_append_right _ mem_cons_self
  refine books.record perm_of_called (subset_append_left _ _) ?_ (Nat.le_refl ticks)
    (books.below id member)
  exact fun present => apart (calling.only id present)

end

namespace SubscriptionSession

variable (session : SubscriptionSession)

def Booked : Prop :=
  Books session.subscribers session.nextSubscriberId session.ticks session.delivered
    session.replays session.broadcasts

def CallingNow (audience called rest : List Nat) : Prop :=
  Calling session.subscribers session.ticks session.delivered session.replays audience called rest

structure Ledger (session : SubscriptionSession) : Prop where
  books : session.Booked
  underway : ∀ audience remaining failed,
    session.loop = .broadcasting audience remaining failed →
      ∃ called, session.CallingNow audience called remaining.tail
  defined : session.loop ≠ .undefined

namespace Ledger

variable {session next : SubscriptionSession}

theorem of_books (books : session.Booked) (quiet : session.loop.isBroadcasting = false)
    (defined : session.loop ≠ .undefined) : session.Ledger := by
  refine ⟨books, ?_, defined⟩
  intro _ _ _ broadcasting
  rw [broadcasting] at quiet
  cases quiet

theorem newSession (request : SubscriptionRequest) (trigger : SubscriptionTrigger) :
    (request.newSession trigger).subscribe.spawnLoop.Ledger := by
  have empty : (request.newSession trigger).Booked := books_nil 1 0
  exact of_books empty.subscribe rfl nofun

theorem join (ledger : session.Ledger) (quiet : session.loop.isBroadcasting = false) :
    (session.subscribe.replay session.nextSubscriberId).Ledger := by
  have subscribed : session.subscribe.Booked := ledger.books.subscribe
  unfold replay
  split
  · exact of_books subscribed quiet ledger.defined
  · have fresh : (session.ticks, session.nextSubscriberId) ∉ session.delivered ++ session.replays :=
      fun present => Nat.lt_irrefl _ (ledger.books.entries _ present).2
    refine of_books (subscribed.record ?_ (List.Subset.refl _) fresh (Nat.le_refl _)
      (Nat.lt_succ_self session.nextSubscriberId)) quiet ledger.defined
    rw [← append_assoc]
    exact perm_append_singleton _ _

theorem mapWait_ne_undefined {loop : SubscriptionLoop} {change : TriggerWait → TriggerWait}
    (defined : loop ≠ .undefined) : loop.mapWait change ≠ .undefined := by
  cases loop <;> simp [SubscriptionLoop.mapWait] at defined ⊢

section

variable (ledger : session.Ledger)

include ledger

theorem withTrigger (trigger : SubscriptionTrigger) (change : TriggerWait → TriggerWait) :
    Ledger { session with trigger, loop := session.loop.mapWait change } := by
  refine ⟨ledger.books, ?_, mapWait_ne_undefined ledger.defined⟩
  intro audience remaining failed _
  refine ledger.underway audience remaining failed ?_
  cases loop : session.loop <;> simp_all [SubscriptionLoop.mapWait]

theorem fireTrigger : session.fireTrigger.Ledger := by
  unfold SubscriptionSession.fireTrigger
  split
  · exact ledger
  · exact ledger.withTrigger _ _

theorem removeSubscriber {id : Nat}
    (quiet : id ∈ session.subscribers → session.loop.isBroadcasting = false) :
    (session.removeSubscriber id).Ledger := by
  by_cases listed : id ∈ session.subscribers
  · have books : (session.removeSubscriber id).Booked :=
      ledger.books.mono erase_sublist (Nat.le_refl _) (Nat.le_refl _)
    exact of_books books (quiet listed) ledger.defined
  · unfold SubscriptionSession.removeSubscriber
    rw [erase_of_not_mem listed]
    exact ledger

theorem disconnect {id : Nat}
    (quiet : id ∈ session.subscribers → session.loop.isBroadcasting = false) :
    (session.disconnect id).Ledger := by
  have returned : Ledger { session with suspended := session.suspended.erase id } :=
    ⟨ledger.books, ledger.underway, ledger.defined⟩
  have removed := returned.removeSubscriber quiet
  unfold SubscriptionSession.disconnect cleanup
  dsimp only
  split
  · exact removed.withTrigger _ _
  · exact removed

theorem replayed {tick id : Nat} (member : (tick, id) ∈ session.replays) :
    Ledger { session with
      replays := session.replays.erase (tick, id)
      delivered := session.delivered ++ [(tick, id)] } := by
  refine ⟨ledger.books.replayed member, ?_, ledger.defined⟩
  intro audience remaining failed broadcasting
  obtain ⟨called, calling⟩ := ledger.underway audience remaining failed broadcasting
  exact ⟨called, Calling.replayed calling member⟩

end

theorem loopHead (books : session.Booked) : session.loopHead.Ledger := by
  unfold SubscriptionSession.loopHead
  split
  · exact of_books books rfl nofun
  · exact of_books books rfl nofun

theorem foldl_removeSubscriber (failed : List Nat) (session : SubscriptionSession) :
    failed.foldl SubscriptionSession.removeSubscriber session =
      { session with subscribers := session.subscribers.diff failed } := by
  induction failed generalizing session with
  | nil => rfl
  | cons id rest ih =>
    rw [foldl_cons, ih, diff_cons]
    rfl

theorem endBroadcast {audience : List Nat} (books : session.Booked)
    (calling : session.CallingNow audience audience []) (failed : List Nat) :
    (session.endBroadcast audience failed).Ledger := by
  have ended : Books session.subscribers session.nextSubscriberId session.ticks session.delivered
      session.replays (session.broadcasts ++ [⟨session.ticks, audience, session.subscribers⟩]) := by
    refine ⟨books.nodup, books.below, books.entries, books.distinct, ?_⟩
    exact forall_mem_append.mpr ⟨books.reached, forall_mem_singleton.mpr calling.reached⟩
  have cleaned := ended.mono (diff_sublist session.subscribers failed) (Nat.le_refl _)
    (Nat.le_refl _)
  unfold SubscriptionSession.endBroadcast
  dsimp only
  rw [foldl_removeSubscriber]
  split
  · exact of_books cleaned rfl nofun
  · exact of_books cleaned rfl nofun

theorem callNext {audience called remaining : List Nat} (books : session.Booked)
    (calling : session.CallingNow audience called remaining) (failed : List Nat) :
    (session.callNext audience remaining failed).Ledger := by
  cases remaining with
  | nil =>
    have all : audience = called := calling.split.trans (append_nil called)
    exact endBroadcast books (all ▸ calling) failed
  | cons id =>
    refine ⟨Books.call books calling, ?_, nofun⟩
    intro _ _ _ broadcasting
    cases broadcasting
    exact ⟨called ++ [id], Calling.advance calling⟩

theorem fetched (books : session.Booked) (outcome : Except Exception (Except ExecutionError Json)) :
    (session.fetched outcome).Ledger := by
  cases outcome with
  | error => exact of_books books rfl nofun
  | ok tickResult =>
    have ticked : Booked { session with
        lastResult := some (tickEvent tickResult), ticks := session.ticks + 1 } :=
      books.mono (List.Sublist.refl _) (Nat.le_refl _) (Nat.le_succ session.ticks)
    exact callNext ticked books.calling []

theorem callbackReturned {audience rest failed : List Nat} {id : Nat} (ledger : session.Ledger)
    (broadcasting : session.loop = .broadcasting audience (id :: rest) failed)
    (result : Option Bool) : (session.callbackReturned audience id rest failed result).Ledger := by
  obtain ⟨_, calling⟩ := ledger.underway _ _ _ broadcasting
  cases result with
  | none => exact of_books ledger.books rfl nofun
  | some ok =>
    simp only [SubscriptionSession.callbackReturned, calling.intact, if_true]
    exact callNext ledger.books calling _

theorem waitReturned (books : session.Booked) {wait : TriggerWait}
    (stepped : session.waitReturned wait = some next) : next.Ledger := by
  revert stepped
  fun_cases SubscriptionSession.waitReturned session wait
  all_goals rintro ⟨⟩
  case case3 | case8 => exact loopHead books
  all_goals exact of_books books rfl nofun

theorem step {schema : TypedSchema} {event : LoopEvent} (ledger : session.Ledger)
    (stepped : session.step schema event = some next) : next.Ledger := by
  revert stepped
  fun_cases SubscriptionSession.step schema session event
  case case7 => exact waitReturned ledger.books
  all_goals rintro ⟨⟩
  case case1 => exact loopHead ledger.books
  case case3 => exact fetched ledger.books _
  case case5 broadcasting => exact ledger.callbackReturned broadcasting _

end Ledger

def DeliversOnce : Prop :=
  (∀ audience remaining failed, session.loop = .broadcasting audience remaining failed →
      session.subscribers = audience) ∧
    session.loop ≠ .undefined ∧
    ∀ broadcast ∈ session.broadcasts, ∀ id ∈ broadcast.before, id ∈ broadcast.after →
      session.delivered.count (broadcast.tick, id) = 1

theorem Ledger.deliversOnce {session : SubscriptionSession} (ledger : session.Ledger) :
    session.DeliversOnce := by
  refine ⟨?_, ledger.defined, ?_⟩
  · intro audience remaining failed broadcasting
    obtain ⟨_, calling⟩ := ledger.underway audience remaining failed broadcasting
    exact calling.intact
  · intro broadcast member id before _
    have delivered := ledger.books.reached broadcast member id before
    have distinct := (nodup_append.mp ledger.books.distinct).1
    exact count_eq_one_of_mem distinct delivered

end SubscriptionSession

namespace SubscriptionExecutor

theorem setLoop_sessions (executor : SubscriptionExecutor) (i : Nat)
    (session : SubscriptionSession) :
    (executor.setLoop i session).sessions = Function.update executor.sessions i session := by
  unfold setLoop
  split <;> rfl

section

variable (stod : Text → Bool) (dump : Members → Option Text)
  (schema : TypedSchema)

def joined (executor : SubscriptionExecutor) (query : Text) (vars : Members)
    (trigger : SubscriptionTrigger) : Option Nat :=
  (prepare stod dump schema query vars trigger).bind fun request =>
    executor.activeSubscriptions request.key

/-- Nobody joins or leaves a session whose broadcast is suspended in a callback. -/
def Undisturbed (executor : SubscriptionExecutor) : SubscriptionEvent → Prop
  | .executeSubscription query vars trigger =>
    ∀ i ∈ joined stod dump schema executor query vars trigger,
      (executor.sessions i).loop.isBroadcasting = false
  | .disconnected i id =>
    id ∈ (executor.sessions i).subscribers →
      (executor.sessions i).loop.isBroadcasting = false
  | .notifyFieldsChanged _ | .replayed _ _ _ | .timerExpired _ | .loop _ _ => True

instance (executor : SubscriptionExecutor) (event : SubscriptionEvent) :
    Decidable (Undisturbed stod dump schema executor event) :=
  match event with
  | .executeSubscription query vars trigger =>
    inferInstanceAs (Decidable (∀ i ∈ joined _ _ _ executor query vars trigger, _ = false))
  | .disconnected i id =>
    inferInstanceAs (Decidable (id ∈ (executor.sessions i).subscribers → _ = false))
  | .notifyFieldsChanged _ | .replayed _ _ _ | .timerExpired _ | .loop _ _ =>
    instDecidableTrue

variable {stod dump schema} {executor next : SubscriptionExecutor}

theorem executeSubscription_cases {query : Text} {vars : Members} {trigger : SubscriptionTrigger}
    (called : executeSubscription stod dump schema executor query vars trigger = next) :
    next = executor ∨
      (∃ request, prepare stod dump schema query vars trigger = some request ∧
        executor.activeSubscriptions request.key = none ∧
        next = executor.insert (request.newSession trigger).subscribe.spawnLoop) ∨
      ∃ key i, executor.activeSubscriptions key = some i ∧
        joined stod dump schema executor query vars trigger = some i ∧
        next = executor.set i ((executor.sessions i).subscribe.replay
          (executor.sessions i).nextSubscriberId) := by
  subst called
  unfold executeSubscription joined
  cases prepared : prepare stod dump schema query vars trigger with
  | none => exact .inl rfl
  | some request =>
    dsimp only [bind_some]
    cases found : executor.activeSubscriptions request.key with
    | none => exact .inr (.inl ⟨request, rfl, found, rfl⟩)
    | some i => exact .inr (.inr ⟨request.key, i, found, rfl, rfl⟩)

theorem forall_update {holds : SubscriptionSession → Prop}
    {sessions : Nat → SubscriptionSession} (each : ∀ i, holds (sessions i)) {i : Nat}
    {session : SubscriptionSession} (changed : holds session) :
    ∀ j, holds (Function.update sessions i session j) :=
  (Function.forall_update_iff sessions fun _ => holds).mpr ⟨changed, fun j _ => each j⟩

theorem ledger_initial (i : Nat) : (({} : SubscriptionExecutor).sessions i).Ledger :=
  .of_books (books_nil 1 0) rfl nofun

theorem ledger_step {event : SubscriptionEvent} (ledgers : ∀ i, (executor.sessions i).Ledger)
    (undisturbed : Undisturbed stod dump schema executor event)
    (stepped : step stod dump schema executor event = some next) :
    ∀ i, (next.sessions i).Ledger := by
  cases event with
  | executeSubscription _ _ trigger =>
    obtain rfl | ⟨request, -, -, rfl⟩ | ⟨key, i, -, joins, rfl⟩ :=
      executeSubscription_cases (some.inj stepped)
    · exact ledgers
    · exact forall_update ledgers (.newSession request trigger)
    · exact forall_update ledgers ((ledgers i).join (undisturbed i joins))
  | notifyFieldsChanged =>
    obtain rfl := some.inj stepped
    intro i
    unfold notifyFieldsChanged
    dsimp only
    split
    · exact (ledgers i).fireTrigger
    · exact ledgers i
  | disconnected i id =>
    simp only [step, ite_none_right_eq_some, some.injEq] at stepped
    obtain ⟨-, rfl⟩ := stepped
    exact forall_update ledgers ((ledgers i).disconnect undisturbed)
  | replayed i =>
    simp only [step, ite_none_right_eq_some, some.injEq] at stepped
    obtain ⟨member, rfl⟩ := stepped
    exact forall_update ledgers ((ledgers i).replayed member)
  | timerExpired i =>
    simp only [step] at stepped
    split at stepped
    · obtain rfl := some.inj stepped
      exact forall_update ledgers (.of_books (ledgers i).books rfl nofun)
    · cases stepped
  | loop i =>
    obtain ⟨_, advanced, rfl⟩ := map_eq_some_iff.mp stepped
    rw [setLoop_sessions]
    exact forall_update ledgers ((ledgers i).step advanced)

end

/-- As long as nobody changes the vector, the entries of a tick are those of the subscribers
called. -/
theorem deliversOnce_of_run {stod : Text → Bool} {dump : Members → Option Text}
    {schema : TypedSchema} {events : List SubscriptionEvent} {final : SubscriptionExecutor}
    (run : Run (step stod dump schema) (Undisturbed stod dump schema) {}
      events final) (i : Nat) : (final.sessions i).DeliversOnce := by
  have ledgers : ∀ i, (final.sessions i).Ledger :=
    run.preserves ledger_initial fun _ _ _ ledgers undisturbed stepped =>
      ledger_step ledgers undisturbed stepped
  exact (ledgers i).deliversOnce

def statusField : FieldSpec where
  name := ascii "status"
  returnType := ascii "String"
  scalar := true
  redfishPath := ascii "/Status"

def statusSchema : TypedSchema where
  rootSubscriptions := [(ascii "status", statusField)]

def emptyDump (_ : Members) : Option Text := some (ascii "\x7b\x7d")

def statusCall : SubscriptionEvent :=
  .executeSubscription (ascii "subscription\x7bstatus\x7d") [] (.timer 5)

def statusFetched : LoopEvent := .fetched fun _ _ => .ok (.string (ascii "OK"))

def secondTick : List SubscriptionEvent :=
  [statusCall, .loop 0 .started, .loop 0 statusFetched, .loop 0 (.callbackReturned (some true)),
    statusCall, .timerExpired 0, .loop 0 .waitReturned, .replayed 0 1 2, .loop 0 statusFetched,
    .loop 0 (.callbackReturned (some true)), .loop 0 (.callbackReturned (some false))]

theorem deliversOnce_secondTick :
    ∃ final, exec (step (fun _ => true) emptyDump statusSchema) {} secondTick =
        some final ∧ (final.sessions 0).broadcasts = [⟨1, [1], [1]⟩, ⟨2, [1, 2], [1, 2]⟩] ∧
      (final.sessions 0).DeliversOnce := by
  have recorded : (exec (step (fun _ => true) emptyDump statusSchema) {} secondTick).map
      (fun final => (final.sessions 0).broadcasts) =
        some [⟨1, [1], [1]⟩, ⟨2, [1, 2], [1, 2]⟩] := by decide +kernel
  obtain ⟨final, executed, broadcasts⟩ := map_eq_some_iff.mp recorded
  refine ⟨final, executed, broadcasts, deliversOnce_of_run (run_of_within ?_ executed) 0⟩
  decide +kernel

theorem broadcast_disturbed :
    ∃ final, exec (step (fun _ => true) emptyDump statusSchema) {}
        [statusCall, .loop 0 .started, .loop 0 statusFetched, statusCall,
          .loop 0 (.callbackReturned (some true))] = some final ∧
      ¬(final.sessions 0).DeliversOnce := by
  have undefined : (exec (step (fun _ => true) emptyDump statusSchema) {}
      [statusCall, .loop 0 .started, .loop 0 statusFetched, statusCall,
        .loop 0 (.callbackReturned (some true))]).map (fun final => (final.sessions 0).loop) =
      some .undefined := by decide +kernel
  obtain ⟨final, executed, loop⟩ := map_eq_some_iff.mp undefined
  exact ⟨final, executed, fun once => once.2.1 loop⟩

end SubscriptionExecutor

end Coroserver.GraphQL
