import Coroserver.GraphQL.SubscriptionDelivery

/-! A session is registered exactly while its loop runs, and a loop ends only when nobody is left
to serve. The last subscriber to leave cancels the trigger, but the session stays registered until
the loop resumes. -/

namespace Coroserver.GraphQL

open List Machine Function Option
section

variable (trigger : SubscriptionTrigger)

include trigger

theorem SubscriptionTrigger.wait_cancelled : trigger.wait.1.cancelled = trigger.cancelled := by
  fun_cases SubscriptionTrigger.wait trigger <;> rfl

theorem SubscriptionTrigger.wait_ne_aborted : trigger.wait.2 ≠ .timer (some false) := by
  fun_cases SubscriptionTrigger.wait trigger <;> simp

theorem SubscriptionTrigger.clear_cancelled : trigger.clear.cancelled = trigger.cancelled := by
  cases trigger <;> rfl

theorem SubscriptionTrigger.fire_cancelled : trigger.fire.cancelled = trigger.cancelled := by
  cases trigger <;> rfl

end

theorem SubscriptionLoop.mapWait_running (loop : SubscriptionLoop)
    (change : TriggerWait → TriggerWait) : (loop.mapWait change).running = loop.running := by
  cases loop <;> rfl

theorem SubscriptionLoop.mapWait_wake_eq_aborted {loop : SubscriptionLoop} :
    loop.mapWait .wake = .waiting (.timer (some false)) ↔
      loop = .waiting (.timer (some false)) := by
  cases loop with
  | waiting wait => cases wait <;> simp [SubscriptionLoop.mapWait, TriggerWait.wake]
  | _ => simp [SubscriptionLoop.mapWait]

/-- The provider's links are strings, and a callback does not throw. -/
def LoopEvent.Benign : LoopEvent → Prop
  | .started | .waitReturned => True
  | .fetched provider => ∀ history request, TextAnswer request (provider history request)
  | .callbackReturned result => result ≠ none

/-! ## One session -/

namespace SubscriptionSession

/-- The trigger has been cancelled, and the loop is going to stop at it. -/
def doomed (session : SubscriptionSession) : Bool :=
  session.trigger.cancelled || session.loop == .waiting (.timer (some false))

theorem doomed_eq_false {session : SubscriptionSession} :
    session.doomed = false ↔
      session.trigger.cancelled = false ∧ session.loop ≠ .waiting (.timer (some false)) := by
  simp [doomed]

structure Attended (schema : TypedSchema) (session : SubscriptionSession) : Prop where
  active : session.active = true
  roots : TextRoots schema schema.getRootSubscriptionField session.mergedVariables
    session.operation.selections
  once : session.loop.running = true → session.loops = 1
  live : session.subscribers ≠ [] → session.loop.running = true ∧ session.doomed = false

structure Advanced (schema : TypedSchema) (session next : SubscriptionSession) : Prop where
  key : next.key = session.key
  attended : next.Attended schema
  loop : next.loop.running = true ∨ next.loop = .finished

namespace Attended

variable {schema : TypedSchema} {session next : SubscriptionSession}

theorem subscribers_eq_nil (attended : session.Attended schema) (doomed : session.doomed = true) :
    session.subscribers = [] := by
  by_contra listed
  rw [(attended.live listed).2] at doomed
  cases doomed

theorem empty (roots : TextRoots schema schema.getRootSubscriptionField session.mergedVariables
      session.operation.selections) (active : session.active = true)
    (nobody : session.subscribers = []) (once : session.loop.running = true → session.loops = 1) :
    session.Attended schema :=
  ⟨active, roots, once, fun listed => absurd nobody listed⟩

section

variable (attended : session.Attended schema)

include attended

theorem stop (nobody : session.subscribers = []) : Advanced schema session session.stop :=
  ⟨rfl, .empty attended.roots attended.active nobody nofun, .inr rfl⟩

section

variable (running : session.loop.running = true)

include running

theorem proceed (loop : SubscriptionLoop) {trigger : SubscriptionTrigger} {subscribers : List Nat}
    (fewer : subscribers.Sublist session.subscribers)
    (same : trigger.cancelled = session.trigger.cancelled) (goesOn : loop.running = true)
    (pending : loop ≠ .waiting (.timer (some false))) (lastResult : Option Json) (ticks : Nat)
    (delivered : List (Nat × Nat)) (broadcasts : List Broadcast) :
    Advanced schema session { session with
      trigger, loop, subscribers, lastResult, ticks, delivered, broadcasts } := by
  refine ⟨rfl, ⟨attended.active, attended.roots, fun _ => attended.once running, ?_⟩, .inl goesOn⟩
  intro listed
  have before : session.subscribers ≠ [] := by
    intro nobody
    exact listed (sublist_nil.mp (nobody ▸ fewer))
  have cancelled := (doomed_eq_false.mp (attended.live before).2).1
  exact ⟨goesOn, doomed_eq_false.mpr ⟨same.trans cancelled, pending⟩⟩

theorem loopHead : Advanced schema session session.loopHead := by
  unfold SubscriptionSession.loopHead
  split
  · exact attended.proceed running .fetching (List.Sublist.refl _) rfl rfl nofun _ _ _ _
  · rename_i ends
    refine attended.stop ?_
    by_contra listed
    exact ends ⟨attended.active, listed⟩

theorem endBroadcast (lastResult : Option Json) (ticks : Nat) (audience failed : List Nat) :
    Advanced schema session
      (SubscriptionSession.endBroadcast { session with lastResult, ticks } audience failed) := by
  have fewer := diff_sublist session.subscribers failed
  unfold SubscriptionSession.endBroadcast
  dsimp only
  rw [Ledger.foldl_removeSubscriber]
  split
  · rename_i nobody
    exact ⟨rfl, .empty attended.roots attended.active nobody nofun, .inr rfl⟩
  · refine attended.proceed running _ fewer session.trigger.wait_cancelled rfl ?_ _ _ _ _
    intro aborted
    exact session.trigger.wait_ne_aborted (SubscriptionLoop.waiting.inj aborted)

theorem callNext (lastResult : Option Json) (ticks : Nat) (audience remaining failed : List Nat) :
    Advanced schema session (SubscriptionSession.callNext { session with lastResult, ticks }
      audience remaining failed) := by
  cases remaining with
  | nil => exact attended.endBroadcast running lastResult ticks audience failed
  | cons id rest =>
    exact attended.proceed running (.broadcasting audience (id :: rest) failed)
      (List.Sublist.refl _) rfl rfl nofun lastResult ticks _ _

end

theorem fetch_returns {provider : Provider}
    (links : ∀ history request, TextAnswer request (provider history request)) :
    ∃ result, Interaction.run provider [] (executeSubscriptionSelections schema
      session.operation.selections session.mergedVariables) = .ok result := by
  have always : (executeSubscriptionSelections schema session.operation.selections
      session.mergedVariables).Always TextAnswer (fun _ => False) (fun _ => True) :=
    always_executeRoots_iff.mpr attended.roots
  obtain ⟨result, returned, -⟩ :=
    (Interaction.ends_iff fun _ => not_false).mp (always.ends links [])
  exact ⟨result, returned⟩

theorem waitReturned {wait : TriggerWait} (waiting : session.loop = .waiting wait)
    (stepped : session.waitReturned wait = some next) : Advanced schema session next := by
  have running : session.loop.running = true := by rw [waiting]; rfl
  have stops : session.doomed = true → Advanced schema session session.stop :=
    fun doomed => attended.stop (attended.subscribers_eq_nil doomed)
  revert stepped
  fun_cases SubscriptionSession.waitReturned session wait
  all_goals rintro ⟨⟩
  case case3 | case8 => exact attended.loopHead running
  case case4 => exact stops (by simp [doomed, waiting])
  case case5 cancelled | case7 cancelled => exact stops (by simp [doomed, cancelled])
  case case6 =>
    exact attended.proceed running (.waiting .window) (List.Sublist.refl _)
      session.trigger.clear_cancelled rfl (by simp) _ _ _ _

theorem step {event : LoopEvent} (ledger : session.Ledger) (benign : event.Benign)
    (stepped : session.step schema event = some next) : Advanced schema session next := by
  revert stepped
  fun_cases SubscriptionSession.step schema session event
  case case7 waiting => exact attended.waitReturned waiting
  all_goals rintro ⟨⟩
  case case1 spawned => exact attended.loopHead (by rw [spawned]; rfl)
  case case3 fetching =>
    obtain ⟨_, returned⟩ := attended.fetch_returns benign
    rw [returned]
    exact attended.callNext (by rw [fetching]; rfl) _ _ _ _ _
  case case5 result audience id rest failed broadcasting =>
    obtain ⟨_, calling⟩ := ledger.underway _ _ _ broadcasting
    cases result with
    | none => exact absurd rfl benign
    | some ok =>
      simp only [SubscriptionSession.callbackReturned, calling.intact, if_true]
      exact attended.callNext (by rw [broadcasting]; rfl) session.lastResult session.ticks
        audience rest _

end

theorem newSession {request : SubscriptionRequest} {trigger : SubscriptionTrigger}
    (roots : TextRoots schema schema.getRootSubscriptionField request.mergedVariables
      request.operation.selections) (untouched : trigger.cancelled = false) :
    (request.newSession trigger).subscribe.spawnLoop.Attended schema := by
  refine ⟨rfl, roots, fun _ => rfl, fun _ => ⟨rfl, ?_⟩⟩
  exact doomed_eq_false.mpr ⟨untouched, nofun⟩

section

variable (attended : session.Attended schema)

include attended

theorem join (running : session.loop.running = true) (goesOn : session.doomed = false) (id : Nat) :
    (session.subscribe.replay id).Attended schema := by
  unfold replay
  split
  · exact ⟨attended.active, attended.roots, attended.once, fun _ => ⟨running, goesOn⟩⟩
  · exact ⟨attended.active, attended.roots, attended.once, fun _ => ⟨running, goesOn⟩⟩

theorem disconnect (id : Nat) : (session.disconnect id).Attended schema := by
  unfold SubscriptionSession.disconnect cleanup
  dsimp only
  split
  · rename_i nobody
    refine .empty attended.roots attended.active nobody fun running => attended.once ?_
    exact (session.loop.mapWait_running .abort).symm.trans running
  · rename_i listed
    refine ⟨attended.active, attended.roots, attended.once, fun _ => attended.live ?_⟩
    intro nobody
    exact listed (congrArg (List.erase · id) nobody)

theorem fireTrigger : session.fireTrigger.Attended schema := by
  unfold SubscriptionSession.fireTrigger
  split
  · exact attended
  · have running := session.loop.mapWait_running .wake
    refine ⟨attended.active, attended.roots, fun still => attended.once (running.symm.trans still),
      fun listed => ?_⟩
    obtain ⟨alive, goesOn⟩ := attended.live listed
    obtain ⟨untouched, pending⟩ := doomed_eq_false.mp goesOn
    refine ⟨running.trans alive, doomed_eq_false.mpr ⟨?_, ?_⟩⟩
    · exact session.trigger.fire_cancelled.trans untouched
    · exact fun aborted => pending (SubscriptionLoop.mapWait_wake_eq_aborted.mp aborted)

theorem timerExpired (waiting : session.loop = .waiting (.timer none)) :
    Advanced schema session { session with loop := .waiting (.timer (some true)) } := by
  have running : session.loop.running = true := by rw [waiting]; rfl
  exact attended.proceed running (.waiting (.timer (some true))) (List.Sublist.refl _) rfl rfl
    (by simp) _ _ _ _

end

end Attended

section

variable (session : SubscriptionSession)

include session

theorem disconnect_key (id : Nat) : (session.disconnect id).key = session.key := by
  unfold disconnect cleanup
  dsimp only
  split <;> rfl

theorem disconnect_running (id : Nat) :
    (session.disconnect id).loop.running = session.loop.running := by
  unfold disconnect cleanup
  dsimp only
  split
  · exact session.loop.mapWait_running .abort
  · rfl

theorem fireTrigger_key : session.fireTrigger.key = session.key := by
  unfold fireTrigger
  split <;> rfl

theorem fireTrigger_running : session.fireTrigger.loop.running = session.loop.running := by
  unfold fireTrigger
  split
  · rfl
  · exact session.loop.mapWait_running .wake

theorem join_key (id : Nat) : (session.subscribe.replay id).key = session.key := by
  unfold replay
  split <;> rfl

theorem join_loop (id : Nat) : (session.subscribe.replay id).loop = session.loop := by
  unfold replay
  split <;> rfl

end

end SubscriptionSession

/-! ## The executor -/

namespace SubscriptionExecutor

/-- Whoever is subscribed and suspended has a registered session and one loop. -/
def LiveSubscribers (executor : SubscriptionExecutor) : Prop :=
  ∀ i, ∀ id ∈ (executor.sessions i).subscribers, id ∈ (executor.sessions i).suspended →
    executor.activeSubscriptions (executor.sessions i).key = some i ∧
      (executor.sessions i).loops = 1 ∧ (executor.sessions i).loop.running = true

structure Attended (schema : TypedSchema) (executor : SubscriptionExecutor) : Prop where
  registered : ∀ key i, executor.activeSubscriptions key = some i ↔
    (executor.sessions i).key = key ∧ (executor.sessions i).loop.running = true
  fresh : ∀ i, executor.created ≤ i → (executor.sessions i).loop.running = false
  each : ∀ i, (executor.sessions i).Attended schema

namespace Attended

variable {schema : TypedSchema} {executor : SubscriptionExecutor}

theorem liveSubscribers (attended : executor.Attended schema) : executor.LiveSubscribers := by
  intro i id listed _
  have running := ((attended.each i).live (ne_nil_of_mem listed)).1
  exact ⟨(attended.registered _ i).mpr ⟨rfl, running⟩, (attended.each i).once running, running⟩

theorem congr {next : SubscriptionExecutor} (attended : executor.Attended schema)
    (sameActive : next.activeSubscriptions = executor.activeSubscriptions)
    (sameCreated : next.created = executor.created)
    (same : ∀ i, (next.sessions i).key = (executor.sessions i).key ∧
      (next.sessions i).loop.running = (executor.sessions i).loop.running)
    (each : ∀ i, (next.sessions i).Attended schema) : next.Attended schema := by
  refine ⟨?_, ?_, each⟩
  · intro key i
    rw [sameActive, (same i).1, (same i).2]
    exact attended.registered key i
  · intro i beyond
    rw [(same i).2]
    exact attended.fresh i (sameCreated ▸ beyond)

variable {i : Nat}

section

variable (attended : executor.Attended schema)

include attended

theorem set {session : SubscriptionSession} (key : session.key = (executor.sessions i).key)
    (running : session.loop.running = (executor.sessions i).loop.running)
    (changed : session.Attended schema) : (executor.set i session).Attended schema := by
  refine attended.congr rfl rfl ?_ (forall_update attended.each changed)
  exact (forall_update_iff executor.sessions fun j (session : SubscriptionSession) =>
    session.key = (executor.sessions j).key ∧
      session.loop.running = (executor.sessions j).loop.running).mpr
    ⟨⟨key, running⟩, fun _ _ => ⟨rfl, rfl⟩⟩

theorem erase {session : SubscriptionSession} (running : (executor.sessions i).loop.running = true)
    (key : session.key = (executor.sessions i).key) (changed : session.Attended schema)
    (finished : session.loop.running = false) :
    Attended schema { executor.set i session with
      activeSubscriptions := update executor.activeSubscriptions session.key none } := by
  have own := (attended.registered _ i).mpr ⟨rfl, running⟩
  refine ⟨?_, ?_, forall_update attended.each changed⟩
  · intro other j
    by_cases same : j = i
    · subst same
      simp only [SubscriptionExecutor.set, update_self, finished, Bool.false_eq_true,
        and_false, iff_false]
      by_cases itsKey : other = session.key
      · simp [itsKey]
      · rw [update_of_ne itsKey, attended.registered]
        exact fun holds => itsKey (holds.1.symm.trans key.symm)
    · simp only [SubscriptionExecutor.set, update_of_ne same]
      by_cases itsKey : other = session.key
      · subst itsKey
        simp only [update_self, reduceCtorEq, false_iff]
        intro holds
        have others := (attended.registered _ j).mpr holds
        rw [key, own] at others
        exact same (some.inj others).symm
      · rw [update_of_ne itsKey]
        exact attended.registered other j
  · intro j beyond
    have apart : j ≠ i := by
      rintro rfl
      rw [attended.fresh j beyond] at running
      cases running
    simp only [SubscriptionExecutor.set, update_of_ne apart]
    exact attended.fresh j beyond

theorem setLoop {session : SubscriptionSession}
    (running : (executor.sessions i).loop.running = true)
    (advanced : (executor.sessions i).Advanced schema session) :
    (executor.setLoop i session).Attended schema := by
  unfold SubscriptionExecutor.setLoop
  split
  · rename_i finished
    exact attended.erase running advanced.key advanced.attended (by rw [finished]; rfl)
  · rename_i goesOn
    have still := advanced.loop.resolve_right goesOn
    exact attended.set advanced.key (still.trans running.symm) advanced.attended

theorem insert {session : SubscriptionSession}
    (absent : executor.activeSubscriptions session.key = none)
    (running : session.loop.running = true) (opened : session.Attended schema) :
    (executor.insert session).Attended schema := by
  refine ⟨?_, ?_, forall_update attended.each opened⟩
  · intro key j
    unfold SubscriptionExecutor.insert SubscriptionExecutor.set
    dsimp only
    by_cases last : j = executor.created
    · subst last
      rw [update_self]
      by_cases itsKey : key = session.key
      · subst itsKey
        simp [running]
      · rw [update_of_ne itsKey, attended.registered, attended.fresh _ (Nat.le_refl _)]
        simp [Ne.symm itsKey]
    · rw [update_of_ne last, ← attended.registered]
      by_cases itsKey : key = session.key
      · subst itsKey
        simp [absent, Ne.symm last]
      · rw [update_of_ne itsKey]
  · intro j beyond
    have apart : j ≠ executor.created := Nat.ne_of_gt beyond
    unfold SubscriptionExecutor.insert SubscriptionExecutor.set
    dsimp only
    rw [update_of_ne apart]
    exact attended.fresh j (Nat.le_of_succ_le beyond)

end

end Attended

section

variable (stod : Text → Bool) (dump : Members → Option Text)
  (schema : TypedSchema)

/-- Nobody joins a session whose trigger has been cancelled. -/
def Timely (executor : SubscriptionExecutor) : SubscriptionEvent → Prop
  | .executeSubscription query vars trigger =>
    ∀ i ∈ joined stod dump schema executor query vars trigger,
      (executor.sessions i).doomed = false
  | .notifyFieldsChanged _ | .disconnected _ _ | .replayed _ _ _ | .timerExpired _
  | .loop _ _ => True

instance (executor : SubscriptionExecutor) (event : SubscriptionEvent) :
    Decidable (Timely stod dump schema executor event) :=
  match event with
  | .executeSubscription query vars trigger =>
    inferInstanceAs (Decidable (∀ i ∈ joined _ _ _ executor query vars trigger, _ = false))
  | .notifyFieldsChanged _ | .disconnected _ _ | .replayed _ _ _ | .timerExpired _
  | .loop _ _ => instDecidableTrue

/-- A call brings a trigger that has not been cancelled and string arguments for
its root fields. -/
def Benign : SubscriptionEvent → Prop
  | .executeSubscription query vars trigger =>
    trigger.cancelled = false ∧
      ∀ request ∈ prepare stod dump schema query vars trigger,
        TextRoots schema schema.getRootSubscriptionField request.mergedVariables
          request.operation.selections
  | .loop _ event => event.Benign
  | .notifyFieldsChanged _ | .disconnected _ _ | .replayed _ _ _ | .timerExpired _ => True

def Admitted (executor : SubscriptionExecutor) (event : SubscriptionEvent) : Prop :=
  (Undisturbed stod dump schema executor event ∧
    Timely stod dump schema executor event) ∧
    Benign stod dump schema event

variable {stod dump schema} {executor next : SubscriptionExecutor}

private theorem running_of_step {session next : SubscriptionSession} {event : LoopEvent}
    (stepped : session.step schema event = some next) : session.loop.running = true := by
  revert stepped
  fun_cases SubscriptionSession.step schema session event with
  | case1 loop | case3 _ loop | case5 _ _ _ _ _ loop | case7 _ loop =>
    rw [loop]
    exact fun _ => rfl
  | _ =>
    rintro ⟨⟩

theorem attended_step {event : SubscriptionEvent} (attended : executor.Attended schema)
    (ledgers : ∀ i, (executor.sessions i).Ledger)
    (admitted : Admitted stod dump schema executor event)
    (stepped : step stod dump schema executor event = some next) :
    next.Attended schema := by
  obtain ⟨⟨-, timely⟩, benign⟩ := admitted
  cases event with
  | executeSubscription _ _ trigger =>
    obtain rfl | ⟨request, prepared, absent, rfl⟩ | ⟨key, i, found, joins, rfl⟩ :=
      executeSubscription_cases (some.inj stepped)
    · exact attended
    · exact attended.insert absent rfl (.newSession (benign.2 request prepared) benign.1)
    · -- a registered session has a loop, and by the condition it does not stop at its trigger
      have running := ((attended.registered key i).mp found).2
      refine attended.set (SubscriptionSession.join_key _ _)
        (congrArg _ (SubscriptionSession.join_loop _ _)) ?_
      exact (attended.each i).join running (timely i joins) _
  | notifyFieldsChanged =>
    obtain rfl := some.inj stepped
    refine attended.congr rfl rfl (fun i => ?_) (fun i => ?_)
    · unfold notifyFieldsChanged
      dsimp only
      split
      · exact ⟨SubscriptionSession.fireTrigger_key _, SubscriptionSession.fireTrigger_running _⟩
      · exact ⟨rfl, rfl⟩
    · unfold notifyFieldsChanged
      dsimp only
      split
      · exact (attended.each i).fireTrigger
      · exact attended.each i
  | disconnected i id =>
    simp only [step, ite_none_right_eq_some, some.injEq] at stepped
    obtain ⟨-, rfl⟩ := stepped
    exact attended.set (SubscriptionSession.disconnect_key _ _)
      (SubscriptionSession.disconnect_running _ _) ((attended.each i).disconnect id)
  | replayed i =>
    simp only [step, ite_none_right_eq_some, some.injEq] at stepped
    obtain ⟨-, rfl⟩ := stepped
    have session := attended.each i
    exact attended.set rfl rfl ⟨session.active, session.roots, session.once, session.live⟩
  | timerExpired i =>
    simp only [step] at stepped
    split at stepped
    · rename_i waiting
      obtain rfl := some.inj stepped
      refine attended.set rfl ?_ ((attended.each i).timerExpired waiting).attended
      rw [waiting]
      rfl
    · cases stepped
  | loop i =>
    obtain ⟨_, advanced, rfl⟩ := map_eq_some_iff.mp stepped
    exact attended.setLoop (running_of_step advanced)
      ((attended.each i).step (ledgers i) benign advanced)

end

/-- Every subscriber has a loop, unless it joins a session between the cancellation and the end.
-/
theorem liveSubscribers_of_run {stod : Text → Bool}
    {dump : Members → Option Text} {schema : TypedSchema}
    {events : List SubscriptionEvent} {final : SubscriptionExecutor}
    (run : Run (step stod dump schema) (Admitted stod dump schema) {}
      events final) : final.LiveSubscribers := by
  have start : Attended schema {} := by
    refine ⟨fun key i => ⟨nofun, nofun⟩, fun _ _ => rfl, fun _ => ?_⟩
    exact .empty trivial rfl rfl nofun
  have kept : (∀ i, (final.sessions i).Ledger) ∧ final.Attended schema :=
    run.preserves (And.intro ledger_initial start) fun _ _ _ kept admitted stepped =>
      And.intro (ledger_step kept.1 admitted.1.1 stepped)
        (attended_step kept.2 kept.1 admitted stepped)
  exact kept.2.liveSubscribers

private theorem textRoots_of_arguments {schema : TypedSchema} {field? : Text → Option FieldSpec}
    {vars : Members} {selections : Selections}
    (without : ∀ selection ∈ selections, selection.arguments = []) :
    TextRoots schema field? vars selections := by
  induction selections with
  | nil => trivial
  | cons selection rest ih =>
    intro _ _ _
    rw [without selection mem_cons_self]
    refine ⟨⟨[], rfl, fun _ member => absurd member not_mem_nil⟩, fun _ => ih ?_⟩
    exact fun other later => without other (mem_cons_of_mem _ later)

theorem benign_statusCall : Benign (fun _ => true) emptyDump statusSchema statusCall := by
  have checked : (prepare (fun _ => true) emptyDump statusSchema
      (ascii "subscription\x7bstatus\x7d") [] (.timer 5)).all (fun request =>
        request.operation.selections.all fun selection => selection.arguments.isEmpty) = true := by
    decide +kernel
  refine ⟨rfl, fun request prepared => textRoots_of_arguments fun selection member => ?_⟩
  rw [mem_def.mp prepared] at checked
  exact isEmpty_iff.mp (all_eq_true.mp checked selection member)

def handedOver : List SubscriptionEvent :=
  [statusCall, .loop 0 .started, .loop 0 statusFetched, .loop 0 (.callbackReturned (some true)),
    statusCall, .disconnected 0 1, .timerExpired 0, .loop 0 .waitReturned, .replayed 0 1 2]

theorem liveSubscribers_handedOver :
    ∃ final, exec (step (fun _ => true) emptyDump statusSchema) {} handedOver =
        some final ∧ ((final.sessions 0).subscribers, (final.sessions 0).suspended) = ([2], [2]) ∧
      final.LiveSubscribers := by
  have listed : (exec (step (fun _ => true) emptyDump statusSchema) {} handedOver).map
      (fun final => ((final.sessions 0).subscribers, (final.sessions 0).suspended)) =
        some ([2], [2]) := by decide +kernel
  have benign : ∀ event ∈ handedOver, Benign (fun _ => true) emptyDump statusSchema event := by
    simp only [handedOver, forall_mem_cons]
    refine ⟨benign_statusCall, trivial, ?_, nofun, benign_statusCall, trivial, trivial, trivial,
      trivial, fun _ member => absurd member not_mem_nil⟩
    rintro _ _ _ ⟨⟩
    exact .string _
  obtain ⟨final, executed, subscribers⟩ := map_eq_some_iff.mp listed
  have run := liveSubscribers_of_run ((run_of_within ?_ executed).restrict benign)
  · exact ⟨final, executed, subscribers, run⟩
  · decide +kernel

/-- The first subscriber fails at the second tick. The other one leaves when the
replay of the first tick fails, and a third one joins before the loop resumes and
stops. -/
def joinedTooLate : List SubscriptionEvent :=
  [statusCall, .loop 0 .started, .loop 0 statusFetched, .loop 0 (.callbackReturned (some true)),
    statusCall, .timerExpired 0, .loop 0 .waitReturned, .loop 0 statusFetched,
    .loop 0 (.callbackReturned (some false)), .loop 0 (.callbackReturned (some true)),
    .disconnected 0 1, .replayed 0 1 2, .disconnected 0 2, statusCall, .loop 0 .waitReturned]

theorem subscriber_orphaned :
    ∃ final, exec (step (fun _ => true) emptyDump statusSchema) {} joinedTooLate =
        some final ∧ ¬final.LiveSubscribers := by
  have orphaned : (exec (step (fun _ => true) emptyDump statusSchema) {}
      joinedTooLate).map (fun final => ((final.sessions 0).subscribers,
        (final.sessions 0).suspended, (final.sessions 0).loop)) =
      some ([3], [3], .finished) := by decide +kernel
  obtain ⟨final, executed, observed⟩ := map_eq_some_iff.mp orphaned
  simp only [Prod.mk.injEq] at observed
  obtain ⟨subscribers, suspended, finished⟩ := observed
  refine ⟨final, executed, fun live => ?_⟩
  have running := (live 0 3 (by simp [subscribers]) (by simp [suspended])).2.2
  rw [finished] at running
  cases running

end SubscriptionExecutor

end Coroserver.GraphQL
