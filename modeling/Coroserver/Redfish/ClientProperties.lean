import Coroserver.Machine
import Coroserver.Redfish.Client
import Coroserver.Tally

/-! One POST at a time is in flight. A call that waits for another one's fetch is
told that it succeeded, whatever became of it, and a fetch that throws leaves
the slot taken. -/

namespace Coroserver.Redfish

open Machine List

def Reply.fails : Reply → Bool
  | .transportError => true
  | .response status _ => status != created

def Reply.foreseen : Reply → Bool
  | .transportError => true
  | .response status authToken =>
    if status = created then authToken.isSome else (httpErrorToString status).isSome

def Call.fetch? : Call → Option Nat
  | .posting post _ _ => some post
  | .waiting fetch _ _ => some fetch
  | _ => none

def Call.outside : Call → Bool
  | .spawned _ | .requesting _ | .returned => true
  | _ => false

namespace RedfishClient

variable (client : RedfishClient)

def moment : Moment :=
  { started := client.started, running := client.running }

def record (post : Nat) (reply : Reply) : RedfishClient :=
  { client with finished := client.finished ++ [(post, reply)] }

def answer : RedfishEvent → Option Reply
  | .answered call reply =>
    match client.calls[call]? with
    | some (.posting _ _ _) => some reply
    | _ => none
  | _ => none

inductive Transition (client : RedfishClient) : RedfishEvent → RedfishClient → Prop where
  | called {event} (caller : Caller) : client.answer event = none →
      Transition client event { client with calls := client.calls ++ [.spawned caller] }
  | moved {event call old new} :
      client.calls[call]? = some old → old.outside = true → new.outside = true →
      client.answer event = none →
      Transition client event (client.setCall call new)
  | joined {event call fetch old} (caller : Caller) :
      client.calls[call]? = some old → old.outside = true →
      client.tokenFetchInProgress = some fetch → client.answer event = none →
      Transition client event (client.setCall call (.waiting fetch client.moment caller))
  | fetching {event call old} (caller : Caller) :
      client.calls[call]? = some old → old.outside = true →
      client.tokenFetchInProgress = none → client.answer event = none →
      Transition client event
        { client.setCall call (.posting client.started client.moment caller) with
          tokenFetchInProgress := some client.started
          started := client.started + 1 }
  | reused {call called caller} :
      client.calls[call]? = some (.woken called caller) →
      Transition client (.resume call)
        (client.returnToken call called caller (some client.token))
  | denied {call post called caller reply} :
      client.calls[call]? = some (.posting post called caller) →
      reply.fails = true → reply.foreseen = true →
      Transition client (.answered call reply)
        (((client.record post reply).releaseFetch post).returnToken call called caller none)
  | unforeseen {call post called caller reply} :
      client.calls[call]? = some (.posting post called caller) →
      reply.fails = true → reply.foreseen = false →
      Transition client (.answered call reply)
        (((client.record post reply).releaseFetch post).setCall call .thrown)
  | tokenless {call post called caller} :
      client.calls[call]? = some (.posting post called caller) →
      Transition client (.answered call (.response created none))
        ((client.record post (.response created none)).setCall call .thrown)
  | granted {call post called caller} (token : String) :
      client.calls[call]? = some (.posting post called caller) →
      Transition client (.answered call (.response created (some token)))
        ((({ client.record post (.response created (some token)) with token } :
          RedfishClient).releaseFetch post).returnToken call called caller (some token))

theorem nextRound_outside (retryCount : Nat) : (nextRound retryCount).outside = true := by
  rw [nextRound]
  split <;> rfl

private theorem refreshToken_transition {client : RedfishClient} {call : Nat} {old : Call}
    {event : RedfishEvent} (present : client.calls[call]? = some old)
    (idle : old.outside = true) (caller : Caller) (quiet : client.answer event = none) :
    Transition client event (client.refreshToken call caller) := by
  unfold refreshToken
  cases slot : client.tokenFetchInProgress with
  | some => exact .joined caller present idle slot quiet
  | none => exact .fetching caller present idle slot quiet

private theorem posted_transition {client : RedfishClient} {call post : Nat} {called : Moment}
    {caller : Caller} (present : client.calls[call]? = some (.posting post called caller))
    (reply : Reply) :
    Transition client (.answered call reply) (client.posted call post called caller reply) := by
  cases reply with
  | transportError => exact .denied present rfl rfl
  | response status authToken =>
    by_cases isCreated : status = created
    · subst isCreated
      cases authToken with
      | none => exact .tokenless present
      | some token => exact .granted token present
    · have fails : (Reply.response status authToken).fails = true := by
        simp [Reply.fails, isCreated]
      simp only [posted, if_pos isCreated]
      cases known : httpErrorToString status with
      | some => exact .denied present fails (by simp [Reply.foreseen, isCreated, known])
      | none => exact .unforeseen present fails (by simp [Reply.foreseen, isCreated, known])

private theorem requested_transition {client : RedfishClient} {call retryCount : Nat}
    (present : client.calls[call]? = some (.requesting retryCount)) (reply : Reply) :
    Transition client (.answered call reply) (client.requested call retryCount reply) := by
  have quiet : client.answer (.answered call reply) = none := by simp [answer, present]
  cases reply with
  | transportError => exact .moved present rfl rfl quiet
  | response =>
    simp only [requested]
    split
    · exact .moved present rfl rfl quiet
    · split
      · exact refreshToken_transition present rfl _ quiet
      · exact .moved present rfl rfl quiet

theorem transition_of_step {client next : RedfishClient} {event : RedfishEvent}
    (stepped : client.step event = some next) : Transition client event next := by
  revert stepped
  fun_cases RedfishClient.step client event
  all_goals rintro ⟨⟩
  case case1 => exact .called .direct rfl
  case case2 => exact .called (.execute 0) rfl
  case case3 call present => exact refreshToken_transition present rfl .direct rfl
  case case4 call retryCount present =>
    exact .moved present rfl (nextRound_outside retryCount) rfl
  case case5 call called caller present => exact .reused present
  case case7 call reply post called caller present => exact posted_transition present reply
  case case8 call reply retryCount present => exact requested_transition present reply

variable {call : Call}

theorem mem_setCall {client : RedfishClient} {index : Nat} {new : Call}
    (member : call ∈ (client.setCall index new).calls) : call = new ∨ call ∈ client.calls :=
  (mem_or_eq_of_mem_set member).symm

theorem post?_eq_none_of_outside (idle : call.outside = true) : call.post? = none := by
  cases call <;> first | rfl | cases idle

theorem fetch?_eq_none_of_outside (idle : call.outside = true) : call.fetch? = none := by
  cases call <;> first | rfl | cases idle

/-! ## Waiting calls -/

/-- The fetch that a call executes or waits for is the one in the slot, and at
most one call executes it. -/
structure Coherent (client : RedfishClient) : Prop where
  single : client.running.length ≤ 1
  slot : ∀ call ∈ client.calls, ∀ fetch, call.fetch? = some fetch →
    client.tokenFetchInProgress = some fetch

theorem mem_running {client : RedfishClient} {post : Nat} :
    post ∈ client.running ↔ ∃ called caller, .posting post called caller ∈ client.calls := by
  rw [running, mem_filterMap]
  constructor
  · rintro ⟨call, member, executes⟩
    cases call with
    | posting other called caller =>
      obtain rfl := Option.some.inj executes
      exact ⟨called, caller, member⟩
    | spawned | requesting | waiting | woken | returned | thrown => cases executes
  · rintro ⟨_, _, member⟩
    exact ⟨_, member, rfl⟩

section Coherent

variable {client : RedfishClient} {index post : Nat} {called : Moment} {caller : Caller}

variable {call new : Call}

theorem running_eq_nil (noFetch : ∀ call ∈ client.calls, call.fetch? = none) :
    client.running = [] := by
  refine filterMap_eq_nil_iff.mpr ?_
  intro call member
  have none := noFetch call member
  cases call <;> first | rfl | cases none

theorem running_append (client : RedfishClient) (caller : Caller) :
    ({ client with calls := client.calls ++ [.spawned caller] } : RedfishClient).running =
      client.running := by
  rw [running, filterMap_append]
  exact append_nil _

theorem running_setCall {old : Call} (present : client.calls[index]? = some old)
    (before : old.post? = none) (after : new.post? = none) :
    (client.setCall index new).running.Perm client.running := by
  have moved := Tally.filterMap_set_perm Call.post? present new
  rw [before, after, Option.toList_none, append_nil, append_nil] at moved
  exact moved

theorem wake_of_fetch?_eq_none (fetch : Nat) (noFetch : call.fetch? = none) :
    call.wake fetch = call := by
  cases call with
  | waiting => cases noFetch
  | spawned | requesting | posting | woken | returned | thrown => rfl

theorem afterRefresh_outside (result : Option String) (caller : Caller) :
    (afterRefresh result caller).outside = true := by
  cases caller with
  | direct => rfl
  | execute retryCount =>
    cases result with
    | none => rfl
    | some => exact nextRound_outside retryCount

variable (coherent : client.Coherent)

include coherent

theorem Coherent.fetch?_eq_none (free : client.tokenFetchInProgress = none)
    (member : call ∈ client.calls) : call.fetch? = none := by
  cases inFetch : call.fetch? with
  | none => rfl
  | some fetch =>
    have taken := coherent.slot call member fetch inFetch
    rw [free] at taken
    cases taken

theorem Coherent.setCall {old : Call} (present : client.calls[index]? = some old)
    (before : old.post? = none) (after : new.post? = none)
    (taken : ∀ fetch, new.fetch? = some fetch → client.tokenFetchInProgress = some fetch) :
    (client.setCall index new).Coherent := by
  refine ⟨?_, ?_⟩
  · rw [(running_setCall present before after).length_eq]
    exact coherent.single
  · intro call member fetch inFetch
    rcases mem_setCall member with rfl | inCalls
    · exact taken fetch inFetch
    · exact coherent.slot call inCalls fetch inFetch

section

variable (present : client.calls[index]? = some (.posting post called caller))

include present

theorem Coherent.running_eq_nil_of_posting (after : new.post? = none) :
    (client.setCall index new).running = [] := by
  have moved := Tally.filterMap_set_perm Call.post? present new
  have shorter := moved.length_eq
  have atMostOne : (client.calls.filterMap Call.post?).length ≤ 1 := coherent.single
  rw [after] at shorter
  simp only [Call.post?, Option.toList_some, Option.toList_none, append_nil,
    length_append, length_singleton] at shorter
  have nothing : (client.calls.set index new).filterMap Call.post? = [] :=
    length_eq_zero_iff.mp (by omega)
  exact nothing

theorem Coherent.released (noFetch : new.fetch? = none)
    (member : call ∈ (client.calls.map (Call.wake post)).set index new) :
    call = new ∨ call ∈ client.calls ∧ call.fetch? = none ∨
      ∃ called caller, .waiting post called caller ∈ client.calls ∧
        call = .woken called caller := by
  have noPost : new.post? = none := by
    cases new <;> first | rfl | cases noFetch
  rw [← wake_of_fetch?_eq_none post noFetch, ← map_set] at member
  obtain ⟨before, inSet, rfl⟩ := mem_map.mp member
  rcases (mem_or_eq_of_mem_set inSet).symm with rfl | inCalls
  · exact .inl (wake_of_fetch?_eq_none post noFetch)
  · refine .inr ?_
    have unposted := filterMap_eq_nil_iff.mp
      (coherent.running_eq_nil_of_posting present noPost) before inSet
    cases before with
    | posting => cases unposted
    | waiting other calledThen callerThen =>
      have inPost := coherent.slot _ (mem_of_getElem? present) post rfl
      have inOther := coherent.slot _ inCalls other rfl
      obtain rfl := Option.some.inj (inPost.symm.trans inOther)
      exact .inr ⟨calledThen, callerThen, inCalls, by simp [Call.wake]⟩
    | spawned | requesting | woken | returned | thrown => exact .inl ⟨inCalls, rfl⟩

theorem Coherent.of_released {next : RedfishClient} (noFetch : new.fetch? = none)
    (calls : next.calls = (client.calls.map (Call.wake post)).set index new) :
    next.Coherent ∧ next.running = [] := by
  have noneLeft : ∀ call ∈ next.calls, call.fetch? = none := by
    intro call member
    rw [calls] at member
    rcases coherent.released present noFetch member with rfl | ⟨-, none⟩ | ⟨_, _, -, rfl⟩
    · exact noFetch
    · exact none
    · rfl
  have idle : next.running = [] := running_eq_nil noneLeft
  refine ⟨⟨by simp [idle], ?_⟩, idle⟩
  intro call member fetch inFetch
  rw [noneLeft call member] at inFetch
  cases inFetch

end

theorem Coherent.step {next : RedfishClient} {event : RedfishEvent}
    (stepped : client.step event = some next) : next.Coherent := by
  cases transition_of_step stepped with
  | called caller =>
    refine ⟨(running_append client caller).symm ▸ coherent.single, ?_⟩
    exact forall_mem_append.mpr ⟨coherent.slot, forall_mem_singleton.mpr nofun⟩
  | moved present before after =>
    exact coherent.setCall present (post?_eq_none_of_outside before)
      (post?_eq_none_of_outside after) (by simp [fetch?_eq_none_of_outside after])
  | joined _ present before taken =>
    refine coherent.setCall present (post?_eq_none_of_outside before) rfl ?_
    intro fetch inFetch
    obtain rfl := Option.some.inj inFetch
    exact taken
  | fetching caller present before free =>
    refine ⟨?_, ?_⟩
    · have moved := Tally.filterMap_set_perm Call.post? present
        (.posting client.started client.moment caller)
      have idle : client.calls.filterMap Call.post? = [] :=
        running_eq_nil fun _ member => coherent.fetch?_eq_none free member
      rw [post?_eq_none_of_outside before, idle, Option.toList_none, append_nil] at moved
      exact Nat.le_of_eq moved.length_eq
    · intro call member fetch inFetch
      rcases mem_setCall member with rfl | inCalls
      · exact inFetch
      · rw [coherent.fetch?_eq_none free inCalls] at inFetch
        cases inFetch
  | @reused _ _ caller present =>
    have after := afterRefresh_outside (some client.token) caller
    have moved := coherent.setCall present rfl (post?_eq_none_of_outside after)
      (by simp [fetch?_eq_none_of_outside after])
    exact ⟨moved.single, moved.slot⟩
  | denied present =>
    exact (coherent.of_released present
      (fetch?_eq_none_of_outside (afterRefresh_outside none _)) rfl).1
  | unforeseen present =>
    exact (coherent.of_released present (show Call.thrown.fetch? = none from rfl) rfl).1
  | tokenless present =>
    refine ⟨?_, ?_⟩
    · have idle := coherent.running_eq_nil_of_posting present
        (show Call.thrown.post? = none from rfl)
      exact Nat.le_trans (Nat.le_of_eq (congrArg List.length idle)) (Nat.zero_le 1)
    · intro call member fetch inFetch
      rcases mem_setCall member with rfl | inCalls
      · cases inFetch
      · exact coherent.slot call inCalls fetch inFetch
  | granted token present =>
    exact (coherent.of_released present
      (fetch?_eq_none_of_outside (afterRefresh_outside (some token) _)) rfl).1

end Coherent

/-! ## Issued tokens -/

/-- A POST that was running when a call was made, or was started afterwards, was
answered with 201 and this token. -/
def Issued (called : Moment) (token : String) : Prop :=
  ∃ post, (post, Reply.response created (some token)) ∈ client.finished ∧
    (post ∈ called.running ∨ called.started ≤ post)

/-- No fetch is given up while another call waits for it. -/
def admits : RedfishEvent → Bool
  | .answered index reply =>
    match client.calls[index]? with
    | some (.posting post _ _) =>
      !reply.fails || client.calls.all fun call =>
        match call with
        | .waiting fetch _ _ => fetch != post
        | _ => true
    | _ => true
  | _ => true

def Admitted (event : RedfishEvent) : Prop := client.admits event = true
deriving Decidable

def Valid : Call → Prop
  | .posting post called _ => called.started ≤ post
  | .waiting fetch called _ =>
    (fetch ∈ client.running → fetch ∈ called.running) ∧ called.started ≤ client.started
  | .woken called _ =>
    client.Issued called client.token ∧ called.started ≤ client.started ∧
      ∀ post ∈ client.running, called.started ≤ post
  | _ => True

structure Sound (client : RedfishClient) : Prop extends Coherent client where
  valid : ∀ call ∈ client.calls, client.Valid call
  honest : ∀ result ∈ client.refreshed, ∀ token, result.token = some token →
    client.Issued result.called token

theorem valid_of_outside (idle : call.outside = true) : client.Valid call := by
  cases call <;> trivial

theorem Issued.mono {client next : RedfishClient} {called : Moment} {token : String}
    (issued : client.Issued called token)
    (recorded : client.finished ⊆ next.finished) : next.Issued called token := by
  obtain ⟨post, answered, inTime⟩ := issued
  exact ⟨post, recorded answered, inTime⟩

theorem Valid.mono {client next : RedfishClient} (valid : client.Valid call)
    (sameToken : next.token = client.token) (sameStarted : next.started = client.started)
    (recorded : client.finished ⊆ next.finished)
    (noNewPost : ∀ post ∈ next.running, post ∈ client.running) : next.Valid call := by
  cases call with
  | posting => exact valid
  | waiting fetch =>
    exact ⟨fun runs => valid.1 (noNewPost fetch runs), sameStarted.symm ▸ valid.2⟩
  | woken =>
    obtain ⟨issued, earlier, later⟩ := valid
    exact ⟨sameToken.symm ▸ issued.mono recorded, sameStarted.symm ▸ earlier,
      fun post runs => later post (noNewPost post runs)⟩
  | spawned | requesting | returned | thrown => trivial

section Sound

variable {client next : RedfishClient} {index post : Nat} {called : Moment} {caller : Caller}

theorem no_waiting_of_admitted {reply : Reply}
    (present : client.calls[index]? = some (.posting post called caller))
    (fails : reply.fails = true) (admitted : client.Admitted (.answered index reply))
    (calledThen : Moment) (callerThen : Caller) :
    .waiting post calledThen callerThen ∉ client.calls := by
  intro member
  simp only [Admitted, admits, present, fails, Bool.not_true, Bool.false_or,
    all_eq_true] at admitted
  simpa using admitted _ member

theorem returnToken_token {result : Option String}
    (current : result = none ∨ result = some client.token) :
    (client.returnToken index called caller result).token = client.token := by
  cases caller with
  | direct => rfl
  | execute => rcases current with rfl | rfl <;> rfl

variable (sound : client.Sound)

include sound

theorem Sound.valid_of_released
    (present : client.calls[index]? = some (.posting post called caller)) {new : Call}
    (noFetch : new.fetch? = none) (validNew : next.Valid new)
    (calls : next.calls = (client.calls.map (Call.wake post)).set index new)
    (sameStarted : next.started = client.started) {token : String} (current : next.token = token)
    (wokenBefore : ∀ called caller, .woken called caller ∈ client.calls → next.Issued called token)
    (wokenNow : ∀ called caller, .waiting post called caller ∈ client.calls →
      next.Issued called token) :
    ∀ call ∈ next.calls, next.Valid call := by
  subst current
  have idle : next.running = [] := (sound.toCoherent.of_released present noFetch calls).2
  have noPost : ∀ called : Moment, ∀ post ∈ next.running, called.started ≤ post := by
    simp [idle]
  intro call member
  rw [calls] at member
  rcases sound.toCoherent.released present noFetch member with
    rfl | ⟨inCalls, none⟩ | ⟨calledThen, callerThen, inCalls, rfl⟩
  · exact validNew
  · cases call with
    | posting | waiting => cases none
    | woken calledThen =>
      have before := sound.valid _ inCalls
      exact ⟨wokenBefore _ _ inCalls, sameStarted.symm ▸ before.2.1, noPost calledThen⟩
    | spawned | requesting | returned | thrown => trivial
  · have before := sound.valid _ inCalls
    exact ⟨wokenNow _ _ inCalls, sameStarted.symm ▸ before.2, noPost calledThen⟩

theorem Sound.issued_of_woken (recorded : client.finished ⊆ next.finished) (called : Moment)
    (caller : Caller) (woken : .woken called caller ∈ client.calls) :
    next.Issued called client.token :=
  (sound.valid _ woken).1.mono recorded

theorem Sound.honest_append (recorded : client.finished ⊆ next.finished) {result : Refreshed}
    (refreshed : next.refreshed = client.refreshed ++ [result])
    (issued : ∀ token, result.token = some token → next.Issued result.called token) :
    ∀ result ∈ next.refreshed, ∀ token, result.token = some token →
      next.Issued result.called token := by
  rw [refreshed]
  refine forall_mem_append.mpr ⟨?_, forall_mem_singleton.mpr issued⟩
  intro other earlier token returned
  exact (sound.honest other earlier token returned).mono recorded

theorem Sound.valid_of_set {new : Call}
    (calls : next.calls = client.calls.set index new) (validNew : next.Valid new)
    (sameToken : next.token = client.token) (sameStarted : next.started = client.started)
    (recorded : client.finished ⊆ next.finished)
    (noNewPost : ∀ post ∈ next.running, post ∈ client.running) :
    ∀ call ∈ next.calls, next.Valid call := by
  intro call member
  rw [calls] at member
  rcases (mem_or_eq_of_mem_set member).symm with rfl | inCalls
  · exact validNew
  · exact (sound.valid call inCalls).mono sameToken sameStarted recorded noNewPost

variable {event : RedfishEvent} (stepped : client.step event = some next)

include stepped

theorem Sound.valid_step (admitted : client.Admitted event) :
    ∀ call ∈ next.calls, next.Valid call := by
  cases transition_of_step stepped with
  | called caller =>
    refine forall_mem_append.mpr ⟨?_, forall_mem_singleton.mpr trivial⟩
    intro call inCalls
    exact (sound.valid call inCalls).mono rfl rfl (Subset.refl _)
      fun post runs => running_append client caller ▸ runs
  | moved present before after =>
    have same := running_setCall present (post?_eq_none_of_outside before)
      (post?_eq_none_of_outside after)
    exact sound.valid_of_set rfl (valid_of_outside _ after) rfl rfl (Subset.refl _)
      fun _ runs => same.mem_iff.mp runs
  | @joined _ _ fetch _ caller present before =>
    have same := running_setCall present (post?_eq_none_of_outside before)
      (show (Call.waiting fetch client.moment caller).post? = none from rfl)
    exact sound.valid_of_set rfl ⟨fun runs => same.mem_iff.mp runs, Nat.le_refl _⟩ rfl rfl
      (Subset.refl _) fun _ runs => same.mem_iff.mp runs
  | fetching _ _ _ free =>
    intro call member
    rcases mem_setCall member with rfl | inCalls
    · exact Nat.le_refl _
    · have valid := sound.valid call inCalls
      have noFetch := sound.toCoherent.fetch?_eq_none free inCalls
      cases call with
      | posting | waiting => cases noFetch
      | woken =>
        obtain ⟨issued, earlier, -⟩ := valid
        refine ⟨issued, Nat.le_succ_of_le earlier, ?_⟩
        intro post runs
        obtain ⟨_, _, executes⟩ := mem_running.mp runs
        rcases mem_setCall executes with same | inOld
        · obtain ⟨rfl, -, -⟩ := Call.posting.inj same
          exact earlier
        · cases sound.toCoherent.fetch?_eq_none free inOld
      | spawned | requesting | returned | thrown => trivial
  | @reused _ _ caller present =>
    have after := afterRefresh_outside (some client.token) caller
    have same := running_setCall present rfl (post?_eq_none_of_outside after)
    exact sound.valid_of_set rfl (valid_of_outside _ after) (returnToken_token (.inr rfl)) rfl
      (Subset.refl _) fun _ runs => same.mem_iff.mp runs
  | @denied _ _ _ caller _ present fails =>
    have after := afterRefresh_outside none caller
    refine sound.valid_of_released present (fetch?_eq_none_of_outside after)
      (valid_of_outside _ after) rfl rfl (returnToken_token (.inl rfl))
      (sound.issued_of_woken (subset_append_left ..)) fun _ _ inCalls => ?_
    exact absurd inCalls (no_waiting_of_admitted present fails admitted _ _)
  | unforeseen present fails =>
    refine sound.valid_of_released present (show Call.thrown.fetch? = none from rfl) trivial
      rfl rfl rfl (sound.issued_of_woken (subset_append_left ..)) fun _ _ inCalls => ?_
    exact absurd inCalls (no_waiting_of_admitted present fails admitted _ _)
  | tokenless present =>
    have idle := sound.running_eq_nil_of_posting present (show Call.thrown.post? = none from rfl)
    refine sound.valid_of_set rfl trivial rfl rfl (subset_append_left ..) ?_
    intro post runs
    have runsNow : post ∈ (client.setCall _ .thrown).running := runs
    rw [idle] at runsNow
    cases runsNow
  | @granted index post called caller token present =>
    have after := afterRefresh_outside (some token) caller
    have executes : post ∈ client.running :=
      mem_running.mpr ⟨called, caller, mem_of_getElem? present⟩
    refine sound.valid_of_released present (fetch?_eq_none_of_outside after)
      (valid_of_outside _ after) rfl rfl (returnToken_token (.inr rfl)) ?_ ?_
    · intro _ _ inCalls
      exact ⟨post, mem_append_right _ mem_cons_self,
        .inr ((sound.valid _ inCalls).2.2 post executes)⟩
    · intro _ _ inCalls
      exact ⟨post, mem_append_right _ mem_cons_self,
        .inl ((sound.valid _ inCalls).1 executes)⟩

theorem Sound.honest_step :
    ∀ result ∈ next.refreshed, ∀ token, result.token = some token →
      next.Issued result.called token := by
  cases transition_of_step stepped with
  | called | moved | joined | fetching => exact sound.honest
  | unforeseen | tokenless =>
    intro result member token returned
    exact (sound.honest result member token returned).mono (subset_append_left ..)
  | @reused _ _ _ present =>
    refine sound.honest_append (Subset.refl _) rfl ?_
    intro token returned
    obtain rfl := Option.some.inj returned
    exact (sound.valid _ (mem_of_getElem? present)).1
  | denied =>
    refine sound.honest_append (subset_append_left ..) rfl ?_
    intro token returned
    cases returned
  | @granted _ post _ _ _ present =>
    refine sound.honest_append (subset_append_left ..) rfl ?_
    intro other returned
    obtain rfl := Option.some.inj returned
    exact ⟨post, mem_append_right _ mem_cons_self,
      .inr (sound.valid _ (mem_of_getElem? present))⟩

theorem Sound.step (admitted : client.Admitted event) : next.Sound :=
  ⟨sound.toCoherent.step stepped, sound.valid_step stepped admitted, sound.honest_step stepped⟩

end Sound

theorem sound_create (token : String) : ({ token } : RedfishClient).Sound :=
  ⟨⟨Nat.zero_le 1, forall_mem_nil _⟩, forall_mem_nil _, forall_mem_nil _⟩

/-- If no fetch is given up while another call waits for it, every token returned was
issued to a POST that was running when the call was made or started later, and one
POST at a time is in flight. -/
theorem refreshed_tokens_issued (initialToken : String) {events : List RedfishEvent}
    {client : RedfishClient} (run : Run step Admitted { token := initialToken } events client) :
    (∀ result ∈ client.refreshed, ∀ token, result.token = some token →
      client.Issued result.called token) ∧ client.running.length ≤ 1 := by
  have sound : client.Sound :=
    run.preserves (sound_create initialToken) fun _ _ _ before admitted stepped =>
      before.step stepped admitted
  exact ⟨sound.honest, sound.single⟩

theorem refreshed_tokens_issued_shared :
    ∃ client : RedfishClient, exec step { token := "" }
        [.refreshToken, .execute, .resume 0, .resume 1, .answered 1 (.response 401 none),
          .answered 0 (.response 201 (some "t")), .resume 1] = some client ∧
      (∀ result ∈ client.refreshed, ∀ token, result.token = some token →
        client.Issued result.called token) ∧ client.running.length ≤ 1 := by
  refine Exists.imp (fun client run => ⟨run.exec_eq, refreshed_tokens_issued "" run⟩)
    (exists_run_of_within ?_)
  decide

/-- The one POST is answered with 401, and the call that waited for it returns
the old token as a success. -/
theorem refreshed_token_not_issued :
    ∃ client : RedfishClient, exec step { token := "old" }
        [.refreshToken, .refreshToken, .resume 0, .resume 1, .answered 0 (.response 401 none),
          .resume 1] = some client ∧ client.finished = [(0, .response 401 none)] ∧
      { called := { started := 1, running := [0] }, token := some "old" } ∈ client.refreshed := by
  exact ⟨_, rfl, rfl, by decide⟩

/-! ## Returning calls -/

/-- No `refreshToken` has thrown, and a fetch that holds the slot or is waited
for is being executed. -/
structure NeverStuck (client : RedfishClient) : Prop where
  unthrown : ∀ call ∈ client.calls, call ≠ .thrown
  executed : ∀ fetch, client.tokenFetchInProgress = some fetch → fetch ∈ client.running
  awaited : ∀ fetch called caller, .waiting fetch called caller ∈ client.calls →
    fetch ∈ client.running

/-- A reply that ends a POST is one after which `refreshToken` returns. -/
def Foreseen (event : RedfishEvent) : Prop :=
  (client.answer event).all Reply.foreseen = true
deriving Decidable

section NeverStuck

variable {client next : RedfishClient} {index post : Nat} {called : Moment} {caller : Caller}

theorem Coherent.neverStuck (coherent : client.Coherent)
    (unthrown : ∀ call ∈ client.calls, call ≠ .thrown)
    (executed : ∀ fetch, client.tokenFetchInProgress = some fetch → fetch ∈ client.running) :
    client.NeverStuck :=
  ⟨unthrown, executed, fun fetch _ _ member =>
    executed fetch (coherent.slot _ member fetch rfl)⟩

theorem ne_thrown_of_outside {call : Call} (idle : call.outside = true) : call ≠ .thrown := by
  rintro rfl
  cases idle

theorem NeverStuck.of_setCall (stuckless : client.NeverStuck) (coherent : next.Coherent)
    {old new : Call} (present : client.calls[index]? = some old) (before : old.post? = none)
    (after : new.post? = none) (unthrown : new ≠ .thrown)
    (calls : next.calls = client.calls.set index new)
    (slot : next.tokenFetchInProgress = client.tokenFetchInProgress) : next.NeverStuck := by
  refine coherent.neverStuck ?_ ?_
  · intro call member
    rw [calls] at member
    rcases mem_setCall member with rfl | inCalls
    · exact unthrown
    · exact stuckless.unthrown call inCalls
  · intro fetch taken
    have same : next.running = (client.setCall index new).running :=
      congrArg (List.filterMap Call.post?) calls
    rw [same, (running_setCall present before after).mem_iff]
    exact stuckless.executed fetch (slot ▸ taken)

theorem NeverStuck.of_released (stuckless : client.NeverStuck) (before : client.Coherent)
    (present : client.calls[index]? = some (.posting post called caller)) {new : Call}
    (idle : new.outside = true)
    (calls : next.calls = (client.calls.map (Call.wake post)).set index new)
    (free : next.tokenFetchInProgress = none) : next.NeverStuck := by
  have noFetch := fetch?_eq_none_of_outside idle
  refine (before.of_released present noFetch calls).1.neverStuck ?_ ?_
  · intro call member
    rw [calls] at member
    rcases before.released present noFetch member with rfl | ⟨inCalls, -⟩ | ⟨_, _, -, rfl⟩
    · exact ne_thrown_of_outside idle
    · exact stuckless.unthrown call inCalls
    · exact Call.noConfusion
  · intro fetch taken
    rw [free] at taken
    cases taken

theorem not_neverStuck_of_thrown (member : .thrown ∈ client.calls) : ¬client.NeverStuck :=
  fun stuckless => stuckless.unthrown _ member rfl

private theorem mem_set_of_getElem? {calls : List Call} {old : Call} (new : Call)
    (present : calls[index]? = some old) : new ∈ calls.set index new := by
  obtain ⟨bound, -⟩ := List.getElem?_eq_some_iff.mp present
  exact List.mem_set bound new

theorem NeverStuck.step_iff {event : RedfishEvent} (stuckless : client.NeverStuck)
    (coherent : client.Coherent) (stepped : client.step event = some next) :
    next.NeverStuck ↔ client.Foreseen event := by
  have after := coherent.step stepped
  cases transition_of_step stepped with
  | called caller quiet =>
    refine iff_of_true (after.neverStuck ?_ ?_) (by simp [Foreseen, quiet])
    · exact forall_mem_append.mpr
        ⟨stuckless.unthrown, forall_mem_singleton.mpr Call.noConfusion⟩
    · intro fetch taken
      rw [running_append client caller]
      exact stuckless.executed fetch taken
  | moved present before idle quiet =>
    refine iff_of_true ?_ (by simp [Foreseen, quiet])
    exact stuckless.of_setCall after present (post?_eq_none_of_outside before)
      (post?_eq_none_of_outside idle) (ne_thrown_of_outside idle) rfl rfl
  | joined _ present before _ quiet =>
    refine iff_of_true ?_ (by simp [Foreseen, quiet])
    exact stuckless.of_setCall after present (post?_eq_none_of_outside before) rfl
      Call.noConfusion rfl rfl
  | fetching _ present _ _ quiet =>
    refine iff_of_true (after.neverStuck ?_ ?_) (by simp [Foreseen, quiet])
    · intro call member
      rcases mem_setCall member with rfl | inCalls
      · exact Call.noConfusion
      · exact stuckless.unthrown call inCalls
    · intro fetch taken
      obtain rfl := Option.some.inj taken
      exact mem_running.mpr ⟨_, _, mem_set_of_getElem? _ present⟩
  | @reused _ _ caller present =>
    have idle := afterRefresh_outside (some client.token) caller
    refine iff_of_true ?_ rfl
    exact stuckless.of_setCall after present rfl (post?_eq_none_of_outside idle)
      (ne_thrown_of_outside idle) rfl rfl
  | @denied _ _ _ caller _ present _ foreseen =>
    have idle := afterRefresh_outside none caller
    refine iff_of_true ?_ (by simp [Foreseen, answer, present, foreseen])
    exact stuckless.of_released coherent present idle rfl rfl
  | @unforeseen index post _ _ _ present _ surprising =>
    have woken : (client.calls.map (Call.wake post))[index]? = _ :=
      getElem?_map.trans (congrArg _ present)
    refine iff_of_false (not_neverStuck_of_thrown (mem_set_of_getElem? _ woken)) ?_
    simp [Foreseen, answer, present, surprising]
  | tokenless present =>
    refine iff_of_false (not_neverStuck_of_thrown (mem_set_of_getElem? _ present)) ?_
    simp [Foreseen, answer, present, Reply.foreseen]
  | @granted _ _ _ caller token present =>
    have idle := afterRefresh_outside (some token) caller
    refine iff_of_true ?_ (by simp [Foreseen, answer, present, Reply.foreseen])
    exact stuckless.of_released coherent present idle rfl rfl

end NeverStuck

/-- No `refreshToken` throws, and the slot is taken only during its POST, exactly when
every POST ends with a transport error, a status of `http_error_to_string`, or 201
with an `X-Auth-Token`. -/
theorem never_stuck_iff_foreseen (initialToken : String) {events : List RedfishEvent}
    {client : RedfishClient} (executed : exec step { token := initialToken } events = some client) :
    Along step (fun _ _ next => next.NeverStuck) { token := initialToken } events ↔
      Run step Foreseen { token := initialToken } events client := by
  have coherent : ({ token := initialToken } : RedfishClient).Coherent :=
    (sound_create initialToken).toCoherent
  have stuckless : ({ token := initialToken } : RedfishClient).NeverStuck :=
    coherent.neverStuck (forall_mem_nil _) fun _ taken => by cases taken
  refine along_iff_run (fun client => client.Coherent ∧ client.NeverStuck)
    ⟨coherent, stuckless⟩ executed ?_ ?_
  · rintro _ _ _ ⟨coherent, stuckless⟩ foreseen stepped
    exact ⟨coherent.step stepped, (stuckless.step_iff coherent stepped).mpr foreseen⟩
  · rintro _ _ _ ⟨coherent, stuckless⟩ stepped
    exact stuckless.step_iff coherent stepped

theorem never_stuck_iff_foreseen_refused :
    ∃ client : RedfishClient, exec step { token := "" }
        [.refreshToken, .resume 0, .answered 0 (.response 401 none), .refreshToken, .resume 1,
          .answered 1 (.response 201 (some "t"))] = some client ∧
      Along step (fun _ _ next => next.NeverStuck) { token := "" }
        [.refreshToken, .resume 0, .answered 0 (.response 401 none), .refreshToken, .resume 1,
          .answered 1 (.response 201 (some "t"))] := by
  refine Exists.imp (fun client run => ⟨run.exec_eq,
    (never_stuck_iff_foreseen "" run.exec_eq).mpr run⟩) (exists_run_of_within ?_)
  decide

/-- After 403 `refreshToken` throws. After 201 without an `X-Auth-Token` it
throws with the slot still taken, and the next call waits for a POST that nobody
executes. -/
theorem stuck_after_unforeseen_reply :
    (∃ client : RedfishClient, exec step { token := "" }
        [.refreshToken, .resume 0, .answered 0 (.response 403 none)] = some client ∧
      client.calls = [.thrown]) ∧
    ∃ client : RedfishClient, exec step { token := "" }
        [.refreshToken, .resume 0, .answered 0 (.response 201 none), .refreshToken,
          .resume 1] = some client ∧
      client.calls = [.thrown, .waiting 0 { started := 1, running := [] } .direct] ∧
      client.tokenFetchInProgress = some 0 ∧ client.running = [] ∧ client.step (.resume 1) = none :=
  ⟨⟨_, rfl, rfl⟩, ⟨_, rfl, rfl, rfl, rfl, rfl⟩⟩

end RedfishClient

end Coroserver.Redfish
