import Coroserver.Event.FramingProperties
import Coroserver.Http.Sse
import Coroserver.Machine

/-! The mailbox of a stream, and the response that fills it. -/

namespace Coroserver.Http

open List Machine

namespace SseStream

/-- The frames come in posting order, and a `next()` that has a frame to return
is about to return it without another post. -/
def Delivers (stream : SseStream) : Prop :=
  stream.returned <+: stream.posted ∧
    (stream.consumer ≠ .idle →
      ∀ frame, stream.posted[stream.returned.length]? = some frame →
        ∃ next, stream.step .resume = some next ∧ next.returned = stream.returned ++ [frame])

/-- `next()` is called when every frame has been returned, and no frame is
posted to a consumer that has been woken and has not yet resumed. -/
def Admitted (stream : SseStream) : SseEvent → Prop
  | .post _ => stream.consumer ≠ .woken
  | .next => stream.slot = none
  | .resume => True

instance (stream : SseStream) (event : SseEvent) : Decidable (stream.Admitted event) :=
  match event with
  | .post _ => inferInstanceAs (Decidable (_ ≠ _))
  | .next => inferInstanceAs (Decidable (_ = _))
  | .resume => instDecidableTrue

inductive Sound : SseStream → Prop where
  | idle {slot posted returned} :
      returned <+: posted → (slot = none → posted = returned) →
      Sound ⟨slot, .idle, posted, returned⟩
  | waiting {frames} : Sound ⟨none, .waiting, frames, frames⟩
  | woken {frame frames} :
      Sound ⟨some frame, .woken, frames ++ [frame], frames⟩

theorem Sound.step {stream next : SseStream} {event : SseEvent} (sound : stream.Sound)
    (admitted : stream.Admitted event) (stepped : stream.step event = some next) : next.Sound := by
  cases event with
  | post =>
    simp only [SseStream.step, Option.some.injEq] at stepped
    subst stepped
    cases sound with
    | idle inOrder _ =>
      exact .idle (inOrder.trans (prefix_append _ _)) fun empty => by cases empty
    | waiting => exact .woken
    | woken => exact absurd rfl admitted
  | next =>
    cases sound with
    | @idle slot _ _ _ complete =>
      simp only [SseStream.step, Option.some.injEq] at stepped
      subst stepped
      have empty : slot = none := admitted
      subst empty
      obtain rfl := complete rfl
      exact .waiting
    | waiting | woken => cases stepped
  | resume =>
    cases sound with
    | idle | waiting => cases stepped
    | woken =>
      simp only [SseStream.step, Option.some.injEq] at stepped
      subst stepped
      exact .idle (prefix_refl _) fun _ => rfl

theorem Sound.delivers {stream : SseStream} (sound : stream.Sound) : stream.Delivers := by
  cases sound with
  | idle inOrder _ => exact ⟨inOrder, fun active => absurd rfl active⟩
  | waiting =>
    refine ⟨prefix_refl _, ?_⟩
    intro _ frame pending
    simp at pending
  | @woken frame =>
    refine ⟨prefix_append _ _, ?_⟩
    intro _ pendingFrame pending
    have same : frame = pendingFrame := by simpa using pending
    exact ⟨_, rfl, same ▸ rfl⟩

/-- The mailbox delivers a frame that is posted to a consumer who waits for it; a frame that comes
earlier wakes nobody. -/
theorem frames_delivered {events : List SseEvent} {stream : SseStream}
    (run : Run step Admitted {} events stream) : stream.Delivers := by
  have sound : stream.Sound := run.preserves (.idle (prefix_refl _) fun _ => rfl)
      fun _ _ _ before admitted stepped => before.step admitted stepped
  exact sound.delivers

theorem frames_delivered_one_by_one :
    ∃ stream : SseStream, exec step {}
        [.next, .post { data := [1] }, .resume, .next, .post { data := [2] }] = some stream ∧
      stream.Delivers := by
  refine Exists.imp (fun stream run => ⟨run.exec_eq, frames_delivered run⟩)
    (exists_run_of_within ?_)
  decide

/-- A frame that is posted before `next()` is called does not wake it, and of
two frames that are posted to the same wait the first is lost. -/
theorem frames_missed :
    (∃ stream : SseStream, exec step {} [.post { data := [1] }, .next] = some stream ∧
      stream.posted = [{ data := [1] }] ∧ stream.returned = [] ∧ stream.step .resume = none) ∧
    ∃ stream : SseStream, exec step {}
        [.next, .post { data := [1] }, .post { data := [2] }, .resume] = some stream ∧
      stream.posted = [{ data := [1] }, { data := [2] }] ∧ stream.returned = [{ data := [2] }] :=
  ⟨⟨_, rfl, rfl, rfl, rfl⟩, ⟨_, rfl, rfl, rfl⟩⟩

end SseStream

open Event Segmentation

def pieces (delim : Bytes) : Nat → Bytes → Option (List Bytes × Bytes)
  | 0, body => some ([], body)
  | count + 1, body =>
    match splitAfter delim body with
    | none => none
    | some (piece, rest) =>
      match pieces delim count rest with
      | none => none
      | some (others, left) => some (piece :: others, left)

theorem asyncReadUntil_eq_splitAfter (delim buffer : Bytes) (segments : List Bytes) :
    (asyncReadUntil delim buffer segments).map
        (fun result => (result.1.take result.2.1, result.1.drop result.2.1 ++ result.2.2.flatten)) =
      splitAfter delim (buffer ++ segments.flatten) := by
  fun_induction asyncReadUntil delim buffer segments with
  | case1 _ _ _ found | case3 _ _ _ _ _ found =>
    rw [splitAfter_append found, (splitAfter_eq_append found).1]
    simp
  | case2 _ found => simp [found]
  | case4 _ _ _ _ ih => rw [ih, flatten_cons, append_assoc]

namespace HttpClient

theorem readUntil_eq (client : HttpClient) (delim : Bytes) :
    (client.readUntil delim).map (fun result => (result.1, result.2.remaining)) =
      splitAfter delim client.remaining := by
  rw [remaining, ← asyncReadUntil_eq_splitAfter, readUntil]
  cases asyncReadUntil delim client.sseBuffer client.segments <;> rfl

theorem readFrames_eq (delim : Bytes) (count : Nat) (client : HttpClient) :
    (readFrames delim count client).map (fun result => (result.1, result.2.remaining)) =
      pieces delim count client.remaining := by
  induction count generalizing client with
  | zero => rfl
  | succ count ih =>
    rw [readFrames, pieces, ← readUntil_eq]
    cases client.readUntil delim with
    | none => rfl
    | some result =>
      obtain ⟨frame, next⟩ := result
      simp only [Option.map_some, ← ih next]
      cases readFrames delim count next <;> rfl

/-- Every number of frames is read as it is in the body, and after them the
rest of the body is still to come. -/
def Receives (client : HttpClient) (delim body : Bytes) : Prop :=
  ∀ count, (readFrames delim count client).map (fun result => (result.1, result.2.remaining)) =
    pieces delim count body

private theorem receives_iff (client : HttpClient) (delim body : Bytes) :
    client.Receives delim body ↔ client.remaining = body := by
  constructor
  · intro receives
    simpa [readFrames, pieces] using receives 0
  · rintro rfl count
    exact readFrames_eq delim count client

/-- The body is cut into the right frames exactly if the read that completes the header ends with
it. -/
theorem stream_receives_body_iff (statusOf : Bytes → Nat) (delim : Bytes)
    {header body : Bytes} {segments : List Bytes}
    (received : segments.flatten = header ++ body) (delimited : Delimited headerEnd header)
    (accepted : 200 ≤ statusOf header ∧ statusOf header < 300) :
    (∃ client, executeAsStream statusOf { segments } = some client ∧
      client.Receives delim body) ↔ EndsAt segments header.length := by
  have positive : ([] : Bytes).length < header.length := by
    have long := (splitAfter_eq_append delimited).2
    simp only [headerEnd, length_cons, length_nil] at long ⊢
    omega
  obtain ⟨taken, left, rfl, result, long, ends⟩ :=
    Delimited.asyncReadUntil_eq delimited (nil_append _ ▸ received) positive
  rw [flatten_append] at received
  rw [nil_append] at result long ends
  have starts : header <+: taken.flatten :=
    prefix_of_prefix_length_le (received ▸ prefix_append _ _)
      (prefix_append _ left.flatten) long
  have parsed : taken.flatten.take header.length = header :=
    (prefix_iff_eq_take.mp starts).symm
  have opened : executeAsStream statusOf { segments := taken ++ left } =
      some { beastBuffer := taken.flatten.drop header.length, segments := left } := by
    have notRefused : ¬(statusOf header < 200 ∨ statusOf header ≥ 300) := by omega
    simp [executeAsStream, readResponseHeader, result, parsed, if_neg notRefused]
  have aligned : left.flatten = body ↔ taken.flatten.length = header.length := by
    have lengths := congrArg List.length received
    simp only [length_append] at lengths
    constructor
    · rintro rfl
      omega
    · intro sameLength
      exact (append_inj received sameLength).2
  rw [length_nil, Nat.sub_zero] at ends
  rw [opened, ends, ← aligned]
  constructor
  · rintro ⟨_, same, receives⟩
    obtain rfl := Option.some.inj same
    exact (receives_iff _ delim body).mp receives
  · intro whole
    exact ⟨_, rfl, (receives_iff _ delim body).mpr whole⟩

theorem stream_receives_body_after_header :
    ∃ client, executeAsStream (fun _ => 200)
        { segments := [[72, 13, 10], [13, 10], [100, 58, 49, 10], [10, 100, 58, 50, 10, 10]] } =
          some client ∧ client.Receives [10, 10] [100, 58, 49, 10, 10, 100, 58, 50, 10, 10] :=
  have delimited : Delimited headerEnd [72, 13, 10, 13, 10] := rfl
  (stream_receives_body_iff (fun _ => 200) [10, 10] rfl delimited (by decide)).mpr ⟨2, rfl⟩

theorem stream_loses_first_frame :
    ∃ client, executeAsStream (fun _ => 200)
        { segments := [[72, 13, 10, 13, 10, 100, 58, 49, 10, 10], [100, 58, 50, 10, 10]] } =
          some client ∧ (client.readUntil [10, 10]).map Prod.fst = some [100, 58, 50, 10, 10] :=
  ⟨_, rfl, rfl⟩

end HttpClient

end Coroserver.Http
