import Coroserver.Http.FrameProducer
import Coroserver.Http.SseProperties

/-! `readUntil` sets no deadline, so the one that `readResponseHeader` has set is in force while
frames are read. -/

namespace Coroserver.Http

open Segmentation Machine Option

variable {count : Nat} {body rest : Bytes} {frames : List Bytes}

theorem pieces_append {delim : Bytes} (cut : pieces delim count body = some (frames, rest))
    (more : Bytes) : pieces delim count (body ++ more) = some (frames, rest ++ more) := by
  induction count generalizing body frames with
  | zero =>
    obtain ⟨rfl, rfl⟩ := Prod.mk.inj (some.inj cut)
    rfl
  | succ count ih =>
    rw [pieces] at cut
    split at cut
    · cases cut
    · rename_i piece after found
      split at cut
      · cases cut
      · rename_i others left inRest
        obtain ⟨rfl, rfl⟩ := Prod.mk.inj (some.inj cut)
        simp [pieces, splitAfter_append found, ih inRest]

theorem pieces_succ {delim : Bytes} {piece after : Bytes}
    (cut : pieces delim count body = some (frames, rest))
    (found : splitAfter delim rest = some (piece, after)) :
    pieces delim (count + 1) body = some (frames ++ [piece], after) := by
  induction count generalizing body frames with
  | zero =>
    obtain ⟨rfl, rfl⟩ := Prod.mk.inj (some.inj cut)
    simp [pieces, found]
  | succ count ih =>
    rw [pieces] at cut
    split at cut
    · cases cut
    · rename_i first left inBody
      split at cut
      · cases cut
      · rename_i others last inRest
        obtain ⟨rfl, rfl⟩ := Prod.mk.inj (some.inj cut)
        rw [pieces, inBody]
        simp [ih inRest]

theorem SseStream.post_posted (stream : SseStream) (frame : SseFrame) :
    (stream.post frame).posted = stream.posted ++ [frame] := by
  obtain ⟨_, consumer, _⟩ := stream
  cases consumer <;> rfl

namespace StreamClient

/-- The frames that have been posted are the first pieces of what has arrived
of the body. A producer that waits or has ended has left none out, and it ends
with the error that the connection ended with. -/
def Streams (delim : Bytes) (s : StreamClient) : Prop :=
  ∃ frames : List Bytes,
    pieces delim frames.length s.body = some (frames, s.client.remaining) ∧
      match s.phase with
      | .ended => ∃ ec, s.closed = some ec ∧ splitAfter delim s.client.remaining = none ∧
          s.stream.posted = frames.map (fun frame => { data := frame }) ++ [{ ec := some ec }]
      | .waiting => splitAfter delim s.client.remaining = none ∧
          s.stream.posted = frames.map fun frame => { data := frame }
      | _ => s.stream.posted = frames.map fun frame => { data := frame }

/-- The read that completes the header ends with it, and the clock does not
reach the deadline while `frameProducer` runs. -/
def Admitted (s : StreamClient) : StreamEvent → Prop
  | .header _ excess => excess = []
  | .tick => s.phase = .reading ∨ s.phase = .waiting → s.now + 1 < s.deadline
  | .sent | .arrive _ | .close _ | .resume => True

instance (s : StreamClient) (event : StreamEvent) : Decidable (s.Admitted event) :=
  match event with
  | .header _ _ => inferInstanceAs (Decidable (_ = _))
  | .tick => inferInstanceAs (Decidable (_ → _))
  | .sent | .arrive _ | .close _ | .resume => instDecidableTrue

structure Sound (delim : Bytes) (s : StreamClient) : Prop where
  streams : s.Streams delim
  timely : s.phase ≠ .rejected → s.phase ≠ .ended → s.now < s.deadline
  idle : s.phase = .waiting → s.client.segments = []

variable {delim : Bytes} {s next : StreamClient}

theorem sound_sendRequest (delim : Bytes) (now : Nat) : (sendRequest now).Sound delim := by
  refine ⟨⟨[], rfl, rfl⟩, ?_, fun waits => by cases waits⟩
  intro _ _
  simp [sendRequest, setTimeout]

section

variable (sound : s.Sound delim)

include sound

theorem Sound.readResponseHeader (sends : s.phase = .sending) :
    s.readResponseHeader.Sound delim := by
  obtain ⟨⟨frames, cut, posted⟩, -, -⟩ := sound
  obtain ⟨_, _, phase, _⟩ := s
  obtain rfl : phase = .sending := sends
  refine ⟨⟨frames, cut, posted⟩, ?_, fun waits => by cases waits⟩
  intro _ _
  simp [readResponseHeader, setTimeout]

theorem Sound.headerRead (reads : s.phase = .readingHeader) (statusCode : Nat) :
    (s.headerRead statusCode []).Sound delim := by
  obtain ⟨⟨frames, cut, posted⟩, timely, -⟩ := sound
  obtain ⟨_, _, phase, _⟩ := s
  obtain rfl : phase = .readingHeader := reads
  rw [headerRead]
  split
  · exact ⟨⟨frames, cut, posted⟩, fun valid => absurd rfl valid, fun waits => by cases waits⟩
  · refine ⟨⟨frames, ?_, posted⟩, fun _ _ => timely (by simp) (by simp),
      fun waits => by cases waits⟩
    rw [List.append_nil]
    exact cut

theorem Sound.tick (admitted : s.Admitted .tick) : s.tick.Sound delim := by
  obtain ⟨streams, timely, idle⟩ := sound
  obtain ⟨now, deadline, phase, client, closed, stream, body⟩ := s
  cases phase with
  | sending | readingHeader =>
    simp only [tick]
    split
    · exact ⟨streams, fun valid => absurd rfl valid, fun waits => by cases waits⟩
    · rename_i inTime
      exact ⟨streams, fun _ _ => Nat.lt_of_not_le inTime, idle⟩
  | reading | waiting =>
    have inTime : now + 1 < deadline := admitted (by simp)
    rw [tick, if_neg (Nat.not_le_of_lt inTime)]
    exact ⟨streams, fun _ _ => inTime, idle⟩
  | rejected =>
    simp only [tick, ite_self]
    exact ⟨streams, fun valid => absurd rfl valid, idle⟩
  | ended =>
    simp only [tick, ite_self]
    exact ⟨streams, fun _ runs => absurd rfl runs, idle⟩

theorem Sound.arrive (segment : Bytes) (runs : s.phase = .reading ∨ s.phase = .waiting) :
    (s.arrive segment).Sound delim := by
  obtain ⟨⟨frames, cut, posted⟩, timely, idle⟩ := sound
  have extended := pieces_append cut segment
  obtain ⟨_, _, phase, client, _⟩ := s
  cases phase with
  | reading =>
    refine ⟨⟨frames, ?_, posted⟩, timely, fun waits => by cases waits⟩
    rw [HttpClient.remaining, List.append_assoc] at extended
    simpa [arrive, HttpClient.remaining] using extended
  | waiting =>
    have drained : client.segments = [] := idle rfl
    refine ⟨⟨frames, ?_, posted.2⟩, fun _ _ => timely (by simp) (by simp),
      fun waits => by cases waits⟩
    simpa [arrive, HttpClient.remaining, drained] using extended
  | sending | readingHeader | rejected | ended => simp at runs

theorem Sound.close (ec : ErrorCode) (healthy : s.closed = none) : (s.close ec).Sound delim := by
  obtain ⟨⟨frames, cut, posted⟩, timely, idle⟩ := sound
  obtain ⟨_, _, phase, _, _, stream, _⟩ := s
  cases phase with
  | sending | readingHeader =>
    exact ⟨⟨frames, cut, posted⟩, fun valid => absurd rfl valid, fun waits => by cases waits⟩
  | rejected | reading => exact ⟨⟨frames, cut, posted⟩, timely, idle⟩
  | waiting =>
    obtain ⟨complete, same⟩ := posted
    refine ⟨⟨frames, cut, ec, rfl, complete, ?_⟩, fun _ runs => absurd rfl runs,
      fun waits => by cases waits⟩
    exact (SseStream.post_posted stream _).trans (congrArg (· ++ _) same)
  | ended =>
    obtain ⟨_, failed, -⟩ := posted
    rw [healthy] at failed
    cases failed

theorem Sound.produce (reads : s.phase = .reading) : (s.produce delim).Sound delim := by
  obtain ⟨⟨frames, cut, posted⟩, timely, -⟩ := sound
  obtain ⟨now, deadline, phase, client, closed, stream, body⟩ := s
  obtain rfl : phase = .reading := reads
  have inTime : now < deadline := timely (by simp) (by simp)
  rw [produce]
  split
  · rename_i frame rest found
    refine ⟨⟨frames ++ [frame], ?_, ?_⟩, fun _ _ => inTime, fun waits => by cases waits⟩
    · rw [List.length_append]
      exact pieces_succ cut (splitAfter_append found _)
    · rw [List.map_append]
      exact (SseStream.post_posted stream _).trans (congrArg (· ++ _) posted)
  · rename_i notFound
    rw [if_neg (Nat.not_le_of_lt inTime)]
    split
    · rename_i segment segments arrived
      have shape : client.segments = segment :: segments := arrived
      refine ⟨⟨frames, ?_, posted⟩, fun _ _ => inTime, fun waits => by cases waits⟩
      simpa [HttpClient.remaining, shape] using cut
    · rename_i arrived
      have drained : client.segments = [] := arrived
      have complete : splitAfter delim client.remaining = none := by
        rw [HttpClient.remaining, drained, List.flatten_nil, List.append_nil]
        exact notFound
      split
      · rename_i ec reported
        refine ⟨⟨frames, cut, ec, reported, complete, ?_⟩, fun _ runs => absurd rfl runs,
          fun waits => by cases waits⟩
        exact (SseStream.post_posted stream _).trans (congrArg (· ++ _) posted)
      · exact ⟨⟨frames, cut, complete, posted⟩, fun _ _ => inTime, fun _ => drained⟩

theorem Sound.step {event : StreamEvent} (admitted : s.Admitted event)
    (stepped : s.step delim event = some next) : next.Sound delim := by
  cases event with
  | tick =>
    obtain rfl := some.inj stepped
    exact sound.tick admitted
  | sent =>
    obtain ⟨sends, ⟨⟩⟩ := ite_none_right_eq_some.mp stepped
    exact sound.readResponseHeader sends
  | header statusCode excess =>
    obtain ⟨reads, ⟨⟩⟩ := ite_none_right_eq_some.mp stepped
    obtain rfl : excess = [] := admitted
    exact sound.headerRead reads statusCode
  | arrive segment =>
    obtain ⟨⟨-, runs⟩, ⟨⟩⟩ := ite_none_right_eq_some.mp stepped
    exact sound.arrive segment runs
  | close ec =>
    obtain ⟨healthy, ⟨⟩⟩ := ite_none_right_eq_some.mp stepped
    exact sound.close ec healthy
  | resume =>
    obtain ⟨reads, ⟨⟩⟩ := ite_none_right_eq_some.mp stepped
    exact sound.produce reads

end

/-- All frames are posted unless the stream is still open thirty seconds after the header was
asked for. -/
theorem frames_posted {now : Nat} {events : List StreamEvent} {final : StreamClient}
    (run : Run (step delim) Admitted (sendRequest now) events final) :
    final.Streams delim := by
  have sound : final.Sound delim := run.preserves (sound_sendRequest delim now)
      fun _ _ _ before admitted stepped => before.step admitted stepped
  exact sound.streams

theorem frames_posted_two :
    ∃ final : StreamClient, exec (step [10, 10]) (sendRequest 0)
        [.tick, .sent, .tick, .header 200 [], .resume, .tick, .arrive [1, 10], .resume, .tick,
          .arrive [10, 2], .resume, .resume, .arrive [10, 10], .close .eof, .resume, .resume] =
        some final ∧ final.Streams [10, 10] := by
  refine Exists.imp (fun final run => ⟨run.exec_eq, frames_posted run⟩)
    (exists_run_of_within ?_)
  decide

theorem frames_cut_off :
    ∃ final : StreamClient, exec (step [10, 10]) (sendRequest 0)
        ([.sent, .header 200 [], .resume] ++ List.replicate 30 .tick) = some final ∧
      final.closed = none ∧ final.phase = .ended ∧
      final.stream.posted = [{ ec := some timeoutError }] ∧
      final.step [10, 10] (.arrive [1, 10, 10]) = none ∧ ¬ final.Streams [10, 10] := by
  refine ⟨_, rfl, rfl, rfl, rfl, rfl, ?_⟩
  rintro ⟨_, -, _, reported, -⟩
  cases reported

end StreamClient

end Coroserver.Http
