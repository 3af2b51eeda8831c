import Coroserver.Event.Framing

/-! `readHeader` always finds the next header, but drops what was read past it. -/

namespace Coroserver.Event

open Segmentation List

def Clean (message : Bytes) : Prop :=
  splitAfter headerDelim (sendHeader message) = some (sendHeader message, [])
deriving Decidable

variable {segments : List Bytes} {delim header buffer rest message : Bytes}

theorem read_spec {capacity : Nat} {rest : List Bytes} {data : Bytes}
    (done : read capacity segments = some (data, rest)) :
    segments.flatten = data ++ rest.flatten ∧ data.length ≤ capacity := by
  cases segments with
  | nil => simp [read] at done
  | cons =>
    simp only [read] at done
    split at done
    · next fits =>
      cases done
      exact ⟨rfl, fits⟩
    · cases done
      refine ⟨?_, length_take_le _ _⟩
      rw [flatten_cons, flatten_cons, ← append_assoc, take_append_drop]

theorem rawReads_initial (capacities : List Nat) (segments : List Bytes) :
    rawReads capacities segments <+: segments.flatten := by
  induction capacities generalizing segments with
  | nil => exact nil_prefix
  | cons capacity _ ih =>
    cases done : read capacity segments with
    | none => simp [rawReads, done]
    | some result =>
      obtain ⟨data, rest⟩ := result
      simp only [rawReads, done]
      rw [(read_spec done).1]
      exact (prefix_append_right_inj data).mpr (ih rest)

theorem read_progress {capacity : Nat} (positive : 0 < capacity)
    (nonempty : ∀ segment ∈ segments, segment ≠ []) (more : segments ≠ []) :
    ∃ data rest, read capacity segments = some (data, rest) ∧ data ≠ [] ∧
      ∀ segment ∈ rest, segment ≠ [] := by
  cases segments with
  | nil => exact absurd rfl more
  | cons segment others =>
    have here : segment ≠ [] := nonempty segment (by simp)
    by_cases fits : segment.length ≤ capacity
    · exact ⟨segment, others, by simp [read, fits], here,
        fun other later => nonempty other (by simp [later])⟩
    · refine ⟨segment.take capacity, segment.drop capacity :: others, by simp [read, fits], ?_, ?_⟩
      · simp only [ne_eq, take_eq_nil_iff, not_or]
        exact ⟨by omega, here⟩
      · intro other present
        rcases mem_cons.mp present with rfl | later
        · simpa using Nat.lt_of_not_le fits
        · exact nonempty other (by simp [later])

theorem rawReads_complete {capacities : List Nat} (positive : ∀ capacity ∈ capacities, 0 < capacity)
    (nonempty : ∀ segment ∈ segments, segment ≠ [])
    (enough : segments.flatten.length ≤ capacities.length) :
    rawReads capacities segments = segments.flatten := by
  induction capacities generalizing segments with
  | nil =>
    have nothing := length_eq_zero_iff.mp (Nat.le_zero.mp enough)
    rw [nothing]
    rfl
  | cons capacity others ih =>
    by_cases more : segments = []
    · subst more
      rfl
    · obtain ⟨data, rest, done, progress, restNonempty⟩ :=
        read_progress (positive capacity (by simp)) nonempty more
      have whole := (read_spec done).1
      have shorter : rest.flatten.length ≤ others.length := by
        have gained := length_pos_of_ne_nil progress
        rw [whole, length_append, length_cons] at enough
        omega
      simp only [rawReads, done]
      rw [ih (fun other later => positive other (by simp [later])) restNonempty shorter, whole]

def Yields (segments : List Bytes) (bytes : Bytes) : Prop :=
  ∀ capacities : List Nat, (∀ capacity ∈ capacities, 0 < capacity) →
    rawReads capacities segments <+: bytes ∧
      (bytes.length ≤ capacities.length → rawReads capacities segments = bytes)

theorem yields_iff (nonempty : ∀ segment ∈ segments, segment ≠ []) (bytes : Bytes) :
    Yields segments bytes ↔ segments.flatten = bytes := by
  constructor
  · intro yields
    have single : ∀ capacity ∈ replicate (segments.flatten.length + bytes.length) 1,
        0 < capacity := by simp
    obtain ⟨-, all⟩ := yields _ single
    rw [← rawReads_complete single nonempty (by simp)]
    exact all (by simp)
  · rintro rfl capacities positive
    exact ⟨rawReads_initial capacities segments, rawReads_complete positive nonempty⟩

def Delimited (delim header : Bytes) : Prop := splitAfter delim header = some (header, [])

theorem headerDelim_le_sendHeader (message : Bytes) :
    (sendHeader message).length = message.length + headerDelim.length := by
  simp [sendHeader]

theorem Delimited.split {unread : Bytes} (delimited : Delimited delim header)
    (stream : buffer ++ unread = header ++ rest) (long : header.length ≤ buffer.length) :
    ∃ excess, buffer = header ++ excess ∧ splitAfter delim buffer = some (header, excess) := by
  have starts : header <+: buffer := by
    refine prefix_of_prefix_length_le ?_ (prefix_append buffer unread) long
    rw [stream]
    exact prefix_append _ _
  obtain ⟨excess, rfl⟩ := starts
  exact ⟨excess, rfl, splitAfter_append delimited excess⟩

theorem Delimited.no_split {unread : Bytes} (delimited : Delimited delim header)
    (stream : buffer ++ unread = header ++ rest) (short : buffer.length < header.length) :
    splitAfter delim buffer = none := by
  have starts : buffer <+: header := by
    refine prefix_of_prefix_length_le ?_ (prefix_append _ rest) (Nat.le_of_lt short)
    rw [← stream]
    exact prefix_append _ _
  obtain ⟨missing, complete⟩ := starts
  cases found : splitAfter delim buffer with
  | none => rfl
  | some split =>
    obtain ⟨_, _⟩ := split
    have whole := splitAfter_append found missing
    rw [complete, delimited] at whole
    simp only [Option.some.injEq, Prod.mk.injEq] at whole
    have nothing : missing = [] := (append_eq_nil_iff.mp whole.2.symm).2
    rw [← complete, nothing, append_nil] at short
    omega

theorem asyncReadUntil_found {found after : Bytes}
    (split : splitAfter delim buffer = some (found, after)) (segments : List Bytes) :
    asyncReadUntil delim buffer segments = some (buffer, found.length, segments) := by
  cases segments <;> simp [asyncReadUntil, split]

theorem Delimited.asyncReadUntil_eq (delimited : Delimited delim header)
    (stream : buffer ++ segments.flatten = header ++ rest) (short : buffer.length < header.length) :
    ∃ taken left, segments = taken ++ left ∧
      asyncReadUntil delim buffer segments = some (buffer ++ taken.flatten, header.length, left) ∧
      header.length ≤ (buffer ++ taken.flatten).length ∧
      (EndsAt segments (header.length - buffer.length) ↔
        (buffer ++ taken.flatten).length = header.length) := by
  induction segments generalizing buffer with
  | nil =>
    have lengths := congrArg List.length stream
    simp only [flatten_nil, append_nil, length_append] at lengths
    omega
  | cons segment others ih =>
    rw [flatten_cons, ← append_assoc] at stream
    have notYet : splitAfter delim buffer = none :=
      delimited.no_split ((append_assoc _ _ _).symm.trans stream) short
    have reads : asyncReadUntil delim buffer (segment :: others) =
        asyncReadUntil delim (buffer ++ segment) others := by
      simp [asyncReadUntil, notYet]
    rw [reads]
    by_cases reached : header.length ≤ (buffer ++ segment).length
    · obtain ⟨_, -, split⟩ := delimited.split stream reached
      refine ⟨[segment], others, rfl, ?_, by simpa using reached, ?_⟩
      · rw [asyncReadUntil_found split]
        simp
      · rw [length_append] at reached
        simp only [flatten_cons, flatten_nil, append_nil, length_append]
        constructor
        · rintro ⟨count, ends⟩
          cases count with
          | zero =>
            simp only [take_zero, flatten_nil, length_nil] at ends
            omega
          | succ =>
            simp only [take_succ_cons, flatten_cons, length_append] at ends
            omega
        · intro _
          refine ⟨1, ?_⟩
          simp only [take_succ_cons, take_zero, flatten_cons, flatten_nil,
            append_nil]
          omega
    · obtain ⟨taken, left, rfl, result, longEnough, ends⟩ := ih stream (Nat.lt_of_not_le reached)
      refine ⟨segment :: taken, left, rfl, ?_, ?_, ?_⟩
      · rw [result]
        simp
      · simpa using longEnough
      · rw [length_append] at reached ends
        have shifted := endsAt_append_iff [segment] (taken ++ left)
          (header.length - (buffer.length + segment.length))
        have position : [segment].flatten.length +
            (header.length - (buffer.length + segment.length)) = header.length - buffer.length := by
          simp only [flatten_cons, flatten_nil, append_nil]
          omega
        rw [position] at shifted
        rw [flatten_cons, ← append_assoc, ← ends]
        exact shifted

theorem Clean.readHeader_taken (clean : Clean message)
    (stream : segments.flatten = sendHeader message ++ rest) :
    ∃ taken left, segments = taken ++ left ∧ readHeader segments = some (message, left) ∧
      sendHeader message <+: taken.flatten ∧ (EndsAt segments (sendHeader message).length ↔
        taken.flatten.length = (sendHeader message).length) := by
  have positive : ([] : Bytes).length < (sendHeader message).length := by
    simp [sendHeader, headerDelim]
  obtain ⟨taken, left, rfl, result, long, ends⟩ := Delimited.asyncReadUntil_eq clean stream positive
  have starts : sendHeader message <+: taken.flatten := by
    refine prefix_of_prefix_length_le (stream ▸ prefix_append _ rest) ?_
      (by simpa using long)
    rw [flatten_append]
    exact prefix_append _ _
  refine ⟨taken, left, rfl, ?_, starts, by simpa using ends⟩
  obtain ⟨_, whole⟩ := starts
  simp only [readHeader, readUntil, result, nil_append]
  rw [← whole, take_left, headerDelim_le_sendHeader, Nat.add_sub_cancel, sendHeader,
    take_left]

theorem Clean.readHeader_eq (clean : Clean message)
    (stream : segments.flatten = sendHeader message ++ rest) :
    ∃ taken left, segments = taken ++ left ∧ readHeader segments = some (message, left) ∧
      (EndsAt segments (sendHeader message).length ↔
        taken.flatten.length = (sendHeader message).length) := by
  obtain ⟨taken, left, shape, result, -, ends⟩ := clean.readHeader_taken stream
  exact ⟨taken, left, shape, result, ends⟩

theorem Clean.readHeader_rest (clean : Clean message)
    (stream : segments.flatten = sendHeader message ++ rest) :
    ∃ left, readHeader segments = some (message, left) ∧ left.flatten <:+ rest := by
  obtain ⟨taken, left, rfl, result, ⟨excess, whole⟩, -⟩ := clean.readHeader_taken stream
  refine ⟨left, result, excess, ?_⟩
  rw [flatten_append, ← whole, append_assoc] at stream
  exact append_cancel_left stream

/-- The first `count` headers are returned in order, and raw reads after them
return what follows. -/
def Delivered (messages : List Bytes) (tail : Bytes) (segments : List Bytes)
    (count : Nat) : Prop :=
  ∃ left, readHeaders count segments = some (messages.take count, left) ∧
    Yields left ((messages.drop count).flatMap sendHeader ++ tail)

theorem delivered_succ_iff {left : List Bytes}
    (first : readHeader segments = some (message, left)) (messages : List Bytes)
    (tail : Bytes) (count : Nat) :
    Delivered (message :: messages) tail segments (count + 1) ↔
      Delivered messages tail left count := by
  simp only [Delivered, readHeaders, first, take_succ_cons, drop_succ_cons]
  cases readHeaders count left with
  | none => simp
  | some result =>
    obtain ⟨_, _⟩ := result
    simp

theorem Clean.endsAt_of_delivered (clean : Clean message) {messages : List Bytes}
    {tail : Bytes} (nonempty : ∀ segment ∈ segments, segment ≠ [])
    (sent : segments.flatten = sendHeader message ++ (messages.flatMap sendHeader ++ tail))
    (delivered : Delivered (message :: messages) tail segments 1) :
    EndsAt segments (sendHeader message).length := by
  obtain ⟨taken, left, rfl, first, ends⟩ := clean.readHeader_eq sent
  obtain ⟨_, received, yields⟩ := (delivered_succ_iff first messages tail 0).mp delivered
  simp only [readHeaders, take_zero, Option.some.injEq, Prod.mk.injEq, true_and] at received
  subst received
  have leftNonempty : ∀ segment ∈ left, segment ≠ [] :=
    fun segment present => nonempty segment (mem_append_right _ present)
  have complete := congrArg List.length ((yields_iff leftNonempty _).mp yields)
  have lengths := congrArg List.length sent
  simp only [flatten_append, length_append, drop_zero] at complete lengths
  exact ends.mpr (by omega)

/-- A sequence of headers arrives unharmed, and what follows can be read, exactly if every header
ends where a segment ends. -/
theorem headers_delivered_iff (messages : List Bytes) (tail : Bytes)
    (segments : List Bytes) (clean : ∀ message ∈ messages, Clean message)
    (nonempty : ∀ segment ∈ segments, segment ≠ [])
    (sent : segments.flatten = messages.flatMap sendHeader ++ tail) :
    (∀ count ≤ messages.length, Delivered messages tail segments count) ↔
      ∀ count ≤ messages.length,
        EndsAt segments ((messages.take count).flatMap sendHeader).length := by
  induction messages generalizing segments with
  | nil =>
    have unread : Delivered [] tail segments 0 := ⟨segments, rfl, (yields_iff nonempty _).mpr sent⟩
    constructor
    · intro _ count atMost
      simpa [Nat.le_zero.mp atMost] using endsAt_zero segments
    · intro _ count atMost
      exact Nat.le_zero.mp atMost ▸ unread
  | cons message others ih =>
    have firstClean := clean message (by simp)
    rw [flatMap_cons, append_assoc] at sent
    have unread : Delivered (message :: others) tail segments 0 := by
      refine ⟨segments, rfl, (yields_iff nonempty _).mpr ?_⟩
      simpa using sent
    obtain ⟨taken, left, rfl, first, ends⟩ := firstClean.readHeader_eq sent
    have onlyFirst : ((message :: others).take 1).flatMap sendHeader = sendHeader message := by
      simp
    by_cases aligned : taken.flatten.length = (sendHeader message).length
    · have rest : left.flatten = others.flatMap sendHeader ++ tail := by
        rw [flatten_append] at sent
        exact (append_inj sent aligned).2
      have later := ih left (fun other present => clean other (by simp [present]))
        (fun segment present => nonempty segment (mem_append_right _ present)) rest
      have shifted : ∀ count, EndsAt (taken ++ left)
          (((message :: others).take (count + 1)).flatMap sendHeader).length ↔
            EndsAt left ((others.take count).flatMap sendHeader).length := by
        intro count
        rw [take_succ_cons, flatMap_cons, length_append, ← aligned]
        exact endsAt_append_iff taken left _
      constructor
      · intro delivered count atMost
        cases count with
        | zero => exact endsAt_zero _
        | succ count =>
          refine (shifted count).mpr (later.mp (fun other bounded => ?_) count
            (Nat.le_of_succ_le_succ atMost))
          exact (delivered_succ_iff first others tail other).mp
            (delivered (other + 1) (Nat.succ_le_succ bounded))
      · intro boundaries count atMost
        cases count with
        | zero => exact unread
        | succ count =>
          refine (delivered_succ_iff first others tail count).mpr
            (later.mpr (fun other bounded => ?_) count (Nat.le_of_succ_le_succ atMost))
          exact (shifted other).mp (boundaries (other + 1) (Nat.succ_le_succ bounded))
    · have misaligned : ¬ EndsAt (taken ++ left) (sendHeader message).length :=
        fun boundary => aligned (ends.mp boundary)
      constructor
      · intro delivered
        have boundary := firstClean.endsAt_of_delivered nonempty sent (delivered 1 (by simp))
        exact absurd boundary misaligned
      · intro boundaries
        have boundary := boundaries 1 (by simp)
        rw [onlyFirst] at boundary
        exact absurd boundary misaligned

theorem headers_delivered_in_three_segments :
    Delivered [[97], [98]] [1, 2] [[97, 13, 10, 13, 10], [98, 13], [10, 13, 10], [1, 2]] 1 ∧
      Delivered [[97], [98]] [1, 2] [[97, 13, 10, 13, 10], [98, 13], [10, 13, 10], [1, 2]] 2 := by
  have boundaries : ∀ count ≤ 2,
      EndsAt ([[97, 13, 10, 13, 10], [98, 13], [10, 13, 10], [1, 2]] : List Bytes)
        ((List.take count [[97], [98]]).flatMap sendHeader).length := by
    intro count atMost
    match count, atMost with
    | 0, _ => exact ⟨0, by decide⟩
    | 1, _ => exact ⟨1, by decide⟩
    | 2, _ => exact ⟨3, by decide⟩
  have delivered := (headers_delivered_iff [[97], [98]] [1, 2]
    [[97, 13, 10, 13, 10], [98, 13], [10, 13, 10], [1, 2]]
    (by decide) (by decide) (by decide)).mpr boundaries
  exact ⟨delivered 1 (by decide), delivered 2 (by decide)⟩

theorem second_header_lost_in_one_segment :
    Clean [97] ∧ Clean [98] ∧ readHeaders 2 [[97, 13, 10, 13, 10, 98, 13, 10, 13, 10]] = none := by
  decide

end Coroserver.Event
