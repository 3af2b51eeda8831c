import Coroserver.Http.SseProperties
import Coroserver.Http.Subscription
import Coroserver.Http.TargetProperties

/-! The query on its way to the server, and the payloads on their way back. -/

namespace Coroserver.Http

open List

private theorem forall_byte {property : UInt8 → Prop}
    (all : ∀ value : Fin 256, property (UInt8.ofFin value)) (c : UInt8) : property c :=
  all c.toFin

theorem isUnreserved_plain : ∀ c : UInt8, isUnreserved c = true →
    c ≠ plus ∧ c ≠ percent ∧ isPlain c = true :=
  forall_byte (by decide +kernel)

theorem hexDigit_plain : ∀ c : UInt8,
    isPlain (hexDigit (c >>> 4)) = true ∧ isPlain (hexDigit (c &&& 0x0F)) = true :=
  forall_byte (by decide +kernel)

private theorem hexByte_hexDigit : ∀ c : UInt8,
    hexByte (hexDigit (c >>> 4)) (hexDigit (c &&& 0x0F)) = some c :=
  forall_byte (by decide +kernel)

private theorem urlDecode_encodeByte (c : UInt8) (rest : Bytes) :
    urlDecode (encodeByte c ++ rest) = c :: urlDecode rest := by
  rw [encodeByte]
  split
  · rename_i copied
    obtain ⟨notPlus, notPercent, -⟩ := isUnreserved_plain c copied
    rw [singleton_append, urlDecode.eq_def]
    simp [if_neg notPlus, if_neg notPercent]
  · simp only [cons_append, nil_append]
    rw [urlDecode, if_neg (by decide), if_pos rfl]
    simp [hexByte_hexDigit]

theorem urlDecode_urlEncode (s : Bytes) : urlDecode (urlEncode s) = s := by
  induction s with
  | nil => rfl
  | cons c rest ih =>
    rw [urlEncode, flatMap_cons, urlDecode_encodeByte]
    exact congrArg (c :: ·) ih

theorem separatorFree_urlEncode (s : Bytes) : separatorFree (urlEncode s) = true := by
  rw [separatorFree, all_eq_true]
  intro byte member
  obtain ⟨c, -, inEncoding⟩ := mem_flatMap.mp member
  rw [encodeByte] at inEncoding
  split at inEncoding
  · rename_i copied
    obtain rfl := mem_singleton.mp inEncoding
    exact (isUnreserved_plain byte copied).2.2
  · obtain ⟨high, low⟩ := hexDigit_plain c
    simp only [mem_cons, not_mem_nil, or_false] at inEncoding
    obtain rfl | rfl | rfl := inEncoding
    · decide
    · exact high
    · exact low

private theorem isUnreserved_digitChar : ∀ digit < 16,
    isUnreserved (Nat.digitChar digit).toUInt8 = true := by
  decide

variable {number : Nat} {c : Char} {byte : UInt8} {line content : Bytes}

theorem exists_digitChar_of_mem_toDigits {base : Nat} (radix : 1 < base)
    (member : c ∈ Nat.toDigits base number) : ∃ digit < base, c = Nat.digitChar digit := by
  induction number using Nat.strongRecOn with
  | ind number ih =>
    by_cases short : number < base
    · rw [Nat.toDigits_of_lt_base short, mem_singleton] at member
      exact ⟨number, short, member⟩
    · rw [Nat.toDigits_of_base_le radix (Nat.le_of_not_lt short), mem_append,
        mem_singleton] at member
      obtain higher | last := member
      · exact ih (number / base) (Nat.div_lt_self (by omega) radix) higher
      · exact ⟨number % base, Nat.mod_lt _ (by omega), last⟩

private theorem isUnreserved_of_mem_toDigits (member : c ∈ Nat.toDigits 10 number) :
    isUnreserved c.toUInt8 = true := by
  obtain ⟨digit, small, rfl⟩ := exists_digitChar_of_mem_toDigits (by decide) member
  exact isUnreserved_digitChar digit (by omega)

theorem isUnreserved_of_mem_decimal {value : Int} (member : byte ∈ decimal value) :
    isUnreserved byte = true := by
  obtain ⟨c, inText, rfl⟩ := mem_map.mp member
  cases value with
  | ofNat number =>
    have digits : (toString (Int.ofNat number)).toList = Nat.toDigits 10 number := by
      simp [toString, Int.repr, Nat.repr]
    rw [digits] at inText
    exact isUnreserved_of_mem_toDigits inText
  | negSucc number =>
    have digits : (toString (Int.negSucc number)).toList = '-' :: Nat.toDigits 10 (number + 1) := by
      simp [toString, Int.repr, Nat.repr]
    rw [digits, mem_cons] at inText
    obtain rfl | inDigits := inText
    · decide
    · exact isUnreserved_of_mem_toDigits inDigits

private theorem urlEncode_eq_self {s : Bytes} (copied : ∀ c ∈ s, isUnreserved c = true) :
    urlEncode s = s := by
  induction s with
  | nil => rfl
  | cons c rest ih =>
    rw [urlEncode, flatMap_cons, encodeByte, if_pos (copied c mem_cons_self)]
    exact congrArg (c :: ·) (ih fun other later => copied other (mem_cons_of_mem _ later))

private theorem urlEncode_decimal (value : Int) : urlEncode (decimal value) = decimal value :=
  urlEncode_eq_self fun _ member => isUnreserved_of_mem_decimal member

private theorem parseFunction_subscribeParams (query : Bytes) (interval : Int) :
    parseFunction (buildTarget subscribeTarget (subscribeParams query interval)) =
      { name := subscribeTarget,
        params := [(ascii "interval", decimal interval), (ascii "query", query)] } := by
  have interval_free : separatorFree (decimal interval) = true :=
    urlEncode_decimal interval ▸ separatorFree_urlEncode (decimal interval)
  have interval_read : urlDecode (decimal interval) = decimal interval := by
    have decoded := urlDecode_urlEncode (decimal interval)
    rwa [urlEncode_decimal] at decoded
  rw [buildTarget, subscribeParams, buildParams, if_pos rfl,
    parseFunction_append (by decide) (by decide),
    parseParams_cons (by decide) (by decide) interval_free, interval_read]
  have query_read := parseParams_cons (by decide : ascii "query" ≠ []) (by decide)
    (separatorFree_urlEncode query) []
  rw [urlDecode_urlEncode] at query_read
  exact congrArg
    (fun params => HttpFunction.mk subscribeTarget ((ascii "interval", decimal interval) :: params))
    query_read

/-- The server reads back the query that the client has encoded. -/
theorem parseFunction_subscribe (query : Bytes) (interval : Int) :
    ∃ func, parseFunction (buildTarget subscribeTarget (subscribeParams query interval)) = func ∧
      func.name = ascii "/graphql/subscribe" ∧ func.get (ascii "query") = query ∧
      func.get (ascii "interval") = decimal interval := by
  have others : (ascii "interval" == ascii "query") = false := by decide
  refine ⟨_, parseFunction_subscribeParams query interval, rfl, ?_, ?_⟩
  · simp only [HttpFunction.get, find?_cons, others, beq_self_eq_true]
    split <;> simp_all
  · simp only [HttpFunction.get, find?_cons, beq_self_eq_true]
    split <;> simp_all

open Segmentation (splitAfter splitAfter_append_of_not_mem)

theorem splitAfter_line {rest found after : Bytes} (oneLine : newline ∉ line)
    (continues : rest.head? ≠ some newline)
    (next : splitAfter frameDelimiter rest = some (found, after)) :
    splitAfter frameDelimiter (line ++ newline :: rest) =
      some (line ++ newline :: found, after) := by
  have notHere : ¬ frameDelimiter.isPrefixOf (newline :: rest) = true := by
    intro starts
    obtain ⟨tail, shape⟩ := isPrefixOf_iff_prefix.mp starts
    obtain rfl := (List.cons.inj shape).2
    exact continues rfl
  rw [frameDelimiter, splitAfter_append_of_not_mem oneLine, ← frameDelimiter, splitAfter,
    if_neg notHere, next]
  rfl

private theorem digitChar_toUInt8 : ∀ digit < 16, (Nat.digitChar digit).toUInt8 ≠ newline ∧
    (Nat.digitChar digit).toUInt8 ≠ carriageReturn ∧
      (Nat.digitChar digit).toUInt8 ≠ 't'.toUInt8 := by
  decide

theorem chunkSize_digits {buf : Bytes} (member : byte ∈ chunkSize buf) :
    byte ≠ newline ∧ byte ≠ carriageReturn ∧ byte ≠ 't'.toUInt8 := by
  obtain ⟨c, inDigits, rfl⟩ := mem_map.mp member
  obtain ⟨digit, small, rfl⟩ := exists_digitChar_of_mem_toDigits (by decide) inDigits
  exact digitChar_toUInt8 digit small

private theorem handleLines_line (oneLine : newline ∉ content) (line rest : Bytes) :
    handleLines line (content ++ newline :: rest) =
      handleLine (line ++ content) ++ handleFrame rest := by
  induction content generalizing line with
  | nil =>
    rw [nil_append, handleLines, if_pos rfl, append_nil]
    rfl
  | cons _ _ ih =>
    obtain ⟨notNewline, inOthers⟩ := not_or.mp (mem_cons.not.mp oneLine)
    rw [cons_append, handleLines, if_neg (Ne.symm notNewline), ih inOthers,
      append_assoc, singleton_append]

theorem handleFrame_line (oneLine : newline ∉ content) (rest : Bytes) :
    handleFrame (content ++ newline :: rest) = handleLine content ++ handleFrame rest := by
  rw [handleFrame, if_neg (by simp), handleLines_line oneLine, nil_append]

theorem handleLine_size (buf : Bytes) :
    handleLine (chunkSize buf ++ [carriageReturn]) = [] := by
  have noData : dataPrefix.isPrefixOf (chunkSize buf) = false := by
    rw [← Bool.not_eq_true, isPrefixOf_iff_prefix]
    intro starts
    have inSize : 't'.toUInt8 ∈ chunkSize buf := starts.subset (by decide)
    exact (chunkSize_digits inSize).2.2 rfl
  simp [handleLine, noData]

variable {payload lead : Bytes}

theorem handleLine_data (ends : payload.getLast? ≠ some carriageReturn) :
    handleLine (dataPrefix ++ payload) = [payload] := by
  have kept : (dataPrefix ++ payload).getLast? ≠ some carriageReturn := by
    cases payload with
    | nil => decide
    | cons c others => rwa [getLast?_append_of_ne_nil _ (cons_ne_nil c others)]
  simp only [handleLine, if_neg kept]
  rw [if_pos <| isPrefixOf_iff_prefix.mpr (prefix_append _ _), drop_left]

inductive Lead : Bytes → Prop where
  | first : Lead []
  | later : Lead crlf

def framePiece (lead payload : Bytes) : Bytes :=
  lead ++ (chunkSize (dataPrefix ++ payload ++ frameDelimiter) ++ [carriageReturn]) ++
    newline :: (dataPrefix ++ payload ++ frameDelimiter)

theorem framePiece_append (lead payload rest : Bytes) :
    lead ++ sseWrite payload ++ rest = framePiece lead payload ++ (crlf ++ rest) := by
  simp [framePiece, sseWrite, makeChunk, crlf]

private theorem newline_not_mem_size (buf : Bytes) :
    newline ∉ chunkSize buf ++ [carriageReturn] := by
  refine not_mem_append (fun inSize => ?_) (by decide)
  exact (chunkSize_digits inSize).1 rfl

private theorem newline_not_mem_data (oneLine : newline ∉ payload) :
    newline ∉ dataPrefix ++ payload :=
  not_mem_append (by decide) oneLine

theorem handleFrame_framePiece (leads : Lead lead) (oneLine : newline ∉ payload)
    (ends : payload.getLast? ≠ some carriageReturn) :
    handleFrame (framePiece lead payload) = [payload] := by
  have inner : handleFrame (framePiece [] payload) = [payload] := by
    rw [framePiece, nil_append, handleFrame_line (newline_not_mem_size _), handleLine_size,
      nil_append, frameDelimiter, handleFrame_line (newline_not_mem_data oneLine),
      handleLine_data ends]
    rfl
  cases leads with
  | first => exact inner
  | later =>
    have outer := handleFrame_line (by decide : newline ∉ [carriageReturn]) (framePiece [] payload)
    rw [inner] at outer
    exact outer

private theorem head_ne_of_not_mem {c : UInt8} (absent : c ∉ line) (nonempty : line ≠ [])
    (rest : Bytes) : (line ++ rest).head? ≠ some c := by
  rw [head?_append_of_ne_nil _ nonempty]
  intro first
  exact absent (mem_of_mem_head? first)

theorem splitAfter_framePiece (leads : Lead lead) (oneLine : newline ∉ payload) (rest : Bytes) :
    splitAfter frameDelimiter (framePiece lead payload ++ rest) =
      some (framePiece lead payload, rest) := by
  have data : splitAfter frameDelimiter (dataPrefix ++ payload ++ frameDelimiter ++ rest) =
      some (dataPrefix ++ payload ++ frameDelimiter, rest) := by
    rw [append_assoc, frameDelimiter,
      splitAfter_append_of_not_mem (newline_not_mem_data oneLine)]
    rfl
  have inner : splitAfter frameDelimiter (framePiece [] payload ++ rest) =
      some (framePiece [] payload, rest) := by
    have continues : (dataPrefix ++ payload ++ frameDelimiter ++ rest).head? ≠ some newline := by
      rw [append_assoc, append_assoc]
      exact head_ne_of_not_mem (by decide) (by decide) _
    rw [framePiece, nil_append, append_assoc, cons_append]
    exact splitAfter_line (newline_not_mem_size _) continues data
  cases leads with
  | first => exact inner
  | later =>
    have continues : (framePiece [] payload ++ rest).head? ≠ some newline := by
      rw [framePiece, nil_append, append_assoc]
      exact head_ne_of_not_mem (newline_not_mem_size _) (by simp) _
    exact splitAfter_line (by decide : newline ∉ [carriageReturn]) continues inner

theorem pieces_sseBody {payloads : List Bytes} (leads : Lead lead) (oneLine : ∀ payload ∈ payloads,
      newline ∉ payload ∧ payload.getLast? ≠ some carriageReturn) (returned : Bool) :
    ∃ frames rest, pieces frameDelimiter payloads.length (lead ++ sseBody payloads returned) =
        some (frames, rest) ∧ splitAfter frameDelimiter rest = none ∧
      frames.map handleFrame = payloads.map fun payload => [payload] := by
  induction payloads generalizing lead with
  | nil => exact ⟨[], _, rfl, by cases leads <;> cases returned <;> decide, rfl⟩
  | cons payload others ih =>
    obtain ⟨inLine, ends⟩ := oneLine payload mem_cons_self
    obtain ⟨frames, rest, cut, finished, handled⟩ :=
      ih .later fun other later => oneLine other (mem_cons_of_mem _ later)
    refine ⟨framePiece lead payload :: frames, rest, ?_, finished, ?_⟩
    · have shape : lead ++ sseBody (payload :: others) returned =
          framePiece lead payload ++ (crlf ++ sseBody others returned) := by
        rw [← framePiece_append, sseBody, flatMap_cons]
        simp [sseBody]
      simp [pieces, shape, splitAfter_framePiece leads inLine, cut]
    · rw [map_cons, map_cons, handled, handleFrame_framePiece leads inLine ends]

/-- The client dispatches the payloads that the server has written; the sizes of the chunks are
not mistaken for something else. -/
theorem payloads_dispatched {payloads : List Bytes} (oneLine : ∀ payload ∈ payloads,
      newline ∉ payload ∧ payload.getLast? ≠ some carriageReturn)
    (returned : Bool) {client : HttpClient}
    (arrives : client.remaining = sseBody payloads returned) :
    ∃ frames last, client.readFrames frameDelimiter payloads.length = some (frames, last) ∧
      last.readUntil frameDelimiter = none ∧
      frames.map handleFrame = payloads.map fun payload => [payload] := by
  obtain ⟨_, _, cut, finished, handled⟩ := pieces_sseBody .first oneLine returned
  rw [nil_append, ← arrives, ← HttpClient.readFrames_eq] at cut
  obtain ⟨⟨read, last⟩, reads, same⟩ := Option.map_eq_some_iff.mp cut
  obtain ⟨rfl, rfl⟩ := Prod.mk.inj same
  have noMore := last.readUntil_eq frameDelimiter
  rw [finished] at noMore
  exact ⟨read, last, reads, Option.map_eq_none_iff.mp noMore, handled⟩

theorem payloads_dispatched_two :
    ∃ frames last, HttpClient.readFrames frameDelimiter 2
        { segments := [ascii "8\r\nda", ascii "ta: \n\n\r\na\r\ndata: \x7b\x7d\n",
            ascii "\n\r\n0\r\n\r\n"] } = some (frames, last) ∧
      last.readUntil frameDelimiter = none ∧ frames.map handleFrame = [[[]], [ascii "\x7b\x7d"]] :=
  @payloads_dispatched [[], ascii "\x7b\x7d"] (by decide) true _ (by decide)

end Coroserver.Http
