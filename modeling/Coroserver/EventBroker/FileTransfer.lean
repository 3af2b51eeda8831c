import Coroserver.Event.FramingProperties
import Coroserver.Event.PersistenceProperties
import Coroserver.EventBroker.FileMethods
import Coroserver.Machine

/-! `recieveFile` counts the bytes that it reads, and the stream holds no more than
the header announces. If it returns without an error, all of the content has
been read; the file holds what its writes have taken of it, and an empty file is
not written at all. -/

namespace Coroserver.EventBroker

open Event Machine List
theorem parseEvent_append {id : Bytes} (free : colon ∉ id) (data : Bytes) :
    parseEvent (id ++ colon :: data) = (id, data) := by
  have others : ∀ byte ∈ id, (byte != colon) = true := by
    intro byte member
    simp only [bne_iff_ne]
    exact fun same => free (same ▸ member)
  rw [parseEvent, span_eq_takeWhile_dropWhile, takeWhile_append_of_pos others,
    dropWhile_append_of_pos others]
  simp

variable (fileSize : Nat)

theorem contentSize_eq : contentSize fileSize =
    ascii "Content-Size" ++ colon :: ascii (toString fileSize) := by
  simp only [contentSize, ascii, String.toList_append, map_append]
  rfl

theorem parseEvent_contentSize :
    parseEvent (contentSize fileSize) = (ascii "Content-Size", ascii (toString fileSize)) := by
  rw [contentSize_eq]
  exact parseEvent_append (by decide) _

theorem isExpected_contentSize : isExpected (contentSize fileSize) = true := by
  refine any_eq_true.mpr ⟨ascii "Content-Size", by simp, decide_eq_true ?_⟩
  rw [contentSize_eq]
  exact (prefix_append _ _).isInfix

private theorem toNat_toUInt8_digit {number : Nat} {c : Char}
    (member : c ∈ Nat.toDigits 10 number) : c.toUInt8.toNat = c.toNat ∧ 48 ≤ c.toNat := by
  have digit := Nat.isDigit_of_mem_toDigits (by decide) (by decide) member
  have bounds : 48 ≤ c.toNat ∧ c.toNat ≤ 57 := by
    simpa [Char.isDigit, UInt32.le_iff_toNat_le] using digit
  refine ⟨?_, bounds.1⟩
  rw [Char.toUInt8, UInt32.toNat_toUInt8]
  exact Nat.mod_eq_of_lt (Nat.lt_of_le_of_lt bounds.2 (by decide))

theorem clean_contentSize : Clean (contentSize fileSize) := by
  have free : (13 : UInt8) ∉ contentSize fileSize := by
    rw [contentSize_eq, mem_append, mem_cons, Nat.toString_eq_ofList_toDigits]
    rintro (name | separator | digits)
    · exact absurd name (by decide)
    · exact absurd separator (by decide)
    · obtain ⟨c, member, code⟩ := mem_map.mp digits
      rw [String.toList_ofList] at member
      obtain ⟨sameCode, atLeast⟩ := toNat_toUInt8_digit member
      rw [← sameCode, code] at atLeast
      exact absurd atLeast (by decide)
  rw [Clean, sendHeader, headerDelim, Segmentation.splitAfter_append_of_not_mem free]
  simp [Segmentation.splitAfter, List.isPrefixOf]

private theorem stoullBytes_toString (number : Nat) : stoullBytes (ascii (toString number)) =
    if number < UInt64.size then some (UInt64.ofNat number) else none := by
  have sameText : (ascii (toString number)).map (fun byte => Char.ofNat byte.toNat) =
      (toString number).toList := by
    rw [ascii, map_map]
    refine (map_congr_left ?_).trans (map_id _)
    intro c member
    rw [Nat.toString_eq_ofList_toDigits, String.toList_ofList] at member
    rw [Function.comp_apply, (toNat_toUInt8_digit member).1, Char.ofNat_toNat, id]
  rw [stoullBytes, sameText, String.ofList_toList, stoull_toString_nat]

theorem toNat_of_stoullBytes {number : Nat} {fileSize : UInt64}
    (parsed : stoullBytes (ascii (toString number)) = some fileSize) :
    fileSize.toNat = number := by
  rw [stoullBytes_toString] at parsed
  obtain ⟨fits, same⟩ := Option.ite_none_right_eq_some.mp parsed
  obtain rfl := Option.some.inj same
  exact UInt64.toNat_ofNat_of_lt' fits

theorem writeSome_isPrefix (withheld : Nat) (data : Bytes) :
    writeSome withheld data <+: data :=
  take_prefix _ _

theorem sendChunks_sublist (withheld : Nat → Nat) (round sentSofar : Nat) (chunks : List Bytes) :
    (sendChunks fileSize withheld round sentSofar chunks).Sublist chunks.flatten := by
  induction chunks generalizing round sentSofar with
  | nil => exact .slnil
  | cons chunk rest ih =>
    rw [sendChunks, flatten_cons]
    split
    · exact (writeSome_isPrefix _ chunk).sublist.append (ih _ _)
    · exact nil_sublist _

/-- The reads return what the segments hold, header by header and as much of a
segment as fits. -/
inductive Feeds : List Bytes → List ReceiverEvent → Prop where
  | done {segments} : Feeds segments []
  | header {segments rest text disk extractions events} :
      readHeader segments = some (text, rest) → Feeds rest events →
      Feeds segments (.header text disk extractions :: events)
  | data {segments rest capacity bytes withheld extractions events} :
      read capacity segments = some (bytes, rest) → Feeds rest events →
      Feeds segments (.data bytes withheld extractions :: events)

namespace ReceiverEvent

def bytes : ReceiverEvent → Bytes
  | .data bytes _ _ => bytes
  | .header _ _ _ | .failed | .connected => []

def written : ReceiverEvent → Bytes
  | .data bytes withheld _ => writeSome withheld bytes
  | .header _ _ _ | .failed | .connected => []

def WritesWhole (event : ReceiverEvent) : Prop := event.written = event.bytes
deriving Decidable

@[simp] theorem writesWhole_header (text : Bytes) (disk : Disk)
    (extractions : List Extraction) : (header text disk extractions).WritesWhole :=
  rfl

theorem written_isPrefix (event : ReceiverEvent) : event.written <+: event.bytes := by
  cases event with
  | data bytes withheld => exact writeSome_isPrefix withheld bytes
  | header | failed | connected => exact nil_prefix

private theorem flatten_written_length_le (events : List ReceiverEvent) :
    (events.map written).flatten.length ≤ (events.map bytes).flatten.length := by
  induction events with
  | nil => exact Nat.le_refl _
  | cons event rest ih =>
    simp only [map_cons, flatten_cons, length_append]
    exact Nat.add_le_add event.written_isPrefix.length_le ih

theorem flatten_written_eq_iff (events : List ReceiverEvent) :
    (events.map written).flatten = (events.map bytes).flatten ↔
      ∀ event ∈ events, event.WritesWhole := by
  induction events with
  | nil => simp
  | cons event rest ih =>
    rw [forall_mem_cons, ← ih]
    simp only [map_cons, flatten_cons]
    constructor
    · intro all
      have first := event.written_isPrefix.length_le
      have others := flatten_written_length_le rest
      have lengths := congrArg List.length all
      rw [length_append, length_append] at lengths
      exact append_inj all (by omega)
    · rintro ⟨whole, others⟩
      rw [whole, others]

end ReceiverEvent

theorem readHeader_eq_none {segments : List Bytes} (nothing : segments.flatten = []) :
    readHeader segments = none := by
  have unread : asyncReadUntil headerDelim [] segments = none := by
    induction segments with
    | nil => rfl
    | cons _ _ ih =>
      obtain ⟨rfl, later⟩ := append_eq_nil_iff.mp nothing
      exact ih later
  simp [readHeader, readUntil, unread]

theorem readHeader_cons {message : Bytes} (clean : Clean message) (rest : List Bytes) :
    readHeader (sendHeader message :: rest) = some (message, rest) := by
  have found : asyncReadUntil headerDelim [] (sendHeader message :: rest) =
      some (sendHeader message, (sendHeader message).length, rest) :=
    asyncReadUntil_found clean rest
  simp only [readHeader, readUntil, found, take_length]
  rw [headerDelim_le_sendHeader, Nat.add_sub_cancel, sendHeader, take_left]

namespace Receiver

variable {r final : Receiver} {segments : List Bytes} {events : List ReceiverEvent}

theorem exec_of_stopped (stopped : r.phase = .stopped) (feeds : Feeds segments events)
    (executed : exec step r events = some final) : final = r := by
  cases feeds with
  | done => exact (Option.some.inj executed).symm
  | header | data => simp [exec, step, stopped] at executed

theorem exec_of_idle (idle : r.phase = .idle) (feeds : Feeds segments events)
    (nothing : segments.flatten = []) (executed : exec step r events = some final) :
    events = [] ∧ final = r := by
  cases feeds with
  | done => exact ⟨rfl, (Option.some.inj executed).symm⟩
  | header found =>
    rw [readHeader_eq_none nothing] at found
    cases found
  | data => simp [exec, step, idle] at executed

def transfer (number : Nat) (reads : List (Bytes × Nat)) : List ReceiverEvent :=
  .header (contentSize number) {} [] :: reads.map fun read => .data read.1 read.2 []

theorem feeds_transfer (number : Nat) (reads : List (Bytes × Nat)) :
    Feeds (sendHeader (contentSize number) :: reads.map Prod.fst) (transfer number reads) := by
  have found := readHeader_cons (clean_contentSize number) (reads.map Prod.fst)
  refine .header found ?_
  clear found
  induction reads with
  | nil => exact .done
  | cons first rest ih =>
    exact .data (if_pos (Nat.le_refl first.1.length)) ih

private theorem exec_of_receiving {filePath content : Bytes} {fileSize recSofar : Nat}
    (receiving : r.phase = .receiving filePath fileSize recSofar) (outermost : r.archives = [])
    (stored : r.files (cStr filePath) = some content) (feeds : Feeds segments events)
    (limit : recSofar + segments.flatten.length ≤ fileSize)
    (executed : exec step r events = some final) (returned : final.phase = .idle) :
    recSofar + segments.flatten.length = fileSize ∧
      (events.map ReceiverEvent.bytes).flatten = segments.flatten ∧ final.files (cStr filePath) =
        some (content ++ (events.map ReceiverEvent.written).flatten) := by
  induction feeds generalizing r content recSofar with
  | done =>
    obtain rfl := Option.some.inj executed
    rw [receiving] at returned
    cases returned
  | header => simp [exec, step, receiving] at executed
  | @data _ rest _ bytes withheld _ _ found feeds ih =>
    have stream := (read_spec found).1
    rw [stream, length_append] at limit ⊢
    simp only [exec, step, receiving, recieveData, stored, Option.getD_some, outermost] at executed
    simp only [map_cons, flatten_cons, ReceiverEvent.bytes, ReceiverEvent.written]
    by_cases more : recSofar + bytes.length < fileSize
    · rw [if_pos more] at executed
      have stillStored : (r.store filePath (content ++ writeSome withheld bytes)).files
          (cStr filePath) = some (content ++ writeSome withheld bytes) :=
        Function.update_self _ _ _
      obtain ⟨all, read, written⟩ := @ih { r.store filePath _ with
        phase := .receiving filePath fileSize (recSofar + bytes.length) } _ _ rfl outermost
        stillStored (by omega) executed
      refine ⟨by omega, by rw [read], ?_⟩
      rw [written, append_assoc]
    · rw [if_neg more] at executed
      have nothing : rest.flatten = [] := length_eq_zero_iff.mp (by omega)
      obtain ⟨rfl, rfl⟩ := exec_of_idle rfl feeds nothing executed
      rw [nothing, length_nil]
      refine ⟨by omega, rfl, ?_⟩
      simp [succeed, store]

theorem exec_of_openFile {filePath : Bytes} {fileSize : Nat} {disk : Disk}
    (outermost : r.archives = []) (feeds : Feeds segments events)
    (limit : segments.flatten.length ≤ fileSize)
    (executed : exec step (r.openFile filePath fileSize disk) events = some final)
    (returned : final.phase = .idle) :
    segments.flatten.length = fileSize ∧
      (events.map ReceiverEvent.bytes).flatten = segments.flatten ∧
      final.files (cStr filePath) = some (events.map ReceiverEvent.written).flatten := by
  rw [openFile] at executed
  cases opened : disk.opened with
  | false =>
    simp only [opened, Bool.false_eq_true, if_false] at executed
    rw [exec_of_stopped rfl feeds executed] at returned
    cases returned
  | true =>
    simp only [opened, if_true] at executed
    obtain ⟨all, read, written⟩ := exec_of_receiving rfl (by split <;> exact outermost)
      (Function.update_self _ _ _) feeds ((Nat.zero_add _).trans_le limit) executed returned
    exact ⟨(Nat.zero_add _).symm.trans all, read, written⟩

private theorem readFor_contentSize (root destPath : Bytes) (retryCount number : Nat) (disk : Disk)
    (extractions : List Extraction) :
    r.readFor root destPath retryCount (contentSize number) disk extractions =
      match stoullBytes (ascii (toString number)) with
      | none => r.stop
      | some fileSize =>
        if fileSize = 0 then succeed extractions r.archives r
        else r.openFile (root ++ destPath) fileSize.toNat disk := by
  rw [readFor, if_pos (isExpected_contentSize number)]
  simp only [recieveFile, parseEvent_contentSize]
  refine (if_neg (by decide)).trans ((if_neg (by decide)).trans ((if_pos trivial).trans ?_))
  cases stoullBytes (ascii (toString number)) <;> rfl

/-- A transfer that succeeds on both sides leaves the content that was sent exactly if
each write to the file takes all bytes; an empty file has to be there already. -/
theorem content_preserved_iff {withheld : Nat → Nat} {chunks : List Bytes}
    {root destPath : Bytes} (headerWhole : withheld 0 = 0)
    (sent : segments.flatten = sendFile withheld chunks) (feeds : Feeds segments events)
    (awaiting : r.phase = .awaiting root destPath 3) (outermost : r.archives = [])
    (executed : exec step r events = some final) (returned : final.phase = .idle) :
    final.files (cStr (root ++ destPath)) = some chunks.flatten ↔
      (chunks.flatten = [] → r.files (cStr (root ++ destPath)) = some []) ∧
        ∀ event ∈ events, event.WritesWhole := by
  rw [sendFile, headerWhole, writeSome, Nat.sub_zero, take_length] at sent
  obtain ⟨left, found, ending⟩ := (clean_contentSize _).readHeader_rest sent
  have sublist := ending.sublist.trans (sendChunks_sublist _ withheld 1 0 chunks)
  have limit := sublist.length_le
  cases feeds with
  | done =>
    obtain rfl := Option.some.inj executed
    rw [awaiting] at returned
    cases returned
  | data => simp [exec, step, awaiting] at executed
  | header foundAgain feeds =>
    obtain ⟨rfl, rfl⟩ := Prod.mk.inj (Option.some.inj (found.symm.trans foundAgain))
    simp only [exec, step, awaiting, readFor_contentSize] at executed
    rw [forall_mem_cons]
    cases parsed : stoullBytes (ascii (toString chunks.flatten.length)) with
    | none =>
      simp only [parsed] at executed
      rw [exec_of_stopped rfl feeds executed] at returned
      cases returned
    | some fileSize =>
      have announced := toNat_of_stoullBytes parsed
      simp only [parsed] at executed
      by_cases empty : fileSize = 0
      · have noContent : chunks.flatten = [] := by
          rw [empty] at announced
          exact length_eq_zero_iff.mp announced.symm
        rw [if_pos empty, outermost] at executed
        rw [noContent] at limit
        obtain ⟨rfl, rfl⟩ := exec_of_idle rfl feeds
          (length_eq_zero_iff.mp (Nat.le_zero.mp limit)) executed
        simp [noContent, succeed]
      · have someContent : chunks.flatten ≠ [] := by
          intro noContent
          rw [noContent] at announced
          exact empty (UInt64.toNat_inj.mp announced)
        rw [if_neg empty, announced] at executed
        obtain ⟨all, read, written⟩ := exec_of_openFile outermost feeds limit executed returned
        have whole := sublist.eq_of_length_le all.ge
        rw [written, Option.some.injEq, ← whole, ← read, ReceiverEvent.flatten_written_eq_iff]
        rw [whole] at read
        simp [read, someContent]

def fetching (content : Option Bytes) : Receiver where
  root := ascii "/data"
  phase := .awaiting (ascii "/data") (ascii "/f") 3
  files := fun path => if path = ascii "/data/f" then content else none

theorem content_preserved_two_reads :
    ∃ final, exec step (fetching none) (transfer 2 [(ascii "a", 0), (ascii "b", 0)]) =
      some final ∧ final.phase = .idle ∧ final.files (ascii "/data/f") = some (ascii "ab") := by
  have runs : (exec step (fetching none) (transfer 2 [(ascii "a", 0), (ascii "b", 0)])).map phase =
      some .idle := by decide +kernel
  obtain ⟨final, executed, returned⟩ := Option.map_eq_some_iff.mp runs
  have sent : [sendHeader (contentSize 2), ascii "a", ascii "b"].flatten =
      sendFile (fun _ => 0) [ascii "ab"] := by decide +kernel
  have path : cStr (ascii "/data" ++ ascii "/f") = ascii "/data/f" := by decide
  have preserved := (content_preserved_iff rfl sent
    (feeds_transfer 2 [(ascii "a", 0), (ascii "b", 0)]) (rfl : (fetching none).phase = _) rfl
    executed returned).mpr ⟨by decide, by decide⟩
  rw [path] at preserved
  exact ⟨final, executed, returned, preserved⟩

/-- A write to the file that takes one byte of two, an empty file, and a header
that is cut before a content that looks like its rest. -/
theorem content_not_preserved :
    (∃ segments events final, segments.flatten = sendFile (fun _ => 0) [ascii "ab"] ∧
      Feeds segments events ∧ exec step (fetching none) events = some final ∧
      final.phase = .idle ∧ final.files (ascii "/data/f") = some (ascii "a")) ∧
    (∃ segments events final, segments.flatten = sendFile (fun _ => 0) [] ∧
      Feeds segments events ∧ exec step (fetching (some (ascii "old"))) events = some final ∧
      final.phase = .idle ∧ final.files (ascii "/data/f") = some (ascii "old")) ∧
    (∃ segments events final,
      segments.flatten = sendFile (fun round => if round = 0 then 5 else 0) [ascii "2\r\n\r\nab"] ∧
      Feeds segments events ∧ exec step (fetching none) events = some final ∧
      final.phase = .idle ∧ final.files (ascii "/data/f") = some (ascii "ab")) := by
  have transfers : ∀ (old : Option Bytes) (number : Nat)
      (reads : List (Bytes × Nat)) (content : Bytes),
      (exec step (fetching old) (transfer number reads)).map
        (fun r => (r.phase, r.files (ascii "/data/f"))) = some (.idle, some content) →
      ∃ events final, Feeds (sendHeader (contentSize number) :: reads.map Prod.fst) events ∧
        exec step (fetching old) events = some final ∧ final.phase = .idle ∧
        final.files (ascii "/data/f") = some content := by
    intro _ number reads _ runs
    obtain ⟨final, executed, result⟩ := Option.map_eq_some_iff.mp runs
    obtain ⟨returned, stored⟩ := Prod.mk.inj result
    exact ⟨_, final, feeds_transfer number reads, executed, returned, stored⟩
  obtain ⟨cut, cutFinal, cutRun⟩ := transfers none 2 [(ascii "ab", 1)] (ascii "a")
    (by decide +kernel)
  obtain ⟨kept, keptFinal, keptRun⟩ := transfers (some (ascii "old")) 0 [] (ascii "old")
    (by decide +kernel)
  obtain ⟨mixed, mixedFinal, mixedRun⟩ := transfers none 2 [(ascii "ab", 0)] (ascii "ab")
    (by decide +kernel)
  exact ⟨⟨_, cut, cutFinal, by decide +kernel, cutRun⟩,
    ⟨_, kept, keptFinal, by decide +kernel, keptRun⟩,
    ⟨_, mixed, mixedFinal, by decide +kernel, mixedRun⟩⟩

end Receiver

end Coroserver.EventBroker
