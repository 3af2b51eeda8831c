import Coroserver.EventBroker.FileMethods
import Coroserver.Machine

/-! The receiver appends the texts of its peer to the root, to each other and to the names in an
archive, and checks none of them. -/

namespace Coroserver.EventBroker

open Machine List
open LexicalPath

theorem cStr_eq_self {text : Bytes} (free : 0 ∉ text) : cStr text = text := by
  refine takeWhile_eq_self_iff.mpr fun byte member => ?_
  simp only [bne_iff_ne]
  exact fun same => free (same ▸ member)

theorem not_mem_cStr (text : Bytes) : 0 ∉ cStr text := by
  intro member
  have kept := mem_takeWhile_imp member
  simp at kept

theorem parseEvent_subset (event : Bytes) : (parseEvent event).2 ⊆ event := by
  rw [parseEvent, span_eq_takeWhile_dropWhile]
  split
  · rename_i id separator data shape
    have rest : event.dropWhile (· != colon) = separator :: data := (Prod.mk.inj shape).2
    have inside : separator :: data ⊆ event := rest ▸ (dropWhile_suffix _).subset
    exact List.Subset.trans (subset_cons_self _ _) inside
  · exact nil_subset _

theorem parentPath_subset (path : Bytes) : parentPath path ⊆ path := by
  have directory : path.rdropWhile (· != slash) ⊆ path :=
    IsPrefix.subset <| rdropWhile_prefix _ path
  rw [parentPath]
  split
  · exact List.Subset.trans (take_subset _ _) directory
  · exact List.Subset.trans (IsPrefix.subset <| rdropWhile_prefix _ _) directory

structure Safe (base text : Bytes) : Prop where
  plain : 0 ∉ text
  confined : Confined base text

instance (base text : Bytes) : Decidable (Safe base text) :=
  decidable_of_iff (0 ∉ text ∧ Confined base text)
    ⟨fun both => ⟨both.1, both.2⟩, fun safe => ⟨safe.plain, safe.confined⟩⟩

structure Place (root base text : Bytes) : Prop where
  below : Below root base
  plain : 0 ∉ base
  safe : Safe base text

namespace Place

variable {root base text : Bytes}

section

variable (place : Place root base text)

include place

theorem append_plain : 0 ∉ base ++ text := by
  rw [mem_append]
  exact fun member => member.elim place.plain place.safe.plain

theorem append (nonempty : root ≠ []) {more : Bytes} (safe : Safe (base ++ text) more) :
    Place root (base ++ text) more :=
  ⟨place.below.append nonempty place.safe.confined, place.append_plain, safe⟩

theorem path_below (nonempty : root ≠ []) : Below root (cStr (base ++ text)) := by
  rw [cStr_eq_self place.append_plain]
  exact place.below.append nonempty place.safe.confined

theorem parentPath_below (nonempty : root ≠ []) :
    Below root (cStr (parentPath (base ++ text))) := by
  rw [cStr_eq_self fun member => place.append_plain (parentPath_subset _ member)]
  exact place.below.parentPath nonempty place.safe.confined

end

end Place

def SafeEntry (entry : Bytes × Bytes) : Prop :=
  0 ∉ entry.1 ∧ stays 0 (names entry.1) = true
deriving Decidable

theorem SafeEntry.safe {entry : Bytes × Bytes} (safe : SafeEntry entry)
    (directoryPath : Bytes) : Safe directoryPath (slash :: entry.1) := by
  obtain ⟨plain, within⟩ := safe
  refine ⟨?_, .inr rfl, ?_⟩
  · rw [mem_cons]
    exact fun member => member.elim (by decide) plain
  · rw [names_cons]
    exact within

def SafeEntries (extractions : List Extraction) : Prop :=
  ∀ extraction ∈ extractions, ∀ entry ∈ extraction.entries, SafeEntry entry
deriving Decidable

def SafeHeader (root destPath header : Bytes) : Prop :=
  let data := (parseEvent header).2
  (parseEvent header).1 = ascii "FileType" →
    ((parseEvent data).1 = ascii "archive" → Safe root (parseEvent data).2) ∧
      ((parseEvent data).1 ≠ ascii "archive" → Safe (root ++ destPath) (parseEvent data).1)
deriving Decidable

def SafeEvent (root event : Bytes) : Prop :=
  (parseEvent event).1 ∈ [ascii "FileModified", ascii "FileDeleted", ascii "ArchiveModified"] →
    Confined root (parseEvent event).2
deriving Decidable

namespace Receiver

def AdmittedHeader (root text : Bytes) (extractions : List Extraction) :
    ReceiverPhase → Prop
  | .idle => SafeEvent root (cStr text)
  | .awaiting base destPath _ => SafeHeader base destPath text ∧ SafeEntries extractions
  | .receiving _ _ _ | .stopped => True

instance (root text : Bytes) (extractions : List Extraction) (phase : ReceiverPhase) :
    Decidable (AdmittedHeader root text extractions phase) :=
  match phase with
  | .idle => inferInstanceAs (Decidable (SafeEvent _ _))
  | .awaiting _ _ _ => inferInstanceAs (Decidable (SafeHeader _ _ _ ∧ SafeEntries _))
  | .receiving _ _ _ | .stopped => instDecidableTrue

/-- The path of an event can be appended to the root, that of a header where it
is used, and the names in an archive do not climb. -/
def Admitted (r : Receiver) : ReceiverEvent → Prop
  | .header text _ extractions => AdmittedHeader r.root text extractions r.phase
  | .data _ _ extractions => SafeEntries extractions
  | .failed | .connected => True

instance (r : Receiver) (event : ReceiverEvent) : Decidable (r.Admitted event) :=
  match event with
  | .header _ _ _ => inferInstanceAs (Decidable (AdmittedHeader _ _ _ _))
  | .data _ _ _ => inferInstanceAs (Decidable (SafeEntries _))
  | .failed | .connected => instDecidableTrue

structure Within (root : Bytes) (r : Receiver) : Prop where
  rooted : r.root = root
  touched : ∀ path ∈ r.touched, Below root path
  awaited : ∀ base destPath retryCount, r.phase = .awaiting base destPath retryCount →
    Place root base destPath
  archived : ∀ call ∈ r.archives,
    Place root call.root call.destPath ∧ Place root call.root call.archPath

namespace Within

variable {root : Bytes} {r : Receiver} {path content : Bytes}

variable (within : Within root r)

include within

theorem touch (below : Below root (cStr path)) : Within root (r.touch path) := by
  refine ⟨within.rooted, forall_mem_append.mpr ⟨within.touched, ?_⟩, within.awaited,
    within.archived⟩
  exact forall_mem_singleton.mpr below

theorem store : Within root (r.store path content) :=
  ⟨within.rooted, within.touched, within.awaited, within.archived⟩

theorem remove (below : Below root (cStr path)) : Within root (r.remove path) :=
  have touched := within.touch below
  ⟨touched.rooted, touched.touched, touched.awaited, touched.archived⟩

theorem setPhase {phase : ReceiverPhase}
    (awaited : ∀ base destPath retryCount, phase = .awaiting base destPath retryCount →
      Place root base destPath) : Within root { r with phase } :=
  ⟨within.rooted, within.touched, awaited, within.archived⟩

variable {destPath : Bytes} {extractions : List Extraction}

theorem await {base : Bytes} (place : Place root base destPath) (retryCount : Nat) :
    Within root { r with phase := .awaiting base destPath retryCount } := by
  refine within.setPhase ?_
  intro _ _ _ phase
  cases phase
  exact place

theorem returned {phase : ReceiverPhase}
    (idle : ∀ base destPath retryCount, phase ≠ .awaiting base destPath retryCount) :
    Within root { r with phase, archives := [] } :=
  ⟨within.rooted, within.touched, fun _ _ _ awaits => absurd awaits (idle _ _ _),
    fun _ member => (by cases member)⟩

theorem stop : Within root r.stop :=
  within.returned (by simp)

variable (nonempty : root ≠ [])

include nonempty

theorem extractTarArchive {base : Bytes} (place : Place root base destPath)
    {entries : List (Bytes × Bytes)} (safe : ∀ entry ∈ entries, SafeEntry entry) :
    Within root (r.extractTarArchive (base ++ destPath) entries) := by
  have started := within.touch (place.path_below nonempty)
  rw [Receiver.extractTarArchive]
  generalize r.touch (base ++ destPath) = written at started
  induction entries generalizing written with
  | nil => exact started
  | cons entry rest ih =>
    have inside := (place.append nonempty ((safe entry mem_cons_self).safe _)).path_below
      nonempty
    exact ih (fun other later => safe other (mem_cons_of_mem _ later)) _
      (started.touch inside).store

theorem succeed (safe : SafeEntries extractions) {calls : List ArchiveCall}
    (places : ∀ call ∈ calls,
      Place root call.root call.destPath ∧ Place root call.root call.archPath) :
    Within root (Receiver.succeed extractions calls r) := by
  induction calls generalizing extractions r with
  | nil => exact within.returned (by simp)
  | cons call calls ih =>
    obtain ⟨place, archive⟩ := places call mem_cons_self
    have entries : ∀ entry ∈ (extractions.head?.getD {}).entries, SafeEntry entry := by
      cases extractions with
      | nil => exact fun entry member => (by cases member)
      | cons extraction => exact safe extraction mem_cons_self
    have created : Within root (if (extractions.head?.getD {}).found then r
        else r.touch (call.root ++ call.destPath)) := by
      split
      · exact within
      · exact within.touch (place.path_below nonempty)
    have extracted := created.extractTarArchive nonempty place entries
    rw [Receiver.succeed]
    split
    · exact ih (extracted.remove (archive.path_below nonempty))
        (fun extraction later => safe extraction (mem_of_mem_tail later))
        (fun other later => places other (mem_cons_of_mem _ later))
    · exact extracted.stop

theorem openFile {base : Bytes} (place : Place root base destPath) (fileSize : Nat)
    (disk : Disk) : Within root (r.openFile (base ++ destPath) fileSize disk) := by
  have created : Within root (if disk.found then r
      else r.touch (parentPath (base ++ destPath))) := by
    split
    · exact within
    · exact within.touch (place.parentPath_below nonempty)
  have opened := created.touch (place.path_below nonempty)
  rw [Receiver.openFile]
  split
  · exact opened.store.setPhase fun _ _ _ awaits => (by cases awaits)
  · exact opened.stop

theorem recieveFile {base header : Bytes} (place : Place root base destPath)
    (safeHeader : SafeHeader base destPath header) (safe : SafeEntries extractions) (disk : Disk) :
    Within root (r.recieveFile base destPath header disk extractions) := by
  rw [SafeHeader] at safeHeader
  rw [Receiver.recieveFile]
  generalize parseEvent header = event at safeHeader
  obtain ⟨id, data⟩ := event
  generalize parsed : parseEvent data = path at safeHeader
  obtain ⟨ftype, archfilePath⟩ := path
  simp only [parsed]
  split
  · rename_i isType
    obtain ⟨ofArchive, ofOther⟩ := safeHeader isType
    split
    · rename_i isArchive
      have archive : Place root base archfilePath := ⟨place.below, place.plain, ofArchive isArchive⟩
      have awaiting := within.await archive 3
      exact ⟨awaiting.rooted, awaiting.touched, awaiting.awaited,
        forall_mem_cons.mpr ⟨⟨place, archive⟩, within.archived⟩⟩
    · rename_i isOther
      exact within.await (place.append nonempty (ofOther isOther)) 3
  · split
    · exact within.succeed nonempty safe within.archived
    · split
      · split
        · exact within.stop
        · split
          · exact within.succeed nonempty safe within.archived
          · exact within.openFile nonempty place _ disk
      · exact within.stop

theorem readFor {base header : Bytes} (place : Place root base destPath)
    (safeHeader : SafeHeader base destPath header) (safe : SafeEntries extractions)
    (retryCount : Nat) (disk : Disk) :
    Within root (r.readFor base destPath retryCount header disk extractions) := by
  rw [Receiver.readFor]
  split
  · exact within.recieveFile nonempty place safeHeader safe disk
  · split
    · exact within.await place _
    · exact within.stop

theorem recieveData {filePath : Bytes} (safe : SafeEntries extractions)
    (fileSize recSofar : Nat) (bytes : Bytes) (withheld : Nat) :
    Within root (r.recieveData filePath fileSize recSofar bytes withheld extractions) := by
  rw [Receiver.recieveData]
  split
  · exact within.store.setPhase fun _ _ _ awaits => (by cases awaits)
  · exact within.store.succeed nonempty safe within.archived

theorem fileConsumer (plain : 0 ∉ root) {event : Bytes} (safe : SafeEvent root (cStr event))
    (disk : Disk) : Within root (r.fileConsumer event disk) := by
  have dataPlain : 0 ∉ (parseEvent (cStr event)).2 :=
    fun member => not_mem_cStr event (parseEvent_subset _ member)
  rw [SafeEvent] at safe
  rw [Receiver.fileConsumer]
  generalize parseEvent (cStr event) = parsed at safe dataPlain
  obtain ⟨id, data⟩ := parsed
  have place : id ∈ [ascii "FileModified", ascii "FileDeleted", ascii "ArchiveModified"] →
      Place root root data :=
    fun about => ⟨.refl root, plain, dataPlain, safe about⟩
  have fetches : Place root root data → Within root { r with phase := .awaiting r.root data 3 } :=
    fun here => within.await (within.rooted.symm ▸ here) 3
  simp only
  split
  · rename_i modified
    exact fetches (place (by simp [modified]))
  · split
    · rename_i deleted
      have below := (place (by simp [deleted])).path_below nonempty
      rw [Receiver.deleteFile, within.rooted]
      split
      · exact within.remove below
      · exact (within.touch below).stop
    · split
      · rename_i archive
        exact fetches (place (by simp [archive]))
      · exact within

theorem step {next : Receiver} (plain : 0 ∉ root) {event : ReceiverEvent}
    (admitted : r.Admitted event) (stepped : r.step event = some next) : Within root next := by
  cases event with
  | header _ disk =>
    rw [Admitted, within.rooted] at admitted
    cases phase : r.phase with
    | idle =>
      simp only [Receiver.step, phase, Option.some.injEq] at stepped
      rw [phase] at admitted
      exact stepped ▸ within.fileConsumer nonempty plain admitted disk
    | awaiting base destPath retryCount =>
      simp only [Receiver.step, phase, Option.some.injEq] at stepped
      rw [phase] at admitted
      obtain ⟨safeHeader, safe⟩ := admitted
      have place := within.awaited base destPath retryCount phase
      exact stepped ▸ within.readFor nonempty place safeHeader safe retryCount disk
    | receiving | stopped => simp [Receiver.step, phase] at stepped
  | data bytes withheld =>
    cases phase : r.phase with
    | receiving _ fileSize recSofar =>
      simp only [Receiver.step, phase, Option.some.injEq] at stepped
      exact stepped ▸ within.recieveData nonempty admitted fileSize recSofar bytes withheld
    | idle | awaiting | stopped => simp [Receiver.step, phase] at stepped
  | failed =>
    obtain ⟨-, ⟨⟩⟩ := Option.ite_none_left_eq_some.mp stepped
    exact within.stop
  | connected =>
    obtain ⟨-, ⟨⟩⟩ := Option.ite_none_right_eq_some.mp stepped
    exact within.setPhase fun _ _ _ awaits => (by cases awaits)

end Within

/-- The receiver stays inside the root if each text goes on from where it is appended without
climbing. -/
theorem touched_inside {root : Bytes} (nonempty : root ≠ []) (plain : 0 ∉ root)
    {files : Bytes → Option Bytes} {events : List ReceiverEvent} {final : Receiver}
    (run : Run step Admitted { root, files } events final) :
    ∀ path ∈ final.touched, Inside root path := by
  have start : Within root { root, files } := by
    refine ⟨rfl, fun _ member => ?_, fun _ _ _ phase => ?_, fun _ member => ?_⟩
    · cases member
    · cases phase
    · cases member
  have within : Within root final := run.preserves start
    fun _ _ _ within admitted stepped => within.step nonempty plain admitted stepped
  exact fun path member => (within.touched path member).inside

theorem touched_inside_archive :
    ∃ final, Run step Admitted { root := ascii "/data", files := fun _ => none }
      [.header (ascii "ArchiveModified:/d") {} [],
        .header (ascii "FileType:archive:/tmp/d.tar.gz") {} [],
        .header (ascii "Content-Size:3") { found := false } [],
        .data (ascii "tar") 0 [{ entries := [(ascii "a/../b", [])] }]] final ∧
      ∀ path ∈ final.touched, Inside (ascii "/data") path := by
  refine Exists.imp (fun final run => ⟨run, touched_inside (by decide) (by decide) run⟩)
    (exists_run_of_within ?_)
  decide +kernel

/-- A path that climbs is opened for writing, one is removed, and a text without
a slash reaches a sibling of the root. -/
theorem touched_outside :
    List.Forall (fun events => ∃ final path,
        exec step { root := ascii "/data", files := fun _ => none } events = some final ∧
        path ∈ final.touched ∧ ¬ Inside (ascii "/data") path)
      [[.header (ascii "FileModified:/../etc/passwd") {} [],
          .header (ascii "Content-Size:3") {} []],
        [.header (ascii "FileDeleted:/../etc/passwd") {} []],
        [.header (ascii "FileDeleted:base/f") {} []]] := by
  refine forall_iff_forall_mem.mpr fun events listed => ?_
  have reaches : (exec step { root := ascii "/data", files := fun _ => none } events).any
      (·.touched.any fun path =>
        ! decide (lexicallyNormal (ascii "/data") <:+ lexicallyNormal path)) = true := by
    revert events
    decide +kernel
  obtain ⟨final, executed, leaves⟩ := (Option.any_eq_true _ _).mp reaches
  obtain ⟨path, member, outside⟩ := any_eq_true.mp leaves
  refine ⟨final, path, executed, member, fun inside => ?_⟩
  simp [inside.lexicallyNormal_suffix] at outside

end Receiver

end Coroserver.EventBroker
