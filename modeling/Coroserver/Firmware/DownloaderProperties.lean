import Coroserver.Firmware.Downloader
import Coroserver.Machine

/-! A success is taken from a file that is there, or is returned when all of a body has been
written; neither compares the file with what was to be fetched. -/

namespace Coroserver.Firmware

open Machine List
def World.image (world : World) (entry : FirmwareEntry) : Option Bytes :=
  (world.parseUri entry.imageUrl).map fun url => world.served url.denoted

def Success.Right (world : World) (success : Success) : Prop :=
  ∃ body ∈ world.image success.entry, success.content = some body ∧
    (success.entry.checksum ≠ [] → world.sha256 body = success.entry.checksum)
deriving Decidable

def Fetches (world : World) (entry : FirmwareEntry) (request : Request) : Prop :=
  world.image entry = some (world.served request) ∧
    (entry.checksum ≠ [] → world.sha256 (world.served request) = entry.checksum)
deriving Decidable

def Call.Running (call : Call) : Prop := call.phase ≠ .returned
deriving Decidable

namespace Downloader

def Free (d : Downloader) (path : Bytes) : Prop :=
  ∀ call ∈ d.calls, call.Running → call.destPath ≠ path
deriving Decidable

def Admitted (world : World) (d : Downloader) : DownloaderEvent → Prop
  | .call entry _ =>
    (d.alreadyDownloaded world entry = true →
      d.files.read (localFilePath world d.downloadDir entry) = world.image entry) ∧
    (d.alreadyDownloaded world entry = false →
      d.Free (localFilePath world d.downloadDir entry) ∧
        ∀ url ∈ world.parseUri entry.imageUrl, Fetches world entry url.request)
  | .attemptFailed _ | .headerRead _ _ | .bodyRead _ _ | .bodyFailed _ | .bodyComplete _ => True

instance (world : World) (d : Downloader) (event : DownloaderEvent) :
    Decidable (d.Admitted world event) :=
  match event with
  | .call _ _ => inferInstanceAs (Decidable ((_ = _ → _ = _) ∧ (_ = _ → Free _ _ ∧ ∀ _ ∈ _, _)))
  | .attemptFailed _ | .headerRead _ _ | .bodyRead _ _ | .bodyFailed _ | .bodyComplete _ =>
    instDecidableTrue

inductive Transition (world : World) (d : Downloader) : DownloaderEvent → Downloader → Prop where
  | started {entry directoryCreated} :
      Transition world d (.call entry directoryCreated)
        (d.downloadFirmware world entry directoryCreated)
  | failed {event index call phase} :
      d.calls[index]? = some call → call.Running →
      (∀ attempt file written, phase ≠ .writing attempt file written) →
      Transition world d event (d.setPhase index call phase)
  | opened {index call attempt event} :
      d.calls[index]? = some call → call.phase = .requesting attempt →
      Transition world d event
        { d.setPhase index call (.writing attempt (d.files.target call.destPath) 0) with
          files := d.files.openTruncate call.destPath }
  | wrote {index count call attempt file written event} :
      d.calls[index]? = some call → call.phase = .writing attempt file written →
      Transition world d event
        { d.setPhase index call (.writing attempt file (written +
            (((world.served call.request).drop written).take count).length)) with
          files := d.files.write call.destPath file written
            (((world.served call.request).drop written).take count) }
  | completed {index call attempt file event} :
      d.calls[index]? = some call →
      call.phase = .writing attempt file (world.served call.request).length →
      Transition world d event
        ((d.setPhase index call .returned).succeed call.entry call.destPath)

theorem nextAttempt_ne_writing (attempt : Nat) (other file written : Nat) :
    nextAttempt attempt ≠ .writing other file written := by
  rw [nextAttempt]
  split
  · exact Phase.noConfusion
  · exact Phase.noConfusion

variable {world : World} {d next : Downloader} {event : DownloaderEvent}

theorem transition_of_step (stepped : d.step world event = some next) :
    d.Transition world event next := by
  revert stepped
  fun_cases step world d event
  all_goals rintro ⟨⟩
  case case1 entry directoryCreated => exact .started
  case case2 index call found attempt phase =>
    exact .failed found (by simp [Call.Running, phase]) (nextAttempt_ne_writing attempt)
  case case6 index call found attempt phase => exact .opened found phase
  case case7 index opened call found attempt phase _ =>
    exact .failed found (by simp [Call.Running, phase]) (by simp)
  case case11 index count call found attempt file written phase bytes => exact .wrote found phase
  case case15 index call found attempt file written phase =>
    exact .failed found (by simp [Call.Running, phase]) (nextAttempt_ne_writing attempt)
  case case19 index call found attempt file phase => exact .completed found phase

structure Sound (world : World) (d : Downloader) : Prop where
  apart : ∀ (i j : Nat) (left right : Call), d.calls[i]? = some left → d.calls[j]? = some right →
    left.Running → right.Running → left.destPath = right.destPath → i = j
  fetches : ∀ (i : Nat) (call : Call), d.calls[i]? = some call → call.Running →
    Fetches world call.entry call.request
  written : ∀ (i : Nat) (call : Call) (attempt file count : Nat), d.calls[i]? = some call →
    call.phase = .writing attempt file count →
    d.files.Holds call.destPath file ((world.served call.request).take count) ∧
      count ≤ (world.served call.request).length
  right : ∀ success ∈ d.successes, success.Right world

namespace Sound

variable {index : Nat} {call : Call}

variable {phase : Phase} {entry : FirmwareEntry} {path : Bytes}

theorem getElem?_setPhase (present : d.calls[index]? = some call) {i : Nat} {other : Call}
    (found : (d.setPhase index call phase).calls[i]? = some other) :
    (i = index ∧ other = { call with phase }) ∨ (i ≠ index ∧ d.calls[i]? = some other) := by
  rw [setPhase, getElem?_set] at found
  by_cases same : index = i
  · rw [if_pos same, if_pos (List.getElem?_eq_some_iff.mp present).1] at found
    exact .inl ⟨same.symm, (Option.some.inj found).symm⟩
  · rw [if_neg same] at found
    exact .inr ⟨Ne.symm same, found⟩

section

variable (sound : Sound world d)

include sound

theorem setPhase (present : d.calls[index]? = some call) (running : call.Running)
    {files : FileStore Bytes}
    (frame : ∀ {path : Bytes} {file : Nat} {content : Bytes}, path ≠ call.destPath →
      d.files.Holds path file content → files.Holds path file content)
    (own : ∀ attempt file count, phase = .writing attempt file count →
      files.Holds call.destPath file ((world.served call.request).take count) ∧
        count ≤ (world.served call.request).length) :
    Sound world { d.setPhase index call phase with files } := by
  refine ⟨?_, ?_, ?_, sound.right⟩
  · intro _ _ _ _ foundLeft foundRight leftRunning rightRunning same
    obtain ⟨rfl, rfl⟩ | ⟨-, atLeft⟩ := getElem?_setPhase present foundLeft
    · obtain ⟨rfl, rfl⟩ | ⟨-, atRight⟩ := getElem?_setPhase present foundRight
      · rfl
      · exact sound.apart _ _ _ _ present atRight running rightRunning same
    · obtain ⟨rfl, rfl⟩ | ⟨-, atRight⟩ := getElem?_setPhase present foundRight
      · exact sound.apart _ _ _ _ atLeft present leftRunning running same
      · exact sound.apart _ _ _ _ atLeft atRight leftRunning rightRunning same
  · intro i other found otherRunning
    obtain ⟨rfl, rfl⟩ | ⟨-, here⟩ := getElem?_setPhase present found
    · exact sound.fetches i call present running
    · exact sound.fetches _ _ here otherRunning
  · intro i other attempt file count found writing
    obtain ⟨rfl, rfl⟩ | ⟨elsewhere, here⟩ := getElem?_setPhase present found
    · exact own attempt file count writing
    · obtain ⟨holds, bound⟩ := sound.written _ _ _ _ _ here writing
      have otherRunning : other.Running := by simp [Call.Running, writing]
      refine ⟨frame ?_ holds, bound⟩
      exact fun same => elsewhere (sound.apart _ _ _ _ here present otherRunning running same)

theorem succeed (right : Success.Right world ⟨entry, path, d.files.read path⟩) :
    Sound world (d.succeed entry path) := by
  refine ⟨sound.apart, sound.fetches, sound.written, forall_mem_append.mpr ⟨sound.right, ?_⟩⟩
  exact forall_mem_singleton.mpr right

theorem cleared (free : d.Free path) : Sound world { d with files := d.files.remove path } := by
  refine ⟨sound.apart, sound.fetches, ?_, sound.right⟩
  intro i call attempt file count found writing
  obtain ⟨holds, bound⟩ := sound.written i call attempt file count found writing
  have running : call.Running := by simp [Call.Running, writing]
  exact ⟨holds.remove_of_ne (free call (mem_of_getElem? found) running), bound⟩

theorem append {new : Call} (free : d.Free new.destPath)
    (fetches : Fetches world new.entry new.request) (waiting : new.phase = .requesting 0) :
    Sound world { d with calls := d.calls ++ [new] } := by
  have found : ∀ {i : Nat} {call : Call}, (d.calls ++ [new])[i]? = some call →
      d.calls[i]? = some call ∨ (i = d.calls.length ∧ call = new) := by
    intro i call present
    rw [getElem?_append] at present
    split at present
    · exact .inl present
    · rename_i later
      rw [getElem?_singleton] at present
      obtain ⟨last, same⟩ := Option.ite_none_right_eq_some.mp present
      exact .inr ⟨by omega, (Option.some.inj same).symm⟩
  refine ⟨?_, ?_, ?_, sound.right⟩
  · intro i j left right foundLeft foundRight leftRunning rightRunning same
    obtain atLeft | ⟨rfl, rfl⟩ := found foundLeft
    · obtain atRight | ⟨rfl, rfl⟩ := found foundRight
      · exact sound.apart _ _ _ _ atLeft atRight leftRunning rightRunning same
      · exact absurd same (free left (mem_of_getElem? atLeft) leftRunning)
    · obtain atRight | ⟨rfl, rfl⟩ := found foundRight
      · exact absurd same.symm (free right (mem_of_getElem? atRight) rightRunning)
      · rfl
  · intro i call present running
    obtain here | ⟨rfl, rfl⟩ := found present
    · exact sound.fetches _ _ here running
    · exact fetches
  · intro _ _ _ _ _ present writing
    obtain here | ⟨rfl, rfl⟩ := found present
    · exact sound.written _ _ _ _ _ here writing
    · rw [waiting] at writing
      cases writing

theorem downloadFirmware {directoryCreated : Bool}
    (admitted : d.Admitted world (.call entry directoryCreated)) :
    Sound world (d.downloadFirmware world entry directoryCreated) := by
  obtain ⟨taken, fetched⟩ := admitted
  rw [Downloader.downloadFirmware]
  cases present : d.alreadyDownloaded world entry with
  | true =>
    rw [if_pos rfl]
    refine sound.succeed ?_
    have image := taken present
    rw [alreadyDownloaded] at present
    split at present
    · cases present
    · rename_i content found
      rw [found] at image
      refine ⟨content, image.symm, found, fun checked => ?_⟩
      simpa [checked] using present
  | false =>
    obtain ⟨free, fetches⟩ := fetched present
    have cleared := sound.cleared free
    rw [if_neg (by simp)]
    split
    · rename_i url parsed
      exact cleared.append free (fetches url parsed) rfl
    · exact cleared

theorem step (admitted : d.Admitted world event) (stepped : d.step world event = some next) :
    Sound world next := by
  cases transition_of_step stepped with
  | started => exact sound.downloadFirmware admitted
  | failed present running idle =>
    exact sound.setPhase present running (fun _ holds => holds)
      (fun attempt file count writing => absurd writing (idle attempt file count))
  | @opened _ call _ _ present phase =>
    refine sound.setPhase present (by simp [Call.Running, phase])
      (fun elsewhere holds => holds.openTruncate_of_ne elsewhere) ?_
    rintro _ _ _ ⟨⟩
    exact ⟨d.files.holds_openTruncate call.destPath, Nat.zero_le _⟩
  | @wrote _ count call _ _ written _ present phase =>
    obtain ⟨holds, bound⟩ := sound.written _ _ _ _ _ present phase
    refine sound.setPhase present (by simp [Call.Running, phase])
      (fun elsewhere holds => holds.setContent_of_ne elsewhere _ _) ?_
    rintro _ _ _ ⟨⟩
    have more := holds.write (((world.served call.request).drop written).take count)
    have bytes := prefix_iff_eq_take.mp <|
      take_prefix count ((world.served call.request).drop written)
    rw [length_take_of_le bound] at more
    rw [take_add, ← bytes]
    refine ⟨more, ?_⟩
    rw [length_take, length_drop]
    omega
  | @completed index call _ _ _ present phase =>
    obtain ⟨holds, -⟩ := sound.written _ _ _ _ _ present phase
    have running : call.Running := by simp [Call.Running, phase]
    obtain ⟨image, checked⟩ := sound.fetches _ _ present running
    have returned : Sound world (d.setPhase index call .returned) :=
      sound.setPhase present running (fun _ holds => holds)
        (fun _ _ _ writing => (by cases writing))
    refine returned.succeed ⟨_, image, ?_, checked⟩
    rw [take_length] at holds
    exact holds.read_eq

end

end Sound

/-- The image is right if a file found is, and if a call that fetches is alone on its path and is
served what the URL and the checksum stand for. -/
theorem successes_right {downloadDir : Bytes} {prior : Bytes → Option Bytes}
    {events : List DownloaderEvent} {final : Downloader}
    (run : Run (step world) (Admitted world) { downloadDir, files := .ofContents prior } events
      final) : ∀ success ∈ final.successes, success.Right world := by
  have start : Sound world { downloadDir, files := .ofContents prior } := by
    refine ⟨?_, ?_, ?_, ?_⟩
    · intro _ _ _ _ found
      cases found
    · intro i call found
      cases found
    · intro _ _ _ _ _ found
      cases found
    · intro success member
      cases member
  have sound : Sound world final := run.preserves start
    fun _ _ _ sound admitted stepped => sound.step admitted stepped
  exact sound.right

def sampleWorld : World where
  parseUri text :=
    let request : Request := ⟨ascii "h", ascii "443", ascii "/a"⟩
    if text = ascii "https://h/a" then some ⟨ascii "h", none, ascii "/a", request⟩
    else if text = ascii "https://h/a?v=2" then
      some ⟨ascii "h", none, ascii "/a", { request with target := ascii "/a?v=2" }⟩
    else none
  served request := if request.target = ascii "/a" then ascii "ab" else ascii "cd"
  sha256 _ := ascii "5e"

theorem successes_right_second_attempt :
    ∃ final, Run (step sampleWorld) (Admitted sampleWorld)
      { downloadDir := ascii "/d", files := .ofContents fun _ => none }
      [.call ⟨ascii "1", ascii "https://h/a", ascii "5e"⟩ true, .headerRead 0 true, .bodyRead 0 1,
        .bodyFailed 0, .headerRead 0 true, .bodyRead 0 2, .bodyComplete 0] final ∧
      ∀ success ∈ final.successes, success.Right sampleWorld := by
  refine Exists.imp (fun final run => ⟨run, successes_right run⟩) (exists_run_of_within ?_)
  decide +kernel

/-- What a failed call has left is taken for the image; a body with another
digest is; what two calls have written over each other is; and so is the body
for the path of a URL with a query. -/
theorem successes_wrong :
    List.Forall (fun events => ∃ final success, exec (step sampleWorld)
          { downloadDir := ascii "/d", files := .ofContents fun _ => none } events = some final ∧
        success ∈ final.successes ∧ ¬ success.Right sampleWorld)
      [[.call ⟨ascii "1", ascii "https://h/a", []⟩ true, .headerRead 0 true, .bodyRead 0 1,
          .bodyFailed 0, .attemptFailed 0, .attemptFailed 0,
          .call ⟨ascii "1", ascii "https://h/a", []⟩ true],
        [.call ⟨ascii "1", ascii "https://h/a", ascii "00"⟩ true, .headerRead 0 true,
          .bodyRead 0 2, .bodyComplete 0],
        [.call ⟨ascii "1", ascii "https://h/a", []⟩ true,
          .call ⟨ascii "1", ascii "https://h/a", []⟩ true, .headerRead 0 true, .bodyRead 0 1,
          .headerRead 1 true, .bodyRead 0 1, .bodyComplete 0],
        [.call ⟨ascii "1", ascii "https://h/a?v=2", []⟩ true, .headerRead 0 true, .bodyRead 0 2,
          .bodyComplete 0]] := by
  refine forall_iff_forall_mem.mpr fun events listed => ?_
  have found : (exec (step sampleWorld)
      { downloadDir := ascii "/d", files := .ofContents fun _ => none } events).any
      (·.successes.any fun success => ! decide (success.Right sampleWorld)) = true := by
    revert events
    decide +kernel
  obtain ⟨final, executed, fails⟩ := (Option.any_eq_true _ _).mp found
  obtain ⟨success, member, wrong⟩ := any_eq_true.mp fails
  exact ⟨final, success, executed, member, by simpa using wrong⟩

end Downloader

end Coroserver.Firmware
