import Coroserver.Spdm.TrustStore
import Mathlib.Data.Nat.Find

/-! The links of a hash have consecutive indices, so that the search finds the first one that is
free. -/

namespace Coroserver.Spdm.FileCertificateTrustStore

open Machine Function Option

variable {taken : Nat → Bool} {index fuel : Nat}

theorem searchIndex_eq {stop : Nat}
    (below : ∀ lower, index ≤ lower → lower < stop → taken lower = true)
    (stops : taken stop = false ∨ stop = 99) (before : index ≤ stop) (small : stop ≤ 99)
    (enough : stop < index + fuel) : searchIndex taken index fuel = stop + 1 := by
  induction fuel generalizing index with
  | zero => omega
  | succ fuel ih =>
    rw [searchIndex]
    by_cases found : index = stop
    · subst found
      rcases stops with free | rfl
      · simp [free]
      · simp
    · rw [below index (Nat.le_refl _) (by omega), decide_eq_true (by omega), Bool.and_self,
        if_pos rfl]
      exact ih (fun lower later => below lower (by omega)) (by omega) (by omega)

section

variable {Dir : Type} {environment : TrustStoreEnvironment Dir}

structure Consistent (environment : TrustStoreEnvironment Dir)
    (store : FileCertificateTrustStore Dir) : Prop where
  linked : ∀ file content, store.files file = some content →
    ∃ hash index, environment.subjectNameHash file.extension content = some hash ∧
      index < 100 ∧ store.links ⟨file.dir, hashStr hash, index⟩ = some file ∧
      ∀ other, store.links other = some file → other = ⟨file.dir, hashStr hash, index⟩
  alive : ∀ link file, store.links link = some file → store.files file ≠ none

/-- The indices of a hash have no gap, and the last of them is never used. -/
structure Gapless (environment : TrustStoreEnvironment Dir)
    (store : FileCertificateTrustStore Dir) : Prop extends Consistent environment store where
  usable : ∀ dir hash index, store.links ⟨dir, hash, index⟩ ≠ none → index < 99
  dense : ∀ dir hash index, store.links ⟨dir, hash, index⟩ ≠ none →
    ∀ lower < index, store.links ⟨dir, hash, lower⟩ ≠ none

theorem gapless_empty (environment : TrustStoreEnvironment Dir) :
    Gapless environment empty where
  linked _ _ found := by cases found
  alive _ _ found := by cases found
  usable _ _ _ found := absurd rfl found
  dense _ _ _ found := absurd rfl found

theorem exists_first_free {store : FileCertificateTrustStore Dir} {dir : Dir} {hash : String}
    (room : store.links ⟨dir, hash, 98⟩ = none) :
    ∃ free < 99, store.links ⟨dir, hash, free⟩ = none ∧
      ∀ lower < free, store.links ⟨dir, hash, lower⟩ ≠ none := by
  classical
  have some_free : ∃ index, store.links ⟨dir, hash, index⟩ = none := ⟨98, room⟩
  have least := Nat.find_min' some_free room
  exact ⟨Nat.find some_free, by omega, Nat.find_spec some_free,
    fun lower smaller => Nat.find_min some_free smaller⟩

theorem Consistent.hash_eq {store : FileCertificateTrustStore Dir}
    (consistent : Consistent environment store) {link : HashLink Dir} {file : CertFile Dir}
    {content : Bytes} (found : store.links link = some file)
    (stored : store.files file = some content) :
    (environment.subjectNameHash file.extension content).map hashStr = some link.hash := by
  obtain ⟨_, _, parsed, _, _, only⟩ := consistent.linked file content stored
  rw [parsed, only link found]
  rfl

end

section

variable {Dir : Type} [DecidableEq Dir] {environment : TrustStoreEnvironment Dir}
  {store : FileCertificateTrustStore Dir} {file : CertFile Dir} {cert : Bytes}
  {hash : UInt64}

def write (store : FileCertificateTrustStore Dir) (file : CertFile Dir) (cert : Bytes) :
    FileCertificateTrustStore Dir :=
  { store with files := update store.files file (some cert) }

def addLink (store : FileCertificateTrustStore Dir) (link : HashLink Dir) (file : CertFile Dir) :
    FileCertificateTrustStore Dir :=
  { store with links := update store.links link (some file) }

@[simp] theorem write_links : (store.write file cert).links = store.links := rfl

@[simp] theorem write_files_self : (store.write file cert).files file = some cert :=
  update_self ..

theorem write_files_of_ne {other : CertFile Dir} (differs : other ≠ file) :
    (store.write file cert).files other = store.files other :=
  update_of_ne differs ..

theorem write_files_ne_none {other : CertFile Dir} (stored : store.files other ≠ none) :
    (store.write file cert).files other ≠ none := by
  by_cases same : other = file
  · simp [same]
  · rwa [write_files_of_ne same]

theorem write_self (stored : store.files file = some cert) : store.write file cert = store := by
  rw [write, ← stored, update_eq_self]

section

variable {link other : HashLink Dir}

@[simp] theorem addLink_files : (store.addLink link file).files = store.files := rfl

@[simp] theorem addLink_links_self : (store.addLink link file).links link = some file :=
  update_self ..

theorem addLink_links_of_ne (differs : other ≠ link) :
    (store.addLink link file).links other = store.links other :=
  update_of_ne differs ..

theorem addLink_links_ne_none (present : store.links other ≠ none) :
    (store.addLink link file).links other ≠ none := by
  by_cases same : other = link
  · simp [same]
  · rwa [addLink_links_of_ne same]

end

section

variable (gapless : Gapless environment store)

include gapless

theorem Gapless.linkExists_write (link : HashLink Dir) :
    (store.write file cert).linkExists link = true ↔ store.links link ≠ none := by
  rw [linkExists, write_links]
  cases found : store.links link with
  | none => simp
  | some target =>
    have alive := @write_files_ne_none _ _ _ file cert _ (gapless.alive link target found)
    simpa [isSome_iff_ne_none] using alive

theorem Gapless.createCertificateHashFile_of_room
    (room : store.links ⟨file.dir, hashStr hash, 98⟩ = none) :
    ∃ free < 99, store.links ⟨file.dir, hashStr hash, free⟩ = none ∧
      (∀ lower < free, store.links ⟨file.dir, hashStr hash, lower⟩ ≠ none) ∧
      ((store.write file cert).createCertificateHashFile (hashStr hash) file).1 =
        (store.write file cert).addLink ⟨file.dir, hashStr hash, free⟩ file := by
  obtain ⟨free, small, vacant, below⟩ := exists_first_free room
  have found : searchIndex (fun index =>
      (store.write file cert).linkExists ⟨file.dir, hashStr hash, index⟩) 0 100 = free + 1 := by
    apply searchIndex_eq _ (.inl _) (Nat.zero_le _) (Nat.le_of_lt small) (by omega)
    · intro lower _ smaller
      exact (gapless.linkExists_write _).mpr (below lower smaller)
    · rw [Bool.eq_false_iff]
      exact fun taken => (gapless.linkExists_write _).mp taken vacant
  refine ⟨free, small, vacant, below, ?_⟩
  rw [createCertificateHashFile, found]
  simp only [ge_iff_le, Nat.add_sub_cancel]
  rw [if_neg (by omega)]
  simp [vacant, addLink]

theorem Gapless.createCertificateHashFile_of_full
    (full : store.links ⟨file.dir, hashStr hash, 98⟩ ≠ none) :
    ((store.write file cert).createCertificateHashFile (hashStr hash) file).1 =
      store.write file cert := by
  have found : searchIndex (fun index =>
      (store.write file cert).linkExists ⟨file.dir, hashStr hash, index⟩) 0 100 = 100 := by
    apply searchIndex_eq _ (.inr rfl) (by omega) (by omega) (by omega)
    intro lower _ smaller
    apply (gapless.linkExists_write _).mpr
    by_cases last : lower = 98
    · rw [last]
      exact full
    · exact gapless.dense _ _ _ full lower (by omega)
  rw [createCertificateHashFile, found]
  rfl

theorem Gapless.store_new (new : store.files file = none)
    (parsed : environment.subjectNameHash file.extension cert = some hash) {free : Nat}
    (small : free < 99) (vacant : store.links ⟨file.dir, hashStr hash, free⟩ = none)
    (below : ∀ lower < free, store.links ⟨file.dir, hashStr hash, lower⟩ ≠ none) :
    Gapless environment
      ((store.write file cert).addLink ⟨file.dir, hashStr hash, free⟩ file) where
  linked other content stored := by
    rw [addLink_files] at stored
    by_cases same : other = file
    · subst same
      rw [write_files_self, some.injEq] at stored
      subst stored
      refine ⟨hash, free, parsed, by omega, addLink_links_self, fun link found => ?_⟩
      by_contra differs
      rw [addLink_links_of_ne differs] at found
      exact gapless.alive link other found new
    · rw [write_files_of_ne same] at stored
      obtain ⟨own, index, read, bound, found, only⟩ := gapless.linked other content stored
      have apart : (⟨other.dir, hashStr own, index⟩ : HashLink Dir) ≠
          ⟨file.dir, hashStr hash, free⟩ := by
        intro equal
        rw [equal, vacant] at found
        cases found
      refine ⟨own, index, read, bound, by rwa [addLink_links_of_ne apart], fun link points => ?_⟩
      by_cases fresh : link = ⟨file.dir, hashStr hash, free⟩
      · rw [fresh, addLink_links_self, some.injEq] at points
        exact absurd points.symm same
      · rw [addLink_links_of_ne fresh] at points
        exact only link points
  alive link target found := by
    by_cases fresh : link = ⟨file.dir, hashStr hash, free⟩
    · rw [fresh, addLink_links_self, some.injEq] at found
      simp [← found]
    · rw [addLink_links_of_ne fresh] at found
      exact write_files_ne_none (gapless.alive link target found)
  usable dir name index found := by
    by_cases fresh : (⟨dir, name, index⟩ : HashLink Dir) = ⟨file.dir, hashStr hash, free⟩
    · cases fresh
      exact small
    · rw [addLink_links_of_ne fresh] at found
      exact gapless.usable dir name index found
  dense dir name index found lower smaller := by
    apply addLink_links_ne_none
    by_cases fresh : (⟨dir, name, index⟩ : HashLink Dir) = ⟨file.dir, hashStr hash, free⟩
    · cases fresh
      exact below lower smaller
    · rw [addLink_links_of_ne fresh] at found
      exact gapless.dense dir name index found lower smaller

variable {old : Bytes}

theorem Gapless.write_same_hash (stored : store.files file = some old)
    (parsed : environment.subjectNameHash file.extension cert = some hash)
    (same_hash : (environment.subjectNameHash file.extension old).map hashStr =
      some (hashStr hash)) :
    Gapless environment (store.write file cert) where
  linked other content found := by
    by_cases same : other = file
    · subst same
      rw [write_files_self, some.injEq] at found
      subst found
      obtain ⟨own, index, read, bound, points, only⟩ := gapless.linked other old stored
      rw [read, map_some, some.injEq] at same_hash
      rw [same_hash] at points only
      exact ⟨hash, index, parsed, bound, points, only⟩
    · rw [write_files_of_ne same] at found
      exact gapless.linked other content found
  alive link target found := write_files_ne_none (gapless.alive link target found)
  usable := gapless.usable
  dense := gapless.dense

theorem Gapless.not_consistent_of_second_link (stored : store.files file = some old)
    {link : HashLink Dir} (vacant : store.links link = none) :
    ¬ Consistent environment ((store.write file cert).addLink link file) := by
  intro consistent
  obtain ⟨own, index, _, _, found, _⟩ := gapless.linked file old stored
  obtain ⟨_, _, _, _, _, only⟩ := consistent.linked file cert write_files_self
  have apart : (⟨file.dir, hashStr own, index⟩ : HashLink Dir) ≠ link := by
    rintro rfl
    rw [vacant] at found
    cases found
  have first := only ⟨file.dir, hashStr own, index⟩ (by rwa [addLink_links_of_ne apart])
  exact apart (first.trans (only link addLink_links_self).symm)

theorem Gapless.same_hash_of_consistent_write
    (parsed : environment.subjectNameHash file.extension cert = some hash)
    (consistent : Consistent environment (store.write file cert)) :
    ∃ old, store.files file = some old ∧
      (environment.subjectNameHash file.extension old).map hashStr = some (hashStr hash) := by
  obtain ⟨_, _, read, _, found, _⟩ := consistent.linked file cert write_files_self
  obtain rfl := some.inj (parsed.symm.trans read)
  obtain ⟨old, stored⟩ := ne_none_iff_exists'.mp (gapless.alive _ file found)
  exact ⟨old, stored, gapless.hash_eq found stored⟩

end

def fileOf (certificate : ParsableCertificate environment) (identifier : String) :
    Option (CertFile Dir) :=
  if certificate.cert.isEmpty || identifier.isEmpty then none
  else if certificate.cert.length > maxCertificateSize then none
  else
    (environment.locate identifier).map fun place =>
      ⟨place.1, place.2, certificate.format.extension⟩

variable {identifier : String}

omit [DecidableEq Dir] in
theorem parses_of_fileOf {certificate : ParsableCertificate environment}
    (accepted : fileOf certificate identifier = some file) :
    environment.subjectNameHash file.extension certificate.cert = some certificate.hash := by
  unfold fileOf at accepted
  split at accepted
  · cases accepted
  · split at accepted
    · cases accepted
    · obtain ⟨place, _, rfl⟩ := map_eq_some_iff.mp accepted
      exact certificate.parses

theorem storeCertificate_eq (store : FileCertificateTrustStore Dir)
    (certificate : ParsableCertificate environment) (identifier : String) :
    (storeCertificate environment store certificate.cert certificate.format identifier).1 =
      match fileOf certificate identifier with
      | none => store
      | some file =>
        ((store.write file certificate.cert).createCertificateHashFile
          (hashStr certificate.hash) file).1 := by
  unfold storeCertificate fileOf
  split
  · rfl
  · split
    · rfl
    · cases environment.locate identifier with
      | none => rfl
      | some place =>
        obtain ⟨_, _⟩ := place
        simp only [certificate.parses, map_some]
        rfl

/-- A new file while an index is left, or the replacement of a file of the same
hash while none is left; and no removal of a file. -/
def Admits (store : FileCertificateTrustStore Dir) : TrustStoreCall environment → Prop
  | .store certificate identifier =>
    ∀ file, fileOf certificate identifier = some file →
      match store.files file with
      | none => store.links ⟨file.dir, hashStr certificate.hash, 98⟩ = none
      | some old =>
        (environment.subjectNameHash file.extension old).map hashStr =
            some (hashStr certificate.hash) ∧
          store.links ⟨file.dir, hashStr certificate.hash, 98⟩ ≠ none
  | .remove identifier =>
    ∀ dir stem extension, identifier.isEmpty = false →
      environment.locate identifier = some (dir, stem) →
      store.files ⟨dir, stem, extension⟩ = none

def Repeats (store : FileCertificateTrustStore Dir) : TrustStoreCall environment → Prop
  | .store certificate identifier =>
    ∃ file, fileOf certificate identifier = some file ∧
      store.files file = some certificate.cert
  | .remove _ => False

/-- What is expected of a call: links and files are consistent after it, and it
changes nothing if it only repeats an earlier one. -/
def Good (store : FileCertificateTrustStore Dir) (call : TrustStoreCall environment)
    (next : FileCertificateTrustStore Dir) : Prop :=
  Consistent environment next ∧ (Repeats store call → next = store)

section

variable {certificate : ParsableCertificate environment} {identifier : String}

omit [DecidableEq Dir] in
theorem admits_store_iff (accepted : fileOf certificate identifier = some file) :
    Admits store (.store certificate identifier) ↔
      match store.files file with
      | none => store.links ⟨file.dir, hashStr certificate.hash, 98⟩ = none
      | some old =>
        (environment.subjectNameHash file.extension old).map hashStr =
            some (hashStr certificate.hash) ∧
          store.links ⟨file.dir, hashStr certificate.hash, 98⟩ ≠ none := by
  simp [Admits, accepted]

omit [DecidableEq Dir] in
theorem repeats_store_iff (accepted : fileOf certificate identifier = some file) :
    Repeats store (.store certificate identifier) ↔ store.files file = some certificate.cert := by
  simp [Repeats, accepted]

end

theorem removeCertificate_files (store : FileCertificateTrustStore Dir) {stem : String}
    {dir : Dir} (named : identifier.isEmpty = false)
    (located : environment.locate identifier = some (dir, stem)) (extension : Extension) :
    (removeCertificate environment store identifier).1.files ⟨dir, stem, extension⟩ = none := by
  unfold removeCertificate
  simp only [named, located]
  cases extension with
  | pem | der => simp

theorem removeCertificate_links (store : FileCertificateTrustStore Dir) (identifier : String) :
    (removeCertificate environment store identifier).1.links = store.links := by
  unfold removeCertificate
  split
  · rfl
  · split <;> rfl

theorem removeCertificate_of_admits
    (absent : Admits store (.remove identifier : TrustStoreCall environment)) :
    (removeCertificate environment store identifier).1 = store := by
  unfold removeCertificate
  split
  · rfl
  · next named =>
      split
      · rfl
      · next dir stem located =>
          have gone := fun extension =>
            absent dir stem extension (Bool.eq_false_iff.mpr named) located
          have pem : update store.files ⟨dir, stem, .pem⟩ none = store.files :=
            update_eq_self_iff.mpr (gone .pem).symm
          have der : update store.files ⟨dir, stem, .der⟩ none = store.files :=
            update_eq_self_iff.mpr (gone .der).symm
          rw [pem, der]

theorem Gapless.stored_of_room (gapless : Gapless environment store)
    (parsed : environment.subjectNameHash file.extension cert = some hash)
    (room : store.links ⟨file.dir, hashStr hash, 98⟩ = none) :
    (store.files file = none → Gapless environment
        ((store.write file cert).createCertificateHashFile (hashStr hash) file).1) ∧
      (store.files file ≠ none → ¬ Consistent environment
        ((store.write file cert).createCertificateHashFile (hashStr hash) file).1) := by
  obtain ⟨free, small, vacant, below, created⟩ :=
    @Gapless.createCertificateHashFile_of_room _ _ _ _ _ cert _ gapless room
  rw [created]
  constructor
  · intro new
    exact gapless.store_new new parsed small vacant below
  · intro present
    obtain ⟨old, stored⟩ := ne_none_iff_exists'.mp present
    exact gapless.not_consistent_of_second_link stored vacant

variable {next : FileCertificateTrustStore Dir}

theorem Gapless.good_store_iff (gapless : Gapless environment store)
    {certificate : ParsableCertificate environment}
    (stepped : store.step (.store certificate identifier) = some next) :
    (Good store (.store certificate identifier) next ↔
        Admits store (.store certificate identifier)) ∧
      (Admits store (.store certificate identifier) → Gapless environment next) := by
  rw [step, storeCertificate_eq, some.injEq] at stepped
  cases accepted : fileOf certificate identifier with
  | none =>
    simp only [accepted] at stepped
    subst stepped
    have admitted : Admits store (.store certificate identifier) := by
      intro file found
      rw [accepted] at found
      cases found
    exact ⟨⟨fun _ => admitted, fun _ => ⟨gapless.toConsistent, fun _ => rfl⟩⟩, fun _ => gapless⟩
  | some file =>
    simp only [accepted] at stepped
    subst stepped
    have parsed := parses_of_fileOf accepted
    rw [Good, admits_store_iff accepted, repeats_store_iff accepted]
    by_cases room : store.links ⟨file.dir, hashStr certificate.hash, 98⟩ = none
    · obtain ⟨kept, broken⟩ := gapless.stored_of_room parsed room
      cases stored : store.files file with
      | none =>
        have gaplessAfter := kept stored
        simp [room, gaplessAfter, gaplessAfter.toConsistent]
      | some old =>
        have inconsistent := broken (by simp [stored])
        simp [room, inconsistent]
    · rw [gapless.createCertificateHashFile_of_full room]
      cases stored : store.files file with
      | none =>
        refine ⟨⟨fun good => ?_, fun admitted => absurd admitted room⟩,
          fun admitted => absurd admitted room⟩
        obtain ⟨old, present, _⟩ := gapless.same_hash_of_consistent_write parsed good.1
        cases stored.symm.trans present
      | some old =>
        have kept := gapless.write_same_hash stored parsed
        refine ⟨⟨fun good => ?_, fun admitted => ⟨(kept admitted.1).toConsistent, fun again => ?_⟩⟩,
          fun admitted => kept admitted.1⟩
        · obtain ⟨other, present, same⟩ := gapless.same_hash_of_consistent_write parsed good.1
          obtain rfl := some.inj (stored.symm.trans present)
          exact ⟨same, room⟩
        · exact write_self (stored.trans again)

theorem Gapless.good_remove_iff (gapless : Gapless environment store)
    (stepped : store.step (.remove identifier : TrustStoreCall environment) = some next) :
    (Good store (.remove identifier : TrustStoreCall environment) next ↔
        Admits store (.remove identifier : TrustStoreCall environment)) ∧
      (Admits store (.remove identifier : TrustStoreCall environment) →
        Gapless environment next) := by
  rw [step, some.injEq] at stepped
  subst stepped
  constructor
  · constructor
    · rintro ⟨consistent, _⟩ _ _ extension named located
      by_contra stored
      obtain ⟨content, found⟩ := ne_none_iff_exists'.mp stored
      obtain ⟨_, _, _, _, points, _⟩ := gapless.linked _ content found
      rw [← removeCertificate_links store identifier] at points
      exact consistent.alive _ _ points (removeCertificate_files store named located extension)
    · intro admitted
      rw [removeCertificate_of_admits admitted]
      exact ⟨gapless.toConsistent, fun impossible => impossible.elim⟩
  · intro admitted
    rw [removeCertificate_of_admits admitted]
    exact gapless

/-- Every file has one link and every link a file exactly as long as certificates are stored under
new names and never removed, and there is an index left. -/
theorem links_consistent_iff (calls : List (TrustStoreCall environment))
    (final : FileCertificateTrustStore Dir) (executed : exec step empty calls = some final) :
    Along step Good empty calls ↔ Run step Admits empty calls final := by
  apply along_iff_run (Gapless environment) (gapless_empty environment) executed
  · intro store call next gapless admitted stepped
    cases call with
    | store => exact (gapless.good_store_iff stepped).2 admitted
    | remove => exact (gapless.good_remove_iff stepped).2 admitted
  · intro store call next gapless stepped
    cases call with
    | store => exact (gapless.good_store_iff stepped).1
    | remove => exact (gapless.good_remove_iff stepped).1

end

def sampleEnvironment : TrustStoreEnvironment Unit where
  storePath := "/etc/ssl/certs/authority"
  locate identifier := some ((), identifier)
  subjectNameHash _ cert := cert.head?.map fun subject => subject.toUInt64

def sampleCertificate (subject : UInt8) : ParsableCertificate sampleEnvironment where
  cert := [subject, 0]
  format := .pem
  hash := subject.toUInt64
  parses := rfl

def distinctCalls : List (TrustStoreCall sampleEnvironment) :=
  [.store (sampleCertificate 1) "requester", .store (sampleCertificate 1) "responder",
    .store (sampleCertificate 2) "device"]

theorem links_consistent_distinctCalls :
    ∃ final, exec step empty distinctCalls = some final ∧
      Run step Admits empty distinctCalls final ∧ Along step Good empty distinctCalls := by
  have run : ∃ final, Run step Admits empty distinctCalls final := by
    refine ⟨_, .next ?_ rfl (.next ?_ rfl (.next ?_ rfl .done))⟩
    · rintro file ⟨⟩
      rfl
    · rintro file ⟨⟩
      rfl
    · rintro file ⟨⟩
      rfl
  obtain ⟨final, run⟩ := run
  exact ⟨final, run.exec_eq, run, (links_consistent_iff _ _ run.exec_eq).mpr run⟩

theorem links_multiply_and_dangle :
    ∃ once twice removed : FileCertificateTrustStore Unit,
      empty.step (.store (sampleCertificate 1) "device") = some once ∧
      once.step (.store (sampleCertificate 1) "device") = some twice ∧
      twice.step (.remove "device" : TrustStoreCall sampleEnvironment) = some removed ∧
      once.links ⟨(), "00000001", 1⟩ = none ∧
      twice.links ⟨(), "00000001", 0⟩ = some ⟨(), "device", .pem⟩ ∧
      twice.links ⟨(), "00000001", 1⟩ = some ⟨(), "device", .pem⟩ ∧
      removed.links ⟨(), "00000001", 0⟩ = some ⟨(), "device", .pem⟩ ∧
      removed.files ⟨(), "device", .pem⟩ = none :=
  ⟨_, _, _, rfl, rfl, rfl, by decide +kernel, by decide +kernel, by decide +kernel,
    by decide +kernel, by decide +kernel⟩

end Coroserver.Spdm.FileCertificateTrustStore
