import Coroserver.Interleaving
import Coroserver.Machine
import Coroserver.Console.IbmiInput

/-! The read loops of `ConsoleRouter` with an emulator: each read of a client is
given to the one emulator of the router, whose framer does not know whose
bytes it holds. A client that is disconnected by a closed emulator only stops
reading, so that it needs no state of its own. -/

namespace Coroserver.Console

open Machine Function
open VSlipFramer

structure EmulatorRouter (Client : Type) where
  emulator : IbmiEmulator := {}
  handled : List Bytes := []
  received : Client → Bytes
  unread : Client → Bytes

structure ClientRead (Client : Type) where
  client : Client
  bytesRead : Nat

namespace EmulatorRouter

variable {Client : Type} [DecidableEq Client]

def bufferSize : Nat := 1024

variable (router : EmulatorRouter Client) (read : ClientRead Client)

def readable : Bool :=
  0 < read.bytesRead && read.bytesRead ≤ bufferSize &&
    read.bytesRead ≤ (router.unread read.client).length

def framesOfInput (emulator : IbmiEmulator) (input : Bytes) : List Bytes :=
  (emulator.framer.feed input []).out.filter (· ≠ [])

def step : Option (EmulatorRouter Client) :=
  if router.readable read then
    let data := (router.unread read.client).take read.bytesRead
    some
      { emulator := (router.emulator.process data).1
        handled := router.handled ++ framesOfInput router.emulator data
        received := update router.received read.client
          (router.received read.client ++ data)
        unread := update router.unread read.client
          ((router.unread read.client).drop read.bytesRead) }
  else none

def start (payloads : Client → List Bytes) : EmulatorRouter Client where
  received _ := []
  unread client := (payloads client).flatMap VSlip.encode

def ownFraming (client : Client) : Feeding :=
  VSlipFramer.fresh.feed (router.received client) []

/-- No other client has an unfinished frame when the read is processed. -/
def Separated : Prop :=
  ∀ other, other ≠ read.client → (router.ownFraming other).framer = .fresh

structure Unmixed (payloads : Client → List Bytes) (router : EmulatorRouter Client) :
    Prop where
  stream : ∀ client, router.received client ++ router.unread client =
    (payloads client).flatMap VSlip.encode
  framer : ∀ client, (∀ other, other ≠ client → (router.ownFraming other).framer = .fresh) →
    router.emulator.framer = (router.ownFraming client).framer
  handled : Interleaves router.handled fun client => (router.ownFraming client).out

theorem unmixed_start (payloads : Client → List Bytes) :
    Unmixed payloads (start payloads) where
  stream _ := rfl
  framer _ _ := rfl
  handled := Interleaves.nil

theorem framesOfInput_eq (emulator : IbmiEmulator) (input : Bytes) :
    framesOfInput emulator input = (emulator.framer.feed input []).out := by
  rw [framesOfInput, List.filter_eq_self]
  intro frame member
  simpa using emulator.framer.feed_out_ne_nil input frame member

section

variable {payloads : Client → List Bytes} {router next : EmulatorRouter Client}
  {read : ClientRead Client}

theorem step_spec (stepped : step router read = some next) :
    ∃ data rest, router.unread read.client = data ++ rest ∧
      next.emulator.framer = (router.emulator.framer.feed data []).framer ∧
      next.handled = router.handled ++ (router.emulator.framer.feed data []).out ∧
      next.received = update router.received read.client
        (router.received read.client ++ data) ∧
      next.unread = update router.unread read.client rest := by
  unfold step at stepped
  split at stepped
  · cases stepped
    refine ⟨_, _, (List.take_append_drop read.bytesRead _).symm, ?_, ?_, rfl, rfl⟩
    · exact IbmiEmulator.framer_processed _ _
    · rw [framesOfInput_eq]
  · cases stepped

private theorem ownFraming_other {data : Bytes} {other : Client} (differs : other ≠ read.client)
    (received : next.received = update router.received read.client data) :
    next.ownFraming other = router.ownFraming other := by
  rw [ownFraming, received, update_of_ne differs, ownFraming]

theorem Unmixed.step (unmixed : Unmixed payloads router) (separated : Separated router read)
    (stepped : EmulatorRouter.step router read = some next) : Unmixed payloads next := by
  obtain ⟨data, rest, unread, framer, handled, received, left⟩ := step_spec stepped
  have shared := unmixed.framer read.client separated
  have fed : next.ownFraming read.client = fresh.feed (router.received read.client ++ data) [] := by
    rw [ownFraming, received, update_self]
  rw [feed_append] at fed
  constructor
  · intro client
    by_cases same : client = read.client
    · subst same
      rw [received, left, update_self, update_self, List.append_assoc, ← unread]
      exact unmixed.stream read.client
    · rw [received, left, update_of_ne same, update_of_ne same]
      exact unmixed.stream client
  · intro client others
    have reached : next.emulator.framer = (next.ownFraming read.client).framer := by
      rw [framer, shared, fed]
      rfl
    by_cases same : client = read.client
    · rw [same]
      exact reached
    · rw [reached, others read.client (Ne.symm same), ownFraming_other same received,
        separated client same]
  · have taken := unmixed.handled.append read.client (router.emulator.framer.feed data []).out
    rw [handled]
    convert taken using 1
    funext client
    by_cases same : client = read.client
    · subst same
      rw [update_self, fed, shared]
      rfl
    · rw [update_of_ne same, ownFraming_other same received]

end

/-- If every read finds no unfinished frame of another client, the emulator handles an
interleaving of the frames that were read in full. -/
theorem handled_interleaves_payloads (payloads : Client → List Bytes)
    (nonempty : ∀ client, ∀ payload ∈ payloads client, payload ≠ [])
    (reads : List (ClientRead Client)) (final : EmulatorRouter Client)
    (run : Run step Separated (start payloads) reads final) :
    ∃ parts : Client → List Bytes, Interleaves final.handled parts ∧
      ∀ client, parts client <+: payloads client ∧
        (final.unread client = [] → parts client = payloads client) := by
  have unmixed : Unmixed payloads final :=
    run.preserves (unmixed_start payloads) fun _ _ _ kept separated stepped =>
      kept.step separated stepped
  refine ⟨_, unmixed.handled, fun client => ?_⟩
  have whole : (fresh.feed ((payloads client).flatMap VSlip.encode) []).out = payloads client := by
    rw [feed_encode_all, flatMap_framesOf, List.filter_eq_self]
    intro payload member
    simpa using nonempty client payload member
  rw [← unmixed.stream client, feed_append] at whole
  constructor
  · exact ⟨_, whole⟩
  · intro finished
    rw [finished] at whole
    simpa [ownFraming, feed] using whole

instance (router : EmulatorRouter Bool) (read : ClientRead Bool) :
    Decidable (Separated router read) :=
  decidable_of_iff _ (Bool.forall_bool (p := fun other =>
    other ≠ read.client → (router.ownFraming other).framer = .fresh)).symm

def twoClients : Bool → List Bytes
  | false => [[0x7F, 0x80]]
  | true => [[0x81]]

theorem handled_interleaves_two_clients :
    ∃ final, Run step Separated (start twoClients)
        [⟨true, 1⟩, ⟨false, 3⟩, ⟨false, 1⟩, ⟨true, 2⟩] final ∧
      ∃ parts : Bool → List Bytes, Interleaves final.handled parts ∧
        ∀ client, parts client <+: twoClients client ∧
          (final.unread client = [] → parts client = twoClients client) := by
  have checked : within step Separated (start twoClients)
      [⟨true, 1⟩, ⟨false, 3⟩, ⟨false, 1⟩, ⟨true, 2⟩] = true := by decide +kernel
  obtain ⟨final, run⟩ := exists_run_of_within checked
  refine ⟨final, run, handled_interleaves_payloads twoClients ?_ _ final run⟩
  intro client
  cases client <;> decide

theorem handled_mixes_two_clients :
    ∃ final, exec step (start twoClients) [⟨false, 2⟩, ⟨true, 3⟩, ⟨false, 2⟩] = some final ∧
      (∀ client, final.unread client = []) ∧ final.handled = [[0x7F], [0x81], [0x80]] ∧
      ¬Interleaves final.handled twoClients := by
  have ran : (exec step (start twoClients) [⟨false, 2⟩, ⟨true, 3⟩, ⟨false, 2⟩]).map
      (fun final => (final.handled, final.unread false, final.unread true)) =
        some ([[0x7F], [0x81], [0x80]], [], []) := by decide +kernel
  obtain ⟨final, executed, observed⟩ := Option.map_eq_some_iff.mp ran
  obtain ⟨handled, first, second⟩ :
      final.handled = [[0x7F], [0x81], [0x80]] ∧ final.unread false = [] ∧
        final.unread true = [] := by simpa using observed
  refine ⟨final, executed, fun client => by cases client <;> assumption, handled, ?_⟩
  intro interleaves
  rw [handled] at interleaves
  obtain ⟨client, member⟩ := interleaves.mem_part List.mem_cons_self
  cases client <;> revert member <;> decide

end EmulatorRouter

end Coroserver.Console
