import Coroserver.Bytes
import Mathlib.Data.List.Nodup
import Coroserver.Machine

/-! The output side of `console_server_multi`: what is read from the device goes
into the ring buffer and to all clients, and a new client is sent the ring
buffer first. Every write is a coroutine of its own that makes one
`async_write_some`. The write of a broadcast only refers to the vector of the
device loop, which is destroyed at the end of the loop's block. -/

namespace Coroserver.Console

open Machine List

/-- A write that was started and has not transferred its bytes. A write of the
history has a vector of its own; the others name the device read whose vector
they refer to. -/
structure ClientWrite (Client : Type) where
  client : Client
  data : Bytes
  broadcast : Option Nat

/-- `joined`, `promised` and `short` record the past: who ever connected, the ring
buffer each client found followed by the output read since, and the clients of which a
write was partial. -/
structure ConsoleServer (Client : Type) where
  ring : Bytes := []
  clients : List Client := []
  writes : List (ClientWrite Client) := []
  broadcasts : Nat := 0
  block : Option Nat := none
  stopped : Bool := false
  received : Client → Bytes := fun _ => []
  joined : List Client := []
  promised : Client → Bytes := fun _ => []
  short : List Client := []

/-- `boost::circular_buffer::insert` at the end, on what the buffer holds. -/
abbrev RingInsert := Bytes → Bytes → Bytes

inductive ServerEvent (Client : Type) where
  | connect (client : Client)
  | disconnect (client : Client)
  | deviceRead (data : Bytes)
  /-- The block of the device loop ends, and with it the life of its vector. -/
  | endOfBlock
  | deviceError
  /-- A write transfers some bytes; `stale` is what a destroyed vector holds. -/
  | write (index bytes : Nat) (stale : Bytes)

namespace ConsoleServer

variable {Client : Type} [DecidableEq Client]

variable (server : ConsoleServer Client)

def alive (write : ClientWrite Client) : Bool :=
  match write.broadcast with
  | none => true
  | some number => server.block = some number

def onConnect (client : Client) : ConsoleServer Client :=
  { server with
    clients := server.clients ++ [client]
    writes := if server.ring.isEmpty then server.writes
      else server.writes ++ [⟨client, server.ring, none⟩]
    joined := server.joined ++ [client]
    promised := Function.update server.promised client server.ring }

def onDisconnect (client : Client) : ConsoleServer Client :=
  { server with
    clients := server.clients.filter (· ≠ client)
    writes := server.writes.filter (·.client ≠ client) }

def broadcastToAll (data : Bytes) : ConsoleServer Client :=
  { server with
    writes := server.writes ++
      server.clients.map fun client => ⟨client, data, some server.broadcasts⟩ }

def onDeviceRead (insert : RingInsert) (server : ConsoleServer Client) (data : Bytes) :
    ConsoleServer Client :=
  { server.broadcastToAll data with
    ring := insert server.ring data
    broadcasts := server.broadcasts + 1
    block := some server.broadcasts
    promised := fun client =>
      if client ∈ server.joined then server.promised client ++ data else server.promised client }

def onWrite (index : Nat) (write : ClientWrite Client)
    (contents : Bytes) (bytes : Nat) : ConsoleServer Client :=
  { server with
    writes := server.writes.eraseIdx index
    received := Function.update server.received write.client
      (server.received write.client ++ contents.take bytes)
    short := if bytes < write.data.length then write.client :: server.short else server.short }

def transfers (write : ClientWrite Client) (bytes : Nat) (stale : Bytes) : Bool :=
  0 < bytes && bytes ≤ write.data.length && stale.length = write.data.length

def step (insert : RingInsert) (server : ConsoleServer Client) (event : ServerEvent Client) :
    Option (ConsoleServer Client) :=
  match event with
  | .connect client => if client ∈ server.joined then none else some (server.onConnect client)
  | .disconnect client => some (server.onDisconnect client)
  | .deviceRead data =>
    if server.stopped || server.block.isSome || data.isEmpty || 1024 < data.length then none
    else some (onDeviceRead insert server data)
  | .endOfBlock => some { server with block := none }
  | .deviceError =>
    if server.block.isSome then none
    else some { server with clients := [], writes := [], stopped := true }
  | .write index bytes stale =>
    match server.writes[index]? with
    | none => none
    | some write =>
      if transfers write bytes stale then
        some (server.onWrite index write (if server.alive write then write.data else stale)
          bytes)
      else none

/-- A write runs as the first of its client's, after only whole ones, and while
its vector exists. -/
def Orderly (event : ServerEvent Client) : Prop :=
  match event with
  | .write index _ _ =>
    ∀ write, server.writes[index]? = some write →
      write.client ∉ server.short ∧ server.alive write = true ∧
        ∀ earlier ∈ server.writes.take index, earlier.client ≠ write.client
  | _ => True

def outstanding (writes : List (ClientWrite Client)) (client : Client) : Bytes :=
  (writes.filter (·.client = client)).flatMap ClientWrite.data

structure InOrder (server : ConsoleServer Client) : Prop where
  joined : ∀ client ∈ server.clients, client ∈ server.joined
  nodup : server.clients.Nodup
  owned : ∀ write ∈ server.writes, write.client ∈ server.clients
  unknown : ∀ client, client ∉ server.joined → server.received client = []
  whole : ∀ client ∈ server.clients, client ∉ server.short →
    server.received client ++ outstanding server.writes client = server.promised client
  inOrder : ∀ client, server.received client <+: server.promised client

theorem inOrder_start : InOrder ({} : ConsoleServer Client) where
  joined _ member := absurd member not_mem_nil
  nodup := nodup_nil
  owned _ member := absurd member not_mem_nil
  unknown _ _ := rfl
  whole _ member := absurd member not_mem_nil
  inOrder _ := prefix_refl _

section

variable {server : ConsoleServer Client}

theorem outstanding_append (first second : List (ClientWrite Client)) (client : Client) :
    outstanding (first ++ second) client =
      outstanding first client ++ outstanding second client := by
  simp [outstanding]

variable {client : Client} {index : Nat} {write : ClientWrite Client}

theorem outstanding_eq_nil {writes : List (ClientWrite Client)}
    (none : ∀ write ∈ writes, write.client ≠ client) : outstanding writes client = [] := by
  have empty : writes.filter (·.client = client) = [] := by
    rw [filter_eq_nil_iff]
    intro write member
    simpa using none write member
  rw [outstanding, empty, flatMap_nil]

theorem outstanding_broadcast (clients : List Client) (nodup : clients.Nodup)
    (data : Bytes) (number : Nat) (client : Client) :
    outstanding (clients.map fun client => ⟨client, data, some number⟩) client =
      if client ∈ clients then data else [] := by
  induction clients with
  | nil => rfl
  | cons first rest ih =>
    rw [nodup_cons] at nodup
    have split := outstanding_append [⟨first, data, some number⟩]
      (rest.map fun client => ⟨client, data, some number⟩) client
    rw [map_cons, ← singleton_append, split, ih nodup.2]
    by_cases same : client = first
    · subst same
      simp [outstanding, nodup.1]
    · have other : first ≠ client := fun equal => same equal.symm
      simp [outstanding, same, other]

theorem InOrder.onConnect (kept : server.InOrder) (new : client ∉ server.joined) :
    (server.onConnect client).InOrder := by
  have absent : client ∉ server.clients := fun member => new (kept.joined client member)
  have started : ∀ other, outstanding (server.onConnect client).writes other =
      outstanding server.writes other ++ if other = client then server.ring else [] := by
    intro other
    unfold ConsoleServer.onConnect
    by_cases empty : server.ring.isEmpty = true
    · have nothing : server.ring = [] := isEmpty_iff.mp empty
      simp [nothing]
    · simp only [empty, Bool.false_eq_true, if_false, outstanding_append]
      by_cases same : other = client
      · subst same
        simp [outstanding]
      · have differs : client ≠ other := fun equal => same equal.symm
        simp [outstanding, same, differs]
  constructor
  · intro other member
    obtain old | rfl := by simpa [ConsoleServer.onConnect] using member
    · exact mem_append_left _ (kept.joined other old)
    · exact mem_append_right _ (mem_singleton_self _)
  · have nodup := kept.nodup.concat absent
    rwa [concat_eq_append] at nodup
  · intro write member
    have one : write ∈ server.writes ∨ write.client = client := by
      unfold ConsoleServer.onConnect at member
      split at member
      · exact .inl member
      · obtain old | new := mem_append.mp member
        · exact .inl old
        · exact .inr (by rw [mem_singleton.mp new])
    obtain old | same := one
    · exact mem_append_left _ (kept.owned write old)
    · exact mem_append_right _ (mem_singleton.mpr same)
  · intro other unknown
    exact kept.unknown other fun member => unknown (mem_append_left _ member)
  · intro other member notShort
    rw [started]
    by_cases same : other = client
    · subst same
      have none : ∀ write ∈ server.writes, write.client ≠ other := by
        intro write listed equal
        exact absent (equal ▸ kept.owned write listed)
      simp [ConsoleServer.onConnect, kept.unknown other new, outstanding_eq_nil none]
    · have old : other ∈ server.clients := by simpa [ConsoleServer.onConnect, same] using member
      simpa [ConsoleServer.onConnect, same] using kept.whole other old notShort
  · intro other
    by_cases same : other = client
    · subst same
      simp [ConsoleServer.onConnect, kept.unknown other new]
    · simpa [ConsoleServer.onConnect, same] using kept.inOrder other

theorem InOrder.onDisconnect (kept : server.InOrder) (client : Client) :
    (server.onDisconnect client).InOrder where
  joined other member := kept.joined other (mem_of_mem_filter member)
  nodup := kept.nodup.filter _
  owned write member := by
    obtain ⟨listed, other⟩ := mem_filter.mp member
    exact mem_filter.mpr ⟨kept.owned write listed, other⟩
  unknown := kept.unknown
  whole other member notShort := by
    obtain ⟨listed, differs⟩ := mem_filter.mp member
    have others : outstanding (server.onDisconnect client).writes other =
        outstanding server.writes other := by
      simp only [outstanding, ConsoleServer.onDisconnect, filter_filter]
      congr 1
      apply filter_congr
      intro write _
      by_cases same : write.client = other
      · have away : write.client ≠ client := by simpa [same] using differs
        rw [same] at away
        simp [same, away]
      · simp [same]
    rw [others]
    exact kept.whole other listed notShort
  inOrder := kept.inOrder

theorem InOrder.onDeviceRead (kept : server.InOrder) (insert : RingInsert) (data : Bytes) :
    (onDeviceRead insert server data).InOrder where
  joined := kept.joined
  nodup := kept.nodup
  owned := forall_mem_append.mpr
    ⟨kept.owned, forall_mem_map.mpr fun _ listed => listed⟩
  unknown := kept.unknown
  whole client member notShort := by
    have started : outstanding (ConsoleServer.onDeviceRead insert server data).writes client =
        outstanding server.writes client ++ data := by
      refine (outstanding_append ..).trans ?_
      rw [outstanding_broadcast _ kept.nodup, if_pos (by exact member)]
    rw [started, ← append_assoc]
    exact (congrArg (· ++ data) (kept.whole client member notShort)).trans
      (if_pos (kept.joined client member)).symm
  inOrder client := by
    refine (kept.inOrder client).trans ?_
    show _ <+: (if client ∈ server.joined then _ else _)
    split
    · exact prefix_append _ _
    · exact prefix_refl _

omit [DecidableEq Client] in
theorem writes_around {index : Nat} {write : ClientWrite Client}
    (found : server.writes[index]? = some write) :
    ∃ later, server.writes = server.writes.take index ++ ([write] ++ later) ∧
      server.writes.eraseIdx index = server.writes.take index ++ later := by
  obtain ⟨_, rfl⟩ := List.getElem?_eq_some_iff.mp found
  refine ⟨server.writes.drop (index + 1), ?_, List.eraseIdx_eq_take_drop_succ _ _⟩
  rw [singleton_append, ← drop_eq_getElem_cons, take_append_drop]

theorem outstanding_first (found : server.writes[index]? = some write)
    (first : ∀ earlier ∈ server.writes.take index, earlier.client ≠ write.client) :
    outstanding server.writes write.client =
      write.data ++ outstanding (server.writes.eraseIdx index) write.client := by
  obtain ⟨later, around, erased⟩ := writes_around found
  have own : outstanding [write] write.client = write.data := by simp [outstanding]
  rw [erased, outstanding_append, outstanding_eq_nil first, nil_append]
  rw [around, outstanding_append, outstanding_append, outstanding_eq_nil first, own,
    nil_append]

private theorem outstanding_eraseIdx_other (found : server.writes[index]? = some write)
    (differs : client ≠ write.client) :
    outstanding (server.writes.eraseIdx index) client = outstanding server.writes client := by
  obtain ⟨later, around, erased⟩ := writes_around found
  have skipped : outstanding [write] client = [] := outstanding_eq_nil fun other member equal =>
      differs (by rw [← equal, mem_singleton.mp member])
  rw [erased, outstanding_append]
  conv_rhs => rw [around, outstanding_append, outstanding_append, skipped, nil_append]

theorem InOrder.onWrite (kept : server.InOrder) {bytes : Nat}
    (found : server.writes[index]? = some write) (notShort : write.client ∉ server.short)
    (first : ∀ earlier ∈ server.writes.take index, earlier.client ≠ write.client) :
    (server.onWrite index write write.data bytes).InOrder := by
  have member : write.client ∈ server.clients := kept.owned write (mem_of_getElem? found)
  have whole := kept.whole write.client member notShort
  rw [outstanding_first found first] at whole
  constructor
  · exact kept.joined
  · exact kept.nodup
  · exact fun other listed => kept.owned other (mem_of_mem_eraseIdx listed)
  · intro other unknown
    have differs : other ≠ write.client := fun same =>
      unknown (same ▸ kept.joined write.client member)
    simpa [ConsoleServer.onWrite, differs] using kept.unknown other unknown
  · intro other listed stillWhole
    by_cases same : other = write.client
    · subst same
      have all : write.data.take bytes = write.data := by
        apply take_of_length_le
        by_contra part
        simp [ConsoleServer.onWrite, Nat.lt_of_not_le part] at stillWhole
      simpa [ConsoleServer.onWrite, all] using whole
    · have notShortBefore : other ∉ server.short := by
        intro listedShort
        apply stillWhole
        unfold ConsoleServer.onWrite
        dsimp only
        split
        · exact mem_cons_of_mem _ listedShort
        · exact listedShort
      have before := kept.whole other listed notShortBefore
      rw [← outstanding_eraseIdx_other found same] at before
      simpa [ConsoleServer.onWrite, same] using before
  · intro other
    by_cases same : other = write.client
    · subst same
      have extended : server.received write.client ++ write.data.take bytes <+:
          server.promised write.client := by
        rw [← whole]
        have started : write.data.take bytes <+: write.data := take_prefix ..
        exact prefix_append_right_inj _ |>.mpr (started.trans (prefix_append _ _))
      simpa [ConsoleServer.onWrite] using extended
    · simpa [ConsoleServer.onWrite, same] using kept.inOrder other

theorem InOrder.step {insert : RingInsert} {event : ServerEvent Client}
    {next : ConsoleServer Client} (kept : server.InOrder) (orderly : Orderly server event)
    (stepped : ConsoleServer.step insert server event = some next) : next.InOrder := by
  revert stepped
  fun_cases ConsoleServer.step
  all_goals rintro ⟨⟩
  case case2 new => exact kept.onConnect new
  case case3 client => exact kept.onDisconnect client
  case case5 data _ => exact kept.onDeviceRead insert data
  case case6 => exact ⟨kept.joined, kept.nodup, kept.owned, kept.unknown, kept.whole, kept.inOrder⟩
  case case8 =>
    exact ⟨fun _ member => absurd member not_mem_nil, nodup_nil,
      fun _ member => absurd member not_mem_nil, kept.unknown,
      fun _ member => absurd member not_mem_nil, kept.inOrder⟩
  case case10 write found _ =>
    obtain ⟨notShort, alive, first⟩ := orderly write found
    rw [if_pos alive]
    exact kept.onWrite found notShort first

end

/-- If every write is whole up to the last of its client, in the order of the writes
and while its vector exists, each client has received a prefix of what it was
promised. -/
theorem received_prefix_of_orderly (insert : RingInsert) (events : List (ServerEvent Client))
    (final : ConsoleServer Client) (run : Run (step insert) Orderly {} events final) :
    ∀ client ∈ final.joined, final.received client <+: final.promised client := by
  have kept : final.InOrder :=
    run.preserves inOrder_start fun _ _ _ before orderly stepped => before.step orderly stepped
  exact fun client _ => kept.inOrder client

instance (server : ConsoleServer Client) (event : ServerEvent Client) :
    Decidable (Orderly server event) :=
  match event with
  | .write index _ _ =>
    match found : server.writes[index]? with
    | none => isTrue fun _ other => by simp [found] at other
    | some write =>
      decidable_of_iff (write.client ∉ server.short ∧ server.alive write = true ∧
        ∀ earlier ∈ server.writes.take index, earlier.client ≠ write.client)
        ⟨fun all other same => by rwa [← Option.some.inj (found.symm.trans same)],
          fun all => all write found⟩
  | .connect _ | .disconnect _ | .deviceRead _ | .endOfBlock | .deviceError => isTrue trivial

def orderlyEvents : List (ServerEvent Bool) :=
  [.connect false, .deviceRead [1, 2], .write 0 2 [0, 0], .endOfBlock, .connect true,
    .write 0 2 [0, 0], .deviceRead [3, 4], .write 1 1 [0, 0], .write 0 2 [0, 0], .endOfBlock]

theorem received_prefix_of_orderlyEvents :
    ∃ final, Run (step (· ++ ·)) Orderly {} orderlyEvents final ∧
      ∀ client ∈ final.joined, final.received client <+: final.promised client := by
  have checked : within (step (· ++ ·)) Orderly ({} : ConsoleServer Bool) orderlyEvents = true := by
    decide +kernel
  obtain ⟨final, run⟩ := exists_run_of_within checked
  exact ⟨final, run, received_prefix_of_orderly (· ++ ·) orderlyEvents final run⟩

theorem short_write_loses_output :
    ∃ final, exec (step (· ++ ·)) ({} : ConsoleServer Bool)
        [.connect false, .deviceRead [1, 2], .write 0 1 [0, 0], .endOfBlock, .deviceRead [3],
          .write 0 1 [0], .endOfBlock] = some final ∧
      final.received false = [1, 3] ∧ final.promised false = [1, 2, 3] ∧
      ¬final.received false <+: final.promised false := by
  refine ⟨_, rfl, ?_⟩
  decide +kernel

end ConsoleServer

end Coroserver.Console
