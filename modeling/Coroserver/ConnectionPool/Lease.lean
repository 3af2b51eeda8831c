import Mathlib.Data.List.Basic

/-! `PooledConnection` is a move-only handle. The objects that exist are kept in a
table, together with a ledger that records for every lease the pool has issued
how often it was given back. The ledger and the tokens of the objects are
observations only: no operation reads them. -/

namespace Coroserver.ConnectionPool

structure EndpointKey where
  hostOrPath : String := ""
  port : String := ""
deriving DecidableEq

/-- `pool` tells whether the shared pointer to the pool is set. Clients are
numbered in the order in which the pool makes them. -/
structure PooledConnection where
  pool : Bool := false
  key : EndpointKey := {}
  client : Option Nat := none
  valid : Bool := false
  token : Nat := 0
deriving DecidableEq

structure GiveBack where
  key : EndpointKey
  client : Option Nat
  valid : Bool
  token : Nat

namespace PooledConnection

variable (lease : PooledConnection)

def release : PooledConnection × Option GiveBack :=
  if lease.pool && lease.client.isSome then
    ({ lease with pool := false, client := none, valid := false },
      some ⟨lease.key, lease.client, lease.valid, lease.token⟩)
  else ({ lease with client := none, valid := false }, none)

def movedFrom : PooledConnection :=
  { lease with pool := false, key := {}, client := none, valid := false }

/-- The target first releases what it holds; the results are the target, the
source and the call of `returnConnection`. -/
def moveAssign (other : PooledConnection) : PooledConnection × PooledConnection × Option GiveBack :=
  (other, other.movedFrom, lease.release.2)

def markInvalid : PooledConnection := { lease with valid := false }

def releaseClient : PooledConnection × Option GiveBack :=
  ({ lease with pool := false, client := none, valid := false },
    if lease.pool then some ⟨lease.key, none, false, lease.token⟩ else none)

end PooledConnection

/-- A lease the pool has issued; the epoch counts the calls of `clear` before it. -/
structure LeaseRecord where
  key : EndpointKey
  epoch : Nat
  givenBack : Nat := 0

/-- Destroyed objects stay in the table as `none`. -/
structure LeaseTable where
  objects : List (Option PooledConnection) := []
  ledger : List LeaseRecord := []
  /-- Clients that were marked invalid or taken out. -/
  retired : List Nat := []

inductive LeaseOp where
  | construct
  | moveConstruct (source : Nat)
  | moveAssign (target source : Nat)
  | markInvalid (object : Nat)
  | release (object : Nat)
  | releaseClient (object : Nat)
  | destroy (object : Nat)
deriving DecidableEq

namespace LeaseTable

variable (table : LeaseTable)

def object? (object : Nat) : Option PooledConnection :=
  (table.objects[object]?).join

def issue (key : EndpointKey) (client : Nat) (epoch : Nat) : LeaseTable :=
  { table with
    objects := table.objects ++ [some ⟨true, key, some client, true, table.ledger.length⟩]
    ledger := table.ledger ++ [{ key, epoch }] }

def place (object : Nat) (lease : Option PooledConnection) : LeaseTable :=
  { table with objects := table.objects.set object lease }

def recordGiveBack : Option GiveBack → LeaseTable
  | none => table
  | some given =>
    match table.ledger[given.token]? with
    | none => table
    | some record =>
      { table with
        ledger := table.ledger.set given.token
          { record with givenBack := record.givenBack + 1 } }

def retire (client : Option Nat) : LeaseTable :=
  { table with retired := table.retired ++ client.toList }

def apply : LeaseOp → Option (LeaseTable × Option GiveBack)
  | .construct => some ({ table with objects := table.objects ++ [some {}] }, none)
  | .moveConstruct source =>
    match table.object? source with
    | none => none
    | some other =>
      some ({ table with
        objects := table.objects.set source (some other.movedFrom) ++ [some other] }, none)
  | .moveAssign target source =>
    match table.object? target, table.object? source with
    | some lease, some other =>
      if target = source then some (table, none)
      else
        let (assigned, left, given) := lease.moveAssign other
        some (((table.place target (some assigned)).place source (some left)).recordGiveBack
          given, given)
    | _, _ => none
  | .markInvalid object =>
    match table.object? object with
    | none => none
    | some lease =>
      some ((table.place object (some lease.markInvalid)).retire lease.client, none)
  | .release object =>
    match table.object? object with
    | none => none
    | some lease =>
      let (released, given) := lease.release
      some ((table.place object (some released)).recordGiveBack given, given)
  | .releaseClient object =>
    match table.object? object with
    | none => none
    | some lease =>
      let (released, given) := lease.releaseClient
      some (((table.place object (some released)).retire lease.client).recordGiveBack given,
        given)
  | .destroy object =>
    match table.object? object with
    | none => none
    | some lease => some ((table.place object none).recordGiveBack lease.release.2,
        lease.release.2)

end LeaseTable

end Coroserver.ConnectionPool
