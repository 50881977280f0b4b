import NmosReference.Library.Dict
import NmosReference.Library.Sort
import Mathlib

namespace Raft

-- Who owns a Node, and the log index that decided it.
structure Ownership where
  owner : Nat
  epoch : Nat
  deriving DecidableEq, Repr

-- The per-Node ownership map, applied from the log.
abbrev OwnershipTable := Dict String Ownership

namespace OwnershipTable

variable (table : OwnershipTable)

def ownerOf (nodeId : String) : Option Ownership :=
  table.get? nodeId

def isOwnedBy (nodeId : String) (member : Nat) : Bool :=
  (table.ownerOf nodeId).any (·.owner = member)

-- Every Node this member owns, in a fixed order.
def nodesOwnedBy (member : Nat) : List String :=
  sortBy (fun x => x) <| (table.items.filter (·.2.owner = member)).map Prod.fst

-- A claim at or below the current epoch is ignored.
def claim (nodeId : String) (owner epoch : Nat) : Bool × OwnershipTable :=
  match table.ownerOf nodeId with
  | some current =>
    if epoch ≤ current.epoch then (false, table) else (true, table.set nodeId { owner, epoch })
  | none         => (true, table.set nodeId { owner, epoch })

def release (nodeId : String) (epoch : Nat) : Bool × OwnershipTable :=
  match table.ownerOf nodeId with
  | some current => if epoch ≤ current.epoch then (false, table) else (true, table.erase nodeId)
  | none         => (false, table)

-- One turn of the loop that releases every Node of a member.
def releaseOne (epoch : Nat) (acc : List String × OwnershipTable) (nodeId : String) :
    List String × OwnershipTable :=
  let (released, table) := acc.2.release nodeId epoch
  (if released then acc.1 ++ [nodeId] else acc.1, table)

-- Releases every Node that `member` owned, and says which ones.
def memberDown (member epoch : Nat) : List String × OwnershipTable :=
  (table.nodesOwnedBy member).foldl (releaseOne epoch) ([], table)

-- The table as it travels in a snapshot: the entries in sorted order.
def encode : List (String × Ownership) :=
  sortBy Prod.fst table.items

def decode (entries : List (String × Ownership)) : OwnershipTable :=
  entries.foldl (fun table (nodeId, held) => table.set nodeId held) ∅

end OwnershipTable
end Raft
