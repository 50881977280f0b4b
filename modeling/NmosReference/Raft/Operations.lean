import NmosReference.Registry.Types

namespace Raft

open Registry

-- Identifies a proposal so that its originator can be answered.
structure ProposalId where
  member   : Nat
  sequence : Nat
  deriving DecidableEq, Repr

-- Register or update one resource. The body travels verbatim.
structure RegisterOp where
  proposal      : ProposalId
  resourceType  : ResourceType
  resourceId    : String
  nodeId        : String
  bodyText      : String
  created       : TaiCursor
  updated       : TaiCursor
  health        : Int
  expectCreated : Bool
  -- Fused ownership claim of a Node's first registration.
  claimOwner    : Option Nat
  deriving DecidableEq, Repr

inductive RegistryOperation
  | noop       (proposal : ProposalId)
  | register   (op : RegisterOp)
  | unregister (proposal : ProposalId) (resourceType : ResourceType) (resourceId : String)
  | expire     (proposal : ProposalId) (nodeId : String)
  | forget     (proposal : ProposalId) (victims : List (ResourceType × String))
  | claimOwnership   (proposal : ProposalId) (nodeId : String) (owner : Nat)
  | releaseOwnership (proposal : ProposalId) (nodeId : String)
  | memberDown       (proposal : ProposalId) (member : Nat)
  deriving DecidableEq, Repr

namespace RegistryOperation

def proposal : RegistryOperation → ProposalId
  | noop p | unregister p _ _ | expire p _ | forget p _ => p
  | claimOwnership p _ _ | releaseOwnership p _ | memberDown p _ => p
  | register op => op.proposal

-- A proposer names in a `RegisterOp` the id that it read from the body.
def WellFormed [Python] : RegistryOperation → Prop
  | register op => Python.getStr (Python.loads op.bodyText) "id" = some op.resourceId
  | _           => True

end RegistryOperation
end Raft
