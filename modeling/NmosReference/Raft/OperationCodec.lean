import NmosReference.Library.Protobuf
import NmosReference.Raft.Operations

-- The bytes of an operation: its kind, and a body whose fields depend on the kind.
namespace Raft

open Protobuf Registry

inductive OpKind
  | noop | register | unregister | expire | forget | claimOwnership | releaseOwnership | memberDown
  deriving DecidableEq, Repr

namespace OpKind

def all : List OpKind :=
  [noop, register, unregister, expire, forget, claimOwnership, releaseOwnership, memberDown]

def value : OpKind → Nat
  | noop             => 0
  | register         => 1
  | unregister       => 2
  | expire           => 3
  | forget           => 4
  | claimOwnership   => 5
  | releaseOwnership => 6
  | memberDown       => 7

def ofValue (value : Nat) : Except String OpKind :=
  match all.find? (·.value = value) with
  | some kind => .ok kind
  | none      => .error s!"unknown operation kind {value}"

theorem ofValue_value {kind : OpKind} : ofValue kind.value = .ok kind := by
  cases kind <;> rfl

end OpKind

-- An integer that is written as a varint.
def varint (value : Int) : Except String Nat :=
  if value < 0 then .error s!"varint cannot encode {value}" else .ok value.toNat

theorem varint_of_nonneg {value : Int} (h : 0 ≤ value) : varint value = .ok value.toNat :=
  if_neg (by omega)

def resourceType [Python] (value : String) : Except String ResourceType :=
  match ResourceType.all.find? (·.value = value) with
  | some t => .ok t
  | none   => .error s!"unknown resource type {Python.repr value}"

theorem resourceType_value [Python] {t : ResourceType} : resourceType t.value = .ok t := by
  cases t <;> rfl

namespace ProposalId

def fields (p : ProposalId) : List Field :=
  [.uint 1 p.member, .uint 2 p.sequence]

def decoder : Decoder ProposalId
  | p, 1 => .uint fun member => .ok { p with member }
  | p, 2 => .uint fun sequence => .ok { p with sequence }
  | _, _ => .skip

def read : Bytes → Except String ProposalId :=
  decode decoder { member := 0, sequence := 0 }

end ProposalId

namespace Cursor

def fields (seconds nanoseconds : Nat) : List Field :=
  [.uint 1 seconds, .uint 2 nanoseconds]

def decoder : Decoder TaiCursor
  | c, 1 => .uint fun seconds => .ok { c with seconds }
  | c, 2 => .uint fun nanoseconds => .ok { c with nanoseconds }
  | _, _ => .skip

def encode (c : TaiCursor) : Except String Bytes := do
  .ok <| Protobuf.encode (fields (← varint c.seconds) (← varint c.nanoseconds))

def read : Bytes → Except String TaiCursor :=
  decode decoder { seconds := 0, nanoseconds := 0 }

end Cursor

-- What an operation forgets.
namespace Victim

def fields (victim : ResourceType × String) : List Field :=
  [.string 1 victim.1.value, .string 2 victim.2]

def decoder : Decoder (String × String)
  | (_, id), 1   => .string fun name => .ok (name, id)
  | (name, _), 2 => .string fun id => .ok (name, id)
  | _, _         => .skip

def read [Python] (payload : Bytes) : Except String (ResourceType × String) := do
  let (name, id) ← decode decoder ("", "") payload
  .ok (← resourceType name, id)

end Victim

namespace RegistryOperation

def kind : RegistryOperation → OpKind
  | noop ..             => .noop
  | register ..         => .register
  | unregister ..       => .unregister
  | expire ..           => .expire
  | forget ..           => .forget
  | claimOwnership ..   => .claimOwnership
  | releaseOwnership .. => .releaseOwnership
  | memberDown ..       => .memberDown

-- The two cursors of a registration.
def cursors : RegistryOperation → List TaiCursor
  | register op => [op.created, op.updated]
  | _           => []

def victims : RegistryOperation → List (ResourceType × String)
  | forget _ victims => victims
  | _                => []

def health : RegistryOperation → Int
  | register op => op.health
  | _           => 0

-- The fields of the body, given the payloads of what it nests. The health is written by its value.
def fields (proposal : Bytes) (cursors victims : List Bytes) (health : Nat) :
    RegistryOperation → List Field
  | noop _                   => [.bytes 1 proposal]
  | register op              =>
    [.bytes 1 proposal, .string 2 op.resourceType.value, .string 3 op.resourceId, .string 4 op.nodeId,
      .string 5 op.bodyText] ++ List.zipWith .bytes [6, 7] cursors ++
    [.uint 8 health, .bool 9 op.expectCreated] ++ (op.claimOwner.map (.uint 10)).toList
  | unregister _ t id        => [.bytes 1 proposal, .string 2 t.value, .string 3 id]
  | expire _ nodeId          => [.bytes 1 proposal, .string 2 nodeId]
  | forget _ _               => .bytes 1 proposal :: victims.map (.bytes 2)
  | claimOwnership _ id owner => [.bytes 1 proposal, .string 2 id, .uint 3 owner]
  | releaseOwnership _ id    => [.bytes 1 proposal, .string 2 id]
  | memberDown _ member      => [.bytes 1 proposal, .uint 2 member]

end RegistryOperation

def encodeOperation (op : RegistryOperation) : Except String Bytes := do
  let cursors ← op.cursors.mapM Cursor.encode
  let health ← varint op.health
  let body := encode <| op.fields (encode op.proposal.fields) cursors
    (op.victims.map fun victim => encode (Victim.fields victim)) health
  .ok <| encode [.uint 1 op.kind.value, .bytes 2 body]

structure OperationHead where
  kindValue : Option Nat
  body      : Bytes

def OperationHead.decoder : Decoder OperationHead
  | s, 1 => .uint fun value => .ok { s with kindValue := value }
  | s, 2 => .bytes fun body => .ok { s with body }
  | _, _ => .skip

-- What the fields of a body give, whatever the kind.
structure OperationBody where
  proposal         : ProposalId
  resourceTypeName : String
  resourceId       : String
  nodeId           : String
  bodyText         : String
  created          : TaiCursor
  updated          : TaiCursor
  health           : Nat
  expectCreated    : Bool
  claimOwner       : Option Nat
  member           : Nat
  victims          : List (ResourceType × String)

namespace OperationBody

def empty : OperationBody where
  proposal         := { member := 0, sequence := 0 }
  resourceTypeName := ""
  resourceId       := ""
  nodeId           := ""
  bodyText         := ""
  created          := .min
  updated          := .min
  health           := 0
  expectCreated    := false
  claimOwner       := none
  member           := 0
  victims          := []

def decoder [Python] (kind : OpKind) : Decoder OperationBody := fun s number =>
  match kind, number with
  | _,                 1  => .bytes fun b => do .ok { s with proposal := ← ProposalId.read b }
  | .register,         2  => .string fun resourceTypeName => .ok { s with resourceTypeName }
  | .register,         3  => .string fun resourceId => .ok { s with resourceId }
  | .register,         4  => .string fun nodeId => .ok { s with nodeId }
  | .register,         5  => .string fun bodyText => .ok { s with bodyText }
  | .register,         6  => .bytes fun b => do .ok { s with created := ← Cursor.read b }
  | .register,         7  => .bytes fun b => do .ok { s with updated := ← Cursor.read b }
  | .register,         8  => .uint fun health => .ok { s with health }
  | .register,         9  => .bool fun expectCreated => .ok { s with expectCreated }
  | .register,         10 => .uint fun claimOwner => .ok { s with claimOwner }
  | .unregister,       2  => .string fun resourceTypeName => .ok { s with resourceTypeName }
  | .unregister,       3  => .string fun resourceId => .ok { s with resourceId }
  | .expire,           2  => .string fun nodeId => .ok { s with nodeId }
  | .releaseOwnership, 2  => .string fun nodeId => .ok { s with nodeId }
  | .forget,           2  => .bytes fun b => do .ok { s with victims := s.victims ++ [← Victim.read b] }
  | .claimOwnership,   2  => .string fun nodeId => .ok { s with nodeId }
  | .claimOwnership,   3  => .uint fun claimOwner => .ok { s with claimOwner }
  | .memberDown,       2  => .uint fun member => .ok { s with member }
  | _,                 _  => .skip

def operation [Python] (s : OperationBody) : OpKind → Except String RegistryOperation
  | .noop             => .ok (.noop s.proposal)
  | .register         => do
    .ok <| .register {
      proposal      := s.proposal
      resourceType  := ← resourceType s.resourceTypeName
      resourceId    := s.resourceId
      nodeId        := s.nodeId
      bodyText      := s.bodyText
      created       := s.created
      updated       := s.updated
      health        := s.health
      expectCreated := s.expectCreated
      claimOwner    := s.claimOwner }
  | .unregister       => do .ok <| .unregister s.proposal (← resourceType s.resourceTypeName) s.resourceId
  | .expire           => .ok (.expire s.proposal s.nodeId)
  | .forget           => .ok (.forget s.proposal s.victims)
  | .claimOwnership   =>
    match s.claimOwner with
    | some owner => .ok (.claimOwnership s.proposal s.nodeId owner)
    | none       => .error "ownership claim names no owner"
  | .releaseOwnership => .ok (.releaseOwnership s.proposal s.nodeId)
  | .memberDown       => .ok (.memberDown s.proposal s.member)

end OperationBody

def decodeOperation [Python] (data : Bytes) : Except String RegistryOperation := do
  let head ← decode OperationHead.decoder { kindValue := none, body := [] } data
  match head.kindValue with
  | none           => .error "operation has no kind"
  | some kindValue =>
    let kind ← OpKind.ofValue kindValue
    let body ← decode (OperationBody.decoder kind) .empty head.body
    body.operation kind

end Raft
