import Mathlib
import NmosReference.Raft.Durable
import NmosReference.Raft.PartyReplication

open Protobuf Registry

-- The members of a cluster, what they send each other, and everything that can happen to them: messages are lost,
-- delayed, repeated and overtaken, links go down, disks fail, and processes die and start again.
namespace Raft

-- The next paging cursor, for which a bound may have to be saved beside the term and the vote.
def RaftNode.allocateCursor (n : RaftNode) (t : ResourceType) (now : TaiCursor) (o : SaveOutcome) :
    Option TaiCursor × RaftNode :=
  let d : Durable := { term := n.term, votedFor := n.votedFor, incarnation := n.incarnation, cursors := n.machine.cursors }
  let (cursor, d, file) := d.allocateCursor t now n.file o
  (cursor, { n with machine := { n.machine with cursors := d.cursors }, file })

-- What a member is told when it starts.
structure ClusterLayout where
  members  : List Nat
  nodup    : members.Nodup
  timing   : RaftTiming
  compacts : Bool
  store    : Nat → RegistryStore
  cursors  : Nat → CursorAllocator

structure Cluster where
  node    : Nat → RaftNode
  running : Nat → Bool
  -- Every message that was ever sent, with its sender and its receiver.
  network : List (Nat × Nat × Message)

inductive ClusterEvent
  | deliver (source target : Nat) (m : Message)
  | own (member : Nat) (e : NodeEvent)
  | allocate (member : Nat) (t : ResourceType) (now : TaiCursor) (o : SaveOutcome)
  | crash (member : Nat)
  | start (member : Nat) (o : SaveOutcome)

-- What happens to a member without a message of another member's handlers.
def NodeEvent.isOwn : NodeEvent → Bool
  | .tick | .drain _ | .propose _ | .read | .peerState _ _ _ | .applyPass | .compacted _ | .unexpected => true
  | _                                                                                             => false

def NodeEvent.received (source : Nat) : Message → Option NodeEvent
  | .requestVote m          => some (.requestVote m)
  | .requestVoteReply m     => some (.requestVoteReply source m)
  | .appendEntries m        => some (.appendEntries m)
  | .appendEntriesReply m   => some (.appendEntriesReply source m)
  | .installSnapshot m      => some (.installSnapshot source m)
  | .installSnapshotReply m => some (.installSnapshotReply source m)
  | .promote m              => some (.promote m)
  | _                       => none

section

variable [Python]

-- What a handler returns is sent back; what it raises is not.
def RaftNode.answer (env : Env) (n : RaftNode) (source : Nat) : Message → Option Message
  | .requestVote m     => ((onRequestVote env m).run n).1.toOption.map .requestVoteReply
  | .appendEntries m   => ((onAppendEntries env m).run n).1.toOption.map .appendEntriesReply
  | .installSnapshot m => ((onInstallSnapshot env source m).run n).1.toOption.map .installSnapshotReply
  | _                  => none

namespace Cluster

variable (layout : ClusterLayout)

def boot (member : Nat) (loaded : PersistentState) : RaftNode :=
  .start ⟨layout.members, member⟩ layout.timing layout.compacts loaded (layout.store member) (layout.cursors member)

-- No member has ever started.
def init : Cluster where
  node member := { boot layout member ⟨0, none, 0, none⟩ with file := none }
  running _   := false
  network     := []

variable (c : Cluster)

-- What a member hands to the transport is on its way.
def replace (member : Nat) (n : RaftNode) (answers : List (Nat × Message)) : Cluster where
  node    := Function.update c.node member { n with sent := [] }
  running := c.running
  network := c.network ++ (n.sent.map fun s => (s.peer, s.message)).map (member, ·) ++ answers.map (member, ·)

def deliver (env : Env) (source target : Nat) (m : Message) : Option Cluster :=
  if c.running target ∧ (source, target, m) ∈ c.network then
    (NodeEvent.received source m).map fun e =>
      c.replace target ((c.node target).step env e) (((c.node target).answer env source m).toList.map (source, ·))
  else
    none

def own (env : Env) (member : Nat) (e : NodeEvent) : Option Cluster :=
  if c.running member ∧ e.isOwn then some (c.replace member ((c.node member).step env e) []) else none

def allocate (member : Nat) (t : ResourceType) (now : TaiCursor) (o : SaveOutcome) : Option Cluster :=
  if c.running member then some (c.replace member ((c.node member).allocateCursor t now o).2 []) else none

def crash (member : Nat) : Cluster :=
  { c with running := Function.update c.running member false }

-- A process starts from the state file, unless it cannot save what it loaded.
def start (member : Nat) (o : SaveOutcome) : Option Cluster :=
  if c.running member ∨ member ∉ layout.members then
    none
  else
    (TermStore.load (c.node member).file).map fun loaded =>
      if o = .saved then
        { c with
          node    := Function.update c.node member (boot layout member loaded)
          running := Function.update c.running member true }
      else
        let n := { c.node member with file := (c.node member).file.save loaded o }
        { c with node := Function.update c.node member n }

def step (c : Cluster) (a : Env × ClusterEvent) : Option Cluster :=
  match a.2 with
  | .deliver source target m    => c.deliver a.1 source target m
  | .own member e               => c.own a.1 member e
  | .allocate member t now o    => c.allocate member t now o
  | .crash member               => some (c.crash member)
  | .start member o             => c.start layout member o

def system : TransitionSystem Cluster (Env × ClusterEvent) where
  init := init layout
  step := step layout

end Cluster
end
end Raft
