import NmosReference.Library.Sort
import NmosReference.Raft.CatchUpRuns
import NmosReference.Raft.Log
import NmosReference.Raft.Messages
import NmosReference.Raft.OperationCodec
import NmosReference.Raft.Persist
import NmosReference.Raft.SnapshotCodec

open Protobuf Registry

-- One member's consensus state machine.
namespace Raft

inductive Role
  | follower
  | preCandidate
  | candidate
  | leader
deriving DecidableEq, Repr

structure RaftTiming where
  electionMin         : Rat
  electionMax         : Rat
  maxEntriesPerAppend : Nat
  maxAppendBytes      : Nat
  maxApplyBatch       : Nat
  compactionThreshold : Nat
  maxLogEntries       : Nat
  snapshotChunk       : Nat

structure RaftLayout where
  members : List Nat
  self    : Nat

def RaftLayout.size (layout : RaftLayout) : Nat :=
  layout.members.length

def RaftLayout.quorum (layout : RaftLayout) : Nat :=
  layout.size / 2 + 1

structure SnapshotMeta where
  lastIndex : Nat
  lastTerm  : Nat
  resources : Nat
deriving DecidableEq, Repr

-- What a leader knows of one peer.
structure PeerState where
  nextIndex       : Nat
  matchIndex      : Nat
  up              : Bool
  incarnation     : Nat
  catchingUp      : Bool
  promoteThrough  : Nat
  pendingThrough  : Nat
  pendingRequest  : Nat
  pendingSince    : Rat
  sentCommit      : Nat
  heardRequest    : Nat
  replyFloor      : Nat
  lastHeardAt     : Rat
  snapshotOffset  : Nat
  -- The snapshot being transferred, pinned for the whole transfer.
  sending         : Option (SnapshotMeta × Bytes)
  snapshotRequest : Nat
  snapshotCarrier : Option Nat

def PeerState.new : PeerState where
  nextIndex       := 1
  matchIndex      := 0
  up              := false
  incarnation     := 0
  catchingUp      := false
  promoteThrough  := 0
  pendingThrough  := 0
  pendingRequest  := 0
  pendingSince    := 0
  sentCommit      := 0
  heardRequest    := 0
  replyFloor      := 0
  lastHeardAt     := 0
  snapshotOffset  := 0
  sending         := none
  snapshotRequest := 0
  snapshotCarrier := none

-- Which snapshot a chunk belongs to.
structure Identity where
  term      : Nat
  leader    : Nat
  lastIndex : Nat
  lastTerm  : Nat
deriving DecidableEq, Repr

structure Assembly where
  identity : Identity
  data     : Bytes
deriving DecidableEq, Repr

-- The chunk, at its offset, is part of what was assembled already.
def isHeld (assembled : Bytes) (offset : Nat) (chunk : Bytes) : Bool :=
  offset + chunk.length ≤ assembled.length && (assembled.drop offset).take chunk.length == chunk

structure Sent where
  peer    : Nat
  stream  : Stream
  message : Message
deriving DecidableEq, Repr

-- Why a member stopped.
inductive MemberFailure
  | contradictsCommitted (leader term index claimed held : Nat)
  | log (fault : LogFault)
  | unexpected
  | appliedPastCommit (applied committed : Nat)
  | commitPastLog (committed first last snapshot : Nat)
deriving DecidableEq, Repr

-- Where the task that applies committed entries stands between two yields.
inductive Applier
  | waiting
  | applying
  -- A snapshot of everything through `index` is being serialised.
  | compacting (index term discardTo : Nat)
deriving DecidableEq, Repr

structure RaftNode where
  layout            : RaftLayout
  timing            : RaftTiming
  compacts          : Bool
  file              : TermStore
  term              : Nat
  votedFor          : Option Nat
  incarnation       : Nat
  machine           : StateMachine
  role              : Role
  leader            : Option Nat
  commitIndex       : Nat
  log               : RaftLog RegistryOperation
  peers             : Dict Nat PeerState
  voting            : Bool
  votes             : List Nat
  preVotes          : List Nat
  preRefusals       : List Nat
  forgotten         : List Nat
  preForgotten      : List Nat
  appendSequence    : Nat
  sequence          : Nat
  deadline          : Rat
  heardFromLeaderAt : Rat
  snapshot          : Bytes
  snapshotMeta      : Option SnapshotMeta
  installing        : Dict Nat Assembly
  failure           : Option MemberFailure
  closing           : Bool
  applyWake         : Bool
  applier           : Applier
  -- What was handed to the transport, in order.
  sent              : List Sent

-- What a step reads from outside: the clocks, the timer drawn, the links and the disk.
structure Env where
  now             : Rat
  electionTimeout : Rat
  bulk            : Nat → Option Nat
  save            : PersistentState → SaveOutcome
  clock           : Nat → TaiCursor

inductive NodeFault
  | osError
  | protocol (reason : String)
  | log (fault : LogFault)
deriving DecidableEq, Repr

abbrev NodeM :=
  Handler RaftNode NodeFault

namespace RaftNode

variable (env : Env) (n : RaftNode)

def lastApplied : Nat :=
  n.machine.lastApplied

def send (peer : Nat) (message : Message) (stream : Stream) : RaftNode :=
  { n with sent := n.sent ++ [⟨peer, stream, message⟩] }

def setPeer (peer : Nat) (state : PeerState) : RaftNode :=
  { n with peers := n.peers.set peer state }

def resetElectionTimer : RaftNode :=
  { n with deadline := env.now + env.electionTimeout }

def reachesAMajority : Bool :=
  n.layout.quorum ≤ 1 + (n.peers.values.filter (·.up)).length

def quorumIsAnswering : Bool :=
  n.layout.quorum ≤ 1 + (n.peers.values.filter fun peer => env.now - peer.lastHeardAt < n.timing.electionMax).length

def leaderLeaseHolds : Bool :=
  n.role ≠ .leader && n.leader.isSome && env.now - n.heardFromLeaderAt < n.timing.electionMin

def persistentState : PersistentState where
  term              := n.term
  votedFor          := n.votedFor
  incarnation       := n.incarnation
  cursorReservation := n.machine.cursors.reserved

def persist : NodeM Unit := fun n =>
  let outcome := env.save n.persistentState
  let n := { n with file := n.file.save n.persistentState outcome }
  (if outcome = .saved then .ok () else .error .osError, n)

-- A tally of votes, and what was learned of who forgot its log, is over.
def clearTallies : RaftNode :=
  { n with votes := [], preVotes := [], preRefusals := [], forgotten := [], preForgotten := [] }

def relinquish : RaftNode :=
  if n.role = .leader then
    resetElectionTimer env { n.clearTallies with role := .follower, leader := none }
  else
    n

def fail (failure : MemberFailure) : RaftNode :=
  if n.failure.isSome then
    n
  else
    relinquish env { n with failure := some failure, closing := true }

def stepDown (term : Nat) : NodeM Unit := fun n =>
  (persist env).run
    { n.clearTallies with term, installing := ∅, votedFor := none, role := .follower, leader := none }

def adoptTerm (term : Nat) : NodeM Unit := fun n =>
  if n.term < term then (stepDown env term).run n else (.ok (), n)

def nextProposal : ProposalId × RaftNode :=
  (⟨n.layout.self, n.sequence + 1⟩, { n with sequence := n.sequence + 1 })

def appendLocal (operations : List RegistryOperation) : Except NodeFault RaftNode := do
  let values ← operations.mapM fun op => do
    match encodeOperation op with
    | .ok payload   => return (payload, op)
    | .error reason => .error <| .protocol reason
  return { n with log := n.log.append n.term values }

section Send

variable (peer : Nat) (state : PeerState)

def sendKeepalive : RaftNode :=
  let requestId := n.appendSequence + 1
  let n := { n with appendSequence := requestId }.setPeer peer { state with sentCommit := 0 }
  n.send peer (.appendEntries {
    term         := n.term
    leader       := n.layout.self
    prevLogIndex := 0
    prevLogTerm  := 0
    leaderCommit := 0
    requestId
    entries      := [] }) .control

-- The transfer goes on, or starts with the snapshot as it stands.
def sendChunk (carrier : Nat) (current : SnapshotMeta × Bytes) : RaftNode :=
  let starts := state.snapshotOffset = 0 ∨ state.sending.isNone
  let (sentMeta, payload) := if starts then current else state.sending.getD current
  let offset := if starts then 0 else state.snapshotOffset
  let chunk := (payload.drop offset).take n.timing.snapshotChunk
  let requestId := n.appendSequence + 1
  let n := { n with appendSequence := requestId }.setPeer peer
    { state with
      sending := some (sentMeta, payload), snapshotOffset := offset, snapshotRequest := requestId,
      snapshotCarrier := some carrier }
  n.send peer (.installSnapshot {
    term      := n.term
    leader    := n.layout.self
    lastIndex := sentMeta.lastIndex
    lastTerm  := sentMeta.lastTerm
    offset
    data      := chunk
    done      := payload.length ≤ offset + chunk.length
    ownership := []
    requestId }) .bulk

def sendSnapshot : RaftNode :=
  match n.snapshotMeta with
  | none         => n.sendKeepalive peer state
  | some current =>
    if n.snapshot = [] then
      n.sendKeepalive peer state
    else
      match env.bulk peer with
      | none         =>
        -- Whatever was in flight went with its connection.
        n.sendKeepalive peer { state with snapshotRequest := 0 }
      | some carrier =>
        if state.snapshotRequest ≠ 0 ∧ state.snapshotCarrier = some carrier then
          n.sendKeepalive peer state
        else
          n.sendChunk peer { state with snapshotRequest := 0 } carrier (current, n.snapshot)

-- Entries that are in flight are not sent again before a while.
def carryingEntriesWouldRepeatThem : Bool × PeerState :=
  if state.pendingRequest = 0 then
    (false, state)
  else if n.timing.electionMin ≤ env.now - state.pendingSince then
    (false, { state with pendingRequest := 0 })
  else
    (true, state)

def sendEntries (prevTerm : Nat) (entries : List (LogEntry RegistryOperation)) : RaftNode :=
  let previous := state.nextIndex - 1
  let requestId := n.appendSequence + 1
  let last := (entries.getLast?.map (·.index)).getD previous
  let state := if entries = [] then state else
    { state with pendingThrough := last, pendingRequest := requestId, pendingSince := env.now }
  let n := { n with appendSequence := requestId }.setPeer peer
    { state with sentCommit := min n.commitIndex last }
  n.send peer (.appendEntries {
    term         := n.term
    leader       := n.layout.self
    prevLogIndex := previous
    prevLogTerm  := prevTerm
    leaderCommit := n.commitIndex
    requestId
    entries      := entries.map fun e => { term := e.term, index := e.index, payload := e.payload } }) .control

def sendAppend : RaftNode :=
  let read := do
    let prevTerm ← n.log.termAt (state.nextIndex - 1)
    let entries ← n.log.window state.nextIndex n.timing.maxEntriesPerAppend n.timing.maxAppendBytes
    return (prevTerm, entries)
  match read with
  | .ok (prevTerm, entries)  =>
    let (repeats, state) := n.carryingEntriesWouldRepeatThem env state
    n.sendEntries env peer state prevTerm (if repeats then [] else entries)
  | .error (.compacted _ _) => n.sendSnapshot env peer state
  -- `nextIndex` is never past the end of the log.
  | .error _                => n.fail env .unexpected

end Send

def replicateTo (peer : Nat) : RaftNode :=
  match n.peers.get? peer with
  | some state => if state.up then n.sendAppend env peer state else n
  | none       => n

def replicate : RaftNode :=
  n.peers.keys.foldl (replicateTo env) n

def scheduleApply : RaftNode :=
  { n with applyWake := true }

-- The index that a quorum holds, this member included.
def quorumIndex : Option Nat :=
  let counted := n.peers.values.filter (!·.catchingUp) |>.map (·.matchIndex) |> sortBy OrderDual.toDual
  let needed := n.layout.quorum - 1
  if needed = 0 then some n.log.lastIndex else counted[needed - 1]?

def advanceCommit : RaftNode :=
  match n.quorumIndex with
  | none           => n
  | some candidate =>
    if candidate ≤ n.commitIndex ∨ n.log.termAt candidate ≠ .ok n.term then
      n
    else
      replicate env (scheduleApply { n with commitIndex := candidate })

end RaftNode
end Raft
