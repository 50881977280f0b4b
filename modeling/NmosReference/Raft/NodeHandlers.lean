import NmosReference.Raft.Node

open Protobuf Registry

namespace Raft

-- What is read of a snapshot before it is checked.
structure SnapshotParts where
  version   : Nat
  index     : Nat
  term      : Nat
  count     : Nat
  ownership : Bytes
  records   : List RegisteredResource

def SnapshotParts.empty : SnapshotParts where
  version   := 0
  index     := 0
  term      := 0
  count     := 0
  ownership := []
  records   := []

def SNAPSHOT_VERSION : Nat := 1

section

variable [Python]

def SnapshotParts.decoder : Decoder SnapshotParts
  | s, 1 => .uint fun version => .ok { s with version }
  | s, 2 => .uint fun index => .ok { s with index }
  | s, 3 => .uint fun term => .ok { s with term }
  | s, 4 => .uint fun count => .ok { s with count }
  | s, 5 => .bytes fun ownership => .ok { s with ownership }
  | s, 6 => .bytes fun payload => do
    let r ← Record.read payload
    .ok { s with records := s.records ++ [r] }
  | _, _ => .skip

def decodeSnapshotPayload (payload : Bytes) :
    Except String (SnapshotMeta × OwnershipTable × List RegisteredResource) := do
  let s ← decode SnapshotParts.decoder .empty payload
  if s.version ≠ SNAPSHOT_VERSION then
    .error s!"snapshot version {s.version}, this member understands {SNAPSHOT_VERSION}"
  else if s.count ≠ s.records.length then
    .error s!"snapshot claims {s.count} resources and carries {s.records.length}"
  else
    .ok (⟨s.index, s.term, s.records.length⟩, ← OwnershipTable.read s.ownership, s.records)

namespace RaftNode

variable (env : Env) (n : RaftNode)

-- Elections

def members : List Nat :=
  n.layout.members

def won (votes forgotten : List Nat) : Bool :=
  let proven := n.members.filter fun m => m ∈ forgotten ∨ ¬n.voting ∧ m = n.layout.self
  let granted := n.members.filter (· ∈ votes)
  if n.layout.quorum ≤ (granted.filter (· ∉ proven)).length then
    true
  else if n.layout.quorum ≤ n.layout.size - proven.length then
    false
  else
    n.layout.quorum ≤ granted.length && n.members.all fun m => m ∈ proven || m ∈ granted

def lead (peer : PeerState) : PeerState :=
  { peer with
    nextIndex := n.log.lastIndex + 1, matchIndex := 0, lastHeardAt := env.now, catchingUp := false,
    promoteThrough := 0, pendingThrough := 0, pendingRequest := 0, pendingSince := 0, sentCommit := 0,
    replyFloor := n.appendSequence, heardRequest := 0, snapshotOffset := 0, snapshotRequest := 0,
    sending := none }

def becomeLeader : Except NodeFault RaftNode := do
  let n := { n with
    role := .leader, leader := some n.layout.self, voting := true, peers := n.peers.map fun _ => n.lead env }
  let (proposal, n) := n.nextProposal
  let n ← n.appendLocal [.noop proposal]
  return n.replicate env

def broadcast (message : Message) : RaftNode :=
  n.peers.keys.foldl (fun n peer => n.send peer message .control) n

-- A pure step, after which an exception leaves the state as it was when it was raised.
def lift (r : Except NodeFault RaftNode) (n : RaftNode) : Except NodeFault Unit × RaftNode :=
  match r with
  | .ok n'   => (.ok (), n')
  | .error e => (.error e, n)

def standForElection : RaftNode :=
  { n with role := .candidate, term := n.term + 1, installing := ∅, votedFor := some n.layout.self }

-- The vote of the candidate itself is durable, and counted.
def requestVotes : NodeM Unit := fun n =>
  let n := resetElectionTimer env { n with votes := [n.layout.self], forgotten := [], leader := none }
  if n.won n.votes n.forgotten then
    lift (n.becomeLeader env) n
  else
    (.ok (), n.broadcast <| .requestVote {
      term         := n.term
      candidate    := n.layout.self
      lastLogIndex := n.log.lastIndex
      lastLogTerm  := n.log.lastTerm
      preVote      := false })

def campaign : NodeM Unit := do
  modify standForElection
  persist env
  requestVotes env

def preCampaign : NodeM Unit := fun n =>
  let n := resetElectionTimer env { n with
    role := .preCandidate, leader := none, preVotes := [n.layout.self], preRefusals := [], preForgotten := [] }
  if n.won n.preVotes n.preForgotten then
    (campaign env).run n
  else
    (.ok (), n.broadcast <| .requestVote {
      term         := n.term + 1
      candidate    := n.layout.self
      lastLogIndex := n.log.lastIndex
      lastLogTerm  := n.log.lastTerm
      preVote      := true })

def tick : NodeM Unit := fun n =>
  if n.role = .leader then
    (.ok (), if n.quorumIsAnswering env then n.replicate env else n.relinquish env)
  else if ¬n.reachesAMajority then
    (.ok (), n.resetElectionTimer env)
  else if env.now < n.deadline then
    (.ok (), n)
  else
    (preCampaign env).run n

def answerPreVote (m : RequestVote) : RequestVoteReply :=
  let granted := n.term < m.term && n.log.isAtLeastAsCurrentAs m.lastLogIndex m.lastLogTerm
  { term := if granted then m.term else n.term, granted, voting := n.voting, preVote := true }

def refuseVote : RequestVoteReply where
  term    := n.term
  granted := false
  voting  := n.voting
  preVote := false

def grantVote (m : RequestVote) : NodeM RequestVoteReply := do
  modify fun n => { n with votedFor := some m.candidate }
  persist env
  modifyGet fun n => ({ n.refuseVote with granted := true }, n.resetElectionTimer env)

-- A vote, once the term of the request is the member's own.
def vote (m : RequestVote) : NodeM RequestVoteReply := fun n =>
  let free := n.votedFor.isNone ∨ n.votedFor = some m.candidate
  if m.term = n.term ∧ free ∧ n.log.isAtLeastAsCurrentAs m.lastLogIndex m.lastLogTerm then
    (grantVote env m).run n
  else
    (.ok n.refuseVote, n)

def onRequestVote (m : RequestVote) : NodeM RequestVoteReply := fun n =>
  if n.leaderLeaseHolds env then
    (.ok { n.refuseVote with preVote := m.preVote }, n)
  else if m.preVote then
    (.ok (n.answerPreVote m), n)
  else
    (adoptTerm env m.term >>= fun _ => vote env m).run n

def countPreVote (peer : Nat) (m : RequestVoteReply) : RaftNode :=
  { n with
    preVotes := n.preVotes.insert peer
    preForgotten := if m.voting then n.preForgotten else n.preForgotten.insert peer }

def onPreVote : NodeM Unit := fun n =>
  if n.won n.preVotes n.preForgotten then (campaign env).run n else (.ok (), n)

def countVote (peer : Nat) (m : RequestVoteReply) : RaftNode :=
  { n with
    forgotten := if m.voting then n.forgotten else n.forgotten.insert peer
    votes := if m.granted then n.votes.insert peer else n.votes }

def onVote : NodeM Unit := fun n =>
  if n.won n.votes n.forgotten then lift (n.becomeLeader env) n else (.ok (), n)

def onPreVoteReply (peer : Nat) (m : RequestVoteReply) : NodeM Unit := fun n =>
  if ¬m.granted ∧ n.term < m.term then
    (stepDown env m.term).run n
  else if n.role ≠ .preCandidate then
    (.ok (), n)
  else if m.granted ∧ m.term = n.term + 1 then
    (onPreVote env).run <| n.countPreVote peer m
  else if ¬m.granted then
    let n := { n with preRefusals := n.preRefusals.insert peer }
    if n.layout.size - n.preRefusals.length < n.layout.quorum then
      (.ok (), resetElectionTimer env { n with role := .follower, preVotes := [], preRefusals := [] })
    else
      (.ok (), n)
  else
    (.ok (), n)

def onRequestVoteReply (peer : Nat) (m : RequestVoteReply) : NodeM Unit := fun n =>
  if m.preVote then
    (onPreVoteReply env peer m).run n
  else if n.term < m.term then
    (stepDown env m.term).run n
  else if n.role ≠ .candidate ∨ m.term ≠ n.term then
    (.ok (), n)
  else
    (onVote env).run <| n.countVote peer m

-- Replication

def followLeader (leader : Nat) : RaftNode :=
  resetElectionTimer env { n with role := .follower, leader := some leader }

def appendReject : AppendEntriesReply where
  term          := n.term
  success       := false
  matchIndex    := 0
  conflictIndex := 0
  conflictTerm  := 0
  catchingUp    := !n.voting
  requestId     := 0

def appendAnswer (success : Bool) (matchIndex : Nat) (conflict : Nat × Nat) (m : AppendEntries) :
    AppendEntriesReply where
  term          := n.term
  success       := success
  matchIndex    := matchIndex
  conflictIndex := conflict.1
  conflictTerm  := conflict.2
  catchingUp    := !n.voting
  requestId     := m.requestId

-- An entry committed here that the leader holds at another term.
def contradictingCommitted (m : AppendEntries) : Option MemberFailure :=
  ((m.prevLogIndex, m.prevLogTerm) :: m.entries.map fun wire => (wire.index, wire.term)).findSome? fun claim =>
    if n.log.snapshotIndex ≤ claim.1 ∧ claim.1 ≤ min n.commitIndex n.log.lastIndex then
      match n.log.termAt claim.1 with
      | .ok held => if held = claim.2 then none else some (.contradictsCommitted m.leader m.term claim.1 claim.2 held)
      | .error _ => none
    else
      none

def decodeEntries (entries : List WireEntry) : Except String (List (LogEntry RegistryOperation)) :=
  entries.mapM fun wire => do
    let value ← decodeOperation wire.payload
    return { term := wire.term, index := wire.index, value, payload := wire.payload }

-- What is committed once the entries of the message are held.
def commitThrough (m : AppendEntries) : RaftNode :=
  let advanced := min m.leaderCommit (m.prevLogIndex + m.entries.length)
  if n.commitIndex < advanced then scheduleApply { n with commitIndex := advanced } else n

def extendLog (m : AppendEntries) : AppendEntriesReply × RaftNode :=
  match decodeEntries m.entries with
  | .error _    => (n.appendAnswer false 0 (0, 0) m, n)
  | .ok entries =>
    match (RaftLog.appendReplicated n.commitIndex entries).run n.log with
    | (.ok (), log)                        =>
      let n := commitThrough { n with log } m
      (n.appendAnswer true (m.prevLogIndex + m.entries.length) (0, 0) m, n)
    | (.error (.notContiguous _ _), log)   =>
      let n := { n with log }
      (n.appendAnswer false 0 (0, 0) m, n)
    | (.error fault, log)                  =>
      let n := fail env { n with log } (.log fault)
      (n.appendReject, n)

def answerAppend (m : AppendEntries) : AppendEntriesReply × RaftNode :=
  match n.contradictingCommitted m with
  | some failure =>
    let n := n.fail env failure
    (n.appendReject, n)
  | none         =>
    if m.prevLogIndex < n.commitIndex then
      (n.appendAnswer true n.commitIndex (0, 0) m, n)
    else if ¬n.log.holds m.prevLogIndex m.prevLogTerm then
      (n.appendAnswer false 0 (n.log.findConflict m.prevLogIndex m.prevLogTerm) m, n)
    else
      n.extendLog env m

def hearLeader (leader : Nat) : RaftNode :=
  { n.followLeader env leader with heardFromLeaderAt := env.now }

def onAppendEntries (m : AppendEntries) : NodeM AppendEntriesReply := fun n =>
  if m.term < n.term then
    (.ok n.appendReject, n)
  else
    (adoptTerm env m.term >>= fun _ => modifyGet fun n => (n.hearLeader env m.leader).answerAppend env m).run n

def shouldSendNow (state : PeerState) : Bool :=
  state.pendingRequest = 0 &&
    (state.nextIndex ≤ n.log.lastIndex ||
      state.sentCommit < n.commitIndex && state.sentCommit < state.nextIndex - 1)

def heardFrom (state : PeerState) (m : AppendEntriesReply) : PeerState :=
  { state with
    pendingRequest := if m.requestId ≠ 0 ∧ m.requestId = state.pendingRequest then 0 else state.pendingRequest
    lastHeardAt := env.now
    catchingUp := m.catchingUp
    promoteThrough := if m.catchingUp ∧ ¬state.catchingUp then n.log.lastIndex else state.promoteThrough
    heardRequest := if m.catchingUp then state.heardRequest else max state.heardRequest m.requestId }

def onRejected (peer : Nat) (state : PeerState) (m : AppendEntriesReply) : RaftNode :=
  let resume := max 1 m.conflictIndex
  if state.nextIndex ≤ resume then
    n
  else
    let state := { state with nextIndex := resume, sentCommit := min state.sentCommit (resume - 1) }
    (n.setPeer peer state).sendAppend env peer state

def credit (state : PeerState) (m : AppendEntriesReply) : PeerState :=
  let matchIndex := max state.matchIndex (min m.matchIndex n.log.lastIndex)
  { state with matchIndex, nextIndex := max state.nextIndex (matchIndex + 1) }

def promote (peer : Nat) (state : PeerState) : RaftNode :=
  if state.catchingUp ∧ state.promoteThrough ≤ state.matchIndex then
    (n.setPeer peer { state with catchingUp := false }).send peer (.promote {
      term         := n.term
      leader       := n.layout.self
      throughIndex := state.promoteThrough }) .control
  else
    n.setPeer peer state

-- The peer acknowledged something new, or the append that was in flight.
def onProgress (peer : Nat) : RaftNode :=
  let before := n.commitIndex
  let n := n.advanceCommit env
  match n.peers.get? peer with
  | some state => if n.commitIndex = before ∧ n.shouldSendNow state then n.sendAppend env peer state else n
  | none       => n

def onLeaderReply (peer : Nat) (m : AppendEntriesReply) : RaftNode :=
  match n.peers.get? peer with
  | none       => n
  | some state =>
    if m.requestId ≤ state.replyFloor then
      n
    else
      let answered := m.requestId ≠ 0 ∧ m.requestId = state.pendingRequest
      let state := n.heardFrom env state m
      if ¬m.success ∧ m.conflictIndex ≤ state.matchIndex then
        n.setPeer peer state
      else if ¬m.success then
        (n.setPeer peer state).onRejected env peer state m
      else
        let credited := n.credit state m
        let n := n.promote peer credited
        if credited.matchIndex ≤ state.matchIndex ∧ ¬answered then n else n.onProgress env peer

def onAppendEntriesReply (peer : Nat) (m : AppendEntriesReply) : NodeM Unit := fun n =>
  if n.term < m.term then
    (stepDown env m.term).run n
  else if n.role ≠ .leader ∨ m.term ≠ n.term then
    (.ok (), n)
  else
    (.ok (), n.onLeaderReply env peer m)

def onPromote (m : Promote) : RaftNode :=
  if m.term < n.term then n else { n with voting := true }

-- Proposals

def drain (operations : List (ProposalId → RegistryOperation)) : NodeM Unit := fun n =>
  if n.role ≠ .leader then
    (.ok (), n)
  else
    let operations := operations.mapIdx fun i op => op ⟨n.layout.self, n.sequence + 1 + i⟩
    let n := { n with sequence := n.sequence + operations.length }
    lift (do
      let n ← n.appendLocal operations
      let n := n.replicate env
      return if n.peers.items = [] then n.advanceCommit env else n) n

def onPropose (m : Propose) : NodeM ProposeReply := fun n =>
  let reply (accepted : Bool) (reason : String) (firstIndex : Nat) (leader : Option Nat) : ProposeReply :=
    { accepted, reason, term := n.term, firstIndex, requestId := m.requestId, leader }
  if n.role ≠ .leader then
    (.ok (reply false "not the leader" 0 n.leader), n)
  else
    match m.proposals.mapM decodeOperation with
    | .error reason   => (.error (.protocol reason), n)
    | .ok []          => (.ok (reply true "" 0 (some n.layout.self)), n)
    | .ok operations  =>
      match n.appendLocal operations with
      | .error e => (.error e, n)
      | .ok n'   =>
        let n' := n'.replicate env
        let n' := if n'.peers.items = [] then n'.advanceCommit env else n'
        (.ok (reply true "" (n.log.lastIndex + 1) (some n.layout.self)), n')

-- Links

def onPeerState (peer : Nat) (up : Bool) (incarnation : Nat) : RaftNode :=
  match n.peers.get? peer with
  | none       => n
  | some state =>
    if up then
      let state := { state with up, incarnation }
      if n.role = .leader then
        let state := { state with
          matchIndex := 0, nextIndex := n.log.lastIndex + 1, replyFloor := n.appendSequence, snapshotRequest := 0,
          pendingRequest := 0, snapshotOffset := 0, sending := none, sentCommit := 0 }
        (n.setPeer peer state).sendAppend env peer state
      else
        n.setPeer peer state
    else
      { n.setPeer peer { state with up, catchingUp := false } with installing := n.installing.erase peer }

end RaftNode
end
end Raft
