import NmosReference.Raft.NodeHandlers

open Protobuf Registry

namespace Raft

def identityOf (m : InstallSnapshot) : Identity where
  term      := m.term
  leader    := m.leader
  lastIndex := m.lastIndex
  lastTerm  := m.lastTerm

-- What a chunk does to the assembly of its sender.
inductive Chunk
  | copy (length : Nat)
  | mismatch
  | extended (assembly : Assembly)
deriving DecidableEq, Repr

-- Only a first chunk begins a transfer, and it always does.
def assemble (assembly : Option Assembly) (m : InstallSnapshot) : Chunk :=
  if m.offset = 0 then
    .extended ⟨identityOf m, m.data⟩
  else
    match assembly with
    | none   => .mismatch
    | some a =>
      if a.identity = identityOf m ∧ isHeld a.data m.offset m.data then
        .copy a.data.length
      else if a.identity ≠ identityOf m ∨ m.offset ≠ a.data.length then
        .mismatch
      else
        .extended { a with data := a.data ++ m.data }

section

variable [Python]

namespace RaftNode

variable (env : Env) (n : RaftNode)

-- Receiving a snapshot

def chunkAnswer (received : Nat) (done : Bool) (m : InstallSnapshot) : InstallSnapshotReply where
  term          := n.term
  bytesReceived := received
  done          := done
  commitIndex   := n.commitIndex
  requestId     := m.requestId

def dropAssembly (peer : Nat) : RaftNode :=
  { n with installing := n.installing.erase peer }

-- The assembled bytes, read and restored to a store of their own.
def restore (buffer : Bytes) (m : InstallSnapshot) : Option (SnapshotMeta × StateMachine) :=
  match decodeSnapshotPayload buffer with
  | .error _                        => none
  | .ok (current, ownership, records) =>
    let machine := n.machine
    match install records machine.store.gcInterval machine.store.forgetInterval (env.clock m.lastIndex) with
    | none       => none
    | some store => some (current, machine.installSnapshot store ownership current.lastIndex)

def isImpossible (current : SnapshotMeta) (m : InstallSnapshot) : Bool :=
  (current.lastIndex, current.lastTerm) ≠ (m.lastIndex, m.lastTerm) || m.term < current.lastTerm

def installAssembled (peer : Nat) (buffer : Bytes) (m : InstallSnapshot) : InstallSnapshotReply × RaftNode :=
  match n.restore env buffer m with
  | none                    => (n.chunkAnswer 0 false m, n.dropAssembly peer)
  | some (current, machine) =>
    if isImpossible current m then
      (n.chunkAnswer 0 false m, n.dropAssembly peer)
    else
      let n := { n.dropAssembly peer with
        machine
        log         := .resetToSnapshot current.lastIndex current.lastTerm
        snapshot    := buffer
        snapshotMeta := some current
        commitIndex := max n.commitIndex current.lastIndex }
      (n.chunkAnswer buffer.length true m, n)

-- The snapshot ends on an entry that is committed here at another term.
def contradictsSnapshot (m : InstallSnapshot) : Option MemberFailure :=
  if n.log.snapshotIndex ≤ m.lastIndex ∧ m.lastIndex ≤ n.commitIndex then
    match n.log.termAt m.lastIndex with
    | .ok held => if held = m.lastTerm then none else some (.contradictsCommitted m.leader m.term m.lastIndex m.lastTerm held)
    | .error _ => none
  else
    none

def receiveChunk (peer : Nat) (m : InstallSnapshot) : InstallSnapshotReply × RaftNode :=
  match n.contradictsSnapshot m with
  | some failure =>
    let n := (n.dropAssembly peer).fail env failure
    ({ term := n.term, bytesReceived := 0, done := false, commitIndex := 0, requestId := 0 }, n)
  | none         =>
    if m.lastIndex ≤ n.commitIndex then
      (n.chunkAnswer 0 false m, n.dropAssembly peer)
    else
      match assemble (n.installing.get? peer) m with
      | .copy length => (n.chunkAnswer length false m, n)
      | .mismatch    => (n.chunkAnswer 0 false m, n.dropAssembly peer)
      | .extended a  =>
        let n := { n with installing := n.installing.set peer a }
        if m.done then n.installAssembled env peer a.data m else (n.chunkAnswer a.data.length false m, n)

def onInstallSnapshot (peer : Nat) (m : InstallSnapshot) : NodeM InstallSnapshotReply := fun n =>
  if m.term < n.term then
    (.ok (n.chunkAnswer 0 false m), n)
  else
    (adoptTerm env m.term >>= fun _ =>
      modifyGet fun n => (n.followLeader env m.leader).receiveChunk env peer m).run n

-- Sending one

-- The commit index of the peer is as good as an acknowledgement of everything through it.
def creditCommit (state : PeerState) (m : InstallSnapshotReply) : PeerState :=
  let credited := min m.commitIndex n.log.lastIndex
  let state := { state with lastHeardAt := env.now }
  if state.matchIndex < credited then
    { state with matchIndex := credited, nextIndex := max state.nextIndex (credited + 1) }
  else
    state

def onChunkAnswered (peer : Nat) (state : PeerState) (m : InstallSnapshotReply) : RaftNode :=
  let state := { state with snapshotRequest := 0 }
  let held := match state.sending with
    | some (sent, _) => decide (sent.lastIndex ≤ m.commitIndex)
    | none           => false
  if m.done || held then
    let state := { state with sending := none, snapshotOffset := 0, nextIndex := state.matchIndex + 1 }
    (n.setPeer peer state).sendAppend env peer state
  else if m.bytesReceived = 0 then
    n.setPeer peer { state with sending := none, snapshotOffset := 0 }
  else
    let state := { state with snapshotOffset := m.bytesReceived }
    (n.setPeer peer state).sendSnapshot env peer state

def onInstallSnapshotReply (peer : Nat) (m : InstallSnapshotReply) : NodeM Unit := fun n =>
  if n.term < m.term then
    (stepDown env m.term).run n
  else if n.role ≠ .leader ∨ m.term ≠ n.term then
    (.ok (), n)
  else
    match n.peers.get? peer with
    | none       => (.ok (), n)
    | some state =>
      if m.requestId ≤ state.replyFloor then
        (.ok (), n)
      else
        let credited := n.creditCommit env state m
        let n := n.setPeer peer credited
        (.ok (), if m.requestId = state.snapshotRequest then n.onChunkAnswered env peer credited m else n)

-- Applying

def violatesCommit : Option MemberFailure :=
  if n.commitIndex < n.lastApplied then
    some (.appliedPastCommit n.lastApplied n.commitIndex)
  else if max n.log.lastIndex n.log.snapshotIndex < n.commitIndex then
    some (.commitPastLog n.commitIndex n.log.firstIndex n.log.lastIndex n.log.snapshotIndex)
  else
    none

-- How far a snapshot of everything applied lets the log be compacted: a leader keeps what a live peer lacks.
def discardTo : Nat :=
  let confirmed := n.peers.values.filter (·.up) |>.map (·.matchIndex)
  if n.role = .leader ∧ n.lastApplied - n.log.snapshotIndex < n.timing.maxLogEntries then
    match confirmed with
    | []      => n.lastApplied
    | m :: ms => min n.lastApplied (ms.foldl min m)
  else
    n.lastApplied

def maybeCompact : RaftNode :=
  let n := { n with applier := .waiting }
  if ¬n.compacts ∨ n.lastApplied - n.log.snapshotIndex < n.timing.compactionThreshold ∨
      n.machine.capture.isSome ∨ n.lastApplied ≤ n.log.snapshotIndex then
    n
  else
    match n.log.termAt n.lastApplied with
    | .error _ => n
    | .ok term =>
      match n.machine.beginCapture n.lastApplied term with
      | none         => n
      | some machine => { n with machine, applier := .compacting n.lastApplied term n.discardTo }

-- One turn of the loop, up to its yield.
def applyTurn : RaftNode :=
  if n.lastApplied < n.commitIndex then
    let start := n.lastApplied + 1
    let wanted := min n.timing.maxApplyBatch (n.commitIndex - start + 1)
    match n.log.slice start wanted with
    | .ok []                  => { n with applier := .waiting }
    | .ok entries             =>
      { n with
        machine := (n.machine.applyLog env.clock (entries.map (·.toEntry))).2.2
        applier := .applying }
    | .error (.compacted _ _) => { n with applier := .waiting }
    | .error _                => { n.fail env .unexpected with applier := .waiting }
  else
    n.maybeCompact

-- The task goes on from where it yielded.
def applyPass : RaftNode :=
  match n.applier with
  | .applying          => n.applyTurn env
  | .compacting _ _ _  => n
  | .waiting           =>
    if ¬n.applyWake ∨ n.closing then
      n
    else
      let n := { n with applyWake := false }
      match n.violatesCommit with
      | some failure => n.fail env failure
      | none         => n.applyTurn env

-- The serialisation of a snapshot is over: with its bytes, or without.
def finishCompaction (payload : Option Bytes) : RaftNode :=
  match n.applier with
  | .compacting index term discardTo =>
    let waiting := { n with applier := .waiting }
    -- An install has abandoned the capture in the meantime.
    if n.machine.capture.isNone then
      waiting
    else
      let n := { waiting with machine := { n.machine with capture := none } }
      match payload with
      | none         => n
      | some payload =>
        let n := { n with snapshot := payload, snapshotMeta := some ⟨index, term, 0⟩ }
        if discardTo ≤ n.log.snapshotIndex then
          n
        else
          match n.log.termAt discardTo with
          | .error _         => n
          | .ok discardTerm =>
            match n.log.discardThrough discardTo discardTerm with
            | .error _ => n.fail env .unexpected
            | .ok log  => { n with log }
  | _                                => n

end RaftNode

-- Everything that happens to a member: what it receives, its timer, its links, its own tasks.
inductive NodeEvent
  | tick
  | requestVote (m : RequestVote)
  | requestVoteReply (peer : Nat) (m : RequestVoteReply)
  | appendEntries (m : AppendEntries)
  | appendEntriesReply (peer : Nat) (m : AppendEntriesReply)
  | installSnapshot (peer : Nat) (m : InstallSnapshot)
  | installSnapshotReply (peer : Nat) (m : InstallSnapshotReply)
  | promote (m : Promote)
  | drain (operations : List (ProposalId → RegistryOperation))
  | propose (m : Propose)
  -- A read that waits for a round of acknowledgements.
  | read
  | peerState (peer : Nat) (up : Bool) (incarnation : Nat)
  | applyPass
  | compacted (payload : Option Bytes)
  -- Anything that raises what nothing expects.
  | unexpected

namespace RaftNode

-- An exception that is not the disk's stops the member.
def settle {α : Type} (env : Env) (r : Except NodeFault α × RaftNode) : RaftNode :=
  match r with
  | (.ok _, n)             => n
  | (.error .osError, n)   => n
  | (.error _, n)          => n.fail env .unexpected

def step (env : Env) (n : RaftNode) : NodeEvent → RaftNode
  | .tick                          => settle env <| (tick env).run n
  | .requestVote m                 => settle env <| (onRequestVote env m).run n
  | .requestVoteReply peer m       => settle env <| (onRequestVoteReply env peer m).run n
  | .appendEntries m               => settle env <| (onAppendEntries env m).run n
  | .appendEntriesReply peer m     => settle env <| (onAppendEntriesReply env peer m).run n
  | .installSnapshot peer m        => settle env <| (onInstallSnapshot env peer m).run n
  | .installSnapshotReply peer m   => settle env <| (onInstallSnapshotReply env peer m).run n
  | .promote m                     => n.onPromote m
  | .drain operations              => settle env <| (drain env operations).run n
  | .propose m                     => settle env <| (onPropose env m).run n
  | .read                          => if n.role = .leader then n.replicate env else n
  | .peerState peer up incarnation => n.onPeerState env peer up incarnation
  | .applyPass                     => n.applyPass env
  | .compacted payload             => n.finishCompaction env payload
  | .unexpected                    => n.fail env .unexpected

end RaftNode

-- A member as it starts: the term, the vote and the reservation are what its file holds, and the log is empty.
def RaftNode.start (layout : RaftLayout) (timing : RaftTiming) (compacts : Bool) (loaded : PersistentState)
    (store : RegistryStore) (cursors : CursorAllocator) : RaftNode where
  layout            := layout
  timing            := timing
  compacts          := compacts
  file              := some loaded
  term              := loaded.term
  votedFor          := loaded.votedFor
  incarnation       := loaded.incarnation
  machine           := .new store <| cursors.resume loaded.cursorReservation
  role              := .follower
  leader            := none
  commitIndex       := 0
  log               := .new
  peers             := (layout.members.filter (· ≠ layout.self)).foldl (fun peers m => peers.set m .new) ∅
  voting            := loaded.incarnation = 1 || layout.size = 1
  votes             := []
  preVotes          := []
  preRefusals       := []
  forgotten         := []
  preForgotten      := []
  appendSequence    := 0
  sequence          := loaded.incarnation * 2 ^ 32
  deadline          := 0
  heardFromLeaderAt := 0
  snapshot          := []
  snapshotMeta      := none
  installing        := ∅
  failure           := none
  closing           := false
  applyWake         := false
  applier           := .waiting
  sent              := []

end
end Raft
