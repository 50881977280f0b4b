import NmosReference.Library.Transition
import NmosReference.Raft.NodeSnapshots

open Protobuf Registry

namespace Raft

-- What a member holds of the log and of the state it leads to. Most of what a handler does is elsewhere.
structure Replica where
  log          : RaftLog RegistryOperation
  commitIndex  : Nat
  machine      : StateMachine
  installing   : Dict Nat Assembly
  snapshot     : Bytes
  snapshotMeta : Option SnapshotMeta
  applier      : Applier

namespace RaftNode

def replica (n : RaftNode) : Replica where
  log          := n.log
  commitIndex  := n.commitIndex
  machine      := n.machine
  installing   := n.installing
  snapshot     := n.snapshot
  snapshotMeta := n.snapshotMeta
  applier      := n.applier

variable {env : Env} {n : RaftNode} {peer : Nat} {state : PeerState}

@[simp] theorem replica_send {m : Message} {s : Stream} : (n.send peer m s).replica = n.replica := rfl
@[simp] theorem replica_setPeer : (n.setPeer peer state).replica = n.replica := rfl
@[simp] theorem replica_resetElectionTimer : (n.resetElectionTimer env).replica = n.replica := rfl
@[simp] theorem replica_clearTallies : n.clearTallies.replica = n.replica := rfl
@[simp] theorem replica_sendKeepalive : (n.sendKeepalive peer state).replica = n.replica := rfl

@[simp]
theorem replica_relinquish : (n.relinquish env).replica = n.replica := by
  unfold relinquish
  split <;> rfl

@[simp]
theorem replica_fail {failure : MemberFailure} : (n.fail env failure).replica = n.replica := by
  unfold fail
  split
  · rfl
  · rw [replica_relinquish]
    rfl

@[simp]
theorem replica_sendChunk {carrier : Nat} {current : SnapshotMeta × Bytes} :
    (n.sendChunk peer state carrier current).replica = n.replica :=
  rfl

@[simp]
theorem replica_sendSnapshot : (n.sendSnapshot env peer state).replica = n.replica := by
  unfold sendSnapshot
  repeat' split
  all_goals simp

@[simp]
theorem replica_sendEntries {prevTerm : Nat} {entries : List (LogEntry RegistryOperation)} :
    (n.sendEntries env peer state prevTerm entries).replica = n.replica :=
  rfl

@[simp]
theorem replica_sendAppend : (n.sendAppend env peer state).replica = n.replica := by
  unfold sendAppend
  simp only
  split <;> simp

@[simp]
theorem replica_replicateTo : (replicateTo env n peer).replica = n.replica := by
  unfold replicateTo
  repeat' split
  all_goals simp

@[simp]
theorem replica_replicate : (n.replicate env).replica = n.replica := by
  suffices h : ∀ (peers : List Nat) (n : RaftNode), (peers.foldl (replicateTo env) n).replica = n.replica from h _ n
  intro peers
  induction peers with
  | nil             => exact fun _ => rfl
  | cons peer _ ih => exact fun n => (ih _).trans replica_replicateTo

@[simp]
theorem replica_broadcast {m : Message} : (n.broadcast m).replica = n.replica := by
  suffices h : ∀ (peers : List Nat) (n : RaftNode),
      (peers.foldl (fun n peer => n.send peer m .control) n).replica = n.replica from h _ n
  intro peers
  induction peers with
  | nil          => exact fun _ => rfl
  | cons _ _ ih => exact fun n => (ih _).trans replica_send

theorem role_broadcast {m : Message} : (n.broadcast m).role = n.role := by
  suffices h : ∀ (peers : List Nat) (n : RaftNode),
      (peers.foldl (fun n peer => n.send peer m .control) n).role = n.role from h _ n
  intro peers
  induction peers with
  | nil         => exact fun _ => rfl
  | cons _ _ ih => exact fun n => ih _

theorem replica_persist : ((persist env).leaves n).replica = n.replica :=
  rfl

theorem replica_stepDown {term : Nat} :
    ((stepDown env term).leaves n).replica = { n.replica with installing := ∅ } :=
  rfl

-- What a leader knows of a peer is within its own log.
def Tracks (n : RaftNode) (state : PeerState) : Prop :=
  state.matchIndex < state.nextIndex ∧ state.nextIndex ≤ n.log.lastIndex + 1

def Tracked (n : RaftNode) : Prop :=
  ∀ peer state, n.peers.get? peer = some state → n.Tracks state

-- Sending changes what is known of a peer, and nothing else that matters.
structure Sends (n n' : RaftNode) : Prop where
  replica : n'.replica = n.replica
  role    : n'.role = n.role
  term    : n'.term = n.term
  layout  : n'.layout = n.layout
  tracked : n'.Tracked

namespace Sends

variable {n₁ n₂ : RaftNode} {m : Message} {s : Stream}

theorem refl (h : n.Tracked) : Sends n n :=
  ⟨rfl, rfl, rfl, rfl, h⟩

theorem trans (h : Sends n n₁) (h' : Sends n₁ n₂) : Sends n n₂ where
  replica := h'.replica.trans h.replica
  role    := h'.role.trans h.role
  term    := h'.term.trans h.term
  layout  := h'.layout.trans h.layout
  tracked := h'.tracked

theorem log (h : Sends n n₁) : n₁.log = n.log :=
  congrArg Replica.log h.replica

theorem send (h : n.Tracked) : Sends n (n.send peer m s) :=
  ⟨rfl, rfl, rfl, rfl, h⟩

theorem setPeer (hs : n.Tracks state) (h : n.Tracked) : Sends n (n.setPeer peer state) := by
  refine ⟨rfl, rfl, rfl, rfl, fun p state' hp => ?_⟩
  simp only [RaftNode.setPeer, Dict.get?_set] at hp
  split at hp
  case isTrue  => cases hp; exact hs
  case isFalse => exact h p state' hp

-- What is sent is numbered, and the peer's record notes it.
theorem numbered {requestId : Nat} (hs : n.Tracks state) (h : n.Tracked) :
    Sends n (({ n with appendSequence := requestId }.setPeer peer state).send peer m s) :=
  have h' : Sends n ({ n with appendSequence := requestId }.setPeer peer state) :=
    ⟨rfl, rfl, rfl, rfl, (setPeer hs h : Sends n (n.setPeer peer state)).tracked⟩
  h'.trans (send h'.tracked)

theorem sendKeepalive (hs : n.Tracks state) (h : n.Tracked) : Sends n (n.sendKeepalive peer state) :=
  numbered hs h

theorem sendChunk {carrier : Nat} {current : SnapshotMeta × Bytes} (hs : n.Tracks state) (h : n.Tracked) :
    Sends n (n.sendChunk peer state carrier current) :=
  numbered hs h

theorem sendSnapshot (hs : n.Tracks state) (h : n.Tracked) : Sends n (n.sendSnapshot env peer state) := by
  unfold RaftNode.sendSnapshot
  repeat' split
  all_goals first | exact sendKeepalive hs h | exact sendChunk hs h

theorem sendEntries {prevTerm : Nat} {entries : List (LogEntry RegistryOperation)} (hs : n.Tracks state)
    (h : n.Tracked) : Sends n (n.sendEntries env peer state prevTerm entries) := by
  refine numbered ?_ h
  split <;> exact hs

theorem carryingEntries (hs : n.Tracks state) : n.Tracks (n.carryingEntriesWouldRepeatThem env state).2 := by
  unfold carryingEntriesWouldRepeatThem
  repeat' split
  all_goals exact hs

theorem sendAppend (hw : n.log.WellFormed) (hs : n.Tracks state) (h : n.Tracked) :
    Sends n (n.sendAppend env peer state) := by
  have hn : state.nextIndex - 1 + 1 = state.nextIndex := by
    have := hs.1
    omega
  unfold RaftNode.sendAppend
  have hl : state.nextIndex - 1 ≤ n.log.lastIndex := by
    have := hs.2
    omega
  rcases hw.window_cases hl n.timing.maxEntriesPerAppend n.timing.maxAppendBytes with
    ⟨term, entries, ht, hwin⟩ | ⟨index, snapshotIndex, ht⟩
  case inl =>
    rw [hn] at hwin
    simp only [ht, hwin, bind, Except.bind, pure, Except.pure]
    exact sendEntries (carryingEntries hs) h
  case inr =>
    simp only [ht, bind, Except.bind]
    exact sendSnapshot hs h

theorem replicateTo (hw : n.log.WellFormed) (h : n.Tracked) : Sends n (RaftNode.replicateTo env n peer) := by
  unfold RaftNode.replicateTo
  split
  case h_1 state hp =>
    split
    case isTrue  => exact sendAppend hw (h peer state hp) h
    case isFalse => exact refl h
  case h_2 => exact refl h

theorem replicate (hw : n.log.WellFormed) (h : n.Tracked) : Sends n (n.replicate env) := by
  suffices hr : ∀ (peers : List Nat) (n : RaftNode), n.log.WellFormed → n.Tracked →
      Sends n (peers.foldl (RaftNode.replicateTo env) n) from hr _ n hw h
  intro peers
  induction peers with
  | nil => exact fun _ _ h => refl h
  | cons peer _ ih =>
    intro n hw h
    have hs : Sends n (RaftNode.replicateTo env n peer) := replicateTo hw h
    exact hs.trans (ih _ (hs.log ▸ hw) hs.tracked)

end Sends

-- Every run of one member: each step is an event, and what the step reads from outside.
def member [Python] (n : RaftNode) : TransitionSystem RaftNode (Env × NodeEvent) where
  init     := n
  step n a := some <| n.step a.1 a.2

end RaftNode
end Raft
