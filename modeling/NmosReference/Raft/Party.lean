import Mathlib
import NmosReference.Library.Quorum
import NmosReference.Raft.NodeInstalls

open Protobuf Registry

-- What the others of a cluster can depend on of a member, and every way in which it may change.
namespace Raft

structure Party where
  layout      : RaftLayout
  term        : Nat
  votedFor    : Option Nat
  -- The term and the vote that the state file holds.
  saved       : Option (Nat × Option Nat)
  role        : Role
  voting      : Bool
  votes       : List Nat
  forgotten   : List Nat
  log         : RaftLog RegistryOperation
  commitIndex : Nat
  -- Through which entry each peer is known to hold the log.
  matched     : Dict Nat Nat
  sent        : List (Nat × Message)

def RaftNode.party (n : RaftNode) : Party where
  layout      := n.layout
  term        := n.term
  votedFor    := n.votedFor
  saved       := n.file.map fun s => (s.term, s.votedFor)
  role        := n.role
  voting      := n.voting
  votes       := n.votes
  forgotten   := n.forgotten
  log         := n.log
  commitIndex := n.commitIndex
  matched     := n.peers.map fun _ state => state.matchIndex
  sent        := n.sent.map fun s => (s.peer, s.message)

namespace Party

variable (p : Party)

def members : List Nat :=
  p.layout.members

def self : Nat :=
  p.layout.self

-- A majority voted for the member, whatever else it takes.
def Elected : Prop :=
  Quorum.IsMajority p.members fun m => m ∈ p.votes

-- The entries of the message are those of the log, from the one they follow on.
def Carries (m : AppendEntries) : Prop :=
  (m.prevLogIndex = 0 ∧ m.entries = [] ∨ p.log.termAt m.prevLogIndex = .ok m.prevLogTerm) ∧
    ∀ i w, m.entries[i]? = some w → w.index = m.prevLogIndex + 1 + i ∧
      ∃ e, p.log.entryAt? w.index = some e ∧ e.term = w.term ∧ e.payload = w.payload

-- What a message of its own accord says of its sender.
def Outgoing : Message → Prop
  | .requestVote m   => m.candidate = p.self ∧ (m.preVote = false →
    p.role = .candidate ∧ m.term = p.term ∧ p.saved = some (p.term, some p.self) ∧
      m.lastLogIndex = p.log.lastIndex ∧ m.lastLogTerm = p.log.lastTerm)
  | .appendEntries m => p.role = .leader ∧ m.term = p.term ∧ m.leaderCommit ≤ p.commitIndex ∧ p.Carries m
  | .installSnapshot m => m.term = p.term
  | .promote m       => m.term = p.term
  | _                => False

-- The term of the last entry of the message, or of the entry it follows.
def lastTermOf (m : AppendEntries) : Nat :=
  (m.entries.getLast?.map (·.term)).getD m.prevLogTerm

-- What an answer says of its sender, given what it answers.
def Answers (request : Message) : Message → Prop
  | .requestVoteReply r     => r.granted = true → r.preVote = false → ∃ m, request = .requestVote m ∧ m.preVote = false ∧
    r.term = p.term ∧ m.term = p.term ∧ p.votedFor = some m.candidate ∧ p.saved = some (p.term, some m.candidate)
  | .appendEntriesReply r   => r.success = true → ∃ m, request = .appendEntries m ∧ r.term = p.term ∧ m.term = p.term ∧
    (r.matchIndex = p.commitIndex ∨ r.matchIndex = m.prevLogIndex + m.entries.length ∧
      (r.matchIndex = 0 ∨ p.log.termAt r.matchIndex = .ok (lastTermOf m)))
  | .installSnapshotReply r => r.term = p.term ∧ (r.commitIndex = 0 ∨ r.commitIndex = p.commitIndex)
  | _                       => False

-- What a peer is newly known to hold, from what it answered.
def Heard (e : NodeEvent) (peer index : Nat) : Prop :=
  (∃ m, e = .appendEntriesReply peer m ∧ m.success = true ∧ m.term = p.term ∧ p.role = .leader ∧
      index = min m.matchIndex p.log.lastIndex) ∨
    ∃ m, e = .installSnapshotReply peer m ∧ m.term = p.term ∧ p.role = .leader ∧
      index = min m.commitIndex p.log.lastIndex

-- What an AppendEntries of the current term leaves of the log, and what of it is committed.
structure Follows (m : AppendEntries) (log : RaftLog RegistryOperation) : Prop where
  term      : m.term = p.term
  role      : p.role = .follower
  committed : p.commitIndex ≤ m.prevLogIndex
  holds     : p.log.holds m.prevLogIndex m.prevLogTerm = true
  spliced   : ∃ entries k, RaftLog.Follow m.prevLogIndex entries ∧ p.log.Splice m.prevLogIndex entries k log ∧
    List.Forall₂ (fun w e => e.term = w.term ∧ e.index = w.index ∧ e.payload = w.payload) m.entries entries

-- What a member does to itself on the way through a handler, and what nothing durable or common tells of.
inductive Quiet (e : NodeEvent) (p : Party) : Party → Prop
  | adopt (term : Nat) (h : p.term < term) :
    Quiet e p { p with term, votedFor := none, role := .follower, votes := [], forgotten := [] }
  | rest (role : Role) (hc : role ≠ .candidate) (hl : role ≠ .leader) : Quiet e p { p with role }
  | clear : Quiet e p { p with votes := [], forgotten := [] }
  | vote (m : RequestVote) (he : e = .requestVote m) (hp : m.preVote = false) (ht : m.term = p.term)
    (hv : p.votedFor = none ∨ p.votedFor = some m.candidate)
    (hl : p.log.isAtLeastAsCurrentAs m.lastLogIndex m.lastLogTerm = true) :
    Quiet e p { p with votedFor := some m.candidate }
  | count (peer : Nat) (m : RequestVoteReply) (he : e = .requestVoteReply peer m) (hp : m.preVote = false)
    (hr : p.role = .candidate) (ht : m.term = p.term) :
    Quiet e p { p with
      forgotten := if m.voting then p.forgotten else p.forgotten.insert peer
      votes := if m.granted then p.votes.insert peer else p.votes }
  | post (peer : Nat) (m : Message) (h : p.Outgoing m) : Quiet e p { p with sent := p.sent ++ [(peer, m)] }
  | follow (m : AppendEntries) (log : RaftLog RegistryOperation) (he : e = .appendEntries m) (h : p.Follows m log) :
    Quiet e p { p with log, commitIndex := max p.commitIndex (min m.leaderCommit (m.prevLogIndex + m.entries.length)) }
  | commit (index : Nat) (hr : p.role = .leader) (hc : p.commitIndex < index)
    (ht : p.log.termAt index = .ok p.term)
    (hq : p.layout.quorum ≤ 1 + (p.matched.values.filter (index ≤ ·)).length) :
    Quiet e p { p with commitIndex := index }
  | hear (peer index : Nat) (hp : peer ∈ p.matched.keys)
    (h : (∃ held, p.matched.get? peer = some held ∧ index ≤ held) ∨ p.Heard e peer index) :
    Quiet e p { p with matched := p.matched.set peer index }
  | promoted : Quiet e p { p with voting := true }
  | compact (through term : Nat) (log : RaftLog RegistryOperation) (hs : p.log.snapshotIndex < through)
    (hc : through ≤ p.commitIndex) (ht : p.log.termAt through = .ok term)
    (h : p.log.discardThrough through term = .ok log) : Quiet e p { p with log }
  | install (peer : Nat) (m : InstallSnapshot) (he : e = .installSnapshot peer m) (ht : m.term = p.term)
    (hr : p.role = .follower) (hd : m.done = true) (hc : p.commitIndex < m.lastIndex) :
    Quiet e p { p with log := .resetToSnapshot m.lastIndex m.lastTerm, commitIndex := m.lastIndex }

-- One thing that a member does to itself on the way through a handler.
inductive Move (e : NodeEvent) (p : Party) : Party → Prop
  | quiet {p' : Party} (h : Quiet e p p') : Move e p p'
  | save : Move e p { p with saved := some (p.term, p.votedFor) }
  | campaign : Move e p { p with
    role := .candidate, term := p.term + 1, votedFor := some p.self, saved := some (p.term + 1, some p.self)
    votes := [p.self], forgotten := [] }
  | win (hr : p.role = .candidate) (hw : p.Elected) :
    Move e p { p with role := .leader, voting := true, matched := p.matched.map fun _ _ => 0 }
  | append (values : List (Bytes × RegistryOperation)) (hr : p.role = .leader) :
    Move e p { p with log := p.log.append p.term values }

abbrev Moves (e : NodeEvent) : Party → Party → Prop :=
  Relation.ReflTransGen (Move e)

-- The member stood for election in a term that it could not save. What it counted before is still counted.
def Stood (p' : Party) : Prop :=
  ∃ saved, (saved = p.saved ∨ saved = some (p.term + 1, some p.self)) ∧
    p' = { p with role := .candidate, term := p.term + 1, votedFor := some p.self, saved }

end Party
end Raft
