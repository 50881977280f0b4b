import NmosReference.Library.Ancestry
import NmosReference.Raft.Cluster

open Protobuf Registry Ancestry

-- The protocol between the members: one move at a time, and what is remembered of all of them.
namespace Raft

def RaftLog.last {α : Type} (log : RaftLog α) : Position :=
  ⟨log.lastIndex, log.lastTerm⟩

-- What ever happened, as far as it matters. No member reads it.
structure History where
  -- For whom a member voted in a term, in its state file.
  ballot     : Nat → Nat → Option Nat
  -- Where the log of a candidate ended when it stood.
  stand      : Nat → Nat → Position
  leader     : Nat → Option Nat
  -- Whose votes the leader of a term won with.
  electorate : Nat → List Nat
  -- What was appended at an index by the leader of a term: the term of the entry before it, and the payload.
  entry      : Nat → Nat → Option (Nat × Bytes)
  -- Through which entry a member acknowledged its log in a term, or wrote it as the leader.
  acked      : Nat → Nat → Position → Prop

namespace History

def empty : History where
  ballot _ _     := none
  stand _ _      := ⟨0, 0⟩
  leader _       := none
  electorate _   := []
  entry _ _      := none
  acked _ _ _    := False

variable (h : History)

def cast (i term : Nat) (vote : Option Nat) : History :=
  { h with ballot := fun v t => if v = i ∧ t = term then vote.or (h.ballot v t) else h.ballot v t }

def standing (i term : Nat) (last : Position) : History :=
  { h with stand := fun v t => if v = i ∧ t = term then last else h.stand v t }

def elect (i term : Nat) (votes : List Nat) : History :=
  { h with
    leader     := fun t => if t = term then some i else h.leader t
    electorate := fun t => if t = term then votes else h.electorate t }

-- The entries that go on from the end of the log.
def create (term : Nat) (last : Position) (payloads : List Bytes) : History :=
  { h with entry := fun k t =>
      if t = term ∧ last.index < k ∧ k ≤ last.index + payloads.length then
        payloads[k - last.index - 1]?.map fun payload => (if k = last.index + 1 then last.term else term, payload)
      else
        h.entry k t }

def ack (i term : Nat) (position : Position) : History :=
  { h with acked := fun v t p => h.acked v t p ∨ v = i ∧ t = term ∧ p = position }

-- Where an index is in a log that holds it.
def positionOf (log : RaftLog RegistryOperation) (index : Nat) : Position :=
  ⟨index, (log.termAt index).toOption.getD 0⟩

def answered (i : Nat) (p : Party) : Message → History
  | .appendEntriesReply r   => if r.success then h.ack i r.term (positionOf p.log r.matchIndex) else h
  | .installSnapshotReply r => h.ack i r.term (positionOf p.log r.commitIndex)
  | _                       => h

end History

-- A move, and what is remembered of it.
inductive Party.Records (i : Nat) (e : NodeEvent) (p : Party) (h : History) : Party → History → Prop
  | quiet {p' : Party} (hq : Party.Quiet e p p') : Records i e p h p' h
  | save : Records i e p h { p with saved := some (p.term, p.votedFor) } (h.cast i p.term p.votedFor)
  | campaign : Records i e p h { p with
    role := .candidate, term := p.term + 1, votedFor := some p.self, saved := some (p.term + 1, some p.self)
    votes := [p.self], forgotten := [] } ((h.cast i (p.term + 1) (some p.self)).standing i (p.term + 1) p.log.last)
  | win (hr : p.role = .candidate) (hw : p.Elected) :
    Records i e p h { p with role := .leader, voting := true, matched := p.matched.map fun _ _ => 0 }
      (h.elect i p.term p.votes)
  | append (values : List (Bytes × RegistryOperation)) (hr : p.role = .leader) :
    Records i e p h { p with log := p.log.append p.term values }
      ((h.create p.term p.log.last (values.map Prod.fst)).ack i p.term (p.log.append p.term values).last)

theorem Party.Move.records {e : NodeEvent} {p p' : Party} (i : Nat) (h : History) (hm : Party.Move e p p') :
    ∃ h', Party.Records i e p h p' h' := by
  cases hm
  case quiet hq          => exact ⟨_, .quiet hq⟩
  case save              => exact ⟨_, .save⟩
  case campaign          => exact ⟨_, .campaign⟩
  case win hr hw         => exact ⟨_, .win hr hw⟩
  case append values hr  => exact ⟨_, .append values hr⟩

structure Parties where
  party   : Nat → Party
  network : List (Nat × Nat × Message)
  history : History

-- What may happen besides: campaigns that cannot be saved, processes that start again, snapshots that are installed.
structure Faults where
  thwarts  : Prop
  restarts : Prop
  installs : Prop

-- A member as it starts, from what its file holds.
def Party.fresh (members : List Nat) (i : Nat) (saved : Nat × Option Nat) (voting : Bool) : Party where
  layout      := ⟨members, i⟩
  term        := saved.1
  votedFor    := saved.2
  saved       := some saved
  role        := .follower
  voting      := voting
  votes       := []
  forgotten   := []
  log         := .new
  commitIndex := 0
  matched     := (members.filter (· ≠ i)).foldl (fun matched m => matched.set m 0) ∅
  sent        := []

namespace Parties

def init (members : List Nat) : Parties where
  party i := { Party.fresh members i (0, none) (members.length = 1) with saved := none }
  network := []
  history := .empty

variable (s : Parties)

-- The event is the receipt of a message that was sent, or of none.
def Heard (i : Nat) : NodeEvent → Prop
  | .requestVote m               => ∃ source, (source, i, .requestVote m) ∈ s.network
  | .requestVoteReply peer m     => (peer, i, .requestVoteReply m) ∈ s.network
  | .appendEntries m             => ∃ source, (source, i, .appendEntries m) ∈ s.network
  | .appendEntriesReply peer m   => (peer, i, .appendEntriesReply m) ∈ s.network
  | .installSnapshot peer m      => (peer, i, .installSnapshot m) ∈ s.network
  | .installSnapshotReply peer m => (peer, i, .installSnapshotReply m) ∈ s.network
  | .promote m                   => ∃ source, (source, i, .promote m) ∈ s.network
  | _                            => True

-- The event is the last chunk of a snapshot that is ahead of what is committed.
def Completes (i : Nat) (e : NodeEvent) : Prop :=
  ∃ peer m, e = .installSnapshot peer m ∧ m.done = true ∧ (s.party i).commitIndex < m.lastIndex

-- A member that has started.
def Active (members : List Nat) (i : Nat) : Prop :=
  i ∈ members ∧ (s.party i).saved ≠ none

inductive Step (members : List Nat) (faults : Faults) (s : Parties) : Parties → Prop
  | move (i : Nat) (e : NodeEvent) (p : Party) (h : History) (ha : s.Active members i) (he : s.Heard i e)
    (hi : s.Completes i e → faults.installs)
    (hm : Party.Records i e (s.party i) s.history p h) :
    Step members faults s { s with party := Function.update s.party i p, history := h }
  | flush (i : Nat) : Step members faults s { s with
    party   := Function.update s.party i { s.party i with sent := [] }
    network := s.network ++ (s.party i).sent.map (i, ·) }
  | answer (i source : Nat) (request reply : Message) (hi : s.Active members i) (hr : (source, i, request) ∈ s.network)
    (ha : (s.party i).Answers request reply) :
    Step members faults s { s with
      network := s.network ++ [(i, source, reply)]
      history := s.history.answered i (s.party i) reply }
  | thwart (i : Nat) (p : Party) (ha : s.Active members i) (hf : faults.thwarts) (hs : (s.party i).Stood p) :
    Step members faults s { s with
      party   := Function.update s.party i p
      history := s.history.cast i p.term (if p.saved = (s.party i).saved then none else p.votedFor) }
  | load (i : Nat) (hf : faults.restarts) (hs : (s.party i).saved = none) :
    Step members faults s { s with party := Function.update s.party i { s.party i with saved := some (0, none) } }
  | restart (i : Nat) (saved : Nat × Option Nat) (voting : Bool) (hf : faults.restarts) (hm : i ∈ members)
    (hs : (s.party i).saved = some saved) :
    Step members faults s { s with party := Function.update s.party i (.fresh members i saved voting) }
  | begin (i : Nat) (voting : Bool) (hm : i ∈ members) (hs : (s.party i).saved = none) :
    Step members faults s { s with party := Function.update s.party i (.fresh members i (0, none) voting) }

abbrev Run (members : List Nat) (faults : Faults) : Parties → Parties → Prop :=
  Relation.ReflTransGen (Step members faults)

abbrev Reaches (members : List Nat) (faults : Faults) : Parties → Prop :=
  Run members faults (init members)

end Parties
end Raft
