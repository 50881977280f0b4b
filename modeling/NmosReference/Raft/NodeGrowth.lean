import NmosReference.Raft.NodeFrames

open Protobuf Registry

namespace Raft
namespace RaftNode

variable {env : Env} {n n' n₁ n₂ : RaftNode} {peer : Nat} {state : PeerState}

-- The snapshots that are being received, and the log.
def kept (n : RaftNode) : Dict Nat Assembly × RaftLog RegistryOperation :=
  (n.installing, n.log)

section Same

theorem kept_of_replica (h : n'.replica = n.replica) : n'.kept = n.kept :=
  congrArg (fun r => (r.installing, r.log)) h

@[simp] theorem kept_send {m : Message} {s : Stream} : (n.send peer m s).kept = n.kept := rfl
@[simp] theorem kept_setPeer : (n.setPeer peer state).kept = n.kept := rfl

@[simp]
theorem kept_resetElectionTimer : (n.resetElectionTimer env).kept = n.kept :=
  rfl

@[simp]
theorem kept_relinquish : (n.relinquish env).kept = n.kept :=
  kept_of_replica replica_relinquish

@[simp]
theorem kept_fail {failure : MemberFailure} : (n.fail env failure).kept = n.kept :=
  kept_of_replica replica_fail

@[simp]
theorem kept_sendSnapshot : (n.sendSnapshot env peer state).kept = n.kept :=
  kept_of_replica replica_sendSnapshot

@[simp]
theorem kept_sendAppend : (n.sendAppend env peer state).kept = n.kept :=
  kept_of_replica replica_sendAppend

@[simp]
theorem kept_replicate : (n.replicate env).kept = n.kept :=
  kept_of_replica replica_replicate

@[simp]
theorem kept_broadcast {m : Message} : (n.broadcast m).kept = n.kept :=
  kept_of_replica replica_broadcast

@[simp]
theorem kept_advanceCommit : (n.advanceCommit env).kept = n.kept := by
  unfold advanceCommit
  repeat' split
  all_goals first
    | rfl
    | exact kept_replicate

@[simp]
theorem kept_promote : (n.promote peer state).kept = n.kept := by
  unfold promote
  split <;> rfl

theorem kept_onLeaderReply {m : AppendEntriesReply} : (n.onLeaderReply env peer m).kept = n.kept := by
  unfold onLeaderReply onRejected onProgress
  repeat' split
  all_goals simp only
  all_goals repeat' split
  all_goals simp

end Same


-- What was being received is received further, or forgotten.
def Forgets (n n' : RaftNode) : Prop :=
  ∀ p a, n'.installing.get? p = some a → n.installing.get? p = some a

namespace Forgets

theorem refl : Forgets n n :=
  fun _ _ h => h

theorem trans (h : Forgets n n₁) (h' : Forgets n₁ n₂) : Forgets n n₂ :=
  fun p a hp => h p a (h' p a hp)

theorem same (h : n'.kept = n.kept) : Forgets n n' := by
  intro p a hp
  rwa [show n'.installing = n.installing from congrArg Prod.fst h] at hp

theorem emptied (h : n'.installing = ∅) : Forgets n n' := by
  intro p a hp
  rw [h] at hp
  cases hp

theorem dropAssembly : Forgets n (n.dropAssembly peer) := by
  intro p a hp
  simp only [RaftNode.dropAssembly, Dict.get?_erase] at hp
  split at hp
  case isTrue  => cases hp
  case isFalse => exact hp

end Forgets

-- What a member does of its own accord: it goes on with its log, and with what it is receiving, or forgets that.
structure Grows (n n' : RaftNode) : Prop where
  forgets : Forgets n n'
  log     : n.log.WellFormed → n.log.Extends n'.log

namespace Grows

theorem of_log (h : Forgets n n') (hl : n'.log = n.log) : Grows n n' :=
  ⟨h, fun hw => by rw [hl]; exact .refl hw⟩

theorem refl : Grows n n :=
  of_log .refl rfl

theorem trans (h : Grows n n₁) (h' : Grows n₁ n₂) : Grows n n₂ :=
  ⟨h.forgets.trans h'.forgets, fun hw => (h.log hw).trans (h'.log (h.log hw).wf)⟩

theorem same (h : n'.kept = n.kept) : Grows n n' :=
  of_log (.same h) (congrArg Prod.snd h)

theorem after (h : Grows n₁ n') (hk : n₁.kept = n.kept) : Grows n n' :=
  trans (same hk) h

theorem dropAssembly : Grows n (n.dropAssembly peer) :=
  of_log .dropAssembly rfl

theorem settle {α : Type} {r : Except NodeFault α × RaftNode} (h : Grows n r.2) : Grows n (settle env r) := by
  rcases r with ⟨a | a, n'⟩
  case ok => exact h
  case error =>
    cases a
    case osError => exact h
    all_goals exact h.trans (same kept_fail)

theorem seq {α β : Type} {m : NodeM α} {f : α → NodeM β} (hm : Grows n (m.leaves n))
    (hf : ∀ a, Grows (m.leaves n) ((f a).leaves (m.leaves n))) : Grows n ((m >>= f).leaves n) := by
  unfold Handler.leaves at *
  rw [Handler.run_bind]
  generalize m.run n = r at hm hf
  rcases r with ⟨a | a, n₁⟩
  case ok    => exact hm.trans (hf a)
  case error => exact hm

theorem stepDown {term : Nat} : Grows n ((stepDown env term).leaves n) :=
  of_log (.emptied rfl) rfl

theorem adoptTerm {term : Nat} : Grows n ((adoptTerm env term).leaves n) := by
  unfold RaftNode.adoptTerm Handler.leaves Handler.run
  simp only
  split
  case isTrue  => exact stepDown
  case isFalse => exact refl

theorem lift {r : Except NodeFault RaftNode} (h : ∀ n', r = .ok n' → Grows n n') :
    Grows n (lift r n).2 := by
  cases r with
  | ok n'   => exact h n' rfl
  | error e => exact refl

theorem appendLocal {operations : List RegistryOperation} (h : n.appendLocal operations = .ok n') : Grows n n' := by
  unfold RaftNode.appendLocal at h
  simp only [bind, Except.bind] at h
  split at h
  case h_1 => cases h
  case h_2 => cases h; exact ⟨.refl, fun hw => .append hw _ _⟩

theorem becomeLeader (h : n.becomeLeader env = .ok n') : Grows n n' := by
  unfold RaftNode.becomeLeader at h
  simp only [bind, Except.bind, pure, Except.pure] at h
  split at h
  case h_1   => cases h
  case h_2 n₁ e =>
    cases h
    have ha : Grows _ (n₁.replicate env) := (appendLocal e).trans (same kept_replicate)
    exact ha.after rfl

theorem requestVotes : Grows n ((requestVotes env).leaves n) := by
  have hv : Grows n (RaftNode.resetElectionTimer env
      { n with votes := [n.layout.self], forgotten := [], leader := none }) := same rfl
  unfold RaftNode.requestVotes Handler.leaves Handler.run
  simp only
  split
  case isTrue  => exact hv.trans (lift fun _ => becomeLeader)
  case isFalse => exact hv.trans (same kept_broadcast)

theorem campaign : Grows n ((campaign env).leaves n) :=
  seq (of_log (.emptied rfl) rfl) fun _ => seq (same rfl) fun _ => requestVotes

theorem preCampaign : Grows n ((preCampaign env).leaves n) := by
  unfold RaftNode.preCampaign Handler.leaves Handler.run
  simp only
  split
  case isTrue  => exact after campaign rfl
  case isFalse => exact same kept_broadcast

theorem tick : Grows n ((tick env).leaves n) := by
  unfold RaftNode.tick Handler.leaves Handler.run
  simp only
  split
  case isTrue  => exact same (by split <;> simp)
  case isFalse =>
    repeat' split
    case isTrue          => exact same rfl
    case isFalse.isTrue  => exact refl
    case isFalse.isFalse => exact preCampaign

theorem onRequestVote {m : RequestVote} : Grows n ((onRequestVote env m).leaves n) := by
  unfold RaftNode.onRequestVote Handler.leaves Handler.run
  simp only
  split
  case isTrue  => exact refl
  case isFalse =>
    split
    case isTrue  => exact refl
    case isFalse =>
      refine seq adoptTerm fun _ => ?_
      unfold vote Handler.leaves Handler.run
      simp only
      split
      case isTrue  => exact seq (same rfl) fun _ => seq (same rfl) fun _ => same rfl
      case isFalse => exact refl

theorem onPreVote : Grows n ((onPreVote env).leaves n) := by
  unfold RaftNode.onPreVote Handler.leaves Handler.run
  simp only
  split
  case isTrue  => exact campaign
  case isFalse => exact refl

theorem onVote : Grows n ((onVote env).leaves n) := by
  unfold RaftNode.onVote Handler.leaves Handler.run
  simp only
  split
  case isTrue  => exact lift fun _ => becomeLeader
  case isFalse => exact refl

theorem onPreVoteReply {m : RequestVoteReply} : Grows n ((onPreVoteReply env peer m).leaves n) := by
  have counted : Grows n ((RaftNode.onPreVote env).leaves (n.countPreVote peer m)) := after onPreVote rfl
  unfold RaftNode.onPreVoteReply Handler.leaves Handler.run
  simp only
  split
  case isTrue  => exact stepDown
  case isFalse =>
    repeat' split
    all_goals first
      | exact counted
      | exact same rfl

theorem onRequestVoteReply {m : RequestVoteReply} : Grows n ((onRequestVoteReply env peer m).leaves n) := by
  have counted : Grows n ((RaftNode.onVote env).leaves (n.countVote peer m)) := after onVote rfl
  unfold RaftNode.onRequestVoteReply Handler.leaves Handler.run
  simp only
  split
  case isTrue  => exact onPreVoteReply
  case isFalse =>
    split
    case isTrue  => exact stepDown
    case isFalse =>
      split
      case isTrue  => exact refl
      case isFalse => exact counted

theorem onAppendEntriesReply {m : AppendEntriesReply} : Grows n ((onAppendEntriesReply env peer m).leaves n) := by
  unfold RaftNode.onAppendEntriesReply Handler.leaves Handler.run
  simp only
  split
  case isTrue  => exact stepDown
  case isFalse =>
    split
    case isTrue  => exact refl
    case isFalse => exact same kept_onLeaderReply

theorem onPromote {m : Promote} : Grows n (n.onPromote m) := by
  unfold RaftNode.onPromote
  split <;> exact same rfl

theorem proposed {operations : List RegistryOperation} (e : n.appendLocal operations = .ok n') :
    Grows n (if (n'.replicate env).peers.items = [] then (n'.replicate env).advanceCommit env else n'.replicate env) := by
  have ha : Grows n (n'.replicate env) := (appendLocal e).trans (same kept_replicate)
  split
  case isTrue  => exact ha.trans (same kept_advanceCommit)
  case isFalse => exact ha

theorem drain {operations : List (ProposalId → RegistryOperation)} : Grows n ((drain env operations).leaves n) := by
  unfold RaftNode.drain Handler.leaves Handler.run
  simp only
  split
  case isTrue  => exact refl
  case isFalse =>
    refine after (lift fun n' e => ?_) rfl
    simp only [bind, Except.bind, pure, Except.pure] at e
    split at e
    case h_1    => cases e
    case h_2 e₁ =>
      cases e
      exact proposed e₁

theorem onPeerState {up : Bool} {incarnation : Nat} : Grows n (n.onPeerState env peer up incarnation) := by
  unfold RaftNode.onPeerState
  split
  case h_1 => exact refl
  case h_2 =>
    simp only
    repeat' split
    case isTrue.isTrue  => exact same (by simp)
    case isTrue.isFalse => exact same rfl
    case isFalse        => exact after dropAssembly rfl

theorem onInstallSnapshotReply {m : InstallSnapshotReply} : Grows n ((onInstallSnapshotReply env peer m).leaves n) := by
  unfold RaftNode.onInstallSnapshotReply onChunkAnswered Handler.leaves Handler.run
  simp only
  split
  case isTrue  => exact stepDown
  case isFalse =>
    refine same ?_
    repeat' split
    all_goals simp

theorem read : Grows n (if n.role = .leader then n.replicate env else n) := by
  split
  case isTrue  => exact same kept_replicate
  case isFalse => exact refl

theorem maybeCompact : Grows n n.maybeCompact := by
  unfold RaftNode.maybeCompact
  simp only
  repeat' split
  all_goals exact same rfl

end Grows

section

variable [Python]

namespace Grows

theorem onPropose {m : Propose} : Grows n ((onPropose env m).leaves n) := by
  unfold RaftNode.onPropose Handler.leaves Handler.run
  simp only
  split
  case isTrue  => exact refl
  case isFalse =>
    split
    case h_1 => exact refl
    case h_2 => exact refl
    case h_3 =>
      split
      case h_1   => exact refl
      case h_2 e => exact proposed e

theorem applyTurn : Grows n (n.applyTurn env) := by
  unfold RaftNode.applyTurn
  simp only
  split
  case isFalse => exact maybeCompact
  case isTrue  =>
    repeat' split
    all_goals first
      | exact same rfl
      | exact trans (same kept_fail) (same rfl)

theorem applyPass : Grows n (n.applyPass env) := by
  unfold RaftNode.applyPass
  split
  case h_1 => exact applyTurn
  case h_2 => exact refl
  case h_3 =>
    split
    case isTrue  => exact refl
    case isFalse =>
      simp only
      split
      case h_1 => exact after (same kept_fail) rfl
      case h_2 => exact after applyTurn rfl

end Grows

-- The term is adopted, and what leads in it is heard, before the entries are looked at.
theorem onAppendEntries_cases (env : Env) (n : RaftNode) (m : AppendEntries) : ∃ n₁,
    Forgets n n₁ ∧ n₁.log = n.log ∧ n₁.commitIndex = n.commitIndex ∧
      ((∃ r, (onAppendEntries env m).run n = (r, n₁) ∧ ∀ reply, r = .ok reply → reply.success = false) ∨
        n₁.term = m.term ∧ (onAppendEntries env m).run n = (.ok (n₁.answerAppend env m).1, (n₁.answerAppend env m).2)) := by
  by_cases hlt : m.term < n.term
  case pos =>
    have e : (onAppendEntries env m).run n = (.ok n.appendReject, n) := if_pos hlt
    exact ⟨n, .refl, rfl, rfl, .inl ⟨_, e, fun reply hr => by cases hr; rfl⟩⟩
  case neg =>
    have e : (onAppendEntries env m).run n = (adoptTerm env m.term >>= fun _ =>
      modifyGet fun n => (n.hearLeader env m.leader).answerAppend env m).run n := if_neg hlt
    have hf : Forgets n ((adoptTerm env m.term).leaves n) := Grows.adoptTerm.forgets
    have ha : ((adoptTerm env m.term).leaves n).log = n.log ∧
        ((adoptTerm env m.term).leaves n).commitIndex = n.commitIndex ∧ ((adoptTerm env m.term).leaves n).term = m.term := by
      unfold adoptTerm Handler.leaves Handler.run
      simp only
      split
      case isTrue     => exact ⟨rfl, rfl, rfl⟩
      case isFalse hn => exact ⟨rfl, rfl, Nat.le_antisymm (Nat.le_of_not_lt hlt) (Nat.le_of_not_lt hn)⟩
    rw [e, Handler.run_bind]
    unfold Handler.leaves at hf ha
    generalize (adoptTerm env m.term).run n = r at hf ha
    obtain ⟨a | a, n₁⟩ := r
    case error => exact ⟨n₁, hf, ha.1, ha.2.1, .inl ⟨_, rfl, nofun⟩⟩
    case ok    => exact ⟨n₁.hearLeader env m.leader, hf, ha.1, ha.2.1, .inr ⟨ha.2.2, rfl⟩⟩

namespace Grows

-- Everything but what a leader sends, and the compaction.
theorem step {e : NodeEvent} (ha : ∀ m, e ≠ .appendEntries m) (hi : ∀ peer m, e ≠ .installSnapshot peer m)
    (hc : ∀ payload, e ≠ .compacted payload) : Grows n (n.step env e) := by
  cases e
  case tick                           => exact settle tick
  case requestVote m                  => exact settle onRequestVote
  case requestVoteReply peer m        => exact settle onRequestVoteReply
  case appendEntries m                => exact absurd rfl (ha m)
  case appendEntriesReply peer m      => exact settle onAppendEntriesReply
  case installSnapshot peer m         => exact absurd rfl (hi peer m)
  case installSnapshotReply peer m    => exact settle onInstallSnapshotReply
  case promote m                      => exact onPromote
  case drain operations               => exact settle drain
  case propose m                      => exact settle onPropose
  case read                           => exact read
  case peerState peer up incarnation  => exact onPeerState
  case applyPass                      => exact applyPass
  case compacted payload              => exact absurd rfl (hc payload)
  case unexpected                     => exact same kept_fail

end Grows

end
end RaftNode
end Raft
