import NmosReference.Raft.PartyMoves

open Protobuf Registry

namespace Raft
namespace RaftNode

variable {env : Env} {e : NodeEvent} {n n' n₁ n₂ : RaftNode} {peer : Nat} {state : PeerState}

-- Elections

theorem won_elected (h : n.won n.votes n.forgotten = true) : n.party.Elected := by
  have majority : n.layout.quorum ≤ (n.members.filter (· ∈ n.votes)).length := by
    unfold won at h
    simp only at h
    split at h
    case isTrue hq  => exact hq.trans (List.length_filter_le _ _)
    case isFalse    =>
      split at h
      case isTrue  => cases h
      case isFalse =>
        simp only [Bool.and_eq_true, decide_eq_true_eq] at h
        exact h.1
  rwa [← List.countP_eq_length_filter] at majority

-- The campaign stopped where its term was to be saved.
structure Thwarted (env : Env) (n n' : RaftNode) : Prop where
  stood : n.party.Stood n'.party
  save  : env.save n'.persistentState ≠ .saved

-- How a handler that may stand for election ends.
def Concludes (env : Env) (e : NodeEvent) (n : RaftNode) (r : Except NodeFault Unit × RaftNode) : Prop :=
  Acts e n r.2 ∨ r.1 = .error .osError ∧ Thwarted env n r.2

namespace Acts

theorem party_lead (env : Env) : ({ n with
    role := .leader, leader := some n.layout.self, voting := true, peers := n.peers.map fun _ => n.lead env
    sequence := n.sequence + 1 } : RaftNode).party =
      { n.party with role := .leader, voting := true, matched := n.party.matched.map fun _ _ => 0 } := by
  unfold RaftNode.party
  congr 1
  refine Dict.ext_items ?_
  simp [Dict.map, RaftNode.lead]

theorem appendLocal {operations : List RegistryOperation} (hr : n.role = .leader) (h : n.appendLocal operations = .ok n') :
    Acts e n n' := by
  obtain ⟨values, rfl⟩ := appendLocal_ok h
  exact of_eq (.append values hr) rfl

theorem becomeLeader (hi : n.Indexed) (hr : n.role = .candidate) (hw : n.party.Elected)
    (h : n.becomeLeader env = .ok n') : Acts e n n' := by
  unfold RaftNode.becomeLeader at h
  simp only [bind, Except.bind, pure, Except.pure] at h
  split at h
  case h_1 => cases h
  case h_2 n₁ e₁ =>
    cases h
    have hl : RaftNode.Moves n { n with
        role := .leader, leader := some n.layout.self, voting := true, peers := n.peers.map fun _ => n.lead env
        sequence := n.sequence + 1 } := .lead hi
    have ha : RaftNode.Moves _ n₁ := .appendLocal hl.indexed e₁
    have hr₁ : n₁.role = .leader := by
      obtain ⟨values, rfl⟩ := appendLocal_ok e₁
      rfl
    refine (of_eq (.win hr hw) (party_lead env)).trans ?_
    exact (appendLocal rfl e₁).trans (replicate ha.indexed.wf hr₁ (ha.indexed.tracked hr₁))

theorem requestVotes (hi : n.Indexed) (hr : n.role = .candidate) (hs : n.party.saved = some (n.term, some n.layout.self)) :
    Acts e (resetElectionTimer env { n with votes := [n.layout.self], forgotten := [], leader := none })
      ((requestVotes env).leaves n) := by
  have hv : RaftNode.Moves n (RaftNode.resetElectionTimer env
      { n with votes := [n.layout.self], forgotten := [], leader := none }) := .same hi rfl hi.tracked
  unfold RaftNode.requestVotes Handler.leaves Handler.run
  simp only
  split
  case isTrue hw => exact lift fun _ => becomeLeader hv.indexed hr (won_elected hw)
  case isFalse   => exact broadcast ⟨rfl, fun _ => ⟨hr, rfl, hs, rfl, rfl⟩⟩

end Acts

namespace Concludes

theorem acts {r : Except NodeFault Unit × RaftNode} (h : Acts e n r.2) : Concludes env e n r :=
  .inl h

theorem of_party {r : Except NodeFault Unit × RaftNode} (h : Concludes env e n₁ r) (hp : n₁.party = n.party) :
    Concludes env e n r := by
  rcases h with h | ⟨hr, ht⟩
  case inl => exact .inl (h.after hp)
  case inr => exact .inr ⟨hr, hp ▸ ht.stood, ht.save⟩

theorem campaign (h : n.Indexed) : Concludes env e n ((campaign env).run n) := by
  have hm : RaftNode.Moves n ((RaftNode.persist env).leaves n.standForElection) :=
    .forgot h rfl fun hr => by cases hr
  have hrun : (RaftNode.campaign env).run n =
      ((RaftNode.persist env >>= fun _ => RaftNode.requestVotes env).run n.standForElection) := rfl
  rw [hrun, Handler.run_bind]
  by_cases hs : env.save n.standForElection.persistentState = .saved
  case pos =>
    have hp : (RaftNode.persist env).run n.standForElection =
        (.ok (), (RaftNode.persist env).leaves n.standForElection) :=
      Prod.ext (if_pos hs) rfl
    have hf : ((RaftNode.persist env).leaves n.standForElection).file = some n.standForElection.persistentState := by
      have hsave : n.standForElection.file.save n.standForElection.persistentState .saved =
          some n.standForElection.persistentState := TermStore.save_saved
      rw [← hsave, ← hs]
      rfl
    have hsaved : ((RaftNode.persist env).leaves n.standForElection).party.saved =
        some (n.term + 1, some n.layout.self) := by
      unfold RaftNode.party
      rw [hf]
      rfl
    have hc : RaftNode.Acts e n (RaftNode.resetElectionTimer env { (RaftNode.persist env).leaves n.standForElection with
        votes := [n.layout.self], forgotten := [], leader := none }) := by
      refine .of_eq .campaign ?_
      unfold RaftNode.party RaftNode.resetElectionTimer
      simp only [hf]
      rfl
    rw [hp]
    exact .inl (hc.trans (RaftNode.Acts.requestVotes hm.indexed rfl hsaved))
  case neg =>
    have hp : (RaftNode.persist env).run n.standForElection =
        (.error .osError, (RaftNode.persist env).leaves n.standForElection) :=
      Prod.ext (if_neg hs) rfl
    rw [hp]
    refine .inr ⟨rfl, ⟨((RaftNode.persist env).leaves n.standForElection).party.saved, ?_, rfl⟩, hs⟩
    rcases TermStore.save_cases n.standForElection.persistentState n.file (env.save n.standForElection.persistentState) with
      hs | hs
    case inl => exact .inr (congrArg (Option.map fun s : PersistentState => (s.term, s.votedFor)) hs)
    case inr => exact .inl (congrArg (Option.map fun s : PersistentState => (s.term, s.votedFor)) hs)

theorem preCampaign (h : n.Indexed) : Concludes env e n ((preCampaign env).run n) := by
  have hm : RaftNode.Moves n (RaftNode.resetElectionTimer env { n with
      role := .preCandidate, leader := none, preVotes := [n.layout.self], preRefusals := [], preForgotten := [] }) :=
    .same h rfl fun hr => by cases hr
  have hp : RaftNode.Acts e n (RaftNode.resetElectionTimer env { n with
      role := .preCandidate, leader := none, preVotes := [n.layout.self], preRefusals := [], preForgotten := [] }) :=
    .rest .preCandidate nofun nofun rfl
  unfold RaftNode.preCampaign Handler.run
  simp only
  split
  case isTrue  =>
    rcases (campaign hm.indexed : Concludes env e _ _) with hc | ⟨hr, ⟨saved, hs, he⟩, hf⟩
    case inl => exact .inl (hp.trans hc)
    case inr => exact .inr ⟨hr, ⟨saved, hs, he⟩, hf⟩
  case isFalse => exact .inl (hp.trans (RaftNode.Acts.broadcast ⟨rfl, nofun⟩))

theorem tick (h : n.Indexed) : Concludes env e n ((tick env).run n) := by
  unfold RaftNode.tick Handler.run
  simp only
  split
  case isTrue hr =>
    split
    case isTrue  => exact acts (.replicate h.wf hr (h.tracked hr))
    case isFalse => exact acts .relinquish
  case isFalse =>
    split
    case isTrue  => exact acts (.same rfl)
    case isFalse =>
      split
      case isTrue  => exact acts .refl
      case isFalse => exact preCampaign h

theorem onPreVote (h : n.Indexed) : Concludes env e n ((onPreVote env).run n) := by
  unfold RaftNode.onPreVote Handler.run
  simp only
  split
  case isTrue  => exact campaign h
  case isFalse => exact acts .refl

theorem onPreVoteReply {m : RequestVoteReply} (h : n.Indexed) : Concludes env e n ((onPreVoteReply env peer m).run n) := by
  unfold RaftNode.onPreVoteReply Handler.run
  simp only
  split
  case isTrue ht => exact acts (.stepDown ht.2)
  case isFalse   =>
    split
    case isTrue  => exact acts .refl
    case isFalse =>
      split
      case isTrue  =>
        have hv : RaftNode.Moves n (n.countPreVote peer m) := .same h rfl h.tracked
        have hc : Concludes env e (n.countPreVote peer m) ((RaftNode.onPreVote env).run (n.countPreVote peer m)) :=
          onPreVote hv.indexed
        exact hc.of_party rfl
      case isFalse =>
        split
        case isTrue  =>
          split
          case isTrue  => exact acts (.rest .follower nofun nofun rfl)
          case isFalse => exact acts (.same rfl)
        case isFalse => exact acts .refl

end Concludes

namespace Acts

theorem onVote (h : n.Indexed) (hr : n.role = .candidate) : Acts e n ((onVote env).leaves n) := by
  unfold RaftNode.onVote Handler.leaves Handler.run
  simp only
  split
  case isTrue hw => exact lift fun _ => becomeLeader h hr (won_elected hw)
  case isFalse   => exact refl

-- Voting

theorem vote {m : RequestVote} (he : e = .requestVote m) (hp : m.preVote = false) : Acts e n ((vote env m).leaves n) := by
  unfold RaftNode.vote Handler.leaves Handler.run
  simp only
  split
  case isFalse  => exact refl
  case isTrue h =>
    obtain ⟨ht, hv, hl⟩ := h
    have hv : n.votedFor = none ∨ n.votedFor = some m.candidate := hv.imp_left Option.isNone_iff_eq_none.mp
    have hm : Acts e n { n with votedFor := some m.candidate } := of_quiet (.vote m he hp ht hv hl) rfl
    exact seq hm fun _ => seq persist fun _ => same rfl

theorem onRequestVote {m : RequestVote} (he : e = .requestVote m) : Acts e n ((onRequestVote env m).leaves n) := by
  unfold RaftNode.onRequestVote Handler.leaves Handler.run
  simp only
  split
  case isTrue  => exact refl
  case isFalse =>
    split
    case isTrue  => exact refl
    case isFalse hp => exact seq adoptTerm fun _ => vote he (Bool.eq_false_iff.mpr hp)

end Acts

theorem Concludes.onRequestVoteReply {m : RequestVoteReply} (h : n.Indexed) (he : e = .requestVoteReply peer m) :
    Concludes env e n ((onRequestVoteReply env peer m).run n) := by
  unfold RaftNode.onRequestVoteReply Handler.run
  simp only
  split
  case isTrue     => exact onPreVoteReply h
  case isFalse hp =>
    split
    case isTrue ht => exact acts (.stepDown ht)
    case isFalse   =>
      split
      case isTrue     => exact acts .refl
      case isFalse hc =>
        simp only [not_or, Decidable.not_not] at hc
        have hv : RaftNode.Moves n (n.countVote peer m) := .same h rfl h.tracked
        have hm : RaftNode.Acts e n (n.countVote peer m) :=
          .of_quiet (.count peer m he (Bool.eq_false_iff.mpr hp) hc.1 hc.2) rfl
        exact acts (hm.trans (.onVote hv.indexed hc.1))

end RaftNode
end Raft
