import NmosReference.Raft.NodeFrames

open Protobuf Registry

namespace Raft

namespace StateMachine

variable [Python] {m : StateMachine} {now : TaiCursor} {index : Nat} {op : RegistryOperation}

theorem applyEntry_lastApplied {entry : Entry RegistryOperation} :
    (m.applyEntry now entry).2.2.lastApplied = max m.lastApplied entry.index := by
  unfold applyEntry
  split
  case isTrue  => simp only; omega
  case isFalse => simp only; omega

-- A run of entries brings the machine to the last of them.
theorem follow_lastApplied {clock : Nat → TaiCursor} {entries : List (Entry RegistryOperation)} {bound : Nat}
    (h : ∀ e ∈ entries, e.index ≤ bound) :
    m.lastApplied ≤ (m.follow clock entries).lastApplied ∧
      (m.follow clock entries).lastApplied ≤ max m.lastApplied bound := by
  induction entries generalizing m with
  | nil => simp [follow]
  | cons entry entries ih =>
    obtain ⟨he, h⟩ := List.forall_mem_cons.mp h
    obtain ⟨hl, hu⟩ := ih (m := (m.applyEntry (clock entry.index) entry).2.2) h
    rw [applyEntry_lastApplied] at hl hu
    rw [follow]
    omega

theorem applyLog_lastApplied (clock : Nat → TaiCursor) {entries : List (Entry RegistryOperation)} {bound : Nat}
    (h : ∀ e ∈ entries, e.index ≤ bound) :
    m.lastApplied ≤ (m.applyLog clock entries).2.2.lastApplied ∧
      (m.applyLog clock entries).2.2.lastApplied ≤ max m.lastApplied bound := by
  have ⟨_, he⟩ : ∃ events, m.applyLog clock entries = (_, events, m.follow clock entries) := applyLog_eq
  rw [he]
  exact follow_lastApplied h

end StateMachine

namespace Replica

-- The order of the four indexes, and what it takes to keep it.
structure Sound (r : Replica) : Prop where
  wf         : r.log.WellFormed
  applied    : r.log.snapshotIndex ≤ r.machine.lastApplied
  committed  : r.machine.lastApplied ≤ r.commitIndex
  held       : r.commitIndex ≤ r.log.lastIndex
  covered    : r.log.snapshotIndex = 0 ∨ ∃ m, r.snapshotMeta = some m ∧ r.log.snapshotIndex ≤ m.lastIndex
  compacting : ∀ index term discardTo, r.applier = .compacting index term discardTo → r.machine.capture.isSome →
    r.log.snapshotIndex ≤ index ∧ index ≤ r.machine.lastApplied ∧ discardTo ≤ index

-- What a step may do to what is committed.
structure Advances (r r' : Replica) : Prop where
  commitIndex   : r.commitIndex ≤ r'.commitIndex
  lastApplied   : r.machine.lastApplied ≤ r'.machine.lastApplied
  snapshotIndex : r.log.snapshotIndex ≤ r'.log.snapshotIndex
  kept          : ∀ i e, i ≤ r.commitIndex → r.log.entryAt? i = some e →
    r'.log.entryAt? i = some e ∨ i ≤ r'.log.snapshotIndex

variable {r r₁ r₂ : Replica}

namespace Advances

theorem refl : Advances r r :=
  ⟨le_rfl, le_rfl, le_rfl, fun _ _ _ h => .inl h⟩

theorem trans (h : Advances r r₁) (h' : Advances r₁ r₂) : Advances r r₂ where
  commitIndex   := h.commitIndex.trans h'.commitIndex
  lastApplied   := h.lastApplied.trans h'.lastApplied
  snapshotIndex := h.snapshotIndex.trans h'.snapshotIndex
  kept          := fun i e hi he =>
    match h.kept i e hi he with
    | .inl he => h'.kept i e (hi.trans h.commitIndex) he
    | .inr hs => .inr (hs.trans h'.snapshotIndex)

end Advances

-- The log grew at its end, and more of it is committed.
theorem Sound.grow (h : r.Sound) {log : RaftLog RegistryOperation} {c : Nat} (hx : RaftLog.Extends r.log log)
    (hc : r.commitIndex ≤ c) (hl : c ≤ log.lastIndex) :
    Sound { r with log, commitIndex := c } ∧ Advances r { r with log, commitIndex := c } where
  left := {
    wf         := hx.wf
    applied    := hx.snapshotIndex ▸ h.applied
    committed  := h.committed.trans hc
    held       := hl
    covered    := hx.snapshotIndex ▸ h.covered
    compacting := fun _ _ _ ha hp => hx.snapshotIndex ▸ h.compacting _ _ _ ha hp }
  right := ⟨hc, le_rfl, Nat.le_of_eq hx.snapshotIndex.symm, fun i e _ he => .inl (hx.entry i e he)⟩

end Replica

namespace RaftNode

variable {env : Env} {n n' n₁ n₂ : RaftNode} {peer : Nat} {state : PeerState}

structure Indexed (n : RaftNode) : Prop where
  sound   : n.replica.Sound
  tracked : n.role = .leader → n.Tracked

theorem Indexed.wf (h : n.Indexed) : n.log.WellFormed :=
  h.sound.wf

-- What a handler may do to the indexes.
structure Moves (n n' : RaftNode) : Prop where
  indexed  : n'.Indexed
  advances : Replica.Advances n.replica n'.replica

namespace Moves

theorem refl (h : n.Indexed) : Moves n n :=
  ⟨h, .refl⟩

theorem trans (h : Moves n n₁) (h' : Moves n₁ n₂) : Moves n n₂ :=
  ⟨h'.indexed, h.advances.trans h'.advances⟩

theorem same (h : n.Indexed) (hr : n'.replica = n.replica) (ht : n'.role = .leader → n'.Tracked) : Moves n n' where
  indexed  := ⟨hr ▸ h.sound, ht⟩
  advances := hr ▸ .refl

theorem forgot {d : Dict Nat Assembly} (h : n.Indexed) (hr : n'.replica = { n.replica with installing := d })
    (ht : n'.role = .leader → n'.Tracked) : Moves n n' where
  indexed  := ⟨hr ▸ ⟨h.sound.wf, h.sound.applied, h.sound.committed, h.sound.held, h.sound.covered,
    h.sound.compacting⟩, ht⟩
  advances := hr ▸ ⟨le_rfl, le_rfl, le_rfl, fun _ _ _ he => .inl he⟩

theorem sends (h : n.Indexed) (hs : Sends n n') : Moves n n' :=
  same h hs.replica fun _ => hs.tracked

theorem relinquish (h : n.Indexed) : Moves n (n.relinquish env) := by
  refine same h replica_relinquish fun hr => ?_
  unfold RaftNode.relinquish at hr ⊢
  split at hr
  case isTrue    => cases hr
  case isFalse hn => rw [if_neg hn]; exact h.tracked hr

theorem fail {failure : MemberFailure} (h : n.Indexed) : Moves n (n.fail env failure) := by
  unfold RaftNode.fail
  split
  case isTrue  => exact refl h
  case isFalse =>
    have hf : Moves n { n with failure := some failure, closing := true } := same h rfl h.tracked
    exact hf.trans (relinquish hf.indexed)

theorem settle {α : Type} {r : Except NodeFault α × RaftNode} (h : Moves n r.2) : Moves n (settle env r) := by
  rcases r with ⟨a | a, n'⟩
  case ok => exact h
  case error =>
    cases a
    case osError => exact h
    all_goals exact h.trans (fail h.indexed)

-- One part of a handler after the other, unless the first raises.
theorem seq {α β : Type} {m : NodeM α} {f : α → NodeM β} (hm : Moves n (m.leaves n))
    (hf : ∀ a, Moves (m.leaves n) ((f a).leaves (m.leaves n))) : Moves n ((m >>= f).leaves n) := by
  unfold Handler.leaves at *
  rw [Handler.run_bind]
  generalize m.run n = r at hm hf
  rcases r with ⟨a | a, n₁⟩
  case ok    => exact hm.trans (hf a)
  case error => exact hm

theorem stepDown {term : Nat} (h : n.Indexed) : Moves n ((stepDown env term).leaves n) :=
  forgot h replica_stepDown fun hr => by cases hr

theorem adoptTerm {term : Nat} (h : n.Indexed) : Moves n ((adoptTerm env term).leaves n) := by
  unfold RaftNode.adoptTerm Handler.leaves Handler.run
  simp only
  split
  case isTrue  => exact stepDown h
  case isFalse => exact refl h

theorem resetElectionTimer (h : n.Indexed) : Moves n (n.resetElectionTimer env) :=
  same h rfl h.tracked

theorem broadcast {m : Message} (h : n.Indexed) (hr : n.role ≠ .leader) : Moves n (n.broadcast m) :=
  same h replica_broadcast fun hl => absurd (role_broadcast ▸ hl) hr

theorem persist (h : n.Indexed) : Moves n ((persist env).leaves n) :=
  same h replica_persist h.tracked

end Moves

-- Elections

theorem appendLocal_ok {operations : List RegistryOperation} (h : n.appendLocal operations = .ok n') :
    ∃ values, n' = { n with log := n.log.append n.term values } := by
  unfold appendLocal at h
  simp only [bind, Except.bind] at h
  split at h
  case h_1 => cases h
  case h_2 => cases h; exact ⟨_, rfl⟩

namespace Moves

theorem appendLocal {operations : List RegistryOperation} (h : n.Indexed)
    (e : n.appendLocal operations = .ok n') : Moves n n' := by
  obtain ⟨values, rfl⟩ := appendLocal_ok e
  have hx := RaftLog.Extends.append h.wf n.term values
  have ⟨hs, ha⟩ := h.sound.grow hx le_rfl (h.sound.held.trans hx.lastIndex)
  refine ⟨⟨hs, fun hr p state hp => ?_⟩, ha⟩
  have ⟨hm, hn⟩ := h.tracked hr p state hp
  exact ⟨hm, hn.trans (Nat.succ_le_succ hx.lastIndex)⟩

theorem lift {r : Except NodeFault RaftNode} (h : n.Indexed) (hr : ∀ n', r = .ok n' → Moves n n') :
    Moves n (lift r n).2 := by
  cases r with
  | ok n'   => exact hr n' rfl
  | error e => exact refl h

theorem lead (h : n.Indexed) : Moves n { n with
    role := .leader, leader := some n.layout.self, voting := true, peers := n.peers.map fun _ => n.lead env
    sequence := n.sequence + 1 } := by
  refine same h rfl fun _ p state hp => ?_
  rw [Dict.get?_map, Option.map_eq_some_iff] at hp
  obtain ⟨_, _, rfl⟩ := hp
  exact ⟨Nat.succ_pos _, le_rfl⟩

theorem replicate (h : n.Indexed) (hr : n.role = .leader) : Moves n (n.replicate env) :=
  sends h <| .replicate h.wf (h.tracked hr)

theorem becomeLeader (h : n.Indexed) (e : n.becomeLeader env = .ok n') : Moves n n' := by
  unfold RaftNode.becomeLeader at e
  simp only [bind, Except.bind, pure, Except.pure] at e
  split at e
  case h_1 => cases e
  case h_2 n₁ e₁ =>
    cases e
    have hl : Moves n { n with
        role := .leader, leader := some n.layout.self, voting := true, peers := n.peers.map fun _ => n.lead env
        sequence := n.sequence + 1 } := lead h
    have ha : Moves _ n₁ := appendLocal hl.indexed e₁
    have hr : n₁.role = .leader := by
      obtain ⟨values, rfl⟩ := appendLocal_ok e₁
      rfl
    exact hl.trans (ha.trans (replicate ha.indexed hr))

theorem requestVotes (h : n.Indexed) (hr : n.role ≠ .leader) : Moves n ((requestVotes env).leaves n) := by
  have hv : Moves n (RaftNode.resetElectionTimer env
      { n with votes := [n.layout.self], forgotten := [], leader := none }) := same h rfl h.tracked
  unfold RaftNode.requestVotes Handler.leaves Handler.run
  simp only
  split
  case isTrue  => exact hv.trans (lift hv.indexed fun _ => becomeLeader hv.indexed)
  case isFalse => exact hv.trans (broadcast hv.indexed hr)

theorem campaign (h : n.Indexed) : Moves n ((campaign env).leaves n) := by
  have hc : Moves n n.standForElection :=
    forgot h rfl fun hr => by cases hr
  refine seq hc fun _ => seq (persist hc.indexed) fun _ => requestVotes (persist hc.indexed).indexed ?_
  exact fun hr => by cases hr

theorem preCampaign (h : n.Indexed) : Moves n ((preCampaign env).leaves n) := by
  have hp : Moves n (RaftNode.resetElectionTimer env { n with
      role := .preCandidate, leader := none, preVotes := [n.layout.self], preRefusals := [], preForgotten := [] }) :=
    same h rfl fun hr => by cases hr
  unfold RaftNode.preCampaign Handler.leaves Handler.run
  simp only
  split
  case isTrue  => exact hp.trans (campaign hp.indexed)
  case isFalse => exact hp.trans (broadcast hp.indexed fun hr => by cases hr)

theorem tick (h : n.Indexed) : Moves n ((tick env).leaves n) := by
  unfold RaftNode.tick Handler.leaves Handler.run
  simp only
  split
  case isTrue hr =>
    split
    case isTrue  => exact replicate h hr
    case isFalse => exact relinquish h
  case isFalse =>
    split
    case isTrue  => exact resetElectionTimer h
    case isFalse =>
      split
      case isTrue  => exact refl h
      case isFalse => exact preCampaign h

theorem vote {m : RequestVote} (h : n.Indexed) : Moves n ((vote env m).leaves n) := by
  unfold RaftNode.vote Handler.leaves Handler.run
  simp only
  split
  case isTrue  =>
    have hv : Moves n { n with votedFor := some m.candidate } := same h rfl h.tracked
    exact seq hv fun _ => seq (persist hv.indexed) fun _ => resetElectionTimer (persist hv.indexed).indexed
  case isFalse => exact refl h

theorem onRequestVote {m : RequestVote} (h : n.Indexed) : Moves n ((onRequestVote env m).leaves n) := by
  unfold RaftNode.onRequestVote Handler.leaves Handler.run
  simp only
  split
  case isTrue  => exact refl h
  case isFalse =>
    split
    case isTrue  => exact refl h
    case isFalse => exact seq (adoptTerm h) fun _ => vote (adoptTerm h).indexed

theorem onPreVote (h : n.Indexed) : Moves n ((onPreVote env).leaves n) := by
  unfold RaftNode.onPreVote Handler.leaves Handler.run
  simp only
  split
  case isTrue  => exact campaign h
  case isFalse => exact refl h

theorem onVote (h : n.Indexed) : Moves n ((onVote env).leaves n) := by
  unfold RaftNode.onVote Handler.leaves Handler.run
  simp only
  split
  case isTrue  => exact lift h fun _ => becomeLeader h
  case isFalse => exact refl h

theorem onPreVoteReply {m : RequestVoteReply} (h : n.Indexed) : Moves n ((onPreVoteReply env peer m).leaves n) := by
  unfold RaftNode.onPreVoteReply Handler.leaves Handler.run
  simp only
  split
  case isTrue  => exact stepDown h
  case isFalse =>
    split
    case isTrue  => exact refl h
    case isFalse hr =>
      split
      case isTrue  =>
        have hv : Moves n (n.countPreVote peer m) := same h rfl h.tracked
        exact hv.trans (onPreVote hv.indexed)
      case isFalse =>
        split
        case isTrue  =>
          split
          case isTrue  => exact same h rfl fun hl => by cases hl
          case isFalse => exact same h rfl h.tracked
        case isFalse => exact refl h

theorem onRequestVoteReply {m : RequestVoteReply} (h : n.Indexed) :
    Moves n ((onRequestVoteReply env peer m).leaves n) := by
  unfold RaftNode.onRequestVoteReply Handler.leaves Handler.run
  simp only
  split
  case isTrue  => exact onPreVoteReply h
  case isFalse =>
    split
    case isTrue  => exact stepDown h
    case isFalse =>
      split
      case isTrue  => exact refl h
      case isFalse =>
        have hv : Moves n (n.countVote peer m) := same h rfl h.tracked
        exact hv.trans (onVote hv.indexed)

end Moves
-- Replication

theorem quorumIndex_le {candidate : Nat} (h : n.Tracked) (hq : n.quorumIndex = some candidate) :
    candidate ≤ n.log.lastIndex := by
  unfold quorumIndex at hq
  simp only at hq
  split at hq
  case isTrue  => cases hq; exact le_rfl
  case isFalse =>
    have hm := List.mem_of_getElem? hq
    rw [SortBy.mem, List.mem_map] at hm
    obtain ⟨state, hs, rfl⟩ := hm
    obtain ⟨p, hp⟩ := Dict.mem_values.mp (List.mem_filter.mp hs).1
    have ⟨hlt, hle⟩ := h p state hp
    omega

namespace Moves

theorem advanceCommit (h : n.Indexed) (hr : n.role = .leader) : Moves n (n.advanceCommit env) := by
  unfold RaftNode.advanceCommit
  split
  case h_1 => exact refl h
  case h_2 candidate hq =>
    split
    case isTrue  => exact refl h
    case isFalse hc =>
      have hlt : n.commitIndex ≤ candidate := by omega
      have ⟨hs, ha⟩ := h.sound.grow (.refl h.wf) hlt (quorumIndex_le (h.tracked hr) hq)
      have hm : Moves n (RaftNode.scheduleApply { n with commitIndex := candidate }) :=
        ⟨⟨hs, h.tracked⟩, ha⟩
      exact hm.trans (replicate hm.indexed hr)

theorem setPeer (h : n.Indexed) (hs : n.role = .leader → n.Tracks state) : Moves n (n.setPeer peer state) :=
  same h rfl fun hr => (Sends.setPeer (hs hr) (h.tracked hr)).tracked

theorem sendAppend (h : n.Indexed) (hr : n.role = .leader) (hs : n.Tracks state) :
    Moves n ((n.setPeer peer state).sendAppend env peer state) :=
  have hp := Sends.setPeer hs (h.tracked hr)
  sends h <| hp.trans <| Sends.sendAppend (hp.log ▸ h.wf) hs hp.tracked

theorem onRejected {m : AppendEntriesReply} (h : n.Indexed) (hr : n.role = .leader) (hs : n.Tracks state)
    (hm : state.matchIndex < m.conflictIndex) : Moves n ((n.setPeer peer state).onRejected env peer state m) := by
  have hp : Moves n (n.setPeer peer state) := setPeer h fun _ => hs
  unfold RaftNode.onRejected
  simp only
  split
  case isTrue    => exact hp
  case isFalse hn =>
    have ⟨_, hle⟩ := hs
    refine hp.trans (sendAppend hp.indexed hr ⟨?_, ?_⟩)
    · simp only
      omega
    · simp only [RaftNode.setPeer]
      omega

theorem tracks_credit {m : AppendEntriesReply} (hs : n.Tracks state) : n.Tracks (n.credit state m) := by
  have ⟨hlt, hle⟩ := hs
  constructor
  · simp only [credit]
    omega
  · simp only [credit]
    omega

theorem promote (h : n.Indexed) (hs : n.Tracks state) : Moves n (n.promote peer state) := by
  unfold RaftNode.promote
  split
  case isTrue  =>
    have hp : Moves n (n.setPeer peer { state with catchingUp := false }) := setPeer h fun _ => hs
    exact hp.trans (same hp.indexed rfl hp.indexed.tracked)
  case isFalse => exact setPeer h fun _ => hs

theorem role_advanceCommit (h : n.Indexed) (hr : n.role = .leader) : (n.advanceCommit env).role = .leader := by
  unfold RaftNode.advanceCommit
  split
  case h_1 => exact hr
  case h_2 =>
    split
    case isTrue  => exact hr
    case isFalse =>
      rw [(Sends.replicate h.wf (h.tracked hr) : Sends (RaftNode.scheduleApply { n with commitIndex := _ }) _).role]
      exact hr

theorem onProgress (h : n.Indexed) (hr : n.role = .leader) : Moves n (n.onProgress env peer) := by
  have ha : Moves n (n.advanceCommit env) := advanceCommit h hr
  unfold RaftNode.onProgress
  simp only
  split
  case h_1 state hp =>
    split
    case isTrue  =>
      have ht := ha.indexed.tracked (role_advanceCommit h hr)
      exact ha.trans (sends ha.indexed (.sendAppend ha.indexed.wf (ht peer state hp) ht))
    case isFalse => exact ha
  case h_2 => exact ha

theorem role_promote : (n.promote peer state).role = n.role := by
  unfold RaftNode.promote
  split <;> rfl

theorem onLeaderReply {m : AppendEntriesReply} (h : n.Indexed) (hr : n.role = .leader) :
    Moves n (n.onLeaderReply env peer m) := by
  unfold RaftNode.onLeaderReply
  split
  case h_1 => exact refl h
  case h_2 state hp =>
    have hs : n.Tracks (n.heardFrom env state m) := h.tracked hr peer state hp
    simp only
    split
    case isTrue  => exact refl h
    case isFalse =>
      split
      case isTrue     => exact setPeer h fun _ => hs
      case isFalse hn =>
        split
        case isTrue hf  => exact onRejected h hr hs (Nat.lt_of_not_le fun hle => hn ⟨hf, hle⟩)
        case isFalse    =>
          have hm : Moves n (n.promote peer (n.credit (n.heardFrom env state m) m)) := promote h (tracks_credit hs)
          split
          case isTrue  => exact hm
          case isFalse => exact hm.trans (onProgress hm.indexed (role_promote.trans hr))

theorem onAppendEntriesReply {m : AppendEntriesReply} (h : n.Indexed) :
    Moves n ((onAppendEntriesReply env peer m).leaves n) := by
  unfold RaftNode.onAppendEntriesReply Handler.leaves Handler.run
  simp only
  split
  case isTrue  => exact stepDown h
  case isFalse =>
    split
    case isTrue     => exact refl h
    case isFalse hr => exact onLeaderReply h (by simp_all)

theorem onPromote {m : Promote} (h : n.Indexed) : Moves n (n.onPromote m) := by
  unfold RaftNode.onPromote
  split
  case isTrue  => exact refl h
  case isFalse => exact same h rfl h.tracked

-- What a leader proposed is appended, sent, and committed at once if it is alone.
theorem proposed {operations : List RegistryOperation} (h : n.Indexed) (hr : n.role = .leader)
    (e : n.appendLocal operations = .ok n') :
    Moves n (if (n'.replicate env).peers.items = [] then (n'.replicate env).advanceCommit env else n'.replicate env) := by
  have ha := appendLocal h e
  have hr' : n'.role = .leader := by
    obtain ⟨values, rfl⟩ := appendLocal_ok e
    exact hr
  have hs : Sends n' (n'.replicate env) := .replicate ha.indexed.wf (ha.indexed.tracked hr')
  have hm := ha.trans (sends ha.indexed hs)
  split
  case isTrue  => exact hm.trans (advanceCommit hm.indexed (hs.role.trans hr'))
  case isFalse => exact hm

theorem drain {operations : List (ProposalId → RegistryOperation)} (h : n.Indexed) :
    Moves n ((drain env operations).leaves n) := by
  unfold RaftNode.drain Handler.leaves Handler.run
  simp only
  split
  case isTrue     => exact refl h
  case isFalse hr =>
    have hr : n.role = .leader := by simpa using hr
    have hn : Moves n { n with sequence := n.sequence + (operations.mapIdx fun i op => op ⟨n.layout.self, n.sequence + 1 + i⟩).length } :=
      same h rfl h.tracked
    refine hn.trans (lift hn.indexed fun n' e => ?_)
    simp only [bind, Except.bind, pure, Except.pure] at e
    split at e
    case h_1 => cases e
    case h_2 n₁ e₁ =>
      cases e
      exact proposed hn.indexed hr e₁

theorem dropAssembly (h : n.Indexed) : Moves n (n.dropAssembly peer) :=
  forgot h rfl h.tracked

theorem onPeerState {up : Bool} {incarnation : Nat} (h : n.Indexed) :
    Moves n (n.onPeerState env peer up incarnation) := by
  unfold RaftNode.onPeerState
  split
  case h_1 => exact refl h
  case h_2 state hp =>
    simp only
    split
    case isTrue  =>
      split
      case isTrue hr  => exact sendAppend h hr ⟨Nat.succ_pos _, le_rfl⟩
      case isFalse hr => exact setPeer h fun hl => absurd hl hr
    case isFalse =>
      have hs : n.role = .leader → n.Tracks { state with up, catchingUp := false } := fun hr => h.tracked hr peer state hp
      have hm : Moves n (n.setPeer peer { state with up, catchingUp := false }) := setPeer h hs
      exact hm.trans (dropAssembly hm.indexed)

theorem hearLeader {leader : Nat} (h : n.Indexed) : Moves n (n.hearLeader env leader) :=
  same h rfl fun hl => by cases hl

theorem commitThrough {m : AppendEntries} (h : n.Indexed) (hr : n.role ≠ .leader)
    (hl : m.prevLogIndex + m.entries.length ≤ n.log.lastIndex) : Moves n (n.commitThrough m) := by
  unfold RaftNode.commitThrough
  simp only
  split
  case isFalse => exact refl h
  case isTrue hc =>
    have ⟨hs, ha⟩ := h.sound.grow (.refl h.wf) (Nat.le_of_lt hc) ((Nat.min_le_right _ _).trans hl)
    exact ⟨⟨hs, fun hl => absurd hl hr⟩, ha⟩

end Moves
end RaftNode

section

variable [Python]

namespace RaftNode

-- The entries keep their terms and their numbers when they are decoded.
theorem decodeEntries_ok {wires : List WireEntry} {entries : List (LogEntry RegistryOperation)}
    (h : decodeEntries wires = .ok entries) :
    List.Forall₂ (fun w e => e.term = w.term ∧ e.index = w.index ∧ e.payload = w.payload) wires entries := by
  induction wires generalizing entries with
  | nil => cases h; exact .nil
  | cons w wires ih =>
    rw [decodeEntries, List.mapM_cons] at h
    simp only [bind, Except.bind, pure, Except.pure] at h
    split at h
    case h_1 => cases h
    case h_2 e he =>
      split at h
      case h_1 => cases h
      case h_2 entries' hes =>
        cases h
        refine .cons ?_ (ih hes)
        split at he
        case h_1 => cases he
        case h_2 => cases he; exact ⟨rfl, rfl, rfl⟩

end RaftNode

-- The entries of a message are numbered from the one they follow.
def AppendEntries.Consecutive (m : AppendEntries) : Prop :=
  ∀ i w, m.entries[i]? = some w → w.index = m.prevLogIndex + 1 + i

theorem AppendEntries.Consecutive.follow {m : AppendEntries} {entries : List (LogEntry RegistryOperation)}
    (h : m.Consecutive) (he : RaftNode.decodeEntries m.entries = .ok entries) :
    RaftLog.Follow m.prevLogIndex entries ∧ entries.length = m.entries.length := by
  have hf := RaftNode.decodeEntries_ok he
  refine ⟨fun i e hi => ?_, hf.length_eq.symm⟩
  obtain ⟨hlt, rfl⟩ := List.getElem?_eq_some_iff.mp hi
  have hw := (List.forall₂_iff_get.mp hf).2 i (hf.length_eq ▸ hlt) hlt
  have := h i _ (List.getElem?_eq_getElem (hf.length_eq ▸ hlt))
  simp only [List.get_eq_getElem] at hw
  rw [hw.2.1, this]

namespace RaftNode

variable {env : Env} {n n' n₁ n₂ : RaftNode} {peer : Nat} {state : PeerState}

namespace Moves

theorem extendLog {m : AppendEntries} (h : n.Indexed) (hr : n.role ≠ .leader) (hm : m.Consecutive)
    (hc : n.commitIndex ≤ m.prevLogIndex) (hh : n.log.holds m.prevLogIndex m.prevLogTerm = true) :
    Moves n (n.extendLog env m).2 := by
  unfold RaftNode.extendLog
  split
  case h_1 => exact refl h
  case h_2 entries he =>
    have ⟨hs, hl⟩ := RaftLog.holds_bounds h.wf hh
    have ⟨hf, hlen⟩ := hm.follow he
    obtain ⟨log', k, hrun, sp⟩ := RaftLog.run_appendReplicated h.wf hs hc hl hf
    have ⟨hwf, hsnap, hlast, hbelow⟩ := sp.wf h.wf hs hl hf
    rw [hrun]
    have hlast' : n.commitIndex ≤ log'.lastIndex := by omega
    have hs' : Replica.Sound { n.replica with log := log' } := {
      wf         := hwf
      applied    := hsnap ▸ h.sound.applied
      committed  := h.sound.committed
      held       := hlast'
      covered    := hsnap ▸ h.sound.covered
      compacting := fun _ _ _ ha hp => hsnap ▸ h.sound.compacting _ _ _ ha hp }
    have hg : Moves n { n with log := log' } := {
      indexed  := ⟨hs', fun hl => absurd hl hr⟩
      advances := ⟨le_rfl, le_rfl, Nat.le_of_eq hsnap.symm, fun i e hi he => .inl <| hbelow i (hi.trans hc) ▸ he⟩ }
    exact hg.trans (commitThrough hg.indexed hr (by rw [← hlen]; exact hlast))

theorem answerAppend {m : AppendEntries} (h : n.Indexed) (hr : n.role ≠ .leader) (hm : m.Consecutive) :
    Moves n (n.answerAppend env m).2 := by
  unfold RaftNode.answerAppend
  split
  case h_1 => exact fail h
  case h_2 =>
    split
    case isTrue  => exact refl h
    case isFalse hc =>
      split
      case isTrue     => exact refl h
      case isFalse hh => exact extendLog h hr hm (Nat.le_of_not_lt hc) (by simpa using hh)

theorem onAppendEntries {m : AppendEntries} (h : n.Indexed) (hm : m.Consecutive) :
    Moves n ((onAppendEntries env m).leaves n) := by
  unfold RaftNode.onAppendEntries Handler.leaves Handler.run
  simp only
  split
  case isTrue  => exact refl h
  case isFalse =>
    have ha : Moves n ((RaftNode.adoptTerm env m.term).leaves n) := adoptTerm h
    have hl : Moves _ (((RaftNode.adoptTerm env m.term).leaves n).hearLeader env m.leader) := hearLeader ha.indexed
    exact seq ha fun _ => hl.trans (answerAppend hl.indexed (fun hl => by cases hl) hm)

theorem onPropose {m : Propose} (h : n.Indexed) : Moves n ((onPropose env m).leaves n) := by
  unfold RaftNode.onPropose Handler.leaves Handler.run
  simp only
  split
  case isTrue     => exact refl h
  case isFalse hr =>
    split
    case h_1 => exact refl h
    case h_2 => exact refl h
    case h_3 =>
      split
      case h_1     => exact refl h
      case h_2 e   => exact proposed h (by simpa using hr) e

end Moves

end RaftNode

end
end Raft
