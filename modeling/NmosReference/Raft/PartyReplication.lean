import NmosReference.Raft.PartyHandlers

open Protobuf Registry

namespace Raft
namespace RaftNode

variable {env : Env} {e : NodeEvent} {n n' n₁ n₂ : RaftNode} {peer : Nat} {state : PeerState}

-- The index that the leader counts a quorum at is held by one.
theorem quorumIndex_held {candidate : Nat} (h : n.quorumIndex = some candidate) :
    n.layout.quorum ≤ 1 + (n.party.matched.values.filter (candidate ≤ ·)).length := by
  have hv : n.party.matched.values = n.peers.values.map (·.matchIndex) := by
    simp [party, Dict.map, Dict.values]
  unfold quorumIndex at h
  simp only at h
  split at h
  case isTrue hn  => omega
  case isFalse hn =>
    have hc := Quorum.le_countP_of_descending h
    have hle : ((n.peers.values.filter (!·.catchingUp)).map (·.matchIndex)).countP (candidate ≤ ·) ≤
        n.party.matched.values.countP (candidate ≤ ·) := by
      rw [hv]
      exact (List.filter_sublist.map _).countP_le
    rw [List.countP_eq_length_filter] at hle
    rw [List.countP_eq_length_filter] at hle hc
    omega

namespace Acts

theorem advanceCommit (h : n.Indexed) (hr : n.role = .leader) : Acts e n (n.advanceCommit env) := by
  unfold RaftNode.advanceCommit
  split
  case h_1 => exact refl
  case h_2 candidate hq =>
    split
    case isTrue     => exact refl
    case isFalse hc =>
      simp only [not_or, Nat.not_le, Decidable.not_not] at hc
      have hm : Acts e n (RaftNode.scheduleApply { n with commitIndex := candidate }) :=
        of_quiet (.commit candidate hr hc.1 hc.2 (quorumIndex_held hq)) rfl
      have ht : (RaftNode.scheduleApply { n with commitIndex := candidate }).Tracked := h.tracked hr
      exact hm.trans (replicate h.wf hr ht)

-- Something new is noted of a peer, that it answered.
theorem hear (hk : n.Known peer state) {heard : PeerState}
    (h : heard.matchIndex = state.matchIndex ∨ n.party.Heard e peer heard.matchIndex) : Acts e n (n.setPeer peer heard) := by
  have hkeys := mem_matched hk
  rcases h with h | h
  case inl =>
    obtain ⟨held, hh, hle⟩ := hk
    exact setPeer ⟨held, hh, h ▸ hle⟩
  case inr => exact of_quiet (.hear peer heard.matchIndex hkeys (.inr h)) party_setPeer

theorem sendAppend_setPeer (h : n.Indexed) (hr : n.role = .leader) (hs : n.Tracks state) (hk : n.Known peer state) :
    Acts e n ((n.setPeer peer state).sendAppend env peer state) := by
  have hp : Sends n (n.setPeer peer state) := .setPeer hs (h.tracked hr)
  exact (setPeer hk).trans (sendAppend (hp.log ▸ h.wf) hr hs known_setPeer)

theorem onRejected {m : AppendEntriesReply} (h : n.Indexed) (hr : n.role = .leader) (hs : n.Tracks state)
    (hk : n.Known peer state) (hm : state.matchIndex < m.conflictIndex) :
    Acts e n ((n.setPeer peer state).onRejected env peer state m) := by
  have hp : RaftNode.Moves n (n.setPeer peer state) := .setPeer h fun _ => hs
  unfold RaftNode.onRejected
  simp only
  split
  case isTrue     => exact setPeer hk
  case isFalse hn =>
    have ⟨_, hle⟩ := hs
    refine (setPeer hk).trans (sendAppend_setPeer hp.indexed hr ⟨?_, ?_⟩ ⟨state, Dict.get?_set_self, le_rfl⟩)
    · simp only
      omega
    · simp only [RaftNode.setPeer]
      omega

theorem promote {m : AppendEntriesReply} {held : PeerState} (he : e = .appendEntriesReply peer m) (hs : m.success = true)
    (ht : m.term = n.term) (hr : n.role = .leader) (hp : n.peers.get? peer = some held)
    (hm : state.matchIndex = max held.matchIndex (min m.matchIndex n.log.lastIndex)) : Acts e n (n.promote peer state) := by
  have hk : n.Known peer held := ⟨held, hp, le_rfl⟩
  have hh : state.matchIndex = held.matchIndex ∨ n.party.Heard e peer state.matchIndex := by
    rcases Nat.le_total (min m.matchIndex n.log.lastIndex) held.matchIndex with hle | hle
    case inl => exact .inl (by omega)
    case inr => exact .inr (.inl ⟨m, he, hs, ht, hr, by rw [hm]; exact max_eq_right hle⟩)
  unfold RaftNode.promote
  split
  case isTrue  =>
    have hc : Acts e n (n.setPeer peer { state with catchingUp := false }) := hear hk hh
    exact hc.trans (send rfl)
  case isFalse => exact hear hk hh

theorem onProgress (h : n.Indexed) (hr : n.role = .leader) : Acts e n (n.onProgress env peer) := by
  have ha : RaftNode.Moves n (n.advanceCommit env) := .advanceCommit h hr
  have hl : (n.advanceCommit env).role = .leader := RaftNode.Moves.role_advanceCommit h hr
  unfold RaftNode.onProgress
  simp only
  split
  case h_1 state hp =>
    split
    case isTrue  =>
      have hs := ha.indexed.tracked hl peer state hp
      exact (advanceCommit h hr).trans (sendAppend ha.indexed.wf hl hs ⟨state, hp, le_rfl⟩)
    case isFalse => exact advanceCommit h hr
  case h_2 => exact advanceCommit h hr

theorem onLeaderReply {m : AppendEntriesReply} (h : n.Indexed) (he : e = .appendEntriesReply peer m)
    (hr : n.role = .leader) (ht : m.term = n.term) : Acts e n (n.onLeaderReply env peer m) := by
  unfold RaftNode.onLeaderReply
  split
  case h_1 => exact refl
  case h_2 state hp =>
    have hs : n.Tracks (n.heardFrom env state m) := h.tracked hr peer state hp
    have hk : n.Known peer (n.heardFrom env state m) := ⟨state, hp, le_rfl⟩
    simp only
    split
    case isTrue  => exact refl
    case isFalse =>
      split
      case isTrue     => exact setPeer hk
      case isFalse hn =>
        split
        case isTrue hf  => exact onRejected h hr hs hk (Nat.lt_of_not_le fun hle => hn ⟨hf, hle⟩)
        case isFalse hf =>
          have hm : Acts e n (n.promote peer (n.credit (n.heardFrom env state m) m)) :=
            promote he (by simpa using hf) ht hr hp rfl
          have hi : RaftNode.Moves n (n.promote peer (n.credit (n.heardFrom env state m) m)) :=
            .promote h (RaftNode.Moves.tracks_credit hs)
          split
          case isTrue  => exact hm
          case isFalse => exact hm.trans (onProgress hi.indexed (RaftNode.Moves.role_promote.trans hr))

theorem onAppendEntriesReply {m : AppendEntriesReply} (h : n.Indexed) (he : e = .appendEntriesReply peer m) :
    Acts e n ((onAppendEntriesReply env peer m).leaves n) := by
  unfold RaftNode.onAppendEntriesReply Handler.leaves Handler.run
  simp only
  split
  case isTrue ht => exact stepDown ht
  case isFalse   =>
    split
    case isTrue     => exact refl
    case isFalse hr =>
      simp only [not_or, Decidable.not_not] at hr
      exact onLeaderReply h he hr.1 hr.2

theorem onPromote {m : Promote} : Acts e n (n.onPromote m) := by
  unfold RaftNode.onPromote
  split
  case isTrue  => exact refl
  case isFalse => exact of_quiet .promoted rfl

theorem proposed {operations : List RegistryOperation} (h : n.Indexed) (hr : n.role = .leader)
    (ho : n.appendLocal operations = .ok n') :
    Acts e n (if (n'.replicate env).peers.items = [] then (n'.replicate env).advanceCommit env else n'.replicate env) := by
  have ha : RaftNode.Moves n n' := .appendLocal h ho
  have hr' : n'.role = .leader := by
    obtain ⟨values, rfl⟩ := appendLocal_ok ho
    exact hr
  have hs : Sends n' (n'.replicate env) := .replicate ha.indexed.wf (ha.indexed.tracked hr')
  have hm : Acts e n (n'.replicate env) :=
    (appendLocal hr ho).trans (replicate ha.indexed.wf hr' (ha.indexed.tracked hr'))
  split
  case isTrue  => exact hm.trans (advanceCommit (RaftNode.Moves.sends ha.indexed hs).indexed (hs.role.trans hr'))
  case isFalse => exact hm

theorem drain {operations : List (ProposalId → RegistryOperation)} (h : n.Indexed) :
    Acts e n ((drain env operations).leaves n) := by
  unfold RaftNode.drain Handler.leaves Handler.run
  simp only
  split
  case isTrue     => exact refl
  case isFalse hr =>
    have hn : RaftNode.Moves n { n with sequence := n.sequence +
        (operations.mapIdx fun i op => op ⟨n.layout.self, n.sequence + 1 + i⟩).length } := .same h rfl h.tracked
    refine after (lift fun n' hok => ?_) rfl
    simp only [bind, Except.bind, pure, Except.pure] at hok
    split at hok
    case h_1 => cases hok
    case h_2 n₁ e₁ =>
      cases hok
      exact proposed hn.indexed (by simpa using hr) e₁

theorem onPeerState {up : Bool} {incarnation : Nat} (h : n.Indexed) : Acts e n (n.onPeerState env peer up incarnation) := by
  unfold RaftNode.onPeerState
  split
  case h_1 => exact refl
  case h_2 state hp =>
    simp only
    split
    case isTrue  =>
      split
      case isTrue hr => exact sendAppend_setPeer h hr ⟨Nat.succ_pos _, le_rfl⟩ ⟨state, hp, Nat.zero_le _⟩
      case isFalse   => exact setPeer ⟨state, hp, le_rfl⟩
    case isFalse =>
      have hs : Acts e n (n.setPeer peer { state with up, catchingUp := false }) := setPeer ⟨state, hp, le_rfl⟩
      exact hs.trans (same rfl)

theorem read (h : n.Indexed) : Acts e n (if n.role = .leader then n.replicate env else n) := by
  split
  case isTrue hr => exact replicate h.wf hr (h.tracked hr)
  case isFalse   => exact refl

-- Sending a snapshot

theorem onChunkAnswered {m : InstallSnapshotReply} (h : n.Indexed) (hr : n.role = .leader) (hs : n.Tracks state)
    (hk : n.Known peer state) : Acts e n (n.onChunkAnswered env peer state m) := by
  have ⟨hlt, hle⟩ := hs
  have resumes (state' : PeerState) (hk : n.Known peer state') :
      Acts e n ((n.setPeer peer state').sendSnapshot env peer state') :=
    (setPeer hk).trans (sendSnapshot hr known_setPeer)
  unfold RaftNode.onChunkAnswered
  simp only
  repeat' split
  all_goals first
    | exact sendAppend_setPeer h hr ⟨Nat.lt_succ_self _, Nat.succ_le_succ (by omega)⟩ hk
    | exact setPeer hk
    | exact resumes _ hk

theorem onInstallSnapshotReply {m : InstallSnapshotReply} (h : n.Indexed) (he : e = .installSnapshotReply peer m) :
    Acts e n ((onInstallSnapshotReply env peer m).leaves n) := by
  unfold RaftNode.onInstallSnapshotReply Handler.leaves Handler.run
  simp only
  split
  case isTrue ht => exact stepDown ht
  case isFalse   =>
    split
    case isTrue     => exact refl
    case isFalse hr =>
      simp only [not_or, Decidable.not_not] at hr
      split
      case h_1          => exact refl
      case h_2 state hp =>
        have hs : n.Tracks (n.creditCommit env state m) := .creditCommit (h.tracked hr.1 peer state hp)
        have hh : (n.creditCommit env state m).matchIndex = state.matchIndex ∨
            n.party.Heard e peer (n.creditCommit env state m).matchIndex := by
          unfold creditCommit
          simp only
          split
          case isTrue  => exact .inr (.inr ⟨m, he, hr.2, hr.1, rfl⟩)
          case isFalse => exact .inl rfl
        split
        case isTrue  => exact refl
        case isFalse =>
          have hm : RaftNode.Moves n (n.setPeer peer (n.creditCommit env state m)) := .setPeer h fun _ => hs
          have ha : Acts e n (n.setPeer peer (n.creditCommit env state m)) := hear ⟨state, hp, le_rfl⟩ hh
          simp only
          split
          case isTrue  => exact ha.trans (onChunkAnswered hm.indexed hr.1 hs known_setPeer)
          case isFalse => exact ha

-- Compacting

theorem maybeCompact : Acts e n n.maybeCompact := by
  unfold RaftNode.maybeCompact
  simp only
  repeat' split
  all_goals exact same rfl

theorem finishCompaction {payload : Option Bytes} (h : n.Indexed) : Acts e n (n.finishCompaction env payload) := by
  unfold RaftNode.finishCompaction
  split
  case h_2 => exact refl
  case h_1 index term discardTo ha =>
    simp only
    split
    case isTrue     => exact same rfl
    case isFalse hc =>
      have ⟨_, hl, hd⟩ := h.sound.compacting index term discardTo ha (by simpa [Option.isSome_iff_ne_none, replica] using hc)
      split
      case h_1 => exact same rfl
      case h_2 =>
        split
        case isTrue     => exact same rfl
        case isFalse hs =>
          split
          case h_1 => exact same rfl
          case h_2 discardTerm ht =>
            split
            case h_1          => exact after fail rfl
            case h_2 log hlog =>
              have hle : discardTo ≤ n.commitIndex := hd.trans (hl.trans h.sound.committed)
              exact of_quiet (.compact discardTo discardTerm log (Nat.lt_of_not_le hs) hle ht hlog) rfl

end Acts

section

variable [Python]

namespace Acts

theorem onPropose {m : Propose} (h : n.Indexed) : Acts e n ((onPropose env m).leaves n) := by
  unfold RaftNode.onPropose Handler.leaves Handler.run
  simp only
  split
  case isTrue     => exact refl
  case isFalse hr =>
    split
    case h_1 => exact refl
    case h_2 => exact refl
    case h_3 =>
      split
      case h_1    => exact refl
      case h_2 ho => exact proposed h (by simpa using hr) ho

theorem applyTurn : Acts e n (n.applyTurn env) := by
  unfold RaftNode.applyTurn
  simp only
  split
  case isFalse => exact maybeCompact
  case isTrue  =>
    repeat' split
    all_goals first
      | exact same rfl
      | exact trans fail (same rfl)

theorem applyPass : Acts e n (n.applyPass env) := by
  unfold RaftNode.applyPass
  split
  case h_1 => exact applyTurn
  case h_2 => exact refl
  case h_3 =>
    split
    case isTrue  => exact refl
    case isFalse =>
      simp only
      split
      case h_1 => exact after fail rfl
      case h_2 => exact after applyTurn rfl

-- Following a leader

omit [Python] in
theorem party_commitThrough {m : AppendEntries} : (n.commitThrough m).party =
    { n.party with commitIndex := max n.commitIndex (min m.leaderCommit (m.prevLogIndex + m.entries.length)) } := by
  unfold commitThrough
  simp only
  split
  case isTrue h  =>
    have hm : max n.commitIndex (min m.leaderCommit (m.prevLogIndex + m.entries.length)) =
        min m.leaderCommit (m.prevLogIndex + m.entries.length) := max_eq_right (Nat.le_of_lt h)
    rw [hm]
    rfl
  case isFalse h =>
    have hm : max n.commitIndex (min m.leaderCommit (m.prevLogIndex + m.entries.length)) = n.commitIndex :=
      max_eq_left (Nat.le_of_not_lt h)
    rw [hm]
    rfl

theorem extendLog {m : AppendEntries} (h : n.Indexed) (he : e = .appendEntries m) (ht : m.term = n.term)
    (hr : n.role = .follower) (hm : m.Consecutive) (hc : n.commitIndex ≤ m.prevLogIndex)
    (hh : n.log.holds m.prevLogIndex m.prevLogTerm = true) : Acts e n (n.extendLog env m).2 := by
  unfold RaftNode.extendLog
  split
  case h_1 => exact refl
  case h_2 entries hd =>
    have ⟨hs, hl⟩ := RaftLog.holds_bounds h.wf hh
    have ⟨hf, _⟩ := hm.follow hd
    obtain ⟨log', k, hrun, sp⟩ := RaftLog.run_appendReplicated h.wf hs hc hl hf
    rw [hrun]
    exact of_quiet (.follow m log' he ⟨ht, hr, hc, hh, entries, k, hf, sp, decodeEntries_ok hd⟩) party_commitThrough

theorem answerAppend {m : AppendEntries} (h : n.Indexed) (he : e = .appendEntries m) (ht : m.term = n.term)
    (hr : n.role = .follower) (hm : m.Consecutive) : Acts e n (n.answerAppend env m).2 := by
  unfold RaftNode.answerAppend
  split
  case h_1 => exact fail
  case h_2 =>
    split
    case isTrue  => exact refl
    case isFalse hc =>
      split
      case isTrue     => exact refl
      case isFalse hh => exact extendLog h he ht hr hm (Nat.le_of_not_lt hc) (by simpa using hh)

omit [Python] in
-- Once the term is adopted, it is that of the message.
theorem term_adoptTerm {term : Nat} (h : ¬term < n.term) : ((RaftNode.adoptTerm env term).leaves n).term = term := by
  unfold RaftNode.adoptTerm Handler.leaves Handler.run
  simp only
  split
  case isTrue     => rfl
  case isFalse hn => exact Nat.le_antisymm (Nat.le_of_not_lt h) (Nat.le_of_not_lt hn)

theorem onAppendEntries {m : AppendEntries} (h : n.Indexed) (he : e = .appendEntries m) (hm : m.Consecutive) :
    Acts e n ((onAppendEntries env m).leaves n) := by
  unfold RaftNode.onAppendEntries Handler.leaves Handler.run
  simp only
  split
  case isTrue      => exact refl
  case isFalse hlt =>
    have ha : RaftNode.Moves n ((RaftNode.adoptTerm env m.term).leaves n) := .adoptTerm h
    have hl : RaftNode.Moves _ (((RaftNode.adoptTerm env m.term).leaves n).hearLeader env m.leader) := .hearLeader ha.indexed
    have hr : Acts e ((RaftNode.adoptTerm env m.term).leaves n) (((RaftNode.adoptTerm env m.term).leaves n).hearLeader env m.leader) :=
      rest .follower nofun nofun rfl
    have ht : (((RaftNode.adoptTerm env m.term).leaves n).hearLeader env m.leader).term = m.term := term_adoptTerm hlt
    exact seq adoptTerm fun _ => hr.trans (answerAppend hl.indexed he ht.symm rfl hm)

-- Receiving a snapshot

theorem installAssembled {buffer : Bytes} {m : InstallSnapshot} (he : e = .installSnapshot peer m) (ht : m.term = n.term)
    (hr : n.role = .follower) (hd : m.done = true) (hc : n.commitIndex < m.lastIndex) :
    Acts e n (n.installAssembled env peer buffer m).2 := by
  unfold RaftNode.installAssembled
  split
  case h_1 => exact same rfl
  case h_2 current machine _ =>
    split
    case isTrue     => exact same rfl
    case isFalse hi =>
      simp only [isImpossible, Bool.or_eq_true, decide_eq_true_eq, not_or, ne_eq, Decidable.not_not, Prod.mk.injEq] at hi
      obtain ⟨hl, hlt⟩ := hi.1
      have hmax : max n.commitIndex m.lastIndex = m.lastIndex := max_eq_right (Nat.le_of_lt hc)
      refine of_quiet (.install peer m he ht hr hd hc) ?_
      unfold RaftNode.party
      simp only [dropAssembly, hl, hlt, hmax]

theorem receiveChunk {m : InstallSnapshot} (he : e = .installSnapshot peer m) (ht : m.term = n.term)
    (hr : n.role = .follower) : Acts e n (n.receiveChunk env peer m).2 := by
  unfold RaftNode.receiveChunk
  split
  case h_1 => exact after fail rfl
  case h_2 =>
    split
    case isTrue     => exact same rfl
    case isFalse hc =>
      split
      case h_1 => exact refl
      case h_2 => exact same rfl
      case h_3 a _ =>
        simp only
        split
        case isTrue hd =>
          have hi : Acts e (n.storing peer a) ((n.storing peer a).installAssembled env peer a.data m).2 :=
            installAssembled he ht hr hd (Nat.lt_of_not_le hc)
          exact after hi rfl
        case isFalse => exact same rfl

theorem onInstallSnapshot {m : InstallSnapshot} (he : e = .installSnapshot peer m) :
    Acts e n ((onInstallSnapshot env peer m).leaves n) := by
  unfold RaftNode.onInstallSnapshot Handler.leaves Handler.run
  simp only
  split
  case isTrue      => exact refl
  case isFalse hlt =>
    have hr : Acts e ((RaftNode.adoptTerm env m.term).leaves n) (((RaftNode.adoptTerm env m.term).leaves n).followLeader env m.leader) :=
      rest .follower nofun nofun rfl
    have ht : (((RaftNode.adoptTerm env m.term).leaves n).followLeader env m.leader).term = m.term := term_adoptTerm hlt
    exact seq adoptTerm fun _ => hr.trans (receiveChunk he ht.symm rfl)

end Acts

-- Every event is a succession of moves, unless it is a campaign that could not save its term.
theorem step_acts (env : Env) (h : n.Indexed) (hm : ∀ m, e = .appendEntries m → m.Consecutive) :
    Acts e n (n.step env e) ∨ Thwarted env n (n.step env e) := by
  have concludes {r : Except NodeFault Unit × RaftNode} (h : Concludes env e n r) :
      Acts e n (settle env r) ∨ Thwarted env n (settle env r) := by
    rcases h with ha | ⟨he, ht⟩
    case inl => exact .inl ha.settle
    case inr =>
      obtain ⟨_, n'⟩ := r
      cases he
      exact .inr ht
  cases e
  case tick                           => exact concludes (.tick h)
  case requestVote m                  => exact .inl (.settle (.onRequestVote rfl))
  case requestVoteReply peer m        => exact concludes (.onRequestVoteReply h rfl)
  case appendEntries m                => exact .inl (.settle (.onAppendEntries h rfl (hm m rfl)))
  case appendEntriesReply peer m      => exact .inl (.settle (.onAppendEntriesReply h rfl))
  case installSnapshot peer m         => exact .inl (.settle (.onInstallSnapshot rfl))
  case installSnapshotReply peer m    => exact .inl (.settle (.onInstallSnapshotReply h rfl))
  case promote m                      => exact .inl .onPromote
  case drain operations               => exact .inl (.settle (.drain h))
  case propose m                      => exact .inl (.settle (.onPropose h))
  case read                           => exact .inl (.read h)
  case peerState peer up incarnation  => exact .inl (.onPeerState h)
  case applyPass                      => exact .inl .applyPass
  case compacted payload              => exact .inl (.finishCompaction h)
  case unexpected                     => exact .inl .fail

end
end RaftNode
end Raft
