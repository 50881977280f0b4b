import NmosReference.Raft.NodeIndexes

open Protobuf Registry

namespace Raft

namespace RaftNode

def storing (n : RaftNode) (peer : Nat) (a : Assembly) : RaftNode :=
  { n with installing := n.installing.set peer a }

theorem Indexed.storing {n : RaftNode} {peer : Nat} {a : Assembly} (h : n.Indexed) : (n.storing peer a).Indexed :=
  ⟨⟨h.sound.wf, h.sound.applied, h.sound.committed, h.sound.held, h.sound.covered, h.sound.compacting⟩, h.tracked⟩

theorem advances_storing {n : RaftNode} {peer : Nat} {a : Assembly} :
    Replica.Advances n.replica (n.storing peer a).replica :=
  ⟨le_rfl, le_rfl, le_rfl, fun _ _ _ h => .inl h⟩

variable {env : Env} {n n' n₁ n₂ : RaftNode} {peer : Nat} {state : PeerState}

theorem Tracks.creditCommit {m : InstallSnapshotReply} (hs : n.Tracks state) :
    n.Tracks (n.creditCommit env state m) := by
  have ⟨hlt, hle⟩ := hs
  unfold RaftNode.creditCommit
  simp only
  split
  case isFalse => exact hs
  case isTrue  =>
    constructor
    · simp only
      omega
    · simp only
      omega

theorem discardTo_le : n.discardTo ≤ n.lastApplied := by
  unfold RaftNode.discardTo
  simp only
  split
  case isTrue =>
    split
    case h_1 => exact le_rfl
    case h_2 => exact Nat.min_le_left _ _
  case isFalse => exact le_rfl

namespace Moves

theorem followLeader {leader : Nat} (h : n.Indexed) : Moves n (n.followLeader env leader) :=
  same h rfl fun hl => by cases hl

-- Only the machine moved, and no further than what is committed.
theorem machine {machine : StateMachine} {applier : Applier} (h : n.Indexed)
    (hl : n.machine.lastApplied ≤ machine.lastApplied) (hc : machine.lastApplied ≤ n.commitIndex)
    (hp : ∀ index term discardTo, applier = .compacting index term discardTo → machine.capture.isSome →
      n.log.snapshotIndex ≤ index ∧ index ≤ machine.lastApplied ∧ discardTo ≤ index) :
    Moves n { n with machine, applier } where
  indexed  := ⟨⟨h.wf, h.sound.applied.trans hl, hc, h.sound.held, h.sound.covered, hp⟩, h.tracked⟩
  advances := ⟨le_rfl, hl, le_rfl, fun _ _ _ he => .inl he⟩

theorem waiting (h : n.Indexed) : Moves n { n with applier := .waiting } :=
  machine h le_rfl h.sound.committed fun _ _ _ ha => by cases ha

theorem maybeCompact (h : n.Indexed) : Moves n n.maybeCompact := by
  unfold RaftNode.maybeCompact
  simp only
  split
  case isTrue  => exact waiting h
  case isFalse =>
    split
    case h_1 => exact waiting h
    case h_2 =>
      split
      case h_1           => exact waiting h
      case h_2 machine e =>
        unfold StateMachine.beginCapture at e
        split at e
        case h_1 => cases e
        case h_2 =>
          cases e
          refine Moves.machine h le_rfl h.sound.committed fun index term discardTo ha _ => ?_
          cases ha
          exact ⟨h.sound.applied, le_rfl, discardTo_le⟩

-- A snapshot that was serialised covers everything through `index`.
theorem covered {index term : Nat} {snapshot : Bytes} (h : n.Indexed) (hw : n.applier = .waiting)
    (hi : n.log.snapshotIndex ≤ index) :
    Moves n { n with snapshot, snapshotMeta := some ⟨index, term, 0⟩ } where
  indexed  := ⟨⟨h.wf, h.sound.applied, h.sound.committed, h.sound.held, .inr ⟨_, rfl, hi⟩,
    fun _ _ _ ha => by rw [show n.applier = _ from ha] at hw; cases hw⟩, h.tracked⟩
  advances := ⟨le_rfl, le_rfl, le_rfl, fun _ _ _ he => .inl he⟩

-- The log is compacted through an entry that is applied, and that the snapshot covers.
theorem discard {through term : Nat} {log : RaftLog RegistryOperation} {m : SnapshotMeta} (h : n.Indexed)
    (hw : n.applier = .waiting) (hs : n.log.snapshotIndex < through) (hl : through ≤ n.lastApplied)
    (hm : n.snapshotMeta = some m) (hc : through ≤ m.lastIndex) (hd : n.log.discardThrough through term = .ok log) :
    Moves n { n with log } := by
  have hle : through ≤ n.log.lastIndex := hl.trans (h.sound.committed.trans h.sound.held)
  have ⟨hwf, hsnap, hlast, habove⟩ := RaftLog.discarded h.wf hs hle hd
  exact {
    indexed  := {
      sound := {
        wf         := hwf
        applied    := hsnap ▸ hl
        committed  := h.sound.committed
        held       := hlast ▸ h.sound.held
        covered    := .inr ⟨m, hm, hsnap ▸ hc⟩
        compacting := fun _ _ _ ha => by rw [show n.applier = _ from ha] at hw; cases hw }
      tracked := fun hr p state hp => by
        have ⟨hlt, hle⟩ := h.tracked hr p state hp
        exact ⟨hlt, hlast ▸ hle⟩ }
    advances := {
      commitIndex   := le_rfl
      lastApplied   := le_rfl
      snapshotIndex := hsnap ▸ Nat.le_of_lt hs
      kept          := fun i e _ he => by
        rcases Nat.lt_or_ge through i with hi | hi
        case inl => exact .inl <| (habove i hi).trans he
        case inr => exact .inr <| hsnap ▸ hi } }

theorem finishCompaction {payload : Option Bytes} (h : n.Indexed) : Moves n (n.finishCompaction env payload) := by
  unfold RaftNode.finishCompaction
  split
  case h_2 => exact refl h
  case h_1 index term discardTo ha =>
    simp only
    split
    case isTrue     => exact waiting h
    case isFalse hc =>
      have ⟨hi, hl, hd⟩ := h.sound.compacting index term discardTo ha (by simpa [Option.isSome_iff_ne_none, replica] using hc)
      have hm : Moves n { n with machine := { n.machine with capture := none }, applier := .waiting } :=
        machine h le_rfl h.sound.committed fun _ _ _ ha => by cases ha
      split
      case h_1 => exact hm
      case h_2 payload =>
        have hp : Moves n { n with
            machine := { n.machine with capture := none }, applier := .waiting, snapshot := payload
            snapshotMeta := some ⟨index, term, 0⟩ } := hm.trans (covered hm.indexed rfl hi)
        split
        case isTrue     => exact hp
        case isFalse hs =>
          split
          case h_1 => exact hp
          case h_2 =>
            split
            case h_1          => exact hp.trans (fail hp.indexed)
            case h_2 log hlog => exact hp.trans (discard hp.indexed rfl (Nat.lt_of_not_le hs) (hd.trans hl) rfl hd hlog)

theorem read (h : n.Indexed) : Moves n (if n.role = .leader then n.replicate env else n) := by
  split
  case isTrue hr => exact replicate h hr
  case isFalse   => exact refl h

end Moves

-- The member that sends one

theorem Moves.onChunkAnswered {m : InstallSnapshotReply} (h : n.Indexed) (hr : n.role = .leader)
    (hs : n.Tracks state) : Moves n (n.onChunkAnswered env peer state m) := by
  have ⟨hlt, hle⟩ := hs
  have resumes (state' : PeerState) (ht : n.Tracks state') :
      Moves n ((n.setPeer peer state').sendSnapshot env peer state') :=
    have hp : Sends n (n.setPeer peer state') := .setPeer ht (h.tracked hr)
    sends h <| hp.trans <| .sendSnapshot ht hp.tracked
  unfold RaftNode.onChunkAnswered
  simp only
  repeat' split
  all_goals first
    | exact sendAppend h hr ⟨Nat.lt_succ_self _, Nat.succ_le_succ (by omega)⟩
    | exact setPeer h fun _ => hs
    | exact resumes _ hs

theorem Moves.onInstallSnapshotReply {m : InstallSnapshotReply} (h : n.Indexed) :
    Moves n ((onInstallSnapshotReply env peer m).leaves n) := by
  unfold RaftNode.onInstallSnapshotReply Handler.leaves Handler.run
  simp only
  split
  case isTrue  => exact stepDown h
  case isFalse =>
    split
    case isTrue     => exact refl h
    case isFalse hr =>
      have hr : n.role = .leader := by
        simp only [not_or, Decidable.not_not] at hr
        exact hr.1
      split
      case h_1          => exact refl h
      case h_2 state hp =>
        have hs : n.Tracks (n.creditCommit env state m) := .creditCommit (h.tracked hr peer state hp)
        split
        case isTrue  => exact refl h
        case isFalse =>
          have hm : Moves n (n.setPeer peer (n.creditCommit env state m)) := setPeer h fun _ => hs
          simp only
          split
          case isTrue  => exact hm.trans (onChunkAnswered hm.indexed hr hs)
          case isFalse => exact hm

variable [Python]

-- What is left of a member after it installed a snapshot.
structure Installs (n n' : RaftNode) (peer : Nat) (buffer : Bytes) (m : InstallSnapshot) : Prop where
  indexed  : n'.Indexed
  advances : Replica.Advances n.replica n'.replica
  log      : n'.log = .resetToSnapshot m.lastIndex m.lastTerm
  snapshot : n'.snapshot = buffer
  sentAs   : ∃ current, n'.snapshotMeta = some current ∧ current.lastIndex = m.lastIndex ∧ current.lastTerm = m.lastTerm
  past     : n.commitIndex < m.lastIndex
  dropped  : n'.installing = n.installing.erase peer
  follower : n'.role ≠ .leader

theorem installAssembled_cases (env : Env) (peer : Nat) (buffer : Bytes) {m : InstallSnapshot} (h : n.Indexed) (hr : n.role ≠ .leader)
    (hc : n.commitIndex < m.lastIndex) :
    (n.installAssembled env peer buffer m = (n.chunkAnswer 0 false m, n.dropAssembly peer)) ∨
      (n.installAssembled env peer buffer m).1.done = true ∧
        Installs n (n.installAssembled env peer buffer m).2 peer buffer m := by
  unfold installAssembled
  split
  case h_1 => exact .inl rfl
  case h_2 current machine e =>
    split
    case isTrue     => exact .inl rfl
    case isFalse hi =>
      simp only [isImpossible, Bool.or_eq_true, decide_eq_true_eq, not_or, ne_eq, Decidable.not_not,
        Prod.mk.injEq] at hi
      have ⟨hl, ht⟩ := hi.1
      have hmach : machine.lastApplied = current.lastIndex ∧ machine.capture = none := by
        unfold restore at e
        split at e
        case h_1 => cases e
        case h_2 =>
          simp only at e
          split at e
          case h_1 => cases e
          case h_2 => cases e; exact ⟨rfl, rfl⟩
      have hle := h.sound.applied.trans (h.sound.committed.trans (Nat.le_of_lt hc))
      have hmax : max n.commitIndex current.lastIndex = current.lastIndex := by omega
      refine .inr ⟨rfl, ⟨⟨?sound, fun hl => absurd hl hr⟩, ?advances, ?_, rfl, ⟨current, rfl, hl, ht⟩, hc, rfl, hr⟩⟩
      case sound => exact {
        wf         := .resetToSnapshot
        applied    := Nat.le_of_eq hmach.1.symm
        committed  := hmach.1 ▸ Nat.le_max_right _ _
        held       := by
          have hlast : (RaftLog.resetToSnapshot current.lastIndex current.lastTerm : RaftLog RegistryOperation).lastIndex
              = current.lastIndex := RaftLog.WellFormed.resetToSnapshot.lastIndex
          exact Nat.le_of_eq (hmax.trans hlast.symm)
        covered    := .inr ⟨current, rfl, le_rfl⟩
        compacting := fun _ _ _ _ hp => by simp [replica, hmach.2] at hp }
      case advances => exact {
        commitIndex   := Nat.le_max_left _ _
        lastApplied   := by
          have := h.sound.committed
          simp only [replica, hmach.1] at this ⊢
          omega
        snapshotIndex := by
          simp only [replica, RaftLog.resetToSnapshot] at hle ⊢
          omega
        kept          := fun i _ hi _ => .inr <| by
          simp only [replica, RaftLog.resetToSnapshot] at hi ⊢
          omega }
      · exact congrArg₂ _ hl ht

-- A chunk is refused, or held already, or it is stored, or it completes a snapshot that is installed.
theorem receiveChunk_cases (env : Env) (peer : Nat) (m : InstallSnapshot) (h : n.Indexed) (hr : n.role ≠ .leader) :
    ((n.receiveChunk env peer m).1.done = false ∧ Moves n (n.receiveChunk env peer m).2 ∧
        (n.receiveChunk env peer m).2.log = n.log) ∨
      ∃ a, assemble (n.installing.get? peer) m = .extended a ∧ n.commitIndex < m.lastIndex ∧
        ((n.receiveChunk env peer m).1.done = false ∧ (n.receiveChunk env peer m).2 = n.storing peer a ∨
        m.done = true ∧ (n.receiveChunk env peer m).1.done = true ∧
          Installs (n.storing peer a) (n.receiveChunk env peer m).2 peer a.data m) := by
  unfold receiveChunk
  split
  case h_1 failure _ =>
    have hd : Moves n (n.dropAssembly peer) := .dropAssembly h
    exact .inl ⟨rfl, hd.trans (.fail hd.indexed), congrArg Replica.log replica_fail⟩
  case h_2 =>
    split
    case isTrue     => exact .inl ⟨rfl, .dropAssembly h, rfl⟩
    case isFalse hc =>
      have hc : n.commitIndex < m.lastIndex := Nat.lt_of_not_le hc
      split
      case h_1   => exact .inl ⟨rfl, .refl h, rfl⟩
      case h_2   => exact .inl ⟨rfl, .dropAssembly h, rfl⟩
      case h_3 a e =>
        simp only
        split
        case isFalse  => exact .inr ⟨a, e, hc, .inl ⟨rfl, rfl⟩⟩
        case isTrue hd =>
          rcases installAssembled_cases env peer a.data (h.storing : (n.storing peer a).Indexed) hr hc with e' | ⟨hd', hi⟩
          case inr => exact .inr ⟨a, e, hc, .inr ⟨hd, hd', hi⟩⟩
          case inl =>
            refine .inl ⟨congrArg (·.1.done) e', ?_, congrArg (·.2.log) e'⟩
            refine .forgot h (congrArg (·.2.replica) e') fun hl => ?_
            exact absurd ((congrArg (·.2.role) e').symm.trans hl) hr

omit [Python] in
theorem log_adoptTerm {term : Nat} : ((adoptTerm env term).leaves n).log = n.log := by
  unfold adoptTerm Handler.leaves Handler.run
  simp only
  split <;> rfl

theorem onInstallSnapshot_cases (env : Env) (peer : Nat) (m : InstallSnapshot) (h : n.Indexed) :
    ((∀ reply, ((onInstallSnapshot env peer m).run n).1 = .ok reply → reply.done = false) ∧
        Moves n ((onInstallSnapshot env peer m).leaves n) ∧ ((onInstallSnapshot env peer m).leaves n).log = n.log) ∨
      ∃ n₁ a reply, ((onInstallSnapshot env peer m).run n).1 = .ok reply ∧
        Moves n n₁ ∧ n₁.log = n.log ∧ assemble (n₁.installing.get? peer) m = .extended a ∧ n₁.commitIndex < m.lastIndex ∧
        (reply.done = false ∧ (onInstallSnapshot env peer m).leaves n = n₁.storing peer a ∨
          m.done = true ∧ reply.done = true ∧
            Installs (n₁.storing peer a) ((onInstallSnapshot env peer m).leaves n) peer a.data m) := by
  unfold Handler.leaves
  by_cases hlt : m.term < n.term
  case pos =>
    have e : (onInstallSnapshot env peer m).run n = (.ok (n.chunkAnswer 0 false m), n) := if_pos hlt
    rw [e]
    exact .inl ⟨fun reply hr => by cases hr; rfl, .refl h, rfl⟩
  case neg =>
    have e : (onInstallSnapshot env peer m).run n = (adoptTerm env m.term >>= fun _ =>
      modifyGet fun n => (n.followLeader env m.leader).receiveChunk env peer m).run n := if_neg hlt
    have ha : Moves n ((adoptTerm env m.term).leaves n) := .adoptTerm h
    have hlog : ((adoptTerm env m.term).leaves n).log = n.log := log_adoptTerm
    rw [e, Handler.run_bind]
    unfold Handler.leaves at ha hlog
    generalize (adoptTerm env m.term).run n = r at ha hlog
    rcases r with ⟨a | a, n₁⟩
    case error => exact .inl ⟨nofun, ha, hlog⟩
    case ok =>
      have hf : Moves n (n₁.followLeader env m.leader) := ha.trans (.followLeader ha.indexed)
      have hr : (n₁.followLeader env m.leader).role ≠ .leader := fun hl => by cases hl
      rcases receiveChunk_cases env peer m hf.indexed hr with ⟨hd, hm, hl⟩ | ⟨a, e, hc, hx⟩
      case inl => exact .inl ⟨fun reply hr => by cases hr; exact hd, hf.trans hm, hl.trans hlog⟩
      case inr => exact .inr ⟨_, a, _, rfl, hf, hlog, e, hc, hx⟩

-- The task that applies

namespace Moves

theorem applyTurn (h : n.Indexed) : Moves n (n.applyTurn env) := by
  unfold RaftNode.applyTurn
  split
  case isFalse   => exact maybeCompact h
  case isTrue hc =>
    simp only
    split
    case h_1           => exact waiting h
    case h_2 entries _ hs =>
      have hi : ∀ e ∈ entries.map (·.toEntry), e.index ≤ n.commitIndex := by
        intro e he
        obtain ⟨e', he', rfl⟩ := List.mem_map.mp he
        have := h.wf.slice_index hs he'
        omega
      have ⟨hl, hu⟩ := StateMachine.applyLog_lastApplied (m := n.machine) env.clock hi
      have := h.sound.committed
      exact machine h hl (hu.trans (by simp only [replica] at this; omega)) fun _ _ _ ha => by cases ha
    case h_3 => exact waiting h
    case h_4 => exact (fail h).trans (waiting (fail h).indexed)

theorem applyPass (h : n.Indexed) : Moves n (n.applyPass env) := by
  unfold RaftNode.applyPass
  split
  case h_1 => exact applyTurn h
  case h_2 => exact refl h
  case h_3 =>
    split
    case isTrue  => exact refl h
    case isFalse =>
      have hw : Moves n { n with applyWake := false } := same h rfl h.tracked
      simp only
      split
      case h_1 => exact hw.trans (fail hw.indexed)
      case h_2 => exact hw.trans (applyTurn hw.indexed)

end Moves

-- Everything but a chunk of a snapshot.
theorem Moves.step {e : NodeEvent} (h : n.Indexed) (hm : ∀ m, e = .appendEntries m → m.Consecutive)
    (hn : ∀ peer m, e ≠ .installSnapshot peer m) : Moves n (n.step env e) := by
  cases e
  case tick                           => exact settle (tick h)
  case requestVote m                  => exact settle (onRequestVote h)
  case requestVoteReply peer m        => exact settle (onRequestVoteReply h)
  case appendEntries m                => exact settle (onAppendEntries h (hm m rfl))
  case appendEntriesReply peer m      => exact settle (onAppendEntriesReply h)
  case installSnapshot peer m         => exact absurd rfl (hn peer m)
  case installSnapshotReply peer m    => exact settle (onInstallSnapshotReply h)
  case promote m                      => exact onPromote h
  case drain operations               => exact settle (drain h)
  case propose m                      => exact settle (onPropose h)
  case read                           => exact read h
  case peerState peer up incarnation  => exact onPeerState h
  case applyPass                      => exact applyPass h
  case compacted payload              => exact finishCompaction h
  case unexpected                     => exact fail h

-- What a chunk of a snapshot does.
inductive Receives (n : RaftNode) (peer : Nat) (m : InstallSnapshot) (n' : RaftNode) : Prop
  | moved     : Moves n n' → Receives n peer m n'
  | stored    (n₁ : RaftNode) (a : Assembly) : Moves n n₁ → assemble (n₁.installing.get? peer) m = .extended a →
    n' = n₁.storing peer a → Receives n peer m n'
  | installed (n₁ : RaftNode) (a : Assembly) : Moves n n₁ → assemble (n₁.installing.get? peer) m = .extended a →
    m.done = true → Installs (n₁.storing peer a) n' peer a.data m → Receives n peer m n'

theorem Receives.step {m : InstallSnapshot} (h : n.Indexed) : Receives n peer m (n.step env (.installSnapshot peer m)) := by
  have hs : n.step env (.installSnapshot peer m) = RaftNode.settle env ((onInstallSnapshot env peer m).run n) := rfl
  rw [hs]
  rcases onInstallSnapshot_cases env peer m h with ⟨-, hm, -⟩ | ⟨n₁, a, reply, hr, hm, -, e, -, hx⟩
  case inl => exact .moved hm.settle
  case inr =>
    have hs : RaftNode.settle env ((onInstallSnapshot env peer m).run n) = (onInstallSnapshot env peer m).leaves n := by
      unfold Handler.leaves
      generalize (onInstallSnapshot env peer m).run n = r at hr
      obtain ⟨_, n'⟩ := r
      cases hr
      rfl
    rw [hs]
    rcases hx with ⟨-, hst⟩ | ⟨hd, -, hi⟩
    case inl => exact .stored n₁ a hm e hst
    case inr => exact .installed n₁ a hm e hd hi

theorem Indexed.step (env : Env) {e : NodeEvent} (h : n.Indexed) (hm : ∀ m, e = .appendEntries m → m.Consecutive) :
    (n.step env e).Indexed ∧ Replica.Advances n.replica (n.step env e).replica := by
  by_cases hn : ∃ peer m, e = .installSnapshot peer m
  case neg =>
    have hs : Moves n (n.step env e) := .step h hm fun peer m he => hn ⟨peer, m, he⟩
    exact ⟨hs.indexed, hs.advances⟩
  case pos =>
    obtain ⟨peer, m, rfl⟩ := hn
    rcases (Receives.step h : Receives n peer m (n.step env _)) with hs | ⟨n₁, a, hs, -, hst⟩ | ⟨n₁, a, hs, -, -, hi⟩
    case moved     => exact ⟨hs.indexed, hs.advances⟩
    case stored    => exact hst ▸ ⟨hs.indexed.storing, hs.advances.trans advances_storing⟩
    case installed => exact ⟨hi.indexed, hs.advances.trans (advances_storing.trans hi.advances)⟩

end RaftNode
end Raft
