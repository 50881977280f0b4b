import NmosReference.Raft.Assembly
import NmosReference.Raft.LogMatching
import NmosReference.Raft.NodeGrowth
import NmosReference.Raft.NodeInstalls

open Protobuf Registry

namespace Raft

section

variable [Python]

namespace RaftNode

variable {env : Env} {n n' : RaftNode} {e : NodeEvent} {m : AppendEntries}

-- Through which entry an answer acknowledges the log.
def acknowledgedBy : Except NodeFault AppendEntriesReply → Nat
  | .ok reply => if reply.success then reply.matchIndex else 0
  | .error _  => 0

def acknowledges (env : Env) (n : RaftNode) : NodeEvent → Nat
  | .appendEntries m => acknowledgedBy ((onAppendEntries env m).run n).1
  | _                => 0

-- Whether a snapshot was installed.
def installedBy : Except NodeFault InstallSnapshotReply → Bool
  | .ok reply => reply.done
  | .error _  => false

def installs (env : Env) (n : RaftNode) : NodeEvent → Bool
  | .installSnapshot peer m => installedBy ((onInstallSnapshot env peer m).run n).1
  | _                       => false

-- The indexes are in order.
structure Ordered (n : RaftNode) : Prop where
  applied   : n.log.snapshotIndex ≤ n.lastApplied
  committed : n.lastApplied ≤ n.commitIndex
  held      : n.commitIndex ≤ n.log.lastIndex

-- What is committed and what is applied never go back, and the entries stay, unless they are compacted into a snapshot
-- that covers them.
structure KeepsCommitted (n n' : RaftNode) : Prop where
  commitIndex : n.commitIndex ≤ n'.commitIndex
  lastApplied : n.lastApplied ≤ n'.lastApplied
  entry       : ∀ i e, i ≤ n.commitIndex → n.log.entryAt? i = some e →
    n'.log.entryAt? i = some e ∨ i ≤ n'.log.snapshotIndex ∧ ∃ m, n'.snapshotMeta = some m ∧ i ≤ m.lastIndex

omit [Python] in
theorem Indexed.ordered (h : n.Indexed) : n.Ordered :=
  ⟨h.sound.applied, h.sound.committed, h.sound.held⟩

omit [Python] in
theorem Indexed.keepsCommitted (h : n'.Indexed) (ha : Replica.Advances n.replica n'.replica) : n.KeepsCommitted n' := by
  refine ⟨ha.commitIndex, ha.lastApplied, fun i e hi he => ?_⟩
  rcases ha.kept i e hi he with hk | hs
  case inl => exact .inl hk
  case inr =>
    have hlt := RaftLog.entryAt?_lt he
    rcases h.sound.covered with h0 | ⟨m, hm, hle⟩
    case inl => simp only [replica] at h0 hs; omega
    case inr => exact .inr ⟨hs, m, hm, hs.trans hle⟩

omit [Python] in
theorem Indexed.start {layout : RaftLayout} {timing : RaftTiming} {compacts : Bool} {loaded : PersistentState}
    {store : RegistryStore} {cursors : CursorAllocator} :
    (start layout timing compacts loaded store cursors).Indexed where
  sound   := {
    wf         := .new
    applied    := Nat.zero_le _
    committed  := le_rfl
    held       := Nat.zero_le _
    covered    := .inl rfl
    compacting := fun _ _ _ ha => by cases ha }
  tracked := fun hr => by cases hr

-- Every AppendEntries carries entries that are numbered from the one they follow.
def Consecutive (_ : RaftNode) (a : Env × NodeEvent) : Prop :=
  ∀ m, a.2 = .appendEntries m → m.Consecutive

section AppendEntries

omit [Python] in
theorem term_fail {failure : MemberFailure} : (n.fail env failure).term = n.term := by
  unfold fail relinquish
  repeat' split
  all_goals rfl

theorem decodeEntries_mem {wires : List WireEntry} {entries : List (LogEntry RegistryOperation)}
    {e : LogEntry RegistryOperation} (h : decodeEntries wires = .ok entries) (he : e ∈ entries) :
    ∃ w ∈ wires, e.index = w.index ∧ e.term = w.term := by
  have hf := decodeEntries_ok h
  clear h
  induction hf with
  | nil => cases he
  | cons hw _ ih =>
    rcases List.mem_cons.mp he with rfl | he
    case inl => exact ⟨_, List.mem_cons_self, hw.2.1, hw.1⟩
    case inr =>
      obtain ⟨w, hmem, hw⟩ := ih he
      exact ⟨w, List.mem_cons_of_mem _ hmem, hw⟩

-- What a message of the leader does to the log.
structure Appends (n : RaftNode) (m : AppendEntries) (entries : List (LogEntry RegistryOperation)) (n' : RaftNode) :
    Prop where
  follow    : RaftLog.Follow m.prevLogIndex entries
  terms     : ∀ e ∈ entries, ∃ w ∈ m.entries, e.index = w.index ∧ e.term = w.term
  committed : n.commitIndex ≤ m.prevLogIndex
  holds     : n.log.holds m.prevLogIndex m.prevLogTerm = true
  splice    : ∃ k, n.log.Splice m.prevLogIndex entries k n'.log

omit [Python] in
theorem commitThrough_log : (n.commitThrough m).log = n.log ∧ (n.commitThrough m).term = n.term := by
  unfold commitThrough
  simp only
  split
  case isTrue  => exact ⟨rfl, rfl⟩
  case isFalse => exact ⟨rfl, rfl⟩

theorem extendLog_appends (env : Env) (h : n.log.WellFormed) (hm : m.Consecutive) (hc : n.commitIndex ≤ m.prevLogIndex)
    (hh : n.log.holds m.prevLogIndex m.prevLogTerm = true) : (n.extendLog env m).2.term = n.term ∧
    ((n.extendLog env m).2.log = n.log ∧ (n.extendLog env m).1.success = false ∨ ∃ entries,
      n.Appends m entries (n.extendLog env m).2 ∧ (n.extendLog env m).1.matchIndex = m.prevLogIndex + entries.length) := by
  unfold extendLog
  split
  case h_1 => exact ⟨rfl, .inl ⟨rfl, rfl⟩⟩
  case h_2 entries he =>
    have ⟨hs, hl⟩ := RaftLog.holds_bounds h hh
    have ⟨hf, hlen⟩ := hm.follow he
    obtain ⟨log', k, hrun, sp⟩ := RaftLog.run_appendReplicated h hs hc hl hf
    have ⟨hlog, hterm⟩ := commitThrough_log (n := { n with log := log' }) (m := m)
    rw [hrun]
    exact ⟨hterm, .inr ⟨entries, ⟨hf, fun _ => decodeEntries_mem he, hc, hh, k, hlog ▸ sp⟩, by rw [hlen]; rfl⟩⟩

theorem answerAppend_appends (env : Env) (h : n.log.WellFormed) (hm : m.Consecutive) :
    (n.answerAppend env m).2.term = n.term ∧
      ((n.answerAppend env m).2.log = n.log ∧
          ((n.answerAppend env m).1.success = true → (n.answerAppend env m).1.matchIndex = n.commitIndex) ∨
        ∃ entries, n.Appends m entries (n.answerAppend env m).2 ∧
          (n.answerAppend env m).1.matchIndex = m.prevLogIndex + entries.length) := by
  unfold answerAppend
  split
  case h_1 => exact ⟨term_fail, .inl ⟨congrArg Replica.log replica_fail, nofun⟩⟩
  case h_2 =>
    split
    case isTrue     => exact ⟨rfl, .inl ⟨rfl, fun _ => rfl⟩⟩
    case isFalse hc =>
      split
      case isTrue     => exact ⟨rfl, .inl ⟨rfl, nofun⟩⟩
      case isFalse hh =>
        have ⟨ht, hx⟩ := extendLog_appends env h hm (Nat.le_of_not_lt hc) (by simpa using hh)
        refine ⟨ht, hx.imp (fun hl => ⟨hl.1, fun hs => ?_⟩) id⟩
        rw [hl.2] at hs
        cases hs

omit [Python] in
theorem log_settle {α : Type} {r : Except NodeFault α} : (settle env (r, n)).log = n.log := by
  rcases r with e | a
  case ok => rfl
  case error =>
    cases e
    case osError => rfl
    all_goals exact congrArg Replica.log replica_fail

-- What an AppendEntries does to the log, and through which entry its answer acknowledges it.
theorem step_appendEntries (env : Env) (h : n.log.WellFormed) (hm : m.Consecutive) :
    (n.step env (.appendEntries m)).log = n.log ∧ n.acknowledges env (.appendEntries m) ≤ n.commitIndex ∨
      (n.step env (.appendEntries m)).term = m.term ∧ ∃ entries, n.Appends m entries (n.step env (.appendEntries m)) ∧
        n.acknowledges env (.appendEntries m) ≤ m.prevLogIndex + entries.length := by
  have hstep : n.step env (.appendEntries m) = settle env ((onAppendEntries env m).run n) := rfl
  have hack : n.acknowledges env (.appendEntries m) = acknowledgedBy ((onAppendEntries env m).run n).1 := rfl
  rw [hstep, hack]
  obtain ⟨n₁, -, hlog, hcommit, ⟨r, hr, hs⟩ | ⟨hterm, hr⟩⟩ := onAppendEntries_cases env n m
  case inl =>
    rw [hr]
    refine .inl ⟨log_settle.trans hlog, ?_⟩
    rcases r with e | reply
    case error => exact Nat.zero_le _
    case ok    => simp [acknowledgedBy, hs reply rfl]
  case inr =>
    rw [hr]
    have ⟨ht, hx⟩ := answerAppend_appends env (hlog ▸ h) hm
    simp only [settle, acknowledgedBy]
    rcases hx with ⟨hl, hs⟩ | ⟨entries, ha, hmatch⟩
    case inl =>
      refine .inl ⟨hl.trans hlog, ?_⟩
      split
      case isTrue hok => exact hcommit ▸ Nat.le_of_eq (hs hok)
      case isFalse    => exact Nat.zero_le _
    case inr =>
      have ha' : n.Appends m entries (n₁.answerAppend env m).2 :=
        ⟨ha.follow, ha.terms, hcommit ▸ ha.committed, hlog ▸ ha.holds, hlog ▸ ha.splice⟩
      refine .inr ⟨ht.trans hterm, entries, ha', ?_⟩
      split
      case isTrue  => exact Nat.le_of_eq hmatch
      case isFalse => exact Nat.zero_le _

end AppendEntries

-- A chunk that does not install anything leaves the log alone.
theorem log_installSnapshot {peer : Nat} {m : InstallSnapshot} (h : n.Indexed)
    (hi : n.installs env (.installSnapshot peer m) = false) : (n.step env (.installSnapshot peer m)).log = n.log := by
  have hstep : n.step env (.installSnapshot peer m) = settle env ((onInstallSnapshot env peer m).run n) := rfl
  have hlog : ((onInstallSnapshot env peer m).leaves n).log = n.log := by
    rcases onInstallSnapshot_cases env peer m h with ⟨-, -, hl⟩ | ⟨n₁, a, reply, hr, -, hl, -, -, hst | ⟨-, hd, -⟩⟩
    · exact hl
    · rw [hst.2]
      exact hl
    · rw [show n.installs env (.installSnapshot peer m) = _ from congrArg installedBy hr, installedBy, hd] at hi
      cases hi
  rw [hstep]
  exact log_settle.trans hlog

-- One that does leaves nothing of it, and ends past what was committed.
theorem step_installs {peer : Nat} {m : InstallSnapshot} (h : n.Indexed)
    (hi : n.installs env (.installSnapshot peer m) = true) : n.commitIndex < m.lastIndex ∧
      (n.step env (.installSnapshot peer m)).log = .resetToSnapshot m.lastIndex m.lastTerm := by
  have hstep : n.step env (.installSnapshot peer m) = settle env ((onInstallSnapshot env peer m).run n) := rfl
  rcases onInstallSnapshot_cases env peer m h with ⟨hd, -⟩ | ⟨n₁, a, reply, hr, hm, -, -, hc, ⟨hd, -⟩ | ⟨-, hd, hx⟩⟩
  case inl =>
    have hi : installedBy ((onInstallSnapshot env peer m).run n).1 = true := hi
    unfold installedBy at hi
    split at hi
    case h_1 reply hr => rw [hd reply hr] at hi; cases hi
    case h_2          => cases hi
  case inr.inl =>
    rw [show n.installs env (.installSnapshot peer m) = _ from congrArg installedBy hr, installedBy, hd] at hi
    cases hi
  case inr.inr =>
    rw [hstep]
    unfold Handler.leaves at hx
    generalize (onInstallSnapshot env peer m).run n = r at hr hx
    obtain ⟨_, n'⟩ := r
    cases hr
    exact ⟨Nat.lt_of_le_of_lt hm.advances.commitIndex hc, hx.log⟩

omit [Python] in
theorem term_stepDown {term : Nat} : ((stepDown env term).run n).2.term = term := by
  rfl

theorem term_installAssembled {peer : Nat} {buffer : Bytes} {m : InstallSnapshot} :
    (n.installAssembled env peer buffer m).2.term = n.term := by
  unfold installAssembled
  repeat' split
  all_goals rfl

theorem receiveChunk_done {peer : Nat} {m : InstallSnapshot} : (n.receiveChunk env peer m).2.term = n.term ∧
    ((n.receiveChunk env peer m).1.done = true →
      m.done = true ∧ ∃ assembled, assemble (n.installing.get? peer) m = .extended assembled) := by
  unfold receiveChunk
  split
  case h_1 => exact ⟨term_fail, fun h => (by cases h)⟩
  case h_2 =>
    split
    case isTrue  => exact ⟨rfl, fun h => (by cases h)⟩
    case isFalse =>
      split
      case h_1           => exact ⟨rfl, fun h => (by cases h)⟩
      case h_2           => exact ⟨rfl, fun h => (by cases h)⟩
      case h_3 assembled e =>
        simp only
        split
        case isTrue hd => exact ⟨term_installAssembled, fun _ => ⟨hd, assembled, e⟩⟩
        case isFalse   => exact ⟨rfl, fun h => (by cases h)⟩

-- Within a term, what installs a snapshot is a last chunk of that term's that goes on from the chunks before it.
theorem installs_assembled {peer : Nat} {m : InstallSnapshot} (hi : n.installs env (.installSnapshot peer m) = true)
    (ht : (n.step env (.installSnapshot peer m)).term = n.term) : m.term = n.term ∧ m.done = true ∧
      ∃ assembled, assemble (n.installing.get? peer) m = .extended assembled := by
  have hi : installedBy ((onInstallSnapshot env peer m).run n).1 = true := hi
  have ht : (settle env ((onInstallSnapshot env peer m).run n)).term = n.term := ht
  by_cases hlt : m.term < n.term
  case pos =>
    have e : (onInstallSnapshot env peer m).run n = (.ok (n.chunkAnswer 0 false m), n) := if_pos hlt
    rw [e] at hi
    cases hi
  case neg =>
    have e : (onInstallSnapshot env peer m).run n = (adoptTerm env m.term >>= fun _ =>
      modifyGet fun n => (n.followLeader env m.leader).receiveChunk env peer m).run n := if_neg hlt
    rw [e, Handler.run_bind] at hi ht
    by_cases hgt : n.term < m.term
    case neg =>
      have ha : (adoptTerm env m.term).run n = (.ok (), n) := if_neg hgt
      rw [ha] at hi
      have hi : ((n.followLeader env m.leader).receiveChunk env peer m).1.done = true := hi
      have hdone := receiveChunk_done.2 hi
      exact ⟨Nat.le_antisymm (Nat.le_of_not_lt hgt) (Nat.le_of_not_lt hlt), hdone⟩
    case pos =>
      have ha : ((adoptTerm env m.term).run n).2.term = m.term := by
        rw [show (adoptTerm env m.term).run n = _ from if_pos hgt]
        exact term_stepDown
      generalize (adoptTerm env m.term).run n = r at ha hi ht
      rcases r with ⟨a | a, n₁⟩
      case error => cases hi
      case ok    =>
        have ht : ((n₁.followLeader env m.leader).receiveChunk env peer m).2.term = n.term := ht
        rw [receiveChunk_done.1] at ht
        exact absurd (ht.symm.trans ha) (Nat.ne_of_lt hgt)

omit [Python] in
-- Compaction leaves of the log what is behind the new boundary.
theorem entryAt?_finishCompaction {payload : Option Bytes} (h : n.Indexed) :
    ∀ i, (n.finishCompaction env payload).log.snapshotIndex < i →
      (n.finishCompaction env payload).log.entryAt? i = n.log.entryAt? i := by
  have failed {n : RaftNode} {failure : MemberFailure} : (n.fail env failure).log = n.log :=
    congrArg Replica.log replica_fail
  unfold finishCompaction
  split
  case h_2 => exact fun _ _ => rfl
  case h_1 index term discardTo ha =>
    simp only
    split
    case isTrue     => exact fun _ _ => rfl
    case isFalse hc =>
      obtain ⟨_, hl, hd⟩ := h.sound.compacting index term discardTo ha (by simpa [Option.isSome_iff_ne_none, replica] using hc)
      have hle : discardTo ≤ n.log.lastIndex := hd.trans (hl.trans (h.sound.committed.trans h.sound.held))
      split
      case h_1 => exact fun _ _ => rfl
      case h_2 =>
        split
        case isTrue     => exact fun _ _ => rfl
        case isFalse hs =>
          split
          case h_1 => exact fun _ _ => rfl
          case h_2 =>
            split
            case h_1          => exact fun _ _ => by rw [failed]
            case h_2 log hlog =>
              obtain ⟨_, hsnap, _, habove⟩ := RaftLog.discarded h.wf (Nat.lt_of_not_le hs) hle hlog
              exact fun i hi => habove i (hsnap ▸ hi)

end RaftNode

-- A member, and through which entry it acknowledged its log to the leader of this term.
structure Watched where
  node  : RaftNode
  acked : Nat

namespace Watched

def step (s : Watched) (a : Env × NodeEvent) : Watched :=
  let node := s.node.step a.1 a.2
  let acked := if node.term = s.node.term then s.acked else 0
  { node, acked := max acked (s.node.acknowledges a.1 a.2) }

def member (n : RaftNode) : TransitionSystem Watched (Env × NodeEvent) where
  init     := ⟨n, 0⟩
  step s a := some (s.step a)

-- What a leader sends is a part of its log. What a member appends by itself, it appends as the leader of its term.
def Faithful (logs : LeaderLogs) (s : Watched) (a : Env × NodeEvent) : Prop :=
  match a.2 with
  | .appendEntries m                      => m.Consecutive ∧
    (m.prevLogIndex = 0 ∨ logs m.term m.prevLogIndex = some m.prevLogTerm) ∧ ∀ w ∈ m.entries, logs m.term w.index = some w.term
  | .installSnapshot _ _ | .compacted _   => True
  | _                                     => (s.step a).node.log = s.node.log ∨
    (s.step a).node.log.Agrees (logs (s.step a).node.term)

-- A last chunk of this term's, that goes on from the chunks before it, ends its snapshot no earlier than what was
-- acknowledged, or no later than what is committed.
def Covering (s : Watched) (a : Env × NodeEvent) : Prop :=
  ∀ peer m, a.2 = .installSnapshot peer m → m.term = s.node.term → m.done = true → s.node.commitIndex < m.lastIndex →
    (∃ assembled, assemble (s.node.installing.get? peer) m = .extended assembled) → s.acked ≤ m.lastIndex

-- What is acknowledged and not known to be committed is held as the leader of the term has it.
structure Inv (logs : LeaderLogs) (s : Watched) : Prop where
  indexed : s.node.Indexed
  lineage : s.node.log.Lineage logs
  acked   : ∀ j, s.node.commitIndex < j → j ≤ s.acked →
    ∃ e, s.node.log.entryAt? j = some e ∧ logs s.node.term j = some e.term

variable {logs : LeaderLogs} {s : Watched} {a : Env × NodeEvent}

theorem Faithful.consecutive (h : Faithful logs s a) : RaftNode.Consecutive s.node a := by
  intro m hm
  unfold Faithful at h
  rw [hm] at h
  exact h.1

-- Everything acknowledged is still there, or compacted.
def Retains (s : Watched) (n : RaftNode) : Prop :=
  ∀ i e, i ≤ s.acked → s.node.log.entryAt? i = some e → n.log.entryAt? i = some e ∨ i ≤ n.log.snapshotIndex

-- The invariant after a step that keeps what was acknowledged, and acknowledges what the leader has.
theorem Inv.next (h : s.Inv logs) (hf : RaftNode.Consecutive s.node a) (hl : (s.step a).node.log.Lineage logs)
    (hk : (s.step a).node.term = s.node.term → s.Retains (s.step a).node)
    (hack : ∀ j, (s.step a).node.commitIndex < j → j ≤ s.node.acknowledges a.1 a.2 →
      ∃ e, (s.step a).node.log.entryAt? j = some e ∧ logs (s.step a).node.term j = some e.term) : (s.step a).Inv logs := by
  have ⟨hi, ha⟩ := h.indexed.step a.1 hf
  refine ⟨hi, hl, fun j hj hle => ?_⟩
  by_cases hb : j ≤ s.node.acknowledges a.1 a.2
  case pos => exact hack j hj hb
  case neg =>
    have hle : j ≤ if (s.node.step a.1 a.2).term = s.node.term then s.acked else 0 :=
      (le_max_iff.mp hle).resolve_right hb
    split at hle
    case isFalse   => omega
    case isTrue ht =>
      obtain ⟨e, he, hterm⟩ := h.acked j (Nat.lt_of_le_of_lt ha.commitIndex hj) hle
      rcases hk ht j e hle he with he' | hs
      case inl => exact ⟨e, he', by rw [show (s.step a).node.term = _ from ht, hterm]⟩
      case inr =>
        have := hi.sound.applied.trans hi.sound.committed
        exact absurd (hs.trans this) (Nat.not_le_of_lt hj)

-- A step of a run: the invariant, and what was acknowledged to the leader of the term.
structure Kept (logs : LeaderLogs) (s : Watched) (a : Env × NodeEvent) : Prop where
  inv     : (s.step a).Inv logs
  retains : (s.step a).node.term = s.node.term → s.Retains (s.step a).node

theorem Kept.of_retains (h : s.Inv logs) (hf : RaftNode.Consecutive s.node a) (hl : (s.step a).node.log.Lineage logs)
    (hk : (s.step a).node.term = s.node.term → s.Retains (s.step a).node)
    (hack : s.node.acknowledges a.1 a.2 ≤ s.node.commitIndex) : Kept logs s a := by
  refine ⟨h.next hf hl hk fun j hj hle => ?_, hk⟩
  have hc : s.node.commitIndex ≤ (s.step a).node.commitIndex := (h.indexed.step a.1 hf).2.commitIndex
  omega

theorem Kept.grown (hm : logs.Matching) (h : s.Inv logs) (hf : RaftNode.Consecutive s.node a)
    (hg : s.node.Grows (s.step a).node) (hack : s.node.acknowledges a.1 a.2 = 0)
    (hw : (s.step a).node.log = s.node.log ∨ (s.step a).node.log.Agrees (logs (s.step a).node.term)) : Kept logs s a := by
  refine .of_retains h hf ?_ (fun _ _ _ _ he => .inl <| (hg.log h.indexed.wf).entry _ _ he) (hack ▸ Nat.zero_le _)
  rcases hw with hlog | ha
  case inl => exact hlog ▸ h.lineage
  case inr => exact ha.lineage hm

theorem Kept.same (h : s.Inv logs) (hf : RaftNode.Consecutive s.node a) (hlog : (s.step a).node.log = s.node.log)
    (hack : s.node.acknowledges a.1 a.2 ≤ s.node.commitIndex) : Kept logs s a :=
  .of_retains h hf (hlog ▸ h.lineage) (fun _ _ _ _ he => .inl (hlog ▸ he)) hack

theorem Kept.appended {env : Env} {m : AppendEntries} (hm : logs.Matching) (h : s.Inv logs)
    (hf : Faithful logs s (env, .appendEntries m)) : Kept logs s (env, .appendEntries m) := by
  have hc := hf.consecutive
  obtain ⟨hcons, hpred, hentries⟩ := hf
  rcases RaftNode.step_appendEntries env h.indexed.wf hcons with ⟨hlog, hack⟩ | ⟨hterm, entries, ha, hack⟩
  case inl => exact .same h hc hlog hack
  case inr =>
    obtain ⟨k, sp⟩ := ha.splice
    have hsp : RaftLog.Splice.Faithful logs m.term m.prevLogIndex m.prevLogTerm entries := by
      refine ⟨ha.follow, hpred, fun e he => ?_⟩
      obtain ⟨w, hw, hi, ht⟩ := ha.terms e he
      rw [hi, ht]
      exact hentries w hw
    have hlin : (s.step (env, .appendEntries m)).node.log.Lineage logs := sp.lineage hsp h.indexed.wf ha.holds h.lineage hm
    have hk : (s.step (env, .appendEntries m)).node.term = s.node.term →
        s.Retains (s.step (env, .appendEntries m)).node := by
      intro ht i e hi he
      have hterm : s.node.term = m.term := ht.symm.trans hterm
      refine .inl <| (sp.kept_of_agrees hsp h.indexed.wf ha.holds (fun j hj hle => ?_) hi).trans he
      exact hterm ▸ h.acked j (Nat.lt_of_le_of_lt ha.committed hj) hle
    refine ⟨h.next hc hlin hk fun j hj hle => ?_, hk⟩
    have ho := (h.indexed.step env hc).1.ordered
    have hs : (s.step (env, .appendEntries m)).node.log.snapshotIndex < j :=
      Nat.lt_of_le_of_lt (ho.applied.trans ho.committed) hj
    obtain ⟨e, he, ht⟩ := sp.acknowledged hsp h.indexed.wf ha.holds h.lineage hm hs (hle.trans hack)
    exact ⟨e, he, (congrArg (logs · j) hterm).trans ht⟩

theorem Kept.received {env : Env} {peer : Nat} {m : InstallSnapshot} (h : s.Inv logs)
    (hv : s.Covering (env, .installSnapshot peer m)) : Kept logs s (env, .installSnapshot peer m) := by
  have hc : RaftNode.Consecutive s.node (env, .installSnapshot peer m) := nofun
  cases hi : s.node.installs env (.installSnapshot peer m)
  case false => exact .same h hc (RaftNode.log_installSnapshot h.indexed hi) (Nat.zero_le _)
  case true  =>
    have ⟨hpast, hlog⟩ := RaftNode.step_installs h.indexed hi
    have hlog : (s.step (env, .installSnapshot peer m)).node.log = .resetToSnapshot m.lastIndex m.lastTerm := hlog
    have hlin : (s.step (env, .installSnapshot peer m)).node.log.Lineage logs := hlog ▸ .resetToSnapshot
    refine .of_retains h hc hlin (fun ht i e hle _ => .inr ?_) (Nat.zero_le _)
    have ⟨hterm, hdone, hassembled⟩ := RaftNode.installs_assembled hi ht
    rw [hlog]
    exact hle.trans (hv peer m rfl hterm hdone hpast hassembled)

theorem Kept.compacted {env : Env} {payload : Option Bytes} (h : s.Inv logs) :
    Kept logs s (env, .compacted payload) := by
  have hc : RaftNode.Consecutive s.node (env, .compacted payload) := nofun
  have he : ∀ i, (s.step (env, .compacted payload)).node.log.snapshotIndex < i →
      (s.step (env, .compacted payload)).node.log.entryAt? i = s.node.log.entryAt? i :=
    RaftNode.entryAt?_finishCompaction h.indexed
  refine .of_retains h hc (h.lineage.sub fun i e hi => ?_) (fun _ i e _ hi => ?_) (Nat.zero_le _)
  · rw [← he i (RaftLog.entryAt?_lt hi), hi]
  · rcases Nat.lt_or_ge (s.step (env, .compacted payload)).node.log.snapshotIndex i with hlt | hge
    case inl => exact .inl <| (he i hlt).trans hi
    case inr => exact .inr hge

theorem Kept.step (hm : logs.Matching) (h : s.Inv logs) (hf : Faithful logs s a) (hv : s.Covering a) : Kept logs s a := by
  have hc := hf.consecutive
  obtain ⟨env, e⟩ := a
  have hg : (∀ m, e ≠ .appendEntries m) → (∀ peer m, e ≠ .installSnapshot peer m) → (∀ payload, e ≠ .compacted payload) →
      s.node.Grows (s.step (env, e)).node := RaftNode.Grows.step
  cases e
  case appendEntries m        => exact .appended hm h hf
  case installSnapshot peer m => exact .received h hv
  case compacted payload      => exact .compacted h
  all_goals exact .grown hm h hc (hg (fun _ he => by cases he) (fun _ _ he => by cases he) fun _ he => by cases he) rfl hf

omit [Python] in
theorem Inv.start {n : RaftNode} (h : n.Indexed) (hl : n.log = .new) : Inv logs ⟨n, 0⟩ where
  indexed := h
  lineage := hl ▸ .new
  acked   := fun j _ hle => by simp only at hle; omega

theorem Reaches.inv {n : RaftNode} (hm : logs.Matching) (h : n.Indexed) (hl : n.log = .new)
    (r : (member n).Reaches (fun s a => Faithful logs s a ∧ s.Covering a) s) : s.Inv logs :=
  r.preserves (fun _ _ _ hi hf e => by cases e; exact (Kept.step hm hi hf.1 hf.2).inv) (.start h hl)

end Watched

theorem RaftNode.Reaches.indexed {n₀ n : RaftNode} (h : n₀.Indexed) (r : (RaftNode.member n₀).Reaches Consecutive n) :
    n.Indexed :=
  r.preserves (fun _ _ _ hi hc e => by cases e; exact (hi.step _ hc).1) h

-- In every run of a member whose leaders number their entries one after the other, every step keeps the order of the
-- indexes and what is committed; where moreover the leaders' logs match, and no snapshot that is completed ends before
-- what was acknowledged, it keeps what was acknowledged to the leader of the term.
theorem RaftNode.indexes_in_order {layout : RaftLayout} {timing : RaftTiming} {compacts : Bool}
    {loaded : PersistentState} {store : RegistryStore} {cursors : CursorAllocator} :
    (∀ n a, (RaftNode.member (start layout timing compacts loaded store cursors)).Reaches Consecutive n → Consecutive n a →
        (n.step a.1 a.2).Ordered ∧ n.KeepsCommitted (n.step a.1 a.2)) ∧
      ∀ logs : LeaderLogs, logs.Matching → ∀ s a,
        (Watched.member (start layout timing compacts loaded store cursors)).Reaches
            (fun s a => Watched.Faithful logs s a ∧ s.Covering a) s →
          Watched.Faithful logs s a → s.Covering a → (s.step a).node.term = s.node.term → s.Retains (s.step a).node := by
  refine ⟨fun n a r hc => ?_, fun logs hm s a r hf hv ht => ?_⟩
  · have ⟨hi, ha⟩ := (Reaches.indexed .start r).step a.1 hc
    exact ⟨hi.ordered, hi.keepsCommitted ha⟩
  · have hinv := Watched.Reaches.inv hm .start rfl r
    exact (Watched.Kept.step hm hinv hf hv).retains ht

end

-- A chunk that comes again after entries behind its snapshot were acknowledged.
namespace Overtaken

open RaftNode Transfer

local instance python : Python :=
  .ofTable []

def noop (index : Nat) : WireEntry where
  term    := 1
  index   := index
  payload := match encodeOperation (.noop ⟨1, index⟩) with
    | .ok payload => payload
    | .error _    => []

def append (count commit : Nat) : AppendEntries where
  term         := 1
  leader       := 1
  prevLogIndex := 0
  prevLogTerm  := 0
  leaderCommit := commit
  requestId    := 1
  entries      := (List.range count).map fun i => noop (i + 1)

def first : Env × NodeEvent :=
  (env, .installSnapshot 1 (chunk 5 0 4))

def last : Env × NodeEvent :=
  (env, .installSnapshot 1 (chunk 5 4 2))

def events : List (Env × NodeEvent) :=
  [last, first, (env, .appendEntries (append 6 0))]

def acknowledged : Watched :=
  (((Watched.mk fresh 0).step last).step first).step (env, .appendEntries (append 6 0))

-- The chunk was received before, and ignored. The entry behind the snapshot was acknowledged, and is gone.
theorem replay_drops_acknowledged : last ∈ events ∧
    (Watched.member fresh).run ⟨fresh, 0⟩ events = some acknowledged ∧ (acknowledged.step last).node.term = acknowledged.node.term ∧
      acknowledged.acked = 6 ∧ ¬acknowledged.Retains (acknowledged.step last).node := by
  refine ⟨List.mem_cons_self, rfl, by decide +kernel, by decide +kernel, fun h => ?_⟩
  have held : (acknowledged.node.log.entryAt? 6).isSome = true := by decide +kernel
  obtain ⟨e, he⟩ := Option.isSome_iff_exists.mp held
  rcases h 6 e (by decide +kernel) he with hk | hs
  case inl =>
    have gone : ((acknowledged.step last).node.log.entryAt? 6).isSome = false := by decide +kernel
    rw [hk] at gone
    cases gone
  case inr => exact absurd hs (by decide +kernel)

-- Every entry of every leader's log is of the first term.
def logs : LeaderLogs :=
  fun term _ => if term = 1 then some 1 else none

theorem logs_matching : logs.Matching := by
  intro term i t h j _
  unfold logs at h ⊢
  split at h
  case isTrue h1 => cases h; rw [h1]
  case isFalse   => cases h

theorem append_consecutive (count commit : Nat) : (append count commit).Consecutive := by
  intro i w h
  rw [append, List.getElem?_map, Option.map_eq_some_iff] at h
  obtain ⟨j, hj, rfl⟩ := h
  obtain ⟨hlt, rfl⟩ := List.getElem?_eq_some_iff.mp hj
  simp only [List.getElem_range, noop, append]
  omega

theorem append_faithful (s : Watched) (count commit : Nat) :
    Watched.Faithful logs s (env, .appendEntries (append count commit)) := by
  refine ⟨append_consecutive count commit, .inl rfl, fun w hw => ?_⟩
  obtain ⟨i, _, rfl⟩ := List.mem_map.mp hw
  rfl

-- A snapshot that is on its way while entries are committed that it covers.
def committed : Watched :=
  ((Watched.mk fresh 0).step first).step (env, .appendEntries (append 4 2))

theorem committed_reaches : (Watched.member fresh).Reaches (fun s a => Watched.Faithful logs s a ∧ s.Covering a) committed := by
  have received : (Watched.member fresh).Reaches (fun s a => Watched.Faithful logs s a ∧ s.Covering a)
      ((Watched.mk fresh 0).step first) :=
    .single (show Watched.Faithful logs _ first ∧ Watched.Covering _ first from
      ⟨trivial, fun _ _ _ _ _ _ _ => Nat.zero_le _⟩) rfl
  exact received.tail (show Watched.Faithful logs _ (env, _) ∧ Watched.Covering _ (env, _) from
    ⟨append_faithful _ 4 2, fun _ _ he => by cases he⟩) rfl

theorem committed_node : (member fresh).Reaches Consecutive committed.node := by
  have received : (member fresh).Reaches Consecutive (fresh.step first.1 first.2) :=
    .single (fun _ he => by cases he) rfl
  have consecutive : RaftNode.Consecutive (fresh.step first.1 first.2) (env, .appendEntries (append 4 2)) := by
    intro m he
    cases he
    exact append_consecutive 4 2
  exact received.tail consecutive rfl

theorem indexes_in_order_append : committed.node.commitIndex = 2 ∧ committed.acked = 4 ∧
    (committed.step last).node.log.snapshotIndex = 5 ∧ (committed.step last).node.Ordered ∧
      committed.node.KeepsCommitted (committed.step last).node ∧ committed.Retains (committed.step last).node := by
  have ⟨ordered, kept⟩ := indexes_in_order.1 _ last committed_node fun _ he => by cases he
  have covering : committed.Covering last := by
    intro peer m he _ _ _ _
    cases he
    decide +kernel
  have retains := indexes_in_order.2 logs logs_matching committed last committed_reaches trivial covering (by decide +kernel)
  exact ⟨by decide +kernel, by decide +kernel, by decide +kernel, ordered, kept, retains⟩

end Overtaken
end Raft
