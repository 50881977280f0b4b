import NmosReference.Raft.NodeRuns
import NmosReference.Raft.Parties

open Protobuf Registry

namespace Raft

namespace RaftLog

variable {α : Type} {log log' : RaftLog α} {e : LogEntry α} {es : List (LogEntry α)} {index term prev k i : Nat}

theorem termAt_entry (h : log.entryAt? index = some e) : log.termAt index = .ok e.term := by
  have hs := entryAt?_lt h
  rw [termAt, if_neg (by omega), get_eq_ok.mpr h]
  rfl

theorem termAt_snapshotIndex : log.termAt log.snapshotIndex = .ok log.snapshotTerm := by
  rw [termAt, if_pos rfl]

-- A term is that of the snapshot's last entry, or of an entry.
theorem termAt_cases (h : log.termAt index = .ok term) :
    index = log.snapshotIndex ∧ term = log.snapshotTerm ∨ ∃ e, log.entryAt? index = some e ∧ e.term = term := by
  unfold termAt at h
  split at h
  case isTrue hi => cases h; exact .inl ⟨hi, rfl⟩
  case isFalse   =>
    cases hg : log.get index with
    | error _ => rw [hg] at h; cases h
    | ok e    =>
      rw [hg] at h
      cases h
      exact .inr ⟨e, get_eq_ok.mp hg, rfl⟩

theorem WellFormed.termAt_last (h : log.WellFormed) : log.termAt log.lastIndex = .ok log.lastTerm := by
  have hl := h.lastIndex
  cases hg : log.entries.getLast? with
  | none =>
    have hn : log.entries = [] := List.getLast?_eq_none_iff.mp hg
    have hi : log.lastIndex = log.snapshotIndex := by rw [hl, hn]; rfl
    rw [hi, termAt_snapshotIndex, lastTerm, hg]
    rfl
  | some e =>
    have hpos : 0 < log.entries.length := by
      rw [List.getLast?_eq_getElem?] at hg
      have := (List.getElem?_eq_some_iff.mp hg).1
      omega
    have he : log.entryAt? log.lastIndex = some e := by
      rw [entryAt?, if_neg (by omega), ← hg, List.getLast?_eq_getElem?, firstIndex, hl]
      congr 1
      omega
    rw [termAt_entry he, lastTerm, hg]
    rfl

theorem termAt_le (h : log.WellFormed) (ht : log.termAt index = .ok term) :
    log.snapshotIndex ≤ index ∧ index ≤ log.lastIndex := by
  have hl := h.lastIndex
  rcases termAt_cases ht with ⟨hi, _⟩ | ⟨e, he, _⟩
  case inl => omega
  case inr =>
    have := entryAt?_lt he
    have := h.le_lastIndex he
    omega

theorem termAt_of_holds (h : log.holds index term = true) (hi : index ≠ 0) : log.termAt index = .ok term := by
  unfold holds at h
  rw [if_neg hi] at h
  split at h
  case isTrue  => cases h
  case isFalse =>
    split at h
    case isTrue hs  => rw [hs, termAt_snapshotIndex, of_decide_eq_true h]
    case isFalse    =>
      split at h
      case h_1 e he => rw [termAt_entry (get_eq_ok.mp he), of_decide_eq_true h]
      case h_2      => cases h

-- Each of the entries is there afterwards: as it was held, or as it came.
theorem Splice.spliced_entry (sp : Splice log prev es k log') (h : log.WellFormed) (hs : log.snapshotIndex ≤ prev)
    (hl : prev ≤ log.lastIndex) (hf : Follow prev es) (he : es[i]? = some e) :
    ∃ e', log'.entryAt? (prev + 1 + i) = some e' ∧ e'.term = e.term ∧ (k ≤ i → e' = e) := by
  rcases Nat.lt_or_ge i k with hik | hki
  case inl =>
    obtain ⟨held, hh, ht⟩ := sp.held i e hik he
    exact ⟨held, by rw [sp.kept h hs hl (by omega), hh], ht, fun hk => by omega⟩
  case inr =>
    have hlt : k < es.length := by
      have := (List.getElem?_eq_some_iff.mp he).1
      omega
    have ⟨_, htl⟩ := sp.extends_taken h hs hl hf hlt
    refine ⟨e, ?_, rfl, fun _ => rfl⟩
    rw [sp.spliced hlt, entryAt?_append_of_lt (h.take _) (by rw [htl]; omega), htl, List.getElem?_drop, ← he]
    congr 1
    omega

end RaftLog

namespace RaftNode

variable {env : Env} {n n' : RaftNode} {peer : Nat}

theorem persist_ok (h : (persist env).run n = (.ok (), n')) :
    n' = { n with file := some n.persistentState } := by
  have hs : env.save n.persistentState = .saved := by
    by_contra hs
    have hr : ((persist env).run n).1 = .error .osError := if_neg hs
    rw [h] at hr
    cases hr
  have hn : ((persist env).run n).2 = { n with file := n.file.save n.persistentState (env.save n.persistentState) } := rfl
  rw [h, hs] at hn
  exact hn

-- A vote that was granted is in the state file.
theorem vote_answers {m : RequestVote} {r : RequestVoteReply} (h : (vote env m).run n = (.ok r, n')) (hp : m.preVote = false) :
    n'.party.Answers (.requestVote m) (.requestVoteReply r) := by
  unfold vote Handler.run at h
  simp only at h
  split at h
  case isFalse   => cases h; nofun
  case isTrue hv =>
    intro _ _
    obtain ⟨ht, _⟩ := hv
    obtain ⟨_, n₁, hm, h⟩ := Handler.run_bind_eq_ok.mp h
    cases hm
    obtain ⟨_, n₂, hs, h⟩ := Handler.run_bind_eq_ok.mp h
    cases persist_ok hs
    cases h
    exact ⟨m, rfl, hp, rfl, ht, rfl, rfl⟩

theorem onRequestVote_answers {m : RequestVote} {r : RequestVoteReply} (h : (onRequestVote env m).run n = (.ok r, n')) :
    n'.party.Answers (.requestVote m) (.requestVoteReply r) := by
  unfold onRequestVote Handler.run at h
  simp only at h
  split at h
  case isTrue  => cases h; nofun
  case isFalse =>
    split at h
    case isTrue     => cases h; nofun
    case isFalse hp =>
      obtain ⟨_, n₁, _, h⟩ := Handler.run_bind_eq_ok.mp h
      exact vote_answers h (Bool.eq_false_iff.mpr hp)

section

variable [Python]

theorem decodeEntries_terms {wires : List WireEntry} {entries : List (LogEntry RegistryOperation)}
    (h : decodeEntries wires = .ok entries) : wires.map (·.term) = entries.map (·.term) := by
  have hf := decodeEntries_ok h
  clear h
  induction hf with
  | nil          => rfl
  | cons hw _ ih => rw [List.map_cons, List.map_cons, hw.1, ih]

theorem extendLog_answers {m : AppendEntries} (h : n.Indexed) (ht : m.term = n.term) (hm : m.Consecutive)
    (hc : n.commitIndex ≤ m.prevLogIndex) (hh : n.log.holds m.prevLogIndex m.prevLogTerm = true) :
    (n.extendLog env m).2.party.Answers (.appendEntries m) (.appendEntriesReply (n.extendLog env m).1) := by
  unfold extendLog
  split
  case h_1 => nofun
  case h_2 entries hd =>
    have ⟨hs, hl⟩ := RaftLog.holds_bounds h.wf hh
    have ⟨hf, hlen⟩ := hm.follow hd
    obtain ⟨log', k, hrun, sp⟩ := RaftLog.run_appendReplicated h.wf hs hc hl hf
    rw [hrun]
    have ⟨hlog, hterm⟩ := commitThrough_log (n := { n with log := log' }) (m := m)
    change (commitThrough { n with log := log' } m).party.Answers (.appendEntries m)
      (.appendEntriesReply ((commitThrough { n with log := log' } m).appendAnswer true (m.prevLogIndex + m.entries.length) (0, 0) m))
    refine fun _ => ⟨m, rfl, rfl, ht.trans hterm.symm, .inr ⟨rfl, ?_⟩⟩
    have hparty : (commitThrough { n with log := log' } m).party.log = log' := hlog
    rw [hparty]
    unfold Party.lastTermOf appendAnswer
    have hterms : m.entries.getLast?.map (·.term) = entries.getLast?.map (·.term) := by
      rw [← List.getLast?_map, ← List.getLast?_map, decodeEntries_terms hd]
    rw [hterms]
    cases hg : entries.getLast? with
    | none =>
      have hn : entries = [] := List.getLast?_eq_none_iff.mp hg
      subst hn
      have hlog : log' = n.log := sp.same (Nat.le_antisymm sp.le (Nat.zero_le _))
      rw [hlog, ← hlen]
      by_cases h0 : m.prevLogIndex = 0
      case pos => exact .inl h0
      case neg => exact .inr (RaftLog.termAt_of_holds hh h0)
    | some e =>
      rw [List.getLast?_eq_getElem?] at hg
      have hpos := (List.getElem?_eq_some_iff.mp hg).1
      obtain ⟨e', he', ht', _⟩ := sp.spliced_entry h.wf hs hl hf hg
      have hi : m.prevLogIndex + 1 + (entries.length - 1) = m.prevLogIndex + m.entries.length := by omega
      rw [hi] at he'
      exact .inr (by rw [RaftLog.termAt_entry he', ht']; rfl)

theorem answerAppend_answers {m : AppendEntries} (h : n.Indexed) (ht : m.term = n.term) (hm : m.Consecutive) :
    (n.answerAppend env m).2.party.Answers (.appendEntries m) (.appendEntriesReply (n.answerAppend env m).1) := by
  unfold answerAppend
  split
  case h_1 => nofun
  case h_2 =>
    split
    case isTrue     => exact fun _ => ⟨m, rfl, rfl, ht, .inl rfl⟩
    case isFalse hc =>
      split
      case isTrue     => nofun
      case isFalse hh => exact extendLog_answers h ht hm (Nat.le_of_not_lt hc) (by simpa using hh)

theorem onAppendEntries_answers {m : AppendEntries} {r : AppendEntriesReply} (h : n.Indexed) (hm : m.Consecutive)
    (hr : (onAppendEntries env m).run n = (.ok r, n')) :
    n'.party.Answers (.appendEntries m) (.appendEntriesReply r) := by
  by_cases hlt : m.term < n.term
  case pos =>
    have e : (onAppendEntries env m).run n = (.ok n.appendReject, n) := if_pos hlt
    rw [e] at hr
    cases hr
    nofun
  case neg =>
    have e : (onAppendEntries env m).run n = (adoptTerm env m.term >>= fun _ =>
      modifyGet fun n => (n.hearLeader env m.leader).answerAppend env m).run n := if_neg hlt
    rw [e] at hr
    have ha : Moves n ((adoptTerm env m.term).leaves n) := .adoptTerm h
    have ht : ((adoptTerm env m.term).leaves n).term = m.term := Acts.term_adoptTerm hlt
    obtain ⟨_, n₁, hrun, hr⟩ := Handler.run_bind_eq_ok.mp hr
    unfold Handler.leaves at ha ht
    rw [hrun] at ha ht
    cases hr
    have hl : Moves n₁ (n₁.hearLeader env m.leader) := .hearLeader ha.indexed
    exact answerAppend_answers hl.indexed ht.symm hm

theorem party_installAssembled {buffer : Bytes} {m : InstallSnapshot} :
    (n.installAssembled env peer buffer m).2.party.Answers (.installSnapshot m)
      (.installSnapshotReply (n.installAssembled env peer buffer m).1) := by
  unfold installAssembled
  split
  case h_1 => exact ⟨rfl, .inr rfl⟩
  case h_2 =>
    split
    case isTrue  => exact ⟨rfl, .inr rfl⟩
    case isFalse => exact ⟨rfl, .inr rfl⟩

theorem receiveChunk_answers {m : InstallSnapshot} : (n.receiveChunk env peer m).2.party.Answers (.installSnapshot m)
    (.installSnapshotReply (n.receiveChunk env peer m).1) := by
  unfold receiveChunk
  split
  case h_1 => exact ⟨rfl, .inl rfl⟩
  case h_2 =>
    split
    case isTrue  => exact ⟨rfl, .inr rfl⟩
    case isFalse =>
      split
      case h_1 => exact ⟨rfl, .inr rfl⟩
      case h_2 => exact ⟨rfl, .inr rfl⟩
      case h_3 =>
        simp only
        split
        case isTrue  => exact party_installAssembled
        case isFalse => exact ⟨rfl, .inr rfl⟩

theorem onInstallSnapshot_answers {m : InstallSnapshot} {r : InstallSnapshotReply}
    (hr : (onInstallSnapshot env peer m).run n = (.ok r, n')) :
    n'.party.Answers (.installSnapshot m) (.installSnapshotReply r) := by
  unfold onInstallSnapshot Handler.run at hr
  simp only at hr
  split at hr
  case isTrue  => cases hr; exact ⟨rfl, .inr rfl⟩
  case isFalse =>
    obtain ⟨_, n₁, _, hr⟩ := Handler.run_bind_eq_ok.mp hr
    cases hr
    exact receiveChunk_answers

end
end RaftNode
end Raft
