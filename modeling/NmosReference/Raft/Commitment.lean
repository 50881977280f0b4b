import NmosReference.Raft.Completeness

open Protobuf Registry Ancestry

namespace Raft

namespace RaftLog

variable {α : Type} {log log' : RaftLog α} {index term t : Nat}

theorem termAt_discarded (hw : log.WellFormed) (hs : log.snapshotIndex < index) (hl : index ≤ log.lastIndex)
    (ht : log.termAt index = .ok term) (hd : log.discardThrough index term = .ok log') {k : Nat} (hk : index ≤ k)
    (h : log.termAt k = .ok t) : log'.termAt k = .ok t := by
  have ⟨_, hi, _, hkept⟩ := discarded hw hs hl hd
  have hterm : log'.snapshotTerm = term := by
    rw [discardThrough_eq hw hs hl, Except.ok.injEq] at hd
    rw [← hd]
  rcases Nat.eq_or_lt_of_le hk with rfl | hlt
  case inl =>
    cases h.symm.trans ht
    rw [← hi, termAt_snapshotIndex, hterm]
  case inr =>
    rcases termAt_cases h with ⟨rfl, _⟩ | ⟨e, he, rfl⟩
    case inl => omega
    case inr => rw [termAt_entry ((hkept k hlt).trans he)]

-- Where a log ends is not for its compaction to say.
theorem last_discarded (hw : log.WellFormed) (hs : log.snapshotIndex < index) (hl : index ≤ log.lastIndex)
    (ht : log.termAt index = .ok term) (hd : log.discardThrough index term = .ok log') : log'.last = log.last := by
  have ⟨hw', _, hlast, _⟩ := discarded hw hs hl hd
  have h := termAt_discarded hw hs hl ht hd hl hw.termAt_last
  rw [← hlast, hw'.termAt_last] at h
  rw [last, last, hlast, Except.ok.inj h]

theorem append_termAt {values : List (Bytes × α)} {k : Nat} (hw : log.WellFormed) (ht : log.termAt k = .ok t) :
    (log.append term values).termAt k = .ok t := by
  have hx := Extends.append hw term values
  exact termAt_of_kept hx.snapshotIndex rfl (hx.entry k) ht

-- The last entry is a new one, if there are any.
theorem append_lastTerm {values : List (Bytes × α)} (hw : log.WellFormed)
    (hlt : log.lastIndex < (log.append term values).lastIndex) : (log.append term values).lastTerm = term := by
  have hx := Extends.append hw term values
  have hsnapshot := (termAt_le hw hw.termAt_last).1
  obtain ⟨e, he⟩ := hx.wf.entryAt?_isSome (by rw [hx.snapshotIndex]; omega) le_rfl
  have hterm := hx.wf.termAt_last
  rw [termAt_entry he] at hterm
  have hnew := (entryAt?_append_of_lt hw hlt).symm.trans he
  rw [← Except.ok.inj hterm, (getElem?_numbered hnew).2]

-- The bar for a vote.
theorem behind_of_isAtLeastAsCurrentAs (h : log.isAtLeastAsCurrentAs index term = true) : log.last.Behind ⟨index, term⟩ := by
  unfold isAtLeastAsCurrentAs at h
  split at h
  case isTrue     => exact .inl (of_decide_eq_true h)
  case isFalse ht => exact .inr ⟨(Decidable.not_not.mp ht).symm, of_decide_eq_true h⟩

namespace Rooted

variable {entry : Entries Bytes} {k s : Nat}

theorem le_last (hw : log.WellFormed) (h : log.Rooted entry) (hk : log.termAt k = .ok t) : Le entry ⟨k, t⟩ log.last :=
  h.le hw hk hw.termAt_last (termAt_le hw hk).2

theorem written_last (hw : log.WellFormed) (h : log.Rooted entry) (hlt : log.snapshotIndex < log.lastIndex) :
    ∃ x, entry log.lastIndex log.lastTerm = some x := by
  obtain ⟨e, he⟩ := hw.entryAt?_isSome hlt le_rfl
  have hterm := hw.termAt_last
  rw [termAt_entry he] at hterm
  rw [← Except.ok.inj hterm]
  obtain ⟨k, hk⟩ : ∃ k, log.lastIndex = k + 1 := ⟨_, (Nat.succ_pred_eq_of_pos (Nat.zero_lt_of_lt hlt)).symm⟩
  rw [hk] at he ⊢
  obtain ⟨p, _, hx⟩ := h k e he
  exact ⟨_, hx⟩

-- Behind the end of a log, an index has the entry that the log holds.
theorem eq_of_le_last (hw : log.WellFormed) (h : log.Rooted entry) (hk : log.termAt k = .ok t)
    (hs : Le entry ⟨k, s⟩ log.last) : s = t :=
  congrArg Position.term (hs.eq_of_index (h.le_last hw hk) rfl)

end Rooted
end RaftLog

-- What the leader of a term sends is in its log, and what it says is committed is settled.
structure AppendEntries.Led (members : List Nat) (m : AppendEntries) (h : History) : Prop where
  leader : h.leader m.term ≠ none
  before : m.prevLogIndex ≠ 0 → On h.entry h.base m.term ⟨m.prevLogIndex, m.prevLogTerm⟩
  entry  : ∀ i w, m.entries[i]? = some w → On h.entry h.base m.term ⟨m.prevLogIndex + 1 + i, w.term⟩
  commit : m.leaderCommit = 0 ∨
    ∃ y : Position, m.leaderCommit ≤ y.index ∧ On h.entry h.base m.term y ∧ h.Settled members m.term y

namespace History

variable {members : List Nat} {h h' : History} {source : Nat} {m : Message}

-- What a message says of everything that happened.
def Meant (members : List Nat) (h : History) (source : Nat) : Message → Prop
  | .requestVote m          => m.preVote = false →
    h.ballot m.candidate m.term = some m.candidate ∧ h.stand m.candidate m.term = ⟨m.lastLogIndex, m.lastLogTerm⟩
  | .appendEntries m        => m.Led members h
  | .appendEntriesReply r   => r.success = true → r.matchIndex = 0 ∨ ∃ b, h.acked source r.term b ∧ b.index = r.matchIndex
  | .installSnapshotReply r => r.commitIndex = 0 ∨ ∃ b, h.acked source r.term b ∧ b.index = r.commitIndex
  | _                       => True

theorem Later.meant (hh : Later h h') (hl : h.Lawful members) (hm : h.Meant members source m) :
    h'.Meant members source m := by
  cases m
  case requestVote m =>
    intro hp
    have ⟨hb, hs⟩ := hm hp
    exact ⟨hh.ballot _ _ _ hb, (hh.stand _ _ hb).trans hs⟩
  case appendEntries m =>
    have on {a : Position} : On h.entry h.base m.term a → On h'.entry h'.base m.term a := hh.on hl.elected hm.leader
    refine ⟨hh.led hm.leader, fun h0 => on (hm.before h0), fun i w hw => on (hm.entry i w hw), hm.commit.imp_right ?_⟩
    exact fun ⟨y, hy, hon, hs⟩ => ⟨y, hy, on hon, hh.settled hs⟩
  case appendEntriesReply r   => exact fun hr => (hm hr).imp_right fun ⟨b, hb, hi⟩ => ⟨b, hh.acked _ _ _ hb, hi⟩
  case installSnapshotReply r => exact hm.imp_right fun ⟨b, hb, hi⟩ => ⟨b, hh.acked _ _ _ hb, hi⟩
  all_goals exact trivial

end History

namespace Party

variable {members : List Nat} {i : Nat} {e : NodeEvent} {p p' : Party} {h h' : History}

-- A member does not lose what it acknowledged, unless a leader gave it up, and has committed nothing but what was settled.
structure Steady (members : List Nat) (i : Nat) (p : Party) (h : History) : Prop where
  ground  : Le h.entry origin p.log.last
  older   : p.log.lastTerm ≤ p.term
  stood   : p.role = .candidate → h.stand i p.term = p.log.last ∧ p.log.lastTerm < p.term
  leads   : p.role = .leader → On h.entry h.base p.term p.log.last ∧ (h.base p.term).index ≤ p.log.lastIndex
  wrote   : p.role = .leader → p.log.lastTerm = p.term → h.acked i p.term p.log.last
  peers   : ∀ v ∈ p.matched.keys, v ∈ members ∧ v ≠ i
  matched : p.role = .leader → ∀ v m, p.matched.get? v = some m → m = 0 ∨ ∃ b, h.acked v p.term b ∧ m ≤ b.index
  commits : p.commitIndex = 0 ∨
    ∃ t, p.log.termAt p.commitIndex = .ok t ∧ h.Settled members p.term ⟨p.commitIndex, t⟩
  keeps   : ∀ t b a, h.acked i t b → Le h.entry a b →
    Le h.entry a p.log.last ∨ ∃ u, t < u ∧ u ≤ p.term ∧ h.Lacks u a
  acks    : ∀ t b, h.acked i t b → t ≤ p.term
  votes   : ∀ q, p.votedFor = some q →
    h.ballot q p.term = some q ∧ (h.leader p.term = none → h.Weighed i p.term (h.stand q p.term))

namespace Steady

-- A member may acknowledge what it holds.
theorem mono (hl : h.Lawful members) (hh : h.Later h')
    (ha : ∀ t b, h'.acked i t b → h.acked i t b ∨ t = p.term ∧ Le h'.entry b p.log.last) (hp : p.Stands i h)
    (hs : p.Steady members i h) : p.Steady members i h' where
  ground  := hh.le hs.ground
  older   := hs.older
  stood   := fun hr => ⟨(hh.stand i p.term (hp.tally hr).1).trans (hs.stood hr).1, (hs.stood hr).2⟩
  leads   := by
    intro hr
    have ht : h.leader p.term ≠ none := by rw [hp.led hr]; exact nofun
    exact ⟨hh.on hl.elected ht (hs.leads hr).1, by rw [hh.base hl.elected ht]; exact (hs.leads hr).2⟩
  wrote   := fun hr ht => hh.acked _ _ _ (hs.wrote hr ht)
  peers   := hs.peers
  matched := fun hr v m hm => (hs.matched hr v m hm).imp_right fun ⟨b, hb, hi⟩ => ⟨b, hh.acked _ _ _ hb, hi⟩
  commits := hs.commits.imp_right fun ⟨t, ht, hc⟩ => ⟨t, ht, hh.settled hc⟩
  keeps   := by
    intro t b a hb hle
    rcases ha t b hb with hb | ⟨_, hlast⟩
    case inr => exact .inl (hle.trans hlast)
    case inl =>
      rcases hs.keeps t b a hb ((hh.le_iff (hl.grounded i t b hb)).mp hle) with hle | ⟨u, ht, hu, hlacks⟩
      case inl => exact .inl (hh.le hle)
      case inr => exact .inr ⟨u, ht, hu, hh.lacks hl hlacks⟩
  acks    := fun t b hb => (ha t b hb).elim (hs.acks t b) fun h => Nat.le_of_eq h.1
  votes   := by
    intro q hq
    have ⟨hb, hw⟩ := hs.votes q hq
    refine ⟨hh.ballot _ _ _ hb, fun hn => ?_⟩
    have hn : h.leader p.term = none := by
      by_contra ht
      exact hh.led ht hn
    rw [hh.stand q _ hb]
    refine hh.weighed hl (fun t b hb ht => ?_) (hw hn)
    exact (ha t b hb).resolve_right fun h => Nat.ne_of_lt ht h.1

end Steady

section

variable {m : AppendEntries} {log : RaftLog RegistryOperation} (hl : h.Lawful members) (hp : p.Linked h)
variable (hc : m.Copied h.entry) (hm : m.Led members h) (hf : p.Follows m log)

include hm hf

-- Where the entries of the message end, the log is the leader's.
theorem followed_end (hp : p.Linked h) (hne : m.prevLogIndex + m.entries.length ≠ 0) :
    ∃ t, log.termAt (m.prevLogIndex + m.entries.length) = .ok t ∧
      On h.entry h.base p.term ⟨m.prevLogIndex + m.entries.length, t⟩ := by
  obtain ⟨es, k, hfollow, sp, hsame⟩ := hf.spliced
  have hlen := hsame.length_eq
  have ⟨hs, hlast⟩ := RaftLog.holds_bounds hp.wf hf.holds
  rw [← hf.term]
  rcases Nat.eq_zero_or_pos es.length with h0 | hpos
  case inl =>
    have hk : k = es.length := by
      have := sp.le
      omega
    have h0' : m.entries.length = 0 := by omega
    rw [h0', Nat.add_zero] at hne ⊢
    rw [sp.same hk]
    exact ⟨_, RaftLog.termAt_of_holds hf.holds hne, hm.before hne⟩
  case inr =>
    have hlast := List.getElem?_eq_getElem (show es.length - 1 < es.length by omega)
    obtain ⟨e', he', hterm, _⟩ := sp.spliced_entry hp.wf hs ‹_› hfollow hlast
    obtain ⟨w, hw, hwt, _⟩ := Linked.wire_of_entry hsame hlast
    have hindex : m.prevLogIndex + 1 + (es.length - 1) = m.prevLogIndex + m.entries.length := by omega
    have hon := hm.entry _ w hw
    rw [hindex] at he' hon
    exact ⟨_, RaftLog.termAt_entry he', by rw [hterm, hwt]; exact hon⟩

theorem followed_last (hp : p.Linked h) (hc : m.Copied h.entry) : log = p.log ∨ On h.entry h.base p.term log.last := by
  obtain ⟨es, k, hfollow, sp, hsame⟩ := hf.spliced
  have hlen := hsame.length_eq
  have ⟨hs, hlast⟩ := RaftLog.holds_bounds hp.wf hf.holds
  rcases Nat.lt_or_ge k es.length with hlt | hge
  case inr => exact .inl (sp.same (Nat.le_antisymm sp.le hge))
  case inl =>
    have hw' := (hp.follow hc hf).wf
    have hend : log.lastIndex = m.prevLogIndex + m.entries.length := by
      have ⟨hx, htl⟩ := sp.extends_taken hp.wf hs hlast hfollow hlt
      have htaken := (hp.wf.take (m.prevLogIndex + k - p.log.snapshotIndex)).lastIndex
      rw [htl] at htaken
      have hlog : log.lastIndex = _ := hw'.lastIndex
      rw [hlog, hx.snapshotIndex, sp.spliced hlt, List.length_append, List.length_drop]
      simp only at htaken ⊢
      omega
    obtain ⟨t, ht, hon⟩ := followed_end hm hf hp (by omega)
    have hterm := hw'.termAt_last
    rw [hend, ht] at hterm
    rw [RaftLog.last, hend, ← Except.ok.inj hterm]
    exact .inr hon

include hl hp hc

-- What the leader has of the log stays.
theorem followed_kept {a : Position} (hle : Le h.entry a p.log.last) (hon : On h.entry h.base p.term a) :
    Le h.entry a log.last := by
  rcases followed_last hm hf hp hc with rfl | hlast
  case inl => exact hle
  case inr =>
    rcases Nat.le_total a.index log.last.index with hi | hi
    case inl => exact Grown.On.le hl.grown hon hlast hi
    case inr =>
      have hback : Le h.entry log.last a := Grown.On.le hl.grown hlast hon hi
      obtain ⟨es, k, hfollow, sp, hsame⟩ := hf.spliced
      have ⟨hs, hbound⟩ := RaftLog.holds_bounds hp.wf hf.holds
      have hlinked := hp.follow hc hf
      rcases Nat.lt_or_ge k es.length with hlt | hge
      case inr =>
        rw [sp.same (Nat.le_antisymm sp.le hge)]
        exact hle
      case inl =>
        -- The first entry that replaces another one is behind the position, and so is the one that it replaces.
        have hes := List.getElem?_eq_getElem hlt
        obtain ⟨e', he', _, hnew⟩ := sp.spliced_entry hp.wf hs hbound hfollow hes
        have he' := hnew le_rfl ▸ he'
        have hnew : Le h.entry ⟨m.prevLogIndex + 1 + k, es[k].term⟩ a :=
          (RaftLog.Rooted.le_last hlinked.wf hlinked.rooted (RaftLog.termAt_entry he')).trans hback
        have hbelow : m.prevLogIndex + 1 + k ≤ p.log.lastIndex := hnew.index_le.trans hle.index_le
        obtain ⟨held, hheld⟩ := hp.wf.entryAt?_isSome (show p.log.snapshotIndex < m.prevLogIndex + 1 + k by omega) hbelow
        have hold : Le h.entry ⟨m.prevLogIndex + 1 + k, held.term⟩ a :=
          (RaftLog.Rooted.le_last hp.wf hp.rooted (RaftLog.termAt_entry hheld)).of_le hle hnew.index_le
        exact absurd (congrArg Position.term (hold.eq_of_index hnew rfl)) (sp.differ _ held hes hheld)

-- What the leader says is committed is settled here, too.
theorem followed_commits (hs : p.commitIndex = 0 ∨
    ∃ t, p.log.termAt p.commitIndex = .ok t ∧ h.Settled members p.term ⟨p.commitIndex, t⟩) :
    max p.commitIndex (min m.leaderCommit (m.prevLogIndex + m.entries.length)) = 0 ∨
      ∃ t, log.termAt (max p.commitIndex (min m.leaderCommit (m.prevLogIndex + m.entries.length))) = .ok t ∧
        h.Settled members p.term ⟨max p.commitIndex (min m.leaderCommit (m.prevLogIndex + m.entries.length)), t⟩ := by
  have hlinked := hp.follow hc hf
  rcases Nat.lt_or_ge p.commitIndex (min m.leaderCommit (m.prevLogIndex + m.entries.length)) with hlt | hge
  case inr =>
    rw [Nat.max_eq_left hge]
    refine hs.imp_right fun ⟨t, ht, hsettled⟩ => ⟨t, ?_, hsettled⟩
    obtain ⟨es, k, hfollow, sp, _⟩ := hf.spliced
    have ⟨hs, hbound⟩ := RaftLog.holds_bounds hp.wf hf.holds
    have ⟨_, hi, _, hkept⟩ := sp.wf hp.wf hs hbound hfollow
    have hterm : log.snapshotTerm = p.log.snapshotTerm := by
      rcases Nat.lt_or_ge k es.length with hlt | hge
      case inl => rw [sp.spliced hlt]
      case inr => rw [sp.same (Nat.le_antisymm sp.le hge)]
    exact RaftLog.termAt_of_kept hi hterm (fun e he => by rw [hkept _ hf.committed, he]) ht
  case inl =>
    rw [Nat.max_eq_right (Nat.le_of_lt hlt)]
    obtain ⟨t, ht, hend⟩ := followed_end hm hf hp (by omega)
    -- The log holds the index, on the way to the end of the message.
    have ⟨_, hlast⟩ := RaftLog.termAt_le hlinked.wf ht
    have hsnapshot : log.snapshotIndex ≤ p.commitIndex := by
      obtain ⟨es, k, hfollow, sp, _⟩ := hf.spliced
      have ⟨hs, hbound⟩ := RaftLog.holds_bounds hp.wf hf.holds
      rw [(sp.wf hp.wf hs hbound hfollow).2.1]
      exact hp.covered
    obtain ⟨e, he⟩ := hlinked.wf.entryAt?_isSome (Nat.lt_of_le_of_lt hsnapshot hlt)
      ((Nat.min_le_right _ _).trans hlast)
    have hte := RaftLog.termAt_entry he
    have hon : On h.entry h.base p.term ⟨min m.leaderCommit (m.prevLogIndex + m.entries.length), e.term⟩ :=
      Grown.On.down hl.grown (RaftLog.Rooted.le hlinked.wf hlinked.rooted hte ht (Nat.min_le_right _ _)) hend
    rcases hm.commit with h0 | ⟨y, hy, hyon, u, k, hu, hchosen, hle⟩
    case inl => omega
    case inr =>
      rw [hf.term] at hyon hu
      refine .inr ⟨e.term, hte, u, k, hu, hchosen, .trans ?_ hle⟩
      exact Grown.On.le hl.grown hon hyon ((Nat.min_le_left _ _).trans hy)

end

namespace Steady

-- Only the log, the term, the vote, the role, the commit index and what the peers hold matter.
theorem same (hs : p.Steady members i h) (hlog : p'.log = p.log) (ht : p'.term = p.term) (hv : p'.votedFor = p.votedFor)
    (hr : p'.role = p.role ∨ p'.role ≠ .candidate ∧ p'.role ≠ .leader) (hc : p'.commitIndex = p.commitIndex)
    (hm : p'.matched = p.matched) : p'.Steady members i h := by
  have hcandidate : p'.role = .candidate → p.role = .candidate := fun h => by
    rcases hr with hr | hr
    case inl => rw [← hr, h]
    case inr => exact absurd h hr.1
  have hleader : p'.role = .leader → p.role = .leader := fun h => by
    rcases hr with hr | hr
    case inl => rw [← hr, h]
    case inr => exact absurd h hr.2
  constructor
  case ground  => rw [hlog]; exact hs.ground
  case older   => rw [hlog, ht]; exact hs.older
  case stood   => rw [hlog, ht]; exact fun h => hs.stood (hcandidate h)
  case leads   => rw [hlog, ht]; exact fun h => hs.leads (hleader h)
  case wrote   => rw [hlog, ht]; exact fun h => hs.wrote (hleader h)
  case peers   => rw [hm]; exact hs.peers
  case matched => rw [hm, ht]; exact fun h => hs.matched (hleader h)
  case commits => rw [hlog, ht, hc]; exact hs.commits
  case keeps   => rw [hlog, ht]; exact hs.keeps
  case acks    => rw [ht]; exact hs.acks
  case votes   => rw [hv, ht]; exact hs.votes

-- The log was followed.
theorem follow {m : AppendEntries} {log : RaftLog RegistryOperation} (hl : h.Lawful members) (hp : p.Linked h)
    (hc : m.Copied h.entry) (hm : m.Led members h) (hf : p.Follows m log) (hs : p.Steady members i h) :
    Steady members i { p with
      log, commitIndex := max p.commitIndex (min m.leaderCommit (m.prevLogIndex + m.entries.length)) } h := by
  have hled : h.leader p.term ≠ none := hf.term ▸ hm.leader
  have ⟨ho, hterm⟩ := hl.based p.term hled
  have hnot {r : Role} (hr : p.role = r) (hne : r ≠ .follower) : False := hne (hr.symm.trans hf.role)
  refine ⟨?_, ?_, fun hr => (hnot hr nofun).elim, fun hr => (hnot hr nofun).elim, fun hr => (hnot hr nofun).elim, hs.peers,
    fun hr => (hnot hr nofun).elim, followed_commits hl hp hc hm hf hs.commits, fun t b a hb hle => ?_, hs.acks, hs.votes⟩
  · rcases followed_last hm hf hp hc with he | hon
    case inl => exact he ▸ hs.ground
    case inr => exact Grown.On.origin_le hl.grown ho hon
  · rcases followed_last hm hf hp hc with he | hon
    case inl => exact he ▸ hs.older
    case inr => exact Grown.On.term_le hl.grown (Nat.le_of_lt hterm) hon
  · rcases hs.keeps t b a hb hle with hkept | hlost
    case inr => exact .inr hlost
    case inl =>
      by_cases hon : On h.entry h.base p.term a
      case pos => exact .inl (followed_kept hl hp hc hm hf hkept hon)
      case neg =>
        -- The leader of this term gives it up, to whom it was not acknowledged.
        refine .inr ⟨p.term, Nat.lt_of_le_of_ne (hs.acks t b hb) ?_, le_rfl, hled, fun hle => hon (.inl hle)⟩
        rintro rfl
        exact hon (Grown.On.down hl.grown hle (hl.acked_on hb hled))

theorem vote {m : RequestVote} (hm : h.Meant members m.candidate (.requestVote m)) (hv : m.preVote = false)
    (ht : m.term = p.term) (hcurrent : p.log.isAtLeastAsCurrentAs m.lastLogIndex m.lastLogTerm = true)
    (hs : p.Steady members i h) : Steady members i { p with votedFor := some m.candidate } h := by
  refine ⟨hs.ground, hs.older, hs.stood, hs.leads, hs.wrote, hs.peers, hs.matched, hs.commits, hs.keeps, hs.acks, ?_⟩
  rintro q ⟨⟩
  have ⟨hb, hstand⟩ := hm hv
  rw [ht] at hb hstand
  refine ⟨hb, fun hn t b a hack hle hlt => ?_⟩
  rcases hs.keeps t b a hack hle with hle | ⟨u, htu, hu, hlacks⟩
  case inl => exact .inl ⟨p.log.last, hle, hs.ground, hstand ▸ RaftLog.behind_of_isAtLeastAsCurrentAs hcurrent⟩
  case inr => exact .inr ⟨u, htu, Nat.lt_of_le_of_ne hu fun he => hlacks.1 (he ▸ hn), hlacks⟩

theorem compact {through term : Nat} {log : RaftLog RegistryOperation} (hp : p.Linked h)
    (hi : p.log.snapshotIndex < through) (hc : through ≤ p.commitIndex) (ht : p.log.termAt through = .ok term)
    (hd : p.log.discardThrough through term = .ok log) (hs : p.Steady members i h) :
    Steady members i { p with log } h := by
  have hbound := (RaftLog.termAt_le hp.wf ht).2
  have hlast := RaftLog.last_discarded hp.wf hi hbound ht hd
  have hlastIndex : log.lastIndex = p.log.lastIndex := congrArg Position.index hlast
  have hlastTerm : log.lastTerm = p.log.lastTerm := congrArg Position.term hlast
  constructor
  case ground  => simp only [hlast]; exact hs.ground
  case older   => simp only [hlastTerm]; exact hs.older
  case stood   => simp only [hlast, hlastTerm]; exact hs.stood
  case leads   => simp only [hlast, hlastIndex]; exact hs.leads
  case wrote   => simp only [hlast, hlastTerm]; exact hs.wrote
  case peers   => exact hs.peers
  case matched => exact hs.matched
  case commits => exact hs.commits.imp_right fun ⟨t, h, hsettled⟩ =>
    ⟨t, RaftLog.termAt_discarded hp.wf hi hbound ht hd hc h, hsettled⟩
  case keeps   => simp only [hlast]; exact hs.keeps
  case acks    => exact hs.acks
  case votes   => exact hs.votes

-- The leader counts itself, and those that acknowledged the entry to it.
theorem chosen {index : Nat} (hl : h.Lawful members) (hp : p.Linked h) (hi : i ∈ members) (hlayout : p.layout = ⟨members, i⟩)
    (hled : h.leader p.term ≠ none) (hr : p.role = .leader) (hc : p.commitIndex < index)
    (ht : p.log.termAt index = .ok p.term) (hq : p.layout.quorum ≤ 1 + (p.matched.values.filter (index ≤ ·)).length)
    (hs : p.Steady members i h) : h.Chosen members p.term index := by
  have hle := RaftLog.Rooted.le_last hp.wf hp.rooted ht
  obtain ⟨hon, _⟩ := hs.leads hr
  have honEntry : On h.entry h.base p.term ⟨index, p.term⟩ := Grown.On.down hl.grown hle hon
  have hentry : ∃ x, h.entry index p.term = some x := by
    rcases honEntry with hb | ⟨_, hx⟩
    case inl => exact absurd (hl.grown.term_le hb) (Nat.not_le_of_lt (hl.based _ hled).2)
    case inr => exact hx
  refine ⟨hentry, i :: (p.matched.items.filter fun x => index ≤ x.2).map Prod.fst, .of_nodup ?_ ?_ ?_, ?_⟩
  · refine List.nodup_cons.mpr ⟨fun hm => ?_, p.matched.nodup.sublist (List.filter_sublist.map _)⟩
    obtain ⟨x, hx, rfl⟩ := List.mem_map.mp hm
    exact (hs.peers _ (List.mem_map_of_mem (List.mem_of_mem_filter hx))).2 rfl
  · intro m hm
    rcases List.mem_cons.mp hm with rfl | hm
    case inl => exact hi
    case inr =>
      obtain ⟨x, hx, rfl⟩ := List.mem_map.mp hm
      exact (hs.peers _ (List.mem_map_of_mem (List.mem_of_mem_filter hx))).1
  · have hlen : (p.matched.values.filter (index ≤ ·)).length = (p.matched.items.filter fun x => index ≤ x.2).length := by
      rw [Dict.values, List.filter_map, List.length_map]
      rfl
    rw [RaftLayout.quorum, RaftLayout.size, hlayout, hlen] at hq
    rw [List.length_cons, List.length_map]
    simp only at hq
    omega
  · intro v hv
    rcases List.mem_cons.mp hv with rfl | hv
    case inl => exact ⟨_, hs.wrote hr (Nat.le_antisymm hs.older (hl.grown.term_le hle)), hle⟩
    case inr =>
      obtain ⟨⟨v, m⟩, hx, rfl⟩ := List.mem_map.mp hv
      obtain ⟨hmem, hidx⟩ := List.mem_filter.mp hx
      have hidx : index ≤ m := of_decide_eq_true hidx
      rcases hs.matched hr v m (Dict.get?_eq_some.mpr hmem) with h0 | ⟨b, hb, hmb⟩
      case inl => omega
      case inr => exact ⟨b, hb, Grown.On.le hl.grown honEntry (hl.acked_on hb hled) (hidx.trans hmb)⟩

theorem commit {index : Nat} (hl : h.Lawful members) (hp : p.Linked h) (hi : i ∈ members) (hlayout : p.layout = ⟨members, i⟩)
    (hled : h.leader p.term ≠ none) (hr : p.role = .leader) (hc : p.commitIndex < index)
    (ht : p.log.termAt index = .ok p.term) (hq : p.layout.quorum ≤ 1 + (p.matched.values.filter (index ≤ ·)).length)
    (hs : p.Steady members i h) : Steady members i { p with commitIndex := index } h := by
  have hchosen := hs.chosen hl hp hi hlayout hled hr hc ht hq
  exact ⟨hs.ground, hs.older, hs.stood, hs.leads, hs.wrote, hs.peers, hs.matched,
    .inr ⟨p.term, ht, p.term, index, le_rfl, hchosen, .refl⟩, hs.keeps, hs.acks, hs.votes⟩

theorem hear {peer index : Nat} (hpeer : peer ∈ p.matched.keys)
    (hi : p.role = .leader → index = 0 ∨ ∃ b, h.acked peer p.term b ∧ index ≤ b.index) (hs : p.Steady members i h) :
    Steady members i { p with matched := p.matched.set peer index } h := by
  refine ⟨hs.ground, hs.older, hs.stood, hs.leads, hs.wrote, fun v hv => ?_, fun hr v m hm => ?_, hs.commits, hs.keeps,
    hs.acks, hs.votes⟩
  · obtain ⟨m, hm⟩ := Dict.mem_keys.mp hv
    simp only [Dict.get?_set] at hm
    split at hm
    case isTrue he => exact he ▸ hs.peers _ hpeer
    case isFalse   => exact hs.peers v (Dict.mem_keys.mpr ⟨m, hm⟩)
  · simp only [Dict.get?_set] at hm
    split at hm
    case isTrue he => cases hm; exact he ▸ hi hr
    case isFalse   => exact hs.matched hr v m hm

-- What the member is told, and by whom.
def Told (members : List Nat) (h : History) : NodeEvent → Prop
  | .requestVote m               => h.Meant members m.candidate (.requestVote m)
  | .appendEntries m             => m.Copied h.entry ∧ m.Led members h
  | .appendEntriesReply peer m   => h.Meant members peer (.appendEntriesReply m)
  | .installSnapshotReply peer m => h.Meant members peer (.installSnapshotReply m)
  | _                            => True

theorem quiet (hl : h.Lawful members) (hp : p.Linked h) (hi : i ∈ members) (hlayout : p.layout = ⟨members, i⟩)
    (hstands : p.Stands i h) (ht : Told members h e)
    (hn : ∀ peer m, e = .installSnapshot peer m → m.done = true → ¬p.commitIndex < m.lastIndex)
    (hs : p.Steady members i h) (hq : Quiet e p p') : p'.Steady members i h := by
  cases hq
  case adopt term hlt =>
    have hle : p.term ≤ term := Nat.le_of_lt hlt
    refine ⟨hs.ground, hs.older.trans hle, nofun, nofun, nofun, hs.peers, nofun, ?_, fun t b a hb hab => ?_,
      fun t b hb => (hs.acks t b hb).trans hle, nofun⟩
    · exact hs.commits.imp_right fun ⟨t, ht, u, k, hu, hc⟩ => ⟨t, ht, u, k, hu.trans hle, hc⟩
    · exact (hs.keeps t b a hb hab).imp_right fun ⟨u, htu, hu, hlacks⟩ => ⟨u, htu, hu.trans hle, hlacks⟩
  case rest role hc hl => exact hs.same rfl rfl rfl (.inr ⟨hc, hl⟩) rfl rfl
  case vote m he hpre hterm hv hcurrent =>
    subst he
    exact hs.vote ht hpre hterm hcurrent
  case follow m log he hf =>
    subst he
    exact hs.follow hl hp ht.1 ht.2 hf
  case commit index hr hc hterm hq =>
    exact hs.commit hl hp hi hlayout (by rw [hstands.led hr]; exact nofun) hr hc hterm hq
  case hear peer index hpeer hidx =>
    refine hs.hear hpeer fun hr => ?_
    rcases hidx with ⟨held, hheld, hle⟩ | ⟨m, rfl, hsuccess, hterm, _, rfl⟩ | ⟨m, rfl, hterm, _, rfl⟩
    case inl =>
      rcases hs.matched hr peer held hheld with rfl | ⟨b, hb, hi⟩
      case inl => exact .inl (Nat.le_zero.mp hle)
      case inr => exact .inr ⟨b, hb, hle.trans hi⟩
    case inr.inl =>
      rcases ht hsuccess with h0 | ⟨b, hb, hi⟩
      case inl => exact .inl (by rw [h0]; exact Nat.zero_min _)
      case inr => exact .inr ⟨b, hterm ▸ hb, hi ▸ Nat.min_le_left _ _⟩
    case inr.inr =>
      rcases ht with h0 | ⟨b, hb, hi⟩
      case inl => exact .inl (by rw [h0]; exact Nat.zero_min _)
      case inr => exact .inr ⟨b, hterm ▸ hb, hi ▸ Nat.min_le_left _ _⟩
  case compact through term log hi hc hterm hd => exact hs.compact hp hi hc hterm hd
  case install peer m he hterm hr hd hc        => exact absurd hc (hn peer m he hd)
  all_goals exact hs.same rfl rfl rfl (.inl rfl) rfl rfl

-- What a member says of its own accord is so.
theorem meant {m : Message} (hp : p.Linked h) (hv : p.Voter members i h) (hstands : p.Stands i h)
    (hl : h.Lawful members) (hs : p.Steady members i h) (ho : p.Outgoing m) : h.Meant members i m := by
  cases m
  case requestVote m =>
    intro hpre
    obtain ⟨hself, hcandidate⟩ := ho
    obtain ⟨hr, hterm, hsaved, hindex, hlastTerm⟩ := hcandidate hpre
    rw [hself, hv.self, hterm, hindex, hlastTerm]
    rw [hv.self] at hsaved
    exact ⟨hv.held _ _ hsaved, (hs.stood hr).1⟩
  case appendEntries m =>
    obtain ⟨hr, hterm, hcommit, hbefore, hentries⟩ := ho
    have on {k t : Nat} (ht : p.log.termAt k = .ok t) : On h.entry h.base m.term ⟨k, t⟩ :=
      hterm ▸ Grown.On.down hl.grown (RaftLog.Rooted.le_last hp.wf hp.rooted ht) (hs.leads hr).1
    refine ⟨by rw [hterm, hstands.led hr]; exact nofun, fun h0 => ?_, fun k w hw => ?_, ?_⟩
    · rcases hbefore with ⟨hz, _⟩ | ht
      case inl => exact absurd hz h0
      case inr => exact on ht
    · obtain ⟨hindex, e, he, ht, _⟩ := hentries k w hw
      rw [← hindex, ← ht]
      exact on (RaftLog.termAt_entry he)
    · rcases hs.commits with h0 | ⟨t, ht, hsettled⟩
      case inl => exact .inl (by omega)
      case inr => exact .inr ⟨⟨p.commitIndex, t⟩, hcommit, on ht, hterm ▸ hsettled⟩
  all_goals first | exact trivial | exact ho.elim

theorem fresh {voting : Bool} (ha : ∀ t b, ¬h.acked i t b) : (Party.fresh members i (0, none) voting).Steady members i h := by
  have hpeers : ∀ (l : List Nat) (d : Dict Nat Nat) v,
      v ∈ (l.foldl (fun matched m => matched.set m 0) d).keys → v ∈ l ∨ v ∈ d.keys := by
    intro l
    induction l with
    | nil           => exact fun _ _ hv => .inr hv
    | cons x l ih =>
      intro d v hv
      rcases ih _ v hv with hv | hv
      case inl => exact .inl (List.mem_cons_of_mem x hv)
      case inr =>
        obtain ⟨m, hm⟩ := Dict.mem_keys.mp hv
        rw [Dict.get?_set] at hm
        split at hm
        case isTrue he => exact .inl (he ▸ List.mem_cons_self)
        case isFalse   => exact .inr (Dict.mem_keys.mpr ⟨m, hm⟩)
  refine ⟨.refl, le_rfl, fun h => (by cases h), fun h => (by cases h), fun h => (by cases h), fun v hv => ?_,
    fun h => (by cases h), .inl rfl, fun t b _ hb => absurd hb (ha t b),
    fun t b hb => absurd hb (ha t b), fun _ h => by cases h⟩
  rcases hpeers _ _ v hv with hv | hv
  case inl => exact ⟨List.mem_of_mem_filter hv, of_decide_eq_true (List.mem_filter.mp hv).2⟩
  case inr => exact absurd hv List.not_mem_nil

end Steady
end Party

namespace History

variable {members : List Nat} {h h' : History} {i : Nat} {p : Party} {request reply : Message}

theorem Later.refl : h.Later h :=
  ⟨fun _ _ _ hx => hx, fun _ _ hx => hx, fun _ _ _ hx => hx, fun _ _ _ hx => hx, fun _ _ _ => rfl, fun _ _ => rfl⟩

theorem Later.trans {h'' : History} (hh : h.Later h') (hh' : h'.Later h'') : h.Later h'' where
  entry k t x hx     := hh'.entry k t x (hh.entry k t x hx)
  leader t i hi      := hh'.leader t i (hh.leader t i hi)
  ballot v t q hq    := hh'.ballot v t q (hh.ballot v t q hq)
  acked v t b hb     := hh'.acked v t b (hh.acked v t b hb)
  stand q t hq       := (hh'.stand q t (hh.ballot q t q hq)).trans (hh.stand q t hq)
  electorate t ht    := (hh'.electorate t (hh.led ht)).trans (hh.electorate t ht)

-- Where something is settled by a term, it is in the log of the term's leader, or was settled before.
theorem Lawful.settled_placed {t : Nat} {a : Position} (hl : h.Lawful members) (hs : h.Settled members t a) :
    h.Placed members t a := by
  by_cases ht : h.leader t = none
  case neg => exact .inr (.inl ⟨ht, hl.settled_on hs ht le_rfl⟩)
  case pos =>
    obtain ⟨u, k, hu, hc, hle⟩ := hs
    obtain ⟨x, hx⟩ := hc.1
    refine .inr (.inr ⟨u, Nat.lt_of_le_of_ne hu ?_, u, k, le_rfl, hc, hle⟩)
    rintro rfl
    exact hl.written _ _ _ hx ht

theorem positionOf_zero (hp : p.Linked h) : positionOf p.log 0 = origin := by
  unfold positionOf
  by_cases h0 : p.log.snapshotIndex = 0
  case pos =>
    have ht : p.log.termAt p.log.snapshotIndex = .ok p.log.snapshotTerm := RaftLog.termAt_snapshotIndex
    rw [h0, hp.origin h0] at ht
    rw [ht]
    rfl
  case neg =>
    rw [RaftLog.termAt, if_neg (Ne.symm h0), RaftLog.get, RaftLog.position, if_pos (Nat.zero_le _)]
    rfl

theorem positionOf_ok {log : RaftLog RegistryOperation} {index t : Nat} (ht : log.termAt index = .ok t) :
    positionOf log index = ⟨index, t⟩ := by
  rw [positionOf, ht]
  rfl

-- Where a member acknowledges its log: in its log, and where the leader has it, or as far as it is settled.
theorem placed_commitIndex (hl : h.Lawful members) (hp : p.Linked h) (hs : p.Steady members i h) :
    Le h.entry (positionOf p.log p.commitIndex) p.log.last ∧ h.Placed members p.term (positionOf p.log p.commitIndex) := by
  rcases hs.commits with h0 | ⟨t, ht, hsettled⟩
  case inl =>
    rw [h0, positionOf_zero hp]
    exact ⟨hs.ground, .inl rfl⟩
  case inr =>
    rw [positionOf_ok ht]
    exact ⟨RaftLog.Rooted.le_last hp.wf hp.rooted ht, hl.settled_placed hsettled⟩

theorem placed_matchIndex {m : AppendEntries} {index : Nat} (hp : p.Linked h) (hs : p.Steady members i h)
    (hm : m.Led members h) (ht : m.term = p.term) (hi : index = m.prevLogIndex + m.entries.length)
    (hx : index = 0 ∨ p.log.termAt index = .ok (Party.lastTermOf m)) :
    Le h.entry (positionOf p.log index) p.log.last ∧ h.Placed members p.term (positionOf p.log index) := by
  rcases Nat.eq_zero_or_pos index with h0 | hpos
  case inl =>
    rw [h0, positionOf_zero hp]
    exact ⟨hs.ground, .inl rfl⟩
  case inr =>
    have hterm := hx.resolve_left (Nat.ne_of_gt hpos)
    rw [positionOf_ok hterm]
    refine ⟨RaftLog.Rooted.le_last hp.wf hp.rooted hterm, .inr (.inl ⟨ht ▸ hm.leader, ?_⟩)⟩
    rw [← ht, hi]
    unfold Party.lastTermOf
    cases hlast : m.entries.getLast? with
    | none =>
      have hn : m.entries = [] := List.getLast?_eq_none_iff.mp hlast
      rw [hn, List.length_nil, Nat.add_zero] at hi ⊢
      exact hm.before (by omega)
    | some w =>
      rw [List.getLast?_eq_getElem?] at hlast
      have hlen := (List.getElem?_eq_some_iff.mp hlast).1
      have hon := hm.entry _ w hlast
      rw [show m.prevLogIndex + 1 + (m.entries.length - 1) = m.prevLogIndex + m.entries.length by omega] at hon
      exact hon

-- An answer acknowledges what the member holds.
theorem Lawful.answered {source : Nat} (hl : h.Lawful members) (hp : p.Linked h) (hv : p.Voter members i h)
    (hstands : p.Stands i h) (hs : p.Steady members i h) (hm : h.Meant members source request) (ha : p.Answers request reply) :
    (h.answered i p reply).Lawful members ∧ h.Later (h.answered i p reply) ∧
      (∀ j, j ≠ i → ∀ t b, (h.answered i p reply).acked j t b → h.acked j t b) ∧
      p.Steady members i (h.answered i p reply) ∧ (h.answered i p reply).Meant members i reply := by
  have acknowledge {index : Nat} (hle : Le h.entry (positionOf p.log index) p.log.last)
      (hplaced : h.Placed members p.term (positionOf p.log index)) :
      (h.ack i p.term (positionOf p.log index)).Lawful members ∧ h.Later (h.ack i p.term (positionOf p.log index)) ∧
        (∀ j, j ≠ i → ∀ t b, (h.ack i p.term (positionOf p.log index)).acked j t b → h.acked j t b) ∧
        p.Steady members i (h.ack i p.term (positionOf p.log index)) := by
    have hground : Le h.entry origin (positionOf p.log index) := hs.ground.of_le hle (Nat.zero_le _)
    obtain ⟨hlawful, hlater⟩ := hl.ack (fun u q hq => hv.le_term hq) hground hplaced
    refine ⟨hlawful, hlater, fun j hj t b hb => ?_, hs.mono hl hlater (fun t b hb => ?_) hstands⟩
    · exact hb.resolve_right fun h => hj h.1
    · rcases hb with hb | ⟨_, rfl, rfl⟩
      case inl => exact .inl hb
      case inr => exact .inr ⟨rfl, hle⟩
  cases reply
  case requestVoteReply r => exact ⟨hl, .refl, fun _ _ _ _ hb => hb, hs, trivial⟩
  case appendEntriesReply r =>
    by_cases hsuccess : r.success = true
    case neg =>
      have he : h.answered i p (.appendEntriesReply r) = h := if_neg hsuccess
      rw [he]
      exact ⟨hl, .refl, fun _ _ _ _ hb => hb, hs, fun h => absurd h hsuccess⟩
    case pos =>
      have he : h.answered i p (.appendEntriesReply r) = h.ack i r.term (positionOf p.log r.matchIndex) := if_pos hsuccess
      rw [he]
      obtain ⟨m, rfl, hterm, hmterm, hplace⟩ := ha hsuccess
      have hplaced : Le h.entry (positionOf p.log r.matchIndex) p.log.last ∧
          h.Placed members p.term (positionOf p.log r.matchIndex) := by
        rcases hplace with hc | ⟨hi, hx⟩
        case inl => exact hc ▸ placed_commitIndex hl hp hs
        case inr => exact placed_matchIndex hp hs hm hmterm hi hx
      have ⟨hlawful, hlater, hothers, hsteady⟩ := acknowledge hplaced.1 hplaced.2
      rw [← hterm] at hlawful hlater hothers hsteady
      exact ⟨hlawful, hlater, hothers, hsteady, fun _ => .inr ⟨_, .inr ⟨rfl, rfl, rfl⟩, rfl⟩⟩
  case installSnapshotReply r =>
    obtain ⟨hterm, hplace⟩ := ha
    have hplaced : Le h.entry (positionOf p.log r.commitIndex) p.log.last ∧
        h.Placed members p.term (positionOf p.log r.commitIndex) := by
      rcases hplace with hc | hc
      case inl =>
        rw [hc, positionOf_zero hp]
        exact ⟨hs.ground, .inl rfl⟩
      case inr => exact hc ▸ placed_commitIndex hl hp hs
    have ⟨hlawful, hlater, hothers, hsteady⟩ := acknowledge hplaced.1 hplaced.2
    rw [← hterm] at hlawful hlater hothers hsteady
    exact ⟨hlawful, hlater, hothers, hsteady, .inr ⟨_, .inr ⟨rfl, rfl, rfl⟩, rfl⟩⟩
  all_goals exact ha.elim

end History

namespace Parties

variable {members : List Nat} {faults : Faults} {s s' : Parties} {i : Nat} {e : NodeEvent} {p : Party} {h : History}

-- Everything that was agreed on is kept.
structure Complete (members : List Nat) (s : Parties) : Prop extends Matching members s where
  lawful : s.history.Lawful members
  steady : ∀ i, (s.party i).Steady members i s.history
  saying : ∀ i x, x ∈ (s.party i).sent → s.history.Meant members i x.2
  said   : ∀ source target m, (source, target, m) ∈ s.network → s.history.Meant members source m
  idle   : ∀ i, (s.party i).saved = none → ∀ t b, ¬s.history.acked i t b

theorem Complete.init : (init members).Complete members where
  toMatching := .init
  lawful     := ⟨nofun, nofun, ⟨nofun, nofun, nofun, nofun⟩, fun _ h => absurd rfl h, fun _ h => absurd rfl h, nofun,
    fun _ _ h => absurd rfl h, nofun, nofun, fun _ _ _ h => h.elim, fun _ _ _ h => h.elim⟩
  steady     := by
    intro i
    have hf : (Party.fresh members i (0, none) (members.length = 1)).Steady members i .empty := .fresh fun _ _ h => h
    exact hf.same rfl rfl rfl (.inl rfl) rfl rfl
  saying     := nofun
  said       := nofun
  idle       := fun _ _ _ _ h => h

theorem Complete.told (hs : s.Complete members) (he : s.Heard i e) : Party.Steady.Told members s.history e := by
  cases e
  case requestVote m =>
    obtain ⟨source, hm⟩ := he
    exact hs.said source i _ hm
  case appendEntries m =>
    obtain ⟨source, hm⟩ := he
    exact ⟨hs.carried source i m hm, hs.said source i _ hm⟩
  case appendEntriesReply peer m   => exact hs.said peer i _ he
  case installSnapshotReply peer m => exact hs.said peer i _ he
  all_goals exact trivial

-- One member moved, and the others go on.
theorem Complete.update (hs : s.Complete members)
    (hm : Matching members { s with party := Function.update s.party i p, history := h }) (hl : h.Lawful members)
    (hh : s.history.Later h) (ha : ∀ j, j ≠ i → ∀ t b, h.acked j t b → s.history.acked j t b) (hp : p.Steady members i h)
    (hx : ∀ x ∈ p.sent, h.Meant members i x.2) (hi : p.saved = none → ∀ t b, ¬h.acked i t b) :
    Complete members { s with party := Function.update s.party i p, history := h } where
  toMatching := hm
  lawful     := hl
  steady     := by
    intro j
    by_cases hj : j = i
    case pos => subst hj; simpa only [Function.update_self] using hp
    case neg =>
      simp only [Function.update_of_ne hj]
      exact (hs.steady j).mono hs.lawful hh (fun t b hb => .inl (ha j hj t b hb)) (hs.stands j)
  saying     := by
    intro j
    by_cases hj : j = i
    case pos => subst hj; simpa only [Function.update_self] using hx
    case neg =>
      simp only [Function.update_of_ne hj]
      exact fun x hx => hh.meant hs.lawful (hs.saying j x hx)
  said       := fun source target m hm => hh.meant hs.lawful (hs.said source target m hm)
  idle       := by
    intro j
    by_cases hj : j = i
    case pos => subst hj; simpa only [Function.update_self] using hi
    case neg =>
      simp only [Function.update_of_ne hj]
      exact fun hn t b hb => hs.idle j hn t b (ha j hj t b hb)

-- A campaign is no worse than what the member acknowledged.
theorem Complete.weighed (hs : s.Complete members) :
    s.history.Weighed i ((s.party i).term + 1) (s.party i).log.last := by
  intro t b a hb hle _
  rcases (hs.steady i).keeps t b a hb hle with hle | ⟨u, htu, hu, hlacks⟩
  case inl => exact .inl ⟨_, hle, (hs.steady i).ground, .inr ⟨rfl, le_rfl⟩⟩
  case inr => exact .inr ⟨u, htu, Nat.lt_succ_of_le hu, hlacks⟩

end Parties
end Raft
