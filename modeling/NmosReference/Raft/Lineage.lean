import NmosReference.Raft.Elections

open Protobuf Registry Ancestry

namespace Raft

namespace RaftLog

variable {α : Type} {log log' : RaftLog α} {entry entry' : Entries Bytes} {e : LogEntry α} {es : List (LogEntry α)}
variable {prev prevTerm index term j k s t : Nat} {values : List (Bytes × α)}

-- Each entry was written, after the one that the log holds before it.
def Rooted (log : RaftLog α) (entry : Entries Bytes) : Prop :=
  ∀ k e, log.entryAt? (k + 1) = some e → ∃ p, log.termAt k = .ok p ∧ entry (k + 1) e.term = some (p, e.payload)

theorem termAt_of_kept (hi : log'.snapshotIndex = log.snapshotIndex) (ht : log'.snapshotTerm = log.snapshotTerm)
    (he : ∀ e, log.entryAt? k = some e → log'.entryAt? k = some e) (h : log.termAt k = .ok t) : log'.termAt k = .ok t := by
  rcases termAt_cases h with ⟨rfl, rfl⟩ | ⟨e, hh, rfl⟩
  case inl => rw [← hi, ← ht, termAt_snapshotIndex]
  case inr => rw [termAt_entry (he e hh)]

theorem numbered_payload {first i : Nat} (h : (numbered term first values)[i]? = some e) :
    (values.map Prod.fst)[i]? = some e.payload := by
  induction values generalizing first i with
  | nil => simp [numbered] at h
  | cons value values ih =>
    obtain ⟨payload, value⟩ := value
    cases i with
    | zero   => cases h; rfl
    | succ i => exact ih h

namespace Rooted

theorem new : (new : RaftLog α).Rooted entry := by
  intro k e h
  simp [entryAt?, RaftLog.new] at h

theorem resetToSnapshot : (resetToSnapshot index term : RaftLog α).Rooted entry := by
  intro k e h
  simp [entryAt?, RaftLog.resetToSnapshot] at h

theorem mono (he : ∀ k t x, entry k t = some x → entry' k t = some x) (h : log.Rooted entry) : log.Rooted entry' := by
  intro k e hk
  obtain ⟨p, hp, hx⟩ := h k e hk
  exact ⟨p, hp, he _ _ _ hx⟩

-- What a log holds is behind what it holds later.
theorem le (hw : log.WellFormed) (h : log.Rooted entry) (hj : log.termAt j = .ok s) (hk : log.termAt k = .ok t)
    (hjk : j ≤ k) : Le entry ⟨j, s⟩ ⟨k, t⟩ := by
  have same {i s t : Nat} (h : log.termAt i = .ok s) (h' : log.termAt i = .ok t) : Le entry ⟨i, s⟩ ⟨i, t⟩ := by
    cases h.symm.trans h'
    exact .refl
  induction k generalizing t with
  | zero =>
    cases Nat.le_zero.mp hjk
    exact same hj hk
  | succ k ih =>
    rcases Nat.lt_or_ge k j with hlt | hle
    case inl =>
      obtain rfl : j = k + 1 := Nat.le_antisymm hjk hlt
      exact same hj hk
    case inr =>
      rcases termAt_cases hk with ⟨hi, _⟩ | ⟨e, he, rfl⟩
      case inl =>
        have := (termAt_le hw hj).1
        omega
      case inr =>
        obtain ⟨p, hp, hx⟩ := h k e he
        exact .step hx (ih hp hle)

theorem discarded (hw : log.WellFormed) (hs : log.snapshotIndex < index) (hl : index ≤ log.lastIndex)
    (ht : log.termAt index = .ok term) (hd : log.discardThrough index term = .ok log') (h : log.Rooted entry) :
    log'.Rooted entry := by
  have ⟨_, hi, _, hkept⟩ := RaftLog.discarded hw hs hl hd
  have hterm : log'.snapshotTerm = term := by
    rw [discardThrough_eq hw hs hl, Except.ok.injEq] at hd
    rw [← hd]
  intro k e he
  have hk := entryAt?_lt he
  rw [hi] at hk
  rw [hkept _ hk] at he
  obtain ⟨p, hp, hx⟩ := h k e he
  refine ⟨p, ?_, hx⟩
  rcases Nat.lt_or_ge index k with hlt | hge
  case inl =>
    rcases termAt_cases hp with ⟨rfl, _⟩ | ⟨e', he', rfl⟩
    case inl => omega
    case inr => rw [termAt_entry ((hkept k hlt).trans he')]
  case inr =>
    obtain rfl : k = index := by omega
    cases hp.symm.trans ht
    rw [← hi, termAt_snapshotIndex, hterm]

-- Entries that were written one after the other, behind an entry that is held.
theorem spliced (sp : Splice log prev es k log') (hw : log.WellFormed) (hs : log.snapshotIndex ≤ prev)
    (hl : prev ≤ log.lastIndex) (hf : Follow prev es) (h : log.Rooted entry)
    (hp : es ≠ [] → log.termAt prev = .ok prevTerm) (before : Nat → Nat) (hfirst : before 0 = prevTerm)
    (hnext : ∀ i e, es[i]? = some e → before (i + 1) = e.term)
    (he : ∀ i e, es[i]? = some e → entry (prev + 1 + i) e.term = some (before i, e.payload)) : log'.Rooted entry := by
  rcases Nat.lt_or_ge k es.length with hlt | hge
  case inr =>
    rw [sp.same (Nat.le_antisymm sp.le hge)]
    exact h
  case inl =>
    have ⟨hw', hi, _, _⟩ := sp.wf hw hs hl hf
    have ht : log'.snapshotTerm = log.snapshotTerm := by rw [sp.spliced hlt]
    have kept {j s : Nat} (hj : j ≤ prev + k) (h : log.termAt j = .ok s) : log'.termAt j = .ok s :=
      termAt_of_kept hi ht (fun e he => by rw [sp.kept hw hs hl hj, he]) h
    intro j e hj
    rcases Nat.lt_or_ge (prev + k) (j + 1) with hjk | hjk
    case inr =>
      rw [sp.kept hw hs hl hjk] at hj
      obtain ⟨p, hp, hx⟩ := h j e hj
      exact ⟨p, kept (by omega) hp, hx⟩
    case inl =>
      obtain ⟨i, hes⟩ := List.getElem?_of_mem (sp.appended hw hs hl hf hlt hjk hj)
      have hindex : j + 1 = prev + 1 + i := (hw'.entryAt?_index hj).symm.trans (hf i e hes)
      refine ⟨before i, ?_, hindex ▸ he i e hes⟩
      cases i with
      | zero =>
        obtain rfl : j = prev := by omega
        rw [hfirst]
        exact kept (Nat.le_add_right _ _) (hp (List.ne_nil_of_length_pos (by omega)))
      | succ i =>
        have hlen := (List.getElem?_eq_some_iff.mp hes).1
        obtain ⟨e', he', hterm, _⟩ := sp.spliced_entry hw hs hl hf (List.getElem?_eq_getElem (by omega : i < es.length))
        rw [hnext i _ (List.getElem?_eq_getElem (by omega)), ← hterm, ← termAt_entry he']
        congr 1
        omega

-- What is appended goes on from the end of the log.
theorem append (hw : log.WellFormed) (h : log.Rooted entry)
    (he : ∀ i e, (numbered term (log.lastIndex + 1) values)[i]? = some e →
      entry (log.lastIndex + 1 + i) term = some (if i = 0 then log.lastTerm else term, e.payload)) :
    (log.append term values).Rooted entry := by
  have hx := Extends.append hw term values
  have hi : (log.append term values).snapshotIndex = log.snapshotIndex := rfl
  have ht : (log.append term values).snapshotTerm = log.snapshotTerm := rfl
  have held {i : Nat} (hl : log.lastIndex < i) : (log.append term values).entryAt? i =
      (numbered term (log.lastIndex + 1) values)[i - log.lastIndex - 1]? := entryAt?_append_of_lt hw hl
  have kept {i s : Nat} (h : log.termAt i = .ok s) : (log.append term values).termAt i = .ok s :=
    termAt_of_kept hi ht (fun e => hx.entry i e) h
  intro k e hk
  rcases Nat.lt_or_ge log.lastIndex (k + 1) with hlt | hle
  case inr =>
    rw [RaftLog.append, entryAt?_append_of_le hw hle] at hk
    obtain ⟨p, hp, hx⟩ := h k e hk
    exact ⟨p, kept hp, hx⟩
  case inl =>
    rw [held hlt] at hk
    have hentry := he _ e hk
    rw [show log.lastIndex + 1 + (k + 1 - log.lastIndex - 1) = k + 1 by omega] at hentry
    rw [(getElem?_numbered hk).2]
    refine ⟨_, ?_, hentry⟩
    split
    case isTrue h0 =>
      obtain rfl : k = log.lastIndex := by omega
      exact kept hw.termAt_last
    case isFalse h0 =>
      have hlen := (List.getElem?_eq_some_iff.mp hk).1
      have hbefore := List.getElem?_eq_getElem (show k - log.lastIndex - 1 < (numbered term (log.lastIndex + 1) values).length by omega)
      rw [termAt_entry ((held (by omega)).trans hbefore), (getElem?_numbered hbefore).2]

theorem written {i : Nat} (h : log.Rooted entry) (he : log.entryAt? i = some e) : ∃ p, entry i e.term = some (p, e.payload) := by
  cases i with
  | zero   => exact absurd (entryAt?_lt he) (Nat.not_lt_zero _)
  | succ i =>
    obtain ⟨p, _, hx⟩ := h i e he
    exact ⟨p, hx⟩

-- What two logs hold at an index is the same, where it is behind something that is.
theorem agree {log₁ log₂ : RaftLog α} {f₁ f₂ : LogEntry α} (h₁ : log₁.Rooted entry) (h₂ : log₂.Rooted entry)
    (hle₁ : Le entry ⟨j, f₁.term⟩ ⟨k, t⟩) (hle₂ : Le entry ⟨j, f₂.term⟩ ⟨k, t⟩)
    (hf₁ : log₁.entryAt? j = some f₁) (hf₂ : log₂.entryAt? j = some f₂) :
    f₁.term = f₂.term ∧ f₁.payload = f₂.payload := by
  have hterm : f₁.term = f₂.term := congrArg Position.term (hle₁.eq_of_index hle₂ rfl)
  obtain ⟨p₁, hx₁⟩ := h₁.written hf₁
  obtain ⟨p₂, hx₂⟩ := h₂.written hf₂
  rw [hterm, hx₂] at hx₁
  exact ⟨hterm, (congrArg Prod.snd (Option.some.inj hx₁)).symm⟩

end Rooted
end RaftLog

-- The term of the entry before each of those in the message.
def AppendEntries.termBefore (m : AppendEntries) : Nat → Nat
  | 0     => m.prevLogTerm
  | i + 1 => (m.entries[i]?.map (·.term)).getD m.prevLogTerm

-- What the message carries was written, after the entry that the message names.
structure AppendEntries.Copied (m : AppendEntries) (entry : Entries Bytes) : Prop where
  first : m.prevLogIndex = 0 → m.entries ≠ [] → m.prevLogTerm = 0
  index : ∀ i w, m.entries[i]? = some w → w.index = m.prevLogIndex + 1 + i
  entry : ∀ i w, m.entries[i]? = some w → entry (m.prevLogIndex + 1 + i) w.term = some (m.termBefore i, w.payload)

theorem AppendEntries.Copied.mono {m : AppendEntries} {entry entry' : Entries Bytes}
    (he : ∀ k t x, entry k t = some x → entry' k t = some x) (h : m.Copied entry) : m.Copied entry' :=
  ⟨h.first, h.index, fun i w hw => he _ _ _ (h.entry i w hw)⟩

namespace Party

variable {members : List Nat} {i : Nat} {e : NodeEvent} {p p' : Party} {h h' : History} {m : AppendEntries}

-- The log of a member was written by leaders, and the leader of its term has everything of its term.
structure Linked (p : Party) (h : History) : Prop where
  wf        : p.log.WellFormed
  origin    : p.log.snapshotIndex = 0 → p.log.snapshotTerm = 0
  rooted    : p.log.Rooted h.entry
  covered   : p.log.snapshotIndex ≤ p.commitIndex
  committed : p.commitIndex ≤ p.log.lastIndex
  newest    : p.role = .leader → ∀ k x, h.entry k p.term = some x → k ≤ p.log.lastIndex

namespace Linked

theorem mono (hl : p.Linked h) (he : ∀ k t x, h.entry k t = some x → h'.entry k t = some x)
    (hn : p.role = .leader → ∀ k x, h'.entry k p.term = some x → k ≤ p.log.lastIndex) : p.Linked h' :=
  ⟨hl.wf, hl.origin, hl.rooted.mono he, hl.covered, hl.committed, hn⟩

theorem same (hl : p.Linked h) (he : h'.entry = h.entry) (hlog : p'.log = p.log) (hc : p'.commitIndex = p.commitIndex)
    (hn : p'.role = .leader → p.role = .leader ∧ p'.term = p.term) : p'.Linked h' where
  wf        := hlog ▸ hl.wf
  origin    := hlog ▸ hl.origin
  rooted    := by rw [hlog, he]; exact hl.rooted
  covered   := by rw [hlog, hc]; exact hl.covered
  committed := by rw [hlog, hc]; exact hl.committed
  newest    := by
    intro hr
    rw [hlog, (hn hr).2, he]
    exact hl.newest (hn hr).1

-- A message carries what its sender holds.
theorem copied (hl : p.Linked h) (hc : p.Carries m) : m.Copied h.entry where
  first h0 hne := by
    obtain ⟨⟨_, hn⟩ | ht, _⟩ := hc
    case inl => exact absurd hn hne
    case inr =>
      have hs := (RaftLog.termAt_le hl.wf ht).1
      have hs0 : p.log.snapshotIndex = 0 := by omega
      rw [h0, ← hs0, RaftLog.termAt_snapshotIndex] at ht
      exact (Except.ok.inj ht).symm.trans (hl.origin hs0)
  index i w hw := (hc.2 i w hw).1
  entry := by
    intro i w hw
    obtain ⟨hindex, e, he, hterm, hpayload⟩ := hc.2 i w hw
    rw [hindex, show m.prevLogIndex + 1 + i = m.prevLogIndex + i + 1 by omega] at he
    obtain ⟨p', hp, hx⟩ := hl.rooted _ e he
    rw [← hterm, ← hpayload, show m.prevLogIndex + 1 + i = m.prevLogIndex + i + 1 by omega, hx]
    suffices hbefore : p' = m.termBefore i by rw [hbefore]
    cases i with
    | zero =>
      rcases hc.1 with ⟨_, hn⟩ | ht
      case inl => rw [hn] at hw; cases hw
      case inr => exact Except.ok.inj (hp.symm.trans ht)
    | succ i =>
      have hlen := (List.getElem?_eq_some_iff.mp hw).1
      have hw' := List.getElem?_eq_getElem (by omega : i < m.entries.length)
      obtain ⟨hindex', e', he', hterm', _⟩ := hc.2 i _ hw'
      rw [hindex', show m.prevLogIndex + 1 + i = m.prevLogIndex + (i + 1) by omega] at he'
      rw [RaftLog.termAt_entry he', hterm'] at hp
      rw [AppendEntries.termBefore, hw']
      exact (Except.ok.inj hp).symm

-- What the entries before those of a message say of the log that they are spliced into.
theorem held (hl : p.Linked h) (hm : m.Copied h.entry) (hh : p.log.holds m.prevLogIndex m.prevLogTerm = true)
    (hne : m.entries ≠ []) : p.log.termAt m.prevLogIndex = .ok m.prevLogTerm := by
  rcases Nat.eq_zero_or_pos m.prevLogIndex with h0 | hpos
  case inr => exact RaftLog.termAt_of_holds hh (Nat.ne_of_gt hpos)
  case inl =>
    have hs : p.log.snapshotIndex = 0 := by
      have := (RaftLog.holds_bounds hl.wf hh).1
      omega
    rw [h0, ← hs, RaftLog.termAt_snapshotIndex, hl.origin hs, hm.first h0 hne]

theorem wire_of_entry {wires : List WireEntry} {es : List (LogEntry RegistryOperation)} {k : Nat} {x : LogEntry RegistryOperation}
    (h : List.Forall₂ (fun w e => e.term = w.term ∧ e.index = w.index ∧ e.payload = w.payload) wires es)
    (hx : es[k]? = some x) : ∃ w, wires[k]? = some w ∧ x.term = w.term ∧ x.payload = w.payload := by
  induction h generalizing k with
  | nil              => simp at hx
  | cons hwe _ ih =>
    cases k with
    | zero   => cases hx; exact ⟨_, rfl, hwe.1, hwe.2.2⟩
    | succ k => exact ih hx

theorem follow {log : RaftLog RegistryOperation} (hl : p.Linked h) (hm : m.Copied h.entry) (hf : p.Follows m log) :
    Linked { p with log, commitIndex := max p.commitIndex (min m.leaderCommit (m.prevLogIndex + m.entries.length)) } h := by
  obtain ⟨es, k, hfollow, sp, hsame⟩ := hf.spliced
  have hlen : m.entries.length = es.length := hsame.length_eq
  have ⟨hs, hp⟩ := RaftLog.holds_bounds hl.wf hf.holds
  have ⟨hw, hi, hlast, _⟩ := sp.wf hl.wf hs hp hfollow
  have hcommitted := hf.committed
  refine ⟨hw, fun h0 => ?_, ?_, ?_, ?_, fun hr => ?_⟩
  · simp only at h0 ⊢
    rcases Nat.lt_or_ge k es.length with hlt | hge
    case inl =>
      rw [sp.spliced hlt]
      exact hl.origin (hi ▸ h0)
    case inr =>
      rw [sp.same (Nat.le_antisymm sp.le hge)]
      exact hl.origin (hi ▸ h0)
  · refine .spliced sp hl.wf hs hp hfollow hl.rooted (fun hne => hl.held hm hf.holds fun hn => hne ?_) m.termBefore rfl
      (fun i e he => ?_) fun i e he => ?_
    · rwa [hn, List.length_nil, eq_comm, List.length_eq_zero_iff] at hlen
    · obtain ⟨w, hw, ht, _⟩ := wire_of_entry hsame he
      rw [AppendEntries.termBefore, hw, ht]
      rfl
    · obtain ⟨w, hw, ht, hpl⟩ := wire_of_entry hsame he
      rw [ht, hpl]
      exact hm.entry i w hw
  · simp only
    rw [hi]
    exact hl.covered.trans (Nat.le_max_left _ _)
  · simp only
    omega
  · exact absurd (hf.role.symm.trans hr) nofun

theorem quiet (hl : p.Linked h) (hq : Quiet e p p') (hm : ∀ m, e = .appendEntries m → m.Copied h.entry) : p'.Linked h := by
  cases hq
  case adopt          => exact hl.same rfl rfl rfl fun h => by cases h
  case rest hc hl'    => exact hl.same rfl rfl rfl fun hr => absurd hr hl'
  case follow m log he hf => exact hl.follow (hm m he) hf
  case commit index hr hc ht hq =>
    exact ⟨hl.wf, hl.origin, hl.rooted, hl.covered.trans (Nat.le_of_lt hc), (RaftLog.termAt_le hl.wf ht).2, hl.newest⟩
  case compact through term log hs hc ht hd =>
    have hle := (RaftLog.termAt_le hl.wf ht).2
    obtain ⟨hw, hi, hlast, _⟩ := RaftLog.discarded hl.wf hs hle hd
    refine ⟨hw, fun h0 => ?_, hl.rooted.discarded hl.wf hs hle ht hd, ?_, ?_, fun hr k x hx => ?_⟩
    · simp only at h0
      omega
    · exact hi ▸ hc
    · exact hlast ▸ hl.committed
    · exact hlast ▸ hl.newest hr k x hx
  case install peer m he ht hr hd hc =>
    refine ⟨.resetToSnapshot, fun h0 => ?_, .resetToSnapshot, le_rfl, le_rfl, fun hr' => ?_⟩
    · simp only [RaftLog.resetToSnapshot] at h0
      omega
    · cases hr.symm.trans hr'
  all_goals exact hl.same rfl rfl rfl fun hr => ⟨hr, rfl⟩

theorem fresh {saved : Nat × Option Nat} {voting : Bool} : (Party.fresh members i saved voting).Linked h :=
  ⟨.new, fun _ => rfl, .new, le_rfl, le_rfl, nofun⟩

end Linked
end Party

namespace History

variable {h : History} {i k t term : Nat} {last : Position} {payloads : List Bytes} {x : Nat × Bytes}

theorem entry_answered {p : Party} {m : Message} : (h.answered i p m).entry = h.entry := by
  unfold answered
  split
  case h_1 => split <;> rfl
  case h_2 => rfl
  case h_3 => rfl

theorem entry_create_of_ne (ht : t ≠ term) : (h.create term last payloads).entry k t = h.entry k t :=
  if_neg fun hc => ht hc.1

-- What is written behind everything of its term takes nothing away.
theorem entry_create_of_entry (hn : ∀ k x, h.entry k term = some x → k ≤ last.index) (he : h.entry k t = some x) :
    (h.create term last payloads).entry k t = some x := by
  refine (if_neg fun hc => ?_).trans he
  obtain ⟨rfl, hk, _⟩ := hc
  exact absurd (hn k x he) (Nat.not_le_of_lt hk)

theorem entry_create_some (he : (h.create term last payloads).entry k t = some x) :
    h.entry k t = some x ∨ t = term ∧ last.index < k ∧ k ≤ last.index + payloads.length ∧
      x.1 = if k = last.index + 1 then last.term else term := by
  simp only [create] at he
  split at he
  case isFalse   => exact .inl he
  case isTrue hc =>
    obtain ⟨payload, _, rfl⟩ := Option.map_eq_some_iff.mp he
    exact .inr ⟨hc.1, hc.2.1, hc.2.2, rfl⟩

end History

namespace Parties

variable {members : List Nat} {faults : Faults} {s s' : Parties} {i : Nat} {e : NodeEvent} {p : Party} {h : History}

-- Every log, and whatever is on its way to one, was written by the leaders.
structure Matching (members : List Nat) (s : Parties) : Prop extends Polled members s where
  linked  : ∀ i, (s.party i).Linked s.history
  written : ∀ k t x, s.history.entry k t = some x → s.history.leader t ≠ none
  leaving : ∀ i x m, x ∈ (s.party i).sent → x.2 = .appendEntries m → m.Copied s.history.entry
  carried : ∀ source target m, (source, target, .appendEntries m) ∈ s.network → m.Copied s.history.entry

theorem Matching.init : (init members).Matching members where
  toPolled := .init
  linked   := fun _ => ⟨.new, fun _ => rfl, .new, le_rfl, le_rfl, nofun⟩
  written  := nofun
  leaving  := nofun
  carried  := nofun

-- What the event of a member says was written.
theorem Matching.heard (hs : s.Matching members) (he : s.Heard i e) : ∀ m, e = .appendEntries m → m.Copied s.history.entry := by
  rintro m rfl
  obtain ⟨source, hm⟩ := he
  exact hs.carried source i m hm

-- One member moved, and nothing new was written.
theorem Matching.update (hs : s.Matching members)
    (hp' : Polled members { s with party := Function.update s.party i p, history := h }) (he : h.entry = s.history.entry)
    (hl : ∀ t, s.history.leader t ≠ none → h.leader t ≠ none) (hp : p.Linked h)
    (hx : ∀ x m, x ∈ p.sent → x.2 = .appendEntries m → m.Copied h.entry) :
    Matching members { s with party := Function.update s.party i p, history := h } where
  toPolled := hp'
  linked   := by
    intro j
    by_cases hj : j = i
    case pos => subst hj; simpa only [Function.update_self] using hp
    case neg =>
      simp only [Function.update_of_ne hj]
      exact (hs.linked j).mono (fun k t x hx => he ▸ hx) fun hr k x hx => (hs.linked j).newest hr k x (he ▸ hx)
  written  := fun k t x hx => hl t (hs.written k t x (he ▸ hx))
  leaving  := by
    intro j
    by_cases hj : j = i
    case pos => subst hj; simpa only [Function.update_self] using hx
    case neg =>
      simp only [Function.update_of_ne hj]
      exact fun x m hm hm' => he ▸ hs.leaving j x m hm hm'
  carried  := fun source target m hm => he ▸ hs.carried source target m hm

-- The leader wrote something, and nobody else writes for its term.
theorem Matching.append (hs : s.Matching members) {values : List (Bytes × RegistryOperation)}
    (hr : (s.party i).role = .leader) (hp : Polled members { s with
      party := Function.update s.party i { s.party i with log := (s.party i).log.append (s.party i).term values }
      history := (s.history.create (s.party i).term (s.party i).log.last (values.map Prod.fst)).ack i (s.party i).term
        ((s.party i).log.append (s.party i).term values).last }) :
    Matching members { s with
      party := Function.update s.party i { s.party i with log := (s.party i).log.append (s.party i).term values }
      history := (s.history.create (s.party i).term (s.party i).log.last (values.map Prod.fst)).ack i (s.party i).term
        ((s.party i).log.append (s.party i).term values).last } := by
  have hl := hs.linked i
  have hkept : ∀ k t x, s.history.entry k t = some x →
      (s.history.create (s.party i).term (s.party i).log.last (values.map Prod.fst)).entry k t = some x :=
    fun k t x hx => History.entry_create_of_entry (hl.newest hr) hx
  have hlast := RaftLog.Extends.append hl.wf (s.party i).term values
  have hlen : (RaftLog.numbered (s.party i).term ((s.party i).log.lastIndex + 1) values).length = values.length := by
    have numbered : ∀ (values : List (Bytes × RegistryOperation)) n,
        (RaftLog.numbered (s.party i).term n values).length = values.length := by
      intro values
      induction values with
      | nil             => exact fun _ => rfl
      | cons value _ ih => exact fun n => congrArg (· + 1) (ih (n + 1))
    exact numbered values _
  have hend : ((s.party i).log.append (s.party i).term values).lastIndex = (s.party i).log.lastIndex + values.length := by
    rw [hlast.wf.lastIndex, hl.wf.lastIndex, RaftLog.append, List.length_append, hlen]
    exact (Nat.add_assoc _ _ _).symm
  refine ⟨hp, fun j => ?_, fun k t x hx => ?_, fun j => ?_, fun so ta m hm => (hs.carried so ta m hm).mono hkept⟩
  · by_cases hj : j = i
    case pos =>
      subst hj
      simp only [Function.update_self]
      refine ⟨hlast.wf, hl.origin, ?_, hl.covered, hl.committed.trans hlast.lastIndex, fun _ k x hx => ?_⟩
      · refine .append hl.wf (hl.rooted.mono hkept) fun n e he => ?_
        have hn := (List.getElem?_eq_some_iff.mp he).1
        have hpayload := RaftLog.numbered_payload he
        simp only [History.ack, History.create, RaftLog.last, true_and]
        rw [if_pos ⟨by omega, by rw [List.length_map]; omega⟩,
          show (s.party j).log.lastIndex + 1 + n - (s.party j).log.lastIndex - 1 = n by omega, hpayload]
        simp
      · simp only at hx ⊢
        rcases History.entry_create_some hx with hx | ⟨_, _, hk, _⟩
        case inl => exact (hl.newest hr k x hx).trans hlast.lastIndex
        case inr =>
          rw [List.length_map] at hk
          exact hend ▸ hk
    case neg =>
      simp only [Function.update_of_ne hj]
      refine (hs.linked j).mono hkept fun hr' k x hx => ?_
      have ht : (s.party j).term ≠ (s.party i).term := by
        intro ht
        have hj' := (hs.stands j).led hr'
        rw [ht, (hs.stands i).led hr] at hj'
        exact hj (Option.some.inj hj').symm
      exact (hs.linked j).newest hr' k x ((History.entry_create_of_ne ht).symm.trans hx)
  · rcases History.entry_create_some hx with hx | ⟨rfl, _⟩
    case inl => exact hs.written k t x hx
    case inr =>
      have := (hs.stands i).led hr
      exact fun hn => nomatch this.symm.trans hn
  · intro x m hx hm
    by_cases hj : j = i
    case pos =>
      subst hj
      simp only [Function.update_self] at hx
      exact (hs.leaving j x m hx hm).mono hkept
    case neg =>
      simp only [Function.update_of_ne hj] at hx
      exact (hs.leaving j x m hx hm).mono hkept

theorem Matching.step (hf : ¬faults.thwarts) (hs : s.Matching members) (h : Step members faults s s') :
    s'.Matching members := by
  have hp' := (hs.toPolled.step hf h).2
  cases h
  case move i e p h _ he _ hm =>
    have hleaving : ∀ x m, x ∈ p.sent → x.2 = .appendEntries m → m.Copied s.history.entry := by
      intro x m hx hm'
      rcases sent_records hm x hx with hx | ho
      case inl => exact hs.leaving i x m hx hm'
      case inr =>
        rw [hm'] at ho
        exact (hs.linked i).copied ho.2.2.2
    cases hm
    case quiet hq => exact hs.update hp' rfl (fun _ hn => hn) ((hs.linked i).quiet hq (hs.heard he)) hleaving
    case save     => exact hs.update hp' rfl (fun _ hn => hn) ((hs.linked i).same rfl rfl rfl fun hr => ⟨hr, rfl⟩) hleaving
    case campaign => exact hs.update hp' rfl (fun _ hn => hn) ((hs.linked i).same rfl rfl rfl nofun) hleaving
    case append values hr => exact hs.append hr hp'
    case win hr hw =>
      -- Nothing was written for a term that had no leader.
      have hnone : ∀ k x, s.history.entry k (s.party i).term ≠ some x :=
        fun k x hx => hs.written k _ x hx (hs.toPolled.vacant hr hw)
      refine hs.update hp' rfl (fun t hn => ?_) ?_ hleaving
      · simp only [History.elect]
        split
        case isTrue  => exact nofun
        case isFalse => exact hn
      · have hl := hs.linked i
        exact ⟨hl.wf, hl.origin, hl.rooted, hl.covered, hl.committed, fun _ k x hx => absurd hx (hnone k x)⟩
  case flush i =>
    refine ⟨hp', fun j => ?_, hs.written, fun j x m hx hm => ?_, fun source target m hm => ?_⟩
    · by_cases hj : j = i
      case pos =>
        subst hj
        simp only [Function.update_self]
        exact (hs.linked j).same rfl rfl rfl fun hr => ⟨hr, rfl⟩
      case neg => simpa only [Function.update_of_ne hj] using hs.linked j
    · by_cases hj : j = i
      case pos =>
        subst hj
        simp [Function.update_self] at hx
      case neg =>
        simp only [Function.update_of_ne hj] at hx
        exact hs.leaving j x m hx hm
    · simp only [List.mem_append, List.mem_map, Prod.mk.injEq] at hm
      rcases hm with hm | ⟨x, hx, rfl, hm⟩
      case inl => exact hs.carried source target m hm
      case inr => exact hs.leaving _ x m hx (congrArg Prod.snd hm)
  case answer i source request reply _ hr ha =>
    have he : (s.history.answered i (s.party i) reply).entry = s.history.entry := History.entry_answered
    have hlead : (s.history.answered i (s.party i) reply).leader = s.history.leader := History.leader_answered
    refine ⟨hp', fun j => (hs.linked j).same he rfl rfl fun hr => ⟨hr, rfl⟩, fun k t x hx => ?_, fun j x m hx hm => ?_,
      fun so ta m hm => ?_⟩
    · simp only at hx ⊢
      rw [hlead]
      rw [he] at hx
      exact hs.written k t x hx
    · exact (hs.leaving j x m hx hm).mono fun k t x hx => by rwa [he]
    · rcases List.mem_append.mp hm with hm | hm
      case inl => exact (hs.carried so ta m hm).mono fun k t x hx => by rwa [he]
      case inr =>
        cases List.mem_singleton.mp hm
        cases ha
  case thwart _ hf' _ => exact absurd hf' hf
  case load i _ _     => exact hs.update hp' rfl (fun _ hn => hn) ((hs.linked i).same rfl rfl rfl fun hr => ⟨hr, rfl⟩) (hs.leaving i)
  case restart        => exact hs.update hp' rfl (fun _ hn => hn) .fresh nofun
  case begin          => exact hs.update hp' rfl (fun _ hn => hn) .fresh nofun

theorem Reaches.matching (hf : ¬faults.thwarts) (r : Reaches members faults s) : s.Matching members := by
  induction r with
  | refl         => exact .init
  | tail _ hs ih => exact ih.step hf hs

end Parties
end Raft
