import NmosReference.Raft.ClusterRefines

open Protobuf Registry

namespace Raft

namespace History

variable {h h' h'' : History} {i j v t t' q : Nat} {vote : Option Nat}

-- Nothing that was remembered is forgotten, and a member writes of its own votes and its own leadership.
structure Grows (i : Nat) (h h' : History) : Prop where
  ballot  : ∀ v t q, h.ballot v t = some q → h'.ballot v t = some q
  others  : ∀ v, v ≠ i → h'.ballot v = h.ballot v

theorem Grows.refl : Grows i h h :=
  ⟨fun _ _ _ hq => hq, fun _ _ => rfl⟩

theorem ballot_cast : (h.cast i t vote).ballot i t' = if t' = t then vote.or (h.ballot i t') else h.ballot i t' := by
  simp [cast]

theorem ballot_cast_of_ne (hv : v ≠ i) : (h.cast i t vote).ballot v = h.ballot v := by
  funext t'
  simp [cast, hv]

-- A vote is cast once.
theorem Grows.cast (hq : ∀ q, h.ballot i t = some q → vote = none ∨ vote = some q) : Grows i h (h.cast i t vote) := by
  refine ⟨fun v t' q hv => ?_, fun v hv => ballot_cast_of_ne hv⟩
  by_cases hi : v = i
  case neg => rw [ballot_cast_of_ne hi, hv]
  case pos =>
    subst hi
    rw [ballot_cast]
    split
    case isFalse => exact hv
    case isTrue ht =>
      subst ht
      rcases hq q hv with rfl | rfl
      case inl => simpa using hv
      case inr => simp

theorem ballot_answered {p : Party} {m : Message} : (h.answered i p m).ballot = h.ballot := by
  unfold answered
  split
  case h_1 => split <;> rfl
  case h_2 => rfl
  case h_3 => rfl

theorem leader_answered {p : Party} {m : Message} : (h.answered i p m).leader = h.leader := by
  unfold answered
  split
  case h_1 => split <;> rfl
  case h_2 => rfl
  case h_3 => rfl

end History

namespace Party

variable {members : List Nat} {i : Nat} {e : NodeEvent} {p p' : Party} {h h' : History}

-- What the state file holds of a member's votes is behind the member, and ahead of everything that was ever in it.
structure Voter (members : List Nat) (i : Nat) (p : Party) (h : History) : Prop where
  layout : p.layout = ⟨members, i⟩
  saved  : ∀ s, p.saved = some s → s.1 ≤ p.term ∧ (s.1 = p.term → s.2 = none ∨ s.2 = p.votedFor)
  kept   : ∀ t q, h.ballot i t = some q → ∃ s, p.saved = some s ∧ (t < s.1 ∨ t = s.1 ∧ s.2 = some q)
  held   : ∀ t q, p.saved = some (t, some q) → h.ballot i t = some q

namespace Voter

theorem self (hv : p.Voter members i h) : p.self = i := by
  rw [Party.self, hv.layout]

theorem le_term {t q : Nat} (hv : p.Voter members i h) (hb : h.ballot i t = some q) : t ≤ p.term := by
  obtain ⟨s, hs, ht | ⟨ht, _⟩⟩ := hv.kept t q hb
  case inl => exact (Nat.le_of_lt ht).trans (hv.saved s hs).1
  case inr => exact ht ▸ (hv.saved s hs).1

theorem votedFor {q : Nat} (hv : p.Voter members i h) (hb : h.ballot i p.term = some q) : p.votedFor = some q := by
  obtain ⟨s, hs, ht | ⟨ht, hq⟩⟩ := hv.kept p.term q hb
  case inl => exact absurd (hv.saved s hs).1 (Nat.not_le_of_lt ht)
  case inr =>
    rcases (hv.saved s hs).2 ht.symm with hn | he
    case inl => rw [hq] at hn; cases hn
    case inr => rw [← he, hq]

-- A member that is left alone keeps its votes.
theorem mono (hv : p.Voter members i h) (hg : h'.ballot i = h.ballot i) : p.Voter members i h' :=
  ⟨hv.layout, hv.saved, fun t q hb => hv.kept t q (hg ▸ hb), fun t q hs => hg ▸ hv.held t q hs⟩

theorem save (hv : p.Voter members i h) :
    Voter members i { p with saved := some (p.term, p.votedFor) } (h.cast i p.term p.votedFor) ∧
      h.Grows i (h.cast i p.term p.votedFor) := by
  refine ⟨⟨hv.layout, ?saved, ?kept, ?held⟩, .cast fun q hb => .inr (hv.votedFor hb)⟩
  case saved =>
    rintro s ⟨⟩
    exact ⟨le_rfl, fun _ => .inr rfl⟩
  case kept =>
    intro t q hb
    rw [History.ballot_cast] at hb
    refine ⟨_, rfl, ?_⟩
    split at hb
    case isFalse ht => exact .inl (Nat.lt_of_le_of_ne (hv.le_term hb) ht)
    case isTrue ht  =>
      subst ht
      refine .inr ⟨rfl, ?_⟩
      cases hf : p.votedFor with
      | some q' => rw [hf] at hb; exact hb
      | none    =>
        rw [hf, Option.none_or] at hb
        rw [hv.votedFor hb] at hf
        cases hf
  case held =>
    intro t q hs
    simp only [Option.some.injEq, Prod.mk.injEq] at hs
    rw [History.ballot_cast, if_pos hs.1.symm, hs.2]
    rfl

-- Standing, the member votes for itself in a term that it has not been in before.
theorem stand (role : Role) (votes forgotten : List Nat) (hv : p.Voter members i h) :
    Voter members i { p with
      role, term := p.term + 1, votedFor := some p.self, saved := some (p.term + 1, some p.self), votes, forgotten }
        (h.cast i (p.term + 1) (some p.self)) ∧ h.Grows i (h.cast i (p.term + 1) (some p.self)) := by
  have fresh : ∀ q, h.ballot i (p.term + 1) ≠ some q := fun q hb => absurd (hv.le_term hb) (Nat.not_succ_le_self _)
  refine ⟨⟨hv.layout, ?saved, ?kept, ?held⟩, .cast fun q hb => absurd hb (fresh q)⟩
  case saved =>
    rintro s ⟨⟩
    exact ⟨le_rfl, fun _ => .inr rfl⟩
  case kept =>
    intro t q hb
    rw [History.ballot_cast] at hb
    refine ⟨_, rfl, ?_⟩
    split at hb
    case isTrue ht => exact .inr ⟨ht, by simpa using hb⟩
    case isFalse   => exact .inl (Nat.lt_succ_of_le (hv.le_term hb))
  case held =>
    intro t q hs
    simp only [Option.some.injEq, Prod.mk.injEq] at hs
    rw [History.ballot_cast, if_pos hs.1.symm, hs.2]
    rfl

theorem quiet (hv : p.Voter members i h) (hq : Quiet e p p') : p'.Voter members i h := by
  cases hq
  case adopt term ht =>
    refine ⟨hv.layout, fun s hs => ?_, hv.kept, hv.held⟩
    have := (hv.saved s hs).1
    exact ⟨this.trans (Nat.le_of_lt ht), fun he => absurd he (Nat.ne_of_lt (Nat.lt_of_le_of_lt this ht))⟩
  case vote m _ _ _ hf _ =>
    refine ⟨hv.layout, fun s hs => ⟨(hv.saved s hs).1, fun he => ?_⟩, hv.kept, hv.held⟩
    rcases (hv.saved s hs).2 he with hn | hn
    case inl => exact .inl hn
    case inr =>
      rcases hf with hf | hf
      case inl => exact .inl (hn.trans hf)
      case inr => exact .inr (hn.trans hf)
  all_goals exact ⟨hv.layout, hv.saved, hv.kept, hv.held⟩

theorem records (hv : p.Voter members i h) (hr : Records i e p h p' h') : p'.Voter members i h' ∧ h.Grows i h' := by
  cases hr
  case quiet hq => exact ⟨hv.quiet hq, .refl⟩
  case save     => exact hv.save
  case campaign =>
    have ⟨hv', hg⟩ := hv.stand .candidate [p.self] []
    exact ⟨hv'.mono rfl, ⟨hg.ballot, hg.others⟩⟩
  case win      => exact ⟨⟨hv.layout, hv.saved, hv.kept, hv.held⟩, ⟨fun _ _ _ hq => hq, fun _ _ => rfl⟩⟩
  case append   => exact ⟨⟨hv.layout, hv.saved, hv.kept, hv.held⟩, ⟨fun _ _ _ hq => hq, fun _ _ => rfl⟩⟩

theorem stood (hv : p.Voter members i h) (hs : p.Stood p') :
    p'.Voter members i (h.cast i p'.term (if p'.saved = p.saved then none else p'.votedFor)) ∧
      h.Grows i (h.cast i p'.term (if p'.saved = p.saved then none else p'.votedFor)) := by
  obtain ⟨saved, hsaved, rfl⟩ := hs
  simp only
  by_cases he : saved = p.saved
  case pos =>
    subst he
    rw [if_pos rfl]
    have same : (h.cast i (p.term + 1) none).ballot = h.ballot := by
      funext v t
      simp [History.cast]
    refine ⟨⟨hv.layout, fun s hs => ?_, ?_, ?_⟩, ⟨fun v t q hq => same ▸ hq, fun v _ => by rw [same]⟩⟩
    · have := (hv.saved s hs).1
      exact ⟨by simp only; omega, fun he => by simp only at he; omega⟩
    · rw [same]
      exact hv.kept
    · rw [same]
      exact hv.held
  case neg =>
    cases hsaved.resolve_left he
    rw [if_neg he]
    exact hv.stand _ _ _

theorem fresh {saved : Nat × Option Nat} {voting : Bool} (hv : p.Voter members i h) (hs : p.saved = some saved) :
    (Party.fresh members i saved voting).Voter members i h where
  layout := rfl
  saved  := by
    rintro s ⟨⟩
    exact ⟨le_rfl, fun _ => .inr rfl⟩
  kept   := by
    intro t q hb
    obtain ⟨s, hs', ht⟩ := hv.kept t q hb
    cases hs.symm.trans hs'
    exact ⟨saved, rfl, ht⟩
  held   := fun t q hq => hv.held t q (hs.trans hq)

-- A member without a state file has not voted.
theorem none_ballot {t q : Nat} (hv : p.Voter members i h) (hs : p.saved = none) : h.ballot i t ≠ some q := by
  intro hb
  obtain ⟨s, hs', _⟩ := hv.kept t q hb
  rw [hs] at hs'
  cases hs'

end Voter

-- How a member that wants to lead stands. Its votes are those that were cast for it.
structure Stands (i : Nat) (p : Party) (h : History) : Prop where
  tally : p.role = .candidate → h.ballot i p.term = some i ∧ ∀ v ∈ p.votes, h.ballot v p.term = some i
  led   : p.role = .leader → h.leader p.term = some i
  past  : p.role = .candidate → h.leader p.term ≠ some i

end Party

-- A leader was elected by a majority, itself among them.
def History.Elected (members : List Nat) (h : History) : Prop :=
  ∀ t i, h.leader t = some i → h.ballot i t = some i ∧ Quorum.IsMajority members fun m => h.ballot m t = some i

-- A term has one leader.
theorem History.Elected.unique {members : List Nat} {h : History} {t i j : Nat} (he : h.Elected members)
    (hi : h.leader t = some i) (hj : Quorum.IsMajority members fun m => h.ballot m t = some j) : j = i := by
  obtain ⟨m, _, hm, hm'⟩ := (he t i hi).2.meets hj
  have hm := of_decide_eq_true hm
  rw [of_decide_eq_true hm'] at hm
  exact Option.some.inj hm

namespace Parties

variable {members : List Nat} {faults : Faults} {s s' : Parties} {i : Nat} {e : NodeEvent} {p : Party}

-- Votes are asked for by those they are for, and given once.
structure Voting (members : List Nat) (s : Parties) : Prop where
  voter     : ∀ i, (s.party i).Voter members i s.history
  posted    : ∀ i x m, x ∈ (s.party i).sent → x.2 = .requestVote m → m.candidate = i
  requested : ∀ source target m, (source, target, .requestVote m) ∈ s.network → m.candidate = source
  granted   : ∀ v q r, (v, q, .requestVoteReply r) ∈ s.network → r.granted = true → r.preVote = false →
    s.history.ballot v r.term = some q
  replied   : ∀ i x r, x ∈ (s.party i).sent → x.2 ≠ .requestVoteReply r

theorem Voting.init : (init members).Voting members where
  voter     := fun _ => ⟨rfl, nofun, nofun, nofun⟩
  posted    := nofun
  requested := nofun
  granted   := nofun
  replied   := nofun

-- What was sent before, and what an own message says.
theorem sent_records {j : Nat} {p p' : Party} {h h' : History} (hr : Party.Records j e p h p' h') :
    ∀ x ∈ p'.sent, x ∈ p.sent ∨ p.Outgoing x.2 := by
  cases hr
  case quiet hq =>
    cases hq
    case post peer m ho =>
      intro x hx
      rcases List.mem_append.mp hx with hx | hx
      case inl => exact .inl hx
      case inr => exact .inr (List.mem_singleton.mp hx ▸ ho)
    all_goals exact fun x hx => .inl hx
  all_goals exact fun x hx => .inl hx

-- One member moved, and the others know of its votes.
theorem Voting.update {h : History} (hs : s.Voting members) (hv : p.Voter members i h) (hg : s.history.Grows i h)
    (hp : ∀ x m, x ∈ p.sent → x.2 = .requestVote m → m.candidate = i) (hr : ∀ x r, x ∈ p.sent → x.2 ≠ .requestVoteReply r) :
    Voting members { s with party := Function.update s.party i p, history := h } where
  voter := by
    intro j
    by_cases hj : j = i
    case pos => subst hj; simpa only [Function.update_self] using hv
    case neg => simpa only [Function.update_of_ne hj] using (hs.voter j).mono (hg.others j hj)
  posted := by
    intro j
    by_cases hj : j = i
    case pos => subst hj; simpa only [Function.update_self] using hp
    case neg => simpa only [Function.update_of_ne hj] using hs.posted j
  requested := hs.requested
  granted   := fun v q r hm hgr hp => hg.ballot _ _ _ (hs.granted v q r hm hgr hp)
  replied := by
    intro j
    by_cases hj : j = i
    case pos => subst hj; simpa only [Function.update_self] using hr
    case neg => simpa only [Function.update_of_ne hj] using hs.replied j

theorem Voting.step (hs : s.Voting members) (h : Step members faults s s') : s'.Voting members := by
  cases h
  case move i e p h _ _ _ hm =>
    have ⟨hv, hg⟩ := (hs.voter i).records hm
    refine hs.update hv hg (fun x m hx he => ?_) fun x r hx he => ?_
    · rcases sent_records hm x hx with hx | ho
      case inl => exact hs.posted i x m hx he
      case inr => rw [he] at ho; exact ho.1.trans (hs.voter i).self
    · rcases sent_records hm x hx with hx | ho
      case inl => exact hs.replied i x r hx he
      case inr => rw [he] at ho; exact ho
  case flush i =>
    have hu : Voting members { s with party := Function.update s.party i { s.party i with sent := [] } } :=
      hs.update ⟨(hs.voter i).layout, (hs.voter i).saved, (hs.voter i).kept, (hs.voter i).held⟩ .refl nofun nofun
    refine ⟨hu.voter, hu.posted, fun source target m hm => ?_, fun v q r hm => ?_, hu.replied⟩
    · simp only [List.mem_append, List.mem_map, Prod.mk.injEq] at hm
      rcases hm with hm | ⟨x, hx, rfl, rfl⟩
      case inl => exact hs.requested source target m hm
      case inr => exact hs.posted _ _ m hx rfl
    · simp only [List.mem_append, List.mem_map, Prod.mk.injEq] at hm
      rcases hm with hm | ⟨x, hx, rfl, rfl⟩
      case inl => exact hs.granted v q r hm
      case inr => exact absurd rfl (hs.replied _ _ r hx)
  case answer i source request reply _ hr ha =>
    refine ⟨fun j => (hs.voter j).mono (by rw [History.ballot_answered]), hs.posted, fun so target m hm => ?_,
      fun v q r hm hg hp => ?_, hs.replied⟩
    · rcases List.mem_append.mp hm with hm | hm
      case inl => exact hs.requested so target m hm
      case inr =>
        cases List.mem_singleton.mp hm
        cases ha
    · rw [History.ballot_answered]
      rcases List.mem_append.mp hm with hm | hm
      case inl => exact hs.granted v q r hm hg hp
      case inr =>
        cases List.mem_singleton.mp hm
        obtain ⟨m, rfl, _, ht, _, _, hsaved⟩ := ha hg hp
        rw [ht, ← hs.requested source _ m hr]
        exact (hs.voter _).held _ _ hsaved
  case thwart i p _ _ hst =>
    have ⟨hv, hg⟩ := (hs.voter i).stood hst
    obtain ⟨saved, _, rfl⟩ := hst
    exact hs.update hv hg (hs.posted i) (hs.replied i)
  case load i _ hn =>
    have hv := hs.voter i
    refine hs.update ⟨hv.layout, ?_, fun t q hb => absurd hb (hv.none_ballot hn), nofun⟩ .refl (hs.posted i) (hs.replied i)
    rintro s ⟨⟩
    exact ⟨Nat.zero_le _, fun _ => .inl rfl⟩
  case restart i saved voting _ _ hsaved => exact hs.update ((hs.voter i).fresh hsaved) .refl nofun nofun
  case begin i voting _ hn =>
    have hv := hs.voter i
    refine hs.update ⟨rfl, ?_, fun t q hb => absurd hb (hv.none_ballot hn), nofun⟩ .refl nofun nofun
    rintro s ⟨⟩
    exact ⟨le_rfl, fun _ => .inr rfl⟩

theorem Reaches.voting (r : Reaches members faults s) : s.Voting members := by
  induction r with
  | refl         => exact .init
  | tail _ hs ih => exact ih.step hs

end Parties

namespace Party

variable {members : List Nat} {i : Nat} {e : NodeEvent} {p p' : Party} {h h' : History}

namespace Stands

theorem idle (hc : p.role ≠ .candidate) (hl : p.role ≠ .leader) : p.Stands i h :=
  ⟨fun h => absurd h hc, fun h => absurd h hl, fun h => absurd h hc⟩

-- A vote more, if it was cast for the member.
theorem quiet (hs : p.Stands i h) (hq : Quiet e p p') (hv : ∀ peer m, e = .requestVoteReply peer m → m.preVote = false →
    m.granted = true → m.term = p.term → h.ballot peer p.term = some i) : p'.Stands i h := by
  cases hq
  case adopt => exact idle nofun nofun
  case rest hc hl => exact idle hc hl
  case clear => exact ⟨fun hr => ⟨(hs.tally hr).1, nofun⟩, hs.led, hs.past⟩
  case count peer m he hp hr ht =>
    refine ⟨fun _ => ⟨(hs.tally hr).1, fun v hm => ?_⟩, hs.led, hs.past⟩
    simp only at hm
    split at hm
    case isFalse => exact (hs.tally hr).2 v hm
    case isTrue hg =>
      rcases List.mem_insert_iff.mp hm with rfl | hm
      case inl => exact hv v m he hp hg ht
      case inr => exact (hs.tally hr).2 v hm
  all_goals exact ⟨hs.tally, hs.led, hs.past⟩

-- A member that is left alone stands as it stood.
theorem mono (hs : p.Stands i h) (hb : ∀ v t q, h.ballot v t = some q → h'.ballot v t = some q)
    (hl : h'.leader = h.leader) : p.Stands i h' where
  tally hr := ⟨hb _ _ _ (hs.tally hr).1, fun v hv => hb _ _ _ ((hs.tally hr).2 v hv)⟩
  led hr   := hl ▸ hs.led hr
  past hr  := hl ▸ hs.past hr

-- Only the term, the role and the votes matter.
theorem same (hs : p.Stands i h) (ht : p'.term = p.term) (hr : p'.role = p.role) (hv : p'.votes = p.votes) : p'.Stands i h where
  tally hc := by rw [ht, hv]; exact hs.tally (hr ▸ hc)
  led hl   := by rw [ht]; exact hs.led (hr ▸ hl)
  past hc  := by rw [ht]; exact hs.past (hr ▸ hc)

end Stands
end Party

-- Leaders stay remembered, whatever is voted besides.
theorem History.Elected.mono {members : List Nat} {h h' : History} (he : h.Elected members)
    (hb : ∀ v t q, h.ballot v t = some q → h'.ballot v t = some q) (hl : h'.leader = h.leader) : h'.Elected members := by
  intro t i hi
  obtain ⟨hi, hm⟩ := he t i (hl ▸ hi)
  exact ⟨hb _ _ _ hi, hm.mono fun m _ hm => decide_eq_true (hb _ _ _ (of_decide_eq_true hm))⟩

namespace Parties

variable {members : List Nat} {faults : Faults} {s s' : Parties} {i : Nat} {e : NodeEvent} {p : Party}

-- Without campaigns that are not saved, whoever leads was elected.
structure Polled (members : List Nat) (s : Parties) : Prop extends Voting members s where
  stands  : ∀ i, (s.party i).Stands i s.history
  elected : s.history.Elected members

theorem Polled.init : (init members).Polled members where
  toVoting := .init
  stands   := fun _ => .idle nofun nofun
  elected  := nofun

theorem Polled.update {h : History} (hs : s.Polled members)
    (hv : Voting members { s with party := Function.update s.party i p, history := h }) (hp : p.Stands i h)
    (hb : ∀ v t q, s.history.ballot v t = some q → h.ballot v t = some q) (hl : h.leader = s.history.leader) :
    Polled members { s with party := Function.update s.party i p, history := h } where
  toVoting := hv
  stands   := by
    intro j
    by_cases hj : j = i
    case pos => subst hj; simpa only [Function.update_self] using hp
    case neg => simpa only [Function.update_of_ne hj] using (hs.stands j).mono hb hl
  elected  := History.Elected.mono hs.elected hb hl


theorem Polled.majority (hs : s.Polled members) (hr : (s.party i).role = .candidate) (hw : (s.party i).Elected) :
    Quorum.IsMajority members fun m => s.history.ballot m (s.party i).term = some i := by
  rw [Party.Elected, Party.members, (hs.voter i).layout] at hw
  exact hw.mono fun m _ hm => decide_eq_true (((hs.stands i).tally hr).2 m (of_decide_eq_true hm))

-- A term in which a member can be elected has no leader.
theorem Polled.vacant (hs : s.Polled members) (hr : (s.party i).role = .candidate) (hw : (s.party i).Elected) :
    s.history.leader (s.party i).term = none := by
  refine Option.eq_none_iff_forall_ne_some.mpr fun j hj => ?_
  cases hs.elected.unique hj (hs.majority hr hw)
  exact (hs.stands i).past hr hj

-- The votes of a majority make a leader, and no other has them.
theorem Polled.win (hs : s.Polled members) (hr : (s.party i).role = .candidate) (hw : (s.party i).Elected) :
    (∀ t j, s.history.leader t = some j → (s.history.elect i (s.party i).term (s.party i).votes).leader t = some j) ∧
      Polled members { s with
        party := Function.update s.party i { s.party i with
          role := .leader, voting := true, matched := (s.party i).matched.map fun _ _ => 0 }
        history := s.history.elect i (s.party i).term (s.party i).votes } := by
  have hnone := hs.vacant hr hw
  have hleader : ∀ t, (s.history.elect i (s.party i).term (s.party i).votes).leader t =
      if t = (s.party i).term then some i else s.history.leader t := fun _ => rfl
  have hkept : ∀ t j, s.history.leader t = some j →
      (s.history.elect i (s.party i).term (s.party i).votes).leader t = some j := by
    intro t j hj
    rw [hleader, if_neg, hj]
    rintro rfl
    rw [hnone] at hj
    cases hj
  refine ⟨hkept, ?_, ?_, ?_⟩
  · exact hs.toVoting.update ⟨(hs.voter i).layout, (hs.voter i).saved, (hs.voter i).kept, (hs.voter i).held⟩
      ⟨fun _ _ _ hq => hq, fun _ _ => rfl⟩ (hs.posted i) (hs.replied i)
  · intro j
    by_cases hj : j = i
    case pos =>
      subst hj
      simp only [Function.update_self]
      exact ⟨nofun, fun _ => by rw [hleader, if_pos rfl], nofun⟩
    case neg =>
      simp only [Function.update_of_ne hj]
      refine ⟨(hs.stands j).tally, fun hl => hkept _ _ ((hs.stands j).led hl), fun hc hl => ?_⟩
      rw [hleader] at hl
      split at hl
      case isTrue  => exact hj (Option.some.inj hl).symm
      case isFalse => exact (hs.stands j).past hc hl
  · intro t j hj
    rw [hleader] at hj
    split at hj
    case isFalse  => exact hs.elected t j hj
    case isTrue h =>
      cases hj
      exact ⟨h ▸ ((hs.stands i).tally hr).1, h ▸ hs.majority hr hw⟩

theorem Polled.step (hf : ¬faults.thwarts) (hs : s.Polled members) (h : Step members faults s s') :
    (∀ t j, s.history.leader t = some j → s'.history.leader t = some j) ∧ s'.Polled members := by
  have hv := hs.toVoting.step h
  cases h
  case move i e p h _ he _ hm =>
    have hb : ∀ v t q, s.history.ballot v t = some q → h.ballot v t = some q := ((hs.voter i).records hm).2.ballot
    cases hm
    case quiet hq =>
      refine ⟨fun _ _ hj => hj, hs.update hv ((hs.stands i).quiet hq ?_) hb rfl⟩
      rintro peer m rfl hp hg ht
      rw [← ht]
      exact hs.granted peer i m he hg hp
    case save => exact ⟨fun _ _ hj => hj, hs.update hv (((hs.stands i).mono hb rfl).same rfl rfl rfl) hb rfl⟩
    case campaign =>
      refine ⟨fun _ _ hj => hj, hs.update hv ⟨fun _ => ?_, nofun, fun _ hl => ?_⟩ hb rfl⟩
      · have hself : ((s.history.cast i ((s.party i).term + 1) (some (s.party i).self)).standing i ((s.party i).term + 1)
            (s.party i).log.last).ballot i ((s.party i).term + 1) = some i := by
          simp [History.standing, History.cast, (hs.voter i).self]
        refine ⟨hself, fun v hv => ?_⟩
        obtain rfl : v = i := (List.mem_singleton.mp hv).trans (hs.voter i).self
        exact hself
      · exact absurd ((hs.voter i).le_term (hs.elected _ _ hl).1) (Nat.not_succ_le_self _)
    case win hr hw    => exact hs.win hr hw
    case append => exact ⟨fun _ _ hj => hj, hs.update hv (((hs.stands i).mono hb rfl).same rfl rfl rfl) hb rfl⟩
  case flush i =>
    refine ⟨fun _ _ hj => hj, hv, fun j => ?_, hs.elected⟩
    by_cases hj : j = i
    case pos =>
      subst hj
      simp only [Function.update_self]
      exact (hs.stands j).same rfl rfl rfl
    case neg => simpa only [Function.update_of_ne hj] using hs.stands j
  case answer i source request reply _ hr ha =>
    have hb : ∀ v t q, s.history.ballot v t = some q → (s.history.answered i (s.party i) reply).ballot v t = some q := by
      intro v t q hq
      rwa [History.ballot_answered]
    exact ⟨fun t j hj => by rwa [History.leader_answered],
      ⟨hv, fun j => (hs.stands j).mono hb History.leader_answered, hs.elected.mono hb History.leader_answered⟩⟩
  case thwart _ hf' _ => exact absurd hf' hf
  case load i _ _   => exact ⟨fun _ _ hj => hj, hs.update hv ((hs.stands i).same rfl rfl rfl) (fun _ _ _ hq => hq) rfl⟩
  case restart      => exact ⟨fun _ _ hj => hj, hs.update hv (.idle nofun nofun) (fun _ _ _ hq => hq) rfl⟩
  case begin        => exact ⟨fun _ _ hj => hj, hs.update hv (.idle nofun nofun) (fun _ _ _ hq => hq) rfl⟩

theorem Polled.run (hf : ¬faults.thwarts) (hs : s.Polled members) (h : Run members faults s s') :
    (∀ t j, s.history.leader t = some j → s'.history.leader t = some j) ∧ s'.Polled members := by
  induction h with
  | refl         => exact ⟨fun _ _ hj => hj, hs⟩
  | tail _ hs ih =>
    obtain ⟨hl, hp⟩ := ih.2.step hf hs
    exact ⟨fun t j hj => hl t j (ih.1 t j hj), hp⟩

theorem Reaches.polled (hf : ¬faults.thwarts) (r : Reaches members faults s) : s.Polled members :=
  (Polled.init.run hf r).2

end Parties
end Raft
