import NmosReference.Raft.PartyAnswers

open Protobuf Registry

namespace Raft

namespace Party

variable {e : NodeEvent} {p p' : Party}

theorem Quiet.commitIndex_le (h : Quiet e p p') : p.commitIndex ≤ p'.commitIndex := by
  cases h
  case follow              => exact Nat.le_max_left _ _
  case commit _ _ hc _ _   => exact Nat.le_of_lt hc
  case install _ _ _ _ _ _ hc => exact Nat.le_of_lt hc
  all_goals exact le_rfl

theorem Move.commitIndex_le (h : Move e p p') : p.commitIndex ≤ p'.commitIndex := by
  cases h
  case quiet hq => exact hq.commitIndex_le
  all_goals exact le_rfl

-- A state file stays.
theorem Move.saved_ne_none (h : Move e p p') (hs : p.saved ≠ none) : p'.saved ≠ none := by
  cases h
  case quiet hq => cases hq <;> exact hs
  case save     => exact nofun
  case campaign => exact nofun
  case win      => exact hs
  case append   => exact hs

theorem Moves.saved_ne_none (h : Moves e p p') (hs : p.saved ≠ none) : p'.saved ≠ none := by
  induction h with
  | refl         => exact hs
  | tail _ hm ih => exact hm.saved_ne_none ih

-- What every message says when it is sent, all of them say.
theorem Moves.sent_of {P : Message → Prop} (hP : ∀ (p : Party) m, p.Outgoing m → P m) (h : Moves e p p')
    (hp : ∀ x ∈ p.sent, P x.2) : ∀ x ∈ p'.sent, P x.2 := by
  induction h with
  | refl => exact hp
  | tail _ hm ih =>
    cases hm
    case quiet hq =>
      cases hq
      case post peer m ho =>
        intro x hx
        rcases List.mem_append.mp hx with hx | hx
        case inl => exact ih x hx
        case inr =>
          cases List.mem_singleton.mp hx
          exact hP _ _ ho
      all_goals exact ih
    all_goals exact ih

end Party

namespace Parties

variable {members : List Nat} {faults : Faults} {s : Parties} {i : Nat} {e : NodeEvent} {p : Party}

-- A handler is taken move by move.
theorem Run.moves (ha : s.Active members i) (hm : Party.Moves e (s.party i) p) (he : s.Heard i e)
    (hi : s.Completes i e → faults.installs) :
    ∃ h, Run members faults s { s with party := Function.update s.party i p, history := h } := by
  suffices hs : ∃ h, Run members faults s { s with party := Function.update s.party i p, history := h } ∧
      (s.party i).commitIndex ≤ p.commitIndex from ⟨hs.choose, hs.choose_spec.1⟩
  induction hm with
  | refl => exact ⟨s.history, by rw [Function.update_eq_self], le_rfl⟩
  | @tail p₁ p₂ hms hm ih =>
    obtain ⟨h₁, hrun, hc⟩ := ih
    obtain ⟨h₂, hr⟩ := hm.records i h₁
    refine ⟨h₂, hrun.tail ?_, hc.trans hm.commitIndex_le⟩
    have hparty : ({ s with party := Function.update s.party i p₁, history := h₁ } : Parties).party i = p₁ :=
      Function.update_self i p₁ s.party
    have step : Step members faults { s with party := Function.update s.party i p₁, history := h₁ }
        { s with party := Function.update (Function.update s.party i p₁) i p₂, history := h₂ } := by
      refine .move i e p₂ h₂ ⟨ha.1, ?active⟩ ?heard (fun ⟨peer, m, hm⟩ => hi ⟨peer, m, hm.1, hm.2.1, ?_⟩) ?records
      case active  => rw [hparty]; exact Party.Moves.saved_ne_none hms ha.2
      case heard   => cases e <;> exact he
      case records => rw [hparty]; exact hr
      rw [hparty] at hm
      exact Nat.lt_of_le_of_lt hc hm.2.2
    simpa only [Function.update_idem] using step

end Parties

namespace Cluster

-- The members, as the others may depend on them.
structure Shows (c : Cluster) (s : Parties) : Prop where
  party   : ∀ i, s.party i = (c.node i).party
  network : s.network = c.network

-- What a handler relies on.
structure Sane (layout : ClusterLayout) (c : Cluster) : Prop where
  indexed     : ∀ i, (c.node i).Indexed
  sent        : ∀ i, (c.node i).sent = []
  consecutive : ∀ source target m, (source, target, .appendEntries m) ∈ c.network → m.Consecutive
  started     : ∀ i, c.running i = true → i ∈ layout.members ∧ (c.node i).party.saved ≠ none

section

variable [Python]

-- The faults that a step of the cluster has.
def Within (faults : Faults) (c : Cluster) (a : Env × ClusterEvent) : Prop :=
  match a.2 with
  | .deliver source target m =>
    (∀ e, NodeEvent.received source m = some e →
      RaftNode.Thwarted a.1 (c.node target) ((c.node target).step a.1 e) → faults.thwarts) ∧
    ∀ chunk, m = .installSnapshot chunk → chunk.done = true → (c.node target).commitIndex < chunk.lastIndex → faults.installs
  | .own member e   => RaftNode.Thwarted a.1 (c.node member) ((c.node member).step a.1 e) → faults.thwarts
  | .start member o => (c.node member).file ≠ none ∨ o = .failedAfter → faults.restarts
  | _               => True

variable {layout : ClusterLayout} {faults : Faults} {c c' : Cluster} {s : Parties} {i source : Nat} {env : Env} {e : NodeEvent}
variable {n : RaftNode}

omit [Python] in
theorem outgoing_consecutive {p : Party} {m : Message} (h : p.Outgoing m) : ∀ a, m = .appendEntries a → a.Consecutive := by
  rintro a rfl i w hw
  exact (h.2.2.2.2 i w hw).1

omit [Python] in
-- What was handed to the transport is on its way.
theorem Shows.replace {s₁ : Parties} {answers : List (Nat × Message)} (h : c.Shows s) (hi : i ∈ layout.members)
    (hf : n.party.saved ≠ none)
    (hr : Parties.Run layout.members faults s s₁) (hp : s₁.party = Function.update s.party i n.party)
    (hn : s₁.network = s.network) (ha : ∀ target reply, (target, reply) ∈ answers →
      ∃ request, (target, i, request) ∈ s.network ∧ n.party.Answers request reply) :
    ∃ s', Parties.Run layout.members faults s s' ∧ (c.replace i n answers).Shows s' := by
  have hn₁ : s₁.party i = n.party := by rw [hp, Function.update_self]
  have hflush : Parties.Run layout.members faults s { s₁ with
      party   := Function.update s₁.party i { s₁.party i with sent := [] }
      network := s₁.network ++ (s₁.party i).sent.map (i, ·) } := hr.tail (.flush i)
  have sent : (n.sent.map fun s => (s.peer, s.message)) = n.party.sent := rfl
  have shown : (c.replace i n []).Shows { s₁ with
      party   := Function.update s₁.party i { s₁.party i with sent := [] }
      network := s₁.network ++ (s₁.party i).sent.map (i, ·) } := by
    refine ⟨fun j => ?_, ?_⟩
    · rw [hn₁, hp, Function.update_idem]
      simp only [Cluster.replace]
      by_cases hj : j = i
      case pos =>
        subst hj
        rw [Function.update_self, Function.update_self]
        rfl
      case neg => rw [Function.update_of_ne hj, Function.update_of_ne hj, h.party]
    · simp [Cluster.replace, hn, hn₁, h.network, sent]
  -- The answers are sent one by one.
  suffices hs : ∀ (rest done : List (Nat × Message)) (s₂ : Parties), Parties.Run layout.members faults s s₂ →
      (c.replace i n done).Shows s₂ → (∀ x ∈ rest, x ∈ answers) →
        ∃ s', Parties.Run layout.members faults s s' ∧ (c.replace i n (done ++ rest)).Shows s' from
    hs answers [] _ hflush shown fun _ hx => hx
  intro rest
  induction rest with
  | nil => exact fun done s₂ hr hs _ => ⟨s₂, hr, by rwa [List.append_nil]⟩
  | cons x rest ih =>
    intro done s₂ hr₂ hs₂ hx
    obtain ⟨request, hreq, hans⟩ := ha x.1 x.2 (hx x List.mem_cons_self)
    have hmem : (x.1, i, request) ∈ s₂.network := by
      rw [hs₂.network]
      simp only [Cluster.replace, List.append_assoc, List.mem_append]
      exact .inl (h.network ▸ hreq)
    have hparty : s₂.party i = { n.party with sent := [] } := by
      rw [hs₂.party]
      simp only [Cluster.replace, Function.update_self]
      rfl
    have hans : (s₂.party i).Answers request x.2 := by
      rw [hparty]
      cases hr : x.2 <;> rw [hr] at hans <;> exact hans
    have step : Parties.Step layout.members faults s₂ { s₂ with
        network := s₂.network ++ [(i, x.1, x.2)], history := s₂.history.answered i (s₂.party i) x.2 } :=
      .answer i x.1 request x.2 ⟨hi, by rw [hparty]; exact hf⟩ hmem hans
    have hnext := ih (done ++ [x]) _ (hr₂.tail step)
      ⟨hs₂.party, by simp [hs₂.network, Cluster.replace]⟩ fun y hy => hx y (List.mem_cons_of_mem x hy)
    rwa [List.append_assoc] at hnext

-- The parties take the step of the member.
theorem Shows.acts (h : c.Shows s) (hsane : c.Sane layout) (ha : s.Active layout.members i) (he : s.Heard i e)
    (hm : ∀ m, e = .appendEntries m → m.Consecutive)
    (ht : RaftNode.Thwarted env (c.node i) ((c.node i).step env e) → faults.thwarts)
    (hi : s.Completes i e → faults.installs) :
    ∃ s₁, Parties.Run layout.members faults s s₁ ∧
      s₁.party = Function.update s.party i ((c.node i).step env e).party ∧ s₁.network = s.network ∧
        ((c.node i).step env e).party.saved ≠ none := by
  have hsaved := ha.2
  rw [h.party] at hsaved
  rcases RaftNode.step_acts env (hsane.indexed i) hm with hacts | htw
  case inl =>
    have hmoves : Party.Moves e (s.party i) ((c.node i).step env e).party := by
      rw [h.party]
      exact hacts.moves
    obtain ⟨hist, hrun⟩ := Parties.Run.moves ha hmoves he hi
    exact ⟨_, hrun, rfl, rfl, hacts.moves.saved_ne_none hsaved⟩
  case inr =>
    have hs : (s.party i).Stood ((c.node i).step env e).party := by
      rw [h.party]
      exact htw.stood
    refine ⟨_, .single (.thwart i _ ha (ht htw) hs), rfl, rfl, ?_⟩
    obtain ⟨saved, hs, hp⟩ := htw.stood
    rw [hp]
    rcases hs with rfl | rfl
    case inl => exact hsaved
    case inr => exact nofun

omit [Python] in
theorem sane_replace {answers : List (Nat × Message)} (h : c.Sane layout) (hi : n.Indexed) (hf : n.party.saved ≠ none)
    (hs : ∀ x ∈ n.party.sent, ∀ m, x.2 = .appendEntries m → m.Consecutive)
    (ha : ∀ x ∈ answers, ∀ m, x.2 ≠ .appendEntries m) : (c.replace i n answers).Sane layout where
  indexed := by
    intro j
    by_cases hj : j = i
    case pos =>
      subst hj
      simp only [Cluster.replace, Function.update_self]
      exact ⟨hi.sound, hi.tracked⟩
    case neg =>
      simp only [Cluster.replace, Function.update_of_ne hj]
      exact h.indexed j
  sent := by
    intro j
    by_cases hj : j = i
    case pos =>
      subst hj
      simp [Cluster.replace]
    case neg =>
      simp only [Cluster.replace, Function.update_of_ne hj]
      exact h.sent j
  consecutive := by
    intro source target m hm
    simp only [Cluster.replace, List.mem_append, List.mem_map, Prod.mk.injEq] at hm
    rcases hm with (hm | ⟨x, ⟨y, hy, rfl⟩, rfl, hx⟩) | ⟨x, hx, rfl, hx'⟩
    case inl.inl => exact h.consecutive source target m hm
    case inl.inr =>
      have hmem : (y.peer, y.message) ∈ n.party.sent := List.mem_map.mpr ⟨y, hy, rfl⟩
      exact hs _ hmem m (congrArg Prod.snd hx)
    case inr => exact absurd (congrArg Prod.snd hx') (ha x hx m)
  started := by
    intro j hj
    refine ⟨(h.started j hj).1, ?_⟩
    by_cases hi : j = i
    case pos =>
      subst hi
      simp only [Cluster.replace, Function.update_self]
      exact hf
    case neg =>
      simp only [Cluster.replace, Function.update_of_ne hi]
      exact (h.started j hj).2

theorem sane_step (h : c.Sane layout) (hm : ∀ m, e = .appendEntries m → m.Consecutive) :
    ∀ x ∈ ((c.node i).step env e).party.sent, ∀ m, x.2 = .appendEntries m → m.Consecutive := by
  have hsent : (c.node i).party.sent = [] := by
    unfold RaftNode.party
    rw [h.sent i]
    rfl
  rcases RaftNode.step_acts env (h.indexed i) hm with ha | ht
  case inl =>
    refine Party.Moves.sent_of (fun p m => outgoing_consecutive) ha.moves ?_
    rw [hsent]
    nofun
  case inr =>
    obtain ⟨saved, _, hp⟩ := ht.stood
    rw [hp, hsent]
    nofun

omit [Python] in
theorem party_allocateCursor {t : ResourceType} {now : TaiCursor} {o : SaveOutcome} :
    (n.allocateCursor t now o).2.party = n.party ∨
      (n.allocateCursor t now o).2.party = { n.party with saved := some (n.term, n.votedFor) } := by
  generalize hd : ({ term := n.term, votedFor := n.votedFor, incarnation := n.incarnation, cursors := n.machine.cursors } :
    Durable) = d
  have hterm : d.term = n.term ∧ d.votedFor = n.votedFor := by subst hd; exact ⟨rfl, rfl⟩
  have hp : (n.allocateCursor t now o).2.party =
      { n.party with saved := (d.allocateCursor t now n.file o).2.2.map fun s => (s.term, s.votedFor) } := by
    subst hd
    rfl
  rw [hp]
  rcases h : d.allocateCursor t now n.file o with ⟨cursor, d', store'⟩
  rcases ha : d.cursors.allocate t now with ⟨c, cursors⟩
  rcases Durable.allocateCursor_cases ha h with ⟨_, _, _, rfl⟩ | ⟨needed, _, _, ⟨_, _, rfl⟩ | ⟨_, _, rfl | rfl⟩⟩
  all_goals first
    | exact .inl rfl
    | exact .inr (by simp [Durable.state, hterm])

theorem answer_answers {m reply : Message} (hs : n.Indexed) (hm : ∀ a, m = .appendEntries a → a.Consecutive)
    (ha : n.answer env source m = some reply) (he : NodeEvent.received source m = some e) :
    (n.step env e).party.Answers m reply ∧ ∀ a, reply ≠ .appendEntries a := by
  -- What a handler that finishes leaves is what the step leaves.
  have settled {α : Type} {r : Except NodeFault α × RaftNode} {a : α} (h : r.1 = .ok a) :
      r = (.ok a, RaftNode.settle env r) := by
    obtain ⟨_, n'⟩ := r
    cases h
    rfl
  unfold RaftNode.answer at ha
  cases m
  case requestVote m =>
    cases he
    obtain ⟨r, hr, rfl⟩ := Option.map_eq_some_iff.mp ha
    refine ⟨?_, nofun⟩
    cases hok : ((RaftNode.onRequestVote env m).run n).1 with
    | error _ => rw [hok] at hr; cases hr
    | ok a    =>
      rw [hok] at hr
      cases hr
      exact RaftNode.onRequestVote_answers (settled hok)
  case appendEntries m =>
    cases he
    obtain ⟨r, hr, rfl⟩ := Option.map_eq_some_iff.mp ha
    refine ⟨?_, nofun⟩
    cases hok : ((RaftNode.onAppendEntries env m).run n).1 with
    | error _ => rw [hok] at hr; cases hr
    | ok a    =>
      rw [hok] at hr
      cases hr
      exact RaftNode.onAppendEntries_answers hs (hm m rfl) (settled hok)
  case installSnapshot m =>
    cases he
    obtain ⟨r, hr, rfl⟩ := Option.map_eq_some_iff.mp ha
    refine ⟨?_, nofun⟩
    cases hok : ((RaftNode.onInstallSnapshot env source m).run n).1 with
    | error _ => rw [hok] at hr; cases hr
    | ok a    =>
      rw [hok] at hr
      cases hr
      exact RaftNode.onInstallSnapshot_answers (settled hok)
  all_goals cases ha

omit [Python] in
theorem party_boot {member : Nat} {loaded : PersistentState} : (boot layout member loaded).party =
    .fresh layout.members member (loaded.term, loaded.votedFor) (loaded.incarnation = 1 || layout.members.length = 1) := by
  have hmatched : ∀ (l : List Nat) (d : Dict Nat PeerState), (l.foldl (fun d m => d.set m .new) d).map (fun _ p => p.matchIndex) =
      l.foldl (fun d m => d.set m 0) (d.map fun _ p => p.matchIndex) := by
    intro l
    induction l with
    | nil          => exact fun _ => rfl
    | cons m l ih =>
      intro d
      rw [List.foldl_cons, List.foldl_cons, ih, Dict.map_set]
      rfl
  unfold boot RaftNode.start RaftNode.party Party.fresh
  simp only [hmatched]
  rfl

omit [Python] in
theorem sane_update {n : RaftNode} {running : Nat → Bool} (h : c.Sane layout) (hi : n.Indexed) (hs : n.sent = [])
    (hr : ∀ j, running j = true → j ≠ i → c.running j = true) (hf : running i = true → i ∈ layout.members ∧ n.party.saved ≠ none) :
    Sane layout { c with node := Function.update c.node i n, running } where
  indexed := by
    intro j
    by_cases hj : j = i
    case pos => subst hj; simpa only [Function.update_self] using hi
    case neg => simpa only [Function.update_of_ne hj] using h.indexed j
  sent := by
    intro j
    by_cases hj : j = i
    case pos => subst hj; simpa only [Function.update_self] using hs
    case neg => simpa only [Function.update_of_ne hj] using h.sent j
  consecutive := h.consecutive
  started := by
    intro j hj
    by_cases hji : j = i
    case pos => subst hji; simpa only [Function.update_self] using hf hj
    case neg => simpa only [Function.update_of_ne hji] using h.started j (hr j hj hji)

omit [Python] in
theorem Shows.update {n : RaftNode} {running : Nat → Bool} {p : Party} (h : c.Shows s) (hp : p = n.party) {history : History} :
    Shows { c with node := Function.update c.node i n, running } { s with party := Function.update s.party i p, history } where
  party := by
    intro j
    by_cases hj : j = i
    case pos => subst hj; simp only [Function.update_self, hp]
    case neg => simp only [Function.update_of_ne hj, h.party]
  network := h.network

omit [Python] in
theorem Shows.same {n : RaftNode} {running : Nat → Bool} (h : c.Shows s) (hp : s.party i = n.party) :
    Shows { c with node := Function.update c.node i n, running } s where
  party := by
    intro j
    by_cases hj : j = i
    case pos => subst hj; simp only [Function.update_self, hp]
    case neg => simp only [Function.update_of_ne hj, h.party]
  network := h.network

omit [Python] in
theorem Shows.start {member : Nat} {o : SaveOutcome} (h : c.Shows s) (hsane : c.Sane layout)
    (hw : (c.node member).file ≠ none ∨ o = .failedAfter → faults.restarts) (hs : c.start layout member o = some c') :
    ∃ s', Parties.Run layout.members faults s s' ∧ c'.Shows s' ∧ c'.Sane layout := by
  unfold Cluster.start at hs
  split at hs
  case isTrue  => cases hs
  case isFalse hmem =>
    have hidle : ¬c.running member = true := (not_or.mp hmem).1
    have hmem : member ∈ layout.members := by simpa using (not_or.mp hmem).2
    obtain ⟨loaded, hload, rfl⟩ := Option.map_eq_some_iff.mp hs
    have hsaved : (s.party member).saved = (c.node member).file.map fun s => (s.term, s.votedFor) := by
      rw [h.party]
      rfl
    have hindexed : (boot layout member loaded).Indexed := RaftNode.Indexed.start
    -- Whoever runs was started.
    have hstarted : Sane layout { c with
        node    := Function.update c.node member (boot layout member loaded)
        running := Function.update c.running member true } := by
      refine sane_update hsane hindexed rfl (fun j hj hne => ?_) fun _ => ⟨hmem, ?_⟩
      · rwa [Function.update_of_ne hne] at hj
      · rw [party_boot]
        exact nofun
    -- What is loaded is what was saved, if anything was.
    have hfile : (c.node member).file = none ∧ (loaded.term, loaded.votedFor) = (0, none) ∨
        (c.node member).file ≠ none ∧ (s.party member).saved = some (loaded.term, loaded.votedFor) := by
      rcases hf : (c.node member).file with _ | f
      case none => rw [hf] at hload; rw [TermStore.load_none hload]; exact .inl ⟨rfl, rfl⟩
      case some =>
        rw [hf] at hload hsaved
        refine .inr ⟨nofun, ?_⟩
        rw [hsaved, TermStore.load_some hload]
        rfl
    split
    case isTrue ho =>
      rcases hfile with ⟨hf, hl⟩ | ⟨hf, hl⟩
      case inl =>
        have hnone : (s.party member).saved = none := by rw [hsaved, hf]; rfl
        exact ⟨_, .single (.begin member (loaded.incarnation = 1 || layout.members.length = 1) hmem hnone),
          h.update (by rw [← hl]; exact party_boot.symm), hstarted⟩
      case inr =>
        exact ⟨_, .single (.restart member _ (loaded.incarnation = 1 || layout.members.length = 1) (hw (.inl hf)) hmem hl),
          h.update party_boot.symm, hstarted⟩
    case isFalse =>
      have hn : ({ c.node member with file := (c.node member).file.save loaded o } : RaftNode).Indexed :=
        ⟨(hsane.indexed member).sound, (hsane.indexed member).tracked⟩
      have hp : ({ c.node member with file := (c.node member).file.save loaded o } : RaftNode).party =
          { s.party member with saved := ((c.node member).file.save loaded o).map fun s => (s.term, s.votedFor) } := by
        rw [h.party]
        rfl
      have hsane' : Sane layout { c with
          node := Function.update c.node member { c.node member with file := (c.node member).file.save loaded o } } :=
        sane_update hsane hn (hsane.sent member) (fun _ hj _ => hj) fun hr => absurd hr hidle
      rcases TermStore.save_cases loaded (c.node member).file o with hs | hs
      case inr =>
        exact ⟨s, .refl, h.same (by rw [hp, hs, ← hsaved]), hsane'⟩
      case inl =>
        rcases hfile with ⟨hf, hl⟩ | ⟨hf, hl⟩
        case inl =>
          have hnone : (s.party member).saved = none := by rw [hsaved, hf]; rfl
          have ho : o = .failedAfter := by
            cases o
            case saved        => contradiction
            case failedBefore => simp [TermStore.save, hf] at hs
            case failedAfter  => rfl
          refine ⟨_, .single (.load member (hw (.inr ho)) hnone), h.update ?_, hsane'⟩
          rw [hp, hs, ← hl]
          rfl
        case inr =>
          exact ⟨s, .refl, h.same (by rw [hp, hs, Option.map_some, ← hl]), hsane'⟩

theorem Shows.step {a : Env × ClusterEvent} (h : c.Shows s) (hsane : c.Sane layout) (hw : Within faults c a)
    (hs : step layout c a = some c') : ∃ s', Parties.Run layout.members faults s s' ∧ c'.Shows s' ∧ c'.Sane layout := by
  obtain ⟨env, event⟩ := a
  cases event
  case deliver source target m =>
    simp only [Cluster.step, Cluster.deliver] at hs
    split at hs
    case isFalse   => cases hs
    case isTrue hr =>
      obtain ⟨e, he, rfl⟩ := Option.map_eq_some_iff.mp hs
      have hmem : (source, target, m) ∈ s.network := h.network ▸ hr.2
      have hheard : s.Heard target e := by
        cases m <;> cases he <;> first | exact hmem | exact ⟨source, hmem⟩
      have hm : ∀ a, e = .appendEntries a → a.Consecutive := by
        rintro a rfl
        cases m <;> cases he
        exact hsane.consecutive source target a hr.2
      have hcomp : s.Completes target e → faults.installs := by
        rintro ⟨peer, chunk, rfl, hd, hc⟩
        rw [h.party] at hc
        cases m <;> cases he
        exact hw.2 chunk rfl hd hc
      have hactive : s.Active layout.members target := by
        have := hsane.started target hr.1
        rwa [← h.party] at this
      obtain ⟨s₁, hrun, hp, hn, hsaved⟩ := h.acts hsane hactive hheard hm (hw.1 e he) hcomp
      have hans : ∀ x ∈ (((c.node target).answer env source m).toList.map (source, ·)),
          x.1 = source ∧ (((c.node target).step env e).party.Answers m x.2 ∧ ∀ a, x.2 ≠ .appendEntries a) := by
        intro x hx
        obtain ⟨reply, hreply, rfl⟩ := List.mem_map.mp hx
        refine ⟨rfl, answer_answers (hsane.indexed target) (fun a ha => ?_) (Option.mem_toList.mp hreply) he⟩
        exact hsane.consecutive source target a (ha ▸ hr.2)
      obtain ⟨s', hrun', hshow⟩ := h.replace hactive.1 hsaved hrun hp hn fun target' reply hx => by
        obtain ⟨rfl, hx, _⟩ := hans _ hx
        exact ⟨m, hmem, hx⟩
      exact ⟨s', hrun', hshow, sane_replace hsane ((hsane.indexed target).step env hm).1 hsaved (sane_step hsane hm)
        fun x hx => (hans x hx).2.2⟩
  case own member e =>
    simp only [Cluster.step, Cluster.own] at hs
    split at hs
    case isFalse   => cases hs
    case isTrue hr =>
      cases hs
      have hheard : s.Heard member e := by cases e <;> first | exact trivial | exact absurd hr.2 nofun
      have hm : ∀ a, e = .appendEntries a → a.Consecutive := by
        rintro a rfl
        exact absurd hr.2 nofun
      have hcomp : s.Completes member e → faults.installs := by
        rintro ⟨peer, chunk, rfl, _⟩
        exact absurd hr.2 nofun
      have hactive : s.Active layout.members member := by
        have := hsane.started member hr.1
        rwa [← h.party] at this
      obtain ⟨s₁, hrun, hp, hn, hsaved⟩ := h.acts hsane hactive hheard hm hw hcomp
      obtain ⟨s', hrun', hshow⟩ := h.replace hactive.1 hsaved hrun hp hn fun _ _ hx => absurd hx List.not_mem_nil
      exact ⟨s', hrun', hshow, sane_replace hsane ((hsane.indexed member).step env hm).1 hsaved (sane_step hsane hm) nofun⟩
  case allocate member t now o =>
    simp only [Cluster.step, Cluster.allocate] at hs
    split at hs
    case isFalse   => cases hs
    case isTrue hr =>
      cases hs
      have hactive : s.Active layout.members member := by
        have := hsane.started member hr
        rwa [← h.party] at this
      have hmoves : Party.Moves .read (s.party member) ((c.node member).allocateCursor t now o).2.party := by
        rw [h.party]
        rcases party_allocateCursor with hp | hp
        case inl => rw [hp]
        case inr => rw [hp]; exact .single .save
      have hindexed : ((c.node member).allocateCursor t now o).2.Indexed :=
        ⟨⟨(hsane.indexed member).sound.wf, (hsane.indexed member).sound.applied, (hsane.indexed member).sound.committed,
          (hsane.indexed member).sound.held, (hsane.indexed member).sound.covered, (hsane.indexed member).sound.compacting⟩,
          (hsane.indexed member).tracked⟩
      have hsent : ((c.node member).allocateCursor t now o).2.party.sent = [] := by
        have : ((c.node member).allocateCursor t now o).2.sent = [] := hsane.sent member
        unfold RaftNode.party
        rw [this]
        rfl
      have hsaved : ((c.node member).allocateCursor t now o).2.party.saved ≠ none := by
        rcases party_allocateCursor with hp | hp
        case inl => rw [hp]; exact (hsane.started member hr).2
        case inr => rw [hp]; exact nofun
      obtain ⟨hist, hrun⟩ := Parties.Run.moves hactive hmoves trivial
        fun ⟨_, _, he, _⟩ => nomatch he
      obtain ⟨s', hrun', hshow⟩ := h.replace hactive.1 hsaved hrun rfl rfl fun _ _ hx => absurd hx List.not_mem_nil
      exact ⟨s', hrun', hshow, sane_replace hsane hindexed hsaved (by rw [hsent]; nofun) nofun⟩
  case crash member =>
    cases hs
    refine ⟨s, .refl, ⟨h.party, h.network⟩, ⟨hsane.indexed, hsane.sent, hsane.consecutive, fun j hj => ?_⟩⟩
    by_cases hji : j = member
    case pos => subst hji; simp [Cluster.crash] at hj
    case neg => exact hsane.started j (by simpa [Cluster.crash, hji] using hj)
  case start member o => exact h.start hsane hw hs

omit [Python] in
theorem shows_init : (init layout).Shows (.init layout.members) ∧ (init layout).Sane layout := by
  refine ⟨⟨fun i => ?_, rfl⟩, ⟨fun i => ?_, fun _ => rfl, nofun, nofun⟩⟩
  · simp only [Parties.init, Cluster.init]
    have hp : ({ boot layout i ⟨0, none, 0, none⟩ with file := none } : RaftNode).party =
        { (boot layout i ⟨0, none, 0, none⟩).party with saved := none } := rfl
    rw [hp, party_boot]
    unfold Party.fresh
    congr 1
  · have hi : (boot layout i ⟨0, none, 0, none⟩).Indexed := RaftNode.Indexed.start
    exact ⟨hi.sound, hi.tracked⟩

-- What the members do, the parties do.
theorem Shows.run (h : c.Shows s) (hsane : c.Sane layout) (r : (system layout).Run (Within faults) c c') :
    ∃ s', Parties.Run layout.members faults s s' ∧ c'.Shows s' ∧ c'.Sane layout := by
  induction r with
  | refl => exact ⟨s, .refl, h, hsane⟩
  | tail _ hw hs ih =>
    obtain ⟨s₁, hrun, hshow, hsane₁⟩ := ih
    obtain ⟨s', hrun', hshow', hsane'⟩ := hshow.step hsane₁ hw hs
    exact ⟨s', hrun.trans hrun', hshow', hsane'⟩

theorem Reaches.shows (r : (system layout).Reaches (Within faults) c) :
    ∃ s, Parties.Reaches layout.members faults s ∧ c.Shows s ∧ c.Sane layout :=
  Shows.run shows_init.1 shows_init.2 r

end
end Cluster
end Raft
