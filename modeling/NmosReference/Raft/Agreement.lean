import NmosReference.Raft.Commitment

open Protobuf Registry Ancestry

-- Without restarts, installed snapshots and campaigns that are not saved, what is committed is agreed on for good.
namespace Raft
namespace Parties

variable {members : List Nat} {faults : Faults} {s s' : Parties} {i : Nat} {e : NodeEvent} {p : Party} {h : History}

theorem Complete.quiet (hs : s.Complete members) (ha : s.Active members i) (he : s.Heard i e) (hn : ¬s.Completes i e)
    (hq : Party.Quiet e (s.party i) p) : p.Steady members i s.history := by
  refine (hs.steady i).quiet hs.lawful (hs.linked i) ha.1 (hs.voter i).layout (hs.stands i) (hs.told he) ?_ hq
  exact fun peer m he hd hc => hn ⟨peer, m, he, hd, hc⟩

theorem Complete.save (hs : s.Complete members) :
    (s.history.cast i (s.party i).term (s.party i).votedFor).Lawful members ∧
      s.history.Later (s.history.cast i (s.party i).term (s.party i).votedFor) := by
  refine hs.lawful.cast (fun q hq => .inr ((hs.voter i).votedFor hq)) (fun q hq => ?_) fun q hq => ?_
  · exact ((hs.steady i).votes q hq).1
  · exact ((hs.steady i).votes q hq).2

theorem Complete.campaign (hs : s.Complete members)
    (hm : Matching members { s with
      party := Function.update s.party i { s.party i with
        role := .candidate, term := (s.party i).term + 1, votedFor := some (s.party i).self
        saved := some ((s.party i).term + 1, some (s.party i).self), votes := [(s.party i).self], forgotten := [] }
      history := (s.history.cast i ((s.party i).term + 1) (some (s.party i).self)).standing i ((s.party i).term + 1)
        (s.party i).log.last }) :
    s.history.Later ((s.history.cast i ((s.party i).term + 1) (some (s.party i).self)).standing i ((s.party i).term + 1)
      (s.party i).log.last) ∧ Complete members { s with
        party := Function.update s.party i { s.party i with
          role := .candidate, term := (s.party i).term + 1, votedFor := some (s.party i).self
          saved := some ((s.party i).term + 1, some (s.party i).self), votes := [(s.party i).self], forgotten := [] }
        history := (s.history.cast i ((s.party i).term + 1) (some (s.party i).self)).standing i ((s.party i).term + 1)
          (s.party i).log.last } := by
  have hself := (hs.voter i).self
  have hfresh : ∀ q, s.history.ballot i ((s.party i).term + 1) ≠ some q :=
    fun q hq => absurd ((hs.voter i).le_term hq) (Nat.not_succ_le_self _)
  obtain ⟨hl, hh⟩ := hs.lawful.campaign hfresh fun _ => hs.weighed
  rw [← hself] at hl hh
  simp only [hself] at hl hh
  have hsteady := (hs.steady i).mono hs.lawful hh (fun t b hb => .inl hb) (hs.stands i)
  have hballot : ((s.history.cast i ((s.party i).term + 1) (some i)).standing i ((s.party i).term + 1)
      (s.party i).log.last).ballot i ((s.party i).term + 1) = some i := by simp [History.standing, History.cast]
  have hstand : ((s.history.cast i ((s.party i).term + 1) (some i)).standing i ((s.party i).term + 1)
      (s.party i).log.last).stand i ((s.party i).term + 1) = (s.party i).log.last := by simp [History.standing]
  have hle : (s.party i).term ≤ (s.party i).term + 1 := Nat.le_succ _
  simp only [hself] at hm ⊢
  refine ⟨hh, hs.update hm hl hh (fun _ _ _ _ hb => hb) ?_ (fun x hx => hh.meant hs.lawful (hs.saying i x hx)) fun h => by cases h⟩
  refine ⟨hsteady.ground, hsteady.older.trans hle, fun _ => ⟨hstand, Nat.lt_succ_of_le hsteady.older⟩, fun h => (by cases h),
    fun h => (by cases h), hsteady.peers, fun h => (by cases h), ?_, fun t b a hb hab => ?_, fun t b hb => (hsteady.acks t b hb).trans hle, ?_⟩
  · obtain h0 | ⟨t, ht, u, k, hu, hc⟩ := hsteady.commits
    case inl => exact .inl h0
    case inr => exact .inr ⟨t, ht, u, k, hu.trans hle, hc⟩
  · obtain hb | ⟨u, htu, hu, hlacks⟩ := hsteady.keeps t b a hb hab
    case inl => exact .inl hb
    case inr => exact .inr ⟨u, htu, hu.trans hle, hlacks⟩
  · rintro q ⟨⟩
    exact ⟨hballot, fun hn => hl.pending i _ i hballot hn⟩

theorem Complete.win (hs : s.Complete members) (hr : (s.party i).role = .candidate) (hw : (s.party i).Elected)
    (hm : Matching members { s with
      party := Function.update s.party i { s.party i with
        role := .leader, voting := true, matched := (s.party i).matched.map fun _ _ => 0 }
      history := s.history.elect i (s.party i).term (s.party i).votes }) (hi : (s.party i).saved ≠ none) :
    s.history.Later (s.history.elect i (s.party i).term (s.party i).votes) ∧ Complete members { s with
      party := Function.update s.party i { s.party i with
        role := .leader, voting := true, matched := (s.party i).matched.map fun _ _ => 0 }
      history := s.history.elect i (s.party i).term (s.party i).votes } := by
  obtain ⟨hself, hvotes⟩ := (hs.stands i).tally hr
  obtain ⟨hstand, hlt⟩ := (hs.steady i).stood hr
  have hmajority : Quorum.IsMajority members fun m => m ∈ (s.party i).votes := by
    rw [Party.Elected, Party.members, (hs.voter i).layout] at hw
    exact hw
  obtain ⟨hl, hh⟩ := hs.lawful.elect (hs.toPolled.vacant hr hw) hself hvotes hmajority (hstand ▸ (hs.steady i).ground)
    (hstand ▸ hlt)
  have hsteady := (hs.steady i).mono hs.lawful hh (fun t b hb => .inl hb) (hs.stands i)
  have hbase : (s.history.elect i (s.party i).term (s.party i).votes).base (s.party i).term = (s.party i).log.last := by
    simp [History.base, History.elect, hstand]
  refine ⟨hh, hs.update hm hl hh (fun _ _ _ _ hb => hb) ?_ (fun x hx => hh.meant hs.lawful (hs.saying i x hx))
    fun hn => absurd hn hi⟩
  refine ⟨hsteady.ground, hsteady.older, fun h => (by cases h), fun _ => ⟨.inl ?_, ?_⟩, fun _ ht => ?_, fun v hv => ?_, fun _ v m hm => ?_,
    hsteady.commits, hsteady.keeps, hsteady.acks, hsteady.votes⟩
  · rw [hbase]
    exact .refl
  · rw [hbase]
    exact le_rfl
  · exact absurd ht (Nat.ne_of_lt hlt)
  · obtain ⟨m, hm⟩ := Dict.mem_keys.mp hv
    rw [Dict.get?_map, Option.map_eq_some_iff] at hm
    obtain ⟨m, hm, _⟩ := hm
    exact hsteady.peers v (Dict.mem_keys.mpr ⟨m, hm⟩)
  · rw [Dict.get?_map, Option.map_eq_some_iff] at hm
    obtain ⟨_, _, rfl⟩ := hm
    exact .inl rfl

theorem Complete.append (hs : s.Complete members) {values : List (Bytes × RegistryOperation)}
    (hr : (s.party i).role = .leader) (hm : Matching members { s with
      party := Function.update s.party i { s.party i with log := (s.party i).log.append (s.party i).term values }
      history := (s.history.create (s.party i).term (s.party i).log.last (values.map Prod.fst)).ack i (s.party i).term
        ((s.party i).log.append (s.party i).term values).last }) (hi : (s.party i).saved ≠ none) :
    s.history.Later ((s.history.create (s.party i).term (s.party i).log.last (values.map Prod.fst)).ack i (s.party i).term
      ((s.party i).log.append (s.party i).term values).last) ∧ Complete members { s with
        party := Function.update s.party i { s.party i with log := (s.party i).log.append (s.party i).term values }
        history := (s.history.create (s.party i).term (s.party i).log.last (values.map Prod.fst)).ack i (s.party i).term
          ((s.party i).log.append (s.party i).term values).last } := by
  have hold := hs.steady i
  have hlinked := hm.linked i
  simp only [Function.update_self] at hlinked
  have hled : s.history.leader (s.party i).term ≠ none := by rw [(hs.stands i).led hr]; exact nofun
  have hcreate : (s.history.create (s.party i).term (s.party i).log.last (values.map Prod.fst)).Lawful members ∧
      s.history.Later (s.history.create (s.party i).term (s.party i).log.last (values.map Prod.fst)) :=
    hs.lawful.create hled (hold.leads hr).1 (hold.leads hr).2 fun k x => (hs.linked i).newest hr k x
  generalize hc : s.history.create (s.party i).term (s.party i).log.last (values.map Prod.fst) = created at *
  obtain ⟨hlc, hhc⟩ := hcreate
  have hsteady := hold.mono hs.lawful hhc (fun t b hb => .inl (by rw [← hc] at hb; exact hb)) (hs.stands i)
  have hwf : ((s.party i).log.append (s.party i).term values).WellFormed := hlinked.wf
  have hrooted : ((s.party i).log.append (s.party i).term values).Rooted created.entry := hlinked.rooted
  have hold' := (hs.linked i).wf
  have hlast : Le created.entry (s.party i).log.last ((s.party i).log.append (s.party i).term values).last :=
    hrooted.le_last hwf (RaftLog.append_termAt hold' hold'.termAt_last)
  have hled' : created.leader (s.party i).term ≠ none := hhc.led hled
  have hon : On created.entry created.base (s.party i).term ((s.party i).log.append (s.party i).term values).last := by
    rcases Nat.eq_or_lt_of_le hlast.index_le with heq | hlt
    case inl =>
      rw [← hlast.eq_of_index .refl heq]
      exact hhc.on hs.lawful.elected hled (hold.leads hr).1
    case inr =>
      have hterm := RaftLog.append_lastTerm hold' hlt
      refine .inr ⟨hterm, ?_⟩
      have hsnapshot := (RaftLog.termAt_le hold' hold'.termAt_last).1
      have hwritten := hrooted.written_last hwf (Nat.lt_of_le_of_lt hsnapshot hlt)
      rw [hterm] at hwritten
      exact hwritten
  have hle : ∀ u q, created.ballot i u = some q → u ≤ (s.party i).term := by
    intro u q hq
    rw [← hc] at hq
    exact (hs.voter i).le_term hq
  have ⟨hl, hha⟩ := hlc.ack hle (hsteady.ground.trans hlast) (.inr (.inl ⟨hled', hon⟩))
  have hh := hhc.trans hha
  have ⟨_, hbase⟩ := hsteady.leads hr
  refine ⟨hh, hs.update hm hl hh (fun j hj t b hb => ?_) ?_ (fun x hx => hh.meant hs.lawful (hs.saying i x hx))
    fun hn => absurd hn hi⟩
  · rcases hb with hb | ⟨rfl, _⟩
    case inl => rw [← hc] at hb; exact hb
    case inr => exact absurd rfl hj
  · refine ⟨hsteady.ground.trans hlast, ?_, fun hn => absurd (hr.symm.trans hn) nofun,
      fun _ => ⟨hon, hbase.trans hlast.index_le⟩, fun _ _ => .inr ⟨rfl, rfl, rfl⟩, hsteady.peers, fun _ v m hm => ?_,
      ?_, fun t b a hb hab => ?_, fun t b hb => ?_, fun q hq => ⟨(hsteady.votes q hq).1, fun hn => absurd hn hled'⟩⟩
    · exact Grown.On.term_le hlc.grown (Nat.le_of_lt (hlc.based _ hled').2) hon
    · exact (hsteady.matched hr v m hm).imp_right fun ⟨b, hb, hi⟩ => ⟨b, .inl hb, hi⟩
    · exact hsteady.commits.imp_right fun ⟨t, ht, hsettled⟩ => ⟨t, RaftLog.append_termAt hold' ht, hha.settled hsettled⟩
    · rcases hb with hb | ⟨_, _, rfl⟩
      case inl =>
        rcases hsteady.keeps t b a hb hab with hle | hlost
        case inl => exact .inl (hle.trans hlast)
        case inr => exact .inr hlost
      case inr => exact .inl hab
    · rcases hb with hb | ⟨_, rfl, _⟩
      case inl => exact hsteady.acks t b hb
      case inr => exact le_rfl

-- An answer is heard of by all that come later.
theorem Complete.answer {source : Nat} {request reply : Message} (hs : s.Complete members) (hi : s.Active members i)
    (hr : (source, i, request) ∈ s.network) (ha : (s.party i).Answers request reply)
    (hm : Matching members { s with
      network := s.network ++ [(i, source, reply)], history := s.history.answered i (s.party i) reply }) :
    s.history.Later (s.history.answered i (s.party i) reply) ∧ Complete members { s with
      network := s.network ++ [(i, source, reply)], history := s.history.answered i (s.party i) reply } := by
  obtain ⟨hl, hh, hothers, hsteady, hmeant⟩ := hs.lawful.answered (hs.linked i) (hs.voter i) (hs.stands i) (hs.steady i)
    (hs.said source i request hr) ha
  refine ⟨hh, hm, hl, fun j => ?_, fun j x hx => hh.meant hs.lawful (hs.saying j x hx), fun so target m hmem => ?_,
    fun j hn t b hb => ?_⟩
  · by_cases hj : j = i
    case pos => exact hj ▸ hsteady
    case neg => exact (hs.steady j).mono hs.lawful hh (fun t b hb => .inl (hothers j hj t b hb)) (hs.stands j)
  · rcases List.mem_append.mp hmem with hmem | hmem
    case inl => exact hh.meant hs.lawful (hs.said so target m hmem)
    case inr =>
      cases List.mem_singleton.mp hmem
      exact hmeant
  · by_cases hj : j = i
    case pos =>
      subst hj
      exact hi.2 hn
    case neg => exact hs.idle j hn t b (hothers j hj t b hb)

theorem Complete.step (hf : ¬faults.thwarts) (hre : ¬faults.restarts) (hin : ¬faults.installs) (hs : s.Complete members)
    (h : Step members faults s s') : s.history.Later s'.history ∧ s'.Complete members := by
  have hm := hs.toMatching.step hf h
  cases h
  case move i e p h ha he hi hr =>
    have hn : ¬s.Completes i e := fun hc => hin (hi hc)
    have hsaying : ∀ x, x ∈ p.sent → s.history.Meant members i x.2 := by
      intro x hx
      rcases sent_records hr x hx with hx | ho
      case inl => exact hs.saying i x hx
      case inr => exact (hs.steady i).meant (hs.linked i) (hs.voter i) (hs.stands i) hs.lawful ho
    cases hr
    case quiet hq =>
      have hsaved : p.saved ≠ none := (Party.Move.quiet hq).saved_ne_none ha.2
      exact ⟨.refl, hs.update hm hs.lawful .refl (fun _ _ _ _ hb => hb) (hs.quiet ha he hn hq) hsaying
        fun hn => absurd hn hsaved⟩
    case save =>
      obtain ⟨hl, hh⟩ := hs.save (i := i)
      have hsteady := (hs.steady i).mono hs.lawful hh (fun t b hb => .inl hb) (hs.stands i)
      exact ⟨hh, hs.update hm hl hh (fun _ _ _ _ hb => hb) (hsteady.same rfl rfl rfl (.inl rfl) rfl rfl)
        (fun x hx => hh.meant hs.lawful (hsaying x hx)) nofun⟩
    case campaign         => exact hs.campaign hm
    case win hr hw        => exact hs.win hr hw hm ha.2
    case append values hr => exact hs.append hr hm ha.2
  case flush i =>
    refine ⟨.refl, hm, hs.lawful, fun j => ?_, fun j x hx => ?_, fun source target m hmem => ?_, fun j hn => ?_⟩
    · by_cases hj : j = i
      case pos =>
        subst hj
        simp only [Function.update_self]
        exact (hs.steady j).same rfl rfl rfl (.inl rfl) rfl rfl
      case neg => simpa only [Function.update_of_ne hj] using hs.steady j
    · by_cases hj : j = i
      case pos =>
        subst hj
        simp [Function.update_self] at hx
      case neg =>
        simp only [Function.update_of_ne hj] at hx
        exact hs.saying j x hx
    · simp only [List.mem_append, List.mem_map, Prod.mk.injEq] at hmem
      rcases hmem with hmem | ⟨x, hx, rfl, rfl⟩
      case inl => exact hs.said source target m hmem
      case inr => exact hs.saying _ _ hx
    · by_cases hj : j = i
      case pos =>
        subst hj
        simp only [Function.update_self] at hn
        exact hs.idle j hn
      case neg =>
        simp only [Function.update_of_ne hj] at hn
        exact hs.idle j hn
  case answer i source request reply hi hr ha => exact hs.answer hi hr ha hm
  case thwart hf' _         => exact absurd hf' hf
  case load hf' _           => exact absurd hf' hre
  case restart hf' _ _      => exact absurd hf' hre
  case begin i voting hi hn =>
    exact ⟨.refl, hs.update hm hs.lawful .refl (fun _ _ _ _ hb => hb) (.fresh (hs.idle i hn)) nofun nofun⟩

theorem Complete.run (hf : ¬faults.thwarts) (hre : ¬faults.restarts) (hin : ¬faults.installs) (hs : s.Complete members)
    (h : Run members faults s s') : s.history.Later s'.history ∧ s'.Complete members := by
  induction h with
  | refl         => exact ⟨.refl, hs⟩
  | tail _ hs ih =>
    obtain ⟨hh, hc⟩ := ih.2.step hf hre hin hs
    exact ⟨ih.1.trans hh, hc⟩

end Parties
end Raft
