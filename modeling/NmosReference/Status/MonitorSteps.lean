import NmosReference.Status.Monitor
import Mathlib

-- What one event and one tick do to the domains of a monitor.
namespace Status

-- A status is worse or better than another only if neither is Inactive.

def Worsens (a b : NcStatus) : Prop :=
  a ≠ .inactive ∧ a < b

def Improves (a b : NcStatus) : Prop :=
  b ≠ .inactive ∧ b < a

instance {a b : NcStatus} : Decidable (Worsens a b) :=
  inferInstanceAs (Decidable (_ ∧ _))

instance {a b : NcStatus} : Decidable (Improves a b) :=
  inferInstanceAs (Decidable (_ ∧ _))

theorem NcStatus.inactive_le {a : NcStatus} : .inactive ≤ a := by
  cases a <;> decide

theorem not_worsens_self {a : NcStatus} : ¬Worsens a a :=
  fun h => lt_irrefl a h.2

theorem not_worsens_healthy {a : NcStatus} : ¬Worsens a .healthy := by
  cases a <;> decide

theorem not_improves_self {a : NcStatus} : ¬Improves a a :=
  fun h => lt_irrefl a h.2

variable {now bound : Rat}

-- The delay is over, as far as the rounded sum tells, which is half a unit in the last place off at most.
structure Waited (since now : Rat) : Prop where
  reached : Rounding.add since STATUS_REPORTING_DELAY ≤ now
  elapsed : since + STATUS_REPORTING_DELAY ≤ now + max (|since + STATUS_REPORTING_DELAY| / 2 ^ 53) (2 ^ (-1075 : Int))

namespace Waited

variable {since since' : Rat}

theorem of_reached (h : Rounding.add since STATUS_REPORTING_DELAY ≤ now) : Waited since now where
  reached := h
  elapsed := by
    have herror := Rounding.abs_round_sub_le (since + STATUS_REPORTING_DELAY)
    have hround := (abs_le.mp herror).1
    unfold Rounding.add at h
    linarith

theorem earlier (h : Waited since now) (hle : since' ≤ since) : Waited since' now :=
  of_reached <| (Rounding.add_mono_left hle _).trans h.reached

end Waited

-- What a domain may do in one step in which it is told of a status, or of none. The bound is a time at or
-- before the last activation.
structure Moved (bound : Rat) (s : DomainState) (newStatus : Option NcStatus) (now : Rat) (s' : DomainState) :
    Prop where
  internal : s'.internalStatus = newStatus.getD s.internalStatus
  time     : s'.internalTime = now ∨ s'.internalTime = s.internalTime ∧ s'.internalStatus = s.internalStatus
  status   : s'.status = s.status ∨ s'.status = s'.internalStatus
  counter  : s'.counter = s.counter + if Worsens s.status s'.status then 1 else 0
  neutral  : (s.internalStatus = .inactive → s.status = .inactive) →
    s'.internalStatus = .inactive → s'.status = .inactive
  better   : Improves s.status s'.status →
    s'.status = s'.internalStatus ∧ Waited s'.internalTime now
  worse    : Worsens s.status s'.status → Waited bound now

theorem Moved.refl {s : DomainState} : Moved bound s none now s where
  internal := rfl
  time     := .inr ⟨rfl, rfl⟩
  status   := .inl rfl
  counter  := by simp [not_worsens_self]
  neutral  := id
  better h := absurd h not_improves_self
  worse h  := absurd h not_worsens_self

namespace DomainState

variable {s s' : DomainState} {newStatus : NcStatus} {u w : Bool}

theorem report_spec (s : DomainState) (newStatus : NcStatus) (now : Rat) :
    (s.report newStatus now).status = s.status ∧ (s.report newStatus now).internalStatus = newStatus ∧
    (s.report newStatus now).counter = s.counter ∧
    ((s.report newStatus now).internalTime = now ∨
      (s.report newStatus now).internalTime = s.internalTime ∧ newStatus = s.internalStatus) ∧
    ((s.report newStatus now).activationTime = now ∨
      (s.report newStatus now).activationTime = s.activationTime) := by
  unfold report
  split <;> split <;> simp_all

-- Each way to publish, with what it waited for.
theorem publish_cases (e : s.publish now STATUS_REPORTING_DELAY = (s', u, w)) :
    s' = s ∧ u = false ∧ w = false ∧
      ((s.internalStatus = .inactive ∨ s.status = .inactive) → s.status = s.internalStatus) ∨
    s' = { s with status := s.internalStatus } ∧ u = true ∧ w = false ∧
      (s.internalStatus = .inactive ∨ s.status = .inactive) ∨
    s' = { s with status := s.internalStatus, counter := s.counter + 1 } ∧ u = true ∧ w = true ∧
      Worsens s.status s.internalStatus ∧ Waited s.activationTime now ∨
    s' = { s with status := s.internalStatus } ∧ u = true ∧ w = false ∧
      Improves s.status s.internalStatus ∧ Waited s.internalTime now := by
  unfold publish at e
  split at e
  · rename_i hn
    split at e <;> cases e
    · exact .inr (.inl ⟨rfl, rfl, rfl, hn⟩)
    · exact .inl ⟨rfl, rfl, rfl, fun _ => by simp_all⟩
  · rename_i hn
    have ⟨hi, hs⟩ := not_or.mp hn
    split at e
    · rename_i hlt
      split at e <;> cases e
      · exact .inr (.inr (.inl ⟨rfl, rfl, rfl, ⟨hs, hlt⟩, .of_reached ‹_›⟩))
      · exact .inl ⟨rfl, rfl, rfl, fun h => absurd h hn⟩
    · rename_i hge
      split at e <;> cases e
      · rename_i hb
        have hlt : s.internalStatus < s.status := lt_of_le_of_ne (not_lt.mp hge) (Ne.symm hb.2)
        exact .inr (.inr (.inr ⟨rfl, rfl, rfl, ⟨hi, hlt⟩, .of_reached hb.1⟩))
      · exact .inl ⟨rfl, rfl, rfl, fun h => absurd h hn⟩

theorem publish_moved (e : s.publish now STATUS_REPORTING_DELAY = (s', u, w)) (hb : bound ≤ s.activationTime) :
    Moved bound s none now s' ∧ (s'.internalStatus = .inactive → s'.status = .inactive) ∧
    s'.activationTime = s.activationTime ∧ (u = false → s'.status = s.status) := by
  have hn {a b : NcStatus} (h : a = .inactive ∨ b = .inactive) : ¬Worsens b a ∧ ¬Improves b a := by
    rcases h with rfl | rfl
    · exact ⟨fun h => absurd h.2 (not_lt.mpr NcStatus.inactive_le), fun h => h.1 rfl⟩
    · exact ⟨fun h => h.1 rfl, fun h => absurd h.2 (not_lt.mpr NcStatus.inactive_le)⟩
  rcases publish_cases e with ⟨rfl, -, -, h⟩ | ⟨rfl, rfl, -, h⟩ | ⟨rfl, rfl, -, h, ha⟩ | ⟨rfl, rfl, -, h, ht⟩
  · refine ⟨⟨rfl, .inr ⟨rfl, rfl⟩, .inl rfl, ?_, id, fun h => absurd h not_improves_self,
      fun h => absurd h not_worsens_self⟩, fun hi => (h (.inl hi)).trans hi, rfl, fun _ => rfl⟩
    simp [not_worsens_self]
  · refine ⟨⟨rfl, .inr ⟨rfl, rfl⟩, .inr rfl, ?_, fun _ => id, fun hi => absurd hi (hn h).2,
      fun hw => absurd hw (hn h).1⟩, id, rfl, fun hu => by cases hu⟩
    simp [(hn h).1]
  · refine ⟨⟨rfl, .inr ⟨rfl, rfl⟩, .inr rfl, ?_, fun _ => id, fun hi => absurd hi.2 h.2.asymm,
      fun _ => ha.earlier hb⟩, id, rfl, fun hu => by cases hu⟩
    simp [h]
  · refine ⟨⟨rfl, .inr ⟨rfl, rfl⟩, .inr rfl, ?_, fun _ => id, fun _ => ⟨rfl, ht⟩, fun hw => absurd hw.2 h.2.asymm⟩,
      id, rfl, fun hu => by cases hu⟩
    simp [Worsens, h.2.asymm]

end DomainState

theorem processOneDomain_moved {s s' : DomainState} {newStatus : Option NcStatus} {u w : Bool}
    (e : processOneDomain s newStatus now = (s', u, w)) (hb : bound ≤ s.activationTime) (hn : bound ≤ now) :
    Moved bound s newStatus now s' ∧ bound ≤ s'.activationTime ∧ (u = false → s'.status = s.status) := by
  cases newStatus with
  | none =>
    have ⟨hm, _, ha, hu⟩ := DomainState.publish_moved e hb
    exact ⟨hm, ha ▸ hb, hu⟩
  | some newStatus =>
    have ⟨hs, hi, hc, ht, ha⟩ := s.report_spec newStatus now
    have hb' : bound ≤ (s.report newStatus now).activationTime := by
      rcases ha with ha | ha <;> rw [ha] <;> assumption
    have ⟨hm, hi', ha', hu⟩ := DomainState.publish_moved e hb'
    have hint : s'.internalStatus = newStatus := hm.internal.trans hi
    refine ⟨⟨hint, ?_, hs ▸ hm.status, ?_, ?_, ?_, ?_⟩, ha' ▸ hb', ?_⟩
    · rcases hm.time with h | ⟨h, -⟩
      · exact .inl h
      · rcases ht with ht | ⟨ht, he⟩
        · exact .inl (h.trans ht)
        · exact .inr ⟨h.trans ht, hint.trans he⟩
    · rw [hm.counter, hc, hs]
    · exact fun _ => hi'
    · rw [← hs]
      exact hm.better
    · rw [← hs]
      exact hm.worse
    · rwa [← hs]

-- What a domain is told and does is in these four of its fields.
def DomainState.Alike (s t : DomainState) : Prop :=
  s.status = t.status ∧ s.internalStatus = t.internalStatus ∧ s.internalTime = t.internalTime ∧
  s.counter = t.counter

theorem DomainState.note_alike (s : DomainState) (newState : NcStatus) (e : EngineEvent) :
    (s.note newState e).Alike s := by
  unfold note
  split <;> exact ⟨rfl, rfl, rfl, rfl⟩

theorem Moved.congr {s s' t : DomainState} {newStatus : Option NcStatus} (ha : t.Alike s)
    (h : Moved bound t newStatus now s') : Moved bound s newStatus now s' := by
  obtain ⟨hs, hi, ht, hc⟩ := ha
  refine ⟨hi ▸ h.internal, ?_, hs ▸ h.status, ?_, ?_, ?_, ?_⟩
  · rw [← ht, ← hi]
    exact h.time
  · rw [← hs, ← hc]
    exact h.counter
  · rw [← hs, ← hi]
    exact h.neutral
  · rw [← hs]
    exact h.better
  · rw [← hs]
    exact h.worse

namespace ResourceMonitor

variable {m m' m₁ : ResourceMonitor} {d d' : Domain} {reports : Domain → Option NcStatus} {times : Readings}
  {done : List Domain} {changed u w : Bool} {e : EngineEvent}

theorem domain_setDomain {s : DomainState} : (m.setDomain s d).domain d' = if d' = d then s else m.domain d' := by
  cases d <;> cases d' <;> rfl

theorem isSender_setDomain {s : DomainState} : (m.setDomain s d).isSender = m.isSender := by
  cases d <;> rfl

theorem active_setDomain {s : DomainState} : (m.setDomain s d).active = m.active := by
  cases d <;> rfl

theorem overallStatus_setDomain {s : DomainState} : (m.setDomain s d).overallStatus = m.overallStatus := by
  cases d <;> rfl

theorem domain_onWorse {info : List Char} : (m.onWorse info).domain d = m.domain d := by
  unfold onWorse
  split <;> cases d <;> rfl

theorem domain_recomputeOverall : m.recomputeOverall.1.domain d = m.domain d := by
  unfold recomputeOverall
  dsimp only
  split_ifs <;> cases d <;> rfl

-- What the domains processed so far have done, and that the others wait for their turn.
structure Follows (bound : Rat) (m : ResourceMonitor) (reports : Domain → Option NcStatus) (times : Readings)
    (done : List Domain) (m' : ResourceMonitor) (changed : Bool) : Prop where
  moved     : ∀ d ∈ done, Moved bound (m.domain d) (reports d) (times.routed d) (m'.domain d)
  kept      : ∀ d ∉ done, m'.domain d = m.domain d
  bounded   : bound ≤ m'.activationTime
  isSender  : m'.isSender = m.isSender
  active    : m'.active = m.active
  overall   : m'.overallStatus = m.overallStatus
  unchanged : changed = false → ∀ d, (m'.domain d).status = (m.domain d).status

namespace Follows

theorem start (hb : bound ≤ m.activationTime) : Follows bound m reports times [] m false :=
  ⟨nofun, fun _ _ => rfl, hb, rfl, rfl, rfl, fun _ _ => rfl⟩

theorem onWorse {info : List Char} (h : Follows bound m reports times done m' changed) :
    Follows bound m reports times done (m'.onWorse info) changed := by
  refine ⟨fun d hd => ?_, fun d hd => ?_, ?_, ?_, ?_, ?_, fun hc d => ?_⟩
  · rw [domain_onWorse]
    exact h.moved d hd
  · rw [domain_onWorse]
    exact h.kept d hd
  all_goals first | rw [domain_onWorse] | (unfold ResourceMonitor.onWorse; split)
  exacts [h.bounded, h.bounded, h.isSender, h.isSender, h.active, h.active, h.overall, h.overall, h.unchanged hc d]

-- The next domain, which the call leaves as it is but for its message and the shared time.
theorem process {s : DomainState} {m₂ : ResourceMonitor} (h : Follows bound m reports times done m₁ changed)
    (hd : d ∉ done) (hb : bound ≤ times.first) (hs : s.Alike (m₁.domain d))
    (e : m₁.processDomain d s (reports d) (times.routed d) = (m₂, u, w)) :
    Follows bound m reports times (d :: done) m₂ (changed || u) := by
  unfold processDomain at e
  obtain ⟨⟨s', u', w'⟩, hp⟩ : ∃ r, processOneDomain { s with activationTime := m₁.activationTime } (reports d)
    (times.routed d) = r := ⟨_, rfl⟩
  rw [hp] at e
  cases e
  rw [h.kept d hd] at hs
  have ⟨hm, ha, hu⟩ := processOneDomain_moved hp h.bounded (hb.trans (times.within d).1)
  have hdom (d' : Domain) : ({ m₁.setDomain s' d with activationTime := s'.activationTime } :
      ResourceMonitor).domain d' = if d' = d then s' else m₁.domain d' := by
    rw [← domain_setDomain]
    cases d' <;> rfl
  refine ⟨fun d' hd' => ?_, fun d' hd' => ?_, ha, ?_, ?_, ?_, fun hc d' => ?_⟩
  · rw [hdom]
    by_cases he : d' = d
    · subst he
      rw [if_pos rfl]
      exact .congr (t := { s with activationTime := m₁.activationTime }) hs hm
    · rw [if_neg he]
      exact h.moved d' (List.mem_of_ne_of_mem he hd')
  · have ⟨hne, hd'⟩ := List.ne_and_not_mem_of_not_mem_cons hd'
    rw [hdom, if_neg hne]
    exact h.kept d' hd'
  · exact isSender_setDomain.trans h.isSender
  · exact active_setDomain.trans h.active
  · exact overallStatus_setDomain.trans h.overall
  · rw [Bool.or_eq_false_iff] at hc
    rw [hdom]
    split
    · subst d'
      exact (hu hc.2).trans hs.1
    · exact h.unchanged hc.1 d'

theorem skip (h : Follows bound m reports times done m₁ changed) (hd : d ∉ done) (hr : reports d = none) :
    Follows bound m reports times (d :: done) m₁ changed where
  moved d' hd' := by
    by_cases he : d' = d
    · subst he
      rw [hr, h.kept d' hd]
      exact .refl
    · exact h.moved d' (List.mem_of_ne_of_mem he hd')
  kept d' hd' := h.kept d' (List.not_mem_of_not_mem_cons hd')
  bounded   := h.bounded
  isSender  := h.isSender
  active    := h.active
  overall   := h.overall
  unchanged := h.unchanged

theorem routeToDomain {newState : NcStatus} {m₂ : ResourceMonitor}
    (h : Follows bound m reports times done m₁ changed) (hd : d ∉ done) (hb : bound ≤ times.first)
    (hr : reports d = some newState) (eq : m₁.routeToDomain d newState e (times.routed d) = (m₂, u)) :
    Follows bound m reports times (d :: done) m₂ (changed || u) := by
  obtain ⟨⟨m', u', w⟩, hp⟩ : ∃ r, m₁.processDomain d ((m₁.domain d).note newState e) (some newState)
    (times.routed d) = r := ⟨_, rfl⟩
  rw [ResourceMonitor.routeToDomain, hp] at eq
  cases eq
  have := h.process hd hb (DomainState.note_alike _ newState e) (hr ▸ hp)
  split
  · exact this.onWorse
  · exact this

theorem routeIfKnown {newState : Option NcStatus} {m₂ : ResourceMonitor}
    (h : Follows bound m reports times done m₁ changed) (hd : d ∉ done) (hb : bound ≤ times.first)
    (hr : reports d = newState) (eq : m₁.routeIfKnown d newState e (times.routed d) = (m₂, u)) :
    Follows bound m reports times (d :: done) m₂ (changed || u) := by
  cases newState with
  | some newState => exact h.routeToDomain hd hb hr eq
  | none =>
    cases eq
    rw [Bool.or_false]
    exact h.skip hd hr

theorem tickDomain {m₂ : ResourceMonitor} (h : Follows bound m reports times done m₁ changed) (hd : d ∉ done)
    (hb : bound ≤ times.first) (hr : reports d = none)
    (eq : m₁.tickDomain d (times.routed d) = (m₂, u)) :
    Follows bound m reports times (d :: done) m₂ (changed || u) := by
  obtain ⟨⟨m', u', w⟩, hp⟩ : ∃ r, m₁.processDomain d (m₁.domain d) none (times.routed d) = r := ⟨_, rfl⟩
  rw [ResourceMonitor.tickDomain, hp] at eq
  cases eq
  have := h.process hd hb ⟨rfl, rfl, rfl, rfl⟩ (hr ▸ hp)
  split
  · exact this.onWorse
  · exact this

theorem moved_all (h : Follows bound m reports times done m' changed) (hn : ∀ d ∉ done, reports d = none) :
    ∀ d, Moved bound (m.domain d) (reports d) (times.routed d) (m'.domain d) := by
  intro d
  by_cases hd : d ∈ done
  · exact h.moved d hd
  · rw [hn d hd, h.kept d hd]
    exact .refl

end Follows
def computed (m : ResourceMonitor) : NcStatus :=
  computeOverallStatus m.link.status m.transport.status m.essence.status m.sync.status

theorem computed_congr (h : ∀ d, (m'.domain d).status = (m.domain d).status) : m'.computed = m.computed := by
  have hl := h .link
  have ht := h .transport
  have he := h .essence
  have hs := h .sync
  simp only [domain] at hl ht he hs
  rw [computed, computed, hl, ht, he, hs]

theorem recomputeOverall_spec : m.recomputeOverall.1.overallStatus = m.computed ∧
    m.recomputeOverall.1.active = m.active ∧ m.recomputeOverall.1.isSender = m.isSender ∧
    m.recomputeOverall.1.activationTime = m.activationTime := by
  unfold recomputeOverall
  dsimp only
  split_ifs <;> simp_all [computed]

end ResourceMonitor

-- What an event is about, and what it reports of each domain.
namespace EngineEvent

variable (e : EngineEvent)

def concernsTransport : Prop :=
  e.domain = .transport ∨ e.domain = .vendorTransport

def concernsEssence : Prop :=
  e.domain = .essence ∨ e.domain = .vendorEssence

instance : Decidable e.concernsTransport :=
  inferInstanceAs (Decidable (_ ∨ _))

instance : Decidable e.concernsEssence :=
  inferInstanceAs (Decidable (_ ∨ _))

def activates : Prop :=
  e.concernsTransport ∧ e.event = .vendorTransportActivate

def deactivates : Prop :=
  e.concernsTransport ∧ e.event = .vendorTransportDeactivate

instance : Decidable e.activates :=
  inferInstanceAs (Decidable (_ ∧ _))

instance : Decidable e.deactivates :=
  inferInstanceAs (Decidable (_ ∧ _))

-- The events that are processed: those in scope, and of transport and essence only while active.
def accepted (isSender active : Bool) : Prop :=
  e.scope = (if isSender then .sender else .receiver) ∧
  (e.concernsTransport ∨ e.concernsEssence → active ∨ e.activates)

instance {isSender active : Bool} : Decidable (e.accepted isSender active) :=
  inferInstanceAs (Decidable (_ ∧ _))

def reports (isSender : Bool) : Domain → Option NcStatus
  | .link      => if e.domain = .link then getLinkNewState e else none
  | .transport =>
    if e.concernsTransport then getTransmissionNewState e
    else if e.concernsEssence ∧ ¬isSender then
      if e.event = .vendorEssenceStop then some .inactive
      else if e.event = .vendorEssenceStart then some .healthy
      else none
    else none
  | .essence   =>
    if e.concernsTransport then
      if e.activates then some .healthy else if e.deactivates then some .inactive else none
    else if e.concernsEssence then getEssenceNewState e
    else none
  | .sync      => if e.domain = .clock then getSynchronizationNewState e else none

end EngineEvent

namespace ResourceMonitor

variable {m m' : ResourceMonitor} {times : Readings} {e : EngineEvent} {done : List Domain} {c changed : Bool}

-- A step that is not an activation.
structure Stepped (bound : Rat) (m : ResourceMonitor) (reports : Domain → Option NcStatus) (times : Readings)
    (m' : ResourceMonitor) : Prop where
  moved    : ∀ d, Moved bound (m.domain d) (reports d) (times.routed d) (m'.domain d)
  bounded  : bound ≤ m'.activationTime
  isSender : m'.isSender = m.isSender
  overall  : m.overallStatus = m.computed → m'.overallStatus = m'.computed

theorem finish_frame : (m.finish c).1.active = m.active ∧ (m.finish c).1.isSender = m.isSender ∧
    (m.finish c).1.activationTime = m.activationTime ∧ ∀ d, (m.finish c).1.domain d = m.domain d := by
  unfold finish
  cases c with
  | false => exact ⟨rfl, rfl, rfl, fun _ => rfl⟩
  | true =>
    have ⟨_, ha, hi, ht⟩ := recomputeOverall_spec (m := m)
    exact ⟨ha, hi, ht, fun _ => domain_recomputeOverall⟩

theorem Follows.finish {reports : Domain → Option NcStatus} (h : Follows bound m reports times done m' changed)
    (hn : ∀ d ∉ done, reports d = none) (a : Bool) :
    Stepped bound m reports times ({ m' with active := a }.finish changed).1 ∧
      ({ m' with active := a }.finish changed).1.active = a := by
  have hdom : ∀ d, ({ m' with active := a } : ResourceMonitor).domain d = m'.domain d := by
    intro d
    cases d <;> rfl
  obtain ⟨ha, hi, ht, hd⟩ := finish_frame (m := { m' with active := a }) (c := changed)
  refine ⟨⟨fun d => ?_, ?_, hi.trans h.isSender, fun ho => ?_⟩, ha⟩
  · rw [hd, hdom]
    exact h.moved_all hn d
  · rw [ht]
    exact h.bounded
  · rw [computed_congr (m := m') fun d => by rw [hd, hdom]]
    cases changed with
    | false => exact (h.overall.trans ho).trans (computed_congr (h.unchanged rfl)).symm
    | true => exact recomputeOverall_spec.1

theorem tick_stepped (hb : bound ≤ m.activationTime) (hf : bound ≤ times.first) :
    Stepped bound m (fun _ => none) times (m.tick times).1 ∧ (m.tick times).1.active = m.active := by
  rcases e₁ : m.tickDomain .link (times.routed .link) with ⟨m₁, u₁⟩
  rcases e₂ : m₁.tickDomain .transport (times.routed .transport) with ⟨m₂, u₂⟩
  rcases e₃ : m₂.tickDomain .essence (times.routed .essence) with ⟨m₃, u₃⟩
  rcases e₄ : m₃.tickDomain .sync (times.routed .sync) with ⟨m₄, u₄⟩
  have h₀ : Follows bound m (fun _ => none) times [] m false := .start hb
  have h₁ := h₀.tickDomain (by simp) hf rfl e₁
  have h₂ := h₁.tickDomain (by simp) hf rfl e₂
  have h₃ := h₂.tickDomain (by simp) hf rfl e₃
  have h₄ := h₃.tickDomain (by simp) hf rfl e₄
  simp only [tick, e₁, e₂, e₃, e₄]
  have ⟨hs, ha⟩ := h₄.finish (fun _ _ => rfl) m₄.active
  exact ⟨hs, ha.trans h₄.active⟩

theorem getNewState_eq : (if m.isSender then getTransmissionNewState e else getConnectionNewState e) =
    getTransmissionNewState e := ite_self _

theorem getNewState_eq' : (if m.isSender then getEssenceNewState e else getStreamNewState e) =
    getEssenceNewState e := ite_self _

theorem transport_stepped (hb : bound ≤ m.activationTime) (hf : bound ≤ times.first)
    (hc : e.concernsTransport) (ha : ¬e.activates) (hm : m.active) :
    Stepped bound m (e.reports m.isSender) times (m.processTransportEvent e times).1 ∧
      (m.processTransportEvent e times).1.active = (m.active && ¬e.deactivates) := by
  have hna : e.event ≠ .vendorTransportActivate := fun h => ha ⟨hc, h⟩
  have hl : e.domain ≠ .link ∧ e.domain ≠ .clock := by
    rcases hc with h | h <;> simp [h]
  have h₀ : Follows bound m (e.reports m.isSender) times [] m false := .start hb
  have ht : e.reports m.isSender .transport = getTransmissionNewState e := if_pos hc
  rcases e₁ : m.routeIfKnown .transport (getTransmissionNewState e) e (times.routed .transport) with ⟨m₁, u₁⟩
  have h₁ := h₀.routeIfKnown (by simp) hf ht e₁
  simp only [processTransportEvent, hm, not_true, false_and, if_false, hna, getNewState_eq, e₁]
  by_cases hd : e.event = .vendorTransportDeactivate
  · have he : e.reports m.isSender .essence = some .inactive := by
      simp [EngineEvent.reports, hc, ha, EngineEvent.deactivates, hd]
    rcases e₂ : m₁.routeToDomain .essence .inactive e (times.routed .essence) with ⟨m₂, u₂⟩
    have h₂ := h₁.routeToDomain (by simp) hf he e₂
    have hn : ∀ d ∉ [Domain.essence, Domain.transport], e.reports m.isSender d = none := by
      intro d hd
      cases d <;> simp_all [EngineEvent.reports]
    simp only [hd, if_true, EngineEvent.deactivates, hc, and_self]
    exact h₂.finish hn false
  · have hn : ∀ d ∉ [Domain.transport], e.reports m.isSender d = none := by
      intro d hd'
      cases d <;> simp_all [EngineEvent.reports, EngineEvent.deactivates]
    simp only [hd, if_false, EngineEvent.deactivates, and_false]
    have ⟨hs, hact⟩ := h₁.finish hn m₁.active
    exact ⟨hs, hact.trans (by simp [h₁.active, hm])⟩

theorem essence_stepped (hb : bound ≤ m.activationTime) (hf : bound ≤ times.first)
    (hc : e.concernsEssence) (hm : m.active) :
    Stepped bound m (e.reports m.isSender) times (m.processEssenceEvent e times).1 ∧
      (m.processEssenceEvent e times).1.active = m.active := by
  have hnt : ¬e.concernsTransport := by
    rcases hc with h | h <;> simp [EngineEvent.concernsTransport, h]
  have hl : e.domain ≠ .link ∧ e.domain ≠ .clock := by
    rcases hc with h | h <;> simp [h]
  have h₀ : Follows bound m (e.reports m.isSender) times [] m false := .start hb
  have he : e.reports m.isSender .essence = getEssenceNewState e := by
    simp [EngineEvent.reports, hnt, hc]
  rcases e₁ : m.routeIfKnown .essence (getEssenceNewState e) e (times.routed .essence) with ⟨m₁, u₁⟩
  have h₁ := h₀.routeIfKnown (by simp) hf he e₁
  have ht : e.reports m.isSender .transport =
      if m₁.isSender then none
      else if e.event = .vendorEssenceStop then some .inactive
      else if e.event = .vendorEssenceStart then some .healthy
      else none := by
    rw [h₁.isSender]
    cases m.isSender <;> simp [EngineEvent.reports, hnt, hc]
  simp only [processEssenceEvent, hm, not_true, if_false, getNewState_eq', e₁]
  rcases e₂ : m₁.routeIfKnown .transport _ e (times.routed .transport) with ⟨m₂, u₂⟩
  have h₂ := h₁.routeIfKnown (by simp) hf ht e₂
  have hn : ∀ d ∉ [Domain.transport, Domain.essence], e.reports m.isSender d = none := by
    intro d hd
    cases d <;> simp_all [EngineEvent.reports]
  have ⟨hs, hact⟩ := h₂.finish hn m₂.active
  exact ⟨hs, hact.trans (h₂.active.trans hm)⟩

theorem other_stepped {d : Domain} {newState : Option NcStatus} (hb : bound ≤ m.activationTime)
    (hf : bound ≤ times.first) (hr : e.reports m.isSender d = newState)
    (hn : ∀ d' ≠ d, e.reports m.isSender d' = none) :
    let (m', u) := m.routeIfKnown d newState e (times.routed d)
    Stepped bound m (e.reports m.isSender) times (m'.finish u).1 ∧ (m'.finish u).1.active = m.active := by
  rcases e₁ : m.routeIfKnown d newState e (times.routed d) with ⟨m₁, u₁⟩
  have h₁ := (Follows.start hb).routeIfKnown (by simp) hf hr e₁
  have ⟨hs, hact⟩ := h₁.finish (fun d' hd' => hn d' (by simpa using hd')) m₁.active
  exact ⟨hs, hact.trans h₁.active⟩

-- An event that is not processed, and one that does not activate.
theorem event_stepped (hb : bound ≤ m.activationTime) (hf : bound ≤ times.first) (ha : ¬e.activates)
    (hacc : e.accepted m.isSender m.active) :
    Stepped bound m (e.reports m.isSender) times (m.processEvent e times).1 ∧
      (m.processEvent e times).1.active = (m.active && ¬e.deactivates) := by
  have ⟨hs, hg⟩ := hacc
  simp only [processEvent, hs, ne_eq, not_true, if_false]
  have hnc (h : ¬e.concernsTransport) : (m.active && ¬e.deactivates) = m.active := by
    simp [EngineEvent.deactivates, h]
  cases hd : e.domain with
  | link =>
    have hnt : ¬e.concernsTransport := by simp [EngineEvent.concernsTransport, hd]
    rw [hnc hnt]
    refine other_stepped hb hf (if_pos hd) fun d hne => ?_
    cases d <;> simp_all [EngineEvent.reports, EngineEvent.concernsEssence]
  | transport =>
    have hc : e.concernsTransport := .inl hd
    exact transport_stepped hb hf hc ha ((hg (.inl hc)).resolve_right ha)
  | vendorTransport =>
    have hc : e.concernsTransport := .inr hd
    exact transport_stepped hb hf hc ha ((hg (.inl hc)).resolve_right ha)
  | essence =>
    have hc : e.concernsEssence := .inl hd
    rw [hnc (by simp [EngineEvent.concernsTransport, hd])]
    exact essence_stepped hb hf hc ((hg (.inr hc)).resolve_right ha)
  | vendorEssence =>
    have hc : e.concernsEssence := .inr hd
    rw [hnc (by simp [EngineEvent.concernsTransport, hd])]
    exact essence_stepped hb hf hc ((hg (.inr hc)).resolve_right ha)
  | clock =>
    have hnt : ¬e.concernsTransport := by simp [EngineEvent.concernsTransport, hd]
    rw [hnc hnt]
    refine other_stepped hb hf (if_pos hd) fun d hne => ?_
    cases d <;> simp_all [EngineEvent.reports, EngineEvent.concernsEssence]
  | _ =>
    have hnt : ¬e.concernsTransport := by simp [EngineEvent.concernsTransport, hd]
    have hne : ¬e.concernsEssence := by simp [EngineEvent.concernsEssence, hd]
    rw [hnc hnt]
    have hr : ∀ d, e.reports m.isSender d = none := by
      intro d
      cases d <;> simp [EngineEvent.reports, hnt, hne, hd]
    exact ⟨⟨fun d => hr d ▸ .refl, hb, rfl, id⟩, rfl⟩

theorem event_dropped (h : ¬e.accepted m.isSender m.active) : (m.processEvent e times).1 = m := by
  unfold processEvent
  by_cases hs : e.scope = if m.isSender then .sender else .receiver
  · have hg : (e.concernsTransport ∨ e.concernsEssence) ∧ ¬m.active ∧ ¬e.activates := by
      simpa [EngineEvent.accepted, hs] using h
    obtain ⟨hc, hm, ha⟩ := hg
    simp only [hs, ne_eq, not_true, if_false]
    rcases hc with (hd | hd) | (hd | hd)
    · have hne : e.event ≠ .vendorTransportActivate := fun he => ha ⟨.inl hd, he⟩
      simp [hd, processTransportEvent, hm, hne]
    · have hne : e.event ≠ .vendorTransportActivate := fun he => ha ⟨.inr hd, he⟩
      simp [hd, processTransportEvent, hm, hne]
    · simp [hd, processEssenceEvent, hm]
    · simp [hd, processEssenceEvent, hm]
  · rw [if_pos hs]

-- A reset domain that is told of Healthy is Healthy at once, and since then the resource counts as active.
theorem processOneDomain_reset {s : DomainState} (now : Rat) (hs : s.status = .inactive)
    (hi : s.internalStatus = .inactive) : processOneDomain s (some .healthy) now =
      ({ s with status := .healthy, internalStatus := .healthy, internalTime := now, activationTime := now },
        true, false) := by
  simp [processOneDomain, DomainState.report, DomainState.publish, hs, hi]

theorem routeToDomain_reset (m : ResourceMonitor) (d : Domain) (e : EngineEvent) (now : Rat)
    (hs : (m.domain d).status = .inactive)
    (hi : (m.domain d).internalStatus = .inactive) :
    let m' := (m.routeToDomain d .healthy e now).1
    (m'.domain d).Alike { m.domain d with status := .healthy, internalStatus := .healthy, internalTime := now } ∧
    (∀ d' ≠ d, m'.domain d' = m.domain d') ∧ m'.activationTime = now ∧ m'.active = m.active ∧
      m'.isSender = m.isSender := by
  have ⟨as, ai, at', ac⟩ := DomainState.note_alike (m.domain d) .healthy e
  have hp := processOneDomain_reset now
    (s := { (m.domain d).note .healthy e with activationTime := m.activationTime }) (as.trans hs) (ai.trans hi)
  have hdom (s : DomainState) (t : Rat) (d' : Domain) :
      ({ m.setDomain s d with activationTime := t } : ResourceMonitor).domain d' =
        if d' = d then s else m.domain d' := by
    rw [← domain_setDomain]
    cases d' <;> rfl
  simp only [routeToDomain, processDomain, hp, Bool.false_eq_true, if_false]
  refine ⟨?_, fun d' hne => ?_, trivial, active_setDomain, isSender_setDomain⟩
  · rw [hdom, if_pos rfl]
    exact ⟨rfl, rfl, rfl, ac⟩
  · rw [hdom, if_neg hne]

-- An activation: the counters begin again, and transport and essence are Healthy.
structure Activated (m : ResourceMonitor) (times : Readings) (m' : ResourceMonitor) : Prop where
  active   : m'.active = true
  isSender : m'.isSender = m.isSender
  bounded  : times.first ≤ m'.activationTime
  overall  : m'.overallStatus = m'.computed
  spared   : ∀ d ∈ [Domain.link, .sync], m'.domain d = { m.domain d with counter := 0 }
  forced   : ∀ d ∈ [Domain.transport, .essence], (m'.domain d).Alike
    { status := .healthy, internalStatus := .healthy, internalTime := times.routed d }

theorem event_activated (ha : e.activates) (hs : e.scope = if m.isSender then .sender else .receiver) :
    Activated m times (m.processEvent e times).1 := by
  have ⟨hc, he⟩ := ha
  have hpe : m.processEvent e times = m.processTransportEvent e times := by
    unfold processEvent
    rw [if_neg (not_not.mpr hs)]
    rcases hc with h | h <;> rw [h]
  have hn : getTransmissionNewState e = some .healthy := by
    rw [getTransmissionNewState, he]
  rw [hpe]
  simp only [processTransportEvent, he, ne_eq, not_true, and_false, if_false, if_true, getConnectionNewState, hn,
    ite_self, routeIfKnown]
  generalize hm₀ : { m with active := true }.handleActivationReset times.reset = m₀
  have hr : ∀ d ∈ [Domain.transport, .essence], m₀.domain d = { internalTime := times.reset } := by
    subst hm₀
    simp [handleActivationReset, domain]
  have hsp : ∀ d ∈ [Domain.link, .sync], m₀.domain d = { m.domain d with counter := 0 } := by
    subst hm₀
    simp [handleActivationReset, domain]
  have ha₀ : m₀.active = true ∧ m₀.isSender = m.isSender := by
    subst hm₀
    exact ⟨rfl, rfl⟩
  obtain ⟨ht, hk, -, ha₁, hi₁⟩ := m₀.routeToDomain_reset .transport e (times.routed .transport)
    (by rw [hr _ (by simp)]) (by rw [hr _ (by simp)])
  generalize (m₀.routeToDomain .transport .healthy e (times.routed .transport)).1 = m₁ at *
  have hr₁ := hk .essence (by decide)
  rw [hr _ (by simp)] at hr₁ ht
  obtain ⟨ht', hk', hb', ha₂, hi₂⟩ := m₁.routeToDomain_reset .essence e (times.routed .essence) (by rw [hr₁])
    (by rw [hr₁])
  generalize (m₁.routeToDomain .essence .healthy e (times.routed .essence)).1 = m₂ at *
  rw [hr₁] at ht'
  have ⟨hfa, hfi, hft, hfd⟩ := finish_frame (m := m₂) (c := true)
  constructor
  case active => exact hfa.trans (ha₂.trans (ha₁.trans ha₀.1))
  case isSender => exact hfi.trans (hi₂.trans (hi₁.trans ha₀.2))
  case bounded =>
    rw [hft, hb']
    exact (times.within .essence).1
  case overall =>
    rw [computed_congr (m := m₂) fun d => by rw [hfd]]
    exact recomputeOverall_spec.1
  case spared =>
    intro d hd
    have hne : d ≠ .transport ∧ d ≠ .essence := by
      rcases List.mem_pair.mp hd with rfl | rfl <;> decide
    rw [hfd, hk' d hne.2, hk d hne.1]
    exact hsp d hd
  case forced =>
    intro d hd
    rw [hfd]
    rcases List.mem_pair.mp hd with rfl | rfl
    · rw [hk' _ (by decide)]
      exact ht
    · exact ht'

end ResourceMonitor
end Status
