import NmosReference.Library.Transition
import NmosReference.Status.MonitorSteps

-- A monitor fed with events and ticks at non-decreasing times, next to an observer that sees no more of it
-- than what the events report and what is published.
namespace Status

inductive Input
  | event (e : EngineEvent)
  | tick

structure Observer where
  isSender   : Bool
  -- Whether an activate event was processed since the last deactivate event.
  active     : Bool
  -- When the last activate event was processed.
  activation : Option Rat
  -- How often the published status has become worse since then.
  worsenings : Domain → Nat
  -- The status reported last, and since when it has been.
  latest     : Domain → NcStatus × Rat

-- A status that is reported again was reported since before.
def told (latest : NcStatus × Rat) (reported : Option NcStatus) (now : Rat) : NcStatus × Rat :=
  match reported with
  | some s => if s = latest.1 then latest else (s, now)
  | none   => latest

namespace Observer

variable (o : Observer)

-- What the processed input reports of a domain.
def reported : Input → Domain → Option NcStatus
  | .event e, d => if e.accepted o.isSender o.active then e.reports o.isSender d else none
  | .tick,    _ => none

def activates : Input → Prop
  | .event e => e.accepted o.isSender o.active ∧ e.activates
  | .tick    => False

def deactivates : Input → Prop
  | .event e => e.accepted o.isSender o.active ∧ e.deactivates
  | .tick    => False

instance {input : Input} : Decidable (o.activates input) :=
  match input with
  | .event _ => inferInstanceAs (Decidable (_ ∧ _))
  | .tick    => inferInstanceAs (Decidable False)

instance {input : Input} : Decidable (o.deactivates input) :=
  match input with
  | .event _ => inferInstanceAs (Decidable (_ ∧ _))
  | .tick    => inferInstanceAs (Decidable False)

def observe (input : Input) (times : Readings) (before after : Domain → NcStatus) : Observer where
  isSender   := o.isSender
  active     := if o.activates input then true else if o.deactivates input then false else o.active
  activation := if o.activates input then some times.first else o.activation
  worsenings d :=
    if o.activates input then 0
    else o.worsenings d + if Worsens (before d) (after d) then 1 else 0
  latest d := told (o.latest d) (o.reported input d) (times.routed d)

end Observer

structure Watch where
  monitor  : ResourceMonitor
  observer : Observer
  clock    : Rat

namespace Watch

def status (w : Watch) (d : Domain) : NcStatus :=
  (w.monitor.domain d).status

def new (isSender : Bool) (times : Readings) : Watch where
  monitor  := .new isSender times
  observer := {
    isSender
    active       := false
    activation   := none
    worsenings _ := 0
    latest d     := ((ResourceMonitor.new isSender times).domain d |>.status, times.routed d) }
  clock    := times.last

def process (m : ResourceMonitor) (times : Readings) : Input → ResourceMonitor
  | .event e => (m.processEvent e times).1
  | .tick    => (m.tick times).1

def step (w : Watch) (a : Input × Readings) : Option Watch :=
  let (input, times) := a
  if w.clock ≤ times.first then
    let m := process w.monitor times input
    some {
      monitor  := m
      observer := w.observer.observe input times w.status fun d => (m.domain d).status
      clock    := times.last }
  else none

def system (isSender : Bool) (times : Readings) : TransitionSystem Watch (Input × Readings) where
  init := new isSender times
  step := step

-- What is published agrees with what was observed.
structure Consistent (w : Watch) : Prop where
  overall  : w.monitor.overallStatus =
    computeOverallStatus (w.status .link) (w.status .transport) (w.status .essence) (w.status .sync)
  idle     : w.observer.active = false → w.status .transport = .inactive ∧ w.status .essence = .inactive
  counters : ∀ d, (w.monitor.domain d).counter = w.observer.worsenings d

-- A status becomes better only if it was reported last and long enough, and worse only if the last activation is
-- long enough ago.
structure Patient (w w' : Watch) (input : Input) (times : Readings) : Prop where
  better : ¬w.observer.activates input → ∀ d, Improves (w.status d) (w'.status d) →
    (w'.observer.latest d).1 = w'.status d ∧
    Waited (w'.observer.latest d).2 (times.routed d)
  worse  : ∀ d, Worsens (w.status d) (w'.status d) → ∀ t, w'.observer.activation = some t →
    Waited t (times.routed d)

-- The invariant: the fields of the monitor are what the observer saw.
structure Agrees (w : Watch) : Prop extends Consistent w where
  isSender   : w.observer.isSender = w.monitor.isSender
  active     : w.observer.active = w.monitor.active
  latest     : ∀ d, (w.observer.latest d).1 = (w.monitor.domain d).internalStatus
  since      : ∀ d, (w.observer.latest d).2 ≤ (w.monitor.domain d).internalTime
  past       : ∀ d, (w.observer.latest d).2 ≤ w.clock
  neutral    : ∀ d, (w.monitor.domain d).internalStatus = .inactive → w.status d = .inactive
  dormant    : w.observer.active = false → ∀ d ∈ [Domain.transport, .essence],
    (w.monitor.domain d).internalStatus = .inactive
  activation : ∀ t, w.observer.activation = some t → t ≤ w.monitor.activationTime ∧ t ≤ w.clock

variable {w w' : Watch} {input : Input} {times : Readings} {isSender : Bool}

theorem agrees_new : (new isSender times).Agrees where
  overall    := rfl
  idle       := fun _ => ⟨rfl, rfl⟩
  counters d := by cases d <;> rfl
  isSender   := rfl
  active     := rfl
  latest d   := by cases d <;> rfl
  since d    := by cases d <;> exact le_rfl
  past d     := (times.within d).2
  neutral d  := by cases d <;> simp [new, status, ResourceMonitor.new, ResourceMonitor.domain]
  dormant    := by simp [new, ResourceMonitor.new, ResourceMonitor.domain]
  activation := nofun

-- An input that does not activate moves each domain as it reports.
theorem process_stepped {bound : Rat} (hi : w.Agrees) (ha : ¬w.observer.activates input)
    (hb : bound ≤ w.monitor.activationTime) (hf : bound ≤ times.first) :
    ResourceMonitor.Stepped bound w.monitor (w.observer.reported input) times (process w.monitor times input) ∧
      (process w.monitor times input).active = (w.monitor.active && ¬w.observer.deactivates input) := by
  cases input with
  | tick =>
    have ⟨hs, hact⟩ := ResourceMonitor.tick_stepped hb hf
    exact ⟨hs, hact.trans (by simp [Observer.deactivates])⟩
  | event e =>
    have hr : w.observer.reported (.event e) = fun d => if e.accepted w.monitor.isSender w.monitor.active
        then e.reports w.monitor.isSender d else none := by
      funext d
      rw [Observer.reported, hi.isSender, hi.active]
    by_cases hacc : e.accepted w.monitor.isSender w.monitor.active
    · have hna : ¬e.activates := fun h => ha ⟨by rwa [hi.isSender, hi.active], h⟩
      have ⟨hs, hact⟩ := ResourceMonitor.event_stepped hb hf hna hacc
      rw [hr]
      simp only [hacc, if_true]
      refine ⟨hs, hact.trans ?_⟩
      simp [Observer.deactivates, hi.isSender, hi.active, hacc]
    · have hm : process w.monitor times (.event e) = w.monitor := ResourceMonitor.event_dropped hacc
      rw [hm, hr]
      simp only [hacc, if_false]
      refine ⟨⟨fun d => .refl, hb, rfl, id⟩, ?_⟩
      simp [Observer.deactivates, hi.isSender, hi.active, hacc]

theorem step_eq_some (e : w.step (input, times) = some w') : w.clock ≤ times.first ∧
    w' = {
      monitor  := process w.monitor times input
      observer := w.observer.observe input times w.status fun d => ((process w.monitor times input).domain d).status
      clock    := times.last } := by
  unfold step at e
  dsimp only at e
  split at e
  · exact ⟨‹_›, (Option.some.inj e).symm⟩
  · cases e

theorem first_le_last : times.first ≤ times.last :=
  times.resets.1.trans times.resets.2

theorem told_spec {s s' : DomainState} {latest : NcStatus × Rat} {reported : Option NcStatus} {now : Rat}
    (hl : latest.1 = s.internalStatus) (hs : latest.2 ≤ s.internalTime) (hn : latest.2 ≤ now)
    (hi : s'.internalStatus = reported.getD s.internalStatus)
    (ht : s'.internalTime = now ∨ s'.internalTime = s.internalTime ∧ s'.internalStatus = s.internalStatus) :
    (told latest reported now).1 = s'.internalStatus ∧ (told latest reported now).2 ≤ s'.internalTime ∧
      (told latest reported now).2 ≤ now := by
  have hkept : latest.2 ≤ s'.internalTime := by
    rcases ht with ht | ⟨ht, -⟩ <;> rwa [ht]
  cases reported with
  | none => exact ⟨hl.trans hi.symm, hkept, hn⟩
  | some r =>
    unfold told
    dsimp only
    split
    · exact ⟨(‹r = _› : r = latest.1).symm.trans hi.symm, hkept, hn⟩
    · rename_i hne
      refine ⟨hi.symm, ?_, le_rfl⟩
      rcases ht with ht | ⟨-, he⟩
      · exact ht.ge
      · exact absurd (hi.symm.trans (he.trans hl.symm)) hne

-- What is dormant is told only of Inactive.
theorem reported_dormant (ha : ¬w.observer.activates input)
    (h : (w.observer.active && ¬w.observer.deactivates input) = false) :
    ∀ d ∈ [Domain.transport, .essence],
      w.observer.reported input d = none ∧ w.observer.active = false ∨
      w.observer.reported input d = some .inactive := by
  cases input with
  | tick => exact fun d _ => .inl ⟨rfl, by simpa [Observer.deactivates] using h⟩
  | event e =>
    by_cases hacc : e.accepted w.observer.isSender w.observer.active
    · have hna : ¬e.activates := fun h => ha ⟨hacc, h⟩
      cases hact : w.observer.active with
      | false =>
        have hg : ¬(e.concernsTransport ∨ e.concernsEssence) := fun hc => by
          simpa [hact, hna] using hacc.2 hc
        have ⟨ht, he⟩ := not_or.mp hg
        simp [Observer.reported, hacc, EngineEvent.reports, ht, he]
      | true =>
        have hd : e.deactivates := by
          simp only [hact, Bool.true_and, decide_eq_false_iff_not, not_not] at h
          exact h.2
        have hn : getTransmissionNewState e = some .inactive := by
          rw [getTransmissionNewState, hd.2]
        simp [Observer.reported, hacc, EngineEvent.reports, hd.1, hn, hna, hd]
    · have hact : w.observer.active = false := by
        simpa [Observer.deactivates, hacc] using h
      exact fun d _ => .inl ⟨if_neg hacc, hact⟩

theorem Agrees.step_other (hi : w.Agrees) (ha : ¬w.observer.activates input)
    (e : w.step (input, times) = some w') : w'.Agrees ∧ Patient w w' input times := by
  obtain ⟨hclock, rfl⟩ := step_eq_some e
  have hpast (d : Domain) : (w.observer.latest d).2 ≤ times.routed d :=
    (hi.past d).trans (hclock.trans (times.within d).1)
  have ⟨hst, hact⟩ := process_stepped hi ha (min_le_left _ times.first) (min_le_right _ _)
  have hbound (t : Rat) (ht : w.observer.activation = some t) :=
    have ⟨h₁, h₂⟩ := hi.activation t ht
    (process_stepped hi ha h₁ (h₂.trans hclock)).1
  have hdorm := reported_dormant ha
  rw [hi.active, ← hact] at hdorm
  generalize process w.monitor times input = m at *
  have htold (d : Domain) := told_spec (hi.latest d) (hi.since d) (hpast d) (hst.moved d).internal (hst.moved d).time
  have hneutral (d : Domain) : (m.domain d).internalStatus = .inactive → (m.domain d).status = .inactive :=
    (hst.moved d).neutral (hi.neutral d)
  have hactive : (w.observer.observe input times w.status fun d => (m.domain d).status).active = m.active := by
    rw [hact, Observer.observe, if_neg ha, hi.active]
    split <;> simp_all
  have hdormant (h : m.active = false) :
      ∀ d ∈ [Domain.transport, .essence], (m.domain d).internalStatus = .inactive := by
    intro d hd
    rw [(hst.moved d).internal]
    rcases hdorm h d hd with ⟨hr, ho⟩ | hr <;> rw [hr]
    · exact hi.dormant (hi.active.trans ho) d hd
    · rfl
  constructor
  · constructor
    case isSender => exact hi.isSender.trans hst.isSender.symm
    case active => exact hactive
    case latest => exact fun d => (htold d).1
    case since => exact fun d => (htold d).2.1
    case past => exact fun d => (htold d).2.2.trans (times.within d).2
    case neutral => exact hneutral
    case dormant => exact fun h => hdormant (hactive ▸ h)
    case activation =>
      intro t ht
      have ht : w.observer.activation = some t := (if_neg ha).symm.trans ht
      exact ⟨(hbound t ht).bounded, (hi.activation t ht).2.trans (hclock.trans first_le_last)⟩
    case toConsistent =>
      refine ⟨hst.overall hi.overall, fun h => ?_, fun d => ?_⟩
      · have hd := hdormant (hactive ▸ h)
        exact ⟨hneutral _ (hd _ (by simp)), hneutral _ (hd _ (by simp))⟩
      · refine (hst.moved d).counter.trans ?_
        rw [hi.counters]
        exact (if_neg ha).symm
  · refine ⟨fun _ d hd => ?_, fun d hd t ht => ?_⟩
    · have ⟨hs, ht⟩ := (hst.moved d).better hd
      exact ⟨(htold d).1.trans hs.symm, ht.earlier (htold d).2.1⟩
    · have ht : w.observer.activation = some t := (if_neg ha).symm.trans ht
      exact ((hbound t ht).moved d).worse hd

theorem reported_activation {e : EngineEvent} (h : e.accepted w.observer.isSender w.observer.active)
    (ha : e.activates) :
    (∀ d ∈ [Domain.link, .sync], w.observer.reported (.event e) d = none) ∧
    ∀ d ∈ [Domain.transport, .essence], w.observer.reported (.event e) d = some .healthy := by
  have hd : e.domain ≠ .link ∧ e.domain ≠ .clock := by
    rcases ha.1 with hd | hd <;> simp [hd]
  have hn : getTransmissionNewState e = some .healthy := by
    rw [getTransmissionNewState, ha.2]
  simp [Observer.reported, h, EngineEvent.reports, hd, ha, ha.1, hn]

theorem Agrees.step_activation (hi : w.Agrees) (ha : w.observer.activates input)
    (e : w.step (input, times) = some w') : w'.Agrees ∧ Patient w w' input times := by
  obtain ⟨hclock, rfl⟩ := step_eq_some e
  cases input with
  | tick => exact ha.elim
  | event ev =>
    have hact : ResourceMonitor.Activated w.monitor times (process w.monitor times (.event ev)) :=
      ResourceMonitor.event_activated ha.2 (hi.isSender ▸ ha.1.1)
    obtain ⟨hnone, hhealthy⟩ := reported_activation ha.1 ha.2
    generalize process w.monitor times (.event ev) = m at *
    -- Link and synchronization keep their status; the others are told of Healthy.
    have hcases (d : Domain) : (m.domain d).counter = 0 ∧
        ((m.domain d).Alike { w.monitor.domain d with counter := 0 } ∧
          w.observer.reported (.event ev) d = none ∨
        (m.domain d).Alike
          { status := .healthy, internalStatus := .healthy, internalTime := times.routed d } ∧
          w.observer.reported (.event ev) d = some .healthy) := by
      by_cases hd : d ∈ [Domain.link, .sync]
      · have hs := hact.spared d hd
        exact ⟨by rw [hs], .inl ⟨hs ▸ ⟨rfl, rfl, rfl, rfl⟩, hnone d hd⟩⟩
      · have hd : d ∈ [Domain.transport, .essence] := by
          cases d <;> simp_all
        have hf := hact.forced d hd
        exact ⟨hf.2.2.2, .inr ⟨hf, hhealthy d hd⟩⟩
    have hinternal (d : Domain) : (m.domain d).internalStatus =
        (w.observer.reported (.event ev) d).getD (w.monitor.domain d).internalStatus := by
      rcases (hcases d).2 with ⟨h, hr⟩ | ⟨h, hr⟩ <;> rw [hr] <;> exact h.2.1
    have htime (d : Domain) : (m.domain d).internalTime = times.routed d ∨
        (m.domain d).internalTime = (w.monitor.domain d).internalTime ∧
          (m.domain d).internalStatus = (w.monitor.domain d).internalStatus := by
      rcases (hcases d).2 with ⟨h, -⟩ | ⟨h, -⟩
      · exact .inr ⟨h.2.2.1, h.2.1⟩
      · exact .inl h.2.2.1
    have htold (d : Domain) := told_spec (hi.latest d) (hi.since d)
      ((hi.past d).trans (hclock.trans (times.within d).1)) (hinternal d) (htime d)
    have hactive : (w.observer.observe (.event ev) times w.status fun d => (m.domain d).status).active = true :=
      if_pos ha
    constructor
    · constructor
      case isSender => exact hi.isSender.trans hact.isSender.symm
      case active => exact hactive.trans hact.active.symm
      case latest => exact fun d => (htold d).1
      case since => exact fun d => (htold d).2.1
      case past => exact fun d => (htold d).2.2.trans (times.within d).2
      case neutral =>
        intro d h
        rcases (hcases d).2 with ⟨hs, -⟩ | ⟨hs, -⟩
        · exact hs.1.trans (hi.neutral d (hs.2.1.symm.trans h))
        · cases hs.2.1.symm.trans h
      case dormant => exact fun h => by cases hactive.symm.trans h
      case activation =>
        intro t ht
        cases (if_pos ha).symm.trans ht
        exact ⟨hact.bounded, first_le_last⟩
      case toConsistent =>
        refine ⟨hact.overall, fun h => (by cases hactive.symm.trans h), fun d => ?_⟩
        exact (hcases d).1.trans (if_pos ha).symm
    · refine ⟨fun h => absurd ha h, fun d hd => ?_⟩
      have hd : Worsens (w.status d) (m.domain d).status := hd
      rcases (hcases d).2 with ⟨hs, -⟩ | ⟨hs, -⟩ <;> rw [hs.1] at hd
      · exact absurd hd not_worsens_self
      · exact absurd hd not_worsens_healthy

theorem Agrees.step (hi : w.Agrees) (e : w.step (input, times) = some w') :
    w'.Agrees ∧ Patient w w' input times := by
  by_cases ha : w.observer.activates input
  · exact hi.step_activation ha e
  · exact hi.step_other ha e

-- In every state that events and ticks lead to, what is published agrees with what was observed, and so it does
-- after the next of them, which was patient.
theorem monitor_safe {start : Readings} (r : (system isSender start).Reachable w) :
    w.Consistent ∧ ∀ input times w', w.step (input, times) = some w' →
      w'.Consistent ∧ Patient w w' input times := by
  have hi : w.Agrees := r.induct agrees_new fun _ _ _ _ hi _ e => (hi.step e).1
  exact ⟨hi.toConsistent, fun _ _ _ e => ⟨(hi.step e).1.toConsistent, (hi.step e).2⟩⟩

end Watch

namespace Faulty

open Watch

def instant (t : Rat) : Readings where
  first    := t
  last     := t
  reset    := t
  routed _ := t
  within _ := ⟨le_rfl, le_rfl⟩
  resets   := ⟨le_rfl, le_rfl⟩

def event (domain : AlertDomain) (event : EventId) : Input :=
  .event { domain, scope := .sender, event, info := "lost".toList }

-- Active at 1, with packets lost at 2, which a tick publishes at 5, and none lost from 6 on.
def inputs : List (Input × Readings) :=
  [(event .vendorTransport .vendorTransportActivate, instant 1), (event .transport .transportPacketLost, instant 2),
    (.tick, instant 3), (.tick, instant 5), (event .transport .transportOk, instant 6)]

-- The doubles that are nearest to 0.3 and 3.3. The second is what the sum of the first and the delay is rounded to,
-- and it is smaller.
def activated : Rat :=
  5404319552844595 / 2 ^ 54

def published : Rat :=
  7430939385161318 / 2 ^ 51

def early : List (Input × Readings) :=
  [(event .vendorTransport .vendorTransportActivate, instant activated),
    (event .transport .transportPacketLost, instant 1)]

def run (inputs : List (Input × Readings)) : Option Watch :=
  (system true (instant 0)).run (new true (instant 0)) inputs

def reached (inputs : List (Input × Readings)) : Watch :=
  (run inputs).getD (new true (instant 0))

def tick (w : Watch) (t : Rat) : Option Watch :=
  w.step (.tick, instant t)

def ticked (inputs : List (Input × Readings)) (t : Rat) : Watch :=
  (tick (reached inputs) t).getD (reached inputs)

theorem evaluated :
    ((run inputs).isSome ∧ (tick (reached inputs) 9).isSome ∧
      ((reached inputs).monitor.domain .transport).counter = 1 ∧
      Improves ((reached inputs).status .transport) ((ticked inputs 9).status .transport)) ∧
    (run early).isSome ∧ (tick (reached early) published).isSome ∧
      (ticked early published).observer.activation = some activated ∧
      Worsens ((reached early).status .transport) ((ticked early published).status .transport) := by
  decide +kernel

theorem reached_reachable {inputs : List (Input × Readings)} (h : (run inputs).isSome) :
    (system true (instant 0)).Reachable (reached inputs) := by
  obtain ⟨w, hw⟩ := Option.isSome_iff_exists.mp h
  have hr : reached inputs = w := by simp [reached, hw]
  exact .of_run inputs (hr ▸ hw)

theorem step_ticked {inputs : List (Input × Readings)} {t : Rat} (h : (tick (reached inputs) t).isSome) :
    (reached inputs).step (.tick, instant t) = some (ticked inputs t) := by
  obtain ⟨w, hw⟩ := Option.isSome_iff_exists.mp h
  have ht : ticked inputs t = w := by simp [ticked, hw]
  exact ht ▸ hw

theorem monitor_safe_faulty : ∃ w w', (system true (instant 0)).Reachable w ∧
    w.step (.tick, instant 9) = some w' ∧ w.Consistent ∧ (w.monitor.domain .transport).counter = 1 ∧
    w'.Consistent ∧ Improves (w.status .transport) (w'.status .transport) ∧
    Waited (w'.observer.latest .transport).2 9 := by
  obtain ⟨hrun, htick, hcounter, himproves⟩ := evaluated.1
  have r := reached_reachable hrun
  have e := step_ticked htick
  have hsafe := monitor_safe r
  have ⟨hc, hp⟩ := hsafe.2 _ _ _ e
  exact ⟨_, _, r, e, hsafe.1, hcounter, hc, himproves, (hp.better id .transport himproves).2⟩

-- The packets lost are published before the delay is over.
theorem published_early : ∃ w w', (system true (instant 0)).Reachable w ∧
    w.step (.tick, instant published) = some w' ∧ Worsens (w.status .transport) (w'.status .transport) ∧
    w'.observer.activation = some activated ∧ published < activated + STATUS_REPORTING_DELAY := by
  obtain ⟨hrun, htick, hactivation, hworsens⟩ := evaluated.2
  exact ⟨_, _, reached_reachable hrun, step_ticked htick, hworsens, hactivation, by decide +kernel⟩

end Faulty
end Status
