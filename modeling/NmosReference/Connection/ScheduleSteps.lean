import NmosReference.Connection.Atomicity
import NmosReference.Connection.Schedule

-- What the parts of a PATCH and of a timer do to the schedule of a resource.
namespace Connection

open Handler Registry

section References

variable {Sdp Side : Type} {S : Subsystems Sdp Side} {c : Call} {s : State Sdp Side}

-- An activation changes its state objects, but not which they are.
def State.references (s : State Sdp Side) : Option Nat × Option Nat :=
  (s.activation.stagedState, s.activation.activeState)

theorem attempt_references : (attempt S c).Keeps State.references := by
  refine (prepareSdp_keeps (fun _ _ => rfl) fun _ _ => rfl).bind fun _ => ?_
  refine (updateSubscription_keeps fun s d => ?_).bind fun _ => ?_
  · rw [State.references, putResources_activation]
    rfl
  · exact startEngine_keeps (fun _ _ => rfl) (fun _ _ => rfl) fun _ _ => rfl

theorem doActivation_references : ((doActivation S c).leaves s).references = s.references := by
  rw [leaves, doActivation_eq]
  change (leaves _ s).references = _
  have hflip : (flipped c s).references = s.references := rfl
  by_cases h : (flip c).Raises s
  case pos => rw [leaves_seq_of_raises h, leaves_flip, hflip]
  case neg =>
    rw [leaves_seq h, leaves_flip, leaves_seq not_raises_modify, leaves_modify]
    have hcopied : (copied c s).references = s.references := by
      rw [State.references, copied, copyMetadata_activeState]
      refine Prod.ext ?_ rfl
      unfold Activation.copyMetadata
      split <;> rfl
    change ((guarded S c s).leaves (copied c s)).references = _
    have hattempt := (attempt_references (S := S) (c := c) (copied c s)).trans hcopied
    by_cases h' : (attempt S c).Raises (copied c s)
    case neg => rw [guarded, leaves_tryCatch h', hattempt]
    case pos =>
      obtain ⟨e, h'⟩ := raises_iff.mp h'
      rw [guarded, leaves_tryCatch_of_raises h', leaves_seq_throw]
      have hback (s' : State Sdp Side) (sdp : Option Sdp) (hs : s'.references = s.references) :
          ((rollback c s.activation.activeState sdp).leaves s').references = s.references := by
        have hstaged : s'.activation.stagedState = s.activation.stagedState := congrArg Prod.fst hs
        have hs : State.references { s' with
            activation := { s'.activation with activeState := s.activation.activeState } } = s.references :=
          Prod.ext hstaged rfl
        unfold rollback
        rw [leaves_seq not_raises_modify, leaves_modify]
        refine Eq.trans ?_ hs
        cases sdp with
        | some sdp => rfl
        | none =>
          dsimp only
          split <;> rfl
      exact hback _ _ hattempt

end References

variable {T Sdp Side : Type} {S : Subsystems Sdp Side} {A : Answering Sdp Side} {s s' : Runtime T Sdp Side}
  {p : Patch T} {n : Nat}

-- All that there is to the schedule.
structure Schedule (T : Type) where
  staged     : NActivation
  timing     : Timing T
  pending    : Dict String PendingActivation
  carried    : List Carried
  references : Option Nat × Option Nat

def Runtime.schedule (s : Runtime T Sdp Side) : Schedule T :=
  ⟨s.staged, s.timing, s.pending, s.carried, s.inner.references⟩

theorem onInner_keeps {α : Type} {m : Program Sdp Side α} (h : m.Keeps State.references) :
    (m.on (·.inner) fun (s : Runtime T Sdp Side) inner => { s with inner }).Keeps Runtime.schedule := by
  intro s
  rw [Runtime.schedule, Runtime.schedule, leaves_on]
  exact congrArg (Schedule.mk _ _ _ _) (h s.inner)

theorem onNodeSide_keeps {m : State Sdp Side → Handler Side Error Unit} :
    (onNodeSide (T := T) m).Keeps Runtime.schedule :=
  keeps_get.bind fun _ => onInner_keeps (keeps_on fun _ _ => rfl)

theorem onStaged_keeps {m : Handler (List Slot × (Nat → StateObject)) Error Unit} :
    (onStaged m : Handler (Runtime T Sdp Side) Error Unit).Keeps Runtime.schedule :=
  keeps_on fun _ _ => rfl

theorem doActivation_keeps {c : Call} : ((doActivation S c).on (·.inner) fun (s : Runtime T Sdp Side) inner =>
    { s with inner }).Keeps Runtime.schedule :=
  onInner_keeps fun _ => doActivation_references

-- `_activation_mode_of`, of what there is to the schedule.
def Schedule.mode (σ : Schedule T) : Option RequestedMode :=
  if σ.references.1.isNone then none else σ.staged.mode

theorem mode_schedule : s.schedule.mode = s.stagedMode :=
  rfl

theorem run_carryOut {c : Call} {report : NActivation} (h : (carryOut S c n report).run s = (.ok (), s')) :
    s'.schedule = { s.schedule with carried := s.carried ++ [⟨n, report⟩] } := by
  unfold carryOut at h
  obtain ⟨_, s₁, h₁, h₂⟩ := run_bind_eq_ok.mp h
  rw [run_modify, Prod.mk.injEq] at h₂
  have hk : s₁.schedule = s.schedule := (congrArg (·.2.schedule) h₁).symm.trans (doActivation_keeps s)
  have hc : s₁.carried = s.carried := congrArg Schedule.carried hk
  rw [← h₂.2]
  change ({ s₁.schedule with carried := s₁.carried ++ [⟨n, report⟩] } : Schedule T) = _
  rw [hk, hc]

variable [Seconds T]

theorem run_fromTimestamp {t time : T} (h : (fromTimestamp t).run s = (.ok time, s')) : s' = s := by
  rw [fromTimestamp, run_ofExcept] at h
  exact (congrArg Prod.snd h).symm

-- How long an activation is still to wait, in seconds.
def Patch.remaining (p : Patch T) : RequestedMode → Option String → Except Error T
  | .immediate, _      => .ok Seconds.zero
  | .relative, none    => .ok Seconds.zero
  | .relative, some s  => parseTaiTimeString s
  | .absolute, none    => .ok (Seconds.sub p.later p.now)
  | .absolute, some s  => (parseTaiTimeString s).map fun t : T => Seconds.sub (Seconds.sub t Seconds.taiUtcOffset) p.now

def RequestedMode.activationMode : RequestedMode → ActivationMode
  | .immediate => .immediate
  | .relative  => .relative
  | .absolute  => .absolute

-- The outcomes of `process_activation`, as long as it does not raise.
inductive Processed (p : Patch T) (n : Nat) (σ : Schedule T) : ActivationResponse T → Schedule T → Prop
  | absent : σ.references.1.isNone → Processed p n σ {} σ
  | cancelled : σ.mode = none →
    Processed p n σ {} { σ with pending := σ.pending.erase p.resourceId, timing := {} }
  | waiting (mode : RequestedMode) : σ.mode = some mode → mode ≠ .immediate → σ.pending.contains p.resourceId →
    Processed p n σ {} σ
  | immediate (now : T) : σ.mode = some .immediate →
    Processed p n σ { immediateActivation := true, activationTime := some p.now }
      { σ with
        timing := { σ.timing with
          state := .immediate, mode := .immediate, time := some now, requestedTime := some now
          activationTimeTai := formatTai p.now }
        carried := σ.carried ++ [⟨n, { mode := some .immediate, activationTime := some (formatTai p.now) }⟩] }
  | due (mode : RequestedMode) (now : T) : σ.mode = some mode → mode ≠ .immediate →
    ¬σ.pending.contains p.resourceId →
    Processed p n σ { immediateActivation := true, activationTime := some p.now }
      { σ with
        timing := { σ.timing with
          state := .immediate, mode := mode.activationMode, time := some now
          requestedTimeString := σ.staged.requestedTime.getD "", activationTimeTai := formatTai p.now }
        carried := σ.carried ++ [⟨n, {
          mode := some mode, requestedTime := σ.staged.requestedTime, activationTime := some (formatTai p.now) }⟩] }
  | armed (mode : RequestedMode) (timing : Timing T) (timer : PendingActivation) (left : T) : σ.mode = some mode →
    mode ≠ .immediate → ¬σ.pending.contains p.resourceId → p.remaining mode σ.staged.requestedTime = .ok left →
    Seconds.isPositive left → timer.request = n →
    Processed p n σ { delayedActivation := true, activationTime := some p.now }
      { σ with timing, pending := (σ.pending.erase p.resourceId).set p.resourceId timer }

section Process

variable {c : Call} {r : ActivationResponse T} {m : RequestedMode} {requested : Option String}

theorem run_activateImmediate (h : (activateImmediate S p c n).run s = (.ok r, s')) : ∃ now,
    r = { immediateActivation := true, activationTime := some p.now } ∧ s'.schedule = { s.schedule with
      timing := { s.timing with
        state := .immediate, mode := .immediate, time := some now, requestedTime := some now
        activationTimeTai := formatTai p.now }
      carried := s.carried ++ [⟨n, { mode := some .immediate, activationTime := some (formatTai p.now) }⟩] } := by
  unfold activateImmediate at h
  obtain ⟨_, s₁, h₁, e₁⟩ := run_bind_eq_ok.mp h
  obtain ⟨now, s₂, h₂, e₂⟩ := run_bind_eq_ok.mp e₁
  obtain ⟨_, s₃, h₃, e₃⟩ := run_bind_eq_ok.mp e₂
  obtain ⟨_, s₄, h₄, e₄⟩ := run_bind_eq_ok.mp e₃
  clear h e₁ e₂ e₃
  have hs := run_fromTimestamp h₂
  cases h₁
  subst hs
  cases h₃
  cases e₄
  exact ⟨now, rfl, run_carryOut h₄⟩

theorem run_activatePastDue (h : (activatePastDue S p c n m requested).run s = (.ok r, s')) : ∃ now,
    r = { immediateActivation := true, activationTime := some p.now } ∧ s'.schedule = { s.schedule with
      timing := { s.timing with state := .immediate, time := some now, activationTimeTai := formatTai p.now }
      carried := s.carried ++ [⟨n, {
        mode := some m, requestedTime := requested, activationTime := some (formatTai p.now) }⟩] } := by
  unfold activatePastDue at h
  obtain ⟨_, s₁, h₁, e₁⟩ := run_bind_eq_ok.mp h
  obtain ⟨now, s₂, h₂, e₂⟩ := run_bind_eq_ok.mp e₁
  obtain ⟨_, s₃, h₃, e₃⟩ := run_bind_eq_ok.mp e₂
  obtain ⟨_, s₄, h₄, e₄⟩ := run_bind_eq_ok.mp e₃
  clear h e₁ e₂ e₃
  have hs := run_fromTimestamp h₂
  cases h₁
  subst hs
  cases h₃
  cases e₄
  exact ⟨now, rfl, run_carryOut h₄⟩

omit [Seconds T] in
theorem run_ofExcept_ok {α : Type} {x : Except Error α} {a : α}
    (h : (Handler.ofExcept x : Scheduling T Sdp Side α).run s = (.ok a, s')) : x = .ok a ∧ s' = s := by
  cases h
  exact ⟨rfl, rfl⟩

-- A scheduled activation is armed, or it is due and carried out.
def Scheduled (p : Patch T) (n : Nat) (m : RequestedMode) (requested : Option String) (σ : Schedule T)
    (r : ActivationResponse T) (σ' : Schedule T) : Prop :=
  (∃ timing timer left, p.remaining m requested = .ok left ∧ Seconds.isPositive left = true ∧ timer.request = n ∧
    r = { delayedActivation := true, activationTime := some p.now } ∧
      σ' = { σ with timing, pending := (σ.pending.erase p.resourceId).set p.resourceId timer }) ∨
  ∃ now, r = { immediateActivation := true, activationTime := some p.now } ∧ σ' = { σ with
    timing := { σ.timing with
      state := .immediate, mode := m.activationMode, time := some now
      requestedTimeString := requested.getD "", activationTimeTai := formatTai p.now }
    carried := σ.carried ++ [⟨n, { mode := some m, requestedTime := requested, activationTime := some (formatTai p.now) }⟩] }

theorem run_scheduleRelative (h : (scheduleRelative S p c n requested).run s = (.ok r, s')) :
    Scheduled p n .relative requested s.schedule r s'.schedule := by
  unfold scheduleRelative at h
  obtain ⟨_, s₁, h₁, e₁⟩ := run_bind_eq_ok.mp h
  obtain ⟨delay, s₂, h₂, e₂⟩ := run_bind_eq_ok.mp e₁
  clear h e₁
  cases h₁
  obtain ⟨hleft, rfl⟩ := run_ofExcept_ok h₂
  clear h₂
  split at e₂
  case isTrue hpos =>
    obtain ⟨time, s₃, h₃, e₃⟩ := run_bind_eq_ok.mp e₂
    have hs := run_fromTimestamp h₃
    clear e₂
    subst hs
    cases e₃
    refine .inl ⟨_, _, delay, ?_, hpos, rfl, rfl, rfl⟩
    rw [← hleft]
    cases requested <;> rfl
  case isFalse =>
    obtain ⟨now, hr, hs⟩ := run_activatePastDue e₂
    exact .inr ⟨now, hr, hs⟩

theorem run_scheduleAbsolute (h : (scheduleAbsolute S p c n requested).run s = (.ok r, s')) :
    Scheduled p n .absolute requested s.schedule r s'.schedule := by
  unfold scheduleAbsolute at h
  obtain ⟨_, s₁, h₁, e₁⟩ := run_bind_eq_ok.mp h
  obtain ⟨target, s₂, h₂, e₂⟩ := run_bind_eq_ok.mp e₁
  clear h e₁
  cases h₁
  obtain ⟨htarget, rfl⟩ := run_ofExcept_ok h₂
  clear h₂
  split at e₂
  case isTrue hpos =>
    obtain ⟨time, s₃, h₃, e₃⟩ := run_bind_eq_ok.mp e₂
    have hs := run_fromTimestamp h₃
    clear e₂
    subst hs
    cases e₃
    refine .inl ⟨_, _, _, ?_, hpos, rfl, rfl, rfl⟩
    cases requested
    case none      => cases htarget; rfl
    case some text =>
      simp only [Patch.remaining]
      cases ht : parseTaiTimeString (T := T) text
      case error => simp [ht, Except.map] at htarget
      case ok    => simp only [ht, Except.map, Except.ok.injEq] at htarget ⊢; rw [htarget]
  case isFalse =>
    obtain ⟨now, hr, hs⟩ := run_activatePastDue e₂
    exact .inr ⟨now, hr, hs⟩

theorem Scheduled.processed {σ σ' : Schedule T} (hm : σ.mode = some m) (hi : m ≠ .immediate)
    (hc : ¬σ.pending.contains p.resourceId) (h : Scheduled p n m σ.staged.requestedTime σ r σ') :
    Processed p n σ r σ' := by
  rcases h with ⟨timing, timer, left, hleft, hpos, hn, rfl, rfl⟩ | ⟨now, rfl, rfl⟩
  case inl => exact .armed m timing timer left hm hi hc hleft hpos hn
  case inr => exact .due m now hm hi hc

-- `process_activation`, as long as it does not raise.
theorem run_processActivation (h : (processActivation S p n).run s = (.ok r, s')) :
    Processed p n s.schedule r s'.schedule := by
  unfold processActivation at h
  obtain ⟨_, s₁, h₁, e₁⟩ := run_bind_eq_ok.mp h
  clear h
  cases h₁
  split at e₁
  case isTrue ha => cases e₁; exact .absent ha
  case isFalse =>
    split at e₁
    case h_1 hm =>
      cases e₁
      exact .cancelled hm
    case h_2 mode hm =>
      simp only at e₁
      split at e₁
      case isTrue hw => cases e₁; exact .waiting mode hm hw.1 hw.2
      case isFalse hw =>
        cases mode
        case immediate =>
          obtain ⟨now, rfl, hs⟩ := run_activateImmediate e₁
          exact hs ▸ .immediate now hm
        case relative =>
          exact (run_scheduleRelative e₁).processed hm (by decide) fun hc => hw ⟨by decide, hc⟩
        case absolute =>
          exact (run_scheduleAbsolute e₁).processed hm (by decide) fun hc => hw ⟨by decide, hc⟩

end Process

section Answer

-- What is left of the handler once the request is staged.
def answered (S : Subsystems Sdp Side) (A : Answering Sdp Side) (p : Patch T) (n : Nat) : Endpoint T Sdp Side Reply := do
  let response ← (processActivation S p n).mapError fun e => .refused 400 s!"activation failed: {e.text}"
  let view ← (show Scheduling T Sdp Side NActivation from do
    onNodeSide A.emitClock
    let view ← setActivationOnResponse response
    onNodeSide A.answer
    return view).mapError fun _ => .refused 500 "500 Internal Server Error"
  return .done (if response.delayedActivation then 202 else 200) view

theorem stageAndProcess_eq : stageAndProcess S A p n =
    (stage p).mapError (fun e => Reply.refused 400 s!"invalid staged patch: {e.text}") >>= fun _ => answered S A p n :=
  rfl

-- The staged activation after an activation was carried out.
def Schedule.reset (σ : Schedule T) : Schedule T :=
  if σ.references.1.isNone then σ else { σ with staged := {} }

omit [Seconds T] in
theorem reset_pending {σ : Schedule T} : σ.reset.pending = σ.pending := by
  unfold Schedule.reset
  split <;> rfl

omit [Seconds T] in
theorem schedule_resetStagedActivation : s.resetStagedActivation.schedule = s.schedule.reset := by
  unfold Runtime.resetStagedActivation Schedule.reset
  split
  case isTrue h  => exact (if_pos h).symm
  case isFalse h => exact (if_neg h).symm

def Schedule.answer (σ : Schedule T) (r : ActivationResponse T) : Schedule T :=
  if r.delayedActivation ∨ r.immediateActivation = false then σ else σ.reset

theorem setActivationOnResponse_leaves {r : ActivationResponse T} :
    ((setActivationOnResponse r).leaves s).schedule = s.schedule.answer r := by
  unfold setActivationOnResponse Schedule.answer
  simp only [leaves, run_bind, run_get]
  split
  case isTrue h =>
    rw [if_pos (.inl h)]
    rfl
  case isFalse h =>
    split
    case isTrue hi =>
      rw [if_pos (.inr (by simpa using hi))]
      rfl
    case isFalse hi =>
      rw [if_neg (not_or.mpr ⟨h, by simpa using hi⟩), ← schedule_resetStagedActivation]
      split <;> rfl

-- Nothing but the staged activation is reset, whatever raises.
theorem answer_leaves {r : ActivationResponse T} (hr : r.immediateActivation = false) :
    ((show Scheduling T Sdp Side NActivation from do
      onNodeSide A.emitClock
      let view ← setActivationOnResponse r
      onNodeSide A.answer
      return view)).Keeps Runtime.schedule := by
  refine onNodeSide_keeps.bind fun _ => Keeps.bind (fun s => ?_) fun _ => onNodeSide_keeps.bind fun _ => keeps_pure
  rw [setActivationOnResponse_leaves, Schedule.answer, if_pos (.inr hr)]

theorem run_answered {reply : Reply} (h : (answered S A p n).run s = (.ok reply, s')) : ∃ r σ view,
    Processed p n s.schedule r σ ∧ s'.schedule = σ.answer r ∧
      reply = .done (if r.delayedActivation then 202 else 200) view := by
  unfold answered at h
  obtain ⟨r, s₁, h₁, e₁⟩ := run_bind_eq_ok.mp h
  obtain ⟨view, s₂, h₂, e₂⟩ := run_bind_eq_ok.mp e₁
  clear h e₁
  cases e₂
  obtain ⟨_, t₁, k₁, e₁⟩ := run_bind_eq_ok.mp (run_mapError_ok h₂)
  obtain ⟨view', t₂, k₂, e₂⟩ := run_bind_eq_ok.mp e₁
  obtain ⟨_, t₃, k₃, e₃⟩ := run_bind_eq_ok.mp e₂
  clear e₁ e₂
  cases e₃
  have hemit : t₁.schedule = s₁.schedule := (congrArg (·.2.schedule) k₁).symm.trans (onNodeSide_keeps s₁)
  have hset : t₂.schedule = t₁.schedule.answer r := (congrArg (·.2.schedule) k₂).symm.trans setActivationOnResponse_leaves
  have hanswer : s'.schedule = t₂.schedule := (congrArg (·.2.schedule) k₃).symm.trans (onNodeSide_keeps t₂)
  exact ⟨r, s₁.schedule, _, run_processActivation (run_mapError_ok h₁), by rw [hanswer, hset, hemit], rfl⟩

-- What is processed without an activation does not raise.
theorem run_processActivation_none (h : s.schedule.references.1.isNone = false) (hm : s.stagedMode = none) :
    (processActivation S p n).run s =
      (.ok {}, { s with pending := s.pending.erase p.resourceId, timing := {} }) := by
  have h : ¬s.inner.activation.stagedState.isNone = true := by
    rw [show s.inner.activation.stagedState.isNone = false from h]
    exact Bool.false_ne_true
  unfold processActivation
  rw [run_bind_ok run_get, if_neg h, hm]
  rfl

theorem run_processActivation_waiting {mode : RequestedMode} (h : s.schedule.references.1.isNone = false)
    (hm : s.stagedMode = some mode) (hi : mode ≠ .immediate) (hc : s.pending.contains p.resourceId) :
    (processActivation S p n).run s = (.ok {}, s) := by
  have h : ¬s.inner.activation.stagedState.isNone = true := by
    rw [show s.inner.activation.stagedState.isNone = false from h]
    exact Bool.false_ne_true
  unfold processActivation
  rw [run_bind_ok run_get, if_neg h, hm]
  simp only [if_pos (And.intro hi hc)]
  rfl

theorem answered_leaves (h : (processActivation S p n).run s = (.ok {}, s')) :
    ((answered S A p n).leaves s).schedule = s'.schedule := by
  unfold answered leaves
  rw [run_bind_ok (run_mapError_eq h)]
  exact Keeps.bind (keeps_mapError (answer_leaves rfl)) (fun _ => keeps_pure) s'

end Answer

-- Staging

-- What the request asks for, once it is staged.
def Patch.staged (p : Patch T) (σ : Schedule T) : Schedule T :=
  { σ with staged := p.activation.elim σ.staged σ.staged.update }

omit [Seconds T] in
theorem stage_refused (h : (onStaged p.stageFirst : Scheduling T Sdp Side Unit).Raises s) :
    (stage p).Raises s ∧ ((stage p).leaves s).schedule = s.schedule := by
  unfold stage
  exact ⟨raises_seq.mpr (.inl h), by rw [leaves_seq_of_raises h]; exact onStaged_keeps s⟩

omit [Seconds T] in
theorem stage_leaves (h : ¬(onStaged p.stageFirst : Scheduling T Sdp Side Unit).Raises s) :
    ((stage p).leaves s).schedule = p.staged s.schedule := by
  have hfirst := onStaged_keeps (m := p.stageFirst) s
  unfold stage
  rw [leaves_seq h, leaves_seq not_raises_modify, leaves_modify]
  refine (onStaged_keeps _).trans ?_
  change p.staged ((onStaged p.stageFirst).leaves s).schedule = _
  rw [hfirst]

-- The handler from where it stages what was asked for.
theorem stageAndProcess_raises (h : (stage p).Raises s) : (stageAndProcess S A p n).Raises s ∧
    (stageAndProcess S A p n).leaves s = (stage p).leaves s := by
  have hm : ((stage p).mapError fun e => Reply.refused 400 s!"invalid staged patch: {e.text}").Raises s :=
    raises_mapError.mpr h
  rw [stageAndProcess_eq]
  exact ⟨raises_seq.mpr (.inl hm), (leaves_seq_of_raises hm).trans leaves_mapError⟩

theorem stageAndProcess_staged (h : ¬(stage p).Raises s) :
    (stageAndProcess S A p n).run s = (answered S A p n).run ((stage p).leaves s) := by
  obtain ⟨_, h⟩ := not_raises_iff.mp h
  rw [stageAndProcess_eq]
  exact run_bind_ok (run_mapError_eq h)

-- Timers

omit [Seconds T] in
theorem pendingActivationTask_leaves {resourceId : String} {timer : PendingActivation} {cursor : TaiCursor}
    (h : ¬(doActivation S { timer.call with now := cursor }).Raises s.inner) :
    ((pendingActivationTask S resourceId timer cursor).leaves s).schedule =
      { Schedule.reset { s.schedule with carried := s.carried ++ [⟨timer.request, timer.report⟩] } with
        pending := s.pending.erase resourceId } := by
  have hc : ¬(carryOut S { timer.call with now := cursor } timer.request timer.report).Raises s :=
    fun hr => (raises_seq.mp hr).elim h fun hm => not_raises_modify hm.2
  obtain ⟨_, hrun⟩ := not_raises_iff.mp hc
  have hdone := run_carryOut hrun
  unfold pendingActivationTask
  generalize (carryOut S { timer.call with now := cursor } timer.request timer.report).leaves s = s₁ at hrun hdone
  have htry : (tryCatch (do
      carryOut S { timer.call with now := cursor } timer.request timer.report
      modify Runtime.resetStagedActivation) fun _ => pure () : Scheduling T Sdp Side Unit).run s =
        (.ok ⟨⟩, s₁.resetStagedActivation) := run_tryCatch_ok (run_bind_ok hrun)
  have hreset : s₁.resetStagedActivation.schedule =
      Schedule.reset { s.schedule with carried := s.carried ++ [⟨timer.request, timer.report⟩] } := by
    rw [schedule_resetStagedActivation, hdone]
  have hpending : s₁.resetStagedActivation.pending = s.pending := by
    rw [show s₁.resetStagedActivation.pending = _ from congrArg Schedule.pending hreset]
    exact reset_pending
  unfold leaves
  rw [run_bind_ok htry, run_modify]
  change ({ s₁.resetStagedActivation.schedule with pending := s₁.resetStagedActivation.pending.erase resourceId } :
    Schedule T) = _
  rw [hreset, hpending]

end Connection
