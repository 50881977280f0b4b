import NmosReference.Connection.ScheduleSteps
import NmosReference.Library.Transition

open Handler Registry

-- Every run of the PATCH requests and of the timers of one Sender or Receiver.
namespace Connection

-- A resource, and what its requests were answered. The requests are numbered.
structure Served (T Sdp Side : Type) where
  core      : Runtime T Sdp Side
  next      : Nat := 0
  -- Answered 202.
  scheduled : List Nat := []
  -- Accepted, with an activation to carry out.
  asked     : List Nat := []
  -- Armed, until a request with a null mode.
  withdrawn : List Nat := []

inductive ServedAction (T : Type)
  | patch (p : Patch T)
  -- The timer under an id comes due.
  | fire (resourceId : String) (cursor : TaiCursor)

variable {T Sdp Side : Type} [Seconds T]

-- The requests whose timers are armed.
def Runtime.armed (s : Runtime T Sdp Side) : List Nat :=
  s.pending.values.map (·.request)

def accepted : Except Reply Reply → Bool
  | .ok (.done _ _) => true
  | _               => false

def delayed : Except Reply Reply → Bool
  | .ok (.done status _) => status = 202
  | _                    => false

namespace Served

variable (S : Subsystems Sdp Side) (A : Answering Sdp Side)

def patch (s : Served T Sdp Side) (p : Patch T) : Served T Sdp Side :=
  let r := (handlePatchStaged S A p s.next).run s.core
  { core      := r.2
    next      := s.next + 1
    scheduled := if delayed r.1 then s.scheduled ++ [s.next] else s.scheduled
    asked     := if accepted r.1 ∧ (p.activation.bind (·.mode)).isSome then s.asked ++ [s.next] else s.asked
    withdrawn := if p.activation.any (·.mode.isNone) then s.withdrawn ++ s.core.armed.filter (· ∉ r.2.armed) else s.withdrawn }

def fire (s : Served T Sdp Side) (resourceId : String) (cursor : TaiCursor) : Option (Served T Sdp Side) :=
  (s.core.pending.get? resourceId).map fun timer =>
    { s with core := (pendingActivationTask S resourceId timer cursor).leaves s.core }

def step (s : Served T Sdp Side) : ServedAction T → Option (Served T Sdp Side)
  | .patch p                => some <| s.patch S A p
  | .fire resourceId cursor => s.fire S resourceId cursor

def system (inner : State Sdp Side) : TransitionSystem (Served T Sdp Side) (ServedAction T) where
  init := { core := { inner } }
  step := step S A

-- A request does not fail once its activation object is staged, and names the resource by the id under which a timer is
-- armed. The activation of a timer does not fail.
def Regular (s : Served T Sdp Side) : ServedAction T → Prop
  | .patch p           => refuse p s.core = none →
    (¬(stage p).Raises s.core → ∀ k ∈ s.core.pending.keys, k = p.resourceId) ∧
    ∀ a, p.activation = some a → ¬(onStaged p.stageFirst : Scheduling T Sdp Side Unit).Raises s.core →
      ¬(stage p).Raises s.core ∧ (a.mode ≠ none → ¬(answered S A p s.next).Raises ((stage p).leaves s.core))
  | .fire resourceId cursor => ∀ timer, s.core.pending.get? resourceId = some timer →
    ¬(doActivation S { timer.call with now := cursor }).Raises s.core.inner

end Served

-- What the requests of a resource come to, whatever they carry out.
structure Ledger where
  locked    : Bool
  armed     : List Nat
  carried   : List Nat
  scheduled : List Nat
  asked     : List Nat
  withdrawn : List Nat
  next      : Nat

namespace Ledger

inductive Step (l : Ledger) : Ledger → Prop
  | idle     : Step l { l with next := l.next + 1 }
  | withdraw : Step l { l with locked := false, armed := [], withdrawn := l.withdrawn ++ l.armed, next := l.next + 1 }
  | carry    : l.armed = [] → Step l { l with
    locked := false, carried := l.carried ++ [l.next], asked := l.asked ++ [l.next], next := l.next + 1 }
  | arm      : l.armed = [] → Step l { l with
    locked := true, armed := [l.next], scheduled := l.scheduled ++ [l.next], asked := l.asked ++ [l.next]
    next := l.next + 1 }
  | fire     (n : Nat) : l.armed = [n] → Step l { l with locked := false, armed := [], carried := l.carried ++ [n] }

structure Exact (l : Ledger) : Prop where
  locked : l.locked = true ↔ l.armed.length = 1
  single : l.armed.length ≤ 1
  -- Each is still armed, or carried out once, or withdrawn.
  once   : ∀ n ∈ l.scheduled,
    n ∈ l.armed ∧ n ∉ l.carried ∧ n ∉ l.withdrawn ∨
    n ∉ l.armed ∧ l.carried.count n = 1 ∧ n ∉ l.withdrawn ∨
    n ∉ l.armed ∧ n ∉ l.carried ∧ n ∈ l.withdrawn
  asked  : ∀ n ∈ l.carried, n ∈ l.asked
  nodup  : l.carried.Nodup

structure Inv (l : Ledger) : Prop where
  exact : l.Exact
  armed : ∀ n ∈ l.armed, n ∈ l.scheduled ∧ n ∈ l.asked
  past  : ∀ n, n ∈ l.scheduled ∨ n ∈ l.asked ∨ n ∈ l.withdrawn → n < l.next

variable {l l' : Ledger}

theorem Inv.not_carried_next (h : l.Inv) : l.next ∉ l.carried :=
  fun hm => Nat.lt_irrefl _ (h.past _ (.inr (.inl (h.exact.asked _ hm))))

theorem nodup_concat {n : Nat} {ns : List Nat} (hn : n ∉ ns) (h : ns.Nodup) : (ns ++ [n]).Nodup :=
  List.nodup_append.mpr ⟨h, List.nodup_singleton n, fun _ ha _ hb => by rintro rfl; exact hn (List.mem_singleton.mp hb ▸ ha)⟩

theorem count_singleton_ne {k n : Nat} (h : k ≠ n) : [n].count k = 0 :=
  List.count_eq_zero_of_not_mem fun hm => h (List.mem_singleton.mp hm)

theorem lt_succ_of_mem_concat {n k : Nat} {ns : List Nat} (h : ∀ k ∈ ns, k < n) (hk : k ∈ ns ++ [n]) : k < n + 1 := by
  rcases List.mem_append.mp hk with hk | hk
  · exact Nat.lt_succ_of_lt (h k hk)
  · exact List.mem_singleton.mp hk ▸ Nat.lt_succ_self n

theorem Inv.step (h : l.Inv) (hs : Step l l') : l'.Inv := by
  have ⟨⟨locked, single, once, asked, nodup⟩, armed, past⟩ := h
  cases hs
  case idle =>
    exact ⟨⟨locked, single, once, asked, nodup⟩, armed, fun n hn => Nat.lt_succ_of_lt (past n hn)⟩
  case withdraw =>
    refine ⟨⟨by simp, by simp, fun n hn => ?_, asked, nodup⟩, nofun, fun n hn => ?_⟩
    · rcases once n hn with ⟨ha, hc, _⟩ | ⟨ha, hc, hw⟩ | ⟨ha, hc, hw⟩
      · exact .inr (.inr ⟨nofun, hc, List.mem_append_right _ ha⟩)
      · exact .inr (.inl ⟨nofun, hc, by simp [ha, hw]⟩)
      · exact .inr (.inr ⟨nofun, hc, List.mem_append_left _ hw⟩)
    · simp only [List.mem_append] at hn
      refine Nat.lt_succ_of_lt (past n ?_)
      rcases hn with hn | hn | hn | hn
      · exact .inl hn
      · exact .inr (.inl hn)
      · exact .inr (.inr hn)
      · exact .inl (armed n hn).1
  case carry ha =>
    refine ⟨⟨by simp [ha], by simp [ha], fun n hn => ?_, fun n hn => ?_, nodup_concat h.not_carried_next nodup⟩,
      fun n hn => by simp only [ha, List.not_mem_nil] at hn, fun n hn => ?_⟩
    · have hne : n ≠ l.next := Nat.ne_of_lt (past n (.inl hn))
      simp only [List.mem_append, List.mem_singleton, hne, or_false, List.count_append, count_singleton_ne hne, Nat.add_zero]
      exact once n hn
    · rcases List.mem_append.mp hn with hn | hn
      · exact List.mem_append_left _ (asked n hn)
      · exact List.mem_append_right _ hn
    · rcases hn with hn | hn | hn
      · exact Nat.lt_succ_of_lt (past n (.inl hn))
      · exact lt_succ_of_mem_concat (fun n hn => past n (.inr (.inl hn))) hn
      · exact Nat.lt_succ_of_lt (past n (.inr (.inr hn)))
  case arm ha =>
    refine ⟨⟨by simp, by simp, fun n hn => ?_, fun n hn => List.mem_append_left _ (asked n hn), nodup⟩, fun n hn => ?_,
      fun n hn => ?_⟩
    · rcases List.mem_append.mp hn with hn | hn
      · have hne : n ≠ l.next := Nat.ne_of_lt (past n (.inl hn))
        simp only [List.mem_singleton, hne, not_false_eq_true, true_and, false_and, false_or]
        exact (once n hn).resolve_left (fun hm => by simp [ha] at hm) |>.imp And.right And.right
      · obtain rfl := List.mem_singleton.mp hn
        exact .inl ⟨hn, h.not_carried_next, fun hw => Nat.lt_irrefl _ (past _ (.inr (.inr hw)))⟩
    · exact ⟨List.mem_append_right _ hn, List.mem_append_right _ hn⟩
    · rcases hn with hn | hn | hn
      · exact lt_succ_of_mem_concat (fun n hn => past n (.inl hn)) hn
      · exact lt_succ_of_mem_concat (fun n hn => past n (.inr (.inl hn))) hn
      · exact Nat.lt_succ_of_lt (past n (.inr (.inr hn)))
  case fire n ha =>
    have hn : n ∈ l.armed := ha ▸ List.mem_singleton_self n
    have ⟨hs, hasked⟩ := armed n hn
    have ⟨_, hc, hw⟩ := (once n hs).resolve_right fun hx => by simp [hn] at hx
    refine ⟨⟨by simp, by simp, fun k hk => ?_, fun k hk => ?_, nodup_concat hc nodup⟩, nofun, past⟩
    · by_cases he : k = n
      case pos =>
        subst he
        exact .inr (.inl ⟨nofun, by simp [List.count_eq_zero_of_not_mem hc], hw⟩)
      case neg =>
        have hk' : k ∉ l.armed := by simp [ha, he]
        simp only [List.mem_append, List.mem_singleton, he, or_false, List.count_append, count_singleton_ne he,
          Nat.add_zero]
        exact .inr <| (once k hk).resolve_left (fun hx => hk' hx.1) |>.imp (fun hx => ⟨nofun, hx.2⟩) fun hx => ⟨nofun, hx.2⟩
    · rcases List.mem_append.mp hk with hk | hk
      · exact asked k hk
      · exact List.mem_singleton.mp hk ▸ hasked

end Ledger
namespace Served

variable {S : Subsystems Sdp Side} {A : Answering Sdp Side} {s s' : Served T Sdp Side} {p : Patch T}
variable {r : Except Reply Reply} {core : Runtime T Sdp Side}

def ledger (s : Served T Sdp Side) : Ledger where
  locked    := s.core.stagedMode.isSome
  armed     := s.core.armed
  carried   := s.core.carried.map (·.request)
  scheduled := s.scheduled
  asked     := s.asked
  withdrawn := s.withdrawn
  next      := s.next

-- A timer is armed for a scheduled mode that is staged.
inductive Coupled (σ : Schedule T) : Prop
  | idle  : σ.mode = none → σ.pending.items = [] → Coupled σ
  | armed (mode : RequestedMode) (key : String) (timer : PendingActivation) : σ.mode = some mode → mode ≠ .immediate →
    σ.pending.items = [(key, timer)] → Coupled σ

theorem run_refused {status : Nat} {text : String} (h : refuse p s.core = some (status, text)) :
    (handlePatchStaged S A p s.next).run s.core = (.ok (.refused status text), s.core) := by
  unfold handlePatchStaged
  rw [run_bind_ok run_get, h]
  rfl

theorem run_staged (h : refuse p s.core = none) :
    (handlePatchStaged S A p s.next).run s.core = (stageAndProcess S A p s.next).run s.core := by
  unfold handlePatchStaged
  rw [run_bind_ok run_get, h]

theorem patch_core : (s.patch S A p).core = ((handlePatchStaged S A p s.next).run s.core).2 :=
  rfl

-- A request that leaves the schedule as it is.
theorem step_kept (hr : (handlePatchStaged S A p s.next).run s.core = (r, core))
    (hm : core.schedule.mode = s.core.schedule.mode) (hp : core.pending = s.core.pending)
    (hc : core.carried = s.core.carried) (hd : delayed r = false)
    (ha : ¬(accepted r = true ∧ (p.activation.bind (·.mode)).isSome)) : s.ledger.Step (s.patch S A p).ledger := by
  have harmed : core.armed = s.core.armed := by rw [Runtime.armed, hp, Runtime.armed]
  have hl : (s.patch S A p).ledger = { s.ledger with next := s.ledger.next + 1 } := by
    have hf : s.core.armed.filter (· ∉ s.core.armed) = [] := by simp
    simp only [patch, ledger, hr, hd, if_neg ha, harmed, hf, List.append_nil, ite_self, hc, Bool.false_eq_true, if_false]
    rw [← mode_schedule, hm]
    rfl
  exact hl ▸ .idle

omit [Seconds T] in
theorem Coupled.of_eq {σ σ' : Schedule T} (h : Coupled σ) (hm : σ'.mode = σ.mode) (hp : σ'.pending = σ.pending) :
    Coupled σ' := by
  cases h
  case idle hn hi                => exact .idle (hm.trans hn) (hp ▸ hi)
  case armed mode key timer hn hi hq => exact .armed mode key timer (hm.trans hn) hi (hp ▸ hq)

theorem kept (h : Coupled s.core.schedule) (hr : (handlePatchStaged S A p s.next).run s.core = (r, core))
    (hm : core.schedule.mode = s.core.schedule.mode) (hp : core.pending = s.core.pending)
    (hc : core.carried = s.core.carried) (hd : delayed r = false)
    (ha : ¬(accepted r = true ∧ (p.activation.bind (·.mode)).isSome)) :
    s.ledger.Step (s.patch S A p).ledger ∧ Coupled (s.patch S A p).core.schedule := by
  refine ⟨step_kept hr hm hp hc hd ha, ?_⟩
  rw [patch_core, hr]
  exact h.of_eq hm hp

omit [Seconds T] in
theorem mode_reset {σ : Schedule T} : σ.reset.mode = none := by
  unfold Schedule.reset Schedule.mode
  split
  case isTrue h  => rfl
  case isFalse h => rfl

omit [Seconds T] in
theorem reset_carried {σ : Schedule T} : σ.reset.carried = σ.carried := by
  unfold Schedule.reset
  split <;> rfl

omit [Seconds T] in
-- What the ledger is, of what there is to the schedule.
theorem ledger_eq {σ : Schedule T} {armed carried : List Nat} {locked : Bool} (h : s.core.schedule = σ)
    (hm : σ.mode.isSome = locked) (ha : s.core.armed = armed) (hc : s.core.carried.map (·.request) = carried) :
    s.ledger = {
      locked, armed, carried, scheduled := s.scheduled, asked := s.asked, withdrawn := s.withdrawn, next := s.next } := by
  subst h hm ha hc
  rfl

theorem step_fire {resourceId : String} {cursor : TaiCursor} (h : Coupled s.core.schedule)
    (hr : Regular S A s (.fire resourceId cursor)) (e : s.fire S resourceId cursor = some s') :
    s.ledger.Step s'.ledger ∧ Coupled s'.core.schedule := by
  obtain ⟨timer, ht, rfl⟩ := Option.map_eq_some_iff.mp e
  have hmem := Dict.get?_eq_some.mp ht
  cases h
  case idle hm hp =>
    rw [show s.core.pending.items = [] from hp] at hmem
    cases hmem
  case armed mode key timer' hm hi hp =>
    have hp : s.core.pending.items = [(key, timer')] := hp
    rw [hp, List.mem_singleton, Prod.mk.injEq] at hmem
    obtain ⟨rfl, rfl⟩ := hmem
    have hs : ((pendingActivationTask S resourceId timer cursor).leaves s.core).schedule = _ :=
      pendingActivationTask_leaves (hr timer ht)
    have hitems : (s.core.pending.erase resourceId).items = [] := by simp [Dict.erase, hp]
    have harmed : s.ledger.armed = [timer.request] := by simp [ledger, Runtime.armed, Dict.values, hp]
    refine ⟨?_, .idle ?_ ?_⟩
    · have hl : Served.ledger { s with core := (pendingActivationTask S resourceId timer cursor).leaves s.core } =
          { s.ledger with locked := false, armed := [], carried := s.ledger.carried ++ [timer.request] } := by
        refine ledger_eq hs (congrArg Option.isSome mode_reset) ?_ ?_
        · rw [Runtime.armed, show Runtime.pending _ = s.core.pending.erase resourceId from congrArg Schedule.pending hs]
          simp only [Dict.values, hitems, List.map_nil]
        · rw [show Runtime.carried _ = _ from congrArg Schedule.carried hs, reset_carried]
          exact List.map_append
      exact hl ▸ .fire timer.request harmed
    · rw [hs]
      exact mode_reset
    · rw [hs]
      exact hitems

-- Without an activation to carry out, nothing is answered 202.
theorem not_delayed {t : Runtime T Sdp Side} {n : Nat} (hm : t.schedule.mode = none ∨ ∃ mode,
    t.schedule.mode = some mode ∧ mode ≠ .immediate ∧ t.schedule.pending.contains p.resourceId) :
    delayed ((answered S A p n).run t).1 = false := by
  cases he : ((answered S A p n).run t).1
  case error => rfl
  case ok reply =>
    have hrun : (answered S A p n).run t = (.ok reply, ((answered S A p n).run t).2) := Prod.ext he rfl
    obtain ⟨r, σ, view, hp, -, rfl⟩ := run_answered hrun
    cases hp
    case absent    => rfl
    case cancelled => rfl
    case waiting   => rfl
    case immediate => rfl
    case due       => rfl
    case armed m timing timer left hm' hi hc hleft hpos hn =>
      rcases hm with hm | ⟨mode, hm, -, hw⟩
      · cases hm'.symm.trans hm
      · exact absurd hw hc

omit [Seconds T] in
theorem refuse_none (h : refuse p s.core = none) : s.core.schedule.references.1.isNone = false ∧
    ((p.activation.bind (·.mode)).isSome → s.core.schedule.mode = none) := by
  unfold refuse at h
  split at h
  case h_1 => cases h
  case h_2 =>
    split at h
    case isTrue => cases h
    case isFalse hs =>
      split at h
      case isTrue => cases h
      case isFalse hc =>
        refine ⟨Bool.eq_false_iff.mpr hs, fun ha => ?_⟩
        simp only [pendingActivationConflict, ha, and_true, decide_eq_true_eq] at hc
        exact Option.not_isSome_iff_eq_none.mp hc

-- What is staged raises, and the schedule is still what it was.
theorem kept_raises (h : Coupled s.core.schedule) (hrefuse : refuse p s.core = none) (hstage : (stage p).Raises s.core)
    (hsame : ((stage p).leaves s.core).schedule = s.core.schedule) :
    s.ledger.Step (s.patch S A p).ledger ∧ Coupled (s.patch S A p).core.schedule := by
  have ⟨hraises, hleaves⟩ := stageAndProcess_raises (S := S) (A := A) (n := s.next) hstage
  obtain ⟨e, hrun⟩ := raises_iff.mp hraises
  rw [← run_staged hrefuse, hleaves] at hrun
  exact kept h hrun (congrArg Schedule.mode hsame) (congrArg Schedule.pending hsame) (congrArg Schedule.carried hsame)
    rfl nofun

omit [Seconds T] in
theorem erase_items {d : Dict String PendingActivation} {resourceId : String} (h : ∀ k ∈ d.keys, k = resourceId) :
    (d.erase resourceId).items = [] := by
  refine List.filter_eq_nil_iff.mpr fun (k, timer) hmem => ?_
  have hk : k = resourceId := h k (List.mem_map.mpr ⟨_, hmem, rfl⟩)
  simp [hk]

-- Parameters only: a timer stays armed, and without one there is nothing to process.
theorem kept_parameters (h : Coupled s.core.schedule) (hrefuse : refuse p s.core = none) (ha : p.activation = none)
    (halias : ∀ k ∈ s.core.pending.keys, k = p.resourceId) (hstage : ¬(stage p).Raises s.core)
    (hsame : ((stage p).leaves s.core).schedule = s.core.schedule) :
    s.ledger.Step (s.patch S A p).ledger ∧ Coupled (s.patch S A p).core.schedule := by
  have hrun := (run_staged (S := S) (A := A) hrefuse).trans (stageAndProcess_staged hstage)
  generalize (stage p).leaves s.core = t at hrun hsame
  have hsome : t.schedule.references.1.isNone = false := hsame ▸ (refuse_none hrefuse).1
  have hnone : ¬(accepted ((answered S A p s.next).run t).1 = true ∧ (p.activation.bind (·.mode)).isSome) :=
    fun hx => by simp [ha] at hx
  cases h
  case idle hm hp =>
    have hm' : t.schedule.mode = none := hsame ▸ hm
    have hleaves := answered_leaves (A := A) (run_processActivation_none (S := S) (p := p) (n := s.next) hsome hm')
    have herase : t.pending.erase p.resourceId = s.core.pending := by
      have hpending : t.pending = s.core.pending := congrArg Schedule.pending hsame
      have hitems : s.core.pending.items = [] := hp
      rw [hpending]
      exact Dict.mk.injEq .. |>.mpr (by rw [hitems]; rfl)
    refine kept (.idle hm hp) hrun ?_ ?_ ?_ (not_delayed (.inl hm')) hnone
    · exact (congrArg Schedule.mode hleaves).trans (hm'.trans hm.symm)
    · exact (congrArg Schedule.pending hleaves).trans herase
    · exact (congrArg Schedule.carried hleaves).trans (congrArg Schedule.carried hsame)
  case armed mode key timer hm hi hp =>
    have hm' : t.schedule.mode = some mode := hsame ▸ hm
    have hmem : (key, timer) ∈ s.core.pending.items := (show s.core.pending.items = _ from hp) ▸ List.mem_singleton_self _
    have hkey : key = p.resourceId := halias key (List.mem_map.mpr ⟨_, hmem, rfl⟩)
    have hc : t.pending.contains p.resourceId := by
      rw [show t.pending = s.core.pending from congrArg Schedule.pending hsame, Dict.contains_iff]
      exact ⟨timer, Dict.get?_eq_some.mpr (hkey ▸ hmem)⟩
    have hleaves := answered_leaves (A := A) (run_processActivation_waiting (S := S) (n := s.next) hsome hm' hi hc)
    rw [hsame] at hleaves
    exact kept (.armed mode key timer hm hi hp) hrun (congrArg Schedule.mode hleaves) (congrArg Schedule.pending hleaves)
      (congrArg Schedule.carried hleaves) (not_delayed (.inr ⟨mode, hm', hi, hc⟩)) hnone

-- A null mode withdraws the timer that is armed, if any.
theorem step_withdraw {a : NActivationPatch} (hrefuse : refuse p s.core = none) (ha : p.activation = some a)
    (hmode : a.mode = none) (halias : ∀ k ∈ s.core.pending.keys, k = p.resourceId) (hstage : ¬(stage p).Raises s.core)
    (hsame : ((stage p).leaves s.core).schedule = p.staged s.core.schedule) :
    s.ledger.Step (s.patch S A p).ledger ∧ Coupled (s.patch S A p).core.schedule := by
  have hrun := (run_staged (S := S) (A := A) hrefuse).trans (stageAndProcess_staged hstage)
  generalize (stage p).leaves s.core = t at hrun hsame
  have hsome : t.schedule.references.1.isNone = false := by
    rw [hsame]
    exact (refuse_none hrefuse).1
  have hm : t.schedule.mode = none := by
    rw [hsame, Schedule.mode, Patch.staged, ha]
    exact ite_eq_left_iff.mpr fun _ => hmode
  have hleaves := answered_leaves (A := A) (run_processActivation_none (S := S) (p := p) (n := s.next) hsome hm)
  have hdelayed := not_delayed (S := S) (A := A) (p := p) (n := s.next) (.inl hm)
  have hitems : (t.pending.erase p.resourceId).items = [] := by
    rw [show t.pending = s.core.pending from congrArg Schedule.pending hsame]
    exact erase_items halias
  have hcore : (s.patch S A p).core.schedule = Runtime.schedule { t with
      pending := t.pending.erase p.resourceId, timing := {} } := by
    rw [patch_core, hrun]
    exact hleaves
  refine ⟨?_, hcore ▸ .idle hm hitems⟩
  have harmed : (s.patch S A p).core.armed = [] := by
    rw [Runtime.armed, show (s.patch S A p).core.pending = t.pending.erase p.resourceId from
      congrArg Schedule.pending hcore]
    simp only [Dict.values, hitems, List.map_nil]
  have hl : (s.patch S A p).ledger = { s.ledger with
      locked := false, armed := [], withdrawn := s.ledger.withdrawn ++ s.ledger.armed, next := s.ledger.next + 1 } := by
    have hscheduled : (s.patch S A p).scheduled = s.scheduled := by
      refine if_neg ?_
      rw [hrun, hdelayed]
      exact Bool.false_ne_true
    have hasked : (s.patch S A p).asked = s.asked := if_neg fun hx => by simp [ha, hmode] at hx
    have hwithdrawn : (s.patch S A p).withdrawn = s.withdrawn ++ s.core.armed := by
      have hall : s.core.armed.filter (· ∉ (s.patch S A p).core.armed) = s.core.armed :=
        List.filter_eq_self.mpr fun _ _ => by simp [harmed]
      refine (if_pos (by simp [ha, hmode])).trans ?_
      exact congrArg (s.withdrawn ++ ·) hall
    have hcarried : (s.patch S A p).core.carried = s.core.carried :=
      (congrArg Schedule.carried hcore).trans (congrArg Schedule.carried hsame)
    rw [ledger_eq hcore (congrArg Option.isSome hm) harmed (congrArg (List.map _) hcarried), hscheduled, hasked, hwithdrawn]
    rfl
  exact hl ▸ .withdraw

section Activate

variable {a : NActivationPatch} {m : RequestedMode} {r : ActivationResponse T} {σ : Schedule T} {view : NActivation}

-- A request that is accepted, with an activation to carry out.
theorem ledger_activated (ha : p.activation = some a) (hmode : a.mode = some m)
    (hrun : ((handlePatchStaged S A p s.next).run s.core).1 = .ok (.done (if r.delayedActivation then 202 else 200) view)) :
    (s.patch S A p).scheduled = (if r.delayedActivation then s.scheduled ++ [s.next] else s.scheduled) ∧
      (s.patch S A p).asked = s.asked ++ [s.next] ∧ (s.patch S A p).withdrawn = s.withdrawn := by
  refine ⟨?_, if_pos ?_, if_neg ?_⟩
  · change (if delayed _ then _ else _) = _
    rw [hrun]
    cases r.delayedActivation <;> rfl
  · rw [hrun, ha]
    exact ⟨rfl, by simp [hmode]⟩
  · simp [ha, hmode]

-- The activation was carried out.
theorem step_carry {report : NActivation} (hidle : s.core.pending.items = []) (hcore : (s.patch S A p).core.schedule = σ.reset)
    (hp : σ.pending = s.core.pending) (hc : σ.carried = s.core.carried ++ [⟨s.next, report⟩])
    (hscheduled : (s.patch S A p).scheduled = s.scheduled) (hasked : (s.patch S A p).asked = s.asked ++ [s.next])
    (hwithdrawn : (s.patch S A p).withdrawn = s.withdrawn) :
    s.ledger.Step (s.patch S A p).ledger ∧ Coupled (s.patch S A p).core.schedule := by
  have harmed : s.ledger.armed = [] := by
    simp only [ledger, Runtime.armed, Dict.values, hidle, List.map_nil]
  have hpending : (s.patch S A p).core.pending = s.core.pending :=
    (congrArg Schedule.pending hcore).trans (reset_pending.trans hp)
  have hstays : (s.patch S A p).core.armed = s.core.armed := by
    rw [Runtime.armed, hpending, Runtime.armed]
  have hmore : (s.patch S A p).core.carried.map (·.request) = s.ledger.carried ++ [s.next] := by
    rw [show (s.patch S A p).core.carried = σ.reset.carried from congrArg Schedule.carried hcore, reset_carried, hc]
    exact List.map_append
  have hl : (s.patch S A p).ledger = { s.ledger with
      locked := false, carried := s.ledger.carried ++ [s.next], asked := s.ledger.asked ++ [s.next]
      next := s.ledger.next + 1 } := by
    rw [ledger_eq hcore (congrArg Option.isSome mode_reset) hstays hmore, hscheduled, hasked, hwithdrawn]
    rfl
  refine ⟨hl ▸ .carry harmed, .idle (hcore ▸ mode_reset) ?_⟩
  rw [hcore, reset_pending, hp, hidle]

theorem step_activate (h : Coupled s.core.schedule) (hrefuse : refuse p s.core = none) (ha : p.activation = some a)
    (hmode : a.mode = some m) (hstage : ¬(stage p).Raises s.core)
    (hsame : ((stage p).leaves s.core).schedule = p.staged s.core.schedule)
    (hanswered : ¬(answered S A p s.next).Raises ((stage p).leaves s.core)) :
    s.ledger.Step (s.patch S A p).ledger ∧ Coupled (s.patch S A p).core.schedule := by
  have hrun := (run_staged (S := S) (A := A) hrefuse).trans (stageAndProcess_staged hstage)
  generalize (stage p).leaves s.core = t at hrun hsame hanswered
  -- The modes do not conflict, so that no timer is armed.
  have hidle : s.core.pending.items = [] := by
    have hm := (refuse_none hrefuse).2 (by simp [ha, hmode])
    cases h
    case idle hp                       => exact hp
    case armed mode key timer hm' hi hp => cases hm'.symm.trans hm
  have hsome : t.schedule.references.1.isNone = false := hsame ▸ (refuse_none hrefuse).1
  have hpending : t.pending = s.core.pending := congrArg Schedule.pending hsame
  have hcarried : t.carried = s.core.carried := congrArg Schedule.carried hsame
  have hm : t.schedule.mode = some m := by
    rw [hsame, Schedule.mode, Patch.staged, ha]
    refine (if_neg ?_).trans hmode
    exact Bool.eq_false_iff.mp (refuse_none hrefuse).1
  have harmed : s.ledger.armed = [] := by
    simp only [ledger, Runtime.armed, Dict.values, hidle, List.map_nil]
  obtain ⟨reply, hok⟩ := not_raises_iff.mp hanswered
  obtain ⟨r, σ, view, hprocessed, hleaves, rfl⟩ := run_answered hok
  obtain ⟨hscheduled, hasked, hwithdrawn⟩ := ledger_activated (s := s) ha hmode (hrun ▸ congrArg Prod.fst hok)
  have hcore : (s.patch S A p).core.schedule = σ.answer r := by
    rw [patch_core, hrun]
    exact hleaves
  cases hprocessed
  case absent hn    => cases hsome.symm.trans hn
  case cancelled hn => cases hm.symm.trans hn
  case waiting mode hm' hi hc =>
    obtain ⟨timer, ht⟩ := Dict.contains_iff.mp hc
    have hmem := Dict.get?_eq_some.mp ht
    rw [show t.schedule.pending.items = [] from (congrArg Dict.items hpending).trans hidle] at hmem
    cases hmem
  case immediate now hm' =>
    exact step_carry hidle hcore hpending (congrArg (· ++ [_]) hcarried) hscheduled hasked hwithdrawn
  case due mode now hm' hi hc =>
    exact step_carry hidle hcore hpending (congrArg (· ++ [_]) hcarried) hscheduled hasked hwithdrawn
  case armed mode timing timer left hm' hi hc hleft hpos hn =>
    have hitems : ((t.pending.erase p.resourceId).set p.resourceId timer).items = [(p.resourceId, timer)] := by
      have herase : (t.pending.erase p.resourceId).items = [] := by
        rw [hpending]
        simp only [Dict.erase, hidle, List.filter_nil]
      have hnew : p.resourceId ∉ (t.pending.erase p.resourceId).keys := by simp [Dict.keys, herase]
      unfold Dict.set
      rw [dif_neg hnew]
      exact congrArg (· ++ [(p.resourceId, timer)]) herase
    have hone : (s.patch S A p).core.armed = [s.next] := by
      rw [Runtime.armed, show (s.patch S A p).core.pending = (t.pending.erase p.resourceId).set p.resourceId timer from
        congrArg Schedule.pending hcore]
      simp only [Dict.values, hitems, List.map_cons, List.map_nil, hn]
    have hl : (s.patch S A p).ledger = { s.ledger with
        locked := true, armed := [s.next], scheduled := s.ledger.scheduled ++ [s.next]
        asked := s.ledger.asked ++ [s.next], next := s.ledger.next + 1 } := by
      have hkept : (s.patch S A p).core.carried = s.core.carried := (congrArg Schedule.carried hcore).trans hcarried
      rw [ledger_eq hcore (congrArg Option.isSome hm') hone (congrArg (List.map _) hkept), hscheduled, hasked, hwithdrawn]
      rfl
    exact ⟨hl ▸ .arm harmed, hcore ▸ .armed mode p.resourceId timer hm' hi hitems⟩

end Activate

theorem step_patch (h : Coupled s.core.schedule) (hr : Regular S A s (.patch p)) :
    s.ledger.Step (s.patch S A p).ledger ∧ Coupled (s.patch S A p).core.schedule := by
  cases hrefuse : refuse p s.core
  case some why => exact kept h (run_refused hrefuse) rfl rfl rfl rfl (by simp [accepted])
  case none =>
    have ⟨halias, hregular⟩ := hr hrefuse
    by_cases hfirst : (onStaged p.stageFirst : Scheduling T Sdp Side Unit).Raises s.core
    case pos =>
      have ⟨hstage, hsame⟩ := stage_refused hfirst
      exact kept_raises h hrefuse hstage hsame
    case neg =>
      have hsame := stage_leaves hfirst
      cases ha : p.activation
      case none =>
        have hsame : ((stage p).leaves s.core).schedule = s.core.schedule := by
          rw [hsame, Patch.staged, ha]
          rfl
        by_cases hstage : (stage p).Raises s.core
        case pos => exact kept_raises h hrefuse hstage hsame
        case neg => exact kept_parameters h hrefuse ha (halias hstage) hstage hsame
      case some a =>
        have ⟨hstage, hanswered⟩ := hregular a ha hfirst
        cases hmode : a.mode
        case none   => exact step_withdraw hrefuse ha hmode (halias hstage) hstage hsame
        case some m => exact step_activate h hrefuse ha hmode hstage hsame (hanswered (by simp [hmode]))

theorem step_ledger {a : ServedAction T} (h : Coupled s.core.schedule) (hr : Regular S A s a)
    (e : s.step S A a = some s') : s.ledger.Step s'.ledger ∧ Coupled s'.core.schedule := by
  cases a
  case patch p                => exact Option.some.inj e ▸ step_patch h hr
  case fire resourceId cursor => exact step_fire h hr e

theorem init_inv {inner : State Sdp Side} : (system (T := T) S A inner).init.ledger.Inv ∧
    Coupled (system (T := T) S A inner).init.core.schedule := by
  have hm : (system (T := T) S A inner).init.core.schedule.mode = none := ite_self none
  have hlocked : (system (T := T) S A inner).init.ledger.locked = false := congrArg Option.isSome hm
  refine ⟨⟨⟨?_, Nat.zero_le 1, fun _ h => (by cases h), fun _ h => (by cases h), .nil⟩, fun _ h => (by cases h), ?_⟩, .idle hm rfl⟩
  · rw [hlocked]
    exact iff_of_false Bool.false_ne_true Nat.zero_ne_one
  · rintro n (h | h | h) <;> cases h

-- The staged mode is a lock, which is held while a timer is armed. Each timer comes due once, unless it is withdrawn.
theorem lock_is_timer {inner : State Sdp Side} (h : (system S A inner).Reaches (Regular S A) s) : s.ledger.Exact := by
  have hi := h.preserves (I := fun s => s.ledger.Inv ∧ Coupled s.core.schedule) ?_ init_inv
  · exact hi.1.exact
  · intro s a s' ⟨hi, hc⟩ hr e
    have ⟨hs, hc'⟩ := step_ledger hc hr e
    exact ⟨hi.step hs, hc'⟩

end Served

-- Seconds without fractions, and a Sender whose activations are scheduled.
namespace Scheduling

local instance python : Python := .ofTable []

local instance seconds : Seconds Int where
  zero             := 0
  taiUtcOffset     := 37
  add              := (· + ·)
  sub              := (· - ·)
  isPositive t     := 0 < t
  int text         :=
    if text.toList.all Char.isDigit ∧ text ≠ "" then
      some (text.toList.foldl (fun n c => 10 * n + (c.toNat - '0'.toNat)) 0 : Nat)
    else none
  ofParts sec _    := some sec
  parts sec        := (sec, 0)
  datetime t       := if 0 < t then some t else none
  timedelta t      := t

def answering : Answering String Unit where
  emitClock _ := pure ()
  answer _    := pure ()

def request (requestedTime : String) : Patch Int where
  resourceId := Deleted.call.resourceId
  isSender   := true
  resolver   := some resolveUdpSender
  refusal    := none
  activation := some { mode := some .relative, requestedTime := some (some requestedTime) }
  check _    := none
  stageFirst := pure ()
  stageRest  := pure ()
  now        := 1000
  later      := 1000
  cursor     := ⟨1037, 0⟩

def start : State String Unit :=
  { Deleted.start with node := { Deleted.start.node with
    senders := ResourceStore.put ∅ Deleted.call.staticId { subscription := none, version := ⟨1, 0⟩ } } }

def system : TransitionSystem (Served Int String Unit) (ServedAction Int) :=
  Served.system Deleted.subsystems answering start

-- It is refused, and its mode stays staged.
theorem malformed_request_locks : ∃ s, system.Reachable s ∧ s.core.pending.items = [] ∧
    s.core.stagedMode = some .relative ∧ ¬s.ledger.Exact := by
  refine ⟨_, .single trivial (a := .patch (request "soon")) rfl, by decide +kernel, by decide +kernel, fun h => ?_⟩
  have hl := h.locked
  revert hl
  decide +kernel

def armed : Served Int String Unit :=
  Served.patch Deleted.subsystems answering system.init (request "5:0")

theorem request_regular : Served.Regular Deleted.subsystems answering system.init (.patch (request "5:0")) := by
  refine fun _ => ⟨fun _ => nofun, fun a ha _ => ⟨?_, fun _ => ?_⟩⟩
  · exact not_raises_of_isOk (by decide +kernel)
  · exact not_raises_of_isOk (by decide +kernel)

theorem timer_regular : Served.Regular Deleted.subsystems answering armed (.fire Deleted.call.resourceId ⟨1042, 0⟩) := by
  intro timer ht
  have hall : (armed.core.pending.get? Deleted.call.resourceId).all fun timer =>
      ((doActivation Deleted.subsystems { timer.call with now := ⟨1042, 0⟩ }).run armed.core.inner).1.isOk := by
    decide +kernel
  rw [ht] at hall
  exact not_raises_of_isOk hall

def carriedOut : Served Int String Unit :=
  (armed.fire Deleted.subsystems Deleted.call.resourceId ⟨1042, 0⟩).get (by decide +kernel)

theorem relative_request_carried_out : ∃ s, system.Reaches (Served.Regular Deleted.subsystems answering) s ∧
    s.scheduled = [0] ∧ s.core.carried.map (·.request) = [0] ∧ s.ledger.Exact := by
  have hrun : system.Reaches (Served.Regular Deleted.subsystems answering) carriedOut :=
    .tail (.single request_regular rfl) timer_regular (Option.some_get _).symm
  exact ⟨carriedOut, hrun, by decide +kernel, by decide +kernel, Served.lock_is_timer hrun⟩

end Scheduling
end Connection
