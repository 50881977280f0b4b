import NmosReference.Controller.CacheStatusRuns

-- The calls that reach the cache, one after the other, and a listener to its events.
namespace Controller

structure Session (J P : Type) where
  cache : ResourceCache J P := {}
  copy  : Copy J := ∅

variable {J P : Type} [Json J] [FlowMatcher J P] [DecidableEq P]

-- The events of a call that raises are lost.
def sessions : TransitionSystem (Session J P) (Call J) where
  init       := {}
  step s a :=
    match (ResourceCache.call a).run s.cache with
    | (.ok events, c) => some ⟨c, listen s.copy events⟩
    | (.error _, c)   => some ⟨c, s.copy⟩

namespace Session

variable {s : Session J P}

-- Every status is the derived one, and the listener's copy is the same.
def Accurate (s : Session J P) : Prop :=
  s.cache.Derived ∧ ∀ (k : StatusKind) id, (s.cache.storeFor k.kind).contains id →
    ∃ status, s.cache.status.get? id = some status ∧ s.copy.get? id = some (some status)

structure Inv (s : Session J P) : Prop where
  cache  : s.cache.Inv
  inStep : s.cache.InStep s.copy

omit [FlowMatcher J P] [DecidableEq P] in
theorem inv_init : Inv ({} : Session J P) where
  cache := {
    status k id r h   := by cases k <;> cases h
    disjoint k id h   := by cases k <;> cases h.1
    calm kind id r h  := by cases kind <;> cases h
    known id s h      := (by cases h) }
  inStep id s h := (by cases h)

theorem Inv.step {s' : Session J P} {a : Call J} (hi : Inv s) (h : s.cache.Regular a)
    (e : sessions.step s a = some s') : Inv s' := by
  obtain ⟨c, ⟨events, hrun, hs⟩, hc⟩ := hi.cache.call h
  simp only [sessions, hrun, Option.some.injEq] at e
  subst e
  exact ⟨hc, hs _ hi.inStep⟩

omit [FlowMatcher J P] [DecidableEq P] in
theorem Inv.accurate (hi : Inv s) : Accurate s := by
  refine ⟨hi.cache.derived, fun k id h => ?_⟩
  obtain ⟨r, hr⟩ := Dict.contains_iff.mp h
  obtain ⟨status, -, hs⟩ := hi.cache.status k id r hr
  exact ⟨status, hs, hi.inStep id status hs⟩

end Session

-- In a run of regular calls, every status is the derived one, and a listener has the same.
theorem sessions_accurate {s : Session J P} (r : sessions.Reaches (fun s a => s.cache.Regular a) s) :
    s.Accurate :=
  (r.induct Session.inv_init fun _ _ _ _ hi ho e => hi.step ho e).accurate

end Controller

namespace Controller.Example

-- Strings, and dictionaries of strings.
abbrev Value :=
  String ⊕ List (String × String)

@[reducible] def valueJson : Json Value where
  decEq := inferInstance
  get
    | .inl _, _   => none
    | .inr d, key => (d.lookup key).map .inl
  isDict   := Sum.isRight
  truthy
    | .inl s => s ≠ ""
    | .inr d => d ≠ []
  hashable := Sum.isLeft
  str      := Sum.getLeft?
  list _   := none
  int
    | .inl s => s.toInt?.elim (.error .valueError) .ok
    | .inr _ => .error .typeError
  hashable_of_str
    | .inl _, _, _ => rfl

-- No flow and no constraint set can be converted.
@[reducible] def noFlowMatcher : FlowMatcher Value Unit where
  CapSet         := Unit
  flowCaps _ _ _ := none
  declared _     := none
  part _         := ""
  hasConset _    := true
  included _ _   := true
  valueCount _   := 0
  payload _ _    := ()

local instance : Json Value :=
  valueJson

local instance : FlowMatcher Value Unit :=
  noFlowMatcher

def sender : Value :=
  .inr [("id", "sender")]

def monitor : Value :=
  .inr [("id", "monitor"), ("format", "urn:x-nmos:format:data"), ("monitor_type", "sender"),
    ("monitor_sibling_id", "sender")]

-- The status of a sender is still there when a bulk replace has taken the sender away.
theorem status_outlives_sender :
    ¬∀ s : Session Value Unit, sessions.Reachable s → s.Accurate := by
  intro h
  have e : ∃ s, sessions.run ({} : Session Value Unit) [.upsert .sender sender, .replaceAll .sender []] = some s ∧
      (s.cache.status.get? "sender").isSome ∧ s.cache.senders.get? "sender" = none ∧
      s.cache.receivers.get? "sender" = none := ⟨_, rfl, by decide⟩
  obtain ⟨s, e, hs, hsender, hreceiver⟩ := e
  obtain ⟨status, hs⟩ := Option.isSome_iff_exists.mp hs
  obtain ⟨k, hk⟩ := (h s (.of_run _ e)).1.known "sender" status hs
  cases k with
  | sender => simp [Dict.contains, ResourceCache.storeFor, StatusKind.kind, hsender] at hk
  | receiver => simp [Dict.contains, ResourceCache.storeFor, StatusKind.kind, hreceiver] at hk

theorem monitored_regular : sessions.Along (fun (s : Session Value Unit) a => s.cache.Regular a) {}
    [.upsert .sender sender, .upsert .source monitor] := by
  refine ⟨fun rid h => ⟨⟨⟨none, by decide⟩, fun _ => ⟨none, rfl⟩, fun _ h => (by cases h)⟩, fun k _ => ?_, fun h => (by cases h)⟩, fun s₁ e => ?_⟩
  · cases k <;> exact Bool.false_ne_true
  obtain rfl := Option.some.inj e
  refine ⟨fun rid h => ⟨⟨_, rfl⟩, fun _ h => (by cases h), fun _ k id hc => ?_⟩, fun _ _ => trivial⟩
  have hid : rid = "monitor" := Option.some.inj (h.symm.trans (by decide))
  obtain ⟨r, hr⟩ := Dict.contains_iff.mp hc
  have hm := Dict.get?_eq_some.mp hr
  cases k with
  | receiver => cases hm
  | sender =>
    have he : (id, r) = ("sender", sender) := List.mem_singleton.mp hm
    cases he
    rw [hid, if_pos (by decide)]
    rfl

theorem monitored_accurate : ∃ s : Session Value Unit,
    sessions.run {} [.upsert .sender sender, .upsert .source monitor] = some s ∧ s.Accurate := by
  obtain ⟨s, e⟩ : ∃ s : Session Value Unit,
    sessions.run {} [.upsert .sender sender, .upsert .source monitor] = some s := ⟨_, rfl⟩
  exact ⟨s, e, sessions_accurate (.of_along e monitored_regular)⟩

end Controller.Example
