import NmosReference.Controller.CacheListener
import NmosReference.Controller.RdsWebSocketRuns

-- The subscriber of one kind, and any number of independent registries.
namespace Controller

variable {J P : Type} [Json J] [FlowMatcher J P] [DecidableEq P] {kind : ResourceKind} {targets : Nat}

def followers (kind : ResourceKind) (targets : Nat) : TransitionSystem (Follower J P) (FollowerAction J) where
  init := { selector := ⟨targets, 0, 0⟩ }
  step := Follower.step kind

omit [FlowMatcher J P] [DecidableEq P] in
theorem Follower.inv_init : Inv kind ({ selector := ⟨targets, 0, 0⟩ } : Follower J P) where
  valid _ _ _ h  := (by cases h)
  reply _ h      := (by cases List.mem_singleton.mp h)
  wf _ h         := (by cases h)
  since          := trivial
  upToDate _ h   := (by cases h.connected)

-- In a run of regular steps the cache is what the selected registry holds, whenever nothing is on the way.
theorem followers_converged {s : Follower J P}
    (r : (followers kind targets).Reaches (Follower.Regular kind) s) (h : s.Quiescent) : s.Converged kind :=
  (r.induct Follower.inv_init fun _ _ _ _ hi ho e => hi.step ho e).converged h

end Controller

namespace Controller.Example

local instance : Json Value :=
  valueJson

local instance : FlowMatcher Value Unit :=
  noFlowMatcher

def node : Value :=
  .inr [("id", "a")]

def other : Value :=
  .inr [("id", "b")]

-- A node that is removed while the subscriber is not connected stays in the cache.
theorem removed_while_disconnected : ¬∀ s : Follower Value Unit,
    (followers .node 1).Reachable s → s.Quiescent → s.Converged .node := by
  intro h
  have e : ∃ s : Follower Value Unit, (followers .node 1).run (followers .node 1).init
      [.resync 0, .resync 0, .start, .attempt, .connect, .put 0 "a" node, .drain, .take, .handle, .broken, .lost,
        .delete 0 "a", .attempt, .connect] = some s ∧ s.Quiescent ∧
      (s.cache.storeFor .node).get? "a" = some node ∧ (s.registries s.selector.current).get? "a" = none := by
    refine ⟨_, rfl, ⟨_, rfl, rfl, rfl, rfl, rfl, rfl, ?_⟩, by decide, by decide⟩
    exact List.all_eq_true.mp (by rfl)
  obtain ⟨s, e, hq, hcache, hreg⟩ := e
  have hc := h s (.of_run _ e) hq "a"
  rw [hcache, hreg] at hc
  cases hc

-- A node is in the page that is fetched, and in the synchronisation burst; another one comes in a grain.
def registrations : List (FollowerAction Value) :=
  [.put 0 "a" node, .resync 0, .resync 0, .start, .attempt, .connect, .drain, .take, .handle, .put 0 "b" other, .drain,
    .take, .handle]

theorem registered_regular : (followers .node 1).Along (fun (s : Follower Value Unit) a => s.Regular .node a)
    (followers .node 1).init registrations := by
  refine ⟨trivial, fun s₁ e => ?_⟩
  obtain rfl := Option.some.inj e
  refine ⟨fun r hr => ?_, fun s₁ e => ?_⟩
  · cases hr
    trivial
  obtain rfl := Option.some.inj e
  refine ⟨fun r hr => ?_, fun s₁ e => ?_⟩
  · cases hr
    exact fun c hc => (by cases hc.connected)
  obtain rfl := Option.some.inj e
  refine ⟨trivial, fun s₁ e => ?_⟩
  obtain rfl := Option.some.inj e
  refine ⟨trivial, fun s₁ e => ?_⟩
  obtain rfl := Option.some.inj e
  refine ⟨fun n epoch hs _ id hid => ?_, fun s₁ e => ?_⟩
  · cases hs
    exact hid
  obtain rfl := Option.some.inj e
  exact ⟨trivial, fun _ _ => ⟨trivial, fun _ _ => ⟨trivial, fun _ _ => ⟨trivial, fun _ _ => ⟨trivial, fun _ _ =>
    ⟨trivial, fun _ _ => ⟨trivial, fun _ _ => trivial⟩⟩⟩⟩⟩⟩⟩

theorem registered_converged : ∃ s : Follower Value Unit,
    (followers .node 1).run (followers .node 1).init registrations = some s ∧ s.Converged .node ∧
      (s.cache.storeFor .node).keys = ["a", "b"] := by
  obtain ⟨s, e, hq, hk⟩ : ∃ s : Follower Value Unit,
      (followers .node 1).run (followers .node 1).init registrations = some s ∧ s.Quiescent ∧
        (s.cache.storeFor .node).keys = ["a", "b"] := by
    refine ⟨_, rfl, ⟨_, rfl, rfl, rfl, rfl, rfl, rfl, ?_⟩, by decide⟩
    exact List.all_eq_true.mp (by rfl)
  exact ⟨s, e, followers_converged (.of_along e registered_regular) hq, hk⟩

end Controller.Example
