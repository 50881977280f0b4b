import NmosReference.Library.Transition
import NmosReference.Registry.StoreIntervals
import NmosReference.Registry.StorePublish

namespace Registry

open TransitionSystem

-- The public operations of a store, each with the clock reading it has.
inductive StoreOp [Python]
  | insertOrUpdate (t : ResourceType) (body : Body) (now : TaiCursor)
  -- `prepare` followed by `apply_committed` with authoritative cursors and health, or without.
  | commit (t : ResourceType) (body : Body) (created updated : Option TaiCursor) (health : Option Int)
    (now : TaiCursor)
  | delete (t : ResourceType) (id : String) (now : Int)
  | collectGarbage (now : Int)
  | heartbeat (nodeId : String) (now : Int)
  | forget (t : ResourceType) (id : String)

namespace RegistryStore

section Commit

variable [Python] (s : RegistryStore)

-- A registration that `prepare` refuses is not applied.
def commit (t : ResourceType) (body : Body) (created updated : Option TaiCursor)
    (health : Option Int) (now : TaiCursor) : RegistrationResult × RegistryStore :=
  match s.prepare t body.data with
  | .error failure => (failure, s)
  | .ok prepared   => s.applyCommitted prepared body created updated health now

def operate : StoreOp → RegistryStore
  | .insertOrUpdate t body now                => (s.insertOrUpdate t body now).2
  | .commit t body created updated health now => (s.commit t body created updated health now).2
  | .delete t id now                          => (s.delete t id now).2
  | .collectGarbage now                       => (s.collectGarbage now).2
  | .heartbeat nodeId now                     => (s.heartbeat nodeId now).2
  | .forget t id                              => (s.forget t id).2

def system (gcInterval forgetInterval : Rat) : TransitionSystem RegistryStore StoreOp where
  init     := .new gcInterval forgetInterval
  step s a := s.operate a

theorem Sound.operate {s : RegistryStore} (h : s.Sound) (a : StoreOp) : (s.operate a).Sound := by
  cases a with
  | insertOrUpdate t body now =>
    simp only [RegistryStore.operate, insertOrUpdate]
    split
    case h_1      => exact h
    case h_2 p hp => exact h.applyCommitted (prepare_eq_ok.mp hp)
  | commit t body created updated health now =>
    simp only [RegistryStore.operate, RegistryStore.commit]
    split
    case h_1      => exact h
    case h_2 p hp => exact h.applyCommitted (prepare_eq_ok.mp hp)
  | delete t id now       => exact h.delete t id now
  | collectGarbage now    => exact (collectGarbage_spec now h).1
  | heartbeat nodeId now  => exact (heartbeat_refreshed nodeId now h.wellFormed.keyed).sound h
  | forget t id           => exact h.forget t id

theorem sound_of_reachable {gc forget : Rat} {s : RegistryStore}
    (h : (system gc forget).Reachable s) : s.Sound := by
  refine h.induct .new fun s a s' _ hs _ e => ?_
  cases e
  exact hs.operate a

end Commit

variable {s s₁ : RegistryStore} {t t' : ResourceType} {id x : String} {r q : RegisteredResource}
variable {now : Int} {ev : List ResourceEvent} {P : RegisteredResource → Prop} {root : String → Prop}

-- The resource of the second event is a child of that of the first.
def ChildEvent (s : RegistryStore) (e e' : ResourceEvent) : Prop :=
  ∃ r, s.get e'.resourceType e'.resourceId = some r ∧ r.parentId = some e.resourceId

-- Exactly the roots and what hangs below them ceased to be extant, each reported once and no parent
-- before its child.
structure Erases (s : RegistryStore) (root : String → Prop) (events : List ResourceEvent)
    (s₁ : RegistryStore) : Prop where
  get      : ∀ t x r, s₁.get t x = some r ↔ s.get t x = some r ∧ ¬∃ n, root n ∧ s.Under n t x
  reported : ∀ k, k ∈ events.map ResourceEvent.key ↔ ∃ n, root n ∧ s.Under n k.1 k.2
  once     : (events.map ResourceEvent.key).Nodup
  ordered  : events.Pairwise fun e e' => ¬s.ChildEvent e e'

namespace Erasing

-- Nothing that is retired has an extant child left.
theorem ordered (e : Erasing now P s ev s₁) : ev.Pairwise fun e e' => ¬s.ChildEvent e e' := by
  induction e with
  | refl => exact .nil
  | @retire ev s₁ q e _ hg hcq hi =>
    refine List.pairwise_append.mpr ⟨hi, List.pairwise_singleton _ _, fun e' he' e'' he'' => ?_⟩
    obtain rfl := List.mem_singleton.mp he''
    rintro ⟨r, hr, hp⟩
    -- The earlier resource was childless when it was retired, and `q` is still extant.
    clear hi he'' hcq
    induction e with
    | refl => cases he'
    | @retire ev s₂ q' e hp' hg' hc hi =>
      have hq := (Erasing.retire e hp' hg' hc).isBelow.get _ _ _ hg
      obtain rfl : r = q := Option.some.inj (hr.symm.trans hq)
      rw [get_retire ⟨rfl, rfl⟩] at hg
      split at hg
      case isTrue  => cases hg
      case isFalse =>
        obtain he' | he' := List.mem_append.mp he'
        · exact hi hg he'
        · obtain rfl := List.mem_singleton.mp he'
          exact hc _ _ _ hg hp

theorem gone (hw : s.WellFormed) (e : Erasing now P s ev s₁)
    (hn : ∀ n, root n → ∀ t, s₁.get t n = none) {n : String} (hr : root n) (hu : s.Under n t x) :
    s₁.get t x = none := by
  have hw₁ := e.wellFormed hw
  by_contra hne
  obtain ⟨q, hq⟩ := Option.ne_none_iff_exists'.mp hne
  clear hne
  -- Each extant resource has an extant parent, up to the root, which is gone.
  induction hu generalizing q with
  | self h => simp [hn n hr] at hq
  | @child t' pt x p r' h hp hu hi =>
    have hqr : q = r' := Option.some.inj ((e.isBelow.get _ _ _ hq).symm.trans h)
    have ⟨pt', q', _, hq'⟩ := hw₁.parent_of hq (hqr ▸ hp)
    have ⟨_, hpt⟩ := hu.get
    have := hw.type_unique (get_eq_some.mp hpt).1 (get_eq_some.mp (e.isBelow.get _ _ _ hq')).1
    exact hi q' (this ▸ hq')

-- Retiring nothing but what hangs below some roots, the roots included, erases exactly that.
theorem erases (root : String → Prop) (hw : s.WellFormed) (e : Erasing now P s ev s₁)
    (hP : ∀ q, P q → ∃ n, root n ∧ s.Under n q.resourceType q.id)
    (hn : ∀ n, root n → ∀ t, s₁.get t n = none) : s.Erases root ev s₁ where
  get t x r := by
    constructor
    · intro h
      refine ⟨e.isBelow.get _ _ _ h, fun ⟨n, hr, hu⟩ => ?_⟩
      simp [e.gone hw hn hr hu] at h
    · rintro ⟨h, hu⟩
      exact e.keeps h fun q hq hk => hu <| hk.1 ▸ hk.2 ▸ hP q hq
  reported k := by
    rw [e.mem_keys]
    constructor
    · rintro ⟨⟨r, hr⟩, hnone⟩
      by_contra hu
      have := e.keeps hr fun q hq hk => hu <| hk.1 ▸ hk.2 ▸ hP q hq
      simp [hnone] at this
    · rintro ⟨n, hr, hu⟩
      exact ⟨hu.get, e.gone hw hn hr hu⟩
  once     := e.nodup_keys
  ordered  := e.ordered

end Erasing

theorem delete_erases (now : Int) (hw : s.WellFormed) (hg : s.get t id = some r) :
    ∃ events, (s.delete t id now).1 = some events ∧
      s.Erases (· = id) events (s.delete t id now).2 := by
  obtain ⟨hn, _⟩ | ⟨r', ev, s₁, hg', e, he, hgone⟩ := delete_spec t id now hw
  · simp [hg] at hn
  rw [e]
  refine ⟨ev, rfl, he.erases (· = id) hw (fun q hq => ⟨id, rfl, ?_⟩) ?_⟩
  · have hk := hw.key _ _ _ (get_eq_some.mp hg).1
    simp only [subtree, hg, Option.elim_some] at hq
    exact hk.2 ▸ hw.under_of_mem_subtreeOf (hk.1.symm ▸ hk.2.symm ▸ hg) hq
  · rintro _ rfl t'
    by_contra hne
    obtain ⟨q, hq⟩ := Option.ne_none_iff_exists'.mp hne
    have := hw.type_unique (get_eq_some.mp (he.isBelow.get _ _ _ hq)).1 (get_eq_some.mp hg).1
    simp [this, hgone] at hq

theorem Erases.congr {s₂ : RegistryStore} (h : s.Erases root ev s₁) (hg : s₂.get = s₁.get) :
    s.Erases root ev s₂ where
  get      := hg ▸ h.get
  reported := h.reported
  once     := h.once
  ordered  := h.ordered

-- A Node that has not been heard of for longer than the garbage collection interval.
def Silent (s : RegistryStore) (now : Int) (n : String) : Prop :=
  ∃ r, s.get .node n = some r ∧ r.health < now - wholeSeconds s.gcInterval

-- The loop over the Nodes: the turn of one Node leaves the other Nodes as they are.
theorem collectNodes_erasing (now : Int) (nodes : List RegisteredResource) (hw : s.WellFormed)
    (hnd : (nodes.map (·.id)).Nodup) (hg : ∀ n ∈ nodes, s.get .node n.id = some n) :
    Erasing now (fun q => ∃ n ∈ nodes, s.Silent now n.id ∧ s.Under n.id q.resourceType q.id) s
        (nodes.foldl (collectNode now) ([], s)).1 (nodes.foldl (collectNode now) ([], s)).2 ∧
      ∀ n ∈ nodes, s.Silent now n.id →
        (nodes.foldl (collectNode now) ([], s)).2.get .node n.id = none := by
  induction nodes using List.reverseRecOn with
  | nil => exact ⟨.refl, by simp⟩
  | append_singleton nodes x hi =>
    have ⟨he, hn⟩ := hi (hnd.sublist ((List.sublist_append_left _ _).map _))
      fun n hm => hg n (by simp [hm])
    rw [List.foldl_append]
    obtain ⟨ev, s₁, e⟩ : ∃ ev s₁, nodes.foldl (collectNode now) ([], s) = (ev, s₁) := ⟨_, _, rfl⟩
    simp only [e, List.foldl_cons, List.foldl_nil, collectNode] at he hn ⊢
    have hgx := hg x (by simp)
    have hrx : s₁.record .node x.id = some x := by
      rw [he.frame, (get_eq_some.mp hgx).1]
      rintro q ⟨n, hm, _, hu⟩ ⟨ht, hid⟩
      rw [ht, hid] at hu
      rw [List.map_append, List.nodup_append] at hnd
      exact hnd.2.2 _ (List.mem_map_of_mem hm) x.id (by simp) (hu.eq_of_node hw).symm
    have hold : ∀ q : RegisteredResource,
        (∃ n ∈ nodes, s.Silent now n.id ∧ s.Under n.id q.resourceType q.id) →
        ∃ n ∈ nodes ++ [x], s.Silent now n.id ∧ s.Under n.id q.resourceType q.id :=
      fun q ⟨n, hm, h⟩ => ⟨n, List.mem_append_left _ hm, h⟩
    have hgc := (SameIntervals.erasing he).gcInterval
    by_cases hs : x.health < now - wholeSeconds s.gcInterval
    · have hk := hw.key _ _ _ (get_eq_some.mp hgx).1
      have hx₁ : s₁.get x.resourceType x.id = some x := by
        rw [hk.1]
        exact get_eq_some.mpr ⟨hrx, (get_eq_some.mp hgx).2⟩
      have ⟨hx, hgone⟩ := eraseSubtree_erasing now RECURSION_LIMIT (he.wellFormed hw) hx₁
        (by simp only [RECURSION_LIMIT]; omega)
      simp only [hrx, Option.filter_some, hgc, hs, decide_true, if_true]
      refine ⟨(he.mono hold).trans (hx.mono fun q hq => ⟨x, by simp, ⟨x, hgx, hs⟩, ?_⟩),
        fun n hm hsn => ?_⟩
      · exact ((he.wellFormed hw).under_of_mem_subtreeOf hx₁ hq).of_get
          fun t y r h => ⟨r, he.isBelow.get _ _ _ h, rfl⟩
      · obtain hm | hm := List.mem_append.mp hm
        · by_contra hne
          obtain ⟨q, hq⟩ := Option.ne_none_iff_exists'.mp hne
          simpa [hn n hm hsn] using hx.isBelow.get _ _ _ hq
        · obtain rfl := List.mem_singleton.mp hm
          exact hk.1 ▸ hgone
    · simp only [hrx, Option.filter_some, hgc, hs, decide_false, Bool.false_eq_true, if_false]
      refine ⟨he.mono hold, fun n hm hsn => ?_⟩
      obtain hm | hm := List.mem_append.mp hm
      · exact hn n hm hsn
      · obtain rfl := List.mem_singleton.mp hm
        obtain ⟨r, hr, hsr⟩ := hsn
        obtain rfl : r = n := Option.some.inj (hr.symm.trans hgx)
        exact absurd hsr hs

theorem forgetAll_get (victims : List (ResourceType × String)) (hw : s.WellFormed) :
    (victims.foldl (fun s v => (s.forget v.1 v.2).2) s).get = s.get := by
  induction victims generalizing s with
  | nil => rfl
  | cons v victims hi =>
    have hf := forget_spec v.1 v.2 hw
    exact (hi hf.1).trans hf.2.1

-- A garbage collection erases exactly the silent Nodes and what hangs below them.
theorem collectGarbage_erases (now : Int) (hw : s.WellFormed) :
    s.Erases (s.Silent now) (s.collectGarbage now).1 (s.collectGarbage now).2 := by
  have hk := hw.keyed
  have hg : ∀ n ∈ s.iterExtant .node, s.get .node n.id = some n := fun n => (mem_iterExtant hk).mp
  have ⟨he, hn⟩ := collectNodes_erasing now (s.iterExtant .node) hw (nodup_iterExtant hk) hg
  refine (he.erases (s.Silent now) hw (fun q ⟨n, _, hs, hu⟩ => ⟨_, hs, hu⟩)
    fun n hs t => ?_).congr (forgetAll_get _ (he.wellFormed hw))
  obtain ⟨r, hr, hh⟩ := hs
  have hkr := hk _ _ _ (get_eq_some.mp hr).1
  have hnone := hn r ((mem_iterExtant hk).mpr (hkr.2.symm ▸ hr)) (hkr.2.symm ▸ ⟨r, hr, hh⟩)
  by_contra hne
  obtain ⟨q, hq⟩ := Option.ne_none_iff_exists'.mp hne
  have ht := hw.type_unique (get_eq_some.mp (he.isBelow.get _ _ _ hq)).1 (get_eq_some.mp hr).1
  rw [ht] at hq
  rw [hkr.2, hq] at hnone
  cases hnone

-- Every extant resource but a Node has an extant parent of its type and is listed there only, the two
-- indexes by id agree, and what is erased is a subtree.
structure TreeInvariant (s : RegistryStore) : Prop where
  parent  : ∀ t id r pt, s.get t id = some r → t.parentType = some pt →
    ∃ p q, r.parentId = some p ∧ s.get pt p = some q ∧ (s.children p).count id = 1 ∧
      ∀ p', p' ≠ p → id ∉ s.children p'
  typed   : ∀ t id, s.typeOf id = some t ↔ (s.record t id).isSome
  unique  : ∀ t t' id, (s.get t id).isSome → (s.get t' id).isSome → t = t'
  delete  : ∀ t id now, (s.get t id).isSome → ∃ events, (s.delete t id now).1 = some events ∧
    s.Erases (· = id) events (s.delete t id now).2
  collect : ∀ now, s.Erases (s.Silent now) (s.collectGarbage now).1 (s.collectGarbage now).2

theorem WellFormed.treeInvariant (hw : s.WellFormed) : s.TreeInvariant where
  parent t id r pt hr hpt := by
    have hrec := (get_eq_some.mp hr).1
    have hne : r.parentId ≠ none := fun hn => by simp [(hw.shape _ _ _ hrec).mp hn] at hpt
    obtain ⟨p, hp⟩ := Option.ne_none_iff_exists'.mp hne
    have ⟨q, hq⟩ := hw.parent _ _ _ _ _ hr hp hpt
    refine ⟨p, q, hp, hq, List.count_eq_one_of_mem (hw.nodup p) (hw.listed _ _ _ _ hr hp),
      fun p' hp' hc => hp' ?_⟩
    have ⟨t', r', hr', hpr⟩ := hw.owned _ _ hc
    obtain rfl := hw.type_unique hrec hr'
    obtain rfl := Option.some.inj (hrec.symm.trans hr')
    exact Option.some.inj (hpr.symm.trans hp)
  typed t id := (hw.typed t id).trans Option.isSome_iff_exists.symm
  unique t t' id h₁ h₂ := by
    obtain ⟨r, hr⟩ := Option.isSome_iff_exists.mp h₁
    obtain ⟨r', hr'⟩ := Option.isSome_iff_exists.mp h₂
    exact hw.type_unique (get_eq_some.mp hr).1 (get_eq_some.mp hr').1
  delete t id now hs := by
    obtain ⟨r, hr⟩ := Option.isSome_iff_exists.mp hs
    exact delete_erases now hw hr
  collect now := collectGarbage_erases now hw

-- The resource tree holds in every state that the operations of a store can reach.
theorem tree_invariant [Python] (gc forget : Rat) (s : RegistryStore)
    (h : (system gc forget).Reachable s) : s.TreeInvariant :=
  (sound_of_reachable h).wellFormed.treeInvariant

end RegistryStore

-- A Node that is deleted with its device and registered again, as is the device.
namespace Reregistration

def nodeText : String :=
  "\x7b\"id\": \"n\", \"version\": \"1:0\"\x7d"

def deviceText : String :=
  "\x7b\"id\": \"d\", \"version\": \"1:0\", \"node_id\": \"n\"\x7d"

local instance python : Python :=
  .ofTable [(nodeText, [("id", "n"), ("version", "1:0")]),
    (deviceText, [("id", "d"), ("version", "1:0"), ("node_id", "n")])]

def ops : List StoreOp :=
  [.insertOrUpdate .node ⟨nodeText⟩ ⟨1, 0⟩, .insertOrUpdate .device ⟨deviceText⟩ ⟨2, 0⟩,
    .delete .node "n" 3, .insertOrUpdate .node ⟨nodeText⟩ ⟨4, 0⟩,
    .commit .device ⟨deviceText⟩ (some ⟨5, 0⟩) (some ⟨5, 0⟩) (some 5) ⟨6, 0⟩]

theorem tree_invariant_reregistered : ∃ s, (RegistryStore.system 12 60).run (.new 12 60) ops = some s ∧
    s.TreeInvariant ∧ (s.get .node "n").isSome ∧ s.children "n" = ["d"] :=
  ⟨_, rfl, RegistryStore.tree_invariant 12 60 _ (.of_run ops rfl), by decide, by decide⟩

end Reregistration
end Registry
