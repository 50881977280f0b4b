import NmosReference.Cluster.ClusterSteps

namespace Cluster

open Registry RegistryStore Raft TransitionSystem StateMachine

theorem wholeSeconds_intCast (k : Int) : wholeSeconds k = k := by
  unfold wholeSeconds
  split
  · exact Rat.floor_intCast k
  · rw [← Int.cast_neg, Rat.floor_intCast, neg_neg]

-- An expiry of another Node leaves this one and what is below it as they are.
theorem applyExpire_other {m : StateMachine} {now : TaiCursor} {x n y : String} {t : ResourceType}
    (hw : m.store.WellFormed) (hn : (m.store.get .node n).isSome) (hx : x ≠ n)
    (hu : m.store.Under n t y) :
    (m.applyExpire now x).2.2.store.get t y = m.store.get t y := by
  rw [StateMachine.applyExpire_machine, StateMachine.applyDelete_store]
  obtain ⟨_, e⟩ | ⟨rx, _, _, hg, e, he, hnone⟩ := delete_spec .node x now.seconds hw
  · rw [e]
  · obtain ⟨rn, hn⟩ := Option.isSome_iff_exists.mp hn
    have hux : ¬m.store.Under x t y := fun h => hx (h.node_unique hw hg hn hu)
    rw [e]
    ext q
    simp [he.get_iff hw hg hnone, hux]

section Runs

variable [Python]

-- The registration of a Node, as of when it is proposed.
structure Registration (w₀ : RaftCluster) where
  before   : RaftCluster
  action   : ClusterAction
  op       : RegisterOp
  node     : op.resourceType = .node
  step     : before.step action = some w₀
  proposed : w₀.proposed = before.proposed ++ [.register op]

namespace Registration

open RaftCluster

variable {w₀ : RaftCluster} (reg : Registration w₀)

def nodeId : String :=
  reg.op.resourceId

-- The last sign of life: the registration, or since then the last heartbeat answered with a 200.
def latest (w : RaftCluster) : Rat :=
  (w.beats reg.nodeId).elim reg.before.time (max reg.before.time)

-- The last sign of life is at most the collection interval ago.
def Alive (w : RaftCluster) : Prop :=
  w.time ≤ reg.latest w + w.gcInterval

-- No sign of life is later than this health, by the clock of the member.
def Recent (w : RaftCluster) (i : Nat) (health : Int) : Prop :=
  ⌊reg.before.time + w.skew i⌋ ≤ health ∧ ∀ t, w.Sign reg.nodeId t → ⌊t + w.skew i⌋ ≤ health

-- A member neither holds the Node nor is about to look at it.
def Vacant (w : RaftCluster) (i : Nat) : Prop :=
  (w.members i).store.get .node reg.nodeId = none ∧
    ∀ pass ∈ (w.members i).pass, ∀ left, (reg.nodeId, left) ∉ pass.remaining

-- A member that takes a heartbeat of the Node: no other that takes itself for the owner could expire it, and a pass of
-- its own will see the heartbeat.
structure Sole (w : RaftCluster) (j : Nat) : Prop where
  others : ∀ i ≠ j, (w.members i).owns i reg.nodeId → reg.Vacant w i
  pass   : (w.members j).owns j reg.nodeId → ∀ pass ∈ (w.members j).pass, ∀ left,
    (reg.nodeId, left) ∈ pass.remaining → left = none ∧ pass.replaced = none

-- An operation that gives the owner a health, or the Node an owner.
structure Timely (w : RaftCluster) (i : Nat) (op : RegistryOperation) : Prop where
  registers : ∀ health, Registers op reg.nodeId health →
    (w.members i).owns i reg.nodeId ∨ Claims op reg.nodeId i → reg.Recent w i health
  claims    : Claims op reg.nodeId i → ¬(w.members i).owns i reg.nodeId →
    (∀ pass ∈ (w.members i).pass, ∀ left, (reg.nodeId, left) ∉ pass.remaining) ∧
    ((∀ health, ¬Registers op reg.nodeId health) → ∀ node, (w.members i).store.get .node reg.nodeId = some node →
      reg.Recent w i node.health)

-- A snapshot that makes a member the owner.
def Restores (w : RaftCluster) (i : Nat) (snapshot : Snapshot) : Prop :=
  ∀ ownership records, decodeSnapshot snapshot = some (ownership, records) →
    (ownership.ownerOf reg.nodeId).any (·.owner = i) →
    (∀ pass ∈ (w.members i).pass, ∀ left, (reg.nodeId, left) ∉ pass.remaining) ∧
    ∀ r ∈ records, r.resourceType = .node → Python.getStr r.raw "id" = some reg.nodeId → reg.Recent w i r.health

-- The steps at which no owner is left with a health from before the last sign of life.
structure Regular (w : RaftCluster) (a : ClusterAction) : Prop where
  takes    : ∀ j, w.takes a = some (j, reg.nodeId) → ((w.members j).store.get .node reg.nodeId).isSome → reg.Sole w j
  adjusts  : ∀ i skew, a = .adjust i skew → (w.members i).owns i reg.nodeId → reg.Vacant w i
  applies  : ∀ i entry, a = .apply i → w.log[(w.members i).machine.lastApplied]? = some entry →
    reg.Timely w i entry.value
  installs : ∀ i k snapshot, a = .install i k → w.snapshots[k]? = some snapshot → reg.Restores w i snapshot

-- What a member that takes itself for the owner knows.
structure Current (w : RaftCluster) (i : Nat) : Prop where
  health : ∀ node, (w.members i).store.get .node reg.nodeId = some node → reg.Recent w i node.health
  pass   : ∀ pass ∈ (w.members i).pass, ∀ left, (reg.nodeId, left) ∈ pass.remaining →
    reg.Recent w i (pass.health (w.members i).store (reg.nodeId, left)) ∧
    pass.threshold ≤ w.healthNow i - wholeSeconds w.gcInterval

-- No expiry of the Node is in flight, and none was committed since.
structure Unexpired (w : RaftCluster) : Prop where
  proposed : ∀ p, .expire p reg.nodeId ∉ w.proposed
  length   : w₀.log.length ≤ w.log.length
  log      : ∀ e ∈ w.log.drop w₀.log.length, ∀ p, e.value ≠ .expire p reg.nodeId

-- The invariant.
structure Kept (gc : Rat) (w : RaftCluster) : Prop where
  ok        : w.Ok gc
  since     : reg.before.time ≤ w.time
  current   : ∀ i, (w.members i).owns i reg.nodeId → reg.Current w i
  unexpired : reg.Unexpired w

variable {reg} {w w₁ : RaftCluster} {gc : Rat} {a : ClusterAction} {i : Nat} {f : Member → Member}

theorem Vacant.current (h : reg.Vacant w i) : reg.Current w i where
  health node hn       := by simp [h.1] at hn
  pass pass hp left hm := absurd hm (h.2 pass hp left)

-- The health of right now is recent.
theorem recent_now (ok : w.Ok gc) (hs : reg.before.time ≤ w.time) : reg.Recent w i (w.healthNow i) where
  left  := Int.floor_le_floor (add_le_add_left hs _)
  right t ht := Int.floor_le_floor (add_le_add_left (ok.past _ t ht) _)

theorem Recent.congr {health : Int} (h : reg.Recent w i health) (hk : w₁.skew i = w.skew i)
    (hs : ∀ t, w₁.Sign reg.nodeId t → w.Sign reg.nodeId t) : reg.Recent w₁ i health := by
  unfold Recent
  rw [hk]
  exact ⟨h.1, fun t ht => h.2 t (hs t ht)⟩

-- What a member knows stays as it is if it is idle, no sign of life is added and its clock is not set.
theorem Current.idle (h : reg.Current w i) (hm : (w.members i).Idle (w₁.members i)) (hk : w₁.skew i = w.skew i)
    (ht : w.time ≤ w₁.time) (hg : w₁.gcInterval = w.gcInterval)
    (hs : ∀ t, w₁.Sign reg.nodeId t → w.Sign reg.nodeId t) : reg.Current w₁ i where
  health node hn       := (h.health node (hm.store ▸ hn)).congr hk hs
  pass pass' hp left hl := by
    obtain ⟨pass, hp, hthr, hrep, hsub⟩ := hm.pass pass' hp
    obtain ⟨hr, hle⟩ := h.pass pass hp left (hsub hl)
    have hhealth : pass'.health (w₁.members i).store = pass.health (w.members i).store := by
      funext object
      simp [Pass.health, Pass.swept, hrep, hm.store]
    have hnow : w.healthNow i ≤ w₁.healthNow i := by
      unfold healthNow now
      rw [hk]
      exact Int.floor_le_floor (add_le_add_left ht _)
    rw [hhealth, hthr, hg]
    exact ⟨hr.congr hk hs, hle.trans (sub_le_sub_right hnow _)⟩

theorem owns_idle {m m' : Member} (h : m.Idle m') : m'.owns i reg.nodeId ↔ m.owns i reg.nodeId := by
  rw [Member.owns_iff, Member.owns_iff, OwnedBy, OwnedBy, h.ownership]

theorem Unexpired.congr (h : reg.Unexpired w) (hl : w₁.log = w.log)
    (hp : ∀ p x, .expire p x ∈ w₁.proposed → .expire p x ∈ w.proposed) : reg.Unexpired w₁ where
  proposed p hx := h.proposed p (hp p _ hx)
  length        := hl ▸ h.length
  log           := hl ▸ h.log

theorem Kept.calm (h : reg.Kept gc w) (hc : Calm w w₁) : reg.Kept gc w₁ where
  ok           := h.ok.calm hc
  since        := hc.time ▸ h.since
  current i ho := (h.current i ((owns_idle (hc.members i)).mp ho)).idle (hc.members i) (by rw [hc.skew])
    hc.time.ge hc.gcInterval (hc.sign _)
  unexpired    := h.unexpired.congr hc.log hc.proposed

-- A change at one member, after which it knows what it has to know.
theorem Kept.modify (h : reg.Kept gc w) (hm : (f (w.members i)).Ok gc)
    (hc : (f (w.members i)).owns i reg.nodeId → reg.Current (w.modify i f) i) : reg.Kept gc (w.modify i f) where
  ok           := h.ok.modify hm
  since        := h.since
  current j ho := by
    by_cases hj : j = i
    · subst hj
      refine hc ?_
      simpa [RaftCluster.modify] using ho
    · have hmem : (w.modify i f).members j = w.members j := Function.update_of_ne hj ..
      refine (h.current j (hmem ▸ ho)).idle (hmem ▸ .refl) rfl le_rfl rfl fun _ => id
  unexpired    := h.unexpired.congr rfl fun _ _ => id

section Heartbeats

variable {j : Nat} {x : String}

-- The store of the member that takes a heartbeat has recent healths only.
theorem Current.heartbeat (ok : w.Ok gc) (hs : reg.before.time ≤ w.time) (h : reg.Current w j)
    (hb : Beat w j x w₁)
    (hsole : x = reg.nodeId → ((w.members j).store.get .node reg.nodeId).isSome → ∀ pass ∈ (w.members j).pass,
      ∀ left, (reg.nodeId, left) ∈ pass.remaining → left = none ∧ pass.replaced = none) :
    reg.Current w₁ j := by
  have hk := (ok.members j).sound.wellFormed.keyed
  obtain ⟨hheal, -, hroot⟩ := heartbeat_rehealed (s := (w.members j).store) x (w.healthNow j) hk
  have hfresh := heartbeat_refreshed (s := (w.members j).store) x (w.healthNow j) hk
  have ok₁ := ok.beat hb
  have hs₁ : reg.before.time ≤ w₁.time := hb.time ▸ hs
  have hnow : w₁.healthNow j = w.healthNow j := by
    unfold healthNow now
    rw [hb.time, hb.skew]
  have hrecent : reg.Recent w₁ j (w.healthNow j) := hnow ▸ recent_now ok₁ hs₁
  have hstore : (w₁.members j).store = ((w.members j).store.heartbeat x (w.healthNow j)).2 := by
    rw [hb.member]
    rfl
  have hpass : (w₁.members j).pass = (w.members j).pass := by
    rw [hb.member]
    rfl
  -- Either no sign of life is added or the Node's health is the one of right now.
  have hsame (hno : ¬(x = reg.nodeId ∧ ((w.members j).store.get .node reg.nodeId).isSome)) {health : Int}
      (hr : reg.Recent w j health) : reg.Recent w₁ j health := by
    refine hr.congr (by rw [hb.skew]) fun t ht => ?_
    obtain ht | ⟨hx, -, hg⟩ := hb.sign _ t ht
    · exact ht
    · exact absurd ⟨hx.symm, hx ▸ hg⟩ hno
  have hhealth (r : RegisteredResource) (hr : (w₁.members j).store.record .node reg.nodeId = some r)
      (hold : ∀ q, (w.members j).store.record .node reg.nodeId = some q → reg.Recent w j q.health) :
      reg.Recent w₁ j r.health := by
    rw [hstore] at hr
    by_cases hno : x = reg.nodeId ∧ ((w.members j).store.get .node reg.nodeId).isSome
    case pos =>
      obtain ⟨rfl, hg⟩ := hno
      have := hroot hg
      rw [hr, Option.map_some, Option.some.injEq] at this
      exact this ▸ hrecent
    case neg =>
      obtain he | ⟨q, hq, he⟩ := hheal _ _ r hr
      · exact he ▸ hrecent
      · exact he ▸ hsame hno (hold q hq)
  constructor
  case health =>
    intro node hg
    obtain ⟨hr, he⟩ := get_eq_some.mp hg
    refine hhealth node hr fun q hq => ?_
    rw [hstore] at hg
    obtain ⟨q', hq', -⟩ := hfresh.get_some hg
    obtain rfl := Option.some.inj (hq.symm.trans (get_eq_some.mp hq').1)
    exact h.health q hq'
  case pass =>
    intro pass hp left hm
    rw [hpass] at hp
    obtain ⟨hr, hle⟩ := h.pass pass hp left hm
    rw [hnow, hb.gcInterval]
    refine ⟨?_, hle⟩
    by_cases hno : x = reg.nodeId ∧ ((w.members j).store.get .node reg.nodeId).isSome
    case pos =>
      obtain ⟨rfl, hrep⟩ := hsole hno.1 hno.2 pass hp left hm
      have hroot : ((w₁.members j).store.record .node reg.nodeId).map (·.health) = some (w.healthNow j) := by
        rw [hstore]
        exact hno.1 ▸ hroot (hno.1 ▸ hno.2)
      obtain ⟨r, hr, he⟩ := Option.map_eq_some_iff.mp hroot
      simp only [Pass.health, Pass.swept, hrep, Option.getD_none, hr, Option.elim_some, he]
      exact hrecent
    case neg =>
      unfold Pass.health at hr ⊢
      cases left with
      | some health => exact hsame hno hr
      | none        =>
        cases hrep : pass.replaced with
        | some s =>
          simp only [Pass.swept, hrep, Option.getD_some, Option.getD_none] at hr ⊢
          exact hsame hno hr
        | none   =>
          simp only [Pass.swept, hrep, Option.getD_none] at hr ⊢
          have hl := (ok.members j).listed pass hp reg.nodeId hm
          rw [Pass.swept, hrep, Option.getD_none] at hl
          obtain ⟨node, hg⟩ := Option.isSome_iff_exists.mp hl
          obtain ⟨r, hg', -⟩ := hfresh.symm.get_some hg
          rw [← hstore] at hg'
          rw [(get_eq_some.mp hg').1, Option.elim_some]
          refine hhealth r (get_eq_some.mp hg').1 fun q hq => ?_
          obtain rfl := Option.some.inj (hq.symm.trans (get_eq_some.mp hg).1)
          exact h.health q hg

theorem Kept.beat (h : reg.Kept gc w) (ht : w.takes a = some (j, x)) (hr : reg.Regular w a) (hb : Beat w j x w₁) :
    reg.Kept gc w₁ where
  ok           := h.ok.beat hb
  since        := hb.time ▸ h.since
  current i ho := by
    have hsole (hx : x = reg.nodeId) := hr.takes j (hx ▸ ht)
    by_cases hi : i = j
    case pos =>
      subst hi
      have ho : (w.members i).owns i reg.nodeId := by
        rw [hb.member, Member.owns_iff] at ho
        exact Member.owns_iff.mpr ho
      exact (h.current i ho).heartbeat h.ok h.since hb fun hx hg => (hsole hx hg).pass ho
    case neg =>
      have hmem := hb.others i hi
      rw [hmem] at ho
      by_cases hno : x = reg.nodeId ∧ ((w.members j).store.get .node reg.nodeId).isSome
      case pos =>
        have hv := (hsole hno.1 hno.2).others i hi ho
        refine Vacant.current (w := w₁) ?_
        rw [Vacant, hmem]
        exact hv
      case neg =>
        refine (h.current i ho).idle (hmem ▸ .refl) (by rw [hb.skew]) hb.time.ge hb.gcInterval fun t ht => ?_
        obtain ht | ⟨hx, -, hg⟩ := hb.sign _ t ht
        · exact ht
        · exact absurd ⟨hx.symm, hx ▸ hg⟩ hno
  unexpired    := h.unexpired.congr hb.log (by simp [hb.proposed])

end Heartbeats

-- The machine of a member once it has applied an entry.
theorem applyEntry_cases (m : StateMachine) (clock : TaiCursor) (entry : Entry RegistryOperation) :
    (m.applyEntry clock entry).2.2 = m ∨
    (m.applyEntry clock entry).2.2 =
      { (m.applyOne clock entry.index entry.value).2.2 with lastApplied := entry.index } := by
  unfold applyEntry
  split
  · exact .inl rfl
  · exact .inr rfl

theorem Current.apply {entry : Entry RegistryOperation} {machine : StateMachine} (h : reg.Kept gc w)
    (ht : reg.Timely w i entry.value)
    (hm : machine = ((w.members i).machine.applyEntry (w.clock i) entry).2.2) (ho : machine.OwnedBy reg.nodeId i) :
    reg.Current (w.modify i fun m => { m with machine, pass := m.pass.map (·.follow machine.store) }) i := by
  have hok := h.ok.members i
  have hnow : reg.Recent w i (w.clock i).seconds := recent_now h.ok h.since
  -- An owner knew all it has to know before, or it becomes one by the entry.
  have hknown : (w.members i).owns i reg.nodeId ∨ Claims entry.value reg.nodeId i ∧ ¬(w.members i).owns i reg.nodeId ∧
      machine = { ((w.members i).machine.applyOne (w.clock i) entry.index entry.value).2.2 with
        lastApplied := entry.index } := by
    by_cases hold : (w.members i).owns i reg.nodeId
    case pos => exact .inl hold
    case neg =>
      obtain he | he := applyEntry_cases (w.members i).machine (w.clock i) entry
      · rw [hm, he] at ho
        exact absurd (Member.owns_iff.mpr ho) hold
      · rw [he] at hm
        rw [hm] at ho
        have ho : ((w.members i).machine.applyOne (w.clock i) entry.index entry.value).2.2.OwnedBy reg.nodeId i := ho
        obtain ho | hc := applyOne_owned ho
        · exact absurd (Member.owns_iff.mpr ho) hold
        · exact .inr ⟨hc, hold, hm⟩
  have hclaims : (w.members i).owns i reg.nodeId ∨ Claims entry.value reg.nodeId i := hknown.imp id (·.1)
  have hhealth (node : RegisteredResource) (hg : machine.store.get .node reg.nodeId = some node) :
      reg.Recent w i node.health := by
    obtain he | he := applyEntry_cases (w.members i).machine (w.clock i) entry
    · rw [hm, he] at hg ho
      exact (h.current i (Member.owns_iff.mpr ho)).health node hg
    · rw [hm, he] at hg
      have hg : ((w.members i).machine.applyOne (w.clock i) entry.index entry.value).2.2.store.get .node reg.nodeId =
        some node := hg
      obtain hr | ⟨hg, hr⟩ := applyOne_node hok.sound hg
      · exact ht.registers node.health hr hclaims
      · obtain hold | ⟨hc, hold, hmach⟩ := hknown
        · exact (h.current i hold).health node hg
        · obtain hr | hr := hr
          · exact (ht.claims hc hold).2 hr node hg
          · rw [hmach, hr] at ho
            exact absurd (Member.owns_iff.mpr ho) hold
  constructor
  case health =>
    intro node hg
    simp only [RaftCluster.modify, Function.update_self] at hg
    exact (hhealth node hg).congr rfl fun _ => id
  case pass =>
    intro pass' hp left hl
    simp only [RaftCluster.modify, Function.update_self] at hp ⊢
    obtain ⟨pass, hmem, rfl⟩ := Option.map_eq_some_iff.mp hp
    obtain hold | ⟨hc, hold, -⟩ := hknown
    case inr =>
      have hno := (ht.claims hc hold).1 pass hmem
      obtain ⟨hm, -⟩ | ⟨-, hm, -⟩ := Pass.mem_follow hl
      · exact absurd hm (hno left)
      · exact absurd hm (hno none)
    case inl =>
      rw [Pass.follow_threshold]
      obtain ⟨hm', hl'⟩ | ⟨hrep, hm', hl'⟩ := Pass.mem_follow hl
      case inl =>
        -- Its health does not depend on the store any more.
        obtain ⟨hr, hle⟩ := (h.current i hold).pass pass hmem left hm'
        have hsame : (pass.follow machine.store).health machine.store (reg.nodeId, left) =
            pass.health (w.members i).store (reg.nodeId, left) := by
          unfold Pass.health
          cases left with
          | some health => rfl
          | none        =>
            obtain ⟨s, hs⟩ := Option.isSome_iff_exists.mp (hl'.resolve_right (by simp))
            simp [Pass.swept, hs]
        refine ⟨?_, hle⟩
        show reg.Recent _ i ((pass.follow machine.store).health machine.store (reg.nodeId, left))
        rw [hsame]
        exact hr.congr rfl fun _ => id
      case inr =>
        obtain ⟨-, hle⟩ := (h.current i hold).pass pass hmem none hm'
        refine ⟨?_, hle⟩
        show reg.Recent _ i ((pass.follow machine.store).health machine.store (reg.nodeId, left))
        unfold Pass.health
        obtain ⟨rfl, hg⟩ | ⟨hn, hl⟩ := hl'
        · obtain ⟨node, hg⟩ := Option.isSome_iff_exists.mp hg
          simp only [Pass.swept, Pass.follow_replaced, hrep, Option.getD_none, (get_eq_some.mp hg).1, Option.elim_some]
          exact (hhealth node hg).congr rfl fun _ => id
        · have hg := hok.listed pass hmem reg.nodeId hm'
          rw [Pass.swept, hrep, Option.getD_none] at hg
          rw [hm] at hn
          obtain ⟨r, hr, he⟩ := applyEntry_retired hok.sound hg hn
          rw [← hm] at hr
          rw [hr, Option.map_some] at hl
          simp only [hl, Option.getD_some, he]
          exact hnow.congr rfl fun _ => id

theorem Current.install {snapshot : Snapshot} {machine : StateMachine} {walk : Option Walk}
    (hr : reg.Restores w i snapshot)
    (hm : (w.members i).machine.installPayload snapshot (w.clock i) = some machine)
    (ho : machine.OwnedBy reg.nodeId i) :
    reg.Current (w.modify i fun m => { m with
      machine, walk, pass := m.pass.map fun pass => { pass with replaced := pass.swept (w.members i).store } }) i := by
  obtain ⟨ownership, records, hd, rfl, hnode⟩ := installPayload_node (n := reg.nodeId) hm
  obtain ⟨held, hown, hi⟩ := ho
  obtain ⟨hpass, hrec⟩ := hr _ records hd (by simp [hown, hi])
  constructor
  case health =>
    intro node hg
    simp only [RaftCluster.modify, Function.update_self] at hg
    obtain ⟨r, hr, ht, hid, he⟩ := hnode node hg
    exact he ▸ (hrec r hr ht hid).congr rfl fun _ => id
  case pass =>
    intro pass' hp left hl
    simp only [RaftCluster.modify, Function.update_self] at hp
    obtain ⟨pass, hmem, rfl⟩ := Option.map_eq_some_iff.mp hp
    exact absurd hl (hpass pass hmem left)

theorem Current.collect (ok : w.Ok gc) (h : reg.Current w i) :
    reg.Current (w.modify i ({ · with pass := some {
      threshold := w.healthNow i - wholeSeconds (w.members i).store.gcInterval
      remaining := ((w.members i).store.iterExtant .node).map fun node => (node.id, none) } })) i where
  health node hg := by
    simp only [RaftCluster.modify, Function.update_self] at hg
    exact (h.health node hg).congr rfl fun _ => id
  pass           := by
    simp only [RaftCluster.modify, Function.update_self]
    rintro _ ⟨⟩ left hl
    obtain ⟨node, hn, he⟩ := List.mem_map.mp hl
    obtain ⟨hid, rfl⟩ := Prod.ext_iff.mp he
    have hid : node.id = reg.nodeId := hid
    have hg := (mem_iterExtant (ok.members i).sound.wellFormed.keyed).mp hn
    rw [hid] at hg
    refine ⟨?_, ?_⟩
    · have hr := (get_eq_some.mp hg).1
      simp only [Pass.health, Pass.swept, Option.getD_none]
      show reg.Recent _ i (((w.members i).store.record .node reg.nodeId).elim 0 (·.health))
      rw [hr, Option.elim_some]
      exact (h.health node hg).congr rfl fun _ => id
    · rw [(ok.members i).interval, ← ok.gcInterval]
      exact le_rfl

-- A Node that is alive is not below the threshold of a pass that looks at its recent health.
theorem threshold_le {pass : Pass} {health : Int} (hgc : ∃ k : Int, w.gcInterval = k) (ha : reg.Alive w)
    (hr : reg.Recent w i health) (ht : pass.threshold ≤ w.healthNow i - wholeSeconds w.gcInterval) :
    pass.threshold ≤ health := by
  obtain ⟨k, hk⟩ := hgc
  have hlatest : ⌊reg.latest w + w.skew i⌋ ≤ health := by
    unfold latest
    cases hb : w.beats reg.nodeId with
    | none   => exact hr.1
    | some t =>
      obtain hm | hm := max_choice reg.before.time t <;> rw [Option.elim_some, hm]
      · exact hr.1
      · exact hr.2 t (.inl hb)
  have hnow : w.healthNow i ≤ ⌊reg.latest w + w.skew i⌋ + k := by
    rw [Alive, hk] at ha
    calc w.healthNow i
      _ ≤ ⌊reg.latest w + w.skew i + k⌋ := Int.floor_le_floor (by unfold now; linarith)
      _ = ⌊reg.latest w + w.skew i⌋ + k := Int.floor_add_intCast ..
  rw [hk, wholeSeconds_intCast] at ht
  omega

theorem Kept.propose {op : RegistryOperation} (h : reg.Kept gc w) (ho : ∀ p, op ≠ .expire p reg.nodeId) :
    reg.Kept gc (w.propose op) where
  ok           := h.ok.propose
  since        := h.since
  current i hi := (h.current i hi).idle .refl rfl le_rfl rfl fun _ => id
  unexpired    := by
    refine ⟨fun p hx => ?_, h.unexpired.length, h.unexpired.log⟩
    obtain hx | hx := List.mem_append.mp hx
    · exact h.unexpired.proposed p hx
    · exact ho p (List.mem_singleton.mp hx).symm

theorem Kept.commit {k term : Nat} {op : RegistryOperation} (h : reg.Kept gc w) (ho : w.proposed[k]? = some op) :
    reg.Kept gc { w with
      proposed := w.proposed.eraseIdx k, log := w.log ++ [⟨term, w.log.length + 1, op⟩] } where
  ok           := ⟨h.ok.gcInterval, h.ok.members, h.ok.past⟩
  since        := h.since
  current i hi := (h.current i hi).idle .refl rfl le_rfl rfl fun _ => id
  unexpired    := by
    have hne (p : ProposalId) : op ≠ .expire p reg.nodeId := fun hp =>
      h.unexpired.proposed p (hp ▸ List.mem_of_getElem? ho)
    refine ⟨fun p hx => h.unexpired.proposed p (List.mem_of_mem_eraseIdx hx), ?_, ?_⟩
    · rw [List.length_append]
      exact h.unexpired.length.trans (Nat.le_add_right _ _)
    · simp only [List.drop_append_of_le_length h.unexpired.length, List.mem_append, List.mem_singleton]
      rintro e (he | rfl)
      · exact h.unexpired.log e he
      · exact hne

theorem Kept.tick {time : Rat} (h : reg.Kept gc w) (ht : w.time ≤ time) : reg.Kept gc { w with time } where
  ok           := ⟨h.ok.gcInterval, h.ok.members, fun n t hs => (h.ok.past n t hs).trans ht⟩
  since        := h.since.trans ht
  current i hi := (h.current i hi).idle .refl rfl ht rfl fun _ => id
  unexpired    := h.unexpired.congr rfl fun _ _ => id

theorem Kept.adjust {skew : Rat} (h : reg.Kept gc w) (hv : (w.members i).owns i reg.nodeId → reg.Vacant w i) :
    reg.Kept gc { w with skew := Function.update w.skew i skew } where
  ok           := ⟨h.ok.gcInterval, h.ok.members, h.ok.past⟩
  since        := h.since
  current j hj := by
    by_cases hi : j = i
    · subst hi
      exact Vacant.current (w := { w with skew := Function.update w.skew j skew }) (hv hj)
    · exact (h.current j hj).idle .refl (Function.update_of_ne hi ..) le_rfl rfl fun _ => id
  unexpired    := h.unexpired.congr rfl fun _ _ => id

-- The health that an owner looks at is recent, so no expiry of the Node is proposed.
theorem Kept.consider {pass : Pass} {object : String × Option Int} {remaining : List (String × Option Int)}
    (hgc : ∃ k : Int, gc = k) (h : reg.Kept gc w) (ha : reg.Alive w) (hp : (w.members i).pass = some pass)
    (hr : pass.remaining = object :: remaining) : reg.Kept gc (w.considerAt i pass object remaining) := by
  obtain hc | ⟨howns, hlt, w', hc, e⟩ := considerAt_cases hp hr
  case inl => exact h.calm hc
  case inr =>
    refine e ▸ (h.calm hc).propose fun p hx => ?_
    obtain ⟨-, hx⟩ := RegistryOperation.expire.inj hx
    obtain ⟨x, left⟩ := object
    subst hx
    obtain ⟨hrec, hle⟩ := (h.current i howns).pass pass hp left (hr ▸ List.mem_cons_self)
    have := threshold_le (h.ok.gcInterval ▸ hgc) ha hrec hle
    omega

theorem Kept.step (hgc : ∃ k : Int, gc = k) (h : reg.Kept gc w) (ha : reg.Alive w) (hr : reg.Regular w a)
    (e : w.step a = some w₁) : reg.Kept gc w₁ := by
  obtain hc | ⟨ht, hb⟩ | ht | ⟨⟩ | ho | hc | he | ⟨hs, hm⟩ | ⟨⟩ | ⟨hp, hrem⟩ := step_effect e
  · exact h.calm hc
  · exact h.beat ht hr hb
  · exact h.tick ht
  · exact h.adjust (hr.adjusts _ _ rfl)
  · exact h.commit ho
  · refine (h.modify (h.ok.gcInterval ▸ .new) fun ho => ?_).calm hc
    obtain ⟨held, ho, -⟩ := Member.owns_iff.mp ho
    cases ho
  · refine h.modify (h.ok.members _).apply fun ho => ?_
    exact Current.apply h (hr.applies _ _ rfl he) rfl (Member.owns_iff.mp ho)
  · refine h.modify ((h.ok.members _).install hm) fun ho => ?_
    exact Current.install (hr.installs _ _ _ rfl hs) hm (Member.owns_iff.mp ho)
  · exact h.modify (h.ok.members _).collect fun ho => (h.current _ ho).collect h.ok
  · exact h.consider hgc ha hp hrem

-- No entry that was committed since is an expiry of the Node, and an expiry of another that a member
-- comes to apply takes nothing below the Node away.
structure Spared (reg : Registration w₀) (w : RaftCluster) : Prop where
  node   : ∀ e ∈ w.log.drop w₀.log.length, ∀ p, e.value ≠ .expire p reg.nodeId
  family : ∀ i w₁ e p x t y, w.step (.apply i) = some w₁ →
    w.log[(w.members i).machine.lastApplied]? = some e →
    w₀.log.length ≤ (w.members i).machine.lastApplied → e.value = .expire p x →
    ((w.members i).store.get .node reg.nodeId).isSome → (w.members i).store.Under reg.nodeId t y →
    (w₁.members i).store.get t y = (w.members i).store.get t y

theorem Kept.spared (h : reg.Kept gc w) : reg.Spared w where
  node   := h.unexpired.log
  family := by
    intro i w₁ e p x t y es he hl hv hn hu
    have hx : x ≠ reg.nodeId := by
      rintro rfl
      refine h.unexpired.log e ?_ p hv
      have := List.mem_of_getElem? (l := w.log.drop w₀.log.length) (a := e)
        (i := (w.members i).machine.lastApplied - w₀.log.length)
      exact this (by rw [List.getElem?_drop, Nat.add_sub_cancel' hl, he])
    obtain ⟨e', he', es⟩ := Option.bind_eq_some_iff.mp es
    obtain rfl := Option.some.inj (he.symm.trans he')
    cases es
    simp only [RaftCluster.modify, Function.update_self, Member.store]
    unfold StateMachine.applyEntry
    split
    · rfl
    · simpa only [StateMachine.applyOne, hv] using
        applyExpire_other (h.ok.members i).sound.wellFormed hn hx hu

-- A Node that stays alive is not expired in a run that leaves no owner with a health from before the last sign of
-- life, if no expiry from before its registration is under way and no member has it then.
theorem alive_spared {gc forget t₀ : Rat} (hgc : ∃ k : Int, gc = k) (reg : Registration w₀)
    (h₀ : (clusterSystem gc forget t₀).Reachable reg.before) (hq : ∀ p, .expire p reg.nodeId ∉ w₀.proposed)
    (hv : ∀ i, (w₀.members i).owns i reg.nodeId → reg.Vacant w₀ i)
    (h : (clusterSystem gc forget t₀).Run (fun w a => reg.Alive w ∧ reg.Regular w a) w₀ w) :
    reg.Spared w := by
  have hkept : reg.Kept gc w := by
    refine h.preserves (fun w a w₁ hk hok e => hk.step hgc hok.1 hok.2 e) ?_
    exact {
      ok        := (reachable_ok h₀).step reg.step
      since     := (step_effect reg.step).time_le
      current   := fun i hi => (hv i hi).current
      unexpired := ⟨hq, le_rfl, by simp⟩ }
  exact hkept.spared

end Registration

end Runs

-- A Node of member 0 that beats in time.
namespace RestartedOwner

def text : String :=
  "\x7b\"id\": \"n\", \"version\": \"1:0\"\x7d"

local instance python : Python :=
  .ofTable [(text, [("id", "n"), ("version", "1:0")])]

def started : RaftCluster :=
  .start 12 60 100

-- The clock of the member is five seconds ahead.
def prepare : List ClusterAction :=
  [.adjust 0 5, .lead 0 true true]

def register : ClusterAction :=
  .register 0 .node ⟨text⟩

def op : RegisterOp where
  proposal      := ⟨0, 0⟩
  resourceType  := .node
  resourceId    := "n"
  nodeId        := "n"
  bodyText      := text
  created       := ⟨105, 0⟩
  updated       := ⟨105, 0⟩
  health        := 105
  expectCreated := true
  claimOwner    := some 0

-- Its owner takes a heartbeat, restarts, catches up from the log and sweeps.
def restart : List ClusterAction :=
  [.commit 0 1, .apply 0, .tick 110, .heartbeat 0 "n", .restart 0, .lead 0 true false, .apply 0, .tick 113,
    .collect 0, .consider 0, .commit 0 1, .apply 0]

-- Its owner sweeps after it took a heartbeat.
def sweep : List ClusterAction :=
  [.commit 0 1, .apply 0, .tick 110, .heartbeat 0 "n", .tick 122, .collect 0, .consider 0, .finish 0]

def latest (w : RaftCluster) : Rat :=
  (w.beats "n").elim 100 (max 100)

def alive (w : RaftCluster) (_ : ClusterAction) : Prop :=
  w.time ≤ latest w + w.gcInterval

instance (w : RaftCluster) (a : ClusterAction) : Decidable (alive w a) :=
  inferInstanceAs <| Decidable (_ ≤ _)

-- Only one member applies, restarts or sweeps.
def atFirst : ClusterAction → Bool
  | .restart i | .apply i | .install i _ | .collect i | .consider i => i = 0
  | _                                                               => true

-- No other member has come to know of an owner.
def Alone (w : RaftCluster) : Prop :=
  ∀ i ≠ 0, (w.members i).machine.ownership = ∅

variable {w₀ w w₁ : RaftCluster} {a : ClusterAction} {f : Member → Member} {i j : Nat} {n x : String}

namespace Alone

theorem modify (h : Alone w) : Alone (w.modify 0 f) := by
  intro i hi
  simp only [RaftCluster.modify, Function.update_of_ne hi]
  exact h i hi

theorem calm (h : Alone w) (hc : RaftCluster.Calm w w₁) : Alone w₁ := by
  intro i hi
  rw [(hc.members i).ownership]
  exact h i hi

theorem beat (h : Alone w) (hb : RaftCluster.Beat w j x w₁) : Alone w₁ := by
  intro i hi
  by_cases hj : i = j
  · rw [hj, hb.member]
    exact h j (hj ▸ hi)
  · rw [hb.others i hj]
    exact h i hi

theorem step (h : Alone w) (hs : atFirst a) (e : w.step a = some w₁) : Alone w₁ := by
  obtain hc | ⟨-, hb⟩ | ht | ⟨⟩ | ho | hc | he | ⟨-, hm⟩ | ⟨⟩ | ⟨hp, hr⟩ := RaftCluster.step_effect e
  · exact h.calm hc
  · exact h.beat hb
  · exact h
  · exact h
  · exact h
  · obtain rfl := of_decide_eq_true hs
    exact h.modify.calm hc
  · obtain rfl := of_decide_eq_true hs
    exact h.modify
  · obtain rfl := of_decide_eq_true hs
    exact h.modify
  · obtain rfl := of_decide_eq_true hs
    exact h.modify
  · obtain hc | ⟨-, -, w', hc, e⟩ := RaftCluster.considerAt_cases hp hr
    · exact h.calm hc
    · rw [e]
      exact fun i hi => h.calm hc i hi

theorem not_owns (h : Alone w) (hi : i ≠ 0) : ¬(w.members i).owns i n := by
  rw [Member.owns_iff]
  rintro ⟨held, ho, -⟩
  rw [h i hi] at ho
  cases ho

end Alone

-- The registration that is proposed, and a run from there whose steps meet a condition.
theorem run_registered (as : List ClusterAction) (ok : RaftCluster → ClusterAction → Prop)
    (P : RaftCluster → RaftCluster → Prop) [∀ w a, Decidable (ok w a)] [∀ w₀ w, Decidable (P w₀ w)]
    (h : (((clusterSystem 12 60 100).runWhile (fun _ a => atFirst a) started prepare).any fun before =>
      (before.step register).any fun w₀ => ((clusterSystem 12 60 100).runWhile ok w₀ as).any fun w =>
        decide (before.time = 100 ∧ before.proposed = [] ∧ w₀.proposed = [.register op] ∧
          (w₀.members 0).machine.ownership.items = [] ∧ P w₀ w)) = true) :
    ∃ (w₀ w : RaftCluster) (reg : Registration w₀), (clusterSystem 12 60 100).Reachable reg.before ∧
      reg.op = op ∧ reg.before.time = 100 ∧ (∀ p, .expire p reg.nodeId ∉ w₀.proposed) ∧ Alone w₀ ∧
      (∀ i n, ¬(w₀.members i).owns i n) ∧ (clusterSystem 12 60 100).Run ok w₀ w ∧ P w₀ w := by
  obtain ⟨before, hb, h⟩ := (Option.any_eq_true _ _).mp h
  obtain ⟨w₀, hw₀, h⟩ := (Option.any_eq_true _ _).mp h
  obtain ⟨w, hw, h⟩ := (Option.any_eq_true _ _).mp h
  obtain ⟨ht, hp, hq, ho, h⟩ := of_decide_eq_true h
  have hrun := Run.of_runWhile prepare hb
  have halone : Alone w₀ :=
    (hrun.preserves (I := Alone) (fun _ _ _ h hf e => h.step hf e) fun _ _ => rfl).step rfl hw₀
  refine ⟨w₀, w, ⟨before, register, op, rfl, hw₀, by rw [hp, hq]; rfl⟩, hrun.mono fun _ _ _ => trivial, rfl, ht,
    by simp [hq], halone, fun i n => ?_, .of_runWhile as hw, h⟩
  by_cases hi : i = 0
  · subst hi
    rw [Member.owns_iff]
    rintro ⟨held, hown, -⟩
    have := Dict.get?_eq_some.mp hown
    simp [ho] at this
  · exact halone.not_owns hi

-- The restarted owner has the Node's health from its registration.
theorem restart_expires : ∃ (w₀ w : RaftCluster) (reg : Registration w₀),
    (clusterSystem 12 60 100).Reachable reg.before ∧ (∀ p, .expire p reg.nodeId ∉ w₀.proposed) ∧
    (∀ i, ¬(w₀.members i).owns i reg.nodeId) ∧
    (clusterSystem 12 60 100).Run (fun w _ => reg.Alive w) w₀ w ∧ reg.Alive w ∧
    (∃ e ∈ w.log.drop w₀.log.length, ∃ p, e.value = .expire p reg.nodeId) ∧
    (w.members 0).store.get .node reg.nodeId = none := by
  obtain ⟨w₀, w, reg, hr, hop, ht, hq, -, ho, h, he, hn, ha⟩ := run_registered restart alive
    (fun w₀ w => ⟨1, w₀.log.length + 2, .expire ⟨0, 0⟩ "n"⟩ ∈ w.log.drop w₀.log.length ∧
      (w.members 0).store.get .node "n" = none ∧ alive w (.tick 0))
    (by decide +kernel)
  have hid : reg.nodeId = "n" := by rw [Registration.nodeId, hop]; rfl
  have halive (w : RaftCluster) (a : ClusterAction) (h : alive w a) : reg.Alive w := by
    rwa [Registration.Alive, Registration.latest, hid, ht]
  refine ⟨w₀, w, reg, hr, hq, fun i => ho i _, h.mono halive, halive w _ ha, ⟨_, he, ⟨0, 0⟩, ?_⟩, ?_⟩
  · rw [hid]
  · rw [hid]
    exact hn

-- What the steps of the sweep meet.
def steady (w : RaftCluster) : ClusterAction → Bool
  | .heartbeat i _ => i = 0 ∧ (w.members 0).pass.isNone
  | .apply i       => i = 0 ∧ w.beats "n" = none ∧ w.forwards = [] ∧ (w.members 0).pass.isNone ∧ w.skew 0 = 5 ∧
    (w.log[(w.members 0).machine.lastApplied]?).all (·.value = .register op)
  | .collect i | .consider i => i = 0
  | .tick _ | .commit _ _ | .finish _ => true
  | _                                 => false

theorem atFirst_of_steady (h : steady w a) : atFirst a := by
  cases a with
  | apply i    => exact decide_eq_true (of_decide_eq_true h).1
  | collect i  => exact h
  | consider i => exact h
  | restart i  => cases h
  | install i k => cases h
  | _          => rfl

theorem regular_of_steady {reg : Registration w₀} (hop : reg.op = op) (ht : reg.before.time = 100)
    (h : steady w a) (ha : Alone w) : reg.Regular w a := by
  have hid : reg.nodeId = "n" := by rw [Registration.nodeId, hop]; rfl
  constructor
  case takes =>
    intro j hj hg
    cases a with
    | heartbeat i x =>
      obtain ⟨rfl, hp⟩ := of_decide_eq_true h
      simp only [RaftCluster.takes, RaftCluster.taker, Option.ite_none_right_eq_some, Option.some.injEq,
        Prod.mk.injEq] at hj
      obtain ⟨-, rfl, -⟩ := hj
      refine ⟨fun i hi ho => absurd ho (ha.not_owns hi), fun _ pass hm => ?_⟩
      rw [Option.isNone_iff_eq_none] at hp
      rw [hp] at hm
      cases hm
    | serve k  => cases h
    | answer k => cases h
    | _        => cases hj
  case adjusts =>
    rintro i skew rfl
    cases h
  case applies =>
    rintro i entry rfl he
    obtain ⟨rfl, hb, hf, hp, hs, hv⟩ := of_decide_eq_true h
    rw [he, Option.all_some, decide_eq_true_eq] at hv
    rw [Option.isNone_iff_eq_none] at hp
    have hrec : reg.Recent w 0 105 := by
      unfold Registration.Recent
      rw [ht, hs]
      refine ⟨by norm_num, ?_⟩
      rintro t (hsign | ⟨f, hm, -⟩)
      · rw [hid, hb] at hsign
        cases hsign
      · rw [hf] at hm
        cases hm
    have hregisters : StateMachine.Registers entry.value reg.nodeId 105 := by
      rw [hv, hid]
      exact ⟨rfl, by decide +kernel, rfl⟩
    refine ⟨fun health hh _ => ?_, fun _ _ => ⟨?_, fun hno => absurd hregisters (hno 105)⟩⟩
    · have : health = 105 := by
        rw [hv] at hh
        exact hh.2.2.symm
      exact this ▸ hrec
    · rw [hp]
      intro pass hm
      cases hm
  case installs =>
    rintro i k snapshot rfl
    cases h

-- The sweep of the owner that took the heartbeat.
theorem alive_spared_sweep : ∃ (w₀ w : RaftCluster) (reg : Registration w₀),
    reg.Spared w ∧ ((w.members 0).store.get .node reg.nodeId).isSome ∧ w.time = 122 := by
  obtain ⟨w₀, w, reg, hr, hop, ht, hq, halone, ho, h, hn, htime⟩ := run_registered sweep
    (fun w a => alive w a ∧ steady w a)
    (fun w₀ w => ((w.members 0).store.get .node "n").isSome ∧ w.time = 122)
    (by decide +kernel)
  have hid : reg.nodeId = "n" := by rw [Registration.nodeId, hop]; rfl
  have hrun := h.with_invariant (fun _ _ _ ha hok e => ha.step (atFirst_of_steady hok.2) e) halone
  refine ⟨w₀, w, reg, Registration.alive_spared ⟨12, rfl⟩ reg hr hq (fun i hi => absurd hi (ho i _)) (hrun.mono ?_),
    hid ▸ hn, htime⟩
  rintro w a ⟨⟨hl, hs⟩, ha⟩
  refine ⟨?_, regular_of_steady hop ht hs ha⟩
  rw [Registration.Alive, Registration.latest, hid, ht]
  exact hl

end RestartedOwner
end Cluster
