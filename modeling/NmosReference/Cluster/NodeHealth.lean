import NmosReference.Cluster.RaftBackend
import NmosReference.Raft.SnapshotPinned
import NmosReference.Registry.StorePublish

-- What becomes of a Node's health in the store of a member.
namespace Registry.RegistryStore

variable {s s' : RegistryStore} {t : ResourceType} {x n : String} {r q : RegisteredResource} {now : Int}

-- Each health of the second store is one of the first, or what was set.
def Rehealed (health : Int) (s s' : RegistryStore) : Prop :=
  ∀ t x r, s'.record t x = some r → r.health = health ∨ ∃ q, s.record t x = some q ∧ r.health = q.health

theorem Rehealed.refl {health : Int} : Rehealed health s s :=
  fun _ _ r hr => .inr ⟨r, hr, rfl⟩

theorem Rehealed.trans {health : Int} {s₁ : RegistryStore} (h₁ : Rehealed health s s₁)
    (h₂ : Rehealed health s₁ s') : Rehealed health s s' := by
  intro t x r hr
  obtain h | ⟨q, hq, h⟩ := h₂ t x r hr
  · exact .inl h
  · rw [h]
    exact h₁ t x q hq

theorem Rehealed.setRecord {health : Int} : Rehealed health s (s.setRecord { r with health }) := by
  intro t x q hq
  rw [record_setRecord] at hq
  split at hq
  case isTrue =>
    obtain rfl := Option.some.inj hq
    exact .inl rfl
  case isFalse => exact .inr ⟨q, hq, rfl⟩

theorem setHealthRecursive_rehealed (health : Int) (limit : Nat) (r : RegisteredResource) (s : RegistryStore) :
    Rehealed health s (setHealthRecursive health limit r s) := by
  induction limit generalizing r s with
  | zero          => exact .refl
  | succ limit hi =>
    have hc (ids : List String) (s₁ : RegistryStore) : Rehealed health s₁
        (ids.foldl (fun s c => (s.findAny c).elim s (setHealthRecursive health limit · s)) s₁) := by
      induction ids generalizing s₁ with
      | nil            => exact .refl
      | cons c ids hl =>
        refine .trans ?_ (hl _)
        cases hf : s₁.findAny c with
        | none       => simpa only [hf, Option.elim_none] using .refl
        | some child => simpa only [hf, Option.elim_some] using hi child s₁
    exact (hc (s.children r.id) s).trans .setRecord

theorem setHealthRecursive_root (health : Int) (limit : Nat) :
    ((setHealthRecursive health (limit + 1) r s).record r.resourceType r.id).map (·.health) = some health := by
  simp [setHealthRecursive, record_setRecord]

-- A heartbeat sets the Node's health, and no health to anything else.
theorem heartbeat_rehealed (n : String) (now : Int) (hk : s.Keyed) :
    Rehealed now s (s.heartbeat n now).2 ∧
    ((s.heartbeat n now).1.isSome ↔ (s.get .node n).isSome) ∧
    ((s.get .node n).isSome → ((s.heartbeat n now).2.record .node n).map (·.health) = some now) := by
  unfold heartbeat
  cases hg : s.get .node n with
  | none      => exact ⟨.refl, by simp, by simp⟩
  | some node =>
    obtain ⟨ht, hi⟩ := hk _ _ _ (get_eq_some.mp hg).1
    refine ⟨setHealthRecursive_rehealed _ _ _ _, by simp, fun _ => ?_⟩
    have h := setHealthRecursive_root (s := s) (r := node) now (RECURSION_LIMIT - 1)
    rwa [ht, hi] at h

-- What a cascade takes away has the moment of it as its health.
theorem Erasing.retired {P : RegisteredResource → Prop} {ev : List ResourceEvent} (e : Erasing now P s ev s')
    (hs : (s.get t x).isSome) (hn : s'.get t x = none) : ∃ r, s'.record t x = some r ∧ r.health = now := by
  induction e with
  | refl => simp [hn] at hs
  | @retire ev s₁ q e _ hg _ hi =>
    rw [get_retire ⟨rfl, rfl⟩] at hn
    simp only [RegistryStore.retire, record_setRecord]
    split
    case isTrue h  => exact ⟨_, rfl, rfl⟩
    case isFalse h =>
      rw [if_neg h] at hn
      exact hi hn

theorem delete_retired (hw : s.WellFormed) (hs : (s.get .node n).isSome)
    (hn : (s.delete t x now).2.get .node n = none) :
    ∃ r, (s.delete t x now).2.record .node n = some r ∧ r.health = now := by
  obtain ⟨-, e⟩ | ⟨r, ev, s₁, -, e, he, -⟩ := delete_spec t x now hw
  · rw [e] at hn
    simp [hn] at hs
  · rw [e] at hn ⊢
    exact he.retired hs hn

theorem delete_get (hw : s.WellFormed) (h : (s.delete t x now).2.get .node n = some r) : s.get .node n = some r := by
  obtain ⟨-, e⟩ | ⟨q, ev, s₁, -, e, he, -⟩ := delete_spec t x now hw
  · rwa [e] at h
  · rw [e] at h
    exact he.isBelow.get _ _ _ h

end Registry.RegistryStore

namespace Raft

open Registry RegistryStore

variable {table : OwnershipTable} {held : Ownership} {n x : String} {i owner epoch : Nat}

theorem OwnershipTable.claim_ownerOf (h : (table.claim x owner epoch).2.ownerOf n = some held) :
    table.ownerOf n = some held ∨ n = x ∧ held.owner = owner := by
  have hset (h : OwnershipTable.ownerOf (table.set x { owner, epoch }) n = some held) :
      table.ownerOf n = some held ∨ n = x ∧ held.owner = owner := by
    rw [ownerOf, Dict.get?_set] at h
    split at h
    case isTrue hx =>
      obtain rfl := Option.some.inj h
      exact .inr ⟨hx, rfl⟩
    case isFalse => exact .inl h
  unfold claim at h
  split at h
  · split at h
    · exact .inl h
    · exact hset h
  · exact hset h

theorem OwnershipTable.release_ownerOf (h : (table.release x epoch).2.ownerOf n = some held) :
    table.ownerOf n = some held := by
  unfold release at h
  split at h
  · split at h
    · exact h
    · rw [ownerOf, Dict.get?_erase] at h
      split at h
      · cases h
      · exact h
  · exact h

theorem OwnershipTable.memberDown_ownerOf {member : Nat}
    (h : (table.memberDown member epoch).2.ownerOf n = some held) : table.ownerOf n = some held := by
  suffices hf : ∀ (ids : List String) (acc : List String × OwnershipTable),
      (ids.foldl (releaseOne epoch) acc).2.ownerOf n = some held → acc.2.ownerOf n = some held from
    hf _ ([], table) h
  intro ids
  induction ids with
  | nil            => exact fun _ h => h
  | cons id ids hi => exact fun acc h => release_ownerOf (hi _ h)

namespace StateMachine

-- Who a member takes for the owner of a Node.
def OwnedBy (m : StateMachine) (n : String) (i : Nat) : Prop :=
  ∃ held, m.ownership.ownerOf n = some held ∧ held.owner = i

-- An operation that makes a member the owner of a Node.
def Claims (op : RegistryOperation) (n : String) (i : Nat) : Prop :=
  match op with
  | .register op              => op.nodeId = n ∧ op.claimOwner = some i
  | .claimOwnership _ x owner => x = n ∧ owner = i
  | _                         => False

variable {m m' : StateMachine} {now : TaiCursor} {index : Nat} {op : RegistryOperation} {node : RegisteredResource}

theorem fuseClaim_owned {op : RegisterOp} (h : (m.fuseClaim op index).OwnedBy n i) :
    m.OwnedBy n i ∨ Claims (.register op) n i := by
  unfold fuseClaim at h
  split at h
  case h_1 owner ho =>
    obtain ⟨held, h, rfl⟩ := h
    obtain h | ⟨rfl, hw⟩ := OwnershipTable.claim_ownerOf h
    · exact .inl ⟨held, h, rfl⟩
    · exact .inr ⟨rfl, hw ▸ ho⟩
  case h_2 => exact .inl h

section

variable [Python]

-- An operation that gives a Node its health.
def Registers (op : RegistryOperation) (n : String) (health : Int) : Prop :=
  match op with
  | .register op => op.resourceType = .node ∧ Python.getStr (Body.data ⟨op.bodyText⟩) "id" = some n ∧
    op.health = health
  | _            => False

theorem applyOne_owned (h : (m.applyOne now index op).2.2.OwnedBy n i) : m.OwnedBy n i ∨ Claims op n i := by
  cases op with
  | noop _ => exact .inl h
  | register op =>
    simp only [applyOne, applyRegister] at h
    split at h
    · exact .inl h
    · exact fuseClaim_owned h
  | unregister _ t x =>
    simp only [applyOne, applyUnregister_machine] at h
    exact .inl h
  | expire _ x =>
    simp only [applyOne, applyExpire_machine] at h
    exact .inl h
  | forget _ victims =>
    simp only [applyOne, applyForget, OwnedBy, captureVictims_ownership] at h
    exact .inl h
  | claimOwnership _ x owner =>
    obtain ⟨held, h, rfl⟩ := h
    obtain h | ⟨rfl, hw⟩ := OwnershipTable.claim_ownerOf h
    · exact .inl ⟨held, h, rfl⟩
    · exact .inr ⟨rfl, hw.symm⟩
  | releaseOwnership _ x =>
    obtain ⟨held, h, rfl⟩ := h
    exact .inl ⟨held, OwnershipTable.release_ownerOf h, rfl⟩
  | memberDown _ member =>
    obtain ⟨held, h, rfl⟩ := h
    exact .inl ⟨held, OwnershipTable.memberDown_ownerOf h, rfl⟩

theorem applyCommitted_node {s : RegistryStore} {p : PreparedRegistration} {t : ResourceType} {raw : Python.Json}
    {body : Body} {created updated : TaiCursor} {health : Int} (hs : s.Sound) (ha : s.Accepts t raw p) :
    (∀ node, (s.applyCommitted p body created updated health now).2.get .node n = some node →
      t = .node ∧ Python.getStr raw "id" = some n ∧ node.health = health ∨
        ¬(t = .node ∧ Python.getStr raw "id" = some n) ∧ s.get .node n = some node) ∧
    ((s.get .node n).isSome → ((s.applyCommitted p body created updated health now).2.get .node n).isSome) := by
  have hreg := (applyCommitted_registered body (some created) (some updated) (some health) now hs.wellFormed ha rfl).1
  constructor
  · intro node hg
    obtain ⟨hr, he⟩ := get_eq_some.mp hg
    rw [hreg.record] at hr
    split at hr
    case isTrue hk =>
      obtain rfl := Option.some.inj hr
      exact .inl ⟨ha.type.symm.trans hk.1.symm, hk.2 ▸ ha.id, rfl⟩
    case isFalse hk =>
      refine .inr ⟨fun h => hk ⟨h.1.symm.trans ha.type.symm, ?_⟩, get_eq_some.mpr ⟨hr, he⟩⟩
      exact Option.some.inj (h.2.symm.trans ha.id)
  · intro h
    rw [RegistryStore.get, hreg.record]
    split
    · simp [committed]
    · exact h

-- The health that a Node has once an operation is applied.
theorem applyOne_node (hs : m.store.Sound) (h : (m.applyOne now index op).2.2.store.get .node n = some node) :
    Registers op n node.health ∨ m.store.get .node n = some node ∧
      ((∀ health, ¬Registers op n health) ∨ (m.applyOne now index op).2.2 = m) := by
  cases op with
  | noop _ | claimOwnership _ _ _ | releaseOwnership _ _ | memberDown _ _ => exact .inr ⟨h, .inl fun _ => id⟩
  | register op =>
    simp only [applyOne, applyRegister] at h ⊢
    split at h
    case h_1 => exact .inr ⟨h, .inr (by simp)⟩
    case h_2 p hp =>
      simp only [acceptRegister, captureBeforeMutating, fuseClaim_store] at h
      obtain ⟨ht, hid, hh⟩ | ⟨hr, h⟩ := (applyCommitted_node hs (prepare_eq_ok.mp hp)).1 node h
      · exact .inl ⟨ht, hid, hh.symm⟩
      · exact .inr ⟨h, .inl fun _ hreg => hr ⟨hreg.1, hreg.2.1⟩⟩
  | unregister _ t x =>
    simp only [applyOne, applyUnregister_machine, applyDelete_store] at h
    exact .inr ⟨delete_get hs.wellFormed h, .inl fun _ => id⟩
  | expire _ x =>
    simp only [applyOne, applyExpire_machine, applyDelete_store] at h
    exact .inr ⟨delete_get hs.wellFormed h, .inl fun _ => id⟩
  | forget _ victims =>
    simp only [applyOne, applyForget, captureVictims_store, (forgetAll_spec victims 0 hs).2.1] at h
    exact .inr ⟨h, .inl fun _ => id⟩

-- A Node that an operation takes away keeps the moment of it as its health.
theorem applyOne_retired (hs : m.store.Sound) (h : (m.store.get .node n).isSome)
    (hn : (m.applyOne now index op).2.2.store.get .node n = none) :
    ∃ r, (m.applyOne now index op).2.2.store.record .node n = some r ∧ r.health = now.seconds := by
  cases op with
  | noop _ | claimOwnership _ _ _ | releaseOwnership _ _ | memberDown _ _ =>
    have hn : m.store.get .node n = none := hn
    simp [hn] at h
  | register op =>
    simp only [applyOne, applyRegister] at hn
    split at hn
    · simp [hn] at h
    case h_2 p hp =>
      simp only [acceptRegister, captureBeforeMutating, fuseClaim_store] at hn
      rw [← Option.not_isSome_iff_eq_none] at hn
      exact absurd ((applyCommitted_node hs (prepare_eq_ok.mp hp)).2 h) hn
  | unregister _ t x =>
    simp only [applyOne, applyUnregister_machine, applyDelete_store] at hn ⊢
    exact delete_retired hs.wellFormed h hn
  | expire _ x =>
    simp only [applyOne, applyExpire_machine, applyDelete_store] at hn ⊢
    exact delete_retired hs.wellFormed h hn
  | forget _ victims =>
    simp only [applyOne, applyForget, captureVictims_store, (forgetAll_spec victims 0 hs).2.1] at hn
    simp [hn] at h

theorem applyEntry_retired {entry : Entry RegistryOperation} (hs : m.store.Sound) (h : (m.store.get .node n).isSome)
    (hn : (m.applyEntry now entry).2.2.store.get .node n = none) :
    ∃ r, (m.applyEntry now entry).2.2.store.record .node n = some r ∧ r.health = now.seconds := by
  unfold applyEntry at hn ⊢
  split at hn
  case isTrue  => simp [hn] at h
  case isFalse hi =>
    rw [if_neg hi]
    exact applyOne_retired hs h hn

-- The Nodes that a snapshot restores have their healths from its records.
theorem foldlM_node {L : List RegisteredResource} {store store' : RegistryStore} (hs : store.Sound)
    (h : L.foldlM (installRecord now) store = some store') (hg : store'.get .node n = some node) :
    (∃ r ∈ L, r.resourceType = .node ∧ Python.getStr r.raw "id" = some n ∧ node.health = r.health) ∨
      store.get .node n = some node := by
  induction L generalizing store with
  | nil          =>
    cases h
    exact .inr hg
  | cons r L hi =>
    obtain ⟨store₁, e, h⟩ := Option.bind_eq_some_iff.mp h
    obtain ⟨q, hq, hn⟩ | hg := hi (installRecord_extant hs e).1 h
    · exact .inl ⟨q, .tail _ hq, hn⟩
    · unfold installRecord at e
      split at e
      · cases e
      case h_2 p hp =>
        cases e
        obtain ⟨ht, hid, hh⟩ | ⟨-, hg⟩ := (applyCommitted_node hs (prepare_eq_ok.mp hp)).1 node hg
        · exact .inl ⟨r, List.mem_cons_self, ht, hid, hh⟩
        · exact .inr hg

theorem installPayload_node {snap : Snapshot} (h : m.installPayload snap now = some m') :
    ∃ ownership records, decodeSnapshot snap = some (ownership, records) ∧ m'.ownership = ownership ∧
      ∀ node, m'.store.get .node n = some node →
        ∃ r ∈ records, r.resourceType = .node ∧ Python.getStr r.raw "id" = some n ∧ node.health = r.health := by
  obtain ⟨⟨ownership, records⟩, hd, h⟩ := Option.bind_eq_some_iff.mp h
  obtain ⟨store, hi, h⟩ := Option.bind_eq_some_iff.mp h
  cases h
  refine ⟨ownership, records, hd, rfl, fun node hg => ?_⟩
  obtain ⟨r, hr, hn⟩ | hg := foldlM_node .new hi hg
  · exact ⟨r, SortBy.mem.mp hr, hn⟩
  · cases hg

end

end StateMachine
end Raft
