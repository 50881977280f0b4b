import NmosReference.Library.Transition
import NmosReference.Raft.MachineSound
import NmosReference.Raft.SnapshotInstall

namespace Raft

open Registry RegistryStore

-- A snapshot being serialised while the machine goes on applying.
structure Serialising where
  machine : StateMachine
  walk    : Walk
  result  : Option Snapshot

inductive CaptureStep
  -- The walk runs from one yield to the next.
  | resume
  | apply (now : TaiCursor) (entry : Entry RegistryOperation)

def Serialising.step [Python] (s : Serialising) : CaptureStep → Option Serialising
  | .resume          =>
    match s.result, s.machine.capture with
    | none, some c =>
      match s.walk.resume s.machine.store c with
      | (true, walk)  => some { s with walk }
      | (false, walk) => some
        { machine := { s.machine with capture := none }, walk, result := some (c.finish walk) }
    | _, _         => none
  | .apply now entry =>
    if s.result.isNone then
      some { s with machine := (s.machine.applyEntry now entry).2.2 }
    else
      none

-- Serialising from a machine whose capture has just been opened.
def serialising [Python] (m : StateMachine) : TransitionSystem Serialising CaptureStep where
  init := { machine := m, walk := .start, result := none }
  step := Serialising.step

variable {s₀ store store' : RegistryStore} {c c' : SnapshotCapture} {k k' : ResourceKey}
variable {r : RegisteredResource} {m : StateMachine}

def SnapshotCapture.Touched (c : SnapshotCapture) (k : ResourceKey) : Prop :=
  c.pre.contains k ∨ k ∈ c.gone

-- The capture opened on `s₀` and the store now: what was not touched is as it was, and what was
-- touched is recorded as it was.
structure CaptureInv (s₀ store : RegistryStore) (c : SnapshotCapture) : Prop where
  untouched : ∀ k, ¬c.Touched k → store.record k.1 k.2 = s₀.record k.1 k.2
  pre       : ∀ k image, c.pre.get? k = some image →
    ∃ r, s₀.record k.1 k.2 = some r ∧ image = encodeResource r
  gone      : ∀ k ∈ c.gone, s₀.record k.1 k.2 = none

namespace CaptureInv

theorem start {index term : Nat} {ownership : OwnershipTable} :
    CaptureInv s₀ s₀ (.new index term ownership) where
  untouched := fun _ _ => rfl
  pre       := by simp [SnapshotCapture.new]
  gone      := by simp [SnapshotCapture.new]

-- Photographing a record before it changes keeps its earliest state.
theorem capture (h : CaptureInv s₀ store c) (hr : store.record r.resourceType r.id = some r) :
    CaptureInv s₀ store (c.capture r) ∧
      ∀ k, (c.capture r).Touched k ↔ c.Touched k ∨ k = (r.resourceType, r.id) := by
  by_cases ht : c.Touched (r.resourceType, r.id)
  · have e : c.capture r = c := if_pos ht
    rw [e]
    exact ⟨h, fun k => ⟨.inl, by rintro (h | rfl) <;> assumption⟩⟩
  · have e : c.capture r = { c with pre := c.pre.set (r.resourceType, r.id) (encodeResource r) } :=
      if_neg ht
    have hk : ∀ k, (c.capture r).Touched k ↔ c.Touched k ∨ k = (r.resourceType, r.id) := by
      intro k
      simp only [e, SnapshotCapture.Touched, Dict.contains, Dict.get?_set]
      split <;> simp_all
    refine ⟨⟨fun k hn => h.untouched k (by simp_all), fun k image hi => ?_, e ▸ h.gone⟩, hk⟩
    simp only [e, Dict.get?_set] at hi
    split at hi
    case isTrue he =>
      subst he
      cases hi
      exact ⟨r, h.untouched _ ht ▸ hr, rfl⟩
    case isFalse   => exact h.pre _ _ hi

theorem captureCreated (h : CaptureInv s₀ store c) (hr : store.record k.1 k.2 = none) :
    CaptureInv s₀ store (c.captureCreated k.1 k.2) ∧
      ∀ k', (c.captureCreated k.1 k.2).Touched k' ↔ c.Touched k' ∨ k' = k := by
  by_cases hp : c.pre.contains k
  · have e : c.captureCreated k.1 k.2 = c := if_pos hp
    rw [e]
    exact ⟨h, fun k' => ⟨.inl, by rintro (h | rfl); exacts [h, .inl hp]⟩⟩
  · have e : c.captureCreated k.1 k.2 = { c with gone := c.gone.insert k } := if_neg hp
    have hk : ∀ k', (c.captureCreated k.1 k.2).Touched k' ↔ c.Touched k' ∨ k' = k := by
      intro k'
      simp only [e, SnapshotCapture.Touched, List.mem_insert_iff]
      tauto
    refine ⟨⟨fun k' hn => h.untouched k' (by simp_all), e ▸ h.pre, fun k' hg => ?_⟩, hk⟩
    simp only [e, List.mem_insert_iff] at hg
    obtain rfl | hg := hg
    · by_cases hg : k' ∈ c.gone
      · exact h.gone k' hg
      · exact h.untouched k' (by simp [SnapshotCapture.Touched, hp, hg]) ▸ hr
    · exact h.gone k' hg

-- A cascade is photographed as a whole.
theorem captureAll (rs : List RegisteredResource) (h : CaptureInv s₀ store c)
    (hr : ∀ r ∈ rs, store.record r.resourceType r.id = some r) :
    CaptureInv s₀ store (rs.foldl .capture c) ∧
      ∀ k, (rs.foldl .capture c).Touched k ↔ c.Touched k ∨ ∃ r ∈ rs, k = (r.resourceType, r.id) := by
  induction rs generalizing c with
  | nil => simpa using h
  | cons r rs hi =>
    have ⟨h₁, hk₁⟩ := h.capture (hr r (by simp))
    have ⟨h₂, hk₂⟩ := hi h₁ fun r' hr' => hr r' (by simp [hr'])
    refine ⟨h₂, fun k => ?_⟩
    simp [hk₂, hk₁, or_assoc]

-- Records that are touched may change.
theorem change (h : CaptureInv s₀ store c)
    (hs : ∀ k, ¬c.Touched k → store'.record k.1 k.2 = store.record k.1 k.2) :
    CaptureInv s₀ store' c where
  untouched k hn := (hs k hn).trans (h.untouched k hn)
  pre            := h.pre
  gone           := h.gone

end CaptureInv

theorem captureBeforeMutating_inv (hc : m.capture = some c) (h : CaptureInv s₀ m.store c)
    (hw : m.store.WellFormed) (k : ResourceKey) :
    ∃ c', m.captureBeforeMutating k.1 k.2 = { m with capture := some c' } ∧
      CaptureInv s₀ m.store c' ∧ ∀ k', c'.Touched k' ↔ c.Touched k' ∨ k' = k := by
  cases hr : m.store.record k.1 k.2 with
  | none =>
    obtain ⟨h', hk⟩ := h.captureCreated hr
    exact ⟨_, by simp [StateMachine.captureBeforeMutating, hc, hr], h', hk⟩
  | some r =>
    have hkey := hw.key _ _ _ hr
    obtain ⟨h', hk⟩ := h.capture (r := r) (by rw [hkey.1, hkey.2]; exact hr)
    rw [hkey.1, hkey.2] at hk
    exact ⟨_, by simp [StateMachine.captureBeforeMutating, hc, hr], h', hk⟩

theorem captureSubtree_inv (hc : m.capture = some c) (h : CaptureInv s₀ m.store c)
    (hw : m.store.WellFormed) (t : ResourceType) (x : String) :
    ∃ c', m.captureSubtree t x = { m with capture := some c' } ∧ CaptureInv s₀ m.store c' ∧
      ∀ k, c'.Touched k ↔ c.Touched k ∨ ∃ r ∈ m.store.subtree t x, k = (r.resourceType, r.id) := by
  have ⟨h', hk⟩ := h.captureAll (m.store.subtree t x) fun r hr =>
    (get_eq_some.mp (hw.of_mem_subtree hr)).1
  exact ⟨_, by simp [StateMachine.captureSubtree, hc], h', hk⟩

theorem captureVictims_inv (victims : List ResourceKey) (hc : m.capture = some c)
    (h : CaptureInv s₀ m.store c) (hw : m.store.WellFormed) :
    ∃ c', victims.foldl (fun m v => m.captureBeforeMutating v.1 v.2) m =
        { m with capture := some c' } ∧
      CaptureInv s₀ m.store c' ∧ ∀ k, c'.Touched k ↔ c.Touched k ∨ k ∈ victims := by
  induction victims generalizing m c with
  | nil => exact ⟨c, by simp [← hc], h, by simp⟩
  | cons v victims hi =>
    obtain ⟨c₁, e₁, h₁, hk₁⟩ := captureBeforeMutating_inv hc h hw v
    obtain ⟨c₂, e₂, h₂, hk₂⟩ := hi (m := { m with capture := some c₁ }) rfl h₁ hw
    refine ⟨c₂, by rw [List.foldl_cons, e₁, e₂], h₂, fun k => ?_⟩
    simp [hk₂, hk₁, or_assoc]

-- A record of the pinned state that is not extant.
def Tombstone (s₀ : RegistryStore) (k : ResourceKey) : Prop :=
  ∃ r, s₀.record k.1 k.2 = some r ∧ r.extant = false

variable {D : ResourceKey → Prop}

-- What an operation applied during a capture leaves, where `D` are the tombstones it disturbs.
def Captured (s₀ : RegistryStore) (c : SnapshotCapture) (m' : StateMachine)
    (D : ResourceKey → Prop) : Prop :=
  ∃ c', m'.capture = some c' ∧ CaptureInv s₀ m'.store c' ∧ (∀ k, c.Touched k → c'.Touched k) ∧
    ∀ k, Tombstone s₀ k → (c'.Touched k ↔ c.Touched k ∨ D k)

theorem Captured.unchanged (hc : m.capture = some c) (h : CaptureInv s₀ m.store c)
    (hD : ∀ k, ¬D k) : Captured s₀ c m D :=
  ⟨c, hc, h, fun _ ht => ht, by simp [hD]⟩

section Apply

variable [Python]

-- The operations that have the record under this key photographed although it may not be extant: an
-- accepted registration, and a forget that names it.
def Disturbs (m : StateMachine) (k : ResourceKey) : RegistryOperation → Prop
  | .register op      => (op.resourceType, op.resourceId) = k ∧
    ∃ p, m.store.prepare op.resourceType (Body.data ⟨op.bodyText⟩) = .ok p
  | .forget _ victims => k ∈ victims
  | _                 => False

variable {now : TaiCursor}

-- A cascade touches extant resources only, so no tombstone of the pinned state.
theorem delete_captured (hc : m.capture = some c) (h : CaptureInv s₀ m.store c) (hs : m.store.Sound)
    (t : ResourceType) (x : String) (hD : ∀ k, ¬D k) : Captured s₀ c (m.applyDelete now t x).2 D := by
  have ⟨c', e, h', hk⟩ := captureSubtree_inv hc h hs.wellFormed t x
  simp only [StateMachine.applyDelete, e]
  refine ⟨c', rfl, ?_, fun k ht => (hk k).mpr (.inl ht), fun k ⟨r, hr, he⟩ => ?_⟩
  · refine h'.change fun k hn => ?_
    obtain ⟨_, e⟩ | ⟨_, _, _, _, e, he, _⟩ := delete_spec t x now.seconds hs.wellFormed
    · rw [e]
    · rw [e]
      refine he.frame fun q hq hqk => hn <| (hk k).mpr <| .inr ⟨q, hq, ?_⟩
      rw [hqk.1, hqk.2]
  · simp only [hk, hD, or_false]
    refine ⟨Or.rec (fun ht => ht) fun ⟨q, hq, hqk⟩ => ?_, .inl⟩
    by_contra hn
    have hg := get_eq_some.mp (hs.wellFormed.of_mem_subtree hq)
    have := h.untouched k hn
    simp_all

theorem applyRegister_captured {op : RegisterOp} {index : Nat} (hc : m.capture = some c)
    (h : CaptureInv s₀ m.store c) (hs : m.store.Sound)
    (hop : (RegistryOperation.register op).WellFormed) :
    Captured s₀ c (m.applyRegister now op index).2.2 (Disturbs m · (.register op)) := by
  cases hp : m.store.prepare op.resourceType (Body.data ⟨op.bodyText⟩) with
  | error failure =>
    simp only [StateMachine.applyRegister, hp]
    exact .unchanged hc h fun k => by simp [Disturbs, hp]
  | ok p =>
    simp only [StateMachine.applyRegister, hp]
    have ha := prepare_eq_ok.mp hp
    have hid : p.resourceId = op.resourceId := Option.some.inj (ha.id.symm.trans hop)
    obtain ⟨c', e, h', hk⟩ := captureBeforeMutating_inv (m := m.fuseClaim op index)
      (k := (op.resourceType, op.resourceId)) (by simpa using hc) (by simpa using h)
      (by simpa using hs.wellFormed)
    simp only [StateMachine.acceptRegister, e, StateMachine.fuseClaim_store] at h' ⊢
    refine ⟨c', rfl, ?_, fun k ht => (hk k).mpr (.inl ht), fun k _ => ?_⟩
    · refine h'.change fun k hn => ?_
      have hreg := (applyCommitted_registered ⟨op.bodyText⟩
        (some (if p.creates then op.updated else op.created)) (some op.updated) (some op.health) now
        hs.wellFormed ha rfl).1
      rw [hreg.record, if_neg]
      rintro ⟨h₁, h₂⟩
      exact hn <| (hk k).mpr <| .inr <| Prod.ext (h₁.trans ha.type) (h₂.trans hid)
    · simp [hk, Disturbs, hp, eq_comm]

theorem applyForget_captured {proposal : ProposalId} {victims : List ResourceKey}
    (hc : m.capture = some c) (h : CaptureInv s₀ m.store c) (hs : m.store.Sound) :
    Captured s₀ c (m.applyForget victims).2 (Disturbs m · (.forget proposal victims)) := by
  obtain ⟨c', e, h', hk⟩ := captureVictims_inv victims hc h hs.wellFormed
  have ⟨_, _, h₃⟩ := forgetAll_spec victims 0 hs
  simp only [StateMachine.applyForget, e]
  refine ⟨c', rfl, h'.change fun k hn => h₃ k fun hm => ?_, fun k ht => (hk k).mpr (.inl ht), ?_⟩
  · exact hn <| (hk k).mpr (.inr hm)
  · exact fun k _ => hk k

theorem applyEntry_captured (now : TaiCursor) {entry : Entry RegistryOperation} (hc : m.capture = some c)
    (h : CaptureInv s₀ m.store c) (hs : m.store.Sound) (hop : entry.value.WellFormed) :
    Captured s₀ c (m.applyEntry now entry).2.2 fun k =>
      m.lastApplied < entry.index ∧ Disturbs m k entry.value := by
  unfold StateMachine.applyEntry
  split
  case isTrue hi => exact .unchanged hc h fun k => by omega
  case isFalse hi =>
    have hi : m.lastApplied < entry.index := by omega
    simp only [hi, true_and]
    suffices hd : Captured s₀ c (m.applyOne now entry.index entry.value).2.2
        (Disturbs m · entry.value) from hd
    cases hv : entry.value with
    | noop _ => exact .unchanged hc h fun k => by simp [Disturbs]
    | register op => exact applyRegister_captured hc h hs (hv ▸ hop)
    | unregister _ t x =>
      simp only [StateMachine.applyOne, StateMachine.applyUnregister_machine]
      exact delete_captured hc h hs t x fun k => by simp [Disturbs]
    | expire _ nodeId =>
      simp only [StateMachine.applyOne, StateMachine.applyExpire_machine]
      exact delete_captured hc h hs .node nodeId fun k => by simp [Disturbs]
    | forget _ victims => exact applyForget_captured hc h hs
    | claimOwnership _ _ _ => exact .unchanged hc h fun k => by simp [Disturbs]
    | releaseOwnership _ _ => exact .unchanged hc h fun k => by simp [Disturbs]
    | memberDown _ _ => exact .unchanged hc h fun k => by simp [Disturbs]

end Apply
end Raft
