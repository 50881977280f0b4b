import NmosReference.Registry.StoreTree

namespace Registry.RegistryStore

variable {s s' : RegistryStore} {t t' : ResourceType} {id id' x q : String}
variable {r r' : RegisteredResource}

-- What an accepted `prepare` has established.
structure Accepts [Python] (s : RegistryStore) (t : ResourceType) (raw : Python.Json)
    (p : PreparedRegistration) : Prop where
  type     : p.resourceType = t
  id       : Python.getStr raw "id" = some p.resourceId
  id_ne    : p.resourceId ≠ ""
  version  : Python.getStr raw "version" = some p.version
  parentId : p.parentId = parentIdOf t raw
  typed    : ∀ t', s.typeOf p.resourceId = some t' → t' = t
  parent   : s.checkParent t p.parentId = none
  update   : (s.get t p.resourceId).bind (checkUpdate · p.version p.parentId) = none
  reviving : p.reviving = (s.record t p.resourceId).any (!·.extant)
  creates  : p.creates = ((s.record t p.resourceId).isNone || p.reviving)

theorem prepare_eq_ok [Python] {raw : Python.Json} {p : PreparedRegistration} :
    s.prepare t raw = .ok p ↔ s.Accepts t raw p := by
  constructor
  · intro h
    unfold prepare at h
    split at h
    case h_1 => cases h
    case h_2 => cases h
    case h_3 id version hi hv =>
    split at h
    case h_1 => cases h
    case h_2 ht =>
    unfold prepareTyped at h
    split at h
    case h_1 => cases h
    case h_2 hpar =>
    split at h
    case h_1 => cases h
    case h_2 hupd =>
    cases h
    obtain ⟨hi, hne⟩ := Option.filter_eq_some_iff.mp hi
    exact {
      type     := rfl
      id       := hi
      id_ne    := by simpa using hne
      version  := hv
      parentId := rfl
      typed    := by simpa [Option.filter_eq_none_iff] using ht
      parent   := hpar
      update   := hupd
      reviving := rfl
      creates  := rfl }
  · rintro ⟨rfl, hi, hne, hv, hp, ht, hpar, hupd, hr, hc⟩
    have hi' : (Python.getStr raw "id").filter (· ≠ "") = some p.resourceId := by
      simp [hi, Option.filter, hne]
    have ht' : (s.typeOf p.resourceId).filter (· ≠ p.resourceType) = none := by
      simpa [Option.filter_eq_none_iff] using ht
    simp only [prepare, hi', hv, ht', prepareTyped, ← hp, hpar, hupd, ← hr, ← hc]

-- A parent accepted by `_check_parent` is extant and of the type required.
theorem checkParent_eq_none {parentId : Option String} (h : s.checkParent t parentId = none) :
    t.parentType = none ∨ ∃ pt p q, t.parentType = some pt ∧ parentId = some p ∧ s.get pt p = some q := by
  cases ht : t.parentType with
  | none    => exact .inl rfl
  | some pt =>
    obtain ⟨key, hk⟩ : ∃ key, t.parentKey = some key :=
      Option.ne_none_iff_exists'.mp fun hk => by simp [ResourceType.parentKey_eq_none.mp hk] at ht
    cases parentId with
    | none   => simp [checkParent, ht, hk] at h
    | some p =>
      simp only [checkParent, ht, hk] at h
      split at h
      case h_1 => cases h
      case h_2 actual ha =>
        split at h
        case isTrue => cases h
        case isFalse he =>
          obtain ⟨q, hq⟩ := Option.isSome_iff_exists.mp (Option.filter_eq_some_iff.mp ha).2
          exact .inr ⟨pt, p, q, rfl, rfl, by simpa [not_not.mp he] using hq⟩

theorem checkParent_of_get {parentId : Option String} (hw : s.WellFormed)
    (hn : t.parentType = none → parentId = none)
    (h : ∀ pt, t.parentType = some pt → ∃ p q, parentId = some p ∧ s.get pt p = some q) :
    s.checkParent t parentId = none := by
  cases ht : t.parentType with
  | none    => simp [checkParent, ht]
  | some pt =>
    obtain ⟨p, q, rfl, hq⟩ := h pt ht
    obtain ⟨key, hk⟩ : ∃ key, t.parentKey = some key :=
      Option.ne_none_iff_exists'.mp fun hk => by simp [ResourceType.parentKey_eq_none.mp hk] at ht
    have hty := (hw.typed _ _).mpr ⟨q, (get_eq_some.mp hq).1⟩
    simp [checkParent, ht, hk, hty, hq, Option.filter]

-- An accepted update keeps the parent.
theorem checkUpdate_eq_none [Python] {version : String} {parentId : Option String}
    (h : checkUpdate r version parentId = none) : r.parentId = none ∨ r.parentId = parentId := by
  unfold checkUpdate at h
  split at h
  case h_1 => cases h
  case h_2 =>
    split at h
    case isTrue => cases h
    case isFalse =>
      split at h
      case isTrue => cases h
      case isFalse hc =>
        cases hp : r.parentId with
        | none   => exact .inl rfl
        | some p => exact .inr (by simpa [hp, eq_comm] using hc)

namespace Accepts

variable [Python] {raw : Python.Json} {p : PreparedRegistration}

-- What the accepted resource may have been before: nothing of any type, a tombstone, or an extant
-- resource with the same parent.
theorem previous (h : s.Accepts t raw p) (hw : s.WellFormed) :
    (p.creates = true ∧ p.reviving = false ∧ ∀ t', s.record t' p.resourceId = none) ∨
    (∃ r, p.creates = true ∧ p.reviving = true ∧ s.record t p.resourceId = some r ∧
      r.extant = false) ∨
    (∃ r, p.creates = false ∧ p.reviving = false ∧ s.get t p.resourceId = some r ∧
      r.parentId = p.parentId) := by
  cases hr : s.record t p.resourceId with
  | none =>
    refine .inl ⟨by simp [h.creates, hr], by simp [h.reviving, hr], fun t' => ?_⟩
    by_contra hne
    obtain ⟨r', hr'⟩ := Option.ne_none_iff_exists'.mp hne
    have ht := h.typed t' <| (hw.typed _ _).mpr ⟨r', hr'⟩
    simp [ht ▸ hr'] at hr
  | some r =>
    cases he : r.extant with
    | false => exact .inr <| .inl ⟨r, by simp [h.creates, h.reviving, hr, he], by simp [h.reviving, hr, he], rfl, he⟩
    | true =>
      have hg : s.get t p.resourceId = some r := get_eq_some.mpr ⟨hr, he⟩
      refine .inr <| .inr ⟨r, by simp [h.creates, h.reviving, hr, he], by simp [h.reviving, hr, he], hg, ?_⟩
      have hu := h.update
      rw [hg, Option.bind_some] at hu
      obtain hn | hp := checkUpdate_eq_none hu
      · -- Only a Node has no parent, and a Node's parent is never read.
        have := (hw.shape _ _ _ hr).mp hn
        rw [hn, h.parentId, parentIdOf, ResourceType.parentKey_eq_none.mpr this, Option.bind_none]
      · exact hp

theorem shape (h : s.Accepts t raw p) : p.parentId = none ↔ t.parentType = none := by
  constructor
  · intro hn
    obtain ht | ⟨_, _, _, _, hp, _⟩ := checkParent_eq_none h.parent
    · exact ht
    · simp [hn] at hp
  · intro ht
    rw [h.parentId, parentIdOf, ResourceType.parentKey_eq_none.mpr ht, Option.bind_none]

theorem parent_extant (h : s.Accepts t raw p) {pt : ResourceType} {q : String}
    (ht : t.parentType = some pt) (hp : p.parentId = some q) : ∃ r, s.get pt q = some r := by
  obtain hn | ⟨pt', p', r, ht', hp', hr⟩ := checkParent_eq_none h.parent
  · simp [hn] at ht
  · simp_all

end Accepts

-- The record that an accepted registration leaves.
def committed (s : RegistryStore) (p : PreparedRegistration) (body : Body) (created updated : TaiCursor)
    (health : Int) : RegisteredResource where
  resourceType := p.resourceType
  id           := p.resourceId
  body         := body
  version      := p.version
  created      := ((s.get p.resourceType p.resourceId).map (·.created)).getD created
  updated      := updated
  parentId     := p.parentId
  extant       := true
  health       := health

-- The effect of applying an accepted registration on the resource tree.
structure Registered (s s' : RegistryStore) (p : PreparedRegistration) (r : RegisteredResource) :
    Prop where
  record   : ∀ t x, s'.record t x =
    if t = p.resourceType ∧ x = p.resourceId then some r else s.record t x
  typeOf   : ∀ x, s'.typeOf x = if x = p.resourceId then some p.resourceType else s.typeOf x
  children : ∀ x q, x ∈ s'.children q ↔
    if x = p.resourceId then p.parentId = some q
    else x ∈ s.children q ∧ ¬(p.reviving = true ∧ q = p.resourceId)
  nodup    : ∀ q, (s'.children q).Nodup

theorem Registered.congr {s₀ : RegistryStore} {p : PreparedRegistration} (h : s.Registered s' p r)
    (hr : s.record = s₀.record) (ht : s.typeOf = s₀.typeOf) (hc : s.children = s₀.children) :
    s₀.Registered s' p r where
  record   := hr ▸ h.record
  typeOf   := ht ▸ h.typeOf
  children := hc ▸ h.children
  nodup    := h.nodup

-- The event that an accepted registration publishes.
def commitEvent (s : RegistryStore) (p : PreparedRegistration) (r : RegisteredResource) :
    ResourceEvent :=
  match s.get p.resourceType p.resourceId with
  | some previous => .modified previous.body r
  | none          => .added r

theorem nodup_discardChild (h : ∀ q, (s.children q).Nodup) :
    ∀ q, ((s.discardChild id' id).children q).Nodup := by
  intro q
  by_cases hq : q = id'
  · subst hq
    simpa [discardChild] using (h q).filter _
  · simpa [discardChild, hq] using h q

theorem nodup_addChild (h : ∀ q, (s.children q).Nodup) :
    ∀ q, ((s.addChild id' id).children q).Nodup := by
  intro q
  by_cases hq : q = id'
  · subst hq
    simpa [addChild] using (h q).insert
  · simpa [addChild, hq] using h q

theorem nodup_popChildren (h : ∀ q, (s.children q).Nodup) :
    ∀ q, ((s.popChildren id).children q).Nodup := by
  intro q
  by_cases hq : q = id <;> simp [popChildren, hq, h]

theorem nodup_reparent {pre new : Option String} (h : ∀ q, (s.children q).Nodup) :
    ∀ q, ((s.reparent id pre new).children q).Nodup := by
  cases pre <;> cases new
  · exact h
  · exact nodup_addChild h
  · exact nodup_discardChild h
  · exact nodup_addChild (nodup_discardChild h)

section Commit

variable {p : PreparedRegistration} {body : Body} {created cursor : TaiCursor} {health : Int}

-- An update leaves the record where it is, listed under the same parent.
theorem commitUpdate_registered (body : Body) (created cursor : TaiCursor) (health : Int) (hw : s.WellFormed) (hg : s.get p.resourceType p.resourceId = some r)
    (hp : r.parentId = p.parentId) (hr : p.reviving = false) :
    s.Registered (s.commitUpdate r p body cursor health).2 p (s.committed p body created cursor health) ∧
      (s.commitUpdate r p body cursor health).1 =
        { created := false, events := [s.commitEvent p (s.committed p body created cursor health)] } := by
  have ⟨hrec, he⟩ := get_eq_some.mp hg
  have hk := hw.key _ _ _ hrec
  have hc : s.committed p body created cursor health = { r with
      body, version := p.version, updated := cursor, parentId := p.parentId, health } := by
    simp [committed, hg, hk, he]
  rw [hc]
  refine ⟨⟨?_, ?_, ?_, ?_⟩, by simp only [commitUpdate, commitEvent, hg]⟩ <;>
    simp only [commitUpdate, touchOrder_record, touchOrder_typeOf, touchOrder_children,
      reparent_record, reparent_typeOf, setRecord_typeOf]
  · intro t x
    simp [record_setRecord, hk]
  · intro x
    have := (hw.typed _ _).mpr ⟨r, hrec⟩
    split <;> simp_all
  · intro x q
    simp only [mem_reparent, setRecord_children, hr, hp]
    by_cases hx : x = p.resourceId
    · subst hx
      -- A child set lists an id under its own parent only.
      have hl : p.resourceId ∈ s.children q → p.parentId = some q := fun hl => by
        have ⟨t', r', hr', hp'⟩ := hw.owned _ _ hl
        obtain rfl := hw.type_unique hr' hrec
        simp_all
      simpa using hl
    · simp [hx]
  · exact nodup_reparent hw.nodup

-- A create or a revive: whatever tombstone the id had is replaced.
theorem commitCreate_registered (pre : Option String) (body : Body) (created cursor : TaiCursor)
    (health : Int) (hw : s.WellFormed)
    (hg : s.get p.resourceType p.resourceId = none)
    (hpre : ∀ q, p.resourceId ∈ s.children q → pre = some q)
    (hself : p.reviving = true → p.parentId ≠ some p.resourceId) :
    s.Registered (s.commitCreate pre p body created cursor health).2 p
        (s.committed p body created cursor health) ∧
      (s.commitCreate pre p body created cursor health).1 =
        { created := true, events := [s.commitEvent p (s.committed p body created cursor health)] } := by
  have hc : s.committed p body created cursor health =
      { resourceType := p.resourceType, id := p.resourceId, body, version := p.version, created,
        updated := cursor, parentId := p.parentId, extant := true, health } := by
    simp [committed, hg]
  rw [hc]
  refine ⟨⟨?_, ?_, ?_, ?_⟩, by simp only [commitCreate, commitEvent, hg]⟩ <;>
    simp only [commitCreate, touchOrder_record, touchOrder_typeOf, touchOrder_children]
  · intro t x
    split <;> simp [record_setRecord]
  · intro x
    split <;> simp
  · intro x q
    by_cases hx : x = p.resourceId
    · subst hx
      cases hv : p.reviving
      · simp only [Bool.false_eq_true, ↓reduceIte, mem_reparent, setType_children, setRecord_children]
        simpa using fun h hn => absurd (hpre q h) hn
      · simp only [↓reduceIte, mem_popChildren, mem_reparent, setType_children, setRecord_children]
        constructor
        · rintro ⟨⟨h, hn⟩ | h, _⟩
          · exact absurd ⟨hpre q h, trivial⟩ hn
          · exact h.1
        · exact fun h => ⟨.inr ⟨h, trivial⟩, fun hq => hself hv (hq ▸ h)⟩
    · cases hv : p.reviving <;> simp [mem_popChildren, mem_reparent, hx]
  · split
    · exact nodup_popChildren (nodup_reparent hw.nodup)
    · exact nodup_reparent hw.nodup

end Commit

variable [Python] {raw : Python.Json} {p : PreparedRegistration} {body : Body}
variable {created updated : Option TaiCursor} {health : Option Int} {now : TaiCursor}

-- An accepted resource is not its own parent.
theorem Accepts.parentId_ne (hw : s.WellFormed) (h : s.Accepts t raw p) :
    p.parentId ≠ some p.resourceId := by
  intro hp
  obtain ⟨pt, ht⟩ := Option.ne_none_iff_exists'.mp <| h.shape.not.mp (by simp [hp])
  have ⟨q, hq⟩ := h.parent_extant ht hp
  obtain rfl := h.typed pt <| (hw.typed _ _).mpr ⟨q, (get_eq_some.mp hq).1⟩
  have := ResourceType.depth_parentType ht
  omega

-- Applying an accepted registration: one record set, one event, and the result that `prepare`
-- predicted.
theorem applyCommitted_registered (body : Body) (created updated : Option TaiCursor)
    (health : Option Int) (now : TaiCursor) (hw : s.WellFormed) (ha : s.Accepts t raw p)
    {cursor : TaiCursor}
    (hc : (s.commitCursor p.resourceType updated now).1 = cursor) :
    let r := s.committed p body (created.getD cursor) cursor (health.getD now.seconds)
    s.Registered (s.applyCommitted p body created updated health now).2 p r ∧
      (s.applyCommitted p body created updated health now).1 =
        { created := p.creates, events := [s.commitEvent p r] } := by
  obtain rfl := ha.type
  have hrec : (s.commitCursor p.resourceType updated now).2.record = _ := commitCursor_record
  have htyp : (s.commitCursor p.resourceType updated now).2.typeOf = _ := commitCursor_typeOf
  have hchl : (s.commitCursor p.resourceType updated now).2.children = _ := commitCursor_children
  simp only [applyCommitted, hc]
  generalize (s.commitCursor p.resourceType updated now).2 = s₁ at hrec htyp hchl
  have hw₁ := hw.congr hrec htyp hchl
  have hget : s₁.get = s.get := by funext t x; simp [get, hrec]
  have hcom : s₁.committed p body = s.committed p body := by funext; simp [committed, hget]
  have hev : s₁.commitEvent p = s.commitEvent p := by funext; simp [commitEvent, hget]
  rw [hrec]
  obtain ⟨hcr, hrv, hn⟩ | ⟨r, hcr, hrv, hr, he⟩ | ⟨r, hcr, hrv, hg, hp⟩ := ha.previous hw
  · have ⟨h₁, h₂⟩ := commitCreate_registered (p := p) none body (created.getD cursor) cursor
      (health.getD now.seconds) hw₁
      (by simp [get, hrec, hn])
      (fun q hq => by have ⟨_, _, h, _⟩ := hw₁.owned _ _ hq; simp [hrec, hn] at h)
      (fun h => by simp [hrv] at h)
    rw [hcom, hev] at h₂
    simp only [hn, hcr]
    exact ⟨hcom ▸ h₁.congr hrec htyp hchl, h₂⟩
  · have ⟨h₁, h₂⟩ := commitCreate_registered (p := p) r.parentId body (created.getD cursor) cursor
      (health.getD now.seconds) hw₁
      (by simp [get, hrec, hr, he])
      (fun q hq => by
        have ⟨_, r', hr', hp⟩ := hw₁.owned _ _ hq
        rw [hrec] at hr'
        obtain rfl := hw.type_unique hr' hr
        simp_all)
      (fun _ => ha.parentId_ne hw)
    rw [hcom, hev] at h₂
    simp only [hr, hrv, hcr, ↓reduceIte]
    exact ⟨hcom ▸ h₁.congr hrec htyp hchl, h₂⟩
  · have ⟨h₁, h₂⟩ := commitUpdate_registered (p := p) body (created.getD cursor) cursor
      (health.getD now.seconds) hw₁ (hget ▸ hg) hp hrv
    rw [hcom, hev] at h₂
    simp only [(get_eq_some.mp hg).1, hrv, hcr, Bool.false_eq_true, ↓reduceIte]
    exact ⟨hcom ▸ h₁.congr hrec htyp hchl, h₂⟩

-- An accepted registration keeps the tree well formed.
theorem Registered.wellFormed (h : s.Registered s' p r) (hw : s.WellFormed) (ha : s.Accepts t raw p)
    (hr : r.resourceType = p.resourceType ∧ r.id = p.resourceId ∧ r.parentId = p.parentId ∧
      r.extant = true) : s'.WellFormed := by
  obtain rfl := ha.type
  obtain ⟨ht, hi, hp, he⟩ := hr
  have hget : ∀ t x, s'.get t x = if t = p.resourceType ∧ x = p.resourceId then some r else s.get t x := by
    intro t x
    simp only [get, h.record]
    split <;> simp [he]
  -- No other bucket holds the id.
  have honly : ∀ t r', s.record t p.resourceId = some r' → t = p.resourceType := fun t r' hr' =>
    ha.typed t <| (hw.typed _ _).mpr ⟨r', hr'⟩
  exact {
    key := fun t x r' e => by
      rw [h.record] at e
      split at e
      · simp_all
      · exact hw.key _ _ _ e
    typed := fun t x => by
      rw [h.typeOf, h.record]
      by_cases hx : x = p.resourceId
      · subst hx
        by_cases ht' : t = p.resourceType
        · simp [ht']
        · simp only [↓reduceIte, ht', false_and, Option.some.injEq, eq_comm (a := p.resourceType)]
          simpa [ht'] using fun r' hr' => ht' (honly t r' hr')
      · simp [hx, hw.typed]
    listed := fun t x r' q e hq => by
      rw [hget] at e
      rw [h.children]
      split at e
      case isTrue hk =>
        cases e
        simp [hk.2, ← hp, hq]
      case isFalse hk =>
        have hx : x ≠ p.resourceId := fun hx =>
          hk ⟨honly t r' (hx ▸ (get_eq_some.mp e).1), hx⟩
        rw [if_neg hx]
        refine ⟨hw.listed _ _ _ _ e hq, fun hv => ?_⟩
        obtain ⟨hv, hqp⟩ := hv
        obtain ⟨_, hrv, _⟩ | ⟨r₀, _, _, hr₀, he₀⟩ | ⟨_, _, hrv, _⟩ := ha.previous hw
        · simp [hrv] at hv
        · exact hw.childless_of_not_extant hr₀ he₀ _ _ _ e (hqp ▸ hq)
        · simp [hrv] at hv
    owned := fun x q hx => by
      rw [h.children] at hx
      split at hx
      case isTrue hx' => exact ⟨p.resourceType, r, by simp [h.record, hx'], by rw [hp, hx]⟩
      case isFalse hx' =>
        obtain ⟨t, r', hr', hq⟩ := hw.owned _ _ hx.1
        exact ⟨t, r', by simpa [h.record, hx'] using hr', hq⟩
    shape := fun t x r' e => by
      rw [h.record] at e
      split at e
      case isTrue hk =>
        cases e
        rw [hk.1, hp, ha.shape]
      case isFalse => exact hw.shape _ _ _ e
    parent := fun t x r' q pt e hq hpt => by
      have hpar : ∃ q', s.get pt q = some q' := by
        rw [hget] at e
        split at e
        case isTrue hk =>
          cases e
          exact ha.parent_extant (hk.1 ▸ hpt) (hp ▸ hq)
        case isFalse => exact hw.parent _ _ _ _ _ e hq hpt
      rw [hget]
      split
      · exact ⟨r, rfl⟩
      · exact hpar
    nodup := h.nodup }

theorem applyCommitted_wellFormed (hw : s.WellFormed) (ha : s.Accepts t raw p) :
    (s.applyCommitted p body created updated health now).2.WellFormed :=
  have h := (applyCommitted_registered body created updated health now hw ha rfl).1
  h.wellFormed hw ha ⟨rfl, rfl, rfl, rfl⟩

end Registry.RegistryStore
