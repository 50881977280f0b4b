import NmosReference.Registry.Store
import Mathlib

namespace Registry.RegistryStore

variable {s s' : RegistryStore} {t t' : ResourceType} {id id' p x : String}
variable {r r' : RegisteredResource} {o : Order} {c now : TaiCursor}

-- What the primitive updates do to the parts of the store that make up the resource tree.

@[simp] theorem record_setRecord :
    (s.setRecord r).record t id = if t = r.resourceType ∧ id = r.id then some r else s.record t id := by
  by_cases h : t = r.resourceType
  · subst h
    simp [record, setRecord, Dict.get?_set]
  · simp [record, setRecord, h]

@[simp] theorem setRecord_typeOf : (s.setRecord r).typeOf = s.typeOf := rfl
@[simp] theorem setRecord_children : (s.setRecord r).children = s.children := rfl

@[simp] theorem record_eraseRecord :
    (s.eraseRecord t id).record t' id' = if t' = t ∧ id' = id then none else s.record t' id' := by
  by_cases h : t' = t
  · subst h
    simp [record, eraseRecord, Dict.get?_erase]
  · simp [record, eraseRecord, h]

@[simp] theorem eraseRecord_typeOf : (s.eraseRecord t id).typeOf = s.typeOf := rfl
@[simp] theorem eraseRecord_children : (s.eraseRecord t id).children = s.children := rfl

@[simp] theorem setType_record {t : Option ResourceType} : (s.setType id t).record = s.record := rfl
@[simp] theorem setType_children {t : Option ResourceType} :
    (s.setType id t).children = s.children := rfl

@[simp] theorem setType_typeOf {t : Option ResourceType} :
    (s.setType id t).typeOf x = if x = id then t else s.typeOf x := by
  simp [setType, Function.update_apply]

@[simp] theorem dropFromOrder_record : (s.dropFromOrder t id).record = s.record := rfl
@[simp] theorem dropFromOrder_typeOf : (s.dropFromOrder t id).typeOf = s.typeOf := rfl
@[simp] theorem dropFromOrder_children : (s.dropFromOrder t id).children = s.children := rfl

@[simp] theorem touchOrder_record : (s.touchOrder t o id c).record = s.record := rfl
@[simp] theorem touchOrder_typeOf : (s.touchOrder t o id c).typeOf = s.typeOf := rfl
@[simp] theorem touchOrder_children : (s.touchOrder t o id c).children = s.children := rfl

theorem raiseLastCursor_tree : (s.raiseLastCursor t c).record = s.record ∧
    (s.raiseLastCursor t c).typeOf = s.typeOf ∧ (s.raiseLastCursor t c).children = s.children := by
  unfold raiseLastCursor
  split <;> (try split) <;> exact ⟨rfl, rfl, rfl⟩

@[simp] theorem commitCursor_record {updated : Option TaiCursor} :
    (s.commitCursor t updated now).2.record = s.record := by
  cases updated <;> exact raiseLastCursor_tree.1

@[simp] theorem commitCursor_typeOf {updated : Option TaiCursor} :
    (s.commitCursor t updated now).2.typeOf = s.typeOf := by
  cases updated <;> exact raiseLastCursor_tree.2.1

@[simp] theorem commitCursor_children {updated : Option TaiCursor} :
    (s.commitCursor t updated now).2.children = s.children := by
  cases updated <;> exact raiseLastCursor_tree.2.2

@[simp] theorem popChildren_record : (s.popChildren p).record = s.record := rfl
@[simp] theorem popChildren_typeOf : (s.popChildren p).typeOf = s.typeOf := rfl

theorem mem_popChildren : x ∈ (s.popChildren id).children p ↔ x ∈ s.children p ∧ p ≠ id := by
  by_cases h : p = id <;> simp [popChildren, h]

@[simp] theorem reparent_record {pre new : Option String} :
    (s.reparent id pre new).record = s.record := by
  cases pre <;> cases new <;> rfl

@[simp] theorem reparent_typeOf {pre new : Option String} :
    (s.reparent id pre new).typeOf = s.typeOf := by
  cases pre <;> cases new <;> rfl

@[simp] theorem discardChild_record : (s.discardChild p x).record = s.record := rfl
@[simp] theorem discardChild_typeOf : (s.discardChild p x).typeOf = s.typeOf := rfl

theorem mem_addChild : x ∈ (s.addChild id id').children p ↔ x ∈ s.children p ∨ p = id ∧ x = id' := by
  by_cases h : p = id
  · subst h
    simp [addChild, List.mem_insert_iff, or_comm]
  · simp [addChild, h]

theorem mem_discardChild :
    x ∈ (s.discardChild id id').children p ↔ x ∈ s.children p ∧ ¬(p = id ∧ x = id') := by
  by_cases h : p = id
  · subst h
    simp [discardChild]
  · simp [discardChild, h]

theorem mem_reparent {pre new : Option String} : x ∈ (s.reparent id pre new).children p ↔
    x ∈ s.children p ∧ ¬(pre = some p ∧ x = id) ∨ new = some p ∧ x = id := by
  cases pre <;> cases new <;>
    simp [reparent, mem_addChild, mem_discardChild, eq_comm (a := p)]

-- A record is extant under a key.
theorem get_eq_some : s.get t id = some r ↔ s.record t id = some r ∧ r.extant = true := by
  simp [get, Option.filter_eq_some_iff]

-- Nothing extant has this parent.
def Childless (s : RegistryStore) (id : String) : Prop :=
  ∀ t x r, s.get t x = some r → r.parentId ≠ some id

-- The resource tree: an id names one record, parents are of the required type and extant as long as
-- a child is, and the child sets list what they should.
structure WellFormed (s : RegistryStore) : Prop where
  key    : ∀ t id r, s.record t id = some r → r.resourceType = t ∧ r.id = id
  typed  : ∀ t id, s.typeOf id = some t ↔ ∃ r, s.record t id = some r
  listed : ∀ t id r p, s.get t id = some r → r.parentId = some p → id ∈ s.children p
  owned  : ∀ id p, id ∈ s.children p → ∃ t r, s.record t id = some r ∧ r.parentId = some p
  shape  : ∀ t id r, s.record t id = some r → (r.parentId = none ↔ t.parentType = none)
  parent : ∀ t id r p pt, s.get t id = some r → r.parentId = some p → t.parentType = some pt →
    ∃ q, s.get pt p = some q
  nodup  : ∀ p, (s.children p).Nodup

-- A record is filed under its own type and id.
def Keyed (s : RegistryStore) : Prop :=
  ∀ t id r, s.record t id = some r → r.resourceType = t ∧ r.id = id

theorem mem_iterExtant (hk : s.Keyed) : r ∈ s.iterExtant t ↔ s.get t r.id = some r := by
  simp only [iterExtant, List.mem_filter, Dict.mem_values, get_eq_some]
  constructor
  · rintro ⟨⟨k, hr⟩, he⟩
    obtain ⟨_, rfl⟩ := hk t k r hr
    exact ⟨hr, he⟩
  · rintro ⟨hr, he⟩
    exact ⟨⟨r.id, hr⟩, he⟩

theorem nodup_iterExtant (hk : s.Keyed) : ((s.iterExtant t).map (·.id)).Nodup := by
  have hkeys : (s.byType t).values.map (·.id) = (s.byType t).keys := by
    simp only [Dict.values, Dict.keys, List.map_map]
    exact List.map_congr_left fun p hp => (hk _ _ _ (Dict.get?_eq_some.mpr hp)).2
  exact List.Nodup.sublist (List.filter_sublist.map _) (hkeys ▸ (s.byType t).nodup)

namespace WellFormed

theorem keyed (h : s.WellFormed) : s.Keyed :=
  h.key

theorem new {gc forget : Rat} : (new gc forget).WellFormed where
  key    := by simp [RegistryStore.new, record]
  typed  := by simp [RegistryStore.new, record]
  listed := by simp [RegistryStore.new, get, record]
  owned  := by simp [RegistryStore.new]
  shape  := by simp [RegistryStore.new, record]
  parent := by simp [RegistryStore.new, get, record]
  nodup  := by simp [RegistryStore.new]

-- Only the tree matters.
theorem congr (h : s.WellFormed) (hr : s'.record = s.record) (ht : s'.typeOf = s.typeOf)
    (hc : s'.children = s.children) : s'.WellFormed where
  key    := hr ▸ h.key
  typed  := hr ▸ ht ▸ h.typed
  listed := by simpa [get, hr, hc] using h.listed
  owned  := hr ▸ hc ▸ h.owned
  shape  := hr ▸ h.shape
  parent := by simpa [get, hr] using h.parent
  nodup  := hc ▸ h.nodup

theorem type_unique (h : s.WellFormed) (h₁ : s.record t id = some r) (h₂ : s.record t' id = some r') :
    t = t' := by
  have h₁ := (h.typed t id).mpr ⟨r, h₁⟩
  have h₂ := (h.typed t' id).mpr ⟨r', h₂⟩
  simpa [h₁] using h₂

theorem findAny_eq_some (h : s.WellFormed) : s.findAny id = some r ↔ s.get r.resourceType id = some r := by
  simp only [findAny, Option.bind_eq_some_iff]
  constructor
  · rintro ⟨t, _, hg⟩
    exact (h.key _ _ _ (get_eq_some.mp hg).1).1 ▸ hg
  · exact fun hg => ⟨_, (h.typed _ _).mpr ⟨r, (get_eq_some.mp hg).1⟩, hg⟩

theorem parent_of (h : s.WellFormed) (hg : s.get t id = some r) (hp : r.parentId = some p) :
    ∃ pt q, t.parentType = some pt ∧ s.get pt p = some q := by
  have hs := (h.shape _ _ _ (get_eq_some.mp hg).1).not.mp (by simp [hp])
  obtain ⟨pt, hpt⟩ := Option.ne_none_iff_exists'.mp hs
  have ⟨q, hq⟩ := h.parent _ _ _ _ _ hg hp hpt
  exact ⟨pt, q, hpt, hq⟩

-- An extant child of an extant resource sits one level below it.
theorem child_depth (h : s.WellFormed) (hr : s.get t id = some r) (hc : s.get t' id' = some r')
    (hp : r'.parentId = some id) : t'.depth = t.depth + 1 := by
  have ⟨pt, q, hpt, hq⟩ := h.parent_of hc hp
  have e := h.type_unique (get_eq_some.mp hr).1 (get_eq_some.mp hq).1
  exact e ▸ ResourceType.depth_parentType hpt

-- A tombstone is nobody's parent.
theorem childless_of_not_extant (h : s.WellFormed) (hr : s.record t id = some r)
    (he : r.extant = false) : s.Childless id := by
  intro t' x r' hg hp
  have ⟨pt, q, _, hq⟩ := h.parent_of hg hp
  obtain rfl := h.type_unique hr (get_eq_some.mp hq).1
  simp_all [get_eq_some]

end WellFormed

theorem mem_childIds : x ∈ s.childIds p ↔ x ∈ s.children p := by
  simp [childIds]

theorem get_retire {now : Int} (hr : r.resourceType = t ∧ r.id = id) : (s.retire r now).get t' id' =
    if t' = t ∧ id' = id then none else s.get t' id' := by
  obtain ⟨rfl, rfl⟩ := hr
  simp only [retire, get, record_setRecord]
  split <;> simp

theorem WellFormed.retire {now : Int} (h : s.WellFormed) (hr : s.get t id = some r)
    (hc : s.Childless id) : (s.retire r now).WellFormed := by
  have hr' := (get_eq_some.mp hr).1
  have hk := h.key _ _ _ hr'
  have hrec : ∀ t' id', (s.retire r now).record t' id' =
      if t' = t ∧ id' = id then some { r with extant := false, health := now }
      else s.record t' id' := by
    intro t' id'
    simp [RegistryStore.retire, hk]
  -- Retiring keeps every record's type, id and parent.
  have hsame : ∀ t' id' r', (s.retire r now).record t' id' = some r' → ∃ r₀,
      s.record t' id' = some r₀ ∧ r'.resourceType = r₀.resourceType ∧ r'.id = r₀.id ∧
      r'.parentId = r₀.parentId := by
    intro t' id' r' e
    rw [hrec] at e
    split at e
    case isTrue hi => exact ⟨r, by simp_all, by cases e; simp⟩
    case isFalse   => exact ⟨r', e, rfl, rfl, rfl⟩
  exact {
    key    := fun t' id' r' e => by
      have ⟨r₀, e₀, ht, hi, _⟩ := hsame _ _ _ e
      exact ht ▸ hi ▸ h.key _ _ _ e₀
    typed  := fun t' id' => by
      simp only [RegistryStore.retire, setRecord_typeOf, h.typed, record_setRecord, hk]
      split <;> simp_all
    listed := fun t' id' r' p' e hp => by
      rw [get_retire hk] at e
      split at e <;> simp_all
      exact h.listed _ _ _ _ e hp
    owned  := fun x p hx => by
      have ⟨t', r', e, hp⟩ := h.owned _ _ hx
      refine ⟨t', if t' = t ∧ x = id then { r with extant := false, health := now } else r', ?_, ?_⟩
      · rw [hrec]; split <;> simp_all
      · split <;> simp_all
    shape  := fun t' id' r' e => by
      have ⟨r₀, e₀, _, _, hp⟩ := hsame _ _ _ e
      exact hp ▸ h.shape _ _ _ e₀
    parent := fun t' id' r' p pt e hp hpt => by
      rw [get_retire hk] at e
      split at e
      case isTrue  => cases e
      case isFalse =>
        have hne : ¬(pt = t ∧ p = id) := fun hi => hc _ _ _ e (hi.2 ▸ hp)
        simpa [get_retire hk, hne] using h.parent _ _ _ _ _ e hp hpt
    nodup  := h.nodup }

-- What a cascade does, one resource at a time: each resource retired satisfies `P`, is extant and has
-- no extant child at that point, and its removal is the next event.
inductive Erasing (now : Int) (P : RegisteredResource → Prop) (s : RegistryStore) :
    List ResourceEvent → RegistryStore → Prop
  | refl : Erasing now P s [] s
  | retire {events : List ResourceEvent} {s₁ : RegistryStore} {r : RegisteredResource} :
    Erasing now P s events s₁ → P r → s₁.get r.resourceType r.id = some r → s₁.Childless r.id →
      Erasing now P s (events ++ [.removed r]) (s₁.retire r now)

-- The same tree with some resources retired.
structure Below (s₁ s : RegistryStore) : Prop where
  get      : ∀ t id r, s₁.get t id = some r → s.get t id = some r
  typeOf   : s₁.typeOf = s.typeOf
  children : s₁.children = s.children

namespace Erasing

variable {P Q : RegisteredResource → Prop} {now : Int} {ev ev₁ ev₂ : List ResourceEvent}
variable {s₁ s₂ : RegistryStore}

theorem trans (e₁ : Erasing now P s ev₁ s₁) (e₂ : Erasing now P s₁ ev₂ s₂) :
    Erasing now P s (ev₁ ++ ev₂) s₂ := by
  induction e₂ with
  | refl               => simpa using e₁
  | retire _ hp hg hc hi => simpa using hi.retire hp hg hc

theorem mono (e : Erasing now P s ev s₁) (h : ∀ r, P r → Q r) : Erasing now Q s ev s₁ := by
  induction e with
  | refl               => exact .refl
  | retire _ hp hg hc hi => exact hi.retire (h _ hp) hg hc

theorem wellFormed (e : Erasing now P s ev s₁) (h : s.WellFormed) : s₁.WellFormed := by
  induction e with
  | refl               => exact h
  | retire _ _ hg hc hi => exact hi.retire hg hc

theorem isBelow (e : Erasing now P s ev s₁) : s₁.Below s := by
  induction e with
  | refl => exact ⟨fun _ _ _ h => h, rfl, rfl⟩
  | retire _ _ hg hc hi =>
    refine ⟨fun t id r h => ?_, hi.typeOf, hi.children⟩
    rw [get_retire ⟨rfl, rfl⟩] at h
    split at h <;> simp_all
    exact hi.get _ _ _ h

-- Every record is what it was, or was extant and has been retired.
theorem record_cases (e : Erasing now P s ev s₁) (t : ResourceType) (id : String) :
    s₁.record t id = s.record t id ∨ ∃ r, s.get t id = some r ∧
      s₁.record t id = some { r with extant := false, health := now } := by
  induction e with
  | refl => exact .inl rfl
  | @retire _ s₁ q e _ hg _ hi =>
    simp only [RegistryStore.retire, record_setRecord]
    split
    case isTrue hk =>
      obtain ⟨rfl, rfl⟩ := hk
      exact .inr ⟨q, e.isBelow.get _ _ _ hg, rfl⟩
    case isFalse => exact hi

-- The records that are changed are among those that may be retired.
theorem frame (e : Erasing now P s ev s₁) (hn : ∀ q, P q → ¬(q.resourceType = t ∧ q.id = id)) :
    s₁.record t id = s.record t id := by
  induction e with
  | refl => rfl
  | @retire _ _ q _ hp _ _ hi =>
    rw [RegistryStore.retire, record_setRecord, if_neg fun hq => hn q hp ⟨hq.1.symm, hq.2.symm⟩]
    exact hi

theorem keeps (e : Erasing now P s ev s₁) (h : s.get t id = some r)
    (hn : ∀ q, P q → ¬(q.resourceType = t ∧ q.id = id)) : s₁.get t id = some r := by
  rwa [get, e.frame hn]

end Erasing

namespace Below

variable {s₁ s₂ : RegistryStore} {limit : Nat}

theorem refl : s.Below s :=
  ⟨fun _ _ _ h => h, rfl, rfl⟩

theorem trans (h₁ : s₂.Below s₁) (h₂ : s₁.Below s) : s₂.Below s :=
  ⟨fun _ _ _ h => h₂.get _ _ _ (h₁.get _ _ _ h), h₁.typeOf.trans h₂.typeOf,
    h₁.children.trans h₂.children⟩

theorem findAny (h : s₁.Below s) (hf : s₁.findAny id = some r) : s.findAny id = some r := by
  simp only [RegistryStore.findAny, Option.bind_eq_some_iff, h.typeOf] at hf ⊢
  exact hf.imp fun _ ⟨ht, hg⟩ => ⟨ht, h.get _ _ _ hg⟩

theorem subtreeOf (h : s₁.Below s) : ∀ q ∈ s₁.subtreeOf limit r, q ∈ s.subtreeOf limit r := by
  induction limit generalizing r with
  | zero => simp [RegistryStore.subtreeOf]
  | succ limit hi =>
    simp only [RegistryStore.subtreeOf, childIds, h.children, List.mem_append, List.mem_flatMap]
    rintro q (⟨c, hc, hq⟩ | hq)
    · cases hf : s₁.findAny c with
      | none       => simp [hf] at hq
      | some child => exact .inl ⟨c, hc, by simpa [h.findAny hf] using hi q (by simpa [hf] using hq)⟩
    · exact .inr hq

end Below

-- A listed id that is extant is a child.
theorem WellFormed.child_of_listed (h : s.WellFormed) (hx : x ∈ s.children p) (hf : s.findAny x = some r') :
    s.get r'.resourceType r'.id = some r' ∧ r'.id = x ∧ r'.parentId = some p := by
  have hg := h.findAny_eq_some.mp hf
  have hk := (h.key _ _ _ (get_eq_some.mp hg).1).2
  have ⟨t', q, hq, hp⟩ := h.owned _ _ hx
  have ht := h.type_unique hq (get_eq_some.mp hg).1
  subst ht
  have e : q = r' := Option.some.inj (hq.symm.trans (get_eq_some.mp hg).1)
  exact ⟨hk ▸ hg, hk, e ▸ hp⟩

-- The subtree holds extant resources, none above its root.
theorem WellFormed.of_mem_subtreeOf {limit : Nat} (h : s.WellFormed)
    (hr : s.get r.resourceType r.id = some r) (hq : r' ∈ s.subtreeOf limit r) :
    s.get r'.resourceType r'.id = some r' ∧ r.resourceType.depth ≤ r'.resourceType.depth := by
  induction limit generalizing r with
  | zero => simp [subtreeOf] at hq
  | succ limit hi =>
    simp only [subtreeOf, List.mem_append, List.mem_flatMap, List.mem_singleton] at hq
    obtain ⟨c, hc, hq⟩ | rfl := hq
    · cases hf : s.findAny c with
      | none => simp [hf] at hq
      | some child =>
        have ⟨hg, _, hp⟩ := h.child_of_listed (mem_childIds.mp hc) hf
        have hd := h.child_depth hr hg hp
        have ⟨h₁, h₂⟩ := hi hg (by simpa [hf] using hq)
        exact ⟨h₁, by omega⟩
    · exact ⟨hr, le_refl _⟩

-- A resource is not in the subtree of one of its children.
theorem WellFormed.not_mem_child_subtree {limit : Nat} (h : s.WellFormed)
    (hr : s.get r.resourceType r.id = some r) (hx : x ∈ s.children r.id)
    (hq : r' ∈ (s.findAny x).elim [] (s.subtreeOf limit)) :
    ¬(r'.resourceType = r.resourceType ∧ r'.id = r.id) := by
  intro hk
  cases hf : s.findAny x with
  | none => simp [hf] at hq
  | some c =>
    have ⟨hg, _, hp⟩ := h.child_of_listed hx hf
    have hd := h.child_depth hr hg hp
    rw [hf, Option.elim_some] at hq
    have hle := (h.of_mem_subtreeOf hg hq).2
    rw [hk.1] at hle
    omega

-- The loop over children, given that erasing a child is a cascade over its subtree.
theorem eraseChildren_erasing {s₁ : RegistryStore} (now : Int) (limit : Nat) (ids : List String)
    (h : s₁.WellFormed) (hr : s₁.get r.resourceType r.id = some r)
    (hids : ∀ x ∈ ids, x ∈ s₁.children r.id)
    (hi : ∀ c s₂, s₂.WellFormed → s₂.get c.resourceType c.id = some c →
      c.resourceType.depth = r.resourceType.depth + 1 →
      let (ev, s₃) := eraseSubtree now limit c s₂
      Erasing now (· ∈ s₂.subtreeOf limit c) s₂ ev s₃ ∧ s₃.get c.resourceType c.id = none) :
    let (ev, s₂) := ids.foldl (eraseChild <| eraseSubtree now limit) ([], s₁)
    Erasing now (fun q => ∃ x ∈ ids, q ∈ (s₁.findAny x).elim [] (s₁.subtreeOf limit)) s₁ ev s₂ ∧
      ∀ x ∈ ids, s₂.findAny x = none := by
  induction ids using List.reverseRecOn with
  | nil => exact ⟨.refl, by simp⟩
  | append_singleton ids x hl =>
    rw [List.foldl_append]
    obtain ⟨ev, s₂, e⟩ : ∃ ev s₂, ids.foldl (eraseChild <| eraseSubtree now limit) ([], s₁) =
      (ev, s₂) := ⟨_, _, rfl⟩
    have ⟨he, hn⟩ := hl fun y hy => hids y (by simp [hy])
    simp only [e] at he hn
    have hw := he.wellFormed h
    have hr₂ : s₂.get r.resourceType r.id = some r := he.keeps hr fun q ⟨y, hy, hq⟩ hk =>
      h.not_mem_child_subtree hr (hids y (by simp [hy])) hq hk
    cases hf : s₂.findAny x with
    | none =>
      simp only [e, List.foldl_cons, List.foldl_nil, eraseChild, hf]
      refine ⟨he.mono fun q ⟨y, hy, hq⟩ => ⟨y, by simp [hy], hq⟩, ?_⟩
      simpa [or_imp, forall_and, hf] using hn
    | some c =>
      have hx : x ∈ s₂.children r.id := he.isBelow.children ▸ hids x (by simp)
      have ⟨hg, hid, hp⟩ := hw.child_of_listed hx hf
      have hd := hw.child_depth hr₂ hg hp
      have ⟨hc, hgone⟩ := hi c s₂ hw hg hd
      obtain ⟨ev', s₃, e'⟩ : ∃ ev' s₃, eraseSubtree now limit c s₂ = (ev', s₃) := ⟨_, _, rfl⟩
      simp only [e, List.foldl_cons, List.foldl_nil, eraseChild, hf, e'] at hc hgone ⊢
      refine ⟨(he.mono fun q ⟨y, hy, hq⟩ => ⟨y, by simp [hy], hq⟩).trans <| hc.mono fun q hq => ?_, ?_⟩
      · exact ⟨x, by simp, by simpa [he.isBelow.findAny hf] using he.isBelow.subtreeOf q hq⟩
      · intro y hy
        by_contra hne
        obtain ⟨c', hc'⟩ := Option.ne_none_iff_exists'.mp hne
        have hb := hc.isBelow.findAny hc'
        simp only [List.mem_append, List.mem_singleton] at hy
        obtain hy | rfl := hy
        · simp [hn y hy] at hb
        · have hcc : c = c' := by simpa [hf] using hb
          subst hcc
          have := (hc.wellFormed hw).findAny_eq_some.mp hc'
          simp [← hid, hgone] at this

-- Erasing a subtree retires resources of the subtree only, one by one and children first, and its
-- root in the end.
theorem eraseSubtree_erasing (now : Int) (limit : Nat) (h : s.WellFormed)
    (hr : s.get r.resourceType r.id = some r) (hl : 2 < limit + r.resourceType.depth) :
    let (ev, s₁) := eraseSubtree now limit r s
    Erasing now (· ∈ s.subtreeOf limit r) s ev s₁ ∧ s₁.get r.resourceType r.id = none := by
  induction limit generalizing r s with
  | zero =>
    have := r.resourceType.depth_le
    omega
  | succ limit hi =>
    have := eraseChildren_erasing now limit (s.childIds r.id) h hr
      (fun x => mem_childIds.mp) fun c s₂ hw hg hd => hi hw hg (by omega)
    obtain ⟨ev, s₁, e⟩ : ∃ ev s₁,
      (s.childIds r.id).foldl (eraseChild <| eraseSubtree now limit) ([], s) = (ev, s₁) :=
      ⟨_, _, rfl⟩
    simp only [e, eraseSubtree] at this ⊢
    obtain ⟨he, hn⟩ := this
    have hw := he.wellFormed h
    have hr₁ : s₁.get r.resourceType r.id = some r := he.keeps hr fun q ⟨y, hy, hq⟩ hk =>
      h.not_mem_child_subtree hr (mem_childIds.mp hy) hq hk
    have hc : s₁.Childless r.id := fun t x q hq hp => by
      have hx := he.isBelow.children ▸ hw.listed _ _ _ _ hq hp
      have hk := hw.key _ _ _ (get_eq_some.mp hq).1
      have hf := hw.findAny_eq_some.mpr (hk.1.symm ▸ hq)
      simp [hn x (mem_childIds.mpr hx)] at hf
    refine ⟨.retire (he.mono fun q ⟨y, hy, hq⟩ => ?_) ?_ hr₁ hc, ?_⟩
    · simp only [subtreeOf, List.mem_append, List.mem_flatMap]
      exact .inl ⟨y, hy, hq⟩
    · simp [subtreeOf]
    · simp [get_retire ⟨rfl, rfl⟩]

end Registry.RegistryStore
