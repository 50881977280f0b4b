import NmosReference.Registry.StoreRegister

namespace Registry.RegistryStore

variable {s : RegistryStore} {t t' : ResourceType} {id x q : String} {r : RegisteredResource}

-- The effect of dropping a record on the resource tree.
structure Dropped (s s' : RegistryStore) (r : RegisteredResource) : Prop where
  record   : ∀ t x, s'.record t x =
    if t = r.resourceType ∧ x = r.id then none else s.record t x
  typeOf   : ∀ x, s'.typeOf x = if x = r.id then none else s.typeOf x
  children : ∀ x q, x ∈ s'.children q ↔ x ∈ s.children q ∧ q ≠ r.id ∧ ¬(r.parentId = some q ∧ x = r.id)
  nodup    : ∀ q, (s'.children q).Nodup

theorem dropRecord_dropped (hw : s.WellFormed) (hr : s.record t id = some r) :
    s.Dropped (s.dropRecord r) r := by
  obtain ⟨rfl, rfl⟩ := hw.key _ _ _ hr
  have ht := (hw.typed _ _).mpr ⟨r, hr⟩
  have hm : ∀ x q, x ∈ (((((s.eraseRecord r.resourceType r.id).dropFromOrder r.resourceType
      r.id).setType r.id none).popChildren r.id).children q) ↔ x ∈ s.children q ∧ q ≠ r.id := by
    simp [mem_popChildren]
  have hn : ∀ q, (((((s.eraseRecord r.resourceType r.id).dropFromOrder r.resourceType r.id).setType
      r.id none).popChildren r.id).children q).Nodup := nodup_popChildren hw.nodup
  unfold dropRecord
  simp only [dropFromOrder_typeOf, eraseRecord_typeOf, ht, ↓reduceIte]
  cases hp : r.parentId with
  | none   => exact ⟨by simp, by simp, by simp [hm, hp], hn⟩
  | some p =>
    refine ⟨by simp, by simp, fun x q => ?_, nodup_discardChild hn⟩
    simp only [Option.elim_some, mem_discardChild, hm, hp, Option.some.injEq, and_assoc, ne_eq,
      eq_comm (a := q) (b := p)]

-- Dropping a tombstone changes nothing that is extant.
theorem Dropped.get {s' : RegistryStore} (h : s.Dropped s' r)
    (hr : s.record r.resourceType r.id = some r) (he : r.extant = false) : s'.get = s.get := by
  funext t x
  simp only [RegistryStore.get, h.record]
  split
  case isTrue hk => simp [hk, hr, he, Option.filter]
  case isFalse   => rfl

-- Dropping a tombstone keeps the tree well formed.
theorem Dropped.wellFormed {s' : RegistryStore} (h : s.Dropped s' r) (hw : s.WellFormed)
    (hr : s.record r.resourceType r.id = some r) (he : r.extant = false) : s'.WellFormed := by
  have honly : ∀ t r', s.record t r.id = some r' → t = r.resourceType := fun t r' hr' =>
    hw.type_unique hr' hr
  have hget := h.get hr he
  have hchildless := hw.childless_of_not_extant hr he
  exact {
    key := fun t x r' e => by
      rw [h.record] at e
      split at e
      · cases e
      · exact hw.key _ _ _ e
    typed := fun t x => by
      rw [h.typeOf, h.record]
      by_cases hx : x = r.id
      · subst hx
        by_cases ht : t = r.resourceType
        · simp [ht]
        · simpa [ht] using fun r' hr' => ht (honly t r' hr')
      · simp [hx, hw.typed]
    listed := fun t x r' q e hq => by
      rw [hget] at e
      refine (h.children x q).mpr ⟨hw.listed _ _ _ _ e hq, fun hqr => ?_, fun ⟨_, hx⟩ => ?_⟩
      · exact hchildless _ _ _ e (hqr ▸ hq)
      · subst hx
        obtain rfl := honly _ _ (get_eq_some.mp e).1
        simp_all [get_eq_some]
    owned := fun x q hx => by
      have ⟨hx, hq, hn⟩ := (h.children x q).mp hx
      have ⟨t, r', hr', hp⟩ := hw.owned _ _ hx
      refine ⟨t, r', ?_, hp⟩
      rw [h.record, if_neg]
      · exact hr'
      · rintro ⟨rfl, rfl⟩
        simp_all
    shape := fun t x r' e => by
      rw [h.record] at e
      split at e
      · cases e
      · exact hw.shape _ _ _ e
    parent := fun t x r' q pt e hq hpt => by
      rw [hget] at e ⊢
      exact hw.parent _ _ _ _ _ e hq hpt
    nodup := h.nodup }

-- Forgetting drops the record exactly if it is a tombstone.
theorem forget_spec (t : ResourceType) (id : String) (hw : s.WellFormed) :
    (s.forget t id).2.WellFormed ∧ (s.forget t id).2.get = s.get ∧
    (∀ t' x, (s.forget t id).2.record t' x =
      if t' = t ∧ x = id ∧ (s.forget t id).1 = true then none else s.record t' x) ∧
    ((s.forget t id).1 = true ↔ ∃ r, s.record t id = some r ∧ r.extant = false) := by
  unfold forget
  split
  case h_1 r hr =>
    obtain ⟨hr, he⟩ := Option.filter_eq_some_iff.mp hr
    have he : r.extant = false := by simpa using he
    obtain ⟨rfl, rfl⟩ := hw.key _ _ _ hr
    have hd := dropRecord_dropped hw hr
    exact ⟨hd.wellFormed hw hr he, hd.get hr he, by simpa using hd.record, by simpa using ⟨r, hr, he⟩⟩
  case h_2 hn =>
    refine ⟨hw, rfl, by simp, ?_⟩
    simpa [Option.filter_eq_none_iff] using hn

end Registry.RegistryStore
