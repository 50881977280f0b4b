import NmosReference.Registry.StoreForget

namespace Registry

def ResourceEvent.key (e : ResourceEvent) : ResourceType × String :=
  (e.resourceType, e.resourceId)

namespace RegistryStore

variable {s s₁ s₂ : RegistryStore} {t t' : ResourceType} {id x y p : String} {r q : RegisteredResource}
variable {now : Int} {ev : List ResourceEvent} {P : RegisteredResource → Prop}

-- An extant resource is the root or hangs below it.
inductive Under (s : RegistryStore) (root : String) : ResourceType → String → Prop
  | self {t : ResourceType} {r : RegisteredResource} : s.get t root = some r → Under s root t root
  | child {t pt : ResourceType} {x p : String} {r : RegisteredResource} :
    s.get t x = some r → r.parentId = some p → Under s root pt p → Under s root t x

namespace Under

theorem get (h : s.Under x t y) : ∃ r, s.get t y = some r := by
  cases h with
  | self h      => exact ⟨_, h⟩
  | child h _ _ => exact ⟨_, h⟩

theorem trans (hw : s.WellFormed) (h₁ : s.Under x t y) (h₂ : s.Under y t' p) : s.Under x t' p := by
  induction h₂ with
  | self h =>
    have ⟨_, h'⟩ := h₁.get
    exact hw.type_unique (get_eq_some.mp h').1 (get_eq_some.mp h).1 ▸ h₁
  | child h hp _ hi => exact .child h hp hi

-- Whether a resource hangs below another is read off the extant records and their parents.
theorem of_get {s' : RegistryStore} (hs : ∀ t x r, s.get t x = some r →
    ∃ r', s'.get t x = some r' ∧ r'.parentId = r.parentId) (h : s.Under x t y) : s'.Under x t y := by
  induction h with
  | self h =>
    have ⟨_, h', _⟩ := hs _ _ _ h
    exact .self h'
  | child h hp _ hi =>
    have ⟨_, h', hp'⟩ := hs _ _ _ h
    exact .child h' (hp' ▸ hp) hi

-- A resource hangs below one Node only.
theorem node_unique {n : String} {rx rn : RegisteredResource} (hw : s.WellFormed)
    (hx : s.get .node x = some rx) (hn : s.get .node n = some rn) (h₁ : s.Under x t y)
    (h₂ : s.Under n t' y) : x = n := by
  -- A Node is not a child.
  have hroot : ∀ {t : ResourceType} {id p : String} {r r' : RegisteredResource},
      s.get .node id = some r → s.get t id = some r' → r'.parentId ≠ some p := by
    intro t id p r r' h h' hp
    have ht := hw.type_unique (get_eq_some.mp h).1 (get_eq_some.mp h').1
    have ⟨_, _, hpt, _⟩ := hw.parent_of h' hp
    simp [← ht, ResourceType.parentType] at hpt
  induction h₁ generalizing t' with
  | self h =>
    cases h₂ with
    | self _       => rfl
    | child h hp _ => exact absurd hp (hroot hx h)
  | child h hp _ hi =>
    cases h₂ with
    | self _          => exact absurd hp (hroot hn h)
    | child h' hp' hu =>
      have ht := hw.type_unique (get_eq_some.mp h).1 (get_eq_some.mp h').1
      subst ht
      have hr := Option.some.inj (h.symm.trans h')
      have hpp := Option.some.inj ((hr ▸ hp).symm.trans hp')
      exact hi (hpp ▸ hu)

end Under

-- The subtree lists only what hangs below its root.
theorem WellFormed.under_of_mem_subtreeOf {limit : Nat} (h : s.WellFormed)
    (hr : s.get r.resourceType r.id = some r) (hq : q ∈ s.subtreeOf limit r) :
    s.Under r.id q.resourceType q.id := by
  induction limit generalizing r with
  | zero => simp [subtreeOf] at hq
  | succ limit hi =>
    simp only [subtreeOf, List.mem_append, List.mem_flatMap, List.mem_singleton] at hq
    obtain ⟨c, hc, hq⟩ | rfl := hq
    · cases hf : s.findAny c with
      | none => simp [hf] at hq
      | some child =>
        obtain ⟨hg, hid, hp⟩ := h.child_of_listed (mem_childIds.mp hc) hf
        rw [hf, Option.elim_some] at hq
        have hc : s.Under r.id child.resourceType child.id := .child hg hp (.self hr)
        exact hc.trans h (hi hg hq)
    · exact .self hr

theorem WellFormed.of_mem_subtree (h : s.WellFormed) (hq : q ∈ s.subtree t id) :
    s.get q.resourceType q.id = some q := by
  cases hg : s.get t id with
  | none   => simp [subtree, hg] at hq
  | some r =>
    obtain ⟨rfl, rfl⟩ := h.key _ _ _ (get_eq_some.mp hg).1
    exact (h.of_mem_subtreeOf hg (by simpa [subtree, hg] using hq)).1

-- Everything that a delete can do: an absent resource is left absent, and an extant one is erased with
-- all that hangs below it.
theorem delete_spec (t : ResourceType) (id : String) (now : Int) (hw : s.WellFormed) :
    (s.get t id = none ∧ s.delete t id now = (none, s)) ∨
    ∃ r ev s₁, s.get t id = some r ∧ s.delete t id now = (some ev, s₁) ∧
      Erasing now (· ∈ s.subtree t id) s ev s₁ ∧ s₁.get t id = none := by
  cases hg : s.get t id with
  | none   => exact .inl ⟨rfl, by simp [delete, hg]⟩
  | some r =>
    obtain ⟨rfl, rfl⟩ := hw.key _ _ _ (get_eq_some.mp hg).1
    obtain ⟨ev, s₁, e⟩ : ∃ ev s₁, eraseSubtree now RECURSION_LIMIT r s = (ev, s₁) := ⟨_, _, rfl⟩
    have h := eraseSubtree_erasing now RECURSION_LIMIT hw hg
      (by simp only [RECURSION_LIMIT]; omega)
    rw [e] at h
    exact .inr ⟨r, ev, s₁, rfl, by simp [delete, hg, e], by simpa [subtree, hg] using h.1, h.2⟩

namespace Erasing

theorem get_iff (hw : s.WellFormed) (e : Erasing now (· ∈ s.subtree t id) s ev s₁)
    (hg : s.get t id = some r) (hn : s₁.get t id = none) :
    s₁.get t' x = some q ↔ s.get t' x = some q ∧ ¬s.Under id t' x := by
  have hk := hw.key _ _ _ (get_eq_some.mp hg).1
  constructor
  · intro hq
    refine ⟨e.isBelow.get _ _ _ hq, fun hu => ?_⟩
    -- Each extant resource has an extant parent, up to the root, which is gone.
    have hw₁ := e.wellFormed hw
    induction hu generalizing q with
    | self h =>
      have := hw.type_unique (get_eq_some.mp h).1 (get_eq_some.mp hg).1
      simp_all
    | @child t' pt x p r' h hp hu hi =>
      have hqr : q = r' := Option.some.inj ((e.isBelow.get _ _ _ hq).symm.trans h)
      have ⟨pt', q', _, hq'⟩ := hw₁.parent_of hq (hqr ▸ hp)
      have ⟨_, hpt⟩ := hu.get
      have := hw.type_unique (get_eq_some.mp hpt).1 (get_eq_some.mp (e.isBelow.get _ _ _ hq')).1
      exact hi (this ▸ hq')
  · rintro ⟨hq, hu⟩
    refine e.keeps hq fun r' hr' hk' => hu ?_
    simp only [subtree, hg, Option.elim_some] at hr'
    have := hw.under_of_mem_subtreeOf (hk.1.symm ▸ hk.2.symm ▸ hg) hr'
    rw [hk.2] at this
    exact hk'.1 ▸ hk'.2 ▸ this

-- There is one removal event for each resource that ceased to be extant.
theorem mem_keys (e : Erasing now P s ev s₁) {k : ResourceType × String} :
    k ∈ ev.map ResourceEvent.key ↔ (∃ r, s.get k.1 k.2 = some r) ∧ s₁.get k.1 k.2 = none := by
  induction e with
  | refl =>
    simp only [List.map_nil, List.not_mem_nil, false_iff]
    rintro ⟨⟨r, hr⟩, hn⟩
    simp [hr] at hn
  | @retire ev s₁ q e _ hg _ hi =>
    simp only [List.map_append, List.map_cons, List.map_nil, List.mem_append, List.mem_singleton, hi,
      get_retire ⟨rfl, rfl⟩, ResourceEvent.key, ResourceEvent.removed]
    by_cases hk : k.1 = q.resourceType ∧ k.2 = q.id
    · obtain ⟨h₁, h₂⟩ := hk
      simp [Prod.ext_iff, h₁, h₂, e.isBelow.get _ _ _ hg]
    · simp [Prod.ext_iff, hk]

theorem nodup_keys (e : Erasing now P s ev s₁) : (ev.map ResourceEvent.key).Nodup := by
  induction e with
  | refl => simp
  | @retire ev s₁ q e _ hg _ hi =>
    rw [List.map_append, List.nodup_append]
    refine ⟨hi, by simp, fun k hk _ hq hkq => ?_⟩
    have hn := (e.mem_keys.mp hk).2
    simp only [List.map_cons, List.map_nil, List.mem_singleton] at hq
    subst hkq hq
    simp [ResourceEvent.key, ResourceEvent.removed, hg] at hn

end Erasing
end RegistryStore
end Registry
