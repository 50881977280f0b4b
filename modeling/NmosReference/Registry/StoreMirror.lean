import NmosReference.Registry.StoreSound

namespace Registry

-- A record with its liveness left out: what members have to agree on.
def view (r : RegisteredResource) : RegisteredResource :=
  { r with health := 0 }

namespace RegistryStore

variable {s s' : RegistryStore} {t t' : ResourceType} {x : String} {r r' : RegisteredResource}

theorem WellFormed.extant_typeOf (hw : s.WellFormed) {p : String} {a : ResourceType} :
    (s.typeOf p).filter (fun a => (s.get a p).isSome) = some a ↔ (s.get a p).isSome := by
  rw [Option.filter_eq_some_iff]
  refine ⟨And.right, fun hx => ⟨?_, hx⟩⟩
  obtain ⟨r, hr⟩ := Option.isSome_iff_exists.mp hx
  exact (hw.typed _ _).mpr ⟨r, (get_eq_some.mp hr).1⟩

theorem isNone_or_reviving : ((s.record t x).isNone || (s.record t x).any (!·.extant)) =
    (s.get t x).isNone := by
  rw [RegistryStore.get]
  cases hr : s.record t x with
  | none   => rfl
  | some r => cases he : r.extant <;> simp [Option.filter, he]

-- The second store shows the same extant resources as the first, and holds no tombstone that the first
-- does not hold.
structure Mirrors [Python] (s s' : RegistryStore) : Prop where
  sound  : s.Sound
  sound' : s'.Sound
  get    : ∀ t x, (s'.get t x).map view = (s.get t x).map view
  within : ∀ t x, (s'.record t x).isSome → (s.record t x).isSome

namespace Mirrors

variable [Python] {raw : Python.Json}

theorem refl (h : s.Sound) : s.Mirrors s :=
  ⟨h, h, fun _ _ => rfl, fun _ _ => id⟩

theorem isSome (h : s.Mirrors s') : (s'.get t x).isSome = (s.get t x).isSome := by
  simpa using congrArg Option.isSome (h.get t x)

theorem get_some (h : s.Mirrors s') (hr : s.get t x = some r) :
    ∃ r', s'.get t x = some r' ∧ view r' = view r := by
  have := h.get t x
  rw [hr, Option.map_some, Option.map_eq_some_iff] at this
  exact this

theorem get_some' (h : s.Mirrors s') (hr : s'.get t x = some r') :
    ∃ r, s.get t x = some r ∧ view r = view r' := by
  have := (h.get t x).symm
  rw [hr, Option.map_some, Option.map_eq_some_iff] at this
  exact this

theorem typeOf (h : s.Mirrors s') (ht : s'.typeOf x = some t) : s.typeOf x = some t := by
  have ⟨r, hr⟩ := (h.sound'.wellFormed.typed _ _).mp ht
  obtain ⟨r', hr'⟩ := Option.isSome_iff_exists.mp <| h.within t x (by simp [hr])
  exact (h.sound.wellFormed.typed _ _).mpr ⟨r', hr'⟩

theorem under (h : s.Mirrors s') {y : String} : s'.Under x t y ↔ s.Under x t y := by
  refine ⟨Under.of_get fun t x r hr => ?_, Under.of_get fun t x r hr => ?_⟩
  · have ⟨r', hr', hv⟩ := h.get_some' hr
    exact ⟨r', hr', congrArg (·.parentId) hv⟩
  · have ⟨r', hr', hv⟩ := h.get_some hr
    exact ⟨r', hr', congrArg (·.parentId) hv⟩

theorem checkParent (h : s.Mirrors s') (parentId : Option String) :
    s'.checkParent t parentId = s.checkParent t parentId := by
  have e : ∀ p, (s'.typeOf p).filter (fun a => (s'.get a p).isSome) =
      (s.typeOf p).filter fun a => (s.get a p).isSome := fun p =>
    Option.ext fun a => by
      rw [h.sound'.wellFormed.extant_typeOf, h.sound.wellFormed.extant_typeOf, h.isSome]
  cases t <;> cases parentId <;>
    simp only [RegistryStore.checkParent, ResourceType.parentType, ResourceType.parentKey, e]

theorem checkUpdate (h : s.Mirrors s') (version : String) (parentId : Option String) :
    (s'.get t x).bind (RegistryStore.checkUpdate · version parentId) =
      (s.get t x).bind (RegistryStore.checkUpdate · version parentId) := by
  have e : ∀ o : Option RegisteredResource, o.bind (RegistryStore.checkUpdate · version parentId) =
      (o.map view).bind (RegistryStore.checkUpdate · version parentId) := by
    rintro (_ | r) <;> rfl
  rw [e, h.get, ← e]

-- What `prepare` answers does not depend on whether the id is revived or new.
def answer : Except RegistrationResult PreparedRegistration →
    Except RegistrationResult PreparedRegistration :=
  Except.map fun p => { p with reviving := false }

-- The id that is being registered is not the id of a tombstone of another type that only the first
-- store holds.
def NoClash (s s' : RegistryStore) (t : ResourceType) (raw : Python.Json) : Prop :=
  ∀ x t', Python.getStr raw "id" = some x → s.typeOf x = some t' → t' ≠ t → s'.typeOf x = some t'

instance : Decidable (NoClash s s' t raw) :=
  decidable_of_iff (∀ x ∈ Python.getStr raw "id", ∀ t' ∈ s.typeOf x, t' ≠ t → s'.typeOf x = some t')
    ⟨fun h x t' hx ht => h x hx t' ht, fun h x hx t' ht => h x t' hx ht⟩

theorem prepare (h : s.Mirrors s') (hn : NoClash s s' t raw) :
    answer (s'.prepare t raw) = answer (s.prepare t raw) := by
  unfold RegistryStore.prepare
  cases hid : (Python.getStr raw "id").filter (· ≠ "") with
  | none    => rfl
  | some id =>
    cases hv : Python.getStr raw "version" with
    | none         => rfl
    | some version =>
      have hid : Python.getStr raw "id" = some id := (Option.filter_eq_some_iff.mp hid).1
      have e : (s'.typeOf id).filter (· ≠ t) = (s.typeOf id).filter (· ≠ t) := by
        refine Option.ext fun t' => ?_
        simp only [Option.filter_eq_some_iff, decide_eq_true_eq]
        exact ⟨fun ⟨h₁, h₂⟩ => ⟨h.typeOf h₁, h₂⟩, fun ⟨h₁, h₂⟩ => ⟨hn id t' hid h₁ h₂, h₂⟩⟩
      simp only [e]
      split
      · rfl
      · simp only [prepareTyped, h.checkParent, h.checkUpdate]
        split
        · rfl
        · split
          · rfl
          · simp only [answer, Except.map, isNone_or_reviving]
            rw [← Option.not_isSome, ← Option.not_isSome, h.isSome]

-- What a registration accepted by both stores does to them: the same result, and they go on showing
-- the same.
theorem applyCommitted {p p' : PreparedRegistration} (body : Body) (created updated : TaiCursor)
    (health : Int) (now now' : TaiCursor) (h : s.Mirrors s') (ha : s.Accepts t body.data p)
    (ha' : s'.Accepts t body.data p') (hp : answer (.ok p') = answer (.ok p)) :
    (s'.applyCommitted p' body created updated health now').1 =
        (s.applyCommitted p body created updated health now).1 ∧
      (s.applyCommitted p body created updated health now).2.Mirrors
        (s'.applyCommitted p' body created updated health now').2 := by
  have hp : { p' with reviving := false } = { p with reviving := false } := Except.ok.inj hp
  obtain ⟨ht, hi, hv, hpar, hc, _⟩ := PreparedRegistration.mk.inj hp
  have hw := h.sound.wellFormed
  have hw' := h.sound'.wellFormed
  have ⟨hr, e⟩ := applyCommitted_registered body (some created) (some updated) (some health) now hw
    ha rfl
  have ⟨hr', e'⟩ := applyCommitted_registered body (some created) (some updated) (some health) now'
    hw' ha' rfl
  have hcur : ∀ (s : RegistryStore) t now, (s.commitCursor t (some updated) now).1 = updated :=
    fun _ _ _ => rfl
  simp only [hcur, Option.getD_some] at hr e hr' e'
  have hcom : s'.committed p' body created updated health =
      s.committed p body created updated health := by
    have := congrArg (Option.map (·.created)) (h.get p.resourceType p.resourceId)
    simp only [Option.map_map, Function.comp_def, view] at this
    simp [committed, ht, hi, hv, hpar, this]
  have hev : ∀ q, s'.commitEvent p' q = s.commitEvent p q := by
    intro q
    have := congrArg (Option.map (·.body)) (h.get p.resourceType p.resourceId)
    simp only [Option.map_map, Function.comp_def, view] at this
    simp only [commitEvent, ht, hi]
    cases hg : s.get p.resourceType p.resourceId <;>
      cases hg' : s'.get p.resourceType p.resourceId <;> simp_all
  refine ⟨by rw [e, e', hcom, hev, hc], h.sound.applyCommitted ha, h.sound'.applyCommitted ha', ?_, ?_⟩
  · intro t x
    simp only [RegistryStore.get, hr.record, hr'.record, ht, hi, hcom]
    split
    · rfl
    · exact h.get t x
  · intro t x
    simp only [hr.record, hr'.record, ht, hi]
    split
    · simp
    · exact h.within t x

-- A cascade erases the same resources of both.
theorem delete (t : ResourceType) (x : String) (now now' : Int) (h : s.Mirrors s') :
    (s'.delete t x now').1.map (·.length) = (s.delete t x now).1.map (·.length) ∧
      (s.delete t x now).2.Mirrors (s'.delete t x now').2 := by
  have hw := h.sound.wellFormed
  have hw' := h.sound'.wellFormed
  obtain ⟨hg, e⟩ | ⟨r, ev, s₁, hg, e, he, hn⟩ := delete_spec t x now hw <;>
    obtain ⟨hg', e'⟩ | ⟨r', ev', s₁', hg', e', he', hn'⟩ :=
      delete_spec t x now' hw'
  · rw [e, e']; exact ⟨rfl, h⟩
  · have := h.isSome (t := t) (x := x); simp [hg, hg'] at this
  · have := h.isSome (t := t) (x := x); simp [hg, hg'] at this
  · rw [e, e']
    have hview : ∀ t x, (s₁'.get t x).map view = (s₁.get t x).map view := fun t' y => by
      refine Option.ext fun q => ?_
      simp only [Option.map_eq_some_iff, he.get_iff hw hg hn, he'.get_iff hw' hg' hn', h.under]
      constructor
      · rintro ⟨q, ⟨hq, hu⟩, rfl⟩
        have ⟨q', hq', hv⟩ := h.get_some' hq
        exact ⟨q', ⟨hq', hu⟩, hv⟩
      · rintro ⟨q, ⟨hq, hu⟩, rfl⟩
        have ⟨q', hq', hv⟩ := h.get_some hq
        exact ⟨q', ⟨hq', hu⟩, hv⟩
    refine ⟨?_, h.sound.erasing he, h.sound'.erasing he', hview, fun t' y hy => ?_⟩
    · -- One event for each resource erased.
      have hp : (ev'.map ResourceEvent.key).Perm (ev.map ResourceEvent.key) := by
        refine (List.perm_ext_iff_of_nodup he'.nodup_keys he.nodup_keys).mpr fun k => ?_
        rw [he.mem_keys, he'.mem_keys, ← Option.isSome_iff_exists, ← Option.isSome_iff_exists, h.isSome]
        have := congrArg Option.isNone (hview k.1 k.2)
        simp only [Option.isNone_map] at this
        rw [← Option.isNone_iff_eq_none, ← Option.isNone_iff_eq_none, this]
      simpa using hp.length_eq
    · have hsome : (s'.record t' y).isSome := by
        obtain hc | ⟨q, hq, _⟩ := he'.record_cases t' y
        · rwa [← hc]
        · simp [(get_eq_some.mp hq).1]
      obtain hc | ⟨q, _, hc⟩ := he.record_cases t' y <;> rw [hc]
      · exact h.within _ _ hsome
      · rfl

-- Forgetting a tombstone does not change what is shown.
theorem forget (h : s.Mirrors s') : (s.forget t x).2.Mirrors (s'.forget t x).2 := by
  have ⟨_, hg, hrec, hiff⟩ := forget_spec t x h.sound.wellFormed
  have ⟨_, hg', hrec', hiff'⟩ := forget_spec t x h.sound'.wellFormed
  refine ⟨h.sound.forget t x, h.sound'.forget t x, by rw [hg, hg']; exact h.get, fun t' y hy => ?_⟩
  rw [hrec'] at hy
  rw [hrec]
  split at hy
  case isTrue => simp at hy
  case isFalse hk' =>
    split
    case isFalse => exact h.within _ _ hy
    case isTrue hk =>
      -- The first store held a tombstone, so what the second holds is not extant either.
      obtain ⟨rfl, rfl, hf⟩ := hk
      obtain ⟨r, hr, he⟩ := hiff.mp hf
      obtain ⟨r', hr'⟩ := Option.isSome_iff_exists.mp hy
      refine absurd ⟨rfl, rfl, hiff'.mpr ⟨r', hr', ?_⟩⟩ hk'
      have hx := h.isSome (t := t') (x := y)
      simpa [RegistryStore.get, hr, hr', Option.filter, he] using hx

end Mirrors
end RegistryStore
end Registry
