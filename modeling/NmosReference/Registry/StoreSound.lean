import NmosReference.Registry.StoreCascade

namespace Registry.RegistryStore

variable [Python] {s s' s₁ : RegistryStore} {t : ResourceType} {id : String}
variable {r : RegisteredResource} {now : Int} {ev : List ResourceEvent}

-- A record agrees with the body it carries.
structure Parsed (r : RegisteredResource) : Prop where
  id        : Python.getStr r.raw "id" = some r.id
  id_ne     : r.id ≠ ""
  version   : Python.getStr r.raw "version" = some r.version
  parentId  : r.parentId = parentIdOf r.resourceType r.raw
  parent_ne : r.parentId ≠ some ""

-- What holds of the store in every state that the registry can be in.
structure Sound (s : RegistryStore) : Prop where
  wellFormed : s.WellFormed
  parsed     : ∀ t id r, s.record t id = some r → Parsed r

namespace Sound

theorem new {gc forget : Rat} : (new gc forget).Sound where
  wellFormed := .new
  parsed     := by simp [RegistryStore.new, record]

theorem erasing {P : RegisteredResource → Prop} (h : s.Sound) (e : Erasing now P s ev s₁) :
    s₁.Sound where
  wellFormed := e.wellFormed h.wellFormed
  parsed     := fun t id r hr => by
    obtain hc | ⟨r₀, hg, hc⟩ := e.record_cases t id <;> rw [hc] at hr
    · exact h.parsed _ _ _ hr
    · cases hr
      have ⟨h₁, h₂, h₃, h₄, h₅⟩ := h.parsed _ _ _ (get_eq_some.mp hg).1
      exact ⟨h₁, h₂, h₃, h₄, h₅⟩

theorem delete (t : ResourceType) (id : String) (now : Int) (h : s.Sound) :
    (s.delete t id now).2.Sound := by
  obtain ⟨_, e⟩ | ⟨_, _, _, _, e, he, _⟩ := delete_spec t id now h.wellFormed
  · exact e ▸ h
  · exact e ▸ h.erasing he

theorem forget (t : ResourceType) (id : String) (h : s.Sound) : (s.forget t id).2.Sound where
  wellFormed := (forget_spec t id h.wellFormed).1
  parsed     := fun t' x r hr => by
    rw [(forget_spec t id h.wellFormed).2.2.1] at hr
    split at hr
    · cases hr
    · exact h.parsed _ _ _ hr

theorem applyCommitted {body : Body} {p : PreparedRegistration} {created updated : Option TaiCursor}
    {health : Option Int} {now : TaiCursor} (h : s.Sound) (ha : s.Accepts t body.data p) :
    (s.applyCommitted p body created updated health now).2.Sound where
  wellFormed := applyCommitted_wellFormed h.wellFormed ha
  parsed     := fun t' x r hr => by
    obtain rfl := ha.type
    have hreg := (applyCommitted_registered body created updated health now h.wellFormed ha rfl).1
    rw [hreg.record] at hr
    split at hr
    · cases hr
      refine ⟨ha.id, ha.id_ne, ha.version, ha.parentId, fun hp => ?_⟩
      -- The parent is registered, and no registered id is empty.
      obtain ⟨pt, hpt⟩ := Option.ne_none_iff_exists'.mp <| ha.shape.not.mp (by simp [show p.parentId = some "" from hp])
      have ⟨q, hq⟩ := ha.parent_extant hpt hp
      have hrec := (get_eq_some.mp hq).1
      exact (h.parsed _ _ _ hrec).id_ne (h.wellFormed.key _ _ _ hrec).2
    · exact h.parsed _ _ _ hr

end Sound
end Registry.RegistryStore
