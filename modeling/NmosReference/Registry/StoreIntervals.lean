import NmosReference.Registry.StoreSound

-- The intervals of a store are set when it is made.
namespace Registry

namespace RegistryStore

variable {s s₁ : RegistryStore} {id nodeId : String} {parent : Option String} {t : ResourceType}
variable {r : RegisteredResource} {o : Order} {cursor : TaiCursor} {prepared : PreparedRegistration}

structure SameIntervals (s s₁ : RegistryStore) : Prop where
  gcInterval     : s₁.gcInterval = s.gcInterval
  forgetInterval : s₁.forgetInterval = s.forgetInterval

namespace SameIntervals

theorem refl : s.SameIntervals s :=
  ⟨rfl, rfl⟩

theorem trans {s₂ : RegistryStore} (h₁ : s.SameIntervals s₁) (h₂ : s₁.SameIntervals s₂) :
    s.SameIntervals s₂ :=
  ⟨h₂.gcInterval.trans h₁.gcInterval, h₂.forgetInterval.trans h₁.forgetInterval⟩

theorem raiseLastCursor : s.SameIntervals (s.raiseLastCursor t cursor) := by
  unfold RegistryStore.raiseLastCursor
  split
  · split <;> exact ⟨rfl, rfl⟩
  · exact ⟨rfl, rfl⟩

theorem commitCursor (updated : Option TaiCursor) (now : TaiCursor) :
    s.SameIntervals (s.commitCursor t updated now).2 := by
  cases updated with
  | some cursor => exact raiseLastCursor
  | none        =>
    have h : s.SameIntervals (s.nextCursor t now).2 := ⟨rfl, rfl⟩
    exact h.trans raiseLastCursor

theorem commitUpdate {body : Body} {health : Int} :
    s.SameIntervals (s.commitUpdate r prepared body cursor health).2 := by
  unfold RegistryStore.commitUpdate RegistryStore.reparent
  cases r.parentId <;> cases prepared.parentId <;> exact ⟨rfl, rfl⟩

theorem commitCreate {body : Body} {created : TaiCursor} {health : Int} :
    s.SameIntervals (s.commitCreate parent prepared body created cursor health).2 := by
  unfold RegistryStore.commitCreate RegistryStore.reparent
  cases parent <;> cases prepared.parentId <;> cases prepared.reviving <;> exact ⟨rfl, rfl⟩

theorem applyCommitted {body : Body} {created updated : Option TaiCursor} {health : Option Int}
    {now : TaiCursor} :
    s.SameIntervals (s.applyCommitted prepared body created updated health now).2 := by
  unfold RegistryStore.applyCommitted
  refine .trans (commitCursor (t := prepared.resourceType) updated now) ?_
  simp only []
  split
  · split
    · exact commitCreate
    · exact commitUpdate
  · exact commitCreate

theorem erasing {now : Int} {P : RegisteredResource → Prop} {ev : List ResourceEvent}
    (e : Erasing now P s ev s₁) : s.SameIntervals s₁ := by
  induction e with
  | refl               => exact .refl
  | retire _ _ _ _ hi  => exact hi.trans ⟨rfl, rfl⟩

theorem delete (id : String) (now : Int) (hw : s.WellFormed) :
    s.SameIntervals (s.delete t id now).2 := by
  obtain ⟨_, e⟩ | ⟨_, _, _, _, e, h, _⟩ := delete_spec t id now hw
  · rw [e]
    exact .refl
  · rw [e]
    exact .erasing h

theorem dropRecord : s.SameIntervals (s.dropRecord r) := by
  unfold RegistryStore.dropRecord
  simp only []
  split <;> cases r.parentId <;> exact ⟨rfl, rfl⟩

theorem forget : s.SameIntervals (s.forget t id).2 := by
  unfold RegistryStore.forget
  split
  · exact dropRecord
  · exact .refl

theorem setHealthRecursive (health : Int) (limit : Nat) :
    s.SameIntervals (setHealthRecursive health limit r s) := by
  induction limit generalizing r s with
  | zero => exact .refl
  | succ limit hi =>
    have hc : ∀ (ids : List String) (s₁ : RegistryStore), s.SameIntervals s₁ → s.SameIntervals
        (ids.foldl (fun s c =>
          (s.findAny c).elim s (RegistryStore.setHealthRecursive health limit · s)) s₁) := by
      intro ids
      induction ids with
      | nil => exact fun _ h => h
      | cons c ids hl =>
        refine fun s₁ h => hl _ ?_
        cases hf : s₁.findAny c with
        | none       => simpa only [hf, Option.elim_none] using h
        | some child => simpa only [hf, Option.elim_some] using h.trans hi
    exact (hc _ _ .refl).trans ⟨rfl, rfl⟩

theorem heartbeat {now : Int} : s.SameIntervals (s.heartbeat nodeId now).2 := by
  unfold RegistryStore.heartbeat
  split
  · exact setHealthRecursive _ _
  · exact .refl

end SameIntervals
end RegistryStore
end Registry
