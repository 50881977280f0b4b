import NmosReference.Raft.Machine
import NmosReference.Registry.StoreIntervals

namespace Raft

open Registry RegistryStore

variable {m : StateMachine} {store : RegistryStore} {now : TaiCursor} {index : Nat}

namespace StateMachine

-- Photographing the victims of a forget changes the capture only.
theorem captureVictims_eq (m : StateMachine) (victims : List ResourceKey) :
    ∃ capture, victims.foldl (fun m v => captureBeforeMutating m v.1 v.2) m = { m with capture } := by
  induction victims generalizing m with
  | nil => exact ⟨m.capture, rfl⟩
  | cons v victims hi => exact hi (m.captureBeforeMutating v.1 v.2)

@[simp] theorem captureVictims_store {victims : List ResourceKey} :
    (victims.foldl (fun m v => captureBeforeMutating m v.1 v.2) m).store = m.store := by
  have ⟨_, e⟩ := captureVictims_eq m victims
  rw [e]

@[simp] theorem captureVictims_ownership {victims : List ResourceKey} :
    (victims.foldl (fun m v => captureBeforeMutating m v.1 v.2) m).ownership = m.ownership := by
  have ⟨_, e⟩ := captureVictims_eq m victims
  rw [e]

@[simp] theorem captureVictims_lastApplied {victims : List ResourceKey} :
    (victims.foldl (fun m v => captureBeforeMutating m v.1 v.2) m).lastApplied = m.lastApplied := by
  have ⟨_, e⟩ := captureVictims_eq m victims
  rw [e]

theorem forgetAll_intervals (victims : List ResourceKey) (n : Nat) :
    store.SameIntervals (victims.foldl forgetOne (n, store)).2 := by
  induction victims generalizing n store with
  | nil          => exact .refl
  | cons v vs hi => exact .trans SameIntervals.forget (hi (forgetOne (n, store) v).1)

theorem applyDelete_store {t : ResourceType} {x : String} :
    (m.applyDelete now t x).2.store = (m.store.delete t x now.seconds).2 := rfl

end StateMachine

variable [Python]

-- The loop over the victims of a forget changes nothing but their records.
theorem forgetAll_spec (victims : List ResourceKey) (n : Nat) (hs : store.Sound) :
    (victims.foldl StateMachine.forgetOne (n, store)).2.Sound ∧
      (victims.foldl StateMachine.forgetOne (n, store)).2.get = store.get ∧
      ∀ k ∉ victims, (victims.foldl StateMachine.forgetOne (n, store)).2.record k.1 k.2 =
        store.record k.1 k.2 := by
  induction victims generalizing n store with
  | nil => simpa using hs
  | cons v victims hi =>
    have hf := forget_spec v.1 v.2 hs.wellFormed
    obtain ⟨h₁, h₂, h₃⟩ := hi (StateMachine.forgetOne (n, store) v).1 (hs.forget v.1 v.2)
    refine ⟨h₁, h₂.trans hf.2.1, fun k hk => ?_⟩
    simp only [List.mem_cons, not_or] at hk
    refine (h₃ k hk.2).trans ?_
    rw [hf.2.2.1, if_neg]
    exact fun ⟨h₁, h₂, _⟩ => hk.1 (Prod.ext h₁ h₂)

namespace StateMachine

theorem applyOne_sound (hs : m.store.Sound) (op : RegistryOperation) :
    (m.applyOne now index op).2.2.store.Sound := by
  cases op with
  | noop _ | claimOwnership _ _ _ | releaseOwnership _ _ | memberDown _ _ => exact hs
  | register op =>
    simp only [applyOne, applyRegister]
    split
    · exact hs
    case h_2 p hp =>
      simpa [acceptRegister, captureBeforeMutating] using hs.applyCommitted (prepare_eq_ok.mp hp)
  | unregister _ t x =>
    simp only [applyOne, applyUnregister_machine, applyDelete_store]
    exact hs.delete _ _ _
  | expire _ nodeId =>
    simp only [applyOne, applyExpire_machine, applyDelete_store]
    exact hs.delete _ _ _
  | forget _ victims =>
    simpa [applyOne, applyForget] using (forgetAll_spec victims 0 hs).1

theorem applyOne_intervals (hs : m.store.Sound) (op : RegistryOperation) :
    m.store.SameIntervals (m.applyOne now index op).2.2.store := by
  cases op with
  | noop _ | claimOwnership _ _ _ | releaseOwnership _ _ | memberDown _ _ => exact .refl
  | register op =>
    simp only [applyOne, applyRegister]
    split
    · exact .refl
    · simpa [acceptRegister, captureBeforeMutating] using SameIntervals.applyCommitted
  | unregister _ t x =>
    simp only [applyOne, applyUnregister_machine, applyDelete_store]
    exact .delete _ _ hs.wellFormed
  | expire _ nodeId =>
    simp only [applyOne, applyExpire_machine, applyDelete_store]
    exact .delete _ _ hs.wellFormed
  | forget _ victims =>
    simpa [applyOne, applyForget] using forgetAll_intervals victims 0

theorem applyEntry_intervals (hs : m.store.Sound) (entry : Entry RegistryOperation) :
    m.store.SameIntervals (m.applyEntry now entry).2.2.store := by
  unfold applyEntry
  split
  · exact .refl
  · exact applyOne_intervals hs entry.value

theorem applyEntry_sound (hs : m.store.Sound) (entry : Entry RegistryOperation) :
    (m.applyEntry now entry).2.2.store.Sound := by
  unfold applyEntry
  split
  · exact hs
  · exact applyOne_sound hs entry.value

end StateMachine
end Raft
