import NmosReference.Raft.MachineSound
import NmosReference.Registry.StorePublish

namespace Raft.StateMachine

open Registry RegistryStore

variable {m : StateMachine} {now : TaiCursor} {index : Nat} {t : ResourceType} {x : String}

-- A cascade is told by its removals in whatever order they are published.
theorem applyDelete_describes (now : TaiCursor) (hs : m.store.WellFormed) :
    Describes (((m.applyDelete now t x).1.map ordered).getD []) m.store.content
      (m.applyDelete now t x).2.store.content := by
  rw [applyDelete_store]
  simp only [applyDelete, captureSubtree_store]
  obtain ⟨_, e⟩ | ⟨_, ev, _, _, e, he, _⟩ := delete_spec t x now.seconds hs
  · rw [e]
    rfl
  · rw [e]
    exact he.describes.perm he.nodup_keys SortBy.perm

theorem applyUnregister_describes (hs : m.store.WellFormed) :
    Describes (m.applyUnregister now t x).2.1 m.store.content
      (m.applyUnregister now t x).2.2.store.content := by
  have h := applyDelete_describes now (t := t) (x := x) hs
  unfold applyUnregister
  generalize m.applyDelete now t x = d at h
  obtain ⟨_ | removed, _⟩ := d <;> exact h

theorem applyExpire_describes (hs : m.store.WellFormed) :
    Describes (m.applyExpire now x).2.1 m.store.content (m.applyExpire now x).2.2.store.content := by
  have h := applyDelete_describes now (t := .node) (x := x) hs
  unfold applyExpire
  generalize m.applyDelete now .node x = d at h
  obtain ⟨_ | removed, _⟩ := d <;> exact h

variable [Python]

theorem applyRegister_describes {op : RegisterOp} (hs : m.store.Sound) :
    Describes (m.applyRegister now op index).2.1 m.store.content
      (m.applyRegister now op index).2.2.store.content := by
  unfold applyRegister
  split
  case h_1 => rfl
  case h_2 p hp =>
    have h := (applyCommitted_describes ⟨op.bodyText⟩
      (some (if p.creates then op.updated else op.created)) (some op.updated) (some op.health) now
      hs.wellFormed.keyed (prepare_eq_ok.mp hp)).2
    simpa [acceptRegister, captureBeforeMutating] using h

theorem applyOne_describes (hs : m.store.Sound) (op : RegistryOperation) :
    Describes (m.applyOne now index op).2.1 m.store.content (m.applyOne now index op).2.2.store.content := by
  cases op with
  | noop _ | claimOwnership _ _ _ | releaseOwnership _ _ | memberDown _ _ => rfl
  | register op       => exact applyRegister_describes hs
  | unregister _ t x  => exact applyUnregister_describes hs.wellFormed
  | expire _ nodeId   => exact applyExpire_describes hs.wellFormed
  | forget _ victims  =>
    have ⟨_, hg, _⟩ := forgetAll_spec victims 0 hs
    refine content_congr ?_
    simpa [applyOne, applyForget] using hg

-- What a run of entries publishes tells what it does to the store.
theorem apply_describes (entries : List (TaiCursor × Entry RegistryOperation)) (hs : m.store.Sound) :
    (m.apply entries).2.2.store.Sound ∧
      Describes (m.apply entries).2.1 m.store.content (m.apply entries).2.2.store.content := by
  suffices h : ∀ (acc : List (ProposalId × Outcome) × List ResourceEvent × StateMachine) (c : Content),
      acc.2.2.store.Sound → Describes acc.2.1 c acc.2.2.store.content →
      (entries.foldl applyNext acc).2.2.store.Sound ∧
        Describes (entries.foldl applyNext acc).2.1 c (entries.foldl applyNext acc).2.2.store.content from
    h ([], [], m) m.store.content hs rfl
  induction entries with
  | nil => exact fun _ _ hs hd => ⟨hs, hd⟩
  | cons p entries hi =>
    intro acc c hs hd
    refine hi _ c (applyEntry_sound hs p.2) (hd.append ?_)
    change Describes (acc.2.2.applyEntry p.1 p.2).2.1 _ (acc.2.2.applyEntry p.1 p.2).2.2.store.content
    unfold applyEntry
    split
    · rfl
    · exact applyOne_describes hs p.2.value

end Raft.StateMachine
