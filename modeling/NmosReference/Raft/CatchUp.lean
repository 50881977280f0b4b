import NmosReference.Raft.SnapshotRuns

namespace Raft

open Registry RegistryStore TransitionSystem

namespace OwnershipTable

variable {table table' : OwnershipTable} {nodeId : String} {owner member epoch : Nat}

-- Two tables that hold the same entries, in whatever order.
def Same (table table' : OwnershipTable) : Prop :=
  ∀ nodeId, table'.get? nodeId = table.get? nodeId

namespace Same

theorem claim (h : Same table table') :
    Same (table.claim nodeId owner epoch).2 (table'.claim nodeId owner epoch).2 := by
  intro x
  simp only [OwnershipTable.claim, ownerOf, h nodeId]
  split
  · split
    · exact h x
    · simp [Dict.get?_set, h x]
  · simp [Dict.get?_set, h x]

theorem release (nodeId : String) (epoch : Nat) (h : Same table table') :
    (table'.release nodeId epoch).1 = (table.release nodeId epoch).1 ∧
      Same (table.release nodeId epoch).2 (table'.release nodeId epoch).2 := by
  simp only [OwnershipTable.release, ownerOf, h nodeId]
  split
  · split
    · exact ⟨rfl, h⟩
    · exact ⟨rfl, fun x => by simp [Dict.get?_erase, h x]⟩
  · exact ⟨rfl, h⟩

theorem nodesOwnedBy (h : Same table table') :
    table'.nodesOwnedBy member = table.nodesOwnedBy member := by
  have hn : ∀ table : OwnershipTable,
      ((table.items.filter (·.2.owner = member)).map Prod.fst).Nodup := fun table =>
    table.nodup.sublist (List.filter_sublist.map _)
  refine SortBy.congr ((List.perm_ext_iff_of_nodup (hn _) (hn _)).mpr fun x => ?_) fun _ _ _ _ h => h
  have hg : ∀ id, table'.get? id = table.get? id := h
  simp only [List.mem_map, List.mem_filter, Prod.exists, ← Dict.get?_eq_some, hg]

theorem memberDown (member epoch : Nat) (h : Same table table') :
    (table'.memberDown member epoch).1 = (table.memberDown member epoch).1 ∧
      Same (table.memberDown member epoch).2 (table'.memberDown member epoch).2 := by
  unfold OwnershipTable.memberDown
  rw [h.nodesOwnedBy]
  suffices hf : ∀ (ids done : List String) (table table' : OwnershipTable), Same table table' →
      (ids.foldl (releaseOne epoch) (done, table')).1 = (ids.foldl (releaseOne epoch) (done, table)).1 ∧
        Same (ids.foldl (releaseOne epoch) (done, table)).2
          (ids.foldl (releaseOne epoch) (done, table')).2 from hf _ _ _ _ h
  intro ids
  induction ids with
  | nil => exact fun _ _ _ h => ⟨rfl, h⟩
  | cons id ids hi =>
    intro done table table' h
    have ⟨e, h⟩ := h.release id epoch
    simp only [List.foldl_cons, releaseOne, e]
    exact hi _ _ _ h

end Same

theorem get?_foldl_set (table : OwnershipTable) (nodeId : String) (held : Ownership)
    {entries : List (String × Ownership)} (hn : (entries.map Prod.fst).Nodup) :
    (entries.foldl (fun table (id, held) => table.set id held) table).get? nodeId =
      some held ↔ (nodeId, held) ∈ entries ∨
        nodeId ∉ entries.map Prod.fst ∧ table.get? nodeId = some held := by
  induction entries generalizing table with
  | nil => simp
  | cons p entries hi =>
    obtain ⟨id, o⟩ := p
    have hn := List.nodup_cons.mp hn
    rw [List.foldl_cons, hi _ hn.2]
    simp only [Dict.get?_set, List.mem_cons, Prod.mk.injEq, List.map_cons, not_or]
    by_cases hk : nodeId = id
    · subst hk
      have : ∀ o, (nodeId, o) ∉ entries := fun o ho => hn.1 (List.mem_map.mpr ⟨_, ho, rfl⟩)
      simp_all [eq_comm]
    · simp [hk]

-- A table survives being written and read.
theorem same_decode_encode : Same table (.decode table.encode) := by
  intro x
  have hn : (table.encode.map Prod.fst).Nodup :=
    (SortBy.perm.map _).nodup_iff.mpr table.nodup
  refine Option.ext fun held => ?_
  have h := get?_foldl_set ∅ x held hn
  refine h.trans ?_
  simp [encode, Dict.get?_eq_some]

end OwnershipTable

-- What the answer to a proposal says, apart from how many tombstones a forget dropped.
def RegistryOperation.verdict : RegistryOperation → Option Outcome → Option Outcome
  | .forget _ _, _ => none
  | _, outcome     => outcome

section

variable [Python] {R S : StateMachine} {now now' : TaiCursor} {op : RegistryOperation} {index : Nat}

-- A member that may hold fewer tombstones than another, and else the same.
structure Follows (R S : StateMachine) : Prop where
  store       : R.store.Mirrors S.store
  ownership   : R.ownership.Same S.ownership
  lastApplied : S.lastApplied = R.lastApplied

-- No id is registered under another type than that of a tombstone that only the first member holds.
def NoClash (R S : StateMachine) : RegistryOperation → Prop
  | .register op => Mirrors.NoClash R.store S.store op.resourceType (Body.data ⟨op.bodyText⟩)
  | _            => True

instance : Decidable (NoClash R S op) :=
  match op with
  | .register op => inferInstanceAs <| Decidable (Mirrors.NoClash R.store S.store op.resourceType (Body.data ⟨op.bodyText⟩))
  | .noop _ | .unregister .. | .expire .. | .forget .. => .isTrue trivial
  | .claimOwnership .. | .releaseOwnership .. | .memberDown .. => .isTrue trivial

namespace Follows

theorem fuseClaim {op : RegisterOp} (h : Follows R S) :
    (R.fuseClaim op index).ownership.Same (S.fuseClaim op index).ownership := by
  unfold StateMachine.fuseClaim
  split
  · exact h.ownership.claim
  · exact h.ownership

theorem applyRegister (now now' : TaiCursor) (index : Nat) {op : RegisterOp} (h : Follows R S)
    (hn : Mirrors.NoClash R.store S.store op.resourceType (Body.data ⟨op.bodyText⟩)) :
    (S.applyRegister now' op index).1 = (R.applyRegister now op index).1 ∧
      Follows (R.applyRegister now op index).2.2 (S.applyRegister now' op index).2.2 := by
  have he := h.store.prepare hn
  unfold StateMachine.applyRegister
  cases hR : R.store.prepare op.resourceType (Body.data ⟨op.bodyText⟩) with
  | error failure =>
    cases hS : S.store.prepare op.resourceType (Body.data ⟨op.bodyText⟩) with
    | error failure' =>
      rw [hR, hS] at he
      have e : failure' = failure := Except.error.inj he
      exact ⟨by rw [e], h⟩
    | ok p' => simp [hR, hS, Mirrors.answer, Except.map] at he
  | ok p =>
    cases hS : S.store.prepare op.resourceType (Body.data ⟨op.bodyText⟩) with
    | error failure' => simp [hR, hS, Mirrors.answer, Except.map] at he
    | ok p' =>
      rw [hR, hS] at he
      have hc : p'.creates = p.creates :=
        (PreparedRegistration.mk.inj (Except.ok.inj he)).2.2.2.2.1
      obtain ⟨e, hm⟩ := h.store.applyCommitted ⟨op.bodyText⟩
        (if p.creates then op.updated else op.created) op.updated op.health now now'
        (prepare_eq_ok.mp hR) (prepare_eq_ok.mp hS) he
      refine ⟨?_, ?_, h.fuseClaim, ?_⟩
      · simpa [StateMachine.acceptRegister, StateMachine.captureBeforeMutating, hc] using e
      · simpa [StateMachine.acceptRegister, StateMachine.captureBeforeMutating, hc] using hm
      · simp only [StateMachine.acceptRegister, StateMachine.captureBeforeMutating,
          StateMachine.fuseClaim]
        split <;> exact h.lastApplied

theorem applyDelete (now now' : TaiCursor) (t : ResourceType) (x : String) (h : Follows R S) :
    (S.applyDelete now' t x).1.map (·.length) = (R.applyDelete now t x).1.map (·.length) ∧
      Follows (R.applyDelete now t x).2 (S.applyDelete now' t x).2 :=
  have ⟨e, hm⟩ := h.store.delete t x now.seconds now'.seconds
  ⟨e, hm, h.ownership, h.lastApplied⟩

theorem forgetAll {victims : List ResourceKey} {store store' : RegistryStore} {n n' : Nat}
    (h : store.Mirrors store') : (victims.foldl StateMachine.forgetOne (n, store)).2.Mirrors
      (victims.foldl StateMachine.forgetOne (n', store')).2 := by
  induction victims generalizing store store' n n' with
  | nil => exact h
  | cons v victims hi => exact hi h.forget

theorem applyOne (now now' : TaiCursor) (index : Nat) (h : Follows R S) (hn : NoClash R S op) :
    op.verdict (S.applyOne now' index op).1 = op.verdict (R.applyOne now index op).1 ∧
      Follows (R.applyOne now index op).2.2 (S.applyOne now' index op).2.2 := by
  cases op with
  | noop _ => exact ⟨rfl, h⟩
  | register op =>
    obtain ⟨e, h'⟩ := h.applyRegister now now' index hn
    exact ⟨congrArg some e, h'⟩
  | unregister _ t x =>
    obtain ⟨e, h'⟩ := h.applyDelete now now' t x
    refine ⟨?_, by simpa [StateMachine.applyOne] using h'⟩
    simp only [StateMachine.applyOne, StateMachine.applyUnregister, RegistryOperation.verdict]
    generalize S.applyDelete now' t x = s, R.applyDelete now t x = r at e
    obtain ⟨_ | _, _⟩ := s <;> obtain ⟨_ | _, _⟩ := r <;> simp_all
  | expire _ nodeId =>
    obtain ⟨e, h'⟩ := h.applyDelete now now' .node nodeId
    refine ⟨?_, by simpa [StateMachine.applyOne] using h'⟩
    simp only [StateMachine.applyOne, StateMachine.applyExpire, RegistryOperation.verdict]
    generalize S.applyDelete now' .node nodeId = s, R.applyDelete now .node nodeId = r at e
    obtain ⟨_ | _, _⟩ := s <;> obtain ⟨_ | _, _⟩ := r <;> simp_all
  | forget _ victims =>
    refine ⟨rfl, ?_, ?_, ?_⟩
    · simpa [StateMachine.applyOne, StateMachine.applyForget] using forgetAll h.store
    · simpa [StateMachine.applyOne, StateMachine.applyForget] using h.ownership
    · simpa [StateMachine.applyOne, StateMachine.applyForget] using h.lastApplied
  | claimOwnership _ nodeId owner => exact ⟨rfl, h.store, h.ownership.claim, h.lastApplied⟩
  | releaseOwnership _ nodeId     => exact ⟨rfl, h.store, (h.ownership.release nodeId index).2, h.lastApplied⟩
  | memberDown _ member           =>
    obtain ⟨e, ho⟩ := h.ownership.memberDown member index
    exact ⟨by simp [StateMachine.applyOne, RegistryOperation.verdict, e], h.store, ho, h.lastApplied⟩

theorem applyEntry (now now' : TaiCursor) {entry : Entry RegistryOperation} (h : Follows R S)
    (hn : NoClash R S entry.value) :
    entry.value.verdict (S.applyEntry now' entry).1 =
        entry.value.verdict (R.applyEntry now entry).1 ∧
      Follows (R.applyEntry now entry).2.2 (S.applyEntry now' entry).2.2 := by
  simp only [StateMachine.applyEntry, h.lastApplied]
  split
  · exact ⟨rfl, h⟩
  · have ⟨e, h'⟩ := h.applyOne now now' entry.index hn
    exact ⟨e, h'.store, h'.ownership, rfl⟩

end Follows
end
end Raft
