import NmosReference.Registry.StoreOrder

-- Where the cursors of a store come from.
namespace Registry

open TransitionSystem

namespace TaiCursor

variable {c : TaiCursor}

theorem min_le_def : min ≤ c ↔ 0 < c.seconds ∨ 0 = c.seconds ∧ 0 ≤ c.nanoseconds :=
  Prod.Lex.toLex_le_toLex

theorem le_next (c : TaiCursor) : c ≤ c.next := by
  refine le_of_lt <| lt_def.mpr ?_
  unfold next
  split <;> simp

-- No cursor that is read from text is below 0:0.
theorem min_le_of_parse {text : String} (h : parse text = some c) : min ≤ c := by
  unfold parse at h
  split at h
  case h_2 => cases h
  case h_1 =>
    obtain ⟨s, -, h⟩ := Option.bind_eq_some_iff.mp h
    obtain ⟨ns, -, h⟩ := Option.bind_eq_some_iff.mp h
    cases h
    rw [min_le_def]
    dsimp only
    omega

end TaiCursor

namespace OrderOp

variable [Python]

-- The cursors that an operation brings, and the reading of the clock that it may take one from.
def cursors : OrderOp → List TaiCursor
  | .operate (.insertOrUpdate _ _ now)                  => [now]
  | .operate (.commit _ _ created updated _ now)        => now :: (created.toList ++ updated.toList)
  | .applyCommitted _ _ created updated _ now           => now :: (created.toList ++ updated.toList)
  | .swap records now                                   => now :: records.flatMap fun r => [r.created, r.updated]
  | .operate (.delete ..) | .operate (.collectGarbage _) => []
  | .operate (.heartbeat ..) | .operate (.forget ..)     => []
  | .removeOne .. | .iterOrdered ..                      => []

-- A clock is not set before the epoch, and text has no sign.
def Timely (op : OrderOp) : Prop :=
  ∀ c ∈ op.cursors, .min ≤ c

instance {op : OrderOp} : Decidable op.Timely :=
  inferInstanceAs <| Decidable (∀ _ ∈ _, _)

end OrderOp

namespace RegistryStore

variable {s s' : RegistryStore} {r : RegisteredResource} {p : PreparedRegistration} {body : Body} {health : Option Int}
  {now cursor : TaiCursor} {created updated : Option TaiCursor}

-- No resource has a cursor below 0:0.
structure Timely (s : RegistryStore) : Prop where
  keyed   : s.Keyed
  created : ∀ t id r, s.record t id = some r → .min ≤ r.created
  updated : ∀ t id r, s.record t id = some r → .min ≤ r.updated

-- What this registry allocates is not below the reading of its clock.
theorem min_le_commitCursor {t : ResourceType} (hn : .min ≤ now) (hu : ∀ c ∈ updated, .min ≤ c) :
    .min ≤ (s.commitCursor t updated now).1 := by
  cases updated with
  | some c => exact hu c rfl
  | none   =>
    change .min ≤ (s.nextCursor t now).1
    unfold nextCursor
    split
    case h_2            => exact hn
    case h_1 previous _ =>
      dsimp only
      split
      case isTrue h  => exact hn.trans <| h.trans previous.le_next
      case isFalse h => exact hn

namespace Timely

theorem new {gc forget : Rat} : (RegistryStore.new gc forget).Timely where
  keyed   := Ordered.new.keyed
  created := by simp [RegistryStore.new, record]
  updated := by simp [RegistryStore.new, record]

theorem same (h : s.Timely) (hr : s'.record = s.record) : s'.Timely where
  keyed t id r e   := h.keyed t id r (hr ▸ e)
  created t id r e := h.created t id r (hr ▸ e)
  updated t id r e := h.updated t id r (hr ▸ e)

theorem setRecord (h : s.Timely) (hc : .min ≤ r.created) (hu : .min ≤ r.updated) : (s.setRecord r).Timely := by
  refine ⟨fun t id q e => ?_, fun t id q e => ?_, fun t id q e => ?_⟩
  all_goals
    rw [record_setRecord] at e
    split at e
  · rename_i hk
    cases e
    exact ⟨hk.1.symm, hk.2.symm⟩
  · exact h.keyed t id q e
  · cases e; exact hc
  · exact h.created t id q e
  · cases e; exact hu
  · exact h.updated t id q e

theorem sameCursors (h : s.Timely) (hs : s.SameCursors s') : s'.Timely := by
  have hfrom {t : ResourceType} {id : String} {r : RegisteredResource} (e : s'.record t id = some r) :
      ∃ q, s.record t id = some q ∧ cursorsOf q = cursorsOf r := by
    have hr := hs.record t id
    rw [e] at hr
    exact Option.map_eq_some_iff.mp hr.symm
  refine ⟨fun t id r e => ?_, fun t id r e => ?_, fun t id r e => ?_⟩
  all_goals obtain ⟨q, hq, hc⟩ := hfrom e
  · obtain ⟨rfl, rfl⟩ := h.keyed t id q hq
    exact ⟨(congrArg (·.1) hc).symm, (congrArg (·.2.1) hc).symm⟩
  · exact (h.created t id q hq).trans_eq <| congrArg (·.2.2.1) hc
  · exact (h.updated t id q hq).trans_eq <| congrArg (·.2.2.2) hc

theorem commitUpdate {health : Int} (h : s.Timely) (hr : s.record p.resourceType p.resourceId = some r) (hc : .min ≤ cursor) :
    (s.commitUpdate r p body cursor health).2.Timely := by
  refine (h.setRecord (r := { r with body, version := p.version, updated := cursor, parentId := p.parentId, health })
    (h.created _ _ r hr) hc).same ?_
  funext t id
  simp [RegistryStore.commitUpdate]

theorem commitCreate {pre : Option String} {created : TaiCursor} {health : Int} (h : s.Timely) (hc : .min ≤ created)
    (hu : .min ≤ cursor) : (s.commitCreate pre p body created cursor health).2.Timely := by
  refine (h.setRecord (r :=
    { resourceType := p.resourceType, id := p.resourceId, body, version := p.version, created, updated := cursor,
      parentId := p.parentId, extant := true, health }) hc hu).same ?_
  funext t id
  simp only [RegistryStore.commitCreate, touchOrder_record]
  rw [(SameOrder.popChildren _).record, reparent_record]
  rfl

theorem applyCommitted (h : s.Timely) (hn : .min ≤ now) (hc : ∀ c ∈ created, .min ≤ c) (hu : ∀ c ∈ updated, .min ≤ c) :
    (s.applyCommitted p body created updated health now).2.Timely := by
  have hs : s.SameOrder (s.commitCursor p.resourceType updated now).2 := .commitCursor
  have hcursor := min_le_commitCursor (s := s) (t := p.resourceType) hn hu
  have hcreated : .min ≤ created.getD (s.commitCursor p.resourceType updated now).1 := by
    cases created with
    | some c => exact hc c rfl
    | none   => exact hcursor
  have h := h.same hs.record
  simp only [RegistryStore.applyCommitted]
  split
  case h_1 hr =>
    split
    case isTrue  => exact h.commitCreate hcreated hcursor
    case isFalse => exact h.commitUpdate hr hcursor
  case h_2 => exact h.commitCreate hcreated hcursor

theorem removeOne (t : ResourceType) (id : String) (now : Int) (h : s.Timely) : (s.removeOne t id now).2.Timely := by
  unfold RegistryStore.removeOne
  split
  case h_2      => exact h
  case h_1 r hg =>
    obtain ⟨hr, -⟩ := get_eq_some.mp hg
    exact h.setRecord (h.created t id r hr) (h.updated t id r hr)

theorem forget (t : ResourceType) (id : String) (h : s.Timely) : (s.forget t id).2.Timely := by
  unfold RegistryStore.forget
  split
  case h_2      => exact h
  case h_1 q hq =>
    have hsub {t : ResourceType} {id : String} {r : RegisteredResource} (e : (s.dropRecord q).record t id = some r) :
        s.record t id = some r := by
      have hs : ((s.eraseRecord q.resourceType q.id).dropFromOrder q.resourceType q.id).record = (s.dropRecord q).record := by
        simp only [dropRecord]
        cases q.parentId <;> split <;> rfl
      rw [← hs, dropFromOrder_record, record_eraseRecord] at e
      split at e
      · cases e
      · exact e
    exact ⟨fun t id r e => h.keyed t id r (hsub e), fun t id r e => h.created t id r (hsub e),
      fun t id r e => h.updated t id r (hsub e)⟩

theorem delete (t : ResourceType) (id : String) (now : Int) (h : s.Timely) : (s.delete t id now).2.Timely :=
  h.sameCursors (.delete t id now h.keyed)

theorem heartbeat (nodeId : String) (now : Int) (h : s.Timely) : (s.heartbeat nodeId now).2.Timely := by
  unfold RegistryStore.heartbeat
  split
  case h_2    => exact h
  case h_1 hg =>
    exact h.sameCursors (.setHealthRecursive now _ h.keyed (SameCursors.record_get h.keyed (get_eq_some.mp hg).1))

theorem collectGarbage (now : Int) (h : s.Timely) : (s.collectGarbage now).2.Timely := by
  have hnode (acc : List ResourceEvent × RegistryStore) (node : RegisteredResource) (h : acc.2.Timely) :
      (collectNode now acc node).2.Timely := by
    unfold collectNode
    split
    case h_2    => exact h
    case h_1 hr =>
      have hr := (Option.filter_eq_some_iff.mp hr).1
      exact h.sameCursors (.eraseSubtree now _ h.keyed (SameCursors.record_get h.keyed hr))
  have hnodes (nodes : List RegisteredResource) (acc : List ResourceEvent × RegistryStore) (h : acc.2.Timely) :
      (nodes.foldl (collectNode now) acc).2.Timely := by
    induction nodes generalizing acc with
    | nil             => exact h
    | cons node nodes hi => exact hi _ (hnode acc node h)
  have hvictims (victims : List (ResourceType × String)) (s : RegistryStore) (h : s.Timely) :
      (victims.foldl (fun s v => (s.forget v.1 v.2).2) s).Timely := by
    induction victims generalizing s with
    | nil            => exact h
    | cons v victims hi => exact hi _ (h.forget v.1 v.2)
  exact hvictims _ _ (hnodes _ _ h)

theorem install [Python] {records : List RegisteredResource} {gc forget : Rat} (hn : .min ≤ now)
    (hr : ∀ r ∈ records, .min ≤ r.created ∧ .min ≤ r.updated) (h : Raft.install records gc forget now = some s) :
    s.Timely := by
  have hfold (records : List RegisteredResource) (s₀ : RegistryStore) (hs : s₀.Timely)
      (hr : ∀ r ∈ records, .min ≤ r.created ∧ .min ≤ r.updated)
      (h : records.foldlM (Raft.installRecord now) s₀ = some s) : s.Timely := by
    induction records generalizing s₀ with
    | nil               => cases h; exact hs
    | cons r records hi =>
      obtain ⟨hr, hrs⟩ := List.forall_mem_cons.mp hr
      obtain ⟨s₁, e, h⟩ := Option.bind_eq_some_iff.mp h
      unfold Raft.installRecord at e
      split at e <;> cases e
      exact hi _ (hs.applyCommitted hn (by simpa using hr.1) (by simpa using hr.2)) hrs h
  exact hfold _ _ .new (fun r h => hr r <| SortBy.mem.mp h) h

variable [Python]

theorem operate {a : StoreOp} (h : s.Timely) (ha : (OrderOp.operate a).Timely) : (s.operate a).Timely := by
  cases a with
  | insertOrUpdate t body now =>
    simp only [RegistryStore.operate, insertOrUpdate]
    split
    · exact h
    · exact h.applyCommitted (ha now List.mem_cons_self) (by simp) (by simp)
  | commit t body created updated health now =>
    simp only [RegistryStore.operate, commit]
    split
    · exact h
    · exact h.applyCommitted (ha now List.mem_cons_self) (fun c hc => ha c (by simp [OrderOp.cursors, Option.mem_def.mp hc]))
        fun c hc => ha c (by simp [OrderOp.cursors, Option.mem_def.mp hc])
  | delete t id now      => exact h.delete t id now
  | collectGarbage now   => exact h.collectGarbage now
  | heartbeat nodeId now => exact h.heartbeat nodeId now
  | forget t id          => exact h.forget t id

theorem step {a : OrderOp} (h : s.Timely) (ha : a.Timely) : (s.perform a).Timely := by
  cases a with
  | operate op         => exact h.operate ha
  | applyCommitted prepared body created updated health now =>
    exact h.applyCommitted (ha now List.mem_cons_self) (fun c hc => ha c (by simp [OrderOp.cursors, Option.mem_def.mp hc]))
      fun c hc => ha c (by simp [OrderOp.cursors, Option.mem_def.mp hc])
  | removeOne t id now => exact h.removeOne t id now
  | swap records now   =>
    simp only [perform]
    cases e : Raft.install records s.gcInterval s.forgetInterval now with
    | none   => exact h
    | some s =>
      refine .install (ha now List.mem_cons_self) (fun r hr => ⟨ha r.created ?_, ha r.updated ?_⟩) e
      · exact List.mem_cons_of_mem _ <| List.mem_flatMap.mpr ⟨r, hr, by simp⟩
      · exact List.mem_cons_of_mem _ <| List.mem_flatMap.mpr ⟨r, hr, by simp⟩
  | iterOrdered t o    =>
    refine h.same ?_
    simp only [perform, RegistryStore.iterOrdered, resort]
    split <;> rfl

omit [Python] in
theorem min_le_cursorOf {t : ResourceType} {o : Order} (h : s.Timely) (hr : r ∈ s.iterExtant t) : .min ≤ cursorOf r o := by
  obtain ⟨id, hr⟩ := Dict.mem_values.mp (List.mem_filter.mp hr).1
  cases o
  · exact h.created t id r hr
  · exact h.updated t id r hr

end Timely

theorem timely_of_reaches [Python] {gc forget : Rat} (h : (orderSystem gc forget).Reaches (fun _ op => op.Timely) s) :
    s.Timely := by
  refine h.induct .new fun s a s' _ hs ha e => ?_
  cases e
  exact hs.step ha

end RegistryStore
end Registry
