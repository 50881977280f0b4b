import NmosReference.Raft.Snapshot
import NmosReference.Registry.StoreRuns

namespace Registry

open TransitionSystem

namespace RegistryStore

variable {s s' : RegistryStore} {t t' : ResourceType} {o o' : Order} {id x : String}
variable {r r₀ : RegisteredResource} {c cursor : TaiCursor}

-- The index lists the ids of the bucket, in order unless it is marked dirty.
structure Indexed (s : RegistryStore) (t : ResourceType) (o : Order) : Prop where
  keys   : ∀ id, id ∈ (s.order t o).keys ↔ (s.record t id).isSome
  sorted : s.orderDirty t o = false →
    (s.order t o).keys.Pairwise fun a b => s.orderKey t o a < s.orderKey t o b

-- As `Indexed`, but for one id that is about to be moved or dropped.
structure IndexedBut (s : RegistryStore) (t : ResourceType) (o : Order) (id : String) : Prop where
  keys   : ∀ x ≠ id, x ∈ (s.order t o).keys ↔ (s.record t x).isSome
  sorted : s.orderDirty t o = false → ((s.order t o).keys.filter (· ≠ id)).Pairwise
    fun a b => s.orderKey t o a < s.orderKey t o b

theorem orderKey_congr (h : s'.record t id = s.record t id) :
    s'.orderKey t o id = s.orderKey t o id := by
  rw [orderKey, h, orderKey]

theorem orderKey_eq (h : s.record t id = some r) : s.orderKey t o id = toLex (cursorOf r o, id) := by
  simp [orderKey, h]

namespace Indexed

-- The order of the ids is read off the cursors of their records.
theorem of_cursors (h : s.Indexed t o) (ho : s'.order t o = s.order t o)
    (hd : s'.orderDirty t o = s.orderDirty t o)
    (hr : ∀ id, (s'.record t id).map (cursorOf · o) = (s.record t id).map (cursorOf · o)) :
    s'.Indexed t o := by
  have hk : s'.orderKey t o = s.orderKey t o := by
    funext id
    have he := hr id
    simp only [orderKey]
    cases h₁ : s.record t id <;> cases h₂ : s'.record t id <;> simp_all
  have hs : ∀ id, (s'.record t id).isSome = (s.record t id).isSome := fun id => by
    simpa using congrArg Option.isSome (hr id)
  exact ⟨fun id => by rw [ho, h.keys, hs], fun hd' => by rw [ho, hk]; exact h.sorted (hd ▸ hd')⟩

theorem congr (h : s.Indexed t o) (hr : s'.record = s.record) (ho : s'.order = s.order)
    (hd : s'.orderDirty = s.orderDirty) : s'.Indexed t o :=
  h.of_cursors (by rw [ho]) (by rw [hd]) fun _ => by rw [hr]

theorem but (id : String) (h : s.Indexed t o) : s.IndexedBut t o id where
  keys x _  := h.keys x
  sorted hd := (h.sorted hd).sublist List.filter_sublist

-- An index says nothing of the records of other types.
theorem setRecord_other (h : s.Indexed t o) (ht : t ≠ r.resourceType) :
    (s.setRecord r).Indexed t o :=
  h.of_cursors rfl rfl fun id => by simp [ht]

-- A change of a record that keeps its cursor.
theorem setRecord_same (h : s.Indexed t o) (hr : s.record r.resourceType r.id = some r₀)
    (hc : cursorOf r o = cursorOf r₀ o) : (s.setRecord r).Indexed t o := by
  refine h.of_cursors rfl rfl fun id => ?_
  rw [record_setRecord]
  split
  case isTrue hk => rw [hk.1, hk.2, hr]; simp [hc]
  case isFalse   => rfl

end Indexed

namespace IndexedBut

theorem congr (h : s.IndexedBut t o id) (hr : ∀ x ≠ id, s'.record t x = s.record t x)
    (ho : s'.order t o = s.order t o) (hd : s'.orderDirty t o = s.orderDirty t o) :
    s'.IndexedBut t o id where
  keys x hx := by rw [ho, h.keys x hx, hr x hx]
  sorted hd' := by
    rw [ho]
    refine (h.sorted (hd ▸ hd')).imp_of_mem fun {a b} ha hb hab => ?_
    simp only [List.mem_filter, ne_eq, decide_not, Bool.not_eq_true', decide_eq_false_iff_not] at ha hb
    rwa [orderKey_congr (hr a ha.2), orderKey_congr (hr b hb.2)]

end IndexedBut

theorem order_touchOrder : (s.touchOrder t o id c).order t' o' =
    if t' = t ∧ o' = o then ((s.order t o).erase id).set id () else s.order t' o' := by
  by_cases ht : t' = t
  · subst ht
    by_cases ho : o' = o <;> simp [touchOrder, ho]
  · simp [touchOrder, ht]

theorem keys_touchOrder : ((s.touchOrder t o id c).order t o).keys =
    (s.order t o).keys.filter (· ≠ id) ++ [id] := by
  rw [order_touchOrder, if_pos ⟨rfl, rfl⟩, Dict.keys_set_of_not_mem, Dict.keys_erase]
  simp [Dict.keys_erase]

-- An index that stays clean is one whose tail does not come after what is appended.
theorem orderDirty_touchOrder : (s.touchOrder t o id c).orderDirty t' o' =
    if t' = t ∧ o' = o then s.orderDirty t o || ((s.order t o).keys.filter (· ≠ id)).getLast?.any
      fun lastId => (s.record t lastId).any fun last =>
        decide (toLex (c, id) < toLex (cursorOf last o, lastId))
    else s.orderDirty t' o' := by
  by_cases ht : t' = t
  · subst ht
    by_cases ho : o' = o <;> simp [touchOrder, ho, Dict.keys_erase, record]
  · simp [touchOrder, ht]

-- Moving an id to the end restores the index.
theorem IndexedBut.touchOrder (h : s.IndexedBut t o id) (hr : s.record t id = some r)
    (hc : cursorOf r o = c) : (s.touchOrder t o id c).Indexed t o where
  keys x := by
    rw [keys_touchOrder, touchOrder_record]
    by_cases hx : x = id
    · simp [hx, hr]
    · simp [hx, h.keys x hx]
  sorted hd := by
    rw [orderDirty_touchOrder, if_pos ⟨rfl, rfl⟩, Bool.or_eq_false_iff] at hd
    rw [keys_touchOrder]
    have hs := h.sorted hd.1
    refine List.pairwise_append.mpr ⟨hs, List.pairwise_singleton _ _, fun a ha b hb => ?_⟩
    obtain rfl := List.mem_singleton.mp hb
    -- All that is listed comes before the tail, or is the tail.
    obtain ⟨l, last, e⟩ : ∃ l last, (s.order t o).keys.filter (· ≠ b) = l ++ [last] :=
      (List.eq_nil_or_concat' _).resolve_left (List.ne_nil_of_mem ha)
    have hlast : last ∈ (s.order t o).keys.filter (· ≠ b) := by
      rw [e]
      simp
    simp only [List.mem_filter, ne_eq, decide_not, Bool.not_eq_true', decide_eq_false_iff_not] at hlast
    obtain ⟨q, hq⟩ := Option.isSome_iff_exists.mp ((h.keys last hlast.2).mp hlast.1)
    have hle : s.orderKey t o a ≤ s.orderKey t o last := by
      rw [e] at ha hs
      obtain ha | ha := List.mem_append.mp ha
      · exact ((List.pairwise_append.mp hs).2.2 a ha last (by simp)).le
      · exact le_of_eq (by rw [List.mem_singleton.mp ha])
    have hlt : s.orderKey t o last < s.orderKey t o b := by
      have hd := hd.2
      rw [e] at hd
      simp only [List.getLast?_append, List.getLast?_singleton, Option.some_or, Option.any_some, hq,
        decide_eq_false_iff_not, not_lt] at hd
      rw [orderKey_eq hq, orderKey_eq hr, hc]
      refine lt_of_le_of_ne hd fun he => hlast.2 ?_
      exact congrArg (fun p => (ofLex p).2) he
    exact hle.trans_lt hlt

theorem Indexed.touchOrder_other (h : s.Indexed t o) (hne : ¬(t = t' ∧ o = o')) :
    (s.touchOrder t' o' id c).Indexed t o :=
  h.of_cursors (by rw [order_touchOrder, if_neg hne]) (by rw [orderDirty_touchOrder, if_neg hne])
    fun _ => rfl

theorem IndexedBut.touchOrder_other (h : s.IndexedBut t o id) (hne : ¬(t = t' ∧ o = o')) :
    (s.touchOrder t' o' x c).IndexedBut t o id :=
  h.congr (fun _ _ => rfl) (by rw [order_touchOrder, if_neg hne])
    (by rw [orderDirty_touchOrder, if_neg hne])

-- Updates that the indexes are not part of.
structure SameOrder (s s' : RegistryStore) : Prop where
  record     : s'.record = s.record
  order      : s'.order = s.order
  orderDirty : s'.orderDirty = s.orderDirty

namespace SameOrder

theorem trans {s₂ : RegistryStore} (h₁ : s.SameOrder s') (h₂ : s'.SameOrder s₂) : s.SameOrder s₂ :=
  ⟨h₂.record.trans h₁.record, h₂.order.trans h₁.order, h₂.orderDirty.trans h₁.orderDirty⟩

theorem raiseLastCursor : s.SameOrder (s.raiseLastCursor t c) := by
  unfold RegistryStore.raiseLastCursor
  split <;> (try split) <;> exact ⟨rfl, rfl, rfl⟩

theorem commitCursor {updated : Option TaiCursor} {now : TaiCursor} :
    s.SameOrder (s.commitCursor t updated now).2 := by
  cases updated with
  | some _ => exact raiseLastCursor
  | none   =>
    have h : s.SameOrder (s.nextCursor t now).2 := ⟨rfl, rfl, rfl⟩
    exact h.trans raiseLastCursor

theorem reparent {pre new : Option String} : s.SameOrder (s.reparent id pre new) := by
  cases pre <;> cases new <;> exact ⟨rfl, rfl, rfl⟩

theorem popChildren (b : Bool) : s.SameOrder (if b then s.popChildren id else s) := by
  cases b <;> exact ⟨rfl, rfl, rfl⟩

end SameOrder

theorem Indexed.same (h : s.Indexed t o) (hs : s.SameOrder s') : s'.Indexed t o :=
  h.congr hs.record hs.order hs.orderDirty

theorem IndexedBut.same (h : s.IndexedBut t o id) (hs : s.SameOrder s') : s'.IndexedBut t o id :=
  h.congr (fun _ _ => by rw [hs.record]) (by rw [hs.order]) (by rw [hs.orderDirty])

-- A record that is replaced leaves the others where they are.
theorem Indexed.setRecord_but (h : s.Indexed t o) (hi : r.id = id) :
    (s.setRecord r).IndexedBut t o id :=
  (h.but id).congr (fun x hx => by simp [hi, hx]) rfl rfl

-- All indexes of the store.
structure Ordered (s : RegistryStore) : Prop where
  keyed   : s.Keyed
  indexed : ∀ t o, s.Indexed t o

namespace Ordered

variable {p : PreparedRegistration} {body : Body} {created updated : TaiCursor} {health now : Int}

theorem new {gc forget : Rat} : (RegistryStore.new gc forget).Ordered where
  keyed       := by simp [Keyed, RegistryStore.new, record]
  indexed _ _ := ⟨by simp [RegistryStore.new, record], by simp [RegistryStore.new]⟩

theorem same (h : s.Ordered) (hs : s.SameOrder s') : s'.Ordered where
  keyed t id r e := h.keyed t id r (by rwa [hs.record] at e)
  indexed t o    := (h.indexed t o).same hs

theorem setRecord_same (h : s.Ordered) (hr : s.record r.resourceType r.id = some r₀)
    (hc : r.created = r₀.created) (hu : r.updated = r₀.updated) : (s.setRecord r).Ordered where
  keyed t id q e := by
    rw [record_setRecord] at e
    split at e
    case isTrue hk =>
      cases e
      exact ⟨hk.1.symm, hk.2.symm⟩
    case isFalse => exact h.keyed _ _ _ e
  indexed t o := (h.indexed t o).setRecord_same hr (by cases o <;> assumption)

-- An update moves the resource in the update order only.
theorem commitUpdate (h : s.Ordered) (hr : s.record p.resourceType p.resourceId = some r) :
    (s.commitUpdate r p body updated health).2.Ordered := by
  obtain ⟨ht, hi⟩ := h.keyed _ _ _ hr
  let q := { r with
    body, version := p.version, updated, parentId := p.parentId, health }
  have hq : s.record q.resourceType q.id = some r := by rw [← ht, ← hi] at hr; exact hr
  have hs : (s.setRecord q).SameOrder ((s.setRecord q).reparent p.resourceId r.parentId p.parentId) :=
    .reparent
  have hget : ((s.setRecord q).reparent p.resourceId r.parentId p.parentId).record p.resourceType
      p.resourceId = some q := by
    rw [hs.record, record_setRecord, if_pos ⟨ht.symm, hi.symm⟩]
  refine ⟨fun t id r' e => ?_, fun t o => ?_⟩
  · simp only [RegistryStore.commitUpdate, touchOrder_record, reparent_record, record_setRecord] at e
    split at e
    case isTrue hk =>
      cases e
      exact ⟨hk.1.symm, hk.2.symm⟩
    case isFalse => exact h.keyed _ _ _ e
  · by_cases hk : t = p.resourceType ∧ o = .update
    · obtain ⟨rfl, rfl⟩ := hk
      exact (((h.indexed _ _).setRecord_but (r := q) hi).same hs).touchOrder hget rfl
    · refine Indexed.touchOrder_other ?_ hk
      refine Indexed.same ?_ hs
      by_cases htt : t = p.resourceType
      · subst htt
        cases o with
        | create => exact (h.indexed _ _).setRecord_same hq rfl
        | update => exact absurd ⟨rfl, rfl⟩ hk
      · exact (h.indexed _ _).setRecord_other (by rwa [show q.resourceType = p.resourceType from ht])

-- A create, or a revival, moves it in both orders.
theorem commitCreate {pre : Option String} (h : s.Ordered) :
    (s.commitCreate pre p body created updated health).2.Ordered := by
  let q : RegisteredResource :=
    { resourceType := p.resourceType, id := p.resourceId, body, version := p.version, created,
      updated, parentId := p.parentId, extant := true, health }
  let s₁ := ((s.setRecord q).setType p.resourceId p.resourceType).reparent p.resourceId pre p.parentId
  let s₂ := if p.reviving then s₁.popChildren p.resourceId else s₁
  have hs : (s.setRecord q).SameOrder s₂ := by
    have h₁ : (s.setRecord q).SameOrder ((s.setRecord q).setType p.resourceId p.resourceType) :=
      ⟨rfl, rfl, rfl⟩
    have h₂ : SameOrder _ s₁ := .reparent
    exact (h₁.trans h₂).trans (.popChildren _)
  have hq : s₂.record p.resourceType p.resourceId = some q := by
    rw [hs.record, record_setRecord, if_pos ⟨rfl, rfl⟩]
  let s₃ := s₂.touchOrder p.resourceType .create p.resourceId created
  have e : (s.commitCreate pre p body created updated health).2 =
      s₃.touchOrder p.resourceType .update p.resourceId updated := rfl
  rw [e]
  have hb : ∀ o, s₂.IndexedBut p.resourceType o p.resourceId := fun o =>
    ((h.indexed _ o).setRecord_but rfl).same hs
  refine ⟨fun t id r' e => ?_, fun t o => ?_⟩
  · simp only [s₃, touchOrder_record, hs.record, record_setRecord] at e
    split at e
    case isTrue hk =>
      cases e
      exact ⟨hk.1.symm, hk.2.symm⟩
    case isFalse => exact h.keyed _ _ _ e
  · by_cases ht : t = p.resourceType
    · subst ht
      cases o with
      | create => exact ((hb .create).touchOrder hq rfl).touchOrder_other (by simp)
      | update => exact ((hb .update).touchOrder_other (by simp)).touchOrder hq rfl
    · refine Indexed.touchOrder_other (.touchOrder_other (.same ?_ hs) ?_) ?_
      · exact (h.indexed t o).setRecord_other ht
      · exact fun hk => ht hk.1
      · exact fun hk => ht hk.1

theorem applyCommitted {created updated : Option TaiCursor} {health : Option Int} {now : TaiCursor}
    (h : s.Ordered) : (s.applyCommitted p body created updated health now).2.Ordered := by
  have hs : s.SameOrder (s.commitCursor p.resourceType updated now).2 := .commitCursor
  have h := h.same hs
  simp only [RegistryStore.applyCommitted]
  split
  case h_1 hr =>
    split
    · exact h.commitCreate
    · exact h.commitUpdate hr
  case h_2 => exact h.commitCreate

theorem retire (h : s.Ordered) (hr : s.get t id = some r) : (s.retire r now).Ordered := by
  obtain ⟨rfl, rfl⟩ := h.keyed _ _ _ (get_eq_some.mp hr).1
  exact h.setRecord_same (get_eq_some.mp hr).1 rfl rfl

theorem dropRecord (h : s.Ordered) (hk : r.resourceType = t ∧ r.id = id) : (s.dropRecord r).Ordered := by
  obtain ⟨rfl, rfl⟩ := hk
  have hs : ((s.eraseRecord r.resourceType r.id).dropFromOrder r.resourceType r.id).SameOrder
      (s.dropRecord r) := by
    simp only [RegistryStore.dropRecord]
    cases r.parentId <;> split <;> exact ⟨rfl, rfl, rfl⟩
  refine .same ⟨fun t id q e => ?_, fun t o => ?_⟩ hs
  · rw [dropFromOrder_record, record_eraseRecord] at e
    split at e
    · cases e
    · exact h.keyed _ _ _ e
  · by_cases ht : t = r.resourceType
    · subst ht
      have ho : (((s.eraseRecord r.resourceType r.id).dropFromOrder r.resourceType r.id).order
          r.resourceType o).keys = (s.order r.resourceType o).keys.filter (· ≠ r.id) := by
        simp [dropFromOrder, eraseRecord, Dict.keys_erase]
      refine ⟨fun x => ?_, fun hd => ?_⟩
      · rw [ho, dropFromOrder_record, record_eraseRecord]
        by_cases hx : x = r.id
        · simp [hx]
        · simp [hx, (h.indexed _ o).keys]
      · rw [ho]
        refine (((h.indexed _ o).sorted hd).sublist List.filter_sublist).imp_of_mem
          fun {a b} ha hb hab => ?_
        simp only [List.mem_filter, ne_eq, decide_not, Bool.not_eq_true', decide_eq_false_iff_not] at ha hb
        have hk : ∀ x ≠ r.id, ((s.eraseRecord r.resourceType r.id).dropFromOrder r.resourceType
            r.id).orderKey r.resourceType o x = s.orderKey r.resourceType o x :=
          fun x hx => orderKey_congr (by simp [hx])
        rwa [hk a ha.2, hk b hb.2]
    · refine (h.indexed t o).of_cursors (by simp [dropFromOrder, eraseRecord, ht]) rfl fun x => ?_
      simp [ht]

-- Sorting an index leaves it clean and changes nothing else.
theorem resort (t : ResourceType) (o : Order) (h : s.Ordered) :
    (s.resort t o).Ordered ∧ (s.resort t o).record = s.record ∧ (s.resort t o).byType = s.byType ∧
      (s.resort t o).orderDirty t o = false := by
  unfold RegistryStore.resort
  split
  case isFalse hd => exact ⟨h, rfl, rfl, by simpa using hd⟩
  case isTrue =>
    have hids : ((s.order t o).keys.filter fun id => (s.record t id).isSome) = (s.order t o).keys :=
      List.filter_eq_self.mpr fun id hid => ((h.indexed t o).keys id).mp hid
    have hnd : (sortBy (s.orderKey t o) (s.order t o).keys).Nodup :=
      SortBy.perm.nodup_iff.mpr (s.order t o).nodup
    have hk : ((sortBy (s.orderKey t o) (s.order t o).keys).foldl (fun index id => index.set id ())
        (∅ : Dict String Unit)).keys = sortBy (s.orderKey t o) (s.order t o).keys := by
      rw [Dict.keys_foldl_set (by simpa using hnd)]
      simp
    have hlt : (sortBy (s.orderKey t o) (s.order t o).keys).Pairwise
        fun a b => s.orderKey t o a < s.orderKey t o b :=
      (SortBy.pairwise.and hnd).imp fun {a b} ⟨hle, hne⟩ =>
        lt_of_le_of_ne hle fun he => hne (congrArg (fun p => (ofLex p).2) he)
    rw [hids]
    refine ⟨⟨h.keyed, fun t' o' => ?_⟩, rfl, rfl, by simp⟩
    by_cases hto : t' = t ∧ o' = o
    · obtain ⟨rfl, rfl⟩ := hto
      constructor
      case keys =>
        intro id
        simp only [Function.update_self]
        rw [hk, SortBy.mem]
        exact (h.indexed _ _).keys id
      case sorted =>
        intro _
        simp only [Function.update_self]
        rw [hk]
        exact hlt
    · refine (h.indexed t' o').of_cursors ?_ ?_ fun _ => rfl
      all_goals
        by_cases ht : t' = t
        · have ho : o' ≠ o := fun ho => hto ⟨ht, ho⟩
          simp [ht, ho]
        · simp [ht]

end Ordered

-- What a fresh sort of resources of one type goes by.
def cursorKey (o : Order) (r : RegisteredResource) : TaiCursor ×ₗ String :=
  toLex (cursorOf r o, r.id)

theorem Ordered.nodup_values (h : s.Ordered) : ((s.byType t).values.map (·.id)).Nodup := by
  have hkeys : (s.byType t).values.map (·.id) = (s.byType t).keys := by
    simp only [Dict.values, Dict.keys, List.map_map]
    exact List.map_congr_left fun p hp => (h.keyed _ _ _ (Dict.get?_eq_some.mpr hp)).2
  exact hkeys ▸ (s.byType t).nodup

theorem Ordered.filterMap_eq_sortBy (h : s.Ordered) (hd : s.orderDirty t o = false)
    (P : RegisteredResource → Bool) :
    (s.order t o).keys.filterMap (fun id => (s.record t id).filter P) =
      sortBy (cursorKey o) ((s.byType t).values.filter P) := by
  have hmem : ∀ r, r ∈ (s.order t o).keys.filterMap (fun id => (s.record t id).filter P) ↔
      r ∈ (s.byType t).values.filter P := fun r => by
    simp only [List.mem_filterMap, Option.filter_eq_some_iff, List.mem_filter, Dict.mem_values]
    constructor
    · rintro ⟨id, _, hr, hp⟩
      exact ⟨⟨id, hr⟩, hp⟩
    · rintro ⟨⟨id, hr⟩, hp⟩
      exact ⟨id, ((h.indexed t o).keys id).mpr (Option.isSome_iff_exists.mpr ⟨r, hr⟩), hr, hp⟩
  -- The index is sorted strictly, so its records are.
  have hlt : ((s.order t o).keys.filterMap fun id => (s.record t id).filter P).Pairwise
      fun r r' => cursorKey o r < cursorKey o r' := by
    refine List.pairwise_filterMap.mpr (((h.indexed t o).sorted hd).imp fun {a b} hab r hr r' hr' => ?_)
    obtain ⟨hr, _⟩ := Option.filter_eq_some_iff.mp hr
    obtain ⟨hr', _⟩ := Option.filter_eq_some_iff.mp hr'
    rw [orderKey_eq hr, orderKey_eq hr'] at hab
    rwa [cursorKey, cursorKey, (h.keyed _ _ _ hr).2, (h.keyed _ _ _ hr').2]
  have hnd : ((s.byType t).values.filter P).Nodup := List.Nodup.filter _ (.of_map _ h.nodup_values)
  have hperm : ((s.order t o).keys.filterMap fun id => (s.record t id).filter P).Perm
      ((s.byType t).values.filter P) :=
    (List.perm_ext_iff_of_nodup (hlt.imp fun h => ne_of_apply_ne _ h.ne) hnd).mpr hmem
  refine List.Perm.eq_of_pairwise (fun a b ha _ h₁ h₂ => absurd h₁ (not_lt_of_gt h₂)) hlt ?_
    (hperm.trans SortBy.perm.symm)
  have hle : (sortBy (cursorKey o) ((s.byType t).values.filter P)).Pairwise _ := SortBy.pairwise
  refine (hle.and (SortBy.perm.nodup_iff.mpr hnd)).imp_of_mem fun {a b} ha hb hab => ?_
  refine lt_of_le_of_ne hab.1 fun he => hab.2 ?_
  -- Records of one type with one id are one record.
  have hid : a.id = b.id := congrArg (fun p => (ofLex p).2) he
  rw [SortBy.mem, List.mem_filter, Dict.mem_values] at ha hb
  obtain ⟨⟨i, hi⟩, _⟩ := ha
  obtain ⟨⟨j, hj⟩, _⟩ := hb
  have hij : i = j := (h.keyed _ _ _ hi).2.symm.trans (hid.trans (h.keyed _ _ _ hj).2)
  exact Option.some.inj (hi.symm.trans (hij ▸ hj))

theorem Ordered.iterOrdered_eq (h : s.Ordered) :
    (s.iterOrdered t o).1 = sortBy (cursorKey o) (s.iterExtant t) := by
  obtain ⟨hr, hrec, hby, hd⟩ := h.resort t o
  have e := hr.filterMap_eq_sortBy hd (·.extant)
  rw [hby] at e
  exact e

theorem Ordered.cursorKey_inj (h : s.Ordered) : ∀ a ∈ s.iterExtant t, ∀ b ∈ s.iterExtant t,
    cursorKey o a = cursorKey o b → a = b := by
  intro a ha b hb e
  have hid : a.id = b.id := congrArg (fun p => (ofLex p).2) e
  exact List.inj_on_of_nodup_map h.nodup_values (List.mem_filter.mp ha).1 (List.mem_filter.mp hb).1 hid

-- What the indexes are read from.
def cursorsOf (r : RegisteredResource) : ResourceType × String × TaiCursor × TaiCursor :=
  (r.resourceType, r.id, r.created, r.updated)

-- Changes that leave every record with its cursors, and the indexes alone.
structure SameCursors (s s' : RegistryStore) : Prop where
  record     : ∀ t id, (s'.record t id).map cursorsOf = (s.record t id).map cursorsOf
  order      : s'.order = s.order
  orderDirty : s'.orderDirty = s.orderDirty

theorem Ordered.sameCursors (h : s.Ordered) (hs : s.SameCursors s') : s'.Ordered where
  keyed t id r e := by
    have hr := hs.record t id
    rw [e] at hr
    obtain ⟨q, hq, hc⟩ := Option.map_eq_some_iff.mp hr.symm
    obtain ⟨rfl, rfl⟩ := h.keyed _ _ _ hq
    exact ⟨(congrArg (·.1) hc).symm, (congrArg (·.2.1) hc).symm⟩
  indexed t o := by
    refine (h.indexed t o).of_cursors (by rw [hs.order]) (by rw [hs.orderDirty]) fun id => ?_
    cases o
    case create =>
      have hr := congrArg (Option.map fun c => c.2.2.1) (hs.record t id)
      simp only [Option.map_map] at hr
      exact hr
    case update =>
      have hr := congrArg (Option.map fun c => c.2.2.2) (hs.record t id)
      simp only [Option.map_map] at hr
      exact hr

namespace SameCursors

theorem refl : s.SameCursors s :=
  ⟨fun _ _ => rfl, rfl, rfl⟩

theorem trans {s₂ : RegistryStore} (h₁ : s.SameCursors s') (h₂ : s'.SameCursors s₂) :
    s.SameCursors s₂ :=
  ⟨fun t id => (h₂.record t id).trans (h₁.record t id), h₂.order.trans h₁.order,
    h₂.orderDirty.trans h₁.orderDirty⟩

theorem setRecord (hr : (s.record r.resourceType r.id).map cursorsOf = some (cursorsOf r)) :
    s.SameCursors (s.setRecord r) where
  record t id := by
    rw [record_setRecord]
    split
    case isTrue hk => rw [hk.1, hk.2, hr]; rfl
    case isFalse   => rfl
  order      := rfl
  orderDirty := rfl

-- The children of a resource as a loop over them finds them.
theorem foldl_children {α : Type*} (store : α → RegistryStore) (turn : α → String → α)
    (ht : ∀ a c, (store a).Keyed → (store a).SameCursors (store (turn a c))) (ids : List String) (a : α)
    (hk : (store a).Keyed) : (store a).SameCursors (store (ids.foldl turn a)) := by
  induction ids generalizing a with
  | nil => exact refl
  | cons c ids hi =>
    have h := ht a c hk
    refine h.trans (hi _ fun t id r e => ?_)
    have hr := h.record t id
    rw [e] at hr
    obtain ⟨q, hq, hc⟩ := Option.map_eq_some_iff.mp hr.symm
    obtain ⟨rfl, rfl⟩ := hk _ _ _ hq
    exact ⟨(congrArg (·.1) hc).symm, (congrArg (·.2.1) hc).symm⟩

theorem record_get (hk : s.Keyed) (hr : s.record t id = some r) :
    (s.record r.resourceType r.id).map cursorsOf = some (cursorsOf r) := by
  obtain ⟨rfl, rfl⟩ := hk _ _ _ hr
  rw [hr, Option.map_some]

theorem record_findAny (hk : s.Keyed) (hf : s.findAny id = some r) :
    (s.record r.resourceType r.id).map cursorsOf = some (cursorsOf r) := by
  obtain ⟨t, _, hg⟩ := Option.bind_eq_some_iff.mp hf
  exact record_get hk (get_eq_some.mp hg).1

theorem eraseSubtree (now : Int) (limit : Nat) (hk : s.Keyed)
    (hr : (s.record r.resourceType r.id).map cursorsOf = some (cursorsOf r)) :
    s.SameCursors (eraseSubtree now limit r s).2 := by
  induction limit generalizing r s with
  | zero => exact .refl
  | succ limit hi =>
    have h := foldl_children Prod.snd (eraseChild (RegistryStore.eraseSubtree now limit)) (fun a c hk => by
        unfold eraseChild
        split
        case h_1 child hf => exact hi hk (record_findAny hk hf)
        case h_2          => exact .refl) (s.childIds r.id) ([], s) hk
    exact h.trans <| .setRecord (r := { r with extant := false, health := now }) ((h.record _ _).trans hr)

theorem delete (t : ResourceType) (id : String) (now : Int) (hk : s.Keyed) :
    s.SameCursors (s.delete t id now).2 := by
  unfold RegistryStore.delete
  split
  case h_1 r hg => exact .eraseSubtree now _ hk (record_get hk (get_eq_some.mp hg).1)
  case h_2      => exact .refl

theorem setHealthRecursive (health : Int) (limit : Nat) (hk : s.Keyed)
    (hr : (s.record r.resourceType r.id).map cursorsOf = some (cursorsOf r)) :
    s.SameCursors (setHealthRecursive health limit r s) := by
  induction limit generalizing r s with
  | zero => exact .refl
  | succ limit hi =>
    have h := foldl_children id
      (fun s c => (s.findAny c).elim s (RegistryStore.setHealthRecursive health limit · s))
      (fun a c hk => by
        cases hf : a.findAny c with
        | none       => simpa [hf] using refl
        | some child => simpa [hf] using hi hk (record_findAny hk hf)) (s.children r.id) s hk
    exact h.trans <| .setRecord (r := { r with health }) ((h.record _ _).trans hr)

end SameCursors

namespace Ordered

variable {now : Int}

theorem delete (t : ResourceType) (id : String) (now : Int) (h : s.Ordered) :
    (s.delete t id now).2.Ordered :=
  h.sameCursors (.delete t id now h.keyed)

theorem removeOne (t : ResourceType) (id : String) (now : Int) (h : s.Ordered) :
    (s.removeOne t id now).2.Ordered := by
  unfold RegistryStore.removeOne
  split
  case h_1 r hg => exact h.retire hg
  case h_2      => exact h

theorem forget (t : ResourceType) (id : String) (h : s.Ordered) : (s.forget t id).2.Ordered := by
  unfold RegistryStore.forget
  split
  case h_1 r hr => exact h.dropRecord (h.keyed _ _ _ (Option.filter_eq_some_iff.mp hr).1)
  case h_2      => exact h

theorem heartbeat (nodeId : String) (now : Int) (h : s.Ordered) :
    (s.heartbeat nodeId now).2.Ordered := by
  unfold RegistryStore.heartbeat
  split
  case h_1 r hg =>
    exact h.sameCursors (.setHealthRecursive now _ h.keyed (SameCursors.record_get h.keyed (get_eq_some.mp hg).1))
  case h_2 => exact h

theorem collectGarbage (now : Int) (h : s.Ordered) : (s.collectGarbage now).2.Ordered := by
  have hn : ∀ (nodes : List RegisteredResource) (acc : List ResourceEvent × RegistryStore),
      acc.2.Ordered → (nodes.foldl (collectNode now) acc).2.Ordered := by
    intro nodes
    induction nodes with
    | nil => exact fun _ h => h
    | cons node nodes hi =>
      refine fun acc h => hi _ ?_
      unfold collectNode
      split
      case h_1 r hr =>
        have hr := (Option.filter_eq_some_iff.mp hr).1
        exact h.sameCursors (.eraseSubtree now _ h.keyed (SameCursors.record_get h.keyed hr))
      case h_2 => exact h
  have hf : ∀ (victims : List (ResourceType × String)) (s : RegistryStore), s.Ordered →
      (victims.foldl (fun s v => (s.forget v.1 v.2).2) s).Ordered := by
    intro victims
    induction victims with
    | nil => exact fun _ h => h
    | cons v victims hi => exact fun s h => hi _ (h.forget v.1 v.2)
  exact hf _ _ (hn _ _ h)

theorem install [Python] {records : List RegisteredResource} {gc forget : Rat} {now : TaiCursor}
    (h : Raft.install records gc forget now = some s) : s.Ordered := by
  suffices hf : ∀ (records : List RegisteredResource) (s₀ : RegistryStore), s₀.Ordered →
      records.foldlM (Raft.installRecord now) s₀ = some s → s.Ordered from hf _ _ .new h
  intro records
  induction records with
  | nil =>
    rintro s₀ hs ⟨⟩
    exact hs
  | cons r records hi =>
    intro s₀ hs h
    obtain ⟨s₁, e, h⟩ := Option.bind_eq_some_iff.mp h
    unfold Raft.installRecord at e
    split at e <;> cases e
    exact hi _ hs.applyCommitted h

end Ordered
end RegistryStore

-- What happens to the store of a registry, standalone or clustered. A cluster delivers cursors and
-- placements of its own, in whatever order.
inductive OrderOp [Python]
  | operate (op : StoreOp)
  | applyCommitted (prepared : PreparedRegistration) (body : Body) (created updated : Option TaiCursor)
    (health : Option Int) (now : TaiCursor)
  | removeOne (t : ResourceType) (id : String) (now : Int)
  -- A store built from a snapshot replaces this one.
  | swap (records : List RegisteredResource) (now : TaiCursor)
  | iterOrdered (t : ResourceType) (o : Order)

namespace RegistryStore

section Runs

variable [Python] {s : RegistryStore}

def perform (s : RegistryStore) : OrderOp → RegistryStore
  | .operate op             => s.operate op
  | .applyCommitted prepared body created updated health now =>
    (s.applyCommitted prepared body created updated health now).2
  | .removeOne t id now     => (s.removeOne t id now).2
  | .swap records now       => (Raft.install records s.gcInterval s.forgetInterval now).getD s
  | .iterOrdered t o        => (s.iterOrdered t o).2

def orderSystem (gcInterval forgetInterval : Rat) : TransitionSystem RegistryStore OrderOp where
  init     := .new gcInterval forgetInterval
  step s a := s.perform a

theorem Ordered.operate (h : s.Ordered) (a : StoreOp) : (s.operate a).Ordered := by
  cases a with
  | insertOrUpdate t body now =>
    simp only [RegistryStore.operate, insertOrUpdate]
    split
    · exact h
    · exact h.applyCommitted
  | commit t body created updated health now =>
    simp only [RegistryStore.operate, commit]
    split
    · exact h
    · exact h.applyCommitted
  | delete t id now      => exact h.delete t id now
  | collectGarbage now   => exact h.collectGarbage now
  | heartbeat nodeId now => exact h.heartbeat nodeId now
  | forget t id          => exact h.forget t id

theorem Ordered.step (h : s.Ordered) (a : OrderOp) : (s.perform a).Ordered := by
  cases a with
  | operate op         => exact h.operate op
  | applyCommitted     => exact h.applyCommitted
  | removeOne t id now => exact h.removeOne t id now
  | swap records now   =>
    simp only [perform]
    cases e : Raft.install records s.gcInterval s.forgetInterval now with
    | none   => exact h
    | some s => exact .install e
  | iterOrdered t o    => exact (h.resort t o).1

theorem ordered_of_reachable {gc forget : Rat} (h : (orderSystem gc forget).Reachable s) :
    s.Ordered := by
  refine h.induct .new fun s a s' _ hs _ e => ?_
  cases e
  exact hs.step a

-- Reading an order yields what a fresh sort would: the extant resources, each once, as they come in
-- the index of all resources of the type, which is sorted too.
theorem iterOrdered_sorted (gc forget : Rat) (s : RegistryStore)
    (h : (orderSystem gc forget).Reachable s) (t : ResourceType) (o : Order) :
    (s.iterOrdered t o).1 = sortBy (cursorKey o) (s.iterExtant t) ∧
      ((s.iterOrdered t o).2.order t o).keys.filterMap (s.record t) =
        sortBy (cursorKey o) (s.byType t).values ∧
      ((s.byType t).values.map (·.id)).Nodup := by
  have hs := ordered_of_reachable h
  obtain ⟨hr, hrec, hby, hd⟩ := hs.resort t o
  refine ⟨hs.iterOrdered_eq, ?_, hs.nodup_values⟩
  have e := hr.filterMap_eq_sortBy hd fun _ => true
  rw [hby, hrec, List.filter_true] at e
  rw [← e]
  exact List.filterMap_congr fun id _ => by cases s.record t id <;> rfl

end Runs
end RegistryStore

-- Two Nodes that tie, one that comes late, and one that is deleted and comes back with an earlier
-- cursor than it had.
namespace Backwards

def text (id : String) : String :=
  "\x7b\"id\": \"" ++ id ++ "\", \"version\": \"1:0\"\x7d"

local instance python : Python :=
  .ofTable <| ["a", "b", "c"].map fun id => (text id, [("id", id), ("version", "1:0")])

def commit (id : String) (cursor : TaiCursor) : OrderOp :=
  .operate <| .commit .node ⟨text id⟩ cursor cursor (some 1) ⟨1, 0⟩

def ops : List OrderOp :=
  [commit "b" ⟨5, 0⟩, commit "a" ⟨5, 0⟩, .iterOrdered .node .update, commit "c" ⟨1, 0⟩,
    .operate (.delete .node "b" 6), commit "b" ⟨0, 0⟩]

theorem iterOrdered_sorted_backwards : ∃ s,
    (RegistryStore.orderSystem 12 60).run (.new 12 60) ops = some s ∧
    (s.iterOrdered .node .create).1 = sortBy (RegistryStore.cursorKey .create) (s.iterExtant .node) ∧
    ((s.iterOrdered .node .create).2.order .node .create).keys.filterMap (s.record .node) =
      sortBy (RegistryStore.cursorKey .create) (s.byType .node).values ∧
    ((s.byType .node).values.map (·.id)).Nodup ∧
    (s.iterOrdered .node .create).1.map (·.id) = ["b", "c", "a"] :=
  have ⟨h₁, h₂, h₃⟩ := RegistryStore.iterOrdered_sorted 12 60 _ (.of_run ops rfl) .node .create
  ⟨_, rfl, h₁, h₂, h₃, by decide⟩

end Backwards
end Registry
