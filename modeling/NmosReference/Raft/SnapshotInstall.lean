import NmosReference.Raft.Snapshot
import NmosReference.Registry.StoreMirror

namespace Raft

open Registry RegistryStore

variable {L pre post : List RegisteredResource} {r q : RegisteredResource} {t : ResourceType}
variable {id : String} {store store' : RegistryStore} {now : TaiCursor} {gc forget : Rat}

theorem find_value (t : ResourceType) : ResourceType.all.find? (·.value = t.value) = some t := by
  cases t <;> decide

theorem decode_encodeResource (h : r.parentId ≠ some "") :
    decodeResource (encodeResource r) = some { r with health := max 0 r.health } := by
  have hp : (if r.parentId.getD "" = "" then none else some (r.parentId.getD "")) = r.parentId := by
    cases hp : r.parentId <;> simp_all
  have hh : (r.health.toNat : Int) = max 0 r.health := by omega
  calc decodeResource (encodeResource r)
    _ = (ResourceType.all.find? (·.value = r.resourceType.value)).bind fun t =>
          some { r with resourceType := t, health := r.health.toNat, parentId :=
            if r.parentId.getD "" = "" then none else some (r.parentId.getD "") } := rfl
    _ = some { r with health := max 0 r.health } := by rw [find_value, hp, hh]; rfl

section Install

variable [Python]

-- The records of a snapshot that `install` can restore: distinct ids, each record agreeing with its
-- body, each parent among them.
structure Installable (L : List RegisteredResource) : Prop where
  nodup  : (L.map (·.id)).Nodup
  parsed : ∀ r ∈ L, Parsed r
  parent : ∀ r ∈ L, ∀ pt, r.resourceType.parentType = some pt →
    ∃ q ∈ L, r.parentId = some q.id ∧ q.resourceType = pt

-- The store that holds exactly these records.
structure Restored (L : List RegisteredResource) (store : RegistryStore) : Prop where
  sound  : store.Sound
  record : ∀ t id q, store.record t id = some q ↔
    ∃ r ∈ L, r.resourceType = t ∧ r.id = id ∧ q = { r with extant := true }

theorem Restored.nil (gc forget : Rat) : Restored [] (.new gc forget) where
  sound  := .new
  record := by simp [RegistryStore.new, RegistryStore.record]

theorem installRecord_restored (now : TaiCursor) (h : Restored pre store) (hp : Parsed r)
    (hid : r.id ∉ pre.map (·.id))
    (hpar : ∀ pt, r.resourceType.parentType = some pt →
      ∃ q ∈ pre, r.parentId = some q.id ∧ q.resourceType = pt) :
    ∃ store', installRecord now store r = some store' ∧ Restored (pre ++ [r]) store' := by
  have hnone : ∀ t, store.record t r.id = none := fun t => by
    by_contra hne
    obtain ⟨q, hq⟩ := Option.ne_none_iff_exists'.mp hne
    obtain ⟨r', hr', _, hid', _⟩ := (h.record _ _ _).mp hq
    exact hid <| hid' ▸ List.mem_map_of_mem hr'
  let p : PreparedRegistration := ⟨r.resourceType, r.id, r.version, r.parentId, true, false⟩
  have ha : store.Accepts r.resourceType r.raw p := {
    type     := rfl
    id       := hp.id
    id_ne    := hp.id_ne
    version  := hp.version
    parentId := hp.parentId
    typed    := fun t ht => by
      obtain ⟨q, hq⟩ := (h.sound.wellFormed.typed _ _).mp ht
      simp [p, hnone] at hq
    parent   := by
      refine checkParent_of_get h.sound.wellFormed (fun ht => ?_) fun pt ht => ?_
      · simp only [p, hp.parentId, parentIdOf, ResourceType.parentKey_eq_none.mpr ht, Option.bind_none]
      · obtain ⟨q, hq, hqp, hqt⟩ := hpar pt ht
        have hrec := (h.record _ _ _).mpr ⟨q, hq, hqt, rfl, rfl⟩
        exact ⟨q.id, _, hqp, get_eq_some.mpr ⟨hrec, rfl⟩⟩
    update   := by simp [p, RegistryStore.get, hnone]
    reviving := by simp [p, hnone]
    creates  := by simp [p, hnone] }
  refine ⟨(store.applyCommitted p r.body r.created r.updated r.health now).2, ?_, ?_, ?_⟩
  · simp [installRecord, prepare_eq_ok.mpr ha]
  · exact h.sound.applyCommitted ha
  · have hreg := (applyCommitted_registered r.body (some r.created) (some r.updated) (some r.health)
      now h.sound.wellFormed ha rfl).1
    intro t id q
    have hc : store.committed p r.body r.created r.updated r.health = { r with extant := true } := by
      simp [committed, p, RegistryStore.get, hnone]
    have hcur : (store.commitCursor p.resourceType (some r.updated) now).1 = r.updated := rfl
    rw [hreg.record, hcur]
    simp only [Option.getD_some, hc, List.mem_append, List.mem_singleton]
    by_cases hk : t = r.resourceType ∧ id = r.id
    · obtain ⟨rfl, rfl⟩ := hk
      simp only [p, and_self, ↓reduceIte, Option.some.injEq]
      constructor
      · rintro rfl
        exact ⟨r, .inr rfl, rfl, rfl, rfl⟩
      · rintro ⟨r', hr' | rfl, _, hid', rfl⟩
        · exact absurd (hid' ▸ List.mem_map_of_mem hr') hid
        · rfl
    · simp only [p, hk, ↓reduceIte, h.record]
      constructor
      · rintro ⟨r', hr', ht, hi, rfl⟩
        exact ⟨r', .inl hr', ht, hi, rfl⟩
      · rintro ⟨r', hr' | rfl, ht, hi, rfl⟩
        · exact ⟨r', hr', ht, hi, rfl⟩
        · exact absurd ⟨ht.symm, hi.symm⟩ hk

-- Parents come first in the order of depth, so that each record finds its parent restored.
theorem foldlM_restored (now : TaiCursor) (pre post : List RegisteredResource)
    (h : Installable L) (hp : (pre ++ post).Perm L)
    (hs : (pre ++ post).Pairwise fun r q => r.resourceType.depth ≤ q.resourceType.depth)
    (hr : Restored pre store) :
    ∃ store', post.foldlM (installRecord now) store = some store' ∧ Restored (pre ++ post) store' := by
  induction post generalizing pre store with
  | nil => exact ⟨store, rfl, by simpa using hr⟩
  | cons r post hi =>
    have hmem : r ∈ L := hp.mem_iff.mp (by simp)
    have hnd : ((pre ++ r :: post).map (·.id)).Nodup := (hp.map _).nodup_iff.mpr h.nodup
    have hid : r.id ∉ pre.map (·.id) := fun hm => by
      rw [List.map_append, List.nodup_append] at hnd
      exact hnd.2.2 _ hm _ (by simp) rfl
    have ⟨store₁, e₁, h₁⟩ := installRecord_restored now hr (h.parsed r hmem) hid
      fun pt ht => by
        have ⟨q, hq, hqp, hqt⟩ := h.parent r hmem pt ht
        refine ⟨q, ?_, hqp, hqt⟩
        have hd := ResourceType.depth_parentType ht
        have hq' := hp.mem_iff.mpr hq
        rw [List.mem_append] at hq'
        refine hq'.resolve_right fun hpost => ?_
        have hle : r.resourceType.depth ≤ q.resourceType.depth := by
          obtain rfl | hpost := List.mem_cons.mp hpost
          · exact le_refl _
          · exact (List.pairwise_cons.mp (List.pairwise_append.mp hs).2.1).1 q hpost
        rw [hqt] at hle
        omega
    have ⟨store₂, e₂, h₂⟩ := hi (pre ++ [r]) (by simpa using hp) (by simpa using hs) h₁
    exact ⟨store₂, by simp [e₁, e₂], by simpa using h₂⟩

-- A snapshot that is installable installs, and restores exactly its records.
theorem install_restored (gc forget : Rat) (now : TaiCursor) (h : Installable L) :
    ∃ store, install L gc forget now = some store ∧ Restored L store := by
  have hp : (depthOrder L).Perm L := SortBy.perm
  have hs : (depthOrder L).Pairwise fun r q => r.resourceType.depth ≤ q.resourceType.depth :=
    SortBy.pairwise.imp fun {r q} h =>
      Prod.Lex.monotone_fst (toLex (r.resourceType.depth, r.id)) (toLex (_, q.id)) h
  have ⟨store, e, hr⟩ := foldlM_restored now [] (depthOrder L) h
    (by simpa using hp) (by simpa using hs) (.nil gc forget)
  refine ⟨store, e, hr.sound, fun t id q => ?_⟩
  simpa [hp.mem_iff] using hr.record t id q

end Install
end Raft
