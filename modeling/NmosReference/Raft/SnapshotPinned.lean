import NmosReference.Raft.SnapshotWalk

namespace Raft

open Registry RegistryStore

variable {s₀ store store' : RegistryStore} {L recs : List RegisteredResource} {images : List Image}
variable {r : RegisteredResource} {now : TaiCursor} {gc forget : Rat} {k : ResourceKey}

-- A record as it comes out of a snapshot.
def decoded (r : RegisteredResource) : RegisteredResource :=
  { r with health := max 0 r.health }

theorem mapM_decode_encode (recs : List RegisteredResource) (h : ∀ r ∈ recs, r.parentId ≠ some "") :
    (recs.map encodeResource).mapM decodeResource = some (recs.map decoded) := by
  induction recs with
  | nil => rfl
  | cons r recs hi =>
    have ⟨hr, hrs⟩ := List.forall_mem_cons.mp h
    simp [decode_encodeResource hr, hi hrs, decoded]

theorem map_decoded_keyOf : (recs.map decoded).map keyOf = recs.map keyOf := by
  rw [List.map_map]; rfl

section Install

variable [Python]

theorem parsed_decoded (h : Parsed r) : Parsed (decoded r) :=
  ⟨h.id, h.id_ne, h.version, h.parentId, h.parent_ne⟩

-- A record that was accepted is extant, and none that was restored before it is lost.
theorem installRecord_extant (hs : store.Sound) (h : installRecord now store r = some store') :
    store'.Sound ∧ (∀ t x, (store.get t x).isSome → (store'.get t x).isSome) ∧
      (Parsed r → (store'.get r.resourceType r.id).isSome) := by
  unfold installRecord at h
  split at h
  · cases h
  case h_2 p hp =>
    cases h
    have ha := prepare_eq_ok.mp hp
    have hreg := (applyCommitted_registered r.body (some r.created) (some r.updated) (some r.health)
      now hs.wellFormed ha rfl).1
    refine ⟨hs.applyCommitted ha, fun t x hx => ?_, fun hr => ?_⟩
    · rw [RegistryStore.get, hreg.record]
      split
      · simp [committed]
      · exact hx
    · have hid : r.id = p.resourceId := Option.some.inj (hr.id.symm.trans ha.id)
      rw [RegistryStore.get, hreg.record, if_pos ⟨ha.type.symm, hid⟩]
      simp [committed]

theorem foldlM_extant (hs : store.Sound) (h : L.foldlM (installRecord now) store = some store') :
    store'.Sound ∧ (∀ t x, (store.get t x).isSome → (store'.get t x).isSome) ∧
      ∀ r ∈ L, Parsed r → (store'.get r.resourceType r.id).isSome := by
  induction L generalizing store with
  | nil =>
    cases h
    exact ⟨hs, fun _ _ hx => hx, by simp⟩
  | cons r L hi =>
    obtain ⟨store₁, e, h⟩ := Option.bind_eq_some_iff.mp h
    have ⟨hs₁, hk₁, hr₁⟩ := installRecord_extant hs e
    have ⟨hs₂, hk₂, hr₂⟩ := hi hs₁ h
    refine ⟨hs₂, fun t x => hk₂ t x ∘ hk₁ t x, fun q hq hp => ?_⟩
    obtain rfl | hq := List.mem_cons.mp hq
    · exact hk₂ _ _ (hr₁ hp)
    · exact hr₂ q hq hp

theorem install_sound (h : install L gc forget now = some store) : store.Sound :=
  (foldlM_extant .new h).1

-- Whatever is among the records of a snapshot is extant after it was installed.
theorem install_extant (h : install L gc forget now = some store) (hr : r ∈ L) (hp : Parsed r) :
    (store.get r.resourceType r.id).isSome :=
  (foldlM_extant .new h).2.2 r (SortBy.mem.mpr hr) hp

theorem install_intervals (h : install L gc forget now = some store) :
    store.gcInterval = gc ∧ store.forgetInterval = forget := by
  suffices hf : ∀ (L : List RegisteredResource) (s : RegistryStore),
      L.foldlM (installRecord now) s = some store → s.SameIntervals store from
    have h := hf _ _ h
    ⟨h.gcInterval, h.forgetInterval⟩
  intro L
  induction L with
  | nil =>
    rintro s ⟨⟩
    exact .refl
  | cons r L hi =>
    intro s h
    obtain ⟨s₁, e, h⟩ := Option.bind_eq_some_iff.mp h
    unfold installRecord at e
    split at e <;> cases e
    exact SameIntervals.applyCommitted.trans (hi _ h)

-- Everything that an install can do.
theorem StateMachine.installPayload_spec {m m' : StateMachine} {snap : Snapshot} {now : TaiCursor}
    (h : m.installPayload snap now = some m') :
    m'.store.Sound ∧ m.store.SameIntervals m'.store ∧ m'.lastApplied = snap.lastIndex ∧
      m'.capture = none := by
  obtain ⟨_, _, h⟩ := Option.bind_eq_some_iff.mp h
  obtain ⟨store, hs, h⟩ := Option.bind_eq_some_iff.mp h
  cases h
  have ⟨hg, hf⟩ := install_intervals hs
  exact ⟨install_sound hs, ⟨hg, hf⟩, rfl, rfl⟩

-- The machines that a member can have: it applies entries, opens and closes captures, and installs
-- snapshots it was sent.
inductive StateMachine.Reached : StateMachine → Prop
  | new {gc forget : Rat} {cursors : CursorAllocator} : Reached (.new (.new gc forget) cursors)
  | apply {m : StateMachine} {now : TaiCursor} {entry : Entry RegistryOperation} :
    Reached m → Reached (m.applyEntry now entry).2.2
  | beginCapture {m m' : StateMachine} {index term : Nat} :
    Reached m → m.beginCapture index term = some m' → Reached m'
  | endCapture {m : StateMachine} : Reached m → Reached { m with capture := none }
  | install {m m' : StateMachine} {snap : Snapshot} {now : TaiCursor} :
    Reached m → m.installPayload snap now = some m' → Reached m'

theorem StateMachine.Reached.sound {m : StateMachine} (h : m.Reached) : m.store.Sound := by
  induction h with
  | new => exact .new
  | apply _ hi => exact applyEntry_sound hi _
  | beginCapture _ h hi =>
    unfold StateMachine.beginCapture at h
    split at h <;> cases h
    exact hi
  | endCapture _ hi => exact hi
  | install _ h _ => exact (installPayload_spec h).1

-- Decoding and installing the snapshot yields the extant resources of the pinned state, each once and
-- as it was, and nothing else.
def Faithful (s₀ : RegistryStore) (snap : Snapshot) : Prop :=
  ∃ ownership records, decodeSnapshot snap = some (ownership, records) ∧
    (records.map keyOf).Nodup ∧ ∀ gc forget now, ∃ store, install records gc forget now = some store ∧
      ∀ t x, (store.get t x).map view = (s₀.get t x).map view

-- The extant records of a sound store make an installable snapshot, which restores them.
theorem Pinned.restores {P : ResourceKey → Prop} (gc forget : Rat) (now : TaiCursor) (hs : s₀.Sound) (h : Pinned s₀ P images recs)
    (hP : ∀ r, s₀.record r.resourceType r.id = some r → (P (keyOf r) ↔ r.extant = true)) :
    ∃ store, install (recs.map decoded) gc forget now = some store ∧ store.Sound ∧
      (∀ t x, (store.get t x).map view = (s₀.get t x).map view) ∧
      ∀ t x r, store.record t x = some r → r.extant = true := by
  have hw := hs.wellFormed
  have hmem : ∀ r, r ∈ recs ↔ s₀.get r.resourceType r.id = some r := fun r => by
    rw [h.mem, get_eq_some]
    exact and_congr_right (hP r)
  have hL : Installable (recs.map decoded) := {
    nodup := by
      have e : (recs.map decoded).map (·.id) = (recs.map keyOf).map Prod.snd := by
        simp only [List.map_map]; rfl
      rw [e]
      refine h.nodup.map_on fun k₁ h₁ k₂ h₂ hk => ?_
      obtain ⟨r₁, hr₁, rfl⟩ := List.mem_map.mp h₁
      obtain ⟨r₂, hr₂, rfl⟩ := List.mem_map.mp h₂
      have hk : r₁.id = r₂.id := hk
      exact Prod.ext (hw.type_unique ((h.mem r₁).mp hr₁).1 (hk ▸ ((h.mem r₂).mp hr₂).1)) hk
    parsed := fun r hr => by
      obtain ⟨q, hq, rfl⟩ := List.mem_map.mp hr
      exact parsed_decoded <| hs.parsed _ _ _ ((h.mem q).mp hq).1
    parent := fun r hr pt ht => by
      obtain ⟨q, hq, rfl⟩ := List.mem_map.mp hr
      have hg := (hmem q).mp hq
      have hrec := (get_eq_some.mp hg).1
      have hne : q.parentId ≠ none := fun hn => by
        have := (hw.shape _ _ _ hrec).mp hn
        simp [show q.resourceType.parentType = some pt from ht] at this
      obtain ⟨p, hp⟩ := Option.ne_none_iff_exists'.mp hne
      have ⟨q', hq'⟩ := hw.parent _ _ _ _ _ hg hp ht
      have hk := hw.key _ _ _ (get_eq_some.mp hq').1
      refine ⟨decoded q', List.mem_map_of_mem <| (hmem q').mpr ?_, ?_, hk.1⟩
      · rw [hk.1, hk.2]; exact hq'
      · rw [show (decoded q').id = q'.id from rfl, hk.2]; exact hp }
  have ⟨store, e, hr⟩ := install_restored gc forget now hL
  have hext : ∀ t x q, store.record t x = some q → q.extant = true := fun t x q hq => by
    obtain ⟨_, _, _, _, rfl⟩ := (hr.record _ _ _).mp hq
    rfl
  refine ⟨store, e, hr.sound, fun t x => ?_, hext⟩
  cases hg : s₀.get t x with
  | some q =>
    have hk := hw.key _ _ _ (get_eq_some.mp hg).1
    have hm := (hmem q).mpr (by rw [hk.1, hk.2]; exact hg)
    have hq := (hr.record t x _).mpr ⟨decoded q, List.mem_map_of_mem hm, hk.1, hk.2, rfl⟩
    rw [get_eq_some.mpr ⟨hq, rfl⟩]
    simp [view, decoded, (get_eq_some.mp hg).2]
  | none =>
    cases hq : store.get t x with
    | none => rfl
    | some q =>
      obtain ⟨r, hr', rfl, rfl, _⟩ := (hr.record _ _ _).mp (get_eq_some.mp hq).1
      obtain ⟨r, hm, rfl⟩ := List.mem_map.mp hr'
      have := (hmem r).mp hm
      simp_all [decoded]

-- The images of a pinned state decode to its records.
theorem Pinned.decodes {P : ResourceKey → Prop} {snap : Snapshot} (hs : s₀.Sound)
    (h : Pinned s₀ P snap.records recs) (hc : snap.count = snap.records.length) :
    decodeSnapshot snap = some (.decode snap.ownership, recs.map decoded) := by
  have hm := mapM_decode_encode recs fun r hr =>
    (hs.parsed _ _ _ ((h.mem r).mp hr).1).parent_ne
  rw [← h.images] at hm
  have hl : snap.count = recs.length := by rw [hc, h.images, List.length_map]
  simp [decodeSnapshot, hm, hl]

-- A snapshot of the extant records and of those that were touched is faithful if and only if no
-- tombstone was touched: `install` revives every record it is given.
theorem Pinned.faithful_iff {T : ResourceKey → Prop} {snap : Snapshot} (hs : s₀.Sound)
    (h : Pinned s₀ (fun k => (∃ r, s₀.get k.1 k.2 = some r) ∨ T k) snap.records recs)
    (hc : snap.count = snap.records.length) :
    Faithful s₀ snap ↔ ∀ k, Tombstone s₀ k → ¬T k := by
  have hd := h.decodes hs hc
  constructor
  · rintro ⟨ownership, records, hdec, _, hinst⟩ k ⟨r, hr, he⟩ ht
    obtain ⟨_, rfl⟩ := Prod.mk.inj (Option.some.inj (hd.symm.trans hdec))
    obtain ⟨store, hi, hv⟩ := hinst 0 0 .min
    have hk := hs.wellFormed.key _ _ _ hr
    have hkey : keyOf r = k := Prod.ext hk.1 hk.2
    have hm : r ∈ recs := (h.mem r).mpr ⟨by rw [hk.1, hk.2]; exact hr, .inr (hkey ▸ ht)⟩
    have hx := install_extant hi (List.mem_map_of_mem hm) <|
      parsed_decoded <| hs.parsed _ _ _ ((h.mem r).mp hm).1
    have hn : s₀.get r.resourceType r.id = none := by
      simp [RegistryStore.get, ((h.mem r).mp hm).1, Option.filter, he]
    have := hv r.resourceType r.id
    rw [hn, Option.map_none, Option.map_eq_none_iff] at this
    simp [decoded, this] at hx
  · intro ht
    refine ⟨_, _, hd, by rw [map_decoded_keyOf]; exact h.nodup, fun gc forget now => ?_⟩
    obtain ⟨store, hi, _, hv, _⟩ := h.restores gc forget now hs fun r hr => by
      simp only [keyOf, RegistryStore.get, hr, Option.filter_some]
      cases he : r.extant with
      | true  => simp
      | false => simpa using ht _ ⟨r, hr, he⟩
    exact ⟨store, hi, hv⟩

end Install
end Raft
