import NmosReference.Registry.StorePublish

-- The store of a member whose resources are kept in etcd: a view that is read as a whole, and then
-- follows the watched revisions.
namespace Registry

-- What a resource key identifies.
structure ParsedKey where
  resourceType : ResourceType
  resourceId   : String
  nodeId       : String
  deviceId     : Option String
  deriving DecidableEq, Repr

def ParsedKey.depth (key : ParsedKey) : Nat :=
  key.resourceType.depth

-- The stored value for one resource.
structure Envelope where
  resourceType : ResourceType
  body         : Body
  created      : TaiCursor
  updated      : TaiCursor
  health       : Int
  deriving DecidableEq, Repr

-- One event of a revision.
structure WatchEvent where
  -- `none` for a key that is not parseable or is not materialised.
  key      : Option ParsedKey
  deleted  : Bool
  -- `none` for a corrupt value.
  envelope : Option Envelope
  deriving DecidableEq, Repr

namespace RegistryStore

variable {s s' : RegistryStore} {t : ResourceType} {x : String} {r : RegisteredResource}
variable {now : TaiCursor} {acc : List ResourceEvent × RegistryStore} {c : Content}

def removals (batch : List WatchEvent) : List ParsedKey :=
  batch.filterMap fun e => if e.deleted then e.key else none

def applyRemoval (now : TaiCursor) (acc : List ResourceEvent × RegistryStore) (key : ParsedKey) :
    List ResourceEvent × RegistryStore :=
  let (removed, s) := acc.2.removeOne key.resourceType key.resourceId now.seconds
  (acc.1 ++ removed.toList, s)

theorem applyRemoval_spec (now : TaiCursor) (key : ParsedKey) (hk : acc.2.Keyed)
    (hd : Describes acc.1 c acc.2.content) : (applyRemoval now acc key).2.Keyed ∧
      Describes (applyRemoval now acc key).1 c (applyRemoval now acc key).2.content :=
  have ⟨hk', hd'⟩ := removeOne_spec (t := key.resourceType) key.resourceId hk
  ⟨hk', hd.append hd'⟩

-- Drops the tombstones of this member's view.
def forgetTombstones (s : RegistryStore) (now : Int) : RegistryStore :=
  (s.forgettable now).foldl (fun s v => (s.forget v.1 v.2).2) s

-- `{r.id: r for r in ...}`
def indexById (resources : List RegisteredResource) : Dict String RegisteredResource :=
  resources.foldl (fun index r => index.set r.id r) ∅

theorem get?_indexById {rs : List RegisteredResource} (hn : (rs.map (·.id)).Nodup) :
    (indexById rs).get? x = some r ↔ r ∈ rs ∧ r.id = x := by
  suffices h : ∀ d : Dict String RegisteredResource,
      (rs.foldl (fun index r => index.set r.id r) d).get? x = some r ↔
        r ∈ rs ∧ r.id = x ∨ x ∉ rs.map (·.id) ∧ d.get? x = some r by
    simpa [indexById] using h ∅
  induction rs with
  | nil => simp
  | cons q rs hi =>
    intro d
    have hn := List.nodup_cons.mp hn
    rw [List.foldl_cons, hi hn.2]
    simp only [Dict.get?_set, List.mem_cons, List.map_cons, not_or]
    by_cases hx : x = q.id
    · subst hx
      have hno : ∀ r ∈ rs, r.id ≠ q.id := fun r hr e => hn.1 (List.mem_map.mpr ⟨r, hr, e⟩)
      simp only [↓reduceIte, Option.some.injEq, not_true_eq_false, false_and, or_false]
      constructor
      · rintro (⟨hr, e⟩ | ⟨_, rfl⟩)
        · exact absurd e (hno r hr)
        · exact ⟨.inl rfl, rfl⟩
      · rintro ⟨rfl | hr, e⟩
        · exact .inr ⟨hn.1, rfl⟩
        · exact absurd e (hno r hr)
    · simp only [hx, ↓reduceIte, not_false_eq_true, true_and]
      constructor
      · rintro (⟨hr, e⟩ | h)
        · exact .inl ⟨.inr hr, e⟩
        · exact .inr h
      · rintro (⟨rfl | hr, e⟩ | h)
        · exact absurd e.symm hx
        · exact .inl ⟨hr, e⟩
        · exact .inr h

theorem get?_index (hk : s.Keyed) : (indexById (s.iterExtant t)).get? x = s.get t x := by
  refine Option.ext fun r => ?_
  rw [get?_indexById (nodup_iterExtant hk), mem_iterExtant hk]
  constructor
  · rintro ⟨hr, rfl⟩
    exact hr
  · intro hr
    obtain rfl := (hk _ _ _ (get_eq_some.mp hr).1).2
    exact ⟨hr, rfl⟩

theorem nodup_filterMap_key (d : Dict String RegisteredResource)
    (g : String × RegisteredResource → Option ResourceEvent)
    (hg : ∀ p ∈ d.items, ∀ e, g p = some e → e.key = (t, p.1)) :
    ((d.items.filterMap g).map ResourceEvent.key).Nodup := by
  have hs : ∀ l : List (String × RegisteredResource), (∀ p ∈ l, ∀ e, g p = some e → e.key = (t, p.1)) →
      ((l.filterMap g).map ResourceEvent.key).Sublist (l.map fun p => (t, p.1)) := by
    intro l
    induction l with
    | nil => exact fun _ => .refl _
    | cons p l hi =>
      intro hl
      have hi := hi fun q hq => hl q (by simp [hq])
      cases hgp : g p with
      | none   => simpa [hgp] using hi.cons _
      | some e => simpa [hgp, hl p (by simp) e hgp] using hi
  refine List.Nodup.sublist (hs d.items hg) ?_
  rw [show (fun p : String × RegisteredResource => (t, p.1)) = Prod.mk t ∘ Prod.fst from rfl,
    ← List.map_map]
  exact d.nodup.map (Prod.mk_right_injective t)

section

variable [Python]

-- The key and the value must agree about what this resource is.
def checkEnvelope (key : ParsedKey) (envelope : Envelope) : Bool :=
  envelope.resourceType = key.resourceType ∧
    Python.getStr envelope.body.data "id" = some key.resourceId

-- Inserts one resource, carrying etcd's authoritative cursors.
def applyEnvelope (s : RegistryStore) (envelope : Envelope) (now : TaiCursor) :
    Except RegistrationResult (List ResourceEvent × RegistryStore) :=
  match s.prepare envelope.resourceType envelope.body.data with
  | .error failure => .error failure
  | .ok prepared   =>
    let (result, s) :=
      s.applyCommitted prepared envelope.body envelope.created envelope.updated envelope.health now
    .ok (result.events, s)

-- One addition of a revision; what cannot be applied is logged and left out.
def applyAddition (now : TaiCursor) (acc : List ResourceEvent × RegistryStore)
    (addition : ParsedKey × Envelope) : List ResourceEvent × RegistryStore :=
  match acc.2.applyEnvelope addition.2 now with
  | .error _         => acc
  | .ok (events, s)  => (acc.1 ++ events, s)

def additions (batch : List WatchEvent) : List (ParsedKey × Envelope) :=
  batch.filterMap fun e =>
    if e.deleted then none else
      match e.key, e.envelope with
      | some key, some envelope => if checkEnvelope key envelope then some (key, envelope) else none
      | _, _                    => none

-- Applies one complete revision: parents before children, and then removals, descendants before
-- ancestors.
def applyBatch (s : RegistryStore) (batch : List WatchEvent) (now : TaiCursor) :
    List ResourceEvent × RegistryStore :=
  let added := sortBy (fun a => toLex (a.1.depth, a.1.resourceId)) (additions batch)
  let removed := sortBy (fun key => OrderDual.toDual key.depth) (removals batch)
  removed.foldl (applyRemoval now) <| added.foldl (applyAddition now) ([], s)

-- Builds a store off to the side from everything under the namespace; `none` if it is corrupt.
def readSnapshot (kvs : List (ParsedKey × Envelope)) (gcInterval forgetInterval : Rat)
    (now : TaiCursor) : Option RegistryStore := do
  guard <| kvs.all fun kv => checkEnvelope kv.1 kv.2
  let collected := sortBy (fun kv => toLex (kv.1.depth, kv.1.resourceId)) kvs
  let s ← collected.foldlM (fun s kv => ((s.applyEnvelope kv.2 now).toOption.map Prod.snd))
    (.new gcInterval forgetInterval)
  -- Every resource but a Node must have found its parent.
  guard <| ResourceType.all.all fun t =>
    t = .node ∨ (s.iterExtant t).all (·.parentId.isSome)
  some s

def diffType (previous current : RegistryStore) (t : ResourceType) : List ResourceEvent :=
  let before := indexById (previous.iterExtant t)
  let after := indexById (current.iterExtant t)
  let changed := after.items.filterMap fun (id, resource) =>
    match before.get? id with
    | none     => some <| .added resource
    | some was =>
      if Python.jsonEq was.raw resource.raw then none else some <| .modified was.body resource
  let removed := before.items.filterMap fun (id, resource) =>
    if after.contains id then none else some <| .removed resource
  changed ++ removed

-- Subscription events describing how `previous` became `current`.
def diffStores (previous current : RegistryStore) : List ResourceEvent :=
  ResourceType.all.flatMap (diffType previous current)

variable {previous current : RegistryStore}

theorem applyEnvelope_spec {envelope : Envelope} {events : List ResourceEvent} (hk : s.Keyed)
    (h : s.applyEnvelope envelope now = .ok (events, s')) :
    s'.Keyed ∧ Describes events s.content s'.content := by
  unfold applyEnvelope at h
  split at h
  case h_1 => cases h
  case h_2 p hp =>
    cases h
    exact applyCommitted_describes envelope.body (some envelope.created) (some envelope.updated)
      (some envelope.health) now hk (prepare_eq_ok.mp hp)

section Batch

theorem applyAddition_spec (now : TaiCursor) (addition : ParsedKey × Envelope) (hk : acc.2.Keyed)
    (hd : Describes acc.1 c acc.2.content) : (applyAddition now acc addition).2.Keyed ∧
      Describes (applyAddition now acc addition).1 c (applyAddition now acc addition).2.content := by
  unfold applyAddition
  split
  case h_1 => exact ⟨hk, hd⟩
  case h_2 h =>
    have ⟨hk', hd'⟩ := applyEnvelope_spec hk h
    exact ⟨hk', hd.append hd'⟩

-- A revision is told by its events.
theorem applyBatch_spec (batch : List WatchEvent) (now : TaiCursor) (hk : s.Keyed) :
    (s.applyBatch batch now).2.Keyed ∧
      Describes (s.applyBatch batch now).1 s.content (s.applyBatch batch now).2.content := by
  have hadd : ∀ (l : List (ParsedKey × Envelope)) (acc : List ResourceEvent × RegistryStore),
      acc.2.Keyed → Describes acc.1 s.content acc.2.content →
      (l.foldl (applyAddition now) acc).2.Keyed ∧ Describes (l.foldl (applyAddition now) acc).1
        s.content (l.foldl (applyAddition now) acc).2.content := by
    intro l
    induction l with
    | nil          => exact fun _ hk hd => ⟨hk, hd⟩
    | cons a l hi =>
      intro acc hk hd
      have ⟨hk', hd'⟩ := applyAddition_spec now a hk hd
      exact hi _ hk' hd'
  have hrem : ∀ (l : List ParsedKey) (acc : List ResourceEvent × RegistryStore),
      acc.2.Keyed → Describes acc.1 s.content acc.2.content →
      (l.foldl (applyRemoval now) acc).2.Keyed ∧ Describes (l.foldl (applyRemoval now) acc).1
        s.content (l.foldl (applyRemoval now) acc).2.content := by
    intro l
    induction l with
    | nil          => exact fun _ hk hd => ⟨hk, hd⟩
    | cons a l hi =>
      intro acc hk hd
      have ⟨hk', hd'⟩ := applyRemoval_spec now a hk hd
      exact hi _ hk' hd'
  have ⟨hk', hd'⟩ := hadd (sortBy (fun a => toLex (a.1.depth, a.1.resourceId)) (additions batch))
    ([], s) hk rfl
  exact hrem _ _ hk' hd'

end Batch

theorem readSnapshot_keyed {kvs : List (ParsedKey × Envelope)} {gc forget : Rat}
    (h : readSnapshot kvs gc forget now = some s) : s.Keyed := by
  have hf : ∀ (l : List (ParsedKey × Envelope)) (s₀ : RegistryStore), s₀.Keyed →
      l.foldlM (fun s kv => ((s.applyEnvelope kv.2 now).toOption.map Prod.snd)) s₀ = some s →
      s.Keyed := by
    intro l
    induction l with
    | nil =>
      rintro s₀ hk ⟨⟩
      exact hk
    | cons kv l hi =>
      intro s₀ hk h
      obtain ⟨s₁, e, h⟩ := Option.bind_eq_some_iff.mp h
      refine hi s₁ ?_ h
      cases ha : s₀.applyEnvelope kv.2 now with
      | error _ => simp [ha, Except.toOption] at e
      | ok p    =>
        obtain rfl : p.2 = s₁ := by simpa [ha, Except.toOption] using e
        exact (applyEnvelope_spec hk ha).1
  unfold readSnapshot at h
  simp only [Option.bind_eq_bind, Option.bind_eq_some_iff] at h
  obtain ⟨_, _, s₁, h₁, _, _, ⟨⟩⟩ := h
  exact hf _ _ (by simp [Keyed, RegistryStore.new, record]) h₁

-- The difference of two stores.

-- What subscribers are told that a store has become: a resource whose parsed form is the same is taken
-- for unchanged.
def reported (previous current : RegistryStore) : Content := fun t x =>
  match previous.get t x, current.get t x with
  | some was, some r => if Python.jsonEq was.raw r.raw then some was.body else some r.body
  | _, r             => r.map (·.body)

theorem mem_diffType {e : ResourceEvent} (hp : previous.Keyed) (hc : current.Keyed) :
    e ∈ diffType previous current t ↔
      (∃ x r, current.get t x = some r ∧ previous.get t x = none ∧ e = .added r) ∨
      (∃ x was r, previous.get t x = some was ∧ current.get t x = some r ∧
        Python.jsonEq was.raw r.raw = false ∧ e = .modified was.body r) ∨
      ∃ x r, previous.get t x = some r ∧ current.get t x = none ∧ e = .removed r := by
  simp only [diffType, List.mem_append, List.mem_filterMap, Prod.exists, ← Dict.get?_eq_some,
    Dict.contains, get?_index hp, get?_index hc]
  constructor
  · rintro (⟨x, r, hr, h⟩ | ⟨x, r, hr, h⟩)
    · cases hg : previous.get t x with
      | none     => exact .inl ⟨x, r, hr, hg, by simpa [hg, eq_comm] using h⟩
      | some was =>
        simp only [hg] at h
        split at h
        case isTrue => cases h
        case isFalse he =>
          exact .inr <| .inl ⟨x, was, r, hg, hr, by simpa using he, (Option.some.inj h).symm⟩
    · split at h
      case isTrue => cases h
      case isFalse hn =>
        exact .inr <| .inr ⟨x, r, hr, by simpa using hn, (Option.some.inj h).symm⟩
  · rintro (⟨x, r, hr, hg, rfl⟩ | ⟨x, was, r, hg, hr, he, rfl⟩ | ⟨x, r, hr, hg, rfl⟩)
    · exact .inl ⟨x, r, hr, by simp [hg]⟩
    · exact .inl ⟨x, r, hr, by simp [hg, he]⟩
    · exact .inr ⟨x, r, hr, by simp [hg]⟩

theorem nodup_diffType (hp : previous.Keyed) (hc : current.Keyed) :
    ((diffType previous current t).map ResourceEvent.key).Nodup := by
  have hkey : ∀ s : RegistryStore, s.Keyed → ∀ x r, s.get t x = some r → r.resourceType = t ∧ r.id = x :=
    fun s hk x r hr => hk _ _ _ (get_eq_some.mp hr).1
  simp only [diffType, List.map_append, List.nodup_append]
  refine ⟨nodup_filterMap_key (t := t) _ _ fun p hm e h => ?_, nodup_filterMap_key (t := t) _ _ fun p hm e h => ?_, ?_⟩
  · have hr : current.get t p.1 = some p.2 := (get?_index hc).symm.trans (Dict.get?_eq_some.mpr hm)
    have hk := hkey _ hc _ _ hr
    split at h
    · cases h
      exact Prod.ext hk.1 hk.2
    · split at h <;> cases h
      exact Prod.ext hk.1 hk.2
  · have hr : previous.get t p.1 = some p.2 := (get?_index hp).symm.trans (Dict.get?_eq_some.mpr hm)
    have hk := hkey _ hp _ _ hr
    split at h <;> cases h
    exact Prod.ext hk.1 hk.2
  · -- What changed is extant in the new store, and what was removed is not.
    rintro k h₁ _ h₂ rfl
    obtain ⟨e, he, rfl⟩ := List.mem_map.mp h₁
    obtain ⟨e', he', hk⟩ := List.mem_map.mp h₂
    obtain ⟨p, hm, h⟩ := List.mem_filterMap.mp he
    obtain ⟨p', hm', h'⟩ := List.mem_filterMap.mp he'
    have hr : current.get t p.1 = some p.2 := (get?_index hc).symm.trans (Dict.get?_eq_some.mpr hm)
    have hr' : previous.get t p'.1 = some p'.2 := (get?_index hp).symm.trans (Dict.get?_eq_some.mpr hm')
    have hid : e.resourceId = p.1 := by
      split at h
      · cases h
        exact (hkey _ hc _ _ hr).2
      · split at h <;> cases h
        exact (hkey _ hc _ _ hr).2
    split at h'
    case isTrue => cases h'
    case isFalse hn =>
      cases h'
      have hid' : p'.2.id = p.1 := (congrArg Prod.snd hk).trans hid
      rw [(hkey _ hp _ _ hr').2] at hid'
      simp [Dict.contains, get?_index hc, hid', hr] at hn

-- The difference tells of everything but a change that leaves the parsed form as it is.
theorem diffStores_describes (hp : previous.Keyed) (hc : current.Keyed) :
    Describes (diffStores previous current) previous.content (reported previous current) := by
  have hkey : ∀ s : RegistryStore, s.Keyed → ∀ t x r, s.get t x = some r →
      r.resourceType = t ∧ r.id = x := fun s hk t x r hr => hk _ _ _ (get_eq_some.mp hr).1
  have htype : ∀ t, ∀ e ∈ diffType previous current t, e.resourceType = t := fun t e he => by
    obtain ⟨x, r, hr, _, rfl⟩ | ⟨x, was, r, _, hr, _, rfl⟩ | ⟨x, r, hr, _, rfl⟩ := (mem_diffType hp hc).mp he
    · exact (hkey _ hc _ _ _ hr).1
    · exact (hkey _ hc _ _ _ hr).1
    · exact (hkey _ hp _ _ _ hr).1
  refine .of_nodup ?_ (fun e he => ?_) fun t x hx => ?_
  · rw [diffStores, List.map_flatMap]
    refine List.nodup_flatMap.mpr ⟨fun t _ => nodup_diffType hp hc, ?_⟩
    refine List.Pairwise.imp (fun {t t'} hne => ?_) (show ResourceType.all.Nodup by decide)
    rintro k h₁ h₂
    obtain ⟨e, he, rfl⟩ := List.mem_map.mp h₁
    obtain ⟨e', he', hk⟩ := List.mem_map.mp h₂
    exact hne <| (htype _ _ he).symm.trans <| (congrArg Prod.fst hk).symm.trans (htype _ _ he')
  · obtain ⟨t, _, he⟩ := List.mem_flatMap.mp he
    obtain ⟨x, r, hr, hg, rfl⟩ | ⟨x, was, r, hg, hr, hj, rfl⟩ | ⟨x, r, hr, hg, rfl⟩ :=
      (mem_diffType hp hc).mp he
    · obtain ⟨rfl, rfl⟩ := hkey _ hc _ _ _ hr
      simp [ResourceEvent.added, content, reported, hr, hg]
    · obtain ⟨rfl, rfl⟩ := hkey _ hc _ _ _ hr
      simp [ResourceEvent.modified, content, reported, hr, hg, hj]
    · obtain ⟨rfl, rfl⟩ := hkey _ hp _ _ _ hr
      simp [ResourceEvent.removed, content, reported, hr, hg]
  · have hno : ∀ e, e.key = (t, x) → e ∉ diffType previous current t := fun e he hm =>
      hx <| List.mem_map.mpr ⟨e, List.mem_flatMap.mpr ⟨t, ResourceType.mem_all t, hm⟩, he⟩
    simp only [reported, content]
    cases hg : previous.get t x with
    | none =>
      cases hr : current.get t x with
      | none   => rfl
      | some r =>
        obtain ⟨rfl, rfl⟩ := hkey _ hc _ _ _ hr
        exact absurd ((mem_diffType hp hc).mpr <| .inl ⟨_, r, hr, hg, rfl⟩) (hno _ rfl)
    | some was =>
      cases hr : current.get t x with
      | none =>
        obtain ⟨rfl, rfl⟩ := hkey _ hp _ _ _ hg
        exact absurd ((mem_diffType hp hc).mpr <| .inr <| .inr ⟨_, was, hg, hr, rfl⟩) (hno _ rfl)
      | some r =>
        obtain ⟨rfl, rfl⟩ := hkey _ hc _ _ _ hr
        cases hj : Python.jsonEq was.raw r.raw with
        | true  => simp [hj]
        | false =>
          exact absurd ((mem_diffType hp hc).mpr <| .inr <| .inl ⟨_, was, r, hg, hr, hj, rfl⟩) (hno _ rfl)

end
end RegistryStore
end Registry
