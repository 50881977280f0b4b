import NmosReference.Library.Transition
import NmosReference.Controller.CacheStatus
import NmosReference.Controller.CacheStores

namespace Controller

namespace ResourceCache

variable {J P : Type} [Json J] {c c' c₁ : ResourceCache J P}
  {kind : ResourceKind} {k : StatusKind} {id rid : String} {r : J}

-- Every sender and receiver has the status that is derived from it and from the Source that monitors it, and
-- nothing else has one.
structure Derived (c : ResourceCache J P) : Prop where
  status : ∀ (k : StatusKind) id r, (c.storeFor k.kind).get? id = some r →
    ∃ s, extractStatus k r (c.findMonitorSource id) = .ok s ∧ c.status.get? id = some s
  known  : ∀ id s, c.status.get? id = some s → ∃ k : StatusKind, (c.storeFor k.kind).contains id

def opposite : StatusKind → StatusKind
  | .sender   => .receiver
  | .receiver => .sender

def Disjoint (c : ResourceCache J P) : Prop :=
  ∀ (k : StatusKind) id, ¬((c.storeFor k.kind).contains id ∧ (c.storeFor (opposite k).kind).contains id)

-- What the calls rely on, apart from that there are no statuses but those of the resources.
structure Coherent (c : ResourceCache J P) : Prop where
  status   : ∀ (k : StatusKind) id r, (c.storeFor k.kind).get? id = some r →
    ∃ s, extractStatus k r (c.findMonitorSource id) = .ok s ∧ c.status.get? id = some s
  disjoint : Disjoint c
  calm     : Calm c

-- While a kind is replaced, a status may also be one of those of the resources that are yet to be installed.
def Known (c : ResourceCache J P) (pending : List J) : Prop :=
  ∀ id s, c.status.get? id = some s →
    (∃ k : StatusKind, (c.storeFor k.kind).contains id) ∨ ∃ r ∈ pending, resourceId r = some id

structure Inv (c : ResourceCache J P) : Prop extends Coherent c where
  known : Known c []

theorem Inv.derived (hi : Inv c) : Derived c where
  status := hi.status
  known id s h := (hi.known id s h).resolve_right (by simp)

-- Of the senders and receivers, only the one that is named gets another monitor, and the Source that names it is
-- the first to do so.
def Reassigns (c : ResourceCache J P) (sources : Dict String J) (named : Option (String × StatusKind))
    (monitor : Option J) : Prop :=
  ∀ (k : StatusKind) id, (c.storeFor k.kind).contains id →
    (c.setStore sources .source).findMonitorSource id =
      if named = some (id, k) then monitor else c.findMonitorSource id

-- When a call leaves every status as it is derived: no id is both a sender's and a receiver's; a Source that
-- comes or goes is the only one to monitor what it names, and named the same before; and a bulk replace does not
-- drop anything that has a status.
def Regular (c : ResourceCache J P) : Call J → Prop
  | .upsert kind r => ∀ rid, resourceId r = some rid → Readable kind r ∧
    (∀ k, statusKindOf kind = some k → ¬(c.storeFor (opposite k).kind).contains rid) ∧
    (kind = .source → c.Reassigns (c.sources.set rid r) (monitorSiblingOf r) (some r))
  | .remove kind id =>
    (∀ k, statusKindOf kind = some k → ¬(c.storeFor (opposite k).kind).contains id) ∧
    (kind = .source → c.Reassigns (c.sources.erase id) ((c.sources.get? id).bind monitorSiblingOf) none)
  | .replaceAll kind rs =>
    (∀ r ∈ rs, ∀ rid, resourceId r = some rid → Readable kind r ∧
      ∀ k, statusKindOf kind = some k → ¬(c.storeFor (opposite k).kind).contains rid) ∧
    ∀ k, statusKindOf kind = some k →
      (∀ r ∈ rs, (Json.get r "id").all Json.hashable) ∧
      ∀ id, (c.storeFor kind).contains id → ∃ r ∈ rs, resourceId r = some id

omit [Json J] in
@[simp] theorem status_setStore {d : Dict String J} : (c.setStore d kind).status = c.status := by
  cases kind <;> rfl

theorem find_congr (h : c'.storeFor .source = c.storeFor .source) :
    c'.findMonitorSource id = c.findMonitorSource id := by
  have h : c'.sources = c.sources := h
  rw [findMonitorSource, findMonitorSource, h]

theorem readable_subscription (h : Readable k.kind r) : ∃ s, subscription r = .ok s := by
  cases k with
  | sender => exact h.1
  | receiver => exact h

theorem kind_ne_source : k.kind ≠ .source := by
  cases k <;> decide

theorem kind_injective {k k' : StatusKind} (h : k.kind = k'.kind) : k = k' := by
  cases k <;> cases k' <;> first | rfl | cases h

theorem eq_or_opposite (k k' : StatusKind) : k' = k ∨ k' = opposite k := by
  cases k <;> cases k' <;> decide

theorem statusKindOf_kind : statusKindOf k.kind = some k := by
  cases k <;> rfl

theorem opposite_ne : opposite k ≠ k := by
  cases k <;> decide

theorem opposite_opposite : opposite (opposite k) = k := by
  cases k <;> rfl

omit [Json J] in
theorem contains_set {d : Dict String J} : (d.set rid r).contains id ↔ id = rid ∨ d.contains id := by
  rw [Dict.contains, Dict.contains, Dict.get?_set]
  split <;> simp [*]

theorem Calm.store (h : Calm c) (hr : Readable kind r) :
    Calm (c.setStore ((c.storeFor kind).set rid r) kind) := by
  intro kind' id r' h'
  rw [storeFor_setStore] at h'
  split at h'
  · subst kind'
    rw [Dict.get?_set] at h'
    split at h'
    · cases h'
      exact hr
    · exact h _ id r' h'
  · exact h _ id r' h'

section Recorded

variable {s : ResourceStatus J}

omit [Json J] in
theorem Records.storeFor_kind (h : (c.setStore ((c.storeFor k.kind).set rid r) k.kind).Records rid s c')
    (k' : StatusKind) : c'.storeFor k'.kind =
      if k' = k then (c.storeFor k.kind).set rid r else c.storeFor k'.kind := by
  rw [h.stores, storeFor_setStore]
  exact if_congr ⟨kind_injective, congrArg _⟩ rfl rfl

omit [Json J] in
theorem Records.contains (h : (c.setStore ((c.storeFor k.kind).set rid r) k.kind).Records rid s c')
    (k' : StatusKind) : (c'.storeFor k'.kind).contains id ↔
      k' = k ∧ id = rid ∨ (c.storeFor k'.kind).contains id := by
  rw [h.storeFor_kind]
  split
  · subst k'
    simp [contains_set]
  · simp [*]

-- The status of a resource that was just stored has been derived.
theorem Coherent.recorded (hc : Coherent c) (hr : Readable k.kind r)
    (hd : ¬(c.storeFor (opposite k).kind).contains rid)
    (he : extractStatus k r (c.findMonitorSource rid) = .ok s)
    (h : (c.setStore ((c.storeFor k.kind).set rid r) k.kind).Records rid s c') : Coherent c' := by
  have hfind (id : String) : c'.findMonitorSource id = c.findMonitorSource id :=
    find_congr (by rw [h.stores, storeFor_setStore, if_neg kind_ne_source.symm])
  constructor
  case status =>
    intro k' id r' hg
    rw [h.storeFor_kind] at hg
    rw [hfind, h.status, status_setStore]
    split at hg
    · subst k'
      rw [Dict.get?_set] at hg
      split at hg
      · subst id
        cases hg
        exact ⟨s, he, if_pos rfl⟩
      · rw [if_neg ‹_›]
        exact hc.status k id r' hg
    · have hne : id ≠ rid := by
        rintro rfl
        have hk := (eq_or_opposite k k').resolve_left ‹_›
        exact hd (Dict.contains_iff.mpr ⟨r', hk ▸ hg⟩)
      rw [if_neg hne]
      exact hc.status k' id r' hg
  case disjoint =>
    rintro k' id ⟨h₁, h₂⟩
    rw [h.contains] at h₁ h₂
    rcases h₁ with ⟨rfl, rfl⟩ | h₁
    · rcases h₂ with ⟨h₂, -⟩ | h₂
      · exact opposite_ne h₂
      · exact hd h₂
    · rcases h₂ with ⟨rfl, rfl⟩ | h₂
      · exact hd (by rwa [opposite_opposite])
      · exact hc.disjoint k' id ⟨h₁, h₂⟩
  case calm =>
    intro kind id r' hg
    exact hc.calm.store hr kind id r' (h.stores kind ▸ hg)

theorem Known.recorded {rs : List J} (hk : Known c (r :: rs)) (hid : resourceId r = some rid)
    (h : (c.setStore ((c.storeFor k.kind).set rid r) k.kind).Records rid s c') : Known c' rs := by
  intro id s' hs
  rw [h.status, status_setStore] at hs
  by_cases hne : id = rid
  · exact .inl ⟨k, (h.contains k).mpr (.inl ⟨rfl, hne⟩)⟩
  · rw [if_neg hne] at hs
    rcases hk id s' hs with ⟨k', hc⟩ | ⟨r', hr, hr'⟩
    · exact .inl ⟨k', (h.contains k').mpr (.inr hc)⟩
    · rcases List.mem_cons.mp hr with rfl | hr
      · exact absurd (Option.some.inj (hr'.symm.trans hid)) hne
      · exact .inr ⟨r', hr, hr'⟩

end Recorded

-- A change of the Sources, after which every sender and receiver has its status again.
theorem Inv.of_sources (hi : Inv c) (hst : ∀ kind, kind ≠ .source → c'.storeFor kind = c.storeFor kind)
    (hd : Decoded c') (hs : ∀ (k : StatusKind) id r, (c.storeFor k.kind).get? id = some r →
      ∃ s, extractStatus k r (c'.findMonitorSource id) = .ok s ∧ c'.status.get? id = some s)
    (hk : ∀ id s, c'.status.get? id = some s → ∃ s, c.status.get? id = some s) : Inv c' := by
  have hkind (k : StatusKind) : c'.storeFor k.kind = c.storeFor k.kind := hst _ kind_ne_source
  constructor
  case toCoherent =>
    refine ⟨fun k id r h => hs k id r (hkind k ▸ h), fun k id => ?_, fun kind id r h => ?_⟩
    · rw [hkind, hkind]
      exact hi.disjoint k id
    · by_cases hk : kind = .source
      · subst hk
        exact hd id r h
      · exact hi.calm kind id r (hst kind hk ▸ h)
  case known =>
    intro id s h
    obtain ⟨s', h'⟩ := hk id s h
    obtain ⟨k, hc⟩ := hi.derived.known id s' h'
    exact .inl ⟨k, hkind k ▸ hc⟩

-- Of what a Source that comes or goes names, the status is derived anew.
theorem Inv.reassigned {source : J} {monitor : Option J} {sources : Dict String J} (hi : Inv c)
    (hc₁ : c.setStore sources .source = c₁) (hra : c.Reassigns sources (monitorSiblingOf source) monitor)
    (hd : ∀ id source, sources.get? id = some source → Decodes source) (hmon : ∀ source ∈ monitor, Decodes source) :
    ∃ c', Does (siblingEvents source monitor) c₁ c' ∧ Inv c' := by
  have hdecoded : Decoded c₁ := fun id source hg => hd id source (by rwa [← hc₁, storeFor_setStore, if_pos rfl] at hg)
  have hst (kind : ResourceKind) (hk : kind ≠ .source) : c₁.storeFor kind = c.storeFor kind := by
    rw [← hc₁, storeFor_setStore, if_neg hk]
  have hkind (k : StatusKind) : c₁.storeFor k.kind = c.storeFor k.kind := hst _ kind_ne_source
  have hstatus : c₁.status = c.status := by rw [← hc₁, status_setStore]
  have hfind (k : StatusKind) (id : String) (r : J) (h : (c.storeFor k.kind).get? id = some r) :
      c₁.findMonitorSource id =
        if monitorSiblingOf source = some (id, k) then monitor else c.findMonitorSource id :=
    hc₁ ▸ hra k id (Dict.contains_iff.mpr ⟨r, h⟩)
  unfold siblingEvents
  cases hs : c₁.siblingOf source with
  | none =>
    refine ⟨c₁, .after Handler.run_get rfl (by rw [hs]; exact does_nil), hi.of_sources hst hdecoded (fun k id r h => ?_) fun id s h => ⟨s, hstatus ▸ h⟩⟩
    have hn : monitorSiblingOf source ≠ some (id, k) := by
      intro hn
      simp [siblingOf, hn, hkind, h] at hs
    rw [hfind k id r h, if_neg hn, hstatus]
    exact hi.status k id r h
  | some p =>
    obtain ⟨k, id, sibling⟩ := p
    obtain ⟨⟨id', k'⟩, hn, hm⟩ := Option.bind_eq_some_iff.mp hs
    obtain ⟨sibling', hsib, hm⟩ := Option.bind_eq_some_iff.mp hm
    cases hm
    have hsib : (c.storeFor k.kind).get? id = some sibling := by rwa [← hkind]
    obtain ⟨s, he⟩ := extract_ok (k := k) monitor (readable_subscription (hi.calm _ _ _ hsib)) hmon
    obtain ⟨c', hdoes, hrec⟩ := deriveEvents_records id (c := c₁) he
    have hfind' (id : String) : c'.findMonitorSource id = c₁.findMonitorSource id :=
      find_congr (hrec.stores .source)
    refine ⟨c', .after Handler.run_get rfl (by rw [hs]; exact hdoes), hi.of_sources (fun kind hk => (hrec.stores kind).trans (hst kind hk))
      (hdecoded.congr (hrec.stores .source)) (fun k' id' r h => ?_) fun id' s' h => ?_⟩
    · rw [hfind', hfind k' id' r h, hrec.status]
      by_cases hid : id' = id
      · subst hid
        rcases eq_or_opposite k k' with rfl | rfl
        · cases hsib.symm.trans h
          exact ⟨s, by rw [if_pos hn]; exact he, if_pos rfl⟩
        · exact absurd ⟨Dict.contains_iff.mpr ⟨_, hsib⟩, Dict.contains_iff.mpr ⟨_, h⟩⟩ (hi.disjoint k id')
      · have hne : monitorSiblingOf source ≠ some (id', k') := by
          rw [hn]
          intro h
          cases h
          exact hid rfl
        rw [if_neg hne, if_neg hid, hstatus]
        exact hi.status k' id' r h
    · rw [hrec.status] at h
      split at h
      · subst id'
        obtain ⟨s', _, hs'⟩ := hi.status k id sibling hsib
        exact ⟨s', hs'⟩
      · exact ⟨s', hstatus ▸ h⟩

theorem Inv.flowMatch (hi : Inv c) (fm : Dict String P) : Inv { c with flowMatch := fm } := by
  refine hi.of_sources (fun kind _ => by cases kind <;> rfl) hi.calm.decoded (fun k id r h => hi.status k id r h)
    fun id s h => ⟨s, h⟩

-- Storing or removing what has no status and monitors nothing.
theorem Inv.setStore {d : Dict String J} (hi : Inv c) (hk : kind = .flow ∨ kind = .node ∨ kind = .device)
    (hr : ∀ id r, d.get? id = some r → Readable kind r) : Inv (c.setStore d kind) := by
  have hst (k : StatusKind) : (c.setStore d kind).storeFor k.kind = c.storeFor k.kind := by
    rw [storeFor_setStore, if_neg]
    rcases hk with rfl | rfl | rfl <;> cases k <;> decide
  have hfind (id : String) : (c.setStore d kind).findMonitorSource id = c.findMonitorSource id := by
    refine find_congr ?_
    rw [storeFor_setStore, if_neg]
    rcases hk with rfl | rfl | rfl <;> decide
  constructor
  case toCoherent =>
    refine ⟨fun k id r h => ?_, fun k id => ?_, fun kind' id r h => ?_⟩
    · rw [hfind, status_setStore]
      exact hi.status k id r (hst k ▸ h)
    · rw [hst, hst]
      exact hi.disjoint k id
    · rw [storeFor_setStore] at h
      split at h
      · subst kind'
        exact hr id r h
      · exact hi.calm kind' id r h
  case known =>
    intro id s h
    rw [status_setStore] at h
    obtain ⟨k, h⟩ := hi.derived.known id s h
    exact .inl ⟨k, hst k ▸ h⟩

variable [FlowMatcher J P] [DecidableEq P]

theorem Inv.upsert_statusKind (hi : Inv c) (hid : resourceId r = some rid) (hr : Readable k.kind r)
    (hd : ¬(c.storeFor (opposite k).kind).contains rid) : ∃ c', Does (upsert k.kind r) c c' ∧ Inv c' := by
  generalize hc₁ : c.setStore ((c.storeFor k.kind).set rid r) k.kind = c₁
  have hfind : c₁.findMonitorSource rid = c.findMonitorSource rid :=
    find_congr (by rw [← hc₁, storeFor_setStore, if_neg kind_ne_source.symm])
  obtain ⟨s, he⟩ := extract_ok (k := k) (c.findMonitorSource rid) (readable_subscription hr) (hi.calm.decoded.monitor rid)
  have hcalm : Calm c₁ := hc₁ ▸ hi.calm.store hr
  obtain ⟨c', hdoes, hrec⟩ := upsertStatusKind_records ((c.storeFor k.kind).get? rid) hcalm (hfind ▸ he)
  have hknown : Known c [r] := fun id s h => (hi.known id s h).imp_right (by simp)
  refine ⟨c', ?_, hi.toCoherent.recorded hr hd he (hc₁ ▸ hrec), hknown.recorded hid (hc₁ ▸ hrec)⟩
  unfold upsert
  simp only [hid]
  refine .after Handler.run_get rfl (.after Handler.run_set (by rw [status_setStore]) ?_)
  rw [hc₁]
  cases k <;> exact hdoes

theorem Inv.upsert_source (hi : Inv c) (hid : resourceId r = some rid) (hr : Decodes r)
    (hra : c.Reassigns (c.sources.set rid r) (monitorSiblingOf r) (some r)) :
    ∃ c', Does (upsert .source r) c c' ∧ Inv c' := by
  have hd (id : String) (source : J) (hg : (c.sources.set rid r).get? id = some source) : Decodes source := by
    rw [Dict.get?_set] at hg
    split at hg
    · cases hg
      exact hr
    · exact hi.calm.decoded id source hg
  obtain ⟨c₁, hdoes, hi₁⟩ := hi.reassigned rfl hra hd fun source hm => (by cases hm; exact hr)
  obtain ⟨fm, hq⟩ := sourceEvents_quiet rid hi₁.calm (changed (c.sources.get? rid) r)
  refine ⟨_, ?_, hi₁.flowMatch fm⟩
  unfold upsert
  simp only [hid]
  refine .after Handler.run_get rfl (.after Handler.run_set (by rw [status_setStore]) ?_)
  exact hdoes.append hq

theorem Inv.upsert_other (hi : Inv c) (hid : resourceId r = some rid) (hr : Readable kind r)
    (hk : kind = .flow ∨ kind = .node ∨ kind = .device) : ∃ c', Does (upsert kind r) c c' ∧ Inv c' := by
  have hi₁ : Inv (c.setStore ((c.storeFor kind).set rid r) kind) := hi.setStore hk fun id r' h => by
    rw [Dict.get?_set] at h
    split at h
    · cases h
      exact hr
    · exact hi.calm kind id r' h
  have hstatus : (c.setStore ((c.storeFor kind).set rid r) kind).status = c.status := status_setStore
  unfold upsert
  simp only [hid]
  rcases hk with rfl | rfl | rfl
  · obtain ⟨fm, events, e, hs⟩ :=
      flowEvents_quiet rid hi₁.calm (changed ((c.storeFor .flow).get? rid) r)
    refine ⟨_, .after Handler.run_get rfl (.after Handler.run_set hstatus ⟨events, ?_, hs⟩), hi₁.flowMatch fm⟩
    exact Handler.run_tryCatch_ok e
  · exact ⟨_, .after Handler.run_get rfl (.after Handler.run_set hstatus does_nil), hi₁⟩
  · exact ⟨_, .after Handler.run_get rfl (.after Handler.run_set hstatus does_nil), hi₁⟩

omit [FlowMatcher J P] [DecidableEq P] in
theorem Inv.remove_statusKind (hi : Inv c) (hd : ¬(c.storeFor (opposite k).kind).contains id) :
    ∃ c', Does (remove k.kind id) c c' ∧ Inv c' := by
  generalize hc₁ : c.setStore ((c.storeFor k.kind).erase id) k.kind = c₁
  have hst (kind : ResourceKind) : c₁.storeFor kind =
      if kind = k.kind then (c.storeFor k.kind).erase id else c.storeFor kind := by
    rw [← hc₁, storeFor_setStore]
  have hkind (k' : StatusKind) : c₁.storeFor k'.kind =
      if k' = k then (c.storeFor k.kind).erase id else c.storeFor k'.kind := by
    rw [hst]
    exact if_congr ⟨kind_injective, congrArg _⟩ rfl rfl
  have hstatus : c₁.status = c.status := by rw [← hc₁, status_setStore]
  -- What is in a store now was there before, and is not what was removed.
  have hget {k' : StatusKind} {id' : String} {r : J} (h : (c₁.storeFor k'.kind).get? id' = some r) :
      id' ≠ id ∧ (c.storeFor k'.kind).get? id' = some r := by
    rw [hkind] at h
    split at h
    · subst k'
      rw [Dict.get?_erase] at h
      exact ⟨fun he => by simp [he] at h, by rwa [if_neg (fun he => by simp [he] at h)] at h⟩
    · refine ⟨?_, h⟩
      rintro rfl
      have hk := (eq_or_opposite k k').resolve_left ‹_›
      exact hd (Dict.contains_iff.mpr ⟨r, hk ▸ h⟩)
  have hfind (id : String) : c₁.findMonitorSource id = c.findMonitorSource id :=
    find_congr (by rw [hst, if_neg kind_ne_source.symm])
  let c₂ : ResourceCache J P := { c₁ with status := c₁.status.erase id }
  have hst₂ (kind : ResourceKind) : c₂.storeFor kind = c₁.storeFor kind := by cases kind <;> rfl
  refine ⟨c₂, ⟨[], ?_, fun copy h id' s hs => ?_⟩, ?_⟩
  · unfold remove
    rw [Handler.run_bind_ok Handler.run_get]
    cases k <;> cases hc₁ <;> rfl
  · have hs : c₁.status.get? id' = some s := by
      rw [Dict.get?_erase] at hs
      exact (Option.ite_none_left_eq_some.mp hs).2
    exact h id' s (hstatus ▸ hs)
  constructor
  case toCoherent =>
    refine ⟨fun k' id' r h => ?_, fun k' id' hboth => ?_, fun kind id' r h => ?_⟩
    · obtain ⟨hne, h⟩ := hget (hst₂ _ ▸ h)
      obtain ⟨s, he, hs⟩ := hi.status k' id' r h
      refine ⟨s, (hfind id').symm ▸ he, ?_⟩
      rw [Dict.get?_erase, if_neg hne, hstatus]
      exact hs
    · obtain ⟨r, h⟩ := Dict.contains_iff.mp hboth.1
      obtain ⟨r', h'⟩ := Dict.contains_iff.mp hboth.2
      exact hi.disjoint k' id' ⟨Dict.contains_iff.mpr ⟨r, (hget (hst₂ _ ▸ h)).2⟩,
        Dict.contains_iff.mpr ⟨r', (hget (hst₂ _ ▸ h')).2⟩⟩
    · rw [hst₂, hst] at h
      split at h
      · subst kind
        rw [Dict.get?_erase] at h
        exact hi.calm _ id' r (Option.ite_none_left_eq_some.mp h).2
      · exact hi.calm kind id' r h
  case known =>
    intro id' s hs
    rw [Dict.get?_erase] at hs
    obtain ⟨hne, hs⟩ := Option.ite_none_left_eq_some.mp hs
    obtain ⟨k', hc⟩ := hi.derived.known id' s (hstatus ▸ hs)
    refine .inl ⟨k', ?_⟩
    rw [hst₂, hkind]
    split
    · subst k'
      rwa [Dict.contains, Dict.get?_erase, if_neg hne]
    · exact hc

omit [FlowMatcher J P] [DecidableEq P] in
theorem Inv.remove_source (hi : Inv c)
    (hra : c.Reassigns (c.sources.erase id) ((c.sources.get? id).bind monitorSiblingOf) none) :
    ∃ c', Does (remove .source id) c c' ∧ Inv c' := by
  have hd (id' : String) (source : J) (hg : (c.sources.erase id).get? id' = some source) : Decodes source := by
    rw [Dict.get?_erase] at hg
    exact hi.calm.decoded id' source (Option.ite_none_left_eq_some.mp hg).2
  unfold remove
  cases hs : c.sources.get? id with
  | none =>
    rw [hs] at hra
    refine ⟨c.setStore (c.sources.erase id) .source, ?_, ?_⟩
    · refine .after Handler.run_get rfl (.after Handler.run_set (by rw [status_setStore]) ?_)
      rw [show (c.storeFor .source).get? id = none from hs]
      exact does_nil
    · refine hi.of_sources (fun kind hk => by rw [storeFor_setStore, if_neg hk]) hd (fun k id r h => ?_)
        fun id s h => ⟨s, by rwa [status_setStore] at h⟩
      rw [hra k id (Dict.contains_iff.mpr ⟨r, h⟩), if_neg nofun, status_setStore]
      exact hi.status k id r h
  | some source =>
    rw [hs] at hra
    obtain ⟨c', hdoes, hi'⟩ := hi.reassigned rfl hra hd fun source hm => (by cases hm)
    refine ⟨c', .after Handler.run_get rfl (.after Handler.run_set (by rw [status_setStore]) ?_), hi'⟩
    rw [show (c.storeFor .source).get? id = some source from hs]
    exact hdoes

omit [FlowMatcher J P] [DecidableEq P] in
theorem Inv.remove_other (hi : Inv c) (hk : kind = .flow ∨ kind = .node ∨ kind = .device) :
    ∃ c', Does (remove kind id) c c' ∧ Inv c' := by
  have hi₁ : Inv (c.setStore ((c.storeFor kind).erase id) kind) := hi.setStore hk fun id' r h => by
    rw [Dict.get?_erase] at h
    exact hi.calm kind id' r (Option.ite_none_left_eq_some.mp h).2
  have hstatus : (c.setStore ((c.storeFor kind).erase id) kind).status = c.status := status_setStore
  unfold remove
  rcases hk with rfl | rfl | rfl <;>
    exact ⟨_, .after Handler.run_get rfl (.after Handler.run_set hstatus does_nil), hi₁⟩

section ReplaceAll

variable {rs : List J}

omit [FlowMatcher J P] [DecidableEq P] in
theorem purge_empty {ids : List J} (h : ∀ sid, ¬(c.storeFor kind).contains sid) : c.purge kind ids = c := by
  unfold purge
  generalize c.status.keys = sids
  induction sids with
  | nil => rfl
  | cons sid sids hi => rw [List.foldl_cons, if_neg fun h' => h sid h'.2, hi]

omit [FlowMatcher J P] [DecidableEq P] in
theorem purgeMissing_cleared (h : ∀ r ∈ rs, (Json.get r "id").all Json.hashable) :
    (purgeMissing kind rs).run (c.setStore ∅ kind) = (.ok ⟨⟩, c.setStore ∅ kind) := by
  have hh : (rs.filterMap fun r => (Json.get r "id").filter Json.truthy).all Json.hashable := by
    rw [List.all_eq_true]
    intro v hv
    obtain ⟨r, hr, hv⟩ := List.mem_filterMap.mp hv
    have hr := h r hr
    rwa [(Option.filter_eq_some_iff.mp hv).1] at hr
  rw [purgeMissing, if_pos hh, Handler.run_modify, purge_empty]
  intro sid
  rw [storeFor_setStore, if_pos rfl]
  exact Bool.false_ne_true

omit [FlowMatcher J P] [DecidableEq P] in
theorem install_statusKind (hc : Coherent c) (hk : Known c (r :: rs))
    (hr : ∀ rid, resourceId r = some rid → Readable k.kind r ∧ ¬(c.storeFor (opposite k).kind).contains rid) :
    ∃ c', Does (install k.kind r) c c' ∧ Coherent c' ∧ Known c' rs ∧
      ∀ kind, kind ≠ k.kind → c'.storeFor kind = c.storeFor kind := by
  unfold install
  cases hid : resourceId r with
  | none =>
    refine ⟨c, does_nil, hc, fun id s h => (hk id s h).imp_right ?_, fun _ _ => rfl⟩
    rintro ⟨r', hr', e⟩
    rcases List.mem_cons.mp hr' with rfl | hr'
    · cases hid.symm.trans e
    · exact ⟨r', hr', e⟩
  | some rid =>
    obtain ⟨hr, hd⟩ := hr rid hid
    generalize hc₁ : c.setStore ((c.storeFor k.kind).set rid r) k.kind = c₁
    have hfind : c₁.findMonitorSource rid = c.findMonitorSource rid :=
      find_congr (by rw [← hc₁, storeFor_setStore, if_neg kind_ne_source.symm])
    obtain ⟨s, he⟩ := extract_ok (k := k) (c.findMonitorSource rid) (readable_subscription hr) (hc.calm.decoded.monitor rid)
    obtain ⟨c', hdoes, hrec⟩ := deriveEvents_records rid (c := c₁) (hfind ▸ he)
    subst hc₁
    refine ⟨c', ?_, hc.recorded hr hd he hrec, hk.recorded hid hrec, fun kind hk => ?_⟩
    · refine .after Handler.run_get rfl (.after Handler.run_set (by rw [status_setStore]) ?_)
      rw [statusKindOf_kind]
      exact hdoes
    · rw [hrec.stores, storeFor_setStore, if_neg hk]

omit [FlowMatcher J P] [DecidableEq P] in
theorem Inv.replaceAll_statusKind (hi : Inv c)
    (hh : ∀ r ∈ rs, (Json.get r "id").all Json.hashable)
    (hr : ∀ r ∈ rs, ∀ rid, resourceId r = some rid →
      Readable k.kind r ∧ ¬(c.storeFor (opposite k).kind).contains rid)
    (hold : ∀ id, (c.storeFor k.kind).contains id → ∃ r ∈ rs, resourceId r = some id) :
    ∃ c', Does (replaceAll k.kind rs) c c' ∧ Inv c' := by
  generalize hc₁ : c.setStore ∅ k.kind = c₁
  have hst (kind : ResourceKind) (hk : kind ≠ k.kind) : c₁.storeFor kind = c.storeFor kind := by
    rw [← hc₁, storeFor_setStore, if_neg hk]
  have hempty : c₁.storeFor k.kind = ∅ := by rw [← hc₁, storeFor_setStore, if_pos rfl]
  have hother {k' : StatusKind} (hk : k' ≠ k) : c₁.storeFor k'.kind = c.storeFor k'.kind :=
    hst _ fun h => hk (kind_injective h)
  have hstatus : c₁.status = c.status := by rw [← hc₁, status_setStore]
  have hcoherent : Coherent c₁ := by
    constructor
    case status =>
      intro k' id r h
      have hk : k' ≠ k := by
        rintro rfl
        rw [hempty] at h
        cases h
      rw [find_congr (hst .source kind_ne_source.symm), hstatus]
      exact hi.status k' id r (hother hk ▸ h)
    case disjoint =>
      rintro k' id ⟨h, h'⟩
      have hk : k' ≠ k := by
        rintro rfl
        rw [hempty] at h
        cases h
      have hk' : opposite k' ≠ k := by
        rintro rfl
        rw [hempty] at h'
        cases h'
      exact hi.disjoint k' id ⟨hother hk ▸ h, hother hk' ▸ h'⟩
    case calm =>
      intro kind id r h
      have hk : kind ≠ k.kind := by
        rintro rfl
        rw [hempty] at h
        cases h
      exact hi.calm kind id r (hst kind hk ▸ h)
  have hknown : Known c₁ rs := by
    intro id s h
    obtain ⟨k', hc⟩ := hi.derived.known id s (hstatus ▸ h)
    by_cases hk : k' = k
    · subst k'
      exact .inr (hold id hc)
    · exact .inl ⟨k', (hother hk).symm ▸ hc⟩
  obtain ⟨c', hdoes, hc', hk', -, -⟩ := does_collect (f := install k.kind) (c := c₁) rs
    (R := fun xs c' => Coherent c' ∧ Known c' xs ∧ xs ⊆ rs ∧
      ∀ kind, kind ≠ k.kind → c'.storeFor kind = c₁.storeFor kind)
    ⟨hcoherent, hknown, fun _ => id, fun _ _ => rfl⟩ (by
      rintro x xs c₂ ⟨hc, hk, hsub, hst₂⟩
      have hopp : c₂.storeFor (opposite k).kind = c.storeFor (opposite k).kind :=
        (hst₂ _ fun h => opposite_ne (kind_injective h)).trans (hother opposite_ne)
      obtain ⟨c₃, hdoes, hc, hk, hst₃⟩ := install_statusKind hc hk fun rid hid => by
        rw [hopp]
        exact hr x (hsub (by simp)) rid hid
      exact ⟨c₃, hdoes, hc, hk, fun y hy => hsub (by simp [hy]),
        fun kind hkind => (hst₃ kind hkind).trans (hst₂ kind hkind)⟩)
  refine ⟨c', ?_, hc', hk'⟩
  unfold replaceAll
  refine .after Handler.run_modify status_setStore ?_
  rw [if_pos (by rw [statusKindOf_kind]; rfl)]
  refine .after (purgeMissing_cleared hh) rfl ?_
  rw [hc₁]
  obtain ⟨events, e, hs⟩ := hdoes
  refine ⟨events, (Handler.run_bind_ok e).trans ?_, hs⟩
  rw [if_neg kind_ne_source]
  rfl

-- The stores are as before, and the statuses of one kind have been derived.
structure Rederived (c : ResourceCache J P) (k : StatusKind) (c' : ResourceCache J P) : Prop where
  stores  : ∀ kind, c'.storeFor kind = c.storeFor kind
  derived : ∀ id r, (c.storeFor k.kind).get? id = some r →
    ∃ s, extractStatus k r (c.findMonitorSource id) = .ok s ∧ c'.status.get? id = some s
  others  : ∀ id, ¬(c.storeFor k.kind).contains id → c'.status.get? id = c.status.get? id

omit [FlowMatcher J P] [DecidableEq P] in
theorem deriveAll_rederived (hdecoded : Decoded c) (hc : ∀ id r, (c.storeFor k.kind).get? id = some r → ∃ s, subscription r = .ok s) :
    ∃ c', Does (deriveAll k) c c' ∧ c.Rederived k c' := by
  obtain ⟨c', hdoes, hst, -, hd, ho⟩ := does_collect (c := c) (f := fun (p : String × J) => do
      let c ← get
      deriveEvents k p.1 p.2 (c.findMonitorSource p.1)) (c.storeFor k.kind).items
    (R := fun xs c' => (∀ kind, c'.storeFor kind = c.storeFor kind) ∧ xs ⊆ (c.storeFor k.kind).items ∧
      (∀ id r, (c.storeFor k.kind).get? id = some r → (id, r) ∈ xs ∨
        ∃ s, extractStatus k r (c.findMonitorSource id) = .ok s ∧ c'.status.get? id = some s) ∧
      ∀ id, ¬(c.storeFor k.kind).contains id → c'.status.get? id = c.status.get? id)
    ⟨fun _ => rfl, fun _ => id, fun id r h => .inl (Dict.get?_eq_some.mp h), fun _ _ => rfl⟩ (by
      rintro ⟨id, r⟩ xs c₁ ⟨hst, hsub, hd, ho⟩
      have hr : (c.storeFor k.kind).get? id = some r := Dict.get?_eq_some.mpr (hsub (by simp))
      have hfind : c₁.findMonitorSource id = c.findMonitorSource id := find_congr (hst .source)
      obtain ⟨s, he⟩ := extract_ok (k := k) (c.findMonitorSource id) (hc id r hr) (hdecoded.monitor id)
      obtain ⟨c₂, hdoes, hrec⟩ := deriveEvents_records id (c := c₁) (hfind ▸ he)
      refine ⟨c₂, .after Handler.run_get rfl hdoes, fun kind => (hrec.stores kind).trans (hst kind),
        fun y hy => hsub (by simp [hy]), fun id' r' h => ?_, fun id' h => ?_⟩
      · rw [hrec.status]
        by_cases hid : id' = id
        · subst hid
          cases hr.symm.trans h
          exact .inr ⟨s, he, if_pos rfl⟩
        · rw [if_neg hid]
          refine (hd id' r' h).imp_left fun hm => (List.mem_cons.mp hm).resolve_left ?_
          rintro ⟨⟩
          exact hid rfl
      · rw [hrec.status, if_neg, ho id' h]
        rintro rfl
        exact h (Dict.contains_iff.mpr ⟨r, hr⟩))
  exact ⟨c', hdoes, hst, fun id r h => (hd id r h).resolve_left (by simp), ho⟩

omit [FlowMatcher J P] [DecidableEq P] in
theorem install_source (hd : Decoded c) (hr : ∀ rid, resourceId r = some rid → Decodes r) :
    ∃ d, Does (install .source r) c (c.setStore d .source) ∧ Decoded (c.setStore d .source) := by
  unfold install
  cases hid : resourceId r with
  | none => exact ⟨c.sources, does_nil, hd⟩
  | some rid =>
    refine ⟨c.sources.set rid r, .after Handler.run_get rfl (.after Handler.run_set status_setStore does_nil), fun id source hg => ?_⟩
    rw [storeFor_setStore, if_pos rfl, Dict.get?_set] at hg
    split at hg
    · cases hg
      exact hr rid hid
    · exact hd id source hg

omit [FlowMatcher J P] [DecidableEq P] in
theorem Inv.replaceAll_source (hi : Inv c) (hr : ∀ r ∈ rs, ∀ rid, resourceId r = some rid → Decodes r) :
    ∃ c', Does (replaceAll .source rs) c c' ∧ Inv c' := by
  obtain ⟨c₁, hinstall, -, hdecoded, d, rfl⟩ := does_collect (f := install .source) (c := c.setStore ∅ .source) rs
    (R := fun xs c' => xs ⊆ rs ∧ Decoded c' ∧ ∃ d, c' = c.setStore d .source)
    ⟨fun _ => id, fun id source hg => (by cases hg), ∅, rfl⟩ (by
      rintro r xs _ ⟨hsub, hd, d, rfl⟩
      obtain ⟨d', h, hd'⟩ := install_source (r := r) hd (hr r (hsub (by simp)))
      exact ⟨_, h, fun y hy => hsub (by simp [hy]), hd', d', rfl⟩)
  have hst (kind : ResourceKind) (hk : kind ≠ .source) : (c.setStore d .source).storeFor kind = c.storeFor kind := by
    rw [storeFor_setStore, if_neg hk]
  have hcalm : Calm (c.setStore d .source) := by
    intro kind id r h
    by_cases hk : kind = .source
    · subst hk
      exact hdecoded id r h
    · exact hi.calm kind id r (hst kind hk ▸ h)
  obtain ⟨c₂, hsenders, h₂⟩ := deriveAll_rederived (k := .sender) hdecoded fun id r h =>
    readable_subscription (k := .sender) (hcalm _ id r h)
  have hdecoded₂ := hdecoded.congr (h₂.stores .source)
  obtain ⟨c₃, hreceivers, h₃⟩ := deriveAll_rederived (k := .receiver) (c := c₂) hdecoded₂ fun id r h =>
    readable_subscription (k := .receiver) (hcalm _ id r (h₂.stores _ ▸ h))
  have hfind (id : String) : c₂.findMonitorSource id = (c.setStore d .source).findMonitorSource id :=
    find_congr (h₂.stores .source)
  have hfind' (id : String) : c₃.findMonitorSource id = (c.setStore d .source).findMonitorSource id :=
    (find_congr (h₃.stores .source)).trans (hfind id)
  have hkind (k : StatusKind) : (c.setStore d .source).storeFor k.kind = c.storeFor k.kind := hst _ kind_ne_source
  have hs (id : String) (h : ¬(c.storeFor .sender).contains id) : c₂.status.get? id = c.status.get? id := by
    rw [h₂.others id (hkind .sender ▸ h), status_setStore]
  have hr (id : String) (h : ¬(c.storeFor .receiver).contains id) : c₃.status.get? id = c₂.status.get? id :=
    h₃.others id (((h₂.stores _).trans (hkind .receiver)).symm ▸ h)
  refine ⟨c₃, ?_, hi.of_sources (fun kind hk => ((h₃.stores kind).trans (h₂.stores kind)).trans (hst kind hk))
    (hdecoded₂.congr (h₃.stores .source)) (fun k id r h => ?_) fun id s h => ?_⟩
  · obtain ⟨es, e, hes⟩ := hinstall
    obtain ⟨es₂, e₂, hes₂⟩ := hsenders
    obtain ⟨es₃, e₃, hes₃⟩ := hreceivers
    unfold replaceAll
    refine .after Handler.run_modify status_setStore ⟨es ++ es₂ ++ es₃, ?_, fun copy h => ?_⟩
    · rw [if_neg (by decide), Handler.run_bind_ok e, if_pos rfl,
        Handler.run_bind_ok e₂, Handler.run_bind_ok e₃]
      rfl
    · rw [listen, List.foldl_append, List.foldl_append]
      exact hes₃ _ (hes₂ _ (hes _ h))
  · cases k with
    | sender =>
      obtain ⟨s, he, hg⟩ := h₂.derived id r (hkind .sender ▸ h)
      refine ⟨s, (hfind' id).symm ▸ he, (hr id fun h' => ?_).trans hg⟩
      exact hi.disjoint .sender id ⟨Dict.contains_iff.mpr ⟨r, h⟩, h'⟩
    | receiver =>
      obtain ⟨s, he, hg⟩ := h₃.derived id r (((h₂.stores _).trans (hkind .receiver)).symm ▸ h)
      exact ⟨s, (hfind' id).trans (hfind id).symm ▸ he, hg⟩
  · by_cases hc : ∃ k : StatusKind, (c.storeFor k.kind).contains id
    · obtain ⟨k, hc⟩ := hc
      obtain ⟨r, hg⟩ := Dict.contains_iff.mp hc
      obtain ⟨s', -, hs'⟩ := hi.status k id r hg
      exact ⟨s', hs'⟩
    · refine ⟨s, ?_⟩
      rw [← hs id fun h' => hc ⟨.sender, h'⟩, ← hr id fun h' => hc ⟨.receiver, h'⟩]
      exact h

omit [FlowMatcher J P] [DecidableEq P] in
theorem Inv.replaceAll_other (hi : Inv c) (hk : kind = .flow ∨ kind = .node ∨ kind = .device)
    (hr : ∀ r ∈ rs, ∀ rid, resourceId r = some rid → Readable kind r) :
    ∃ c', Does (replaceAll kind rs) c c' ∧ Inv c' := by
  have hkind : statusKindOf kind = none ∧ kind ≠ .source := by
    rcases hk with rfl | rfl | rfl <;> decide
  obtain ⟨c', hdoes, hi', -⟩ := does_collect (f := install kind) (c := c.setStore ∅ kind) rs
    (R := fun xs c' => Inv c' ∧ xs ⊆ rs) ⟨hi.setStore hk (fun _ _ h => nomatch h), fun _ => id⟩ (by
      rintro r xs c₁ ⟨hi, hsub⟩
      have hsub' : xs ⊆ rs := fun y hy => hsub (by simp [hy])
      unfold install
      cases hid : resourceId r with
      | none => exact ⟨c₁, does_nil, hi, hsub'⟩
      | some rid =>
        refine ⟨_, .after Handler.run_get rfl (.after Handler.run_set status_setStore ?_),
          hi.setStore (d := (c₁.storeFor kind).set rid r) hk fun id r' h => ?_, hsub'⟩
        · rw [hkind.1]
          exact does_nil
        · rw [Dict.get?_set] at h
          split at h
          · cases h
            exact hr r (hsub (by simp)) rid hid
          · exact hi.calm kind id r' h)
  obtain ⟨events, e, hs⟩ := hdoes
  refine ⟨c', ?_, hi'⟩
  unfold replaceAll
  refine .after Handler.run_modify status_setStore ⟨events, ?_, hs⟩
  rw [if_neg (by rw [hkind.1]; decide), Handler.run_bind_ok e, if_neg hkind.2]
  rfl

end ReplaceAll

-- A regular call finishes, and leaves the statuses as they are derived.
theorem Inv.call {a : Call J} (hi : Inv c) (h : c.Regular a) : ∃ c', Does (call a) c c' ∧ Inv c' := by
  cases a with
  | upsert kind r =>
    cases hid : resourceId r with
    | none =>
      refine ⟨c, ?_, hi⟩
      unfold ResourceCache.call upsert
      simp only [hid]
      exact does_nil
    | some rid =>
      obtain ⟨hr, hd, hs⟩ := h rid hid
      cases kind with
      | sender => exact hi.upsert_statusKind (k := .sender) hid hr (hd _ rfl)
      | receiver => exact hi.upsert_statusKind (k := .receiver) hid hr (hd _ rfl)
      | source => exact hi.upsert_source hid hr (hs rfl)
      | flow => exact hi.upsert_other hid hr (.inl rfl)
      | node => exact hi.upsert_other hid hr (.inr (.inl rfl))
      | device => exact hi.upsert_other hid hr (.inr (.inr rfl))
  | remove kind id =>
    cases kind with
    | sender => exact hi.remove_statusKind (k := .sender) (h.1 _ rfl)
    | receiver => exact hi.remove_statusKind (k := .receiver) (h.1 _ rfl)
    | source => exact hi.remove_source (h.2 rfl)
    | flow => exact hi.remove_other (.inl rfl)
    | node => exact hi.remove_other (.inr (.inl rfl))
    | device => exact hi.remove_other (.inr (.inr rfl))
  | replaceAll kind rs =>
    have hstatus (k : StatusKind) (hk : statusKindOf kind = some k) : ∀ r ∈ rs, ∀ rid, resourceId r = some rid →
        Readable kind r ∧ ¬(c.storeFor (opposite k).kind).contains rid :=
      fun r hr rid hid => ⟨(h.1 r hr rid hid).1, (h.1 r hr rid hid).2 k hk⟩
    cases kind with
    | sender => exact hi.replaceAll_statusKind (k := .sender) (h.2 _ rfl).1 (hstatus _ rfl) (h.2 _ rfl).2
    | receiver => exact hi.replaceAll_statusKind (k := .receiver) (h.2 _ rfl).1 (hstatus _ rfl) (h.2 _ rfl).2
    | source => exact hi.replaceAll_source fun r hr rid hid => (h.1 r hr rid hid).1
    | flow => exact hi.replaceAll_other (.inl rfl) fun r hr rid hid => (h.1 r hr rid hid).1
    | node => exact hi.replaceAll_other (.inr (.inl rfl)) fun r hr rid hid => (h.1 r hr rid hid).1
    | device => exact hi.replaceAll_other (.inr (.inr rfl)) fun r hr rid hid => (h.1 r hr rid hid).1

end ResourceCache
end Controller
