import NmosReference.Registry.StoreMirror

namespace Registry

-- What a reader finds: the body of each extant resource.
abbrev Content := ResourceType → String → Option Body

-- What is found after the change that an event tells of.
def Content.after (c : Content) (e : ResourceEvent) : Content :=
  fun t x => if t = e.resourceType ∧ x = e.resourceId then e.post else c t x

-- The events tell, one after the other, how one content became another.
def Describes : List ResourceEvent → Content → Content → Prop
  | [], c, c'      => c' = c
  | e :: ev, c, c' => e.pre = c e.resourceType e.resourceId ∧ Describes ev (c.after e) c'

namespace Describes

variable {ev ev' : List ResourceEvent} {c c' c'' : Content}

theorem append (h : Describes ev c c') (h' : Describes ev' c' c'') : Describes (ev ++ ev') c c'' := by
  induction ev generalizing c with
  | nil          => exact h ▸ h'
  | cons e ev hi => exact ⟨h.1, hi h.2⟩

-- Events of distinct resources tell of a change if each tells of its own.
theorem of_nodup (hn : (ev.map ResourceEvent.key).Nodup)
    (he : ∀ e ∈ ev, e.pre = c e.resourceType e.resourceId ∧ c' e.resourceType e.resourceId = e.post)
    (hc : ∀ t x, (t, x) ∉ ev.map ResourceEvent.key → c' t x = c t x) : Describes ev c c' := by
  induction ev generalizing c with
  | nil => exact funext fun t => funext fun x => hc t x (by simp)
  | cons e ev hi =>
    have hn := List.nodup_cons.mp hn
    refine ⟨(he e (by simp)).1, hi hn.2 (fun e' he' => ?_) fun t x hx => ?_⟩
    · refine ⟨?_, (he e' (by simp [he'])).2⟩
      rw [(he e' (by simp [he'])).1, Content.after, if_neg]
      exact fun ⟨ht, hx⟩ => hn.1 <| List.mem_map.mpr ⟨e', he', Prod.ext ht hx⟩
    · simp only [Content.after]
      split
      case isTrue h =>
        rw [h.1, h.2]
        exact (he e (by simp)).2
      case isFalse h =>
        refine hc t x ?_
        simp only [List.map_cons, List.mem_cons, not_or]
        exact ⟨fun e' => h ⟨congrArg Prod.fst e', congrArg Prod.snd e'⟩, hx⟩

theorem of_mem (hn : (ev.map ResourceEvent.key).Nodup) (h : Describes ev c c') :
    (∀ e ∈ ev, e.pre = c e.resourceType e.resourceId ∧ c' e.resourceType e.resourceId = e.post) ∧
      ∀ t x, (t, x) ∉ ev.map ResourceEvent.key → c' t x = c t x := by
  induction ev generalizing c with
  | nil => exact ⟨by simp, fun t x _ => by rw [h]⟩
  | cons e ev hi =>
    have hn := List.nodup_cons.mp hn
    have ⟨h₁, h₂⟩ := hi hn.2 h.2
    refine ⟨fun e' he' => ?_, fun t x hx => ?_⟩
    · obtain rfl | he' := List.mem_cons.mp he'
      · refine ⟨h.1, (h₂ _ _ hn.1).trans ?_⟩
        simp [Content.after]
      · have ⟨hpre, hpost⟩ := h₁ e' he'
        refine ⟨hpre.trans (if_neg fun ⟨ht, hx⟩ => hn.1 ?_), hpost⟩
        exact List.mem_map.mpr ⟨e', he', Prod.ext ht hx⟩
    · simp only [List.map_cons, List.mem_cons, not_or] at hx
      refine (h₂ t x hx.2).trans (if_neg fun ⟨ht, hx'⟩ => hx.1 (Prod.ext ht hx'))

-- Events of distinct resources may be told in any order.
theorem perm (hn : (ev.map ResourceEvent.key).Nodup) (hp : ev'.Perm ev) (h : Describes ev c c') :
    Describes ev' c c' := by
  have ⟨h₁, h₂⟩ := h.of_mem hn
  have hpk := hp.map ResourceEvent.key
  exact .of_nodup (hpk.nodup_iff.mpr hn) (fun e he => h₁ e (hp.mem_iff.mp he)) fun t x hx =>
    h₂ t x fun hm => hx (hpk.mem_iff.mpr hm)

end Describes

namespace RegistryStore

variable {s s' s₁ : RegistryStore} {t t' : ResourceType} {id x : String} {r : RegisteredResource}
variable {now : Int} {ev : List ResourceEvent}

def content (s : RegistryStore) : Content :=
  fun t x => (s.get t x).map (·.body)

theorem content_congr (h : s'.get = s.get) : s'.content = s.content := by
  funext t x
  simp only [content, h]

theorem Keyed.setRecord (h : s.Keyed) : (s.setRecord r).Keyed := by
  intro t x q hq
  rw [record_setRecord] at hq
  split at hq
  case isTrue hk =>
    cases hq
    exact ⟨hk.1.symm, hk.2.symm⟩
  case isFalse => exact h _ _ _ hq

theorem Keyed.congr (h : s.Keyed) (hr : s'.record = s.record) : s'.Keyed := by
  unfold Keyed
  rw [hr]
  exact h

-- Retiring a resource is told by its removal.
theorem content_retire (hk : r.resourceType = t ∧ r.id = id) :
    (s.retire r now).content = s.content.after (.removed r) := by
  funext t' x
  simp only [content, get_retire hk, Content.after, ResourceEvent.removed, hk]
  split <;> rfl

theorem removeOne_spec (id : String) (hk : s.Keyed) : (s.removeOne t id now).2.Keyed ∧
    Describes (s.removeOne t id now).1.toList s.content (s.removeOne t id now).2.content := by
  unfold removeOne
  cases hg : s.get t id with
  | none   => exact ⟨hk, rfl⟩
  | some r =>
    obtain ⟨rfl, rfl⟩ := hk _ _ _ (get_eq_some.mp hg).1
    exact ⟨hk.setRecord, by simp [content, ResourceEvent.removed, hg], content_retire ⟨rfl, rfl⟩⟩

-- A cascade is told by its removals.
theorem Erasing.describes {P : RegisteredResource → Prop} (e : Erasing now P s ev s₁) :
    Describes ev s.content s₁.content := by
  induction e with
  | refl => rfl
  | @retire ev s₁ q _ _ hg _ hi =>
    refine hi.append ⟨?_, content_retire ⟨rfl, rfl⟩⟩
    simp [content, ResourceEvent.removed, hg]

theorem delete_describes (hw : s.WellFormed) :
    Describes ((s.delete t id now).1.getD []) s.content (s.delete t id now).2.content := by
  obtain ⟨_, e⟩ | ⟨_, _, _, _, e, he, _⟩ := delete_spec t id now hw
  · rw [e]
    rfl
  · rw [e]
    exact he.describes

theorem forgetAll_content (victims : List (ResourceType × String)) (hs : s.Keyed) :
    (victims.foldl (fun s v => (s.forget v.1 v.2).2) s).Keyed ∧
      (victims.foldl (fun s v => (s.forget v.1 v.2).2) s).content = s.content := by
  induction victims generalizing s with
  | nil => exact ⟨hs, rfl⟩
  | cons v victims hi =>
    suffices h : (s.forget v.1 v.2).2.Keyed ∧ (s.forget v.1 v.2).2.content = s.content from
      have ⟨h₁, h₂⟩ := hi h.1
      ⟨h₁, h₂.trans h.2⟩
    unfold forget
    split
    case h_2 => exact ⟨hs, rfl⟩
    case h_1 r hr =>
      obtain ⟨hr, he⟩ := Option.filter_eq_some_iff.mp hr
      have hk := hs _ _ _ hr
      have hrec : (s.dropRecord r).record = (s.eraseRecord r.resourceType r.id).record := by
        simp only [dropRecord]
        cases r.parentId <;> simp only [Option.elim_none, Option.elim_some, discardChild_record,
          popChildren_record] <;> split <;> rfl
      constructor
      · intro t x q hq
        rw [hrec, record_eraseRecord] at hq
        split at hq
        · cases hq
        · exact hs _ _ _ hq
      · funext t x
        simp only [content, RegistryStore.get, hrec, record_eraseRecord]
        split
        case isFalse => rfl
        case isTrue hx =>
          rw [hx.1, hx.2, hk.1, hk.2, hr]
          simp [Option.filter, show r.extant = false by simpa using he]

-- Only a Node hangs below itself among the Nodes.
theorem Under.eq_of_node (hw : s.WellFormed) (h : s.Under x .node id) : id = x := by
  cases h with
  | self _         => rfl
  | child hr hp _ =>
    have := (hw.shape _ _ _ (get_eq_some.mp hr).1).mpr rfl
    simp [this] at hp

section Collect

variable [Python] {acc : List ResourceEvent × RegistryStore} {c : Content}

-- One turn of the loop over the Nodes is told by its removals, and leaves the other Nodes.
theorem collectNode_spec (now : Int) (node : RegisteredResource) (hs : acc.2.Sound)
    (hg : (acc.2.get .node node.id).isSome) (hd : Describes acc.1 c acc.2.content) :
    (collectNode now acc node).2.Sound ∧
      Describes (collectNode now acc node).1 c (collectNode now acc node).2.content ∧
      ∀ x ≠ node.id, (acc.2.get .node x).isSome → ((collectNode now acc node).2.get .node x).isSome := by
  unfold collectNode
  split
  case h_2 => exact ⟨hs, hd, fun _ _ h => h⟩
  case h_1 q hq =>
    have hw := hs.wellFormed
    obtain ⟨hq, _⟩ := Option.filter_eq_some_iff.mp hq
    obtain ⟨q', hg⟩ := Option.isSome_iff_exists.mp hg
    obtain rfl : q' = q := Option.some.inj ((get_eq_some.mp hg).1.symm.trans hq)
    have hk := hw.key _ _ _ hq
    have hg' : acc.2.get q'.resourceType q'.id = some q' := by rw [hk.1, hk.2]; exact hg
    have ⟨he, hn⟩ := eraseSubtree_erasing now RECURSION_LIMIT hw hg'
      (by simp only [RECURSION_LIMIT]; omega)
    refine ⟨hs.erasing he, hd.append he.describes, fun x hx hsome => ?_⟩
    obtain ⟨r, hr⟩ := Option.isSome_iff_exists.mp hsome
    have he' : Erasing now (· ∈ acc.2.subtree q'.resourceType q'.id) acc.2
        (eraseSubtree now RECURSION_LIMIT q' acc.2).1
        (eraseSubtree now RECURSION_LIMIT q' acc.2).2 := by
      simp only [subtree, hg', Option.elim_some]
      exact he
    have := (he'.get_iff hw hg' hn).mpr ⟨hr, fun hu => hx ((Under.eq_of_node hw hu).trans hk.2)⟩
    simp [this]

theorem collectNodes_spec (now : Int) (nodes : List RegisteredResource)
    (acc : List ResourceEvent × RegistryStore)
    (hnd : (nodes.map (·.id)).Nodup) (hs : acc.2.Sound)
    (hg : ∀ n ∈ nodes, (acc.2.get .node n.id).isSome) (hd : Describes acc.1 c acc.2.content) :
    (nodes.foldl (collectNode now) acc).2.Sound ∧
      Describes (nodes.foldl (collectNode now) acc).1 c (nodes.foldl (collectNode now) acc).2.content := by
  induction nodes generalizing acc with
  | nil => exact ⟨hs, hd⟩
  | cons node nodes hi =>
    have hnd := List.nodup_cons.mp hnd
    have ⟨hs', hd', hk⟩ := collectNode_spec now node hs (hg node (by simp)) hd
    refine hi _ hnd.2 hs' (fun n (hn : n ∈ nodes) => hk _ ?_ (hg n (by simp [hn]))) hd'
    exact fun e => hnd.1 <| List.mem_map.mpr ⟨n, hn, e⟩

theorem forgetAll_sound (victims : List (ResourceType × String)) (hs : s.Sound) :
    (victims.foldl (fun s v => (s.forget v.1 v.2).2) s).Sound := by
  induction victims generalizing s with
  | nil => exact hs
  | cons v victims hi => exact hi (hs.forget v.1 v.2)

-- A garbage collection is told by its removals.
theorem collectGarbage_spec (now : Int) (hs : s.Sound) : (s.collectGarbage now).2.Sound ∧
    Describes (s.collectGarbage now).1 s.content (s.collectGarbage now).2.content := by
  have hk := hs.wellFormed.keyed
  have ⟨h₁, h₂⟩ := collectNodes_spec now (s.iterExtant .node) ([], s) (nodup_iterExtant hk)
    hs (fun n hn => by simp [(mem_iterExtant hk).mp hn]) rfl
  refine ⟨forgetAll_sound _ h₁, ?_⟩
  simp only [collectGarbage, (forgetAll_content _ h₁.wellFormed.keyed).2]
  exact h₂

end Collect

-- Registration.

section Register

variable {p : PreparedRegistration} {body : Body} {created cursor : TaiCursor} {health : Int}

theorem content_of_record (hrec : ∀ t x, s'.record t x =
    if t = r.resourceType ∧ x = r.id then some r else s.record t x) (he : r.extant = true) :
    s'.content = fun t x => if t = r.resourceType ∧ x = r.id then some r.body else s.content t x := by
  funext t x
  simp only [content, RegistryStore.get, hrec]
  split
  · simp [Option.filter, he]
  · rfl

theorem commitUpdate_describes (hk : s.Keyed) (hg : s.get p.resourceType p.resourceId = some r) :
    (s.commitUpdate r p body cursor health).2.Keyed ∧
      Describes (s.commitUpdate r p body cursor health).1.events s.content
        (s.commitUpdate r p body cursor health).2.content := by
  have ⟨hr, he⟩ := get_eq_some.mp hg
  obtain ⟨ht, hi⟩ := hk _ _ _ hr
  let q := { r with body, version := p.version, updated := cursor, parentId := p.parentId, health }
  have hrec : (s.commitUpdate r p body cursor health).2.record = (s.setRecord q).record := by
    simp [commitUpdate, q]
  refine ⟨hk.setRecord.congr hrec, ?_, ?_⟩
  · simp [content, ResourceEvent.modified, ht, hi, hg]
  · exact content_of_record (r := q) (fun t x => by rw [hrec, record_setRecord]) he

theorem commitCreate_describes (pre : Option String) (hk : s.Keyed)
    (hg : s.get p.resourceType p.resourceId = none) :
    (s.commitCreate pre p body created cursor health).2.Keyed ∧
      Describes (s.commitCreate pre p body created cursor health).1.events s.content
        (s.commitCreate pre p body created cursor health).2.content := by
  let q : RegisteredResource :=
    { resourceType := p.resourceType, id := p.resourceId, body, version := p.version, created,
      updated := cursor, parentId := p.parentId, extant := true, health }
  have hrec : (s.commitCreate pre p body created cursor health).2.record = (s.setRecord q).record := by
    simp only [commitCreate, touchOrder_record]
    split <;> simp [q]
  refine ⟨hk.setRecord.congr hrec, ?_, ?_⟩
  · simp [content, ResourceEvent.added, hg]
  · exact content_of_record (r := q) (fun t x => by rw [hrec, record_setRecord]) rfl

-- A refusal names its error and publishes nothing.
def Refusal (failure : RegistrationResult) : Prop :=
  ∃ error detail, failure = .failure error detail

theorem checkParent_refusal {parentId : Option String} {failure : RegistrationResult}
    (h : s.checkParent t parentId = some failure) : Refusal failure := by
  unfold checkParent at h
  split at h
  case h_1 => exact ⟨_, _, (Option.some.inj h).symm⟩
  case h_2 =>
    split at h
    case h_1 => exact ⟨_, _, (Option.some.inj h).symm⟩
    case h_2 =>
      split at h
      case isTrue  => exact ⟨_, _, (Option.some.inj h).symm⟩
      case isFalse => cases h
  case h_3 => cases h

variable [Python] {raw : Python.Json}

-- Applying an accepted registration is told by its one event.
theorem applyCommitted_describes (body : Body) (created updated : Option TaiCursor)
    (health : Option Int) (now : TaiCursor) (hk : s.Keyed) (ha : s.Accepts t raw p) :
    (s.applyCommitted p body created updated health now).2.Keyed ∧
      Describes (s.applyCommitted p body created updated health now).1.events s.content
        (s.applyCommitted p body created updated health now).2.content := by
  obtain rfl := ha.type
  have hrec : (s.commitCursor p.resourceType updated now).2.record = s.record := commitCursor_record
  simp only [applyCommitted]
  generalize s.commitCursor p.resourceType updated now = cs at hrec
  obtain ⟨cursor, s₁⟩ := cs
  have hrec : s₁.record = s.record := hrec
  have hget : s₁.get = s.get := by funext t x; simp only [RegistryStore.get, hrec]
  rw [← content_congr hget]
  have hk₁ := hk.congr hrec
  cases hr : s.record p.resourceType p.resourceId with
  | none =>
    have hg : s₁.get p.resourceType p.resourceId = none := by simp [RegistryStore.get, hrec, hr]
    simp only [hrec, hr]
    exact commitCreate_describes none hk₁ hg
  | some r =>
    have hrv : p.reviving = !r.extant := by simp [ha.reviving, hr]
    simp only [hrec, hr, hrv]
    cases he : r.extant with
    | true  => exact commitUpdate_describes hk₁ (by simp [RegistryStore.get, hrec, hr, Option.filter, he])
    | false =>
      exact commitCreate_describes _ hk₁ (by simp [RegistryStore.get, hrec, hr, Option.filter, he])

theorem checkUpdate_refusal {version : String} {parentId : Option String}
    {failure : RegistrationResult} (h : checkUpdate r version parentId = some failure) :
    Refusal failure := by
  unfold checkUpdate at h
  split at h
  case h_1 => exact ⟨_, _, (Option.some.inj h).symm⟩
  case h_2 =>
    split at h
    case isTrue  => exact ⟨_, _, (Option.some.inj h).symm⟩
    case isFalse =>
      split at h
      case isTrue  => exact ⟨_, _, (Option.some.inj h).symm⟩
      case isFalse => cases h

theorem prepare_refusal {failure : RegistrationResult} (h : s.prepare t raw = .error failure) :
    Refusal failure := by
  unfold prepare at h
  split at h
  case h_1 => exact ⟨_, _, (Except.error.inj h).symm⟩
  case h_2 => exact ⟨_, _, (Except.error.inj h).symm⟩
  case h_3 id version _ _ =>
    split at h
    case h_1 => exact ⟨_, _, (Except.error.inj h).symm⟩
    case h_2 =>
      unfold prepareTyped at h
      split at h
      case h_1 failure' hc =>
        cases h
        exact checkParent_refusal hc
      case h_2 =>
        split at h
        case h_1 failure' hc =>
          cases h
          obtain ⟨r, _, hc⟩ := Option.bind_eq_some_iff.mp hc
          exact checkUpdate_refusal hc
        case h_2 => cases h

theorem insertOrUpdate_spec (body : Body) (now : TaiCursor) (hs : s.Sound) :
    (s.insertOrUpdate t body now).2.Sound ∧
      Describes (s.insertOrUpdate t body now).1.events s.content
        (s.insertOrUpdate t body now).2.content := by
  unfold insertOrUpdate
  cases hp : s.prepare t body.data with
  | error failure =>
    refine ⟨hs, ?_⟩
    obtain ⟨_, _, rfl⟩ := prepare_refusal hp
    rfl
  | ok p =>
    have ha := prepare_eq_ok.mp hp
    exact ⟨hs.applyCommitted ha, (applyCommitted_describes body none none none now hs.wellFormed.keyed ha).2⟩

-- What `register` publishes: a refusal carries no events.
theorem insertOrUpdate_events {body : Body} {now : TaiCursor} (hs : s.Sound) :
    (if (s.insertOrUpdate t body now).1.ok then (s.insertOrUpdate t body now).1.events else []) =
      (s.insertOrUpdate t body now).1.events := by
  unfold insertOrUpdate
  cases hp : s.prepare t body.data with
  | error failure =>
    obtain ⟨_, _, rfl⟩ := prepare_refusal hp
    rfl
  | ok p =>
    have ⟨_, e⟩ := applyCommitted_registered body none none none now hs.wellFormed
      (prepare_eq_ok.mp hp) rfl
    simp only [e]
    rfl

end Register

-- Health.

-- The stores differ in the health of their records only.
structure Refreshed (s s' : RegistryStore) : Prop where
  record   : ∀ t x, (s'.record t x).map view = (s.record t x).map view
  typeOf   : s'.typeOf = s.typeOf
  children : s'.children = s.children

namespace Refreshed

theorem refl : s.Refreshed s :=
  ⟨fun _ _ => rfl, rfl, rfl⟩

theorem trans (h₁ : s.Refreshed s₁) (h₂ : s₁.Refreshed s') : s.Refreshed s' :=
  ⟨fun t x => (h₂.record t x).trans (h₁.record t x), h₂.typeOf.trans h₁.typeOf,
    h₂.children.trans h₁.children⟩

theorem record_some (h : s.Refreshed s') (hr : s'.record t x = some r) :
    ∃ q, s.record t x = some q ∧ view q = view r := by
  have := (h.record t x).symm
  rw [hr, Option.map_some, Option.map_eq_some_iff] at this
  exact this

theorem symm (h : s.Refreshed s') : s'.Refreshed s :=
  ⟨fun t x => (h.record t x).symm, h.typeOf.symm, h.children.symm⟩

theorem get_some (h : s.Refreshed s') (hr : s'.get t x = some r) :
    ∃ q, s.get t x = some q ∧ view q = view r := by
  have ⟨hr, he⟩ := get_eq_some.mp hr
  have ⟨q, hq, hv⟩ := h.record_some hr
  exact ⟨q, get_eq_some.mpr ⟨hq, (congrArg (·.extant) hv).trans he⟩, hv⟩

theorem get (h : s.Refreshed s') : (s'.get t x).map view = (s.get t x).map view := by
  refine Option.ext fun q => ?_
  simp only [Option.map_eq_some_iff]
  constructor
  · rintro ⟨r, hr, rfl⟩
    exact h.get_some hr
  · rintro ⟨r, hr, rfl⟩
    exact h.symm.get_some hr

theorem content (h : s.Refreshed s') : s'.content = s.content := by
  funext t x
  have := congrArg (Option.map (·.body)) (h.get (t := t) (x := x))
  simpa [RegistryStore.content, Function.comp_def, view] using this

theorem keyed (h : s.Refreshed s') (hk : s.Keyed) : s'.Keyed := by
  intro t x r hr
  have ⟨q, hq, hv⟩ := h.record_some hr
  have ⟨ht, hi⟩ := hk _ _ _ hq
  exact ⟨(congrArg (·.resourceType) hv).symm.trans ht, (congrArg (·.id) hv).symm.trans hi⟩

theorem wellFormed (h : s.Refreshed s') (hw : s.WellFormed) : s'.WellFormed where
  key    := h.keyed hw.key
  typed  := fun t id => by
    rw [h.typeOf, hw.typed]
    constructor
    · rintro ⟨r, hr⟩
      exact (h.symm.record_some hr).imp fun _ h => h.1
    · rintro ⟨r, hr⟩
      exact (h.record_some hr).imp fun _ h => h.1
  listed := fun t id r p hr hp => by
    have ⟨q, hq, hv⟩ := h.get_some hr
    rw [h.children]
    exact hw.listed _ _ _ _ hq ((congrArg (·.parentId) hv).trans hp)
  owned  := fun id p hi => by
    rw [h.children] at hi
    have ⟨t, r, hr, hp⟩ := hw.owned _ _ hi
    have ⟨q, hq, hv⟩ := h.symm.record_some hr
    exact ⟨t, q, hq, (congrArg (·.parentId) hv).trans hp⟩
  shape  := fun t id r hr => by
    have ⟨q, hq, hv⟩ := h.record_some hr
    rw [← hw.shape _ _ _ hq, show q.parentId = r.parentId from congrArg (·.parentId) hv]
  parent := fun t id r p pt hr hp ht => by
    have ⟨q, hq, hv⟩ := h.get_some hr
    have ⟨q', hq'⟩ := hw.parent _ _ _ _ _ hq ((congrArg (·.parentId) hv).trans hp) ht
    exact (h.symm.get_some hq').imp fun _ h => h.1
  nodup  := h.children ▸ hw.nodup

theorem sound [Python] (h : s.Refreshed s') (hs : s.Sound) : s'.Sound where
  wellFormed := h.wellFormed hs.wellFormed
  parsed     := fun t id r hr => by
    have ⟨q, hq, hv⟩ := h.record_some hr
    have e : r = { q with health := r.health } := by
      have : { view q with health := r.health } = { view r with health := r.health } := by rw [hv]
      exact this.symm
    have ⟨h₁, h₂, h₃, h₄, h₅⟩ := hs.parsed _ _ _ hq
    rw [e]
    exact ⟨h₁, h₂, h₃, h₄, h₅⟩

theorem setHealth {health : Int} (hr : (s.record r.resourceType r.id).map view = some (view r)) :
    s.Refreshed (s.setRecord { r with health }) where
  record   := fun t x => by
    rw [record_setRecord]
    split
    case isTrue h => rw [h.1, h.2, hr]; rfl
    case isFalse  => rfl
  typeOf   := rfl
  children := rfl

end Refreshed

-- A refresh of a subtree sets nothing but healths.
theorem setHealthRecursive_refreshed (health : Int) (limit : Nat) (hk : s.Keyed)
    (hr : (s.record r.resourceType r.id).map view = some (view r)) :
    s.Refreshed (setHealthRecursive health limit r s) := by
  induction limit generalizing r s with
  | zero => exact .refl
  | succ limit hi =>
    have hc : ∀ (ids : List String) (s₁ : RegistryStore), s.Refreshed s₁ → s.Refreshed
        (ids.foldl (fun s c => (s.findAny c).elim s (setHealthRecursive health limit · s)) s₁) := by
      intro ids
      induction ids with
      | nil => exact fun _ h => h
      | cons c ids hl =>
        refine fun s₁ h => hl _ ?_
        cases hf : s₁.findAny c with
        | none       => simpa only [hf, Option.elim_none] using h
        | some child =>
          obtain ⟨t, _, hg⟩ := Option.bind_eq_some_iff.mp hf
          have hrec := (get_eq_some.mp hg).1
          have hk₁ := h.keyed hk
          have ⟨ht, hid⟩ := hk₁ _ _ _ hrec
          simp only [hf, Option.elim_some]
          exact h.trans <| hi hk₁ (by rw [ht, hid, hrec, Option.map_some])
    have h := hc (s.children r.id) s .refl
    exact h.trans <| .setHealth ((h.record _ _).trans hr)

theorem heartbeat_refreshed (nodeId : String) (now : Int) (hk : s.Keyed) :
    s.Refreshed (s.heartbeat nodeId now).2 := by
  unfold heartbeat
  cases hg : s.get .node nodeId with
  | none      => exact .refl
  | some node =>
    have hr := (get_eq_some.mp hg).1
    have ⟨ht, hi⟩ := hk _ _ _ hr
    exact setHealthRecursive_refreshed now RECURSION_LIMIT hk (by rw [ht, hi, hr, Option.map_some])

end RegistryStore
end Registry
