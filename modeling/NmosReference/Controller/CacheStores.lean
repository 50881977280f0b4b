import NmosReference.Controller.Cache

-- What the calls do to the stores of the cache, whether they finish or raise.
namespace Controller.ResourceCache

variable {J P : Type} {c : ResourceCache J P} {kind kind' : ResourceKind} {k : StatusKind} {sid : String}

@[simp] theorem storeFor_setStore {d : Dict String J} :
    (c.setStore d kind).storeFor kind' = if kind' = kind then d else c.storeFor kind' := by
  cases kind <;> cases kind' <;> rfl

-- The program touches no store.
abbrev KeepsStores {α : Type} (m : Mutation J P α) : Prop :=
  ∀ kind, m.Keeps (·.storeFor kind)

theorem keepsStores_pure {α : Type} {a : α} : KeepsStores (pure a : Mutation J P α) :=
  fun _ => Handler.keeps_pure

theorem keepsStores_get : KeepsStores (get : Mutation J P (ResourceCache J P)) :=
  fun _ => Handler.keeps_get

theorem keepsStores_ofExcept {α : Type} {r : Except PyError α} :
    KeepsStores (Handler.ofExcept r : Mutation J P α) :=
  fun _ => Handler.keeps_ofExcept

theorem KeepsStores.bind {α β : Type} {m : Mutation J P α} {f : α → Mutation J P β} (h : KeepsStores m)
    (hf : ∀ a, KeepsStores (f a)) : KeepsStores (m >>= f) :=
  fun kind => (h kind).bind fun a => hf a kind

theorem keepsStores_collect {α : Type} {f : α → Mutation J P (List (StatusChanged J P))} {xs : List α}
    (h : ∀ x, KeepsStores (f x)) : KeepsStores (collect f xs) := by
  induction xs with
  | nil => exact keepsStores_pure
  | cons x xs ih => exact (h x).bind fun _ => ih.bind fun _ => keepsStores_pure

-- A program that starts by reading the cache may put it back with other statuses and flow matches.
theorem keepsStores_get_bind {α : Type} {f : ResourceCache J P → Mutation J P α}
    (h : ∀ c kind, ((f c).leaves c).storeFor kind = c.storeFor kind) : KeepsStores (get >>= f) :=
  fun kind c => h c kind

theorem leaves_ofExcept_bind {α β : Type} {r : Except PyError α} {f : α → Mutation J P β}
    (h : ∀ a, ((f a).leaves c).storeFor kind = c.storeFor kind) :
    (((Handler.ofExcept r : Mutation J P α) >>= f).leaves c).storeFor kind = c.storeFor kind := by
  cases r with
  | error e => rfl
  | ok a => exact h a

theorem storeFor_flowMatch {fm : Dict String P} :
    ({ c with flowMatch := fm } : ResourceCache J P).storeFor kind = c.storeFor kind := by
  cases kind <;> rfl

theorem storeFor_status {st : Dict String (ResourceStatus J)} :
    ({ c with status := st } : ResourceCache J P).storeFor kind = c.storeFor kind := by
  cases kind <;> rfl

variable [Json J]

theorem keepsStores_receiverEvents {payload : Option P} : KeepsStores (receiverFlowMatchEvents (J := J) sid payload) := by
  cases payload with
  | none => exact keepsStores_pure
  | some payload =>
    refine keepsStores_get.bind fun c => keepsStores_collect fun p => keepsStores_ofExcept.bind fun sub => ?_
    split
    · exact keepsStores_pure
    · exact keepsStores_get_bind fun _ _ => storeFor_flowMatch

theorem keepsStores_derive {id : String} {r : J} {monitor : Option J} :
    KeepsStores (derive (P := P) k id r monitor) := by
  refine keepsStores_ofExcept.bind fun s => keepsStores_get_bind fun c kind => ?_
  split
  · exact storeFor_status
  · rfl

theorem keepsStores_deriveEvents {id : String} {r : J} {monitor : Option J} :
    KeepsStores (deriveEvents (P := P) k id r monitor) :=
  keepsStores_derive.bind fun _ => keepsStores_pure

theorem keepsStores_siblingEvents {source : J} {monitor : Option J} :
    KeepsStores (siblingEvents (P := P) source monitor) := by
  refine keepsStores_get.bind fun c => ?_
  split
  · exact keepsStores_deriveEvents
  · exact keepsStores_pure

theorem keepsStores_deriveAll : KeepsStores (deriveAll (J := J) (P := P) k) :=
  keepsStores_get.bind fun _ => keepsStores_collect fun _ => keepsStores_get.bind fun _ => keepsStores_deriveEvents

variable [FlowMatcher J P] [DecidableEq P]

theorem keepsStores_recompute : KeepsStores (recomputeSenderFlowMatch (J := J) (P := P) sid) := by
  refine keepsStores_get_bind fun c kind => ?_
  dsimp only
  split
  · rfl
  · refine leaves_ofExcept_bind fun flow => ?_
    cases flow.filter Json.isDict with
    | none => exact leaves_ofExcept_bind (r := .ok none) fun source => leaves_ofExcept_bind fun payload => storeFor_flowMatch
    | some flow => exact leaves_ofExcept_bind fun source => leaves_ofExcept_bind fun payload => storeFor_flowMatch

theorem keepsStores_senderEvents {force : Bool} :
    KeepsStores (senderFlowMatchEvents (J := J) (P := P) force sid) := by
  refine keepsStores_recompute.bind fun ⟨payload, changed⟩ => ?_
  cases payload with
  | none => exact keepsStores_pure
  | some payload =>
    dsimp only
    split
    · exact keepsStores_get.bind fun c => keepsStores_receiverEvents.bind fun _ => keepsStores_pure
    · exact keepsStores_pure

theorem keepsStores_flowEvents {force : Bool} :
    KeepsStores (flowMatchEventsForFlow (J := J) (P := P) sid force) := by
  refine keepsStores_get.bind fun c => keepsStores_collect fun p => ?_
  split
  · exact keepsStores_pure
  · exact keepsStores_senderEvents

theorem keepsStores_sourceEvents {force : Bool} :
    KeepsStores (flowMatchEventsForSource (J := J) (P := P) sid force) := by
  refine keepsStores_get.bind fun c => keepsStores_collect fun p => keepsStores_get.bind fun c => ?_
  refine keepsStores_ofExcept.bind fun flow => ?_
  split
  · exact keepsStores_pure
  · exact keepsStores_senderEvents

theorem keepsStores_upsertStatusKind {r : J} (prev : Option J) :
    KeepsStores (upsertStatusKind (P := P) k sid r prev) := by
  refine keepsStores_get.bind fun c => keepsStores_derive.bind fun ⟨s, changed⟩ => ?_
  cases k with
  | receiver => exact keepsStores_pure
  | sender =>
    refine keepsStores_recompute.bind fun ⟨payload, changed⟩ => ?_
    dsimp only
    split
    · exact keepsStores_receiverEvents.bind fun _ => keepsStores_pure
    · exact keepsStores_pure

theorem keepsStores_upsertSource {r : J} {prev : Option J} : KeepsStores (upsertSource (P := P) sid r prev) :=
  keepsStores_siblingEvents.bind fun _ => keepsStores_sourceEvents.bind fun _ => keepsStores_pure

-- The resource is stored, also where the call raises.
theorem storeFor_upsert {r : J} : ((upsert kind r).leaves c).storeFor kind' =
    match resourceId r with
    | some rid => if kind' = kind then (c.storeFor kind).set rid r else c.storeFor kind'
    | none     => c.storeFor kind' := by
  unfold upsert
  cases resourceId r with
  | none => rfl
  | some rid =>
    refine Eq.trans ?_ storeFor_setStore
    cases kind with
    | sender => exact keepsStores_upsertStatusKind _ kind' _
    | receiver => exact keepsStores_upsertStatusKind (c.receivers.get? rid) kind' _
    | source => exact keepsStores_upsertSource kind' _
    | flow => exact (keepsStores_flowEvents kind').tryCatch (fun _ => Handler.keeps_pure) _
    | node => rfl
    | device => rfl

omit [FlowMatcher J P] [DecidableEq P] in
theorem storeFor_remove {id : String} : ((remove kind id).leaves c).storeFor kind' =
    if kind' = kind then (c.storeFor kind).erase id else c.storeFor kind' := by
  unfold remove
  refine Eq.trans ?_ storeFor_setStore
  cases kind with
  | sender => exact storeFor_status
  | receiver => exact storeFor_status
  | source =>
    unfold Handler.leaves
    rw [Handler.run_bind_ok Handler.run_get]
    simp only
    rw [Handler.run_bind_ok Handler.run_set]
    cases (c.storeFor .source).get? id with
    | none        => rfl
    | some source => exact keepsStores_siblingEvents kind' _
  | node => rfl
  | device => rfl
  | flow => rfl

section ReplaceAll

omit [FlowMatcher J P] [DecidableEq P]

variable {r : J} {rs : List J}

-- What a store becomes where a resource is installed.
def put (d : Dict String J) (r : J) : Dict String J :=
  match resourceId r with
  | some rid => d.set rid r
  | none     => d

-- Installing the resource does not raise.
def Installs (kind : ResourceKind) (r : J) : Prop :=
  ∀ k, statusKindOf kind = some k → (∃ s, subscription r = .ok s) ∧ (Json.get r "id").all Json.hashable

omit [Json J] in
theorem storeFor_purge [Json J] {ids : List J} : (c.purge kind ids).storeFor kind' = c.storeFor kind' := by
  unfold purge
  generalize c.status.keys = sids
  induction sids generalizing c with
  | nil => rfl
  | cons sid sids hi =>
    rw [List.foldl_cons, hi]
    split
    · exact storeFor_status
    · rfl

theorem keepsStores_purgeMissing : KeepsStores (purgeMissing (P := P) kind rs) := by
  intro kind' c
  unfold purgeMissing
  dsimp only
  split
  · exact storeFor_purge
  · rfl

-- The state of a monitor can be decoded.
def Decodes (source : J) : Prop :=
  ∃ state, extractMonitorState source = .ok state

-- So it can of every Source that may be found to be a monitor.
def Decoded (c : ResourceCache J P) : Prop :=
  ∀ id source, (c.storeFor .source).get? id = some source → Decodes source

theorem Decoded.congr {c' : ResourceCache J P} (h : Decoded c) (hs : c'.storeFor .source = c.storeFor .source) : Decoded c' :=
  fun id source hg => h id source (hs ▸ hg)

theorem Decoded.monitor (h : Decoded c) (id : String) : ∀ source ∈ c.findMonitorSource id, Decodes source := by
  intro source hm
  obtain ⟨id', hg⟩ := Dict.mem_values.mp (List.mem_of_find?_eq_some hm)
  exact h id' source hg

theorem extract_ok (mon : Option J) (h : ∃ s, subscription r = .ok s) (hm : ∀ source ∈ mon, Decodes source) :
    ∃ s, extractStatus k r mon = .ok s := by
  obtain ⟨s, hs⟩ := h
  obtain ⟨state, hstate⟩ : ∃ state, monitorStateOf mon = .ok state := by
    cases mon with
    | none        => exact ⟨none, rfl⟩
    | some source => exact hm source rfl
  simp only [extractStatus, hs, hstate, bind, Except.bind]
  split <;> exact ⟨_, rfl⟩

theorem derive_ok (id : String) (mon : Option J) (h : ∃ s, subscription r = .ok s) (hm : ∀ source ∈ mon, Decodes source) :
    ∃ events c', (deriveEvents k id r mon).run c = (.ok events, c') := by
  obtain ⟨s, he⟩ := extract_ok (k := k) mon h hm
  unfold deriveEvents derive
  rw [he]
  by_cases hs : c.status.get? id = some s <;> simp [hs, Handler.run_bind]

theorem install_other (h : kind' ≠ kind) : (install kind r).Keeps (fun c : ResourceCache J P => c.storeFor kind') := by
  unfold install
  cases resourceId r with
  | none => exact Handler.keeps_pure
  | some rid =>
    intro c
    refine Eq.trans (b := (c.setStore ((c.storeFor kind).set rid r) kind).storeFor kind') ?_ (storeFor_setStore.trans (if_neg h))
    cases statusKindOf kind with
    | none => rfl
    | some k => exact keepsStores_deriveEvents kind' _

theorem source_ne (hk : statusKindOf kind = some k) : .source ≠ kind := by
  rintro rfl
  cases hk

theorem install_ok (h : Installs kind r) (hd : (statusKindOf kind).isSome → Decoded c) :
    ∃ events c', (install kind r).run c = (.ok events, c') ∧ c'.storeFor kind = put (c.storeFor kind) r := by
  unfold install put
  cases resourceId r with
  | none => exact ⟨[], c, rfl, rfl⟩
  | some rid =>
    generalize hc₁ : c.setStore ((c.storeFor kind).set rid r) kind = c₁
    have hst : c₁.storeFor kind = (c.storeFor kind).set rid r := by
      rw [← hc₁, storeFor_setStore, if_pos rfl]
    cases hk : statusKindOf kind with
    | none => exact ⟨[], c₁, by subst hc₁; simp [Handler.run_bind], hst⟩
    | some k =>
      have hdecoded : Decoded c₁ := (hd (hk ▸ rfl)).congr <| by
        rw [← hc₁, storeFor_setStore, if_neg (source_ne hk)]
      obtain ⟨events, c₂, e⟩ := derive_ok (c := c₁) (k := k) rid (c₁.findMonitorSource rid) (h k hk).1 (hdecoded.monitor rid)
      refine ⟨events, c₂, ?_, Eq.trans ?_ hst⟩
      · subst hc₁
        simp only [Handler.run_bind, Handler.run_get, Handler.run_set]
        exact e
      · have hkeep : ((deriveEvents k rid r (c₁.findMonitorSource rid)).leaves c₁).storeFor kind = c₁.storeFor kind :=
          keepsStores_deriveEvents kind c₁
        rwa [Handler.leaves, e] at hkeep

theorem installAll_other (h : kind' ≠ kind) :
    (collect (install kind) rs).Keeps (fun c : ResourceCache J P => c.storeFor kind') := by
  induction rs with
  | nil => exact Handler.keeps_pure
  | cons r rs ih => exact (install_other h).bind fun _ => ih.bind fun _ => Handler.keeps_pure

theorem installAll_ok (h : ∀ r ∈ rs, Installs kind r) (hd : (statusKindOf kind).isSome → Decoded c) :
    ∃ events c', (collect (install kind) rs).run c = (.ok events, c') ∧
      c'.storeFor kind = rs.foldl put (c.storeFor kind) := by
  induction rs generalizing c with
  | nil => exact ⟨[], c, rfl, rfl⟩
  | cons r rs ih =>
    obtain ⟨events, c₁, e, h₁⟩ := install_ok (c := c) (h r (by simp)) hd
    have hd₁ : (statusKindOf kind).isSome → Decoded c₁ := by
      intro hk
      obtain ⟨k, hk⟩ := Option.isSome_iff_exists.mp hk
      have hkeep : ((install kind r).leaves c).storeFor .source = c.storeFor .source := install_other (source_ne hk) c
      rw [Handler.leaves, e] at hkeep
      exact (hd (hk ▸ rfl)).congr hkeep
    obtain ⟨more, c₂, e', h₂⟩ := ih (c := c₁) (fun r hr => h r (by simp [hr])) hd₁
    refine ⟨events ++ more, c₂, ?_, by rw [h₂, h₁, List.foldl_cons]⟩
    rw [collect, Handler.run_bind_ok e, Handler.run_bind_ok e']
    rfl

theorem keeps_replaceAll (h : kind' ≠ kind) :
    (replaceAll kind rs).Keeps (fun c : ResourceCache J P => c.storeFor kind') := by
  have hrest : Handler.Keeps (do
      let events ← collect (install kind) rs
      if kind = .source then
        let senders ← deriveAll .sender
        let receivers ← deriveAll .receiver
        return events ++ senders ++ receivers
      else return events) (fun c : ResourceCache J P => c.storeFor kind') := by
    refine (installAll_other h).bind fun events => ?_
    split
    · exact (keepsStores_deriveAll kind').bind fun _ => (keepsStores_deriveAll kind').bind fun _ => Handler.keeps_pure
    · exact Handler.keeps_pure
  refine (Handler.keeps_modify fun c => ?_).bind fun _ => ?_
  · exact storeFor_setStore.trans (if_neg h)
  · exact ((keepsStores_purgeMissing kind').bind fun _ => hrest).ite hrest

theorem purgeMissing_ok (rs : List J) (h : ∀ r ∈ rs, Installs kind r) (hk : (statusKindOf kind).isSome) :
    ∃ c', (purgeMissing kind rs).run c = (.ok ⟨⟩, c') := by
  have hh : (rs.filterMap fun r => (Json.get r "id").filter Json.truthy).all Json.hashable := by
    obtain ⟨k, hk⟩ := Option.isSome_iff_exists.mp hk
    rw [List.all_eq_true]
    intro v hv
    obtain ⟨r, hr, hv⟩ := List.mem_filterMap.mp hv
    have hr := (h r hr k hk).2
    rwa [(Option.filter_eq_some_iff.mp hv).1] at hr
  exact ⟨_, by rw [purgeMissing, if_pos hh, Handler.run_modify]⟩

theorem storeFor_replaceAll (h : ∀ r ∈ rs, Installs kind r) (hd : (statusKindOf kind).isSome → Decoded c) :
    ((replaceAll kind rs).leaves c).storeFor kind = rs.foldl put ∅ := by
  have hrest (c : ResourceCache J P) (hc : c.storeFor kind = ∅) (hd : (statusKindOf kind).isSome → Decoded c) : (Handler.leaves (do
      let events ← collect (install kind) rs
      if kind = .source then
        let senders ← deriveAll .sender
        let receivers ← deriveAll .receiver
        return events ++ senders ++ receivers
      else return events) c).storeFor kind = rs.foldl put ∅ := by
    obtain ⟨events, c₁, e, h₁⟩ := installAll_ok (c := c) h hd
    rw [Handler.leaves, Handler.run_bind_ok e, ← hc, ← h₁]
    split
    · exact ((keepsStores_deriveAll kind).bind fun _ => (keepsStores_deriveAll kind).bind fun _ => Handler.keeps_pure) c₁
    · rfl
  have hempty : (c.setStore ∅ kind).storeFor kind = ∅ := storeFor_setStore.trans (if_pos rfl)
  unfold replaceAll
  rw [Handler.leaves, Handler.run_bind_ok Handler.run_modify]
  by_cases hk : (statusKindOf kind).isSome
  · obtain ⟨c₁, e⟩ := purgeMissing_ok rs (c := c.setStore ∅ kind) h hk
    have hst : c₁.storeFor kind = ∅ := by
      have hkeep : ((purgeMissing kind rs).leaves (c.setStore ∅ kind)).storeFor kind = _ :=
        keepsStores_purgeMissing kind _
      rw [Handler.leaves, e] at hkeep
      exact hkeep.trans hempty
    have hsource : c₁.storeFor .source = c.storeFor .source := by
      obtain ⟨k, hk⟩ := Option.isSome_iff_exists.mp hk
      have hkeep : ((purgeMissing kind rs).leaves (c.setStore ∅ kind)).storeFor .source = _ :=
        keepsStores_purgeMissing .source _
      rw [Handler.leaves, e] at hkeep
      exact hkeep.trans (storeFor_setStore.trans (if_neg (source_ne hk)))
    rw [if_pos hk, Handler.run_bind_ok e]
    exact hrest c₁ hst fun _ => (hd hk).congr hsource
  · rw [if_neg hk]
    exact hrest _ hempty fun h => absurd h hk

theorem get?_foldl_put {ps : List (String × J)} {d : Dict String J} {id : String} (hn : (ps.map Prod.fst).Nodup)
    (h : ∀ p ∈ ps, resourceId p.2 = some p.1) : ((ps.map Prod.snd).foldl put d).get? id =
      ((ps.find? (·.1 = id)).map Prod.snd).or (d.get? id) := by
  induction ps generalizing d with
  | nil => rfl
  | cons p ps ih =>
    have hn := List.nodup_cons.mp hn
    rw [List.map_cons, List.foldl_cons, ih hn.2 fun q hq => h q (by simp [hq]), put, h p (by simp), Dict.get?_set]
    by_cases hid : p.1 = id
    · have hnone : ps.find? (·.1 = id) = none := by
        rw [List.find?_eq_none]
        intro q hq he
        exact hn.1 (List.mem_map.mpr ⟨q, hq, (of_decide_eq_true he).trans hid.symm⟩)
      simp [hid, hnone]
    · simp [hid, Ne.symm hid]

-- A bulk replace by the resources of a dictionary, each under its own id.
theorem get?_replaceAll {d : Dict String J} {id : String} (hd : ∀ id r, d.get? id = some r → resourceId r = some id)
    (h : ∀ id r, d.get? id = some r → Installs kind r) (hs : (statusKindOf kind).isSome → Decoded c) :
    (((replaceAll kind d.values).leaves c).storeFor kind).get? id = d.get? id := by
  rw [storeFor_replaceAll (fun r hr => (Dict.mem_values.mp hr).elim fun id => h id r) hs]
  refine (get?_foldl_put d.nodup fun p hp => hd p.1 p.2 (Dict.get?_eq_some.mpr hp)).trans ?_
  rw [Dict.get?_empty, Option.or_none]
  rfl

theorem deriveAll_ok (h : ∀ id r, (c.storeFor k.kind).get? id = some r → ∃ s, subscription r = .ok s) (hd : Decoded c) :
    ∃ events c', (deriveAll k).run c = (.ok events, c') := by
  have hcollect (ps : List (String × J)) (hps : ps ⊆ (c.storeFor k.kind).items) (c₁ : ResourceCache J P) (hd : Decoded c₁) :
      ∃ events c', (collect (fun (p : String × J) => do
        let c ← get
        deriveEvents k p.1 p.2 (c.findMonitorSource p.1)) ps).run c₁ = (.ok events, c') := by
    induction ps generalizing c₁ with
    | nil => exact ⟨[], c₁, rfl⟩
    | cons p ps ih =>
      have hp : (c.storeFor k.kind).get? p.1 = some p.2 := Dict.get?_eq_some.mpr (hps (by simp))
      obtain ⟨events, c₂, e⟩ := derive_ok (c := c₁) p.1 (c₁.findMonitorSource p.1) (h p.1 p.2 hp) (hd.monitor p.1)
      have hsource : c₂.storeFor .source = c₁.storeFor .source := by
        have hkeep : ((deriveEvents k p.1 p.2 (c₁.findMonitorSource p.1)).leaves c₁).storeFor .source = _ :=
          keepsStores_deriveEvents .source _
        rwa [Handler.leaves, e] at hkeep
      obtain ⟨more, c₃, e'⟩ := ih (fun q hq => hps (by simp [hq])) c₂ (hd.congr hsource)
      refine ⟨events ++ more, c₃, ?_⟩
      rw [collect, Handler.run_bind_ok ((Handler.run_bind_ok Handler.run_get).trans e), Handler.run_bind_ok e']
      rfl
  exact hcollect _ (fun _ => id) c hd

-- To clear a kind does not raise, but for the Sources where a sender or a receiver cannot be read.
theorem replaceAll_nil (kind : ResourceKind) (h : kind = .source → ∀ (k : StatusKind) id r, (c.storeFor k.kind).get? id = some r →
    ∃ s, subscription r = .ok s) : ∃ events c', (replaceAll kind []).run c = (.ok events, c') := by
  unfold replaceAll
  rw [Handler.run_bind_ok Handler.run_modify]
  by_cases hk : kind = .source
  · subst hk
    have hst (k : StatusKind) : (c.setStore ∅ .source).storeFor k.kind = c.storeFor k.kind := by
      cases k <;> rfl
    have hnone : Decoded (c.setStore ∅ .source) := fun id source hg => (by cases hg)
    obtain ⟨senders, c₁, e₁⟩ := deriveAll_ok (c := c.setStore ∅ .source) (k := .sender) (by
      rw [hst]
      exact h rfl .sender) hnone
    have hst₁ (kind : ResourceKind) : c₁.storeFor kind = (c.setStore ∅ .source).storeFor kind := by
      have hkeep : ((deriveAll .sender).leaves (c.setStore ∅ .source)).storeFor kind = _ := keepsStores_deriveAll kind _
      rwa [Handler.leaves, e₁] at hkeep
    obtain ⟨receivers, c₂, e₂⟩ := deriveAll_ok (c := c₁) (k := .receiver) (by
      rw [hst₁, hst]
      exact h rfl .receiver) (hnone.congr (hst₁ .source))
    refine ⟨[] ++ senders ++ receivers, c₂, ?_⟩
    rw [if_neg (by decide), collect, Handler.run_bind_ok Handler.run_pure, if_pos rfl, Handler.run_bind_ok e₁,
      Handler.run_bind_ok e₂]
    rfl
  · by_cases hs : (statusKindOf kind).isSome
    · obtain ⟨c₁, e⟩ := purgeMissing_ok [] (c := c.setStore ∅ kind) (fun _ h => by cases h) hs
      refine ⟨[], c₁, ?_⟩
      rw [if_pos hs, Handler.run_bind_ok e, collect, Handler.run_bind_ok Handler.run_pure, if_neg hk]
      rfl
    · refine ⟨[], c.setStore ∅ kind, ?_⟩
      rw [if_neg hs, collect, Handler.run_bind_ok Handler.run_pure, if_neg hk]
      rfl

end ReplaceAll
end Controller.ResourceCache
