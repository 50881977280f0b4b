import NmosReference.Controller.CacheStores

-- Whether the status the cache keeps is the one that is derived from the resources it holds.
namespace Controller

variable {J P : Type}

-- The statuses that a listener holds which replaces its own on each event.
abbrev Copy (J : Type) :=
  Dict String (Option (ResourceStatus J))

def listen (copy : Copy J) (events : List (StatusChanged J P)) : Copy J :=
  events.foldl (fun copy ev => copy.set ev.resourceId ev.status) copy

namespace ResourceCache

variable {c c' c₁ c₂ : ResourceCache J P} {kind : ResourceKind} {k : StatusKind} {id sid rid : String}
  {m m' : Mutation J P (List (StatusChanged J P))} {r : J} {copy : Copy J}

-- The listener's copy is up to date.
def InStep (c : ResourceCache J P) (copy : Copy J) : Prop :=
  ∀ id s, c.status.get? id = some s → copy.get? id = some (some s)

-- The program finishes, and its events keep a listener up to date.
def Does (m : Mutation J P (List (StatusChanged J P))) (c c' : ResourceCache J P) : Prop :=
  ∃ events, m.run c = (.ok events, c') ∧ ∀ copy, c.InStep copy → c'.InStep (listen copy events)

theorem does_nil : Does (pure []) c c :=
  ⟨[], rfl, fun _ => id⟩

theorem Does.append (h : Does m c c₁) (h' : Does m' c₁ c₂) :
    Does (do let events ← m; let more ← m'; return events ++ more) c c₂ := by
  obtain ⟨es, e, hs⟩ := h
  obtain ⟨es', e', hs'⟩ := h'
  refine ⟨es ++ es', ?_, fun copy hc => ?_⟩
  · rw [Handler.run_bind_ok e, Handler.run_bind_ok e']
    rfl
  · rw [listen, List.foldl_append]
    exact hs' _ (hs _ hc)

theorem Does.after {α : Type} {m : Mutation J P α} {f : α → Mutation J P (List (StatusChanged J P))} {a : α}
    (e : m.run c = (.ok a, c₁)) (hs : c₁.status = c.status) (h : Does (f a) c₁ c') : Does (m >>= f) c c' := by
  obtain ⟨events, e', hi⟩ := h
  exact ⟨events, (Handler.run_bind_ok e).trans e', fun copy hc => hi copy fun id s h => hc id s (hs ▸ h)⟩

theorem does_collect {α : Type} {f : α → Mutation J P (List (StatusChanged J P))} (xs : List α)
    {R : List α → ResourceCache J P → Prop} (hR : R xs c)
    (h : ∀ x xs c, R (x :: xs) c → ∃ c', Does (f x) c c' ∧ R xs c') :
    ∃ c', Does (collect f xs) c c' ∧ R [] c' := by
  induction xs generalizing c with
  | nil => exact ⟨c, does_nil, hR⟩
  | cons x xs ih =>
    obtain ⟨c₁, hd, hR⟩ := h x xs c hR
    obtain ⟨c₂, hd', hR⟩ := ih hR
    exact ⟨c₂, hd.append hd', hR⟩

-- A program that does no more than match flows.
def Quiet (m : Mutation J P (List (StatusChanged J P))) (c : ResourceCache J P) : Prop :=
  ∃ fm, Does m c { c with flowMatch := fm }

theorem quiet_nil : Quiet (pure []) c :=
  ⟨c.flowMatch, does_nil⟩

theorem Quiet.bind {α : Type} {m : Mutation J P α} {f : α → Mutation J P (List (StatusChanged J P))} {a : α}
    {fm : Dict String P} (e : m.run c = (.ok a, { c with flowMatch := fm }))
    (h : Quiet (f a) { c with flowMatch := fm }) : Quiet (m >>= f) c := by
  obtain ⟨fm', events, e', hs⟩ := h
  exact ⟨fm', events, (Handler.run_bind_ok e).trans e', fun copy hc => hs copy hc⟩

theorem quiet_collect {α : Type} {f : α → Mutation J P (List (StatusChanged J P))} {xs : List α}
    (h : ∀ x ∈ xs, ∀ fm, Quiet (f x) { c with flowMatch := fm }) : Quiet (collect f xs) c := by
  obtain ⟨c', hd, fm, -, rfl⟩ := does_collect (f := f) (c := c) xs
    (R := fun ys c' => ∃ fm, ys ⊆ xs ∧ c' = { c with flowMatch := fm }) ⟨c.flowMatch, by simp, rfl⟩ (by
      rintro x ys _ ⟨fm, hs, rfl⟩
      obtain ⟨fm', hd⟩ := h x (hs (by simp)) fm
      exact ⟨_, hd, fm', fun y hy => hs (by simp [hy]), rfl⟩)
  exact ⟨fm, hd⟩

variable [Json J]

-- Every preference that a constraint set of the sender gives is a number.
def Preferred (r : J) : Prop :=
  ∀ sets, constraintSets r = some sets → ∀ cs ∈ (Json.list sets).getD [], Json.isDict cs → ∃ n, preference cs = .ok n

-- Nothing in the resource makes the calls that read it raise.
def Readable : ResourceKind → J → Prop
  | .sender,   r => (∃ s, subscription r = .ok s) ∧ (∀ d : Dict String J, ∃ f, lookup d r "flow_id" = .ok f) ∧ Preferred r
  | .receiver, r => ∃ s, subscription r = .ok s
  | .flow,     r => (∀ d : Dict String J, ∃ s, lookup d r "source_id" = .ok s) ∧
    ∀ pid ∈ parents r, Json.truthy pid → Json.hashable pid
  | .source,   r => Decodes r
  | _,         _ => True

def Calm (c : ResourceCache J P) : Prop :=
  ∀ kind id r, (c.storeFor kind).get? id = some r → Readable kind r

theorem Calm.decoded (h : Calm c) : Decoded c :=
  fun id source hg => h .source id source hg

theorem Calm.flowMatch (h : Calm c) (fm : Dict String P) : Calm { c with flowMatch := fm } := by
  intro kind id r hr
  exact h kind id r (by cases kind <;> exact hr)

omit [Json J] in
theorem InStep.set (h : c.InStep copy) : c.InStep (copy.set id (c.status.get? id)) := by
  intro id' s hs
  rw [Dict.get?_set]
  split
  · subst id'
    rw [hs]
  · exact h id' s hs

variable [FlowMatcher J P] [DecidableEq P]

omit [FlowMatcher J P] [DecidableEq P] in
theorem receiverEvents_quiet (sid : String) (h : Calm c) (payload : Option P) :
    Quiet (receiverFlowMatchEvents sid payload) c := by
  cases payload with
  | none => exact quiet_nil
  | some payload =>
    refine Quiet.bind (a := c) rfl (quiet_collect fun p hp fm => ?_)
    obtain ⟨s, hs⟩ := h .receiver p.1 p.2 (Dict.get?_eq_some.mpr hp)
    refine Quiet.bind (a := s) (by rw [hs]; rfl) ?_
    split
    · exact quiet_nil
    · refine ⟨fm.set p.1 payload, _, rfl, fun copy hc => ?_⟩
      exact hc.set

-- The lookups of a flow's source do not raise for a flow of the cache.
omit [FlowMatcher J P] [DecidableEq P] in
theorem lookup_flow (h : Calm c) (hr : Readable .sender r) : ∃ flow, lookup c.flows r "flow_id" = .ok flow ∧
    ∀ f, flow = some f → Readable .flow f := by
  obtain ⟨flow, hf⟩ := hr.2.1 c.flows
  refine ⟨flow, hf, fun f hs => ?_⟩
  subst hs
  unfold lookup at hf
  split at hf
  · cases hf
  · split at hf
    · have hf := Except.ok.inj hf
      obtain ⟨id, -, hid⟩ := Option.bind_eq_some_iff.mp hf
      exact h .flow id f hid
    · cases hf

section FlowMatch

omit [DecidableEq P]

theorem subFlowCaps_ok (h : Calm c) (node : Option J) {pid : J} (hp : Json.truthy pid → Json.hashable pid) :
    ∃ caps, c.subFlowCaps (P := P) node pid = .ok caps := by
  unfold subFlowCaps
  split
  case isTrue     => exact ⟨none, rfl⟩
  case isFalse ht =>
    rw [if_neg (by simpa using hp (by simpa using ht))]
    split
    case h_1         => exact ⟨none, rfl⟩
    case h_2 sub hs =>
      obtain ⟨id, -, hid⟩ := Option.bind_eq_some_iff.mp (Option.filter_eq_some_iff.mp hs).1
      obtain ⟨source, hsource⟩ := (h .flow id sub hid).1 c.sources
      exact ⟨_, by rw [hsource]; rfl⟩

theorem addSubFlows_ok (h : Calm c) (node : Option J) (ops : Dict String (FlowMatcher.CapSet J P)) {pids : List J}
    (hp : ∀ pid ∈ pids, Json.truthy pid → Json.hashable pid) : ∃ ops', c.addSubFlows node ops pids = .ok ops' := by
  induction pids generalizing ops with
  | nil           => exact ⟨ops, rfl⟩
  | cons pid pids ih =>
    obtain ⟨caps, hc⟩ := subFlowCaps_ok h node (hp pid (by simp))
    obtain ⟨ops', ho⟩ := ih (addPart ops caps) fun pid hm => hp pid (by simp [hm])
    exact ⟨ops', by rw [addSubFlows, hc]; exact ho⟩

theorem operatingCapsets_ok (h : Calm c) {flow : Option J} (source : Option J)
    (hf : ∀ f, flow = some f → Readable .flow f) : ∃ ops, c.operatingCapsets (P := P) flow source = .ok ops := by
  unfold operatingCapsets
  cases hd : flow.filter Json.isDict with
  | none   => exact ⟨∅, rfl⟩
  | some f => exact addSubFlows_ok h _ _ (hf f (Option.filter_eq_some_iff.mp hd).1).2

theorem rankSets_ok {ops : Dict String (FlowMatcher.CapSet J P)} {sets : List (J × Nat)}
    (hp : ∀ q ∈ sets, Json.isDict q.1 → ∃ n, preference q.1 = .ok n) (best : Dict String Rank) :
    ∃ best', rankSets ops sets best = .ok best' := by
  induction sets generalizing best with
  | nil        => exact ⟨best, rfl⟩
  | cons q sets ih =>
    obtain ⟨cs, i⟩ := q
    have ih := ih fun q hq => hp q (by simp [hq])
    unfold rankSets
    cases hm : matched ops cs with
    | none          => exact ih best
    | some declared =>
      have hdict : Json.isDict cs := by
        by_contra hno
        simp [matched, hno] at hm
      obtain ⟨n, hn⟩ := hp (cs, i) (by simp) hdict
      dsimp only at hn
      rw [hn]
      exact ih _

theorem flowMatch_ok (h : Calm c) {flow : Option J} (source : Option J) {sets : J}
    (hf : ∀ f, flow = some f → Readable .flow f)
    (hp : ∀ cs ∈ (Json.list sets).getD [], Json.isDict cs → ∃ n, preference cs = .ok n) :
    ∃ payload, c.flowMatchForSender (P := P) flow source sets = .ok payload := by
  unfold flowMatchForSender
  split
  case h_1 => exact ⟨_, rfl⟩
  case h_2 =>
    obtain ⟨ops, ho⟩ := operatingCapsets_ok h source hf
    obtain ⟨best, hb⟩ : ∃ best, rankSets ops ((Json.list sets).getD []).zipIdx ∅ = .ok best :=
      rankSets_ok (fun q hq => hp q.1 (List.fst_mem_of_mem_zipIdx hq)) ∅
    simp only [ho, hb, bind, Except.bind]
    split <;> exact ⟨_, rfl⟩

end FlowMatch

theorem recompute_quiet (sid : String) (h : Calm c) : ∃ payload changed fm,
    (recomputeSenderFlowMatch sid).run c = (.ok (payload, changed), { c with flowMatch := fm }) := by
  rw [recomputeSenderFlowMatch, Handler.run_bind_ok Handler.run_get]
  dsimp only
  split
  · exact ⟨none, false, c.flowMatch, rfl⟩
  · rename_i sender sets hs
    obtain ⟨sender', hsender, hs⟩ := Option.bind_eq_some_iff.mp hs
    obtain ⟨sets', hsets, hs⟩ := Option.bind_eq_some_iff.mp hs
    cases hs
    have hread := h .sender sid sender hsender
    obtain ⟨flow, hf, hr⟩ := lookup_flow h hread
    have hmatch (source : Option J) := flowMatch_ok (P := P) h source hr (hread.2.2 sets hsets)
    rw [hf, Handler.run_bind_ok Handler.run_ofExcept]
    cases hd : flow.filter Json.isDict with
    | none =>
      obtain ⟨payload, hm⟩ := hmatch none
      rw [Handler.run_bind_ok Handler.run_pure, hm]
      exact ⟨_, _, _, rfl⟩
    | some f =>
      obtain ⟨source, hsource⟩ := (hr f (Option.filter_eq_some_iff.mp hd).1).1 c.sources
      obtain ⟨payload, hm⟩ := hmatch source
      dsimp only
      rw [hsource, Handler.run_bind_ok Handler.run_ofExcept, hm]
      exact ⟨_, _, _, rfl⟩

theorem senderEvents_quiet (h : Calm c) (force : Bool) : Quiet (senderFlowMatchEvents force sid) c := by
  obtain ⟨payload, changed, fm, e⟩ := recompute_quiet sid h
  refine .bind e ?_
  cases payload with
  | none => exact quiet_nil
  | some payload =>
    dsimp only
    split
    · obtain ⟨fm', events, er, hs⟩ := receiverEvents_quiet sid (h.flowMatch fm) (some payload)
      refine ⟨fm', _, (Handler.run_bind_ok Handler.run_get).trans (Handler.run_bind_ok er), fun copy hc => ?_⟩
      exact hs _ (InStep.set hc)
    · exact quiet_nil

theorem flowEvents_quiet (rid : String) (h : Calm c) (force : Bool) : Quiet (flowMatchEventsForFlow rid force) c := by
  refine Quiet.bind (a := c) rfl (quiet_collect fun p hp fm => ?_)
  split
  · exact quiet_nil
  · exact senderEvents_quiet (h.flowMatch fm) force

theorem sourceEvents_quiet (rid : String) (h : Calm c) (force : Bool) : Quiet (flowMatchEventsForSource rid force) c := by
  refine Quiet.bind (a := c) rfl (quiet_collect fun p hp fm => ?_)
  refine Quiet.bind (a := { c with flowMatch := fm }) rfl ?_
  obtain ⟨flow, hf, -⟩ := lookup_flow h (h .sender p.1 p.2 (Dict.get?_eq_some.mpr hp))
  refine Quiet.bind (a := flow) (by rw [hf]; rfl) ?_
  split
  · exact quiet_nil
  · exact senderEvents_quiet (h.flowMatch fm) force

-- The cache with one status recorded anew.
structure Records (c : ResourceCache J P) (id : String) (s : ResourceStatus J) (c' : ResourceCache J P) : Prop where
  stores : ∀ kind, c'.storeFor kind = c.storeFor kind
  status : ∀ id', c'.status.get? id' = if id' = id then some s else c.status.get? id'

omit [Json J] [FlowMatcher J P] [DecidableEq P] in
theorem storeFor_setStatus {s : ResourceStatus J} : (c.setStatus id s).storeFor kind = c.storeFor kind := by
  cases kind <;> rfl

omit [FlowMatcher J P] [DecidableEq P] in
theorem derive_records {s : ResourceStatus J} {mon : Option J} (id : String) (he : extractStatus k r mon = .ok s) :
    ∃ c' changed, (derive k id r mon).run c = (.ok (s, changed), c') ∧ c.Records id s c' ∧
      ∀ copy, c.InStep copy → c'.InStep (copy.set id (some s)) ∧ (changed = false → c'.InStep copy) := by
  rw [derive, he, Handler.run_bind_ok Handler.run_ofExcept, Handler.run_bind_ok Handler.run_get]
  by_cases hs : c.status.get? id = some s
  · refine ⟨c, false, by rw [if_neg (not_not.mpr hs)]; rfl, ⟨fun _ => rfl, fun id' => ?_⟩, fun copy hc => ⟨?_, fun _ => hc⟩⟩
    · split
      · subst id'
        exact hs
      · rfl
    · rw [← hs]
      exact hc.set
  · refine ⟨c.setStatus id s, true, by rw [if_pos hs]; rfl, ⟨fun _ => storeFor_setStatus, fun id' => Dict.get?_set⟩,
      fun copy hc => ⟨fun id' s' hs' => ?_, fun h => by cases h⟩⟩
    have hs' : (if id' = id then some s else c.status.get? id') = some s' := Dict.get?_set.symm.trans hs'
    rw [Dict.get?_set]
    split
    · rw [if_pos ‹_›] at hs'
      rw [hs']
    · rw [if_neg ‹_›] at hs'
      exact hc id' s' hs'

omit [FlowMatcher J P] [DecidableEq P] in
theorem deriveEvents_records {s : ResourceStatus J} {mon : Option J} (id : String) (he : extractStatus k r mon = .ok s) :
    ∃ c', Does (deriveEvents k id r mon) c c' ∧ c.Records id s c' := by
  obtain ⟨c', changed, e, hr, hc⟩ := derive_records id (c := c) he
  refine ⟨c', ⟨_, Handler.run_bind_ok e, fun copy hi => ?_⟩, hr⟩
  cases changed with
  | true => exact (hc copy hi).1
  | false => exact (hc copy hi).2 rfl

theorem upsertStatusKind_records {s : ResourceStatus J} (prev : Option J) (hc : Calm c)
    (he : extractStatus k r (c.findMonitorSource rid) = .ok s) :
    ∃ c', Does (upsertStatusKind k rid r prev) c c' ∧ c.Records rid s c' := by
  obtain ⟨c', changed, e, hr, hi⟩ := derive_records rid (c := c) he
  have hcalm : Calm c' := fun kind id r h => hc kind id r (hr.stores kind ▸ h)
  unfold upsertStatusKind
  cases k with
  | receiver =>
    refine ⟨c', ⟨_, (Handler.run_bind_ok Handler.run_get).trans (Handler.run_bind_ok e), fun copy h => ?_⟩, hr⟩
    cases changed with
    | true => exact (hi copy h).1
    | false => exact (hi copy h).2 rfl
  | sender =>
    obtain ⟨payload, fmChanged, fm, ep⟩ := recompute_quiet rid hcalm
    have hstores (fm : Dict String P) : c.Records rid s { c' with flowMatch := fm } :=
      ⟨fun kind => by rw [← hr.stores kind]; cases kind <;> rfl, hr.status⟩
    cases hfire : fmChanged || decide (prev.bind (Json.get · "flow_id") ≠ Json.get r "flow_id") with
    | true =>
      obtain ⟨fm', events, er, hs⟩ := receiverEvents_quiet rid (hcalm.flowMatch fm) payload
      refine ⟨_, ⟨⟨.sender, rid, some s, payload⟩ :: events, ?_, fun copy h => hs _ (hi copy h).1⟩, hstores fm'⟩
      rw [Handler.run_bind_ok Handler.run_get, Handler.run_bind_ok e]
      dsimp only
      rw [Handler.run_bind_ok ep]
      dsimp only
      rw [hfire, if_pos rfl, Handler.run_bind_ok er, Bool.or_true]
      rfl
    | false =>
      refine ⟨_, ⟨if changed then [⟨.sender, rid, some s, none⟩] else [], ?_, fun copy h => ?_⟩, hstores fm⟩
      · rw [Handler.run_bind_ok Handler.run_get, Handler.run_bind_ok e]
        dsimp only
        rw [Handler.run_bind_ok ep]
        dsimp only
        rw [hfire, if_neg (by decide), Bool.or_false]
        cases changed <;> rfl
      · cases changed with
        | true => exact (hi copy h).1
        | false => exact (hi copy h).2 rfl

end ResourceCache
end Controller
